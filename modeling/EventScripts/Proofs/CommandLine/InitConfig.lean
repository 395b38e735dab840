import EventScripts.CommandLine.Launch
import EventScripts.Proofs.Settings.Saving
/-!
# A first settings file

A first settings file is made where its path leads nowhere. The path is looked at
before the directories above it are made, and with dot-dot in it it may lead to
something afterwards: a file that is there is overwritten in that case, and in no
other (`initConfig_overwrites_iff`). When it has gone well, loading the path gives the
settings that the file was made from.

`SPEC_FULL.md` §10.6 (Runner) wants an existing file never to be overwritten.
-/

namespace EventScripts

namespace Settings

/-- What a first settings file says. -/
def initialText : String := initial.render?.getD ""

theorem render?_initial : initial.render? = some initialText := by decide +kernel

theorem read?_initialText : read? initialText = some initial := by decide +kernel

variable {files : FileSystem} {path : Path} {at_ : Location} {content : Content}

/-- The path leads nowhere, but to a file once the directories above it have been made. -/
def Uncovers (files : FileSystem) (path : Path) (at_ : Location) : Prop :=
  files.exists? path = false ∧ (makeParent files path).2 = .ok () ∧
    ∃ content, (makeParent files path).1.find path = .ok (at_, .file content)

/-- Only a path with dot-dot in it is one of that kind. -/
theorem up_of_uncovers (hwf : files.WellFormed) (h : Uncovers files path at_) :
    .up ∈ path.components := by
  obtain ⟨hnone, hmade, content, hfind⟩ := h
  by_contra hup
  suffices hstill : (makeParent files path).1.exists? path = false by
    rw [FileSystem.exists?, hfind] at hstill
    cases hstill
  unfold makeParent at hmade ⊢
  split
  · next parent hparent =>
    rw [hparent] at hmade
    exact FileSystem.exists?_of_makeDirectories hwf hup hparent (Prod.ext rfl hmade) hnone
  · exact hnone

theorem entry?_of_uncovers (h : Uncovers files path at_) :
    FileSystem.entry? (initial.save files path).1 at_ = some (.file (.text initialText)) := by
  obtain ⟨-, hmade, content, hfind⟩ := h
  have hne : at_ ≠ [] := by
    rintro rfl
    cases FileSystem.entry?_of_walk (FileSystem.find_eq_ok.1 hfind).2
  rw [save, Codec.save_of_made render?_initial hmade, FileSystem.write_of_find (.text initialText) hfind]
  exact FileSystem.entry?_put_self _ hne _

/-- **What saving does to a file**: it is overwritten if the path comes to lead to it, and kept if
not. -/
theorem save_initial_overwrites_iff (hwf : files.WellFormed) (hnone : files.exists? path = false)
    (he : files.entry? at_ = some (.file content)) :
    FileSystem.entry? (initial.save files path).1 at_ ≠ some (.file content) ↔
      Uncovers files path at_ ∧ content ≠ .text initialText := by
  obtain ⟨hgrown, hwell⟩ := grown_makeParent hwf path
  have hkept := hgrown.kept at_ _ he
  refine ⟨fun hchanged => ?_, fun ⟨huncovers, hne⟩ hsame => ?_⟩
  · cases hmade : (makeParent files path).2 with
    | error e =>
      rw [save, Codec.save_of_not_made _ initial hmade] at hchanged
      exact absurd hkept hchanged
    | ok =>
      rw [save, Codec.save_of_made render?_initial hmade] at hchanged
      split at hchanged
      · exact absurd hkept hchanged
      · next after hwrite =>
        obtain ⟨written, hwritten, -, hbefore⟩ := FileSystem.written_of_write hwell hwrite
        have hat : at_ = written := by
          by_contra hat
          rw [hwritten.kept at_ hat] at hchanged
          exact hchanged hkept
        subst hat
        obtain ⟨old, hfind⟩ | hmissing := hbefore
        · refine ⟨⟨hnone, hmade, old, hfind⟩, ?_⟩
          rintro rfl
          exact hchanged hwritten.file
        · rw [hmissing] at hkept
          cases hkept
  · rw [entry?_of_uncovers huncovers] at hsame
    exact hne (Entry.file.inj (Option.some.inj hsame)).symm

end Settings

namespace CommandLine

variable {files : FileSystem} {env : Environment} {options : Options}

/-- Where a first settings file goes. -/
def Options.firstFile? (options : Options) (env : Environment) : Option Path :=
  options.config.or (Settings.defaultPath? env)

/-- What a run that makes a first settings file comes to. -/
structure FirstFile (options : Options) (env : Environment) (files : FileSystem)
    (outcome : Outcome) : Prop where
  /-- A file is overwritten if the path comes to lead to it, and kept if not. -/
  overwrites_iff (at_ : Location) (content : Content)
    (h : files.entry? at_ = some (.file content)) :
    outcome.files.entry? at_ ≠ some (.file content) ↔ ∃ path, options.firstFile? env = some path ∧
      Settings.Uncovers files path at_ ∧ content ≠ .text Settings.initialText
  /-- Without dot-dot in it, no path does. -/
  up : ∀ path at_, options.firstFile? env = some path → Settings.Uncovers files path at_ →
    .up ∈ path.components
  /-- If it has gone well, the settings are loaded from the file. -/
  loads : outcome.code = 0 → ∃ path, options.firstFile? env = some path ∧
    Settings.load outcome.files path
      = .ok (Settings.initial, Settings.note s!"Loaded config from {path.text}")

/-- A run that makes a first settings file stops where there is a file, or saves the settings. -/
theorem initConfig_cases (options : Options) (env : Environment) (files : FileSystem) :
    ((initConfig options.config env files).files = files ∧
      (initConfig options.config env files).code = 1 ∧
      ∀ path, options.firstFile? env = some path → files.exists? path = true) ∨
    ∃ path, options.firstFile? env = some path ∧ files.exists? path = false ∧
      (initConfig options.config env files).files = (Settings.initial.save files path).1 ∧
      ((initConfig options.config env files).code = 0 →
        ∃ record, (Settings.initial.save files path).2 = .ok record) := by
  unfold initConfig Options.firstFile?
  cases options.config.or (Settings.defaultPath? env) with
  | none => exact .inl ⟨rfl, rfl, nofun⟩
  | some path =>
    cases hexists : files.exists? path with
    | true =>
      simp only [hexists, if_true]
      exact .inl ⟨rfl, rfl, fun other hother => by rwa [← Option.some.inj hother]⟩
    | false =>
      refine .inr ⟨path, rfl, hexists, ?_⟩
      simp only [hexists, Bool.false_eq_true, if_false]
      generalize Settings.initial.save files path = saved
      obtain ⟨after, e | record⟩ := saved
      · exact ⟨rfl, nofun⟩
      · exact ⟨rfl, fun _ => ⟨record, rfl⟩⟩

theorem firstFile_initConfig (hwf : files.WellFormed) (options : Options) (env : Environment) :
    FirstFile options env files (initConfig options.config env files) := by
  have hup : ∀ path at_, options.firstFile? env = some path → Settings.Uncovers files path at_ →
      .up ∈ path.components := fun path at_ _ h => Settings.up_of_uncovers hwf h
  rcases initConfig_cases options env files with
    ⟨hfiles, hcode, hthere⟩ | ⟨path, hpath, hnone, hfiles, hgood⟩
  · refine ⟨fun at_ content he => ⟨fun hchanged => ?_, ?_⟩, hup, fun hzero => ?_⟩
    · rw [hfiles] at hchanged
      exact absurd he hchanged
    · rintro ⟨path, hpath, ⟨hnone, -⟩, -⟩
      rw [hthere path hpath] at hnone
      cases hnone
    · rw [hcode] at hzero
      cases hzero
  · refine ⟨fun at_ content he => ?_, hup, fun hzero => ⟨path, hpath, ?_⟩⟩
    · rw [hfiles, Settings.save_initial_overwrites_iff hwf hnone he]
      refine ⟨fun h => ⟨path, hpath, h⟩, ?_⟩
      rintro ⟨other, hother, h⟩
      rwa [Option.some.inj (hpath.symm.trans hother)]
    · obtain ⟨record, hrecord⟩ := hgood hzero
      rw [hfiles]
      exact Settings.Codec.load_of_save hwf Settings.render?_initial Settings.read?_initialText
        (Prod.ext rfl hrecord)

/-- **A run that makes a first settings file** ends, and overwrites a file only if its path comes
to lead to it when the directories above are made. -/
theorem initConfig_overwrites_iff {words : List String} (hwf : files.WellFormed)
    (hread : read words = .run options) (hinit : options.initConfig = true) :
    ∃ outcome, launch words env files = .ended outcome ∧ FirstFile options env files outcome := by
  refine ⟨initConfig options.config env files, ?_, firstFile_initConfig hwf options env⟩
  simp only [launch, hread, start, hinit, if_true]

/-- A settings file beside a directory that is not there. -/
def settingsBeside : FileSystem where
  entries := [(["R", "skhost.toml"], .file (.text "[logging]\nfile = true\n")), (["R"], .directory)]
  distinct := by decide

theorem wellFormed_settingsBeside : settingsBeside.WellFormed :=
  FileSystem.wellFormed_of_entries (by decide) rfl nofun

theorem read_init_beside : read ["--init-config", "-c", "/R/d/../skhost.toml"]
    = .run { config := some ⟨"/R/d/../skhost.toml"⟩, initConfig := true } := by decide +kernel

theorem initConfig_overwrites_iff_beside :
    (settingsBeside.WellFormed ∧ read ["--init-config", "-c", "/R/d/../skhost.toml"]
      = .run { config := some ⟨"/R/d/../skhost.toml"⟩, initConfig := true }) ∧
    ∃ outcome, launch ["--init-config", "-c", "/R/d/../skhost.toml"] {} settingsBeside
      = .ended outcome ∧
      FirstFile { config := some ⟨"/R/d/../skhost.toml"⟩, initConfig := true } {} settingsBeside
        outcome :=
  ⟨⟨wellFormed_settingsBeside, read_init_beside⟩,
    initConfig_overwrites_iff wellFormed_settingsBeside read_init_beside rfl⟩

/-- The directory `d` is made, and then `d/..` leads to where the file is. -/
theorem uncovers_settingsBeside :
    Settings.Uncovers settingsBeside ⟨"/R/d/../skhost.toml"⟩ ["R", "skhost.toml"] := by
  have hparent : (⟨"/R/d/../skhost.toml"⟩ : Path).parent? = some ⟨"/R/d/.."⟩ := by decide +kernel
  have hancestors : (⟨"/R/d/.."⟩ : Path).ancestors
      = [⟨"/R/d/.."⟩, ⟨"/R/d"⟩, ⟨"/R"⟩, ⟨"/"⟩] := by decide +kernel
  have hfile : FileSystem.steps ⟨"/R/d/../skhost.toml"⟩
      = [.down "R", .down "d", .up, .down "skhost.toml"] := by decide +kernel
  have hback : FileSystem.steps ⟨"/R/d/.."⟩ = [.down "R", .down "d", .up] := by decide +kernel
  have hdown : FileSystem.steps ⟨"/R/d"⟩ = [.down "R", .down "d"] := by decide +kernel
  have hbefore : settingsBeside.entry? ["R"] = some .directory ∧
      settingsBeside.entry? ["R", "d"] = none := by decide
  obtain ⟨made, hput⟩ : ∃ made, settingsBeside.put ["R", "d"] .directory = made := ⟨_, rfl⟩
  have hafter : made.entry? ["R"] = some .directory ∧ made.entry? ["R", "d"] = some .directory ∧
      made.entry? ["R", "skhost.toml"] = some (.file (.text "[logging]\nfile = true\n")) := by
    rw [← hput]
    decide
  have hmade : Settings.makeParent settingsBeside ⟨"/R/d/../skhost.toml"⟩ = (made, .ok ()) := by
    simp [Settings.makeParent, hparent, FileSystem.makeDirectories, hancestors,
      FileSystem.makeDirectoriesAlong, FileSystem.makeDirectory, FileSystem.isDirectory,
      FileSystem.find, FileSystem.resolve, FileSystem.walk, FileSystem.atEnd, Path.isAbsolute,
      hback, hdown, hbefore, hput, hafter]
  refine ⟨?_, congrArg Prod.snd hmade, .text "[logging]\nfile = true\n", ?_⟩
  · simp [FileSystem.exists?, FileSystem.find, FileSystem.resolve, FileSystem.walk,
      FileSystem.atEnd, Path.isAbsolute, Except.isOk, Except.toBool, hfile, hbefore]
  · simp [hmade, FileSystem.find, FileSystem.resolve, FileSystem.walk, Path.isAbsolute, hfile,
      hafter]

/-- A run overwrites settings that were there. -/
theorem initConfig_overwrites_beside :
    settingsBeside.entry? ["R", "skhost.toml"] = some (.file (.text "[logging]\nfile = true\n")) ∧
    ∃ outcome, launch ["--init-config", "-c", "/R/d/../skhost.toml"] {} settingsBeside
      = .ended outcome ∧
      outcome.files.entry? ["R", "skhost.toml"] ≠
        some (.file (.text "[logging]\nfile = true\n")) := by
  have hbefore : settingsBeside.entry? ["R", "skhost.toml"]
      = some (.file (.text "[logging]\nfile = true\n")) := by decide
  refine ⟨hbefore, initConfig (some ⟨"/R/d/../skhost.toml"⟩) {} settingsBeside, ?_, ?_⟩
  · simp only [launch, read_init_beside, start, if_true]
  · refine ((firstFile_initConfig wellFormed_settingsBeside
      { config := some ⟨"/R/d/../skhost.toml"⟩, initConfig := true } {}).overwrites_iff
      _ _ hbefore).2 ⟨_, rfl, uncovers_settingsBeside, ?_⟩
    decide +kernel

end CommandLine

end EventScripts
