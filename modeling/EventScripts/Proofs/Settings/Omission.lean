import EventScripts.Proofs.Settings.Codec
import EventScripts.Proofs.Settings.Saving
/-!
# Settings that are left out

A document may leave out any of its keys and tables (`Omission`). What it leaves out has
its default, and everything else is what it was (`ofTable?_leave`). Settings are saved as
the document that leaves nothing out, so that they survive being saved and, but for what
has been taken out, being edited (`survives`). This is said of every codec that reads
what it has written, and TOML is one.

`SPEC_FULL.md` §10.4 wants missing sections to fall back to their defaults.
-/

namespace EventScripts.Settings

open Toml (Value)

/-- The tables that are left out of a document, and the keys that are left out of its tables. -/
structure Omission where
  table : String → Bool
  key : String → String → Bool

namespace Omission

/-- What is left of the value under a name. -/
def leaveIn (omission : Omission) (name : String) : Value → Value
  | .table entries => .table (entries.filter fun e => !omission.key name e.1)
  | value => value

/-- What is left of a document. -/
def leave (omission : Omission) (document : List (String × Value)) : List (String × Value) :=
  (document.filter fun t => !omission.table t.1).map fun t => (t.1, omission.leaveIn t.1 t.2)

end Omission

/-- The settings about scripts without those under some keys. -/
def Scripting.reset (omitted : String → Bool) (scripting : Scripting) : Scripting :=
  let fallback : Scripting := {}
  { enabled := if omitted "enabled" then fallback.enabled else scripting.enabled
    scriptDir := if omitted "script_dir" then fallback.scriptDir else scripting.scriptDir
    workerThreads :=
      if omitted "worker_threads" then fallback.workerThreads else scripting.workerThreads
    reloadOnSignal :=
      if omitted "reload_on_signal" then fallback.reloadOnSignal else scripting.reloadOnSignal }

/-- The settings about logging without those under some keys. -/
def Logging.reset (omitted : String → Bool) (logging : Logging) : Logging :=
  let fallback : Logging := {}
  { file := if omitted "file" then fallback.file else logging.file }

/-- The settings with their defaults in place of those that are left out. -/
def Omission.reset (omission : Omission) (settings : Settings) : Settings where
  scripting :=
    if omission.table "scripting" then {} else settings.scripting.reset (omission.key "scripting")
  logging :=
    if omission.table "logging" then {} else settings.logging.reset (omission.key "logging")

/-! ## Reading what is left -/

/-- A setting has its default if its key is left out. -/
theorem setting?_filter {α : Type} {read : Value → Option α} {entries : List (String × Value)}
    {key : String} {fallback value : α} (h : setting? read entries key fallback = some value)
    (omitted : String → Bool) :
    setting? read (entries.filter fun e => !omitted e.1) key fallback
      = some (if omitted key then fallback else value) := by
  unfold setting? at h ⊢
  rw [FileSystem.lookup_filter fun k => !omitted k]
  cases omitted key
  · exact h
  · rfl

theorem Scripting.ofValue?_filter (scripting : Scripting) (omitted : String → Bool) :
    ofValue? (.table (scripting.toTable.filter fun e => !omitted e.1))
      = some (scripting.reset omitted) := by
  have henabled (fallback : Bool) :
      setting? boolean? scripting.toTable "enabled" fallback = some scripting.enabled := rfl
  have hdir : setting? (fun v => (path? v).map some) scripting.toTable "script_dir" none
      = some scripting.scriptDir := by
    obtain ⟨enabled, scriptDir, workers, reload⟩ := scripting
    cases scriptDir <;> rfl
  have hworkers (fallback : Nat) :
      setting? count? scripting.toTable "worker_threads" fallback
        = some scripting.workerThreads := by
    obtain ⟨enabled, scriptDir, workers, reload⟩ := scripting
    cases scriptDir <;> simp [setting?, toTable, count?, List.lookup_cons]
  have hreload (fallback : Bool) :
      setting? boolean? scripting.toTable "reload_on_signal" fallback
        = some scripting.reloadOnSignal := by
    obtain ⟨enabled, scriptDir, workers, reload⟩ := scripting
    cases scriptDir <;> rfl
  simp only [ofValue?, groupOf?, setting?_filter (henabled _), setting?_filter hdir,
    setting?_filter (hworkers _), setting?_filter (hreload _), Option.bind_eq_bind,
    Option.bind_some]
  rfl

theorem Logging.ofValue?_filter (logging : Logging) (omitted : String → Bool) :
    ofValue? (.table (logging.toTable.filter fun e => !omitted e.1))
      = some (logging.reset omitted) := by
  have hfile (fallback : Bool) :
      setting? boolean? logging.toTable "file" fallback = some logging.file := rfl
  simp only [ofValue?, groupOf?, setting?_filter (hfile _), Option.bind_eq_bind, Option.bind_some]
  rfl

/-- **What is left of a document** makes the settings with the defaults for what is left out. -/
theorem ofTable?_leave (omission : Omission) (settings : Settings) :
    ofTable? (omission.leave settings.toTable) = some (omission.reset settings) := by
  have hscripting := settings.scripting.ofValue?_filter (omission.key "scripting")
  have hlogging := settings.logging.ofValue?_filter (omission.key "logging")
  unfold ofTable? toTable Omission.leave Omission.reset
  -- a table that is gone has its defaults as a whole, and the other is read by itself
  cases hs : omission.table "scripting" <;> cases hl : omission.table "logging" <;>
    simp [hs, hl, setting?, List.lookup_cons, Omission.leaveIn, hscripting, hlogging]

example : Omission.reset ⟨(· == "logging"), fun _ key => key == "enabled"⟩
    { scripting := { enabled := false, workerThreads := 3 }, logging := { file := true } }
      = { scripting := { workerThreads := 3 } } := by decide

/-! ## Nothing left out -/

/-- Nothing is left out. -/
def Omission.none : Omission := ⟨fun _ => false, fun _ _ => false⟩

theorem leave_none (settings : Settings) :
    Omission.none.leave settings.toTable = settings.toTable := by
  simp [Omission.none, Omission.leave, Omission.leaveIn, toTable]

theorem reset_none (settings : Settings) : Omission.none.reset settings = settings := rfl

/-! ## Writing what is left -/

/-- The tables that settings are written as. -/
def tables (settings : Settings) : List (String × List (String × Value)) :=
  [("scripting", settings.scripting.toTable), ("logging", settings.logging.toTable)]

/-- What is left of some tables. -/
def Omission.leaveTables (omission : Omission) (tables : List (String × List (String × Value))) :
    List (String × List (String × Value)) :=
  (tables.filter fun t => !omission.table t.1).map fun t =>
    (t.1, t.2.filter fun e => !omission.key t.1 e.1)

theorem leave_documentOf (omission : Omission) (tables : List (String × List (String × Value))) :
    omission.leave (Toml.documentOf tables) = Toml.documentOf (omission.leaveTables tables) := by
  rw [Omission.leave, Toml.documentOf, Toml.documentOf, Omission.leaveTables, List.filter_map,
    List.map_map, List.map_map]
  rfl

theorem exists_of_mem_leaveTables {omission : Omission}
    {tables : List (String × List (String × Value))} {t : String × List (String × Value)}
    (h : t ∈ omission.leaveTables tables) :
    ∃ whole ∈ tables, t.1 = whole.1 ∧ t.2.Sublist whole.2 := by
  obtain ⟨whole, hwhole, rfl⟩ := List.mem_map.1 h
  exact ⟨whole, (List.mem_filter.1 hwhole).1, rfl, List.filter_sublist⟩

theorem writable_leaveTables (omission : Omission)
    {tables : List (String × List (String × Value))} (h : Toml.Writable tables) :
    Toml.Writable (omission.leaveTables tables) := by
  refine ⟨?_, fun t ht => ?_, fun t ht => ?_, fun t ht e he => ?_⟩
  · rw [Omission.leaveTables, List.map_map]
    exact h.names.sublist (List.filter_sublist.map _)
  all_goals obtain ⟨whole, hwhole, hname, hsub⟩ := exists_of_mem_leaveTables ht
  · exact (h.keys whole hwhole).sublist (hsub.map _)
  · rw [hname]
    exact h.bareNames whole hwhole
  · exact h.bareKeys whole hwhole e (hsub.subset he)

theorem Scripting.keys_toTable (scripting : Scripting) :
    (scripting.toTable.map (·.1)).Sublist keys := by
  obtain ⟨enabled, scriptDir, workers, reload⟩ := scripting
  cases scriptDir
  · exact .cons_cons _ (.cons _ (.refl _))
  · exact .refl _

theorem writable_tables (settings : Settings) : Toml.Writable settings.tables := by
  have hkeys : ∀ t ∈ settings.tables,
      (t.2.map (·.1)).Sublist Scripting.keys ∨ t.2.map (·.1) = Logging.keys := by
    intro t ht
    obtain rfl | rfl : t = _ ∨ t = _ := by simpa [tables] using ht
    · exact .inl settings.scripting.keys_toTable
    · exact .inr rfl
  have hbare : ∀ key ∈ Scripting.keys ++ Logging.keys, Toml.IsBare key := by decide
  refine ⟨?_, fun t ht => ?_, ?_, fun t ht e he => hbare _ ?_⟩
  · show ["scripting", "logging"].Nodup
    decide
  · obtain hscripting | hlogging := hkeys t ht
    · exact hscripting.nodup (by decide)
    · rw [hlogging]
      decide
  · have hnames : ∀ name ∈ ["scripting", "logging"], Toml.IsBare name := by decide
    exact fun t ht => hnames t.1 (List.mem_map_of_mem ht)
  · have hkey : e.1 ∈ t.2.map (·.1) := List.mem_map_of_mem he
    obtain hscripting | hlogging := hkeys t ht
    · exact List.mem_append_left _ (hscripting.subset hkey)
    · rw [hlogging] at hkey
      exact List.mem_append_right _ hkey

theorem isInteger_of_le {n : Nat} (h : n ≤ 2 ^ 63 - 1) : Toml.isInteger n = true := by
  have hpow : Int.pow 2 63 = 9223372036854775808 := rfl
  rw [Toml.isInteger, hpow]
  simp only [Bool.and_eq_true, decide_eq_true_eq]
  omega

theorem isScalar_of_mem_tables {settings : Settings}
    (h : settings.scripting.workerThreads ≤ 2 ^ 63 - 1) :
    ∀ t ∈ settings.tables, ∀ e ∈ t.2, IsScalar e.2 := by
  obtain ⟨⟨enabled, scriptDir, workers, reload⟩, ⟨file⟩⟩ := settings
  have hworkers : Toml.isInteger workers = true := isInteger_of_le h
  cases scriptDir <;>
    simp only [tables, Scripting.toTable, Logging.toTable, List.cons_append, List.nil_append,
      List.forall_mem_cons, hworkers, IsScalar, true_and, List.not_mem_nil, false_implies,
      implies_true]

/-- What is left of the tables of some settings is plain. -/
theorem plain_leaveTables {settings : Settings}
    (h : settings.scripting.workerThreads ≤ 2 ^ 63 - 1) (omission : Omission) :
    Plain (omission.leaveTables settings.tables) where
  toWritable := writable_leaveTables omission (writable_tables settings)
  scalars t ht e he := by
    obtain ⟨whole, hwhole, -, hsub⟩ := exists_of_mem_leaveTables ht
    exact isScalar_of_mem_tables h whole hwhole e (hsub.subset he)

variable {codec : Codec}

/-- What is left of the document of some settings can be written, and is read as that. -/
theorem exists_text (hc : codec.Inverse) {settings : Settings}
    (h : settings.scripting.workerThreads ≤ 2 ^ 63 - 1) (omission : Omission) :
    ∃ text, codec.write? (omission.leave settings.toTable) = some text ∧
      codec.read text = some (omission.leave settings.toTable) := by
  have hleave : omission.leave settings.toTable
      = Toml.documentOf (omission.leaveTables settings.tables) :=
    leave_documentOf omission settings.tables
  rw [hleave]
  exact hc _ (plain_leaveTables h omission)

/-! ## Saving and loading -/

/-- What becomes of settings that are saved and loaded. -/
structure Survives (codec : Codec) (settings : Settings) : Prop where
  /-- No number in them is too large to be written. -/
  renders : ∃ text, codec.render? settings = some text
  /-- What is saved is their document. -/
  saved {files after : FileSystem} {path : Path} {record : Log.Record} (hwf : files.WellFormed)
    (h : codec.save settings files path = (after, .ok record)) :
    ∃ text, after.readText path = .ok text ∧ codec.read text = some settings.toTable
  /-- What has been saved is loaded. -/
  loaded {files after : FileSystem} {path : Path} {record : Log.Record} (hwf : files.WellFormed)
    (h : codec.save settings files path = (after, .ok record)) :
    codec.load after path = .ok (settings, note s!"Loaded config from {path.text}")
  /-- What is left of the document, whatever is taken out, can be written and is read again. -/
  written (omission : Omission) : ∃ text,
    codec.write? (omission.leave settings.toTable) = some text ∧
      codec.read text = some (omission.leave settings.toTable)
  /-- In whatever way it is written, what has been taken out has its default when it is loaded, and
  everything else is kept. -/
  reset (omission : Omission) {files : FileSystem} {path : Path} {text : String}
    (hfile : files.readText path = .ok text)
    (hread : codec.read text = some (omission.leave settings.toTable)) :
    codec.load files path = .ok (omission.reset settings, note s!"Loaded config from {path.text}")

theorem survives_of_inverse (hc : codec.Inverse) {settings : Settings}
    (h : settings.scripting.workerThreads ≤ 2 ^ 63 - 1) : Survives codec settings := by
  obtain ⟨text, hrender, hread⟩ := exists_text hc h .none
  rw [leave_none] at hrender hread
  -- the saved document is the one that leaves nothing out
  have hload : codec.settings? text = some settings := by
    rw [Codec.settings?, hread, Option.bind_some, ← leave_none, ofTable?_leave, reset_none]
  constructor
  case renders => exact ⟨text, hrender⟩
  case saved => exact fun hwf hsave => ⟨text, Codec.readText_of_save hwf hrender hsave, hread⟩
  case loaded => exact fun hwf hsave => Codec.load_of_save hwf hrender hload hsave
  case written => exact exists_text hc h
  case reset =>
    intro omission files path other hfile hother
    refine Codec.load_of_readText hfile ?_
    rw [Codec.settings?, hother, Option.bind_some, ofTable?_leave]

/-- **Settings survive being saved and loaded**, and where keys or tables are taken out of what has
been saved, just these settings have their defaults. All that this takes is a codec that reads what
it has written, such as the one that settings files are in. -/
theorem survives {settings : Settings} (h : settings.scripting.workerThreads ≤ 2 ^ 63 - 1) :
    Survives .toml settings ∧ ∀ codec : Codec, codec.Inverse → Survives codec settings :=
  ⟨survives_of_inverse inverse_toml h, fun _ hc => survives_of_inverse hc h⟩

/-- Settings with a directory that can only be written with escapes. -/
def escaping : Settings where
  scripting :=
    { enabled := false, scriptDir := some ⟨"a\n'''\"\"\"\\é\r"⟩, workerThreads := 2 ^ 63 - 1 }
  logging := { file := true }

/-- They can be saved where there is nothing yet. -/
theorem exists_save_escaping :
    ∃ after record, escaping.save {} ⟨"/skhost.toml"⟩ = (after, .ok record) := by
  have hparent : (⟨"/skhost.toml"⟩ : Path).parent? = some ⟨"/"⟩ := by decide +kernel
  have hancestors : (⟨"/"⟩ : Path).ancestors = [⟨"/"⟩] := by decide +kernel
  have hroot : FileSystem.steps ⟨"/"⟩ = [.stay] := by decide +kernel
  have hfile : FileSystem.steps ⟨"/skhost.toml"⟩ = [.down "skhost.toml"] := by decide +kernel
  have hmade : makeParent {} ⟨"/skhost.toml"⟩ = ({}, .ok ()) := by
    simp [makeParent, hparent, FileSystem.makeDirectories, hancestors,
      FileSystem.makeDirectoriesAlong, FileSystem.makeDirectory, FileSystem.isDirectory,
      FileSystem.find, FileSystem.resolve, FileSystem.walk, Path.isAbsolute, hroot,
      FileSystem.entry?]
  have hworkers : escaping.scripting.workerThreads ≤ 2 ^ 63 - 1 := Nat.le_refl _
  obtain ⟨text, hrender, -⟩ := exists_text inverse_toml hworkers .none
  rw [leave_none] at hrender
  have hwrite : FileSystem.write {} ⟨"/skhost.toml"⟩ (.text text)
      = .ok (FileSystem.put {} ["skhost.toml"] (.file (.text text))) := by
    simp [FileSystem.write, FileSystem.resolve, FileSystem.walk, FileSystem.atEnd,
      Path.isAbsolute, hfile, FileSystem.entry?]
  rw [save, Codec.save_of_made hrender (congrArg Prod.snd hmade), hmade]
  dsimp only
  rw [hwrite]
  exact ⟨_, _, rfl⟩

theorem survives_escaping :
    (escaping.scripting.workerThreads ≤ 2 ^ 63 - 1 ∧
      (∃ after record, escaping.save {} ⟨"/skhost.toml"⟩ = (after, .ok record)) ∧
      Codec.toml.Inverse) ∧
    Survives .toml escaping :=
  have hworkers : escaping.scripting.workerThreads ≤ 2 ^ 63 - 1 := Nat.le_refl _
  ⟨⟨hworkers, exists_save_escaping, inverse_toml⟩, (survives hworkers).2 .toml inverse_toml⟩

end EventScripts.Settings
