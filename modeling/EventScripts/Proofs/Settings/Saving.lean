import EventScripts.Proofs.FileSystem.Making
import EventScripts.Settings.File
/-!
# Saving and loading

Saving makes the directories above the file and then writes it, and the file says what
was written. What the file says is loaded if it makes settings (`load_of_save`).
-/

namespace EventScripts.Settings

variable {codec : Codec} {settings loaded : Settings} {files after : FileSystem} {path : Path}
  {text : String}

theorem grown_makeParent (hwf : files.WellFormed) (path : Path) :
    files.Grown (makeParent files path).1 ∧ (makeParent files path).1.WellFormed := by
  unfold makeParent
  split
  · exact FileSystem.grown_makeDirectories hwf _
  · exact ⟨.refl files, hwf⟩

namespace Codec

theorem save_of_not_made (codec : Codec) (settings : Settings) {e : IoError}
    (h : (makeParent files path).2 = .error e) :
    codec.save settings files path = ((makeParent files path).1, .error (.io e)) := by
  unfold save
  generalize makeParent files path = result at h
  obtain ⟨made, outcome⟩ := result
  subst h
  rfl

theorem save_of_made (hrender : codec.render? settings = some text)
    (h : (makeParent files path).2 = .ok ()) :
    codec.save settings files path =
      match (makeParent files path).1.write path (.text text) with
      | .error e => ((makeParent files path).1, .error (.io e))
      | .ok after => (after, .ok (note s!"Saved config to {path.text}")) := by
  unfold save
  generalize makeParent files path = result at h
  obtain ⟨made, outcome⟩ := result
  subst h
  cases hwrite : made.write path (.text text) <;> simp only [hrender, hwrite]

/-- The path leads to what has been written. -/
theorem readText_of_save (hwf : files.WellFormed) (hrender : codec.render? settings = some text)
    {record : Log.Record} (h : codec.save settings files path = (after, .ok record)) :
    after.readText path = .ok text := by
  cases hmade : (makeParent files path).2 with
  | error e =>
    rw [save_of_not_made codec settings hmade] at h
    cases (Prod.mk.inj h).2
  | ok =>
    rw [save_of_made hrender hmade] at h
    split at h
    · cases (Prod.mk.inj h).2
    · next written hwrite =>
      obtain rfl := (Prod.mk.inj h).1
      obtain ⟨at_, -, hfind, -⟩ :=
        FileSystem.written_of_write (grown_makeParent hwf path).2 hwrite
      rw [FileSystem.readText, hfind]

/-- What a file says is loaded, if it makes settings. -/
theorem load_of_readText (hfile : files.readText path = .ok text)
    (hread : codec.settings? text = some loaded) :
    codec.load files path = .ok (loaded, note s!"Loaded config from {path.text}") := by
  have hexists : files.exists? path = true := by
    unfold FileSystem.readText at hfile
    rw [FileSystem.exists?]
    cases hfind : files.find path with
    | error e =>
      rw [hfind] at hfile
      cases hfile
    | ok found => rfl
  rw [load, if_pos hexists, hfile]
  simp only [hread]

/-- **What has been saved is loaded**, as the settings that its text makes. -/
theorem load_of_save (hwf : files.WellFormed) (hrender : codec.render? settings = some text)
    (hread : codec.settings? text = some loaded) {record : Log.Record}
    (h : codec.save settings files path = (after, .ok record)) :
    codec.load after path = .ok (loaded, note s!"Loaded config from {path.text}") :=
  load_of_readText (readText_of_save hwf hrender h) hread

end Codec

end EventScripts.Settings
