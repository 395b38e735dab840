import EventScripts.Proofs.Toml.Document
import EventScripts.Settings.Document
/-!
# Reading what has been written

Of a codec nothing is asked but that it reads what it has written: tables of
booleans, integers and strings under plain names (`Codec.Inverse`). TOML is such
a codec (`inverse_toml`).
-/

namespace EventScripts.Settings

open Toml (Value)

/-- Booleans, integers of 64 bits and strings. -/
def IsScalar : Value → Prop
  | .boolean _ | .string _ => True
  | .integer n => Toml.isInteger n = true
  | .float | .date | .array _ | .table _ => False

/-- Tables of such values, each under a name of its own that needs no quotes. -/
structure Plain (tables : List (String × List (String × Value))) : Prop
    extends Toml.Writable tables where
  scalars : ∀ t ∈ tables, ∀ e ∈ t.2, IsScalar e.2

/-- Plain tables can be written, and are read as they were. -/
def Codec.Inverse (codec : Codec) : Prop :=
  ∀ tables, Plain tables → ∃ text, codec.write? (Toml.documentOf tables) = some text ∧
    codec.read text = some (Toml.documentOf tables)

theorem exists_writeScalar? {value : Value} (h : IsScalar value) :
    ∃ text, Toml.writeScalar? value = some text := by
  cases value with
  | boolean b => cases b <;> exact ⟨_, rfl⟩
  | string s => exact ⟨_, rfl⟩
  | integer n => exact ⟨_, if_pos h⟩
  | float | date | array | table => cases h

/-- **TOML is read as it was written.** -/
theorem inverse_toml : Codec.toml.Inverse := by
  intro tables h
  obtain ⟨text, htext⟩ : ∃ text, Toml.write? (Toml.documentOf tables) = some text :=
    Toml.exists_write? fun t ht e he => exists_writeScalar? (h.scalars t ht e he)
  exact ⟨text, htext, Toml.read_of_write? h.toWritable htext⟩

end EventScripts.Settings
