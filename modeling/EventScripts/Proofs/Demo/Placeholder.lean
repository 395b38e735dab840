import EventScripts.Demo.Placeholder
import EventScripts.Proofs.Text.Cut
/-!
# Templates

A text with placeholders is read as a template: literal text, a placeholder, and so
on, up to an end that is not closed. Every text is read in exactly one way
(`exists_template`, `eq_of_text`), and filling its placeholders puts a value, or
nothing but the placeholder itself, in the place of each (`interpolate_eq_filled`).
-/

namespace EventScripts.Demo

/-- An end that holds no placeholder: nothing, or a brace that is never closed. -/
def Unclosed (tail : List Char) : Prop := tail = [] ∨ tail.head? = some '{' ∧ '}' ∉ tail

/-- A text, read as placeholders with literal text in front of each and behind the last. -/
inductive Template where
  | ended (literal tail : List Char) (plain : '{' ∉ literal) (unclosed : Unclosed tail)
  | hole (literal name : List Char) (rest : Template) (plain : '{' ∉ literal) (closes : '}' ∉ name)

/-- What a placeholder comes to: the field of that name, or the placeholder as it is written. -/
def inserted (event : Event) (name : List Char) : List Char :=
  match event.field? (String.ofList name) with
  | some value => value.toList
  | none => '{' :: name ++ ['}']

namespace Template

/-- The text that is read as the template. -/
def text : Template → List Char
  | ended literal tail .. => literal ++ tail
  | hole literal name rest .. => literal ++ ('{' :: (name ++ '}' :: rest.text))

/-- The text with something else in the place of each placeholder. -/
def filled (event : Event) : Template → List Char
  | ended literal tail .. => literal ++ tail
  | hole literal name rest .. => literal ++ (inserted event name ++ rest.filled event)

def names : Template → List (List Char)
  | ended .. => []
  | hole _ name rest .. => name :: rest.names

/-! ## Reading a text as a template -/

/-- **Every text is read as a template.** -/
theorem exists_template (cs : List Char) : ∃ t : Template, t.text = cs := by
  by_cases hopen : '{' ∈ cs
  · obtain ⟨literal, behind, hcs, hplain⟩ := List.eq_append_cons_of_mem hopen
    by_cases hclose : '}' ∈ behind
    · obtain ⟨name, rest, hbehind, hcloses⟩ := List.eq_append_cons_of_mem hclose
      have hshorter : rest.length < cs.length := by
        rw [hcs, hbehind]
        simp only [List.length_append, List.length_cons]
        omega
      obtain ⟨t, ht⟩ := exists_template rest
      exact ⟨hole literal name t hplain hcloses, by rw [text, ht, hcs, hbehind]⟩
    · have hunclosed : Unclosed ('{' :: behind) := .inr ⟨rfl, by simp [hclose]⟩
      exact ⟨ended literal ('{' :: behind) hplain hunclosed, hcs.symm⟩
  · exact ⟨ended cs [] hopen (.inl rfl), List.append_nil cs⟩
termination_by cs.length

/-- The literal text that a text begins with goes on up to the first brace. -/
theorem literal_unique : ∀ {literal other behind more : List Char}, '{' ∉ literal → '{' ∉ other →
    (behind = [] ∨ behind.head? = some '{') → (more = [] ∨ more.head? = some '{') →
    literal ++ behind = other ++ more → literal = other ∧ behind = more
  | [], [], _, _, _, _, _, _, heq => ⟨rfl, heq⟩
  | [], c :: other, behind, more, _, ho, hb, _, heq => by
    obtain rfl : behind = c :: (other ++ more) := heq
    obtain hnil | hhead := hb
    · cases hnil
    · exact absurd (Option.some.inj hhead ▸ List.mem_cons_self) ho
  | c :: literal, [], behind, more, hl, _, _, hm, heq => by
    obtain rfl : more = c :: (literal ++ behind) := heq.symm
    obtain hnil | hhead := hm
    · cases hnil
    · exact absurd (Option.some.inj hhead ▸ List.mem_cons_self) hl
  | c :: literal, d :: other, _, _, hl, ho, hb, hm, heq => by
    obtain ⟨rfl, htail⟩ := List.cons.inj heq
    obtain ⟨rfl, hbehind⟩ := literal_unique (mt (List.mem_cons_of_mem c) hl)
      (mt (List.mem_cons_of_mem c) ho) hb hm htail
    exact ⟨rfl, hbehind⟩

/-- An end is never read as a placeholder. -/
theorem tail_ne_hole {tail name behind : List Char} (h : Unclosed tail) :
    tail ≠ '{' :: (name ++ '}' :: behind) := by
  rintro rfl
  obtain hnil | ⟨-, hclose⟩ := h
  · cases hnil
  · exact hclose (by simp)

/-- **A text is read in one way only.** -/
theorem eq_of_text : ∀ {t u : Template}, t.text = u.text → t = u
  | ended literal tail plain unclosed, ended other more plain' unclosed', h => by
    obtain ⟨rfl, rfl⟩ := literal_unique plain plain' (unclosed.imp_right And.left)
      (unclosed'.imp_right And.left) h
    rfl
  | ended literal tail plain unclosed, hole other name rest plain' closes, h => by
    obtain ⟨-, htail⟩ := literal_unique plain plain' (unclosed.imp_right And.left) (.inr rfl) h
    exact absurd htail (tail_ne_hole unclosed)
  | hole literal name rest plain closes, ended other tail plain' unclosed, h => by
    obtain ⟨-, htail⟩ := literal_unique plain plain' (.inr rfl) (unclosed.imp_right And.left) h
    exact absurd htail.symm (tail_ne_hole unclosed)
  | hole literal name rest plain closes, hole other name' rest' plain' closes', h => by
    obtain ⟨rfl, hbehind⟩ := literal_unique plain plain' (.inr rfl) (.inr rfl) h
    obtain ⟨rfl, hrest⟩ := Text.append_cons_inj closes closes' (List.cons.inj hbehind).2
    obtain rfl := eq_of_text hrest
    rfl

end Template

/-! ## Filling placeholders -/

variable (value? : List Char → Option (List Char))

theorem fill_append : ∀ {literal : List Char}, '{' ∉ literal → ∀ cs : List Char,
    fill value? (literal ++ cs) = literal ++ fill value? cs
  | [], _, _ => rfl
  | c :: literal, h, cs => by
    obtain ⟨hc, hliteral⟩ := not_or.1 (mt List.mem_cons.2 h)
    rw [List.cons_append, fill, if_neg (Ne.symm hc), fill_append hliteral, List.cons_append]

/-- An end is not changed. -/
theorem fill_of_unclosed {tail : List Char} (h : Unclosed tail) : fill value? tail = tail := by
  obtain rfl | ⟨hhead, hclose⟩ := h
  · rw [fill]
  · obtain ⟨cs, rfl⟩ := List.head?_eq_some_iff.1 hhead
    have hnone : Text.cut? ['}'] cs = none :=
      Text.cut?_of_not_mem (mt (List.mem_cons_of_mem '{') hclose)
    rw [fill, if_pos rfl, hnone]

/-- A placeholder is filled, and what stands behind it is filled by itself. -/
theorem fill_hole {name : List Char} (h : '}' ∉ name) (rest : List Char) :
    fill value? ('{' :: (name ++ '}' :: rest))
      = (value? name).getD ('{' :: name ++ ['}']) ++ fill value? rest := by
  have hcut : Text.cut? ['}'] (name ++ '}' :: rest) = some (name, rest) := Text.cut?_found h rest
  rw [fill, if_pos rfl, hcut]

/-- **The placeholders of a template are filled** from the event, each by itself. -/
theorem interpolate_text (event : Event) (t : Template) :
    interpolate (String.ofList t.text) event = String.ofList (t.filled event) := by
  rw [interpolate, String.toList_ofList]
  refine congrArg String.ofList ?_
  induction t with
  | ended literal tail plain unclosed =>
    rw [Template.text, Template.filled, fill_append _ plain, fill_of_unclosed _ unclosed]
  | hole literal name rest plain closes ih =>
    rw [Template.text, Template.filled, fill_append _ plain, fill_hole _ closes, ih, inserted]
    cases event.field? (String.ofList name) <;> rfl

/-- A template of which no placeholder names a field stays as it is. -/
theorem filled_of_no_field {event : Event} : ∀ {t : Template},
    (∀ name ∈ t.names, event.field? (String.ofList name) = none) → t.filled event = t.text
  | .ended .., _ => rfl
  | .hole literal name rest .., h => by
    obtain ⟨hname, hrest⟩ := List.forall_mem_cons.1 h
    rw [Template.filled, Template.text, inserted, hname, filled_of_no_field hrest]
    simp

/-- **Placeholders are filled one by one**: a text is read as a template in exactly one way, each
of the placeholders gives way to what is inserted for it and all else stays, and a text in which
no field is named does not change at all. -/
theorem interpolate_eq_filled (text : String) (event : Event) :
    ∃ t : Template, t.text = text.toList ∧ (∀ u : Template, u.text = text.toList → u = t) ∧
      interpolate text event = String.ofList (t.filled event) ∧
      ((∀ name ∈ t.names, event.field? (String.ofList name) = none) →
        interpolate text event = text) := by
  obtain ⟨t, ht⟩ := Template.exists_template text.toList
  have hfilled : interpolate text event = String.ofList (t.filled event) := by
    rw [← interpolate_text, ht, String.ofList_toList]
  refine ⟨t, ht, fun u hu => Template.eq_of_text (hu.trans ht.symm), hfilled, fun hnone => ?_⟩
  rw [hfilled, filled_of_no_field hnone, ht, String.ofList_toList]

/-- Braces in a value that is inserted, or in a name, do not begin a placeholder. -/
example : interpolate "\x7bx\x7d\x7by\x7bx\x7d"
      { kind := "chat", fields := some [("x", "\x7by\x7d"), ("y", "1")] }
    = "\x7by\x7d\x7by\x7bx\x7d" := by decide +kernel

end EventScripts.Demo
