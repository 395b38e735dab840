import EventScripts.Proofs.Text.Cut
import EventScripts.Proofs.Toml.Quoted
import EventScripts.Toml.Scalar
import Mathlib.Data.List.Basic
import Mathlib.Data.List.TakeWhile
import Mathlib.Data.Nat.Digits.Defs
/-!
# Scalars that are written

An integer and a truth value are read as they were written, if nothing that belongs
to a scalar stands behind them (`readScalar_of_token`). A decimal integer is
none of the other things that begin with a digit: a date, a time, a float, or an
integer to another base.
-/

namespace EventScripts.Toml

/-! ## Decimal digits -/

/-- A run of decimal digits. -/
structure Digits (ds : List Char) : Prop where
  nonempty : ds ≠ []
  digits : ∀ c ∈ ds, c.isDigit = true

theorem digits_toDigits (n : Nat) : Digits (Nat.toDigits 10 n) where
  nonempty := Nat.toDigits_ne_nil
  digits _ hc := Nat.isDigit_of_mem_toDigits (by decide) (by decide) hc

/-- A number is written without a zero in front. -/
theorem head?_toDigits {n : Nat} (h : n ≠ 0) : (Nat.toDigits 10 n).head? ≠ some '0' := by
  rw [Nat.toDigits_eq_if (by decide)]
  split
  · intro hzero
    exact h (Nat.digitChar_eq_zero.1 (Option.some.inj hzero))
  · rw [List.head?_append_of_ne_nil _ Nat.toDigits_ne_nil]
    exact head?_toDigits (by omega)

theorem valueIn_toDigits (n : Nat) : valueIn 10 (Nat.toDigits 10 n) = n := by
  have hvalue : ∀ (ds : List Char) (init : Nat), (∀ c ∈ ds, c.isDigit = true) →
      ds.foldl (fun n c => 10 * n + digitValue c) init = Nat.ofDigitChars 10 ds init := by
    intro ds
    induction ds with
    | nil => exact fun _ _ => rfl
    | cons c ds ih =>
      intro init h
      obtain ⟨hc, hds⟩ := List.forall_mem_cons.1 h
      rw [List.foldl_cons, ih _ hds, digitValue, if_pos hc, Nat.ofDigitChars_cons]
      rfl
  rw [valueIn, hvalue _ _ (digits_toDigits n).digits, Nat.ofDigitChars_ten_toDigits]

namespace Digits

variable {ds : List Char} (h : Digits ds)

include h

theorem not_mem {c : Char} (hc : c.isDigit = false) : c ∉ ds :=
  fun hmem => Bool.false_ne_true (hc.symm.trans (h.digits c hmem))

theorem unsignedPart : Toml.unsignedPart ds = (false, ds) := by
  unfold Toml.unsignedPart
  split
  · exact absurd List.mem_cons_self (h.not_mem (c := '-') rfl)
  · exact absurd List.mem_cons_self (h.not_mem (c := '+') rfl)
  · rfl

theorem underscored? : Toml.underscored? Char.isDigit ds = some ds := by
  have hpieces : Text.pieces (· == '_') ds = [ds] := by
    refine Text.pieces_of_no_sep fun c hc => beq_false_of_ne ?_
    rintro rfl
    exact h.not_mem rfl hc
  simpa [Toml.underscored?, hpieces, h.nonempty] using h.digits

theorem decimal? (hzero : ds.length = 1 ∨ ds.head? ≠ some '0') : Toml.decimal? ds = some ds := by
  rw [Toml.decimal?, h.underscored?]
  simpa [Option.filter, or_iff_not_imp_left] using hzero

/-- A run of digits is no float, with a sign or without. -/
theorem not_isFloat {cs : List Char} {negative : Bool}
    (hcs : Toml.unsignedPart cs = (negative, ds)) : isFloat cs = false := by
  have hmantissa : ds.takeWhile (fun c => c != 'e' && c != 'E') = ds := by
    refine List.takeWhile_eq_self_iff.2 fun c hc => ?_
    simp only [Bool.and_eq_true, bne_iff_ne]
    exact ⟨by rintro rfl; exact h.not_mem rfl hc, by rintro rfl; exact h.not_mem rfl hc⟩
  have hinf : ds ≠ "inf".toList := by
    rintro rfl
    exact h.not_mem (c := 'i') rfl (by decide)
  have hnan : ds ≠ "nan".toList := by
    rintro rfl
    exact h.not_mem (c := 'n') rfl (by decide)
  have hpoint : Text.cut? ['.'] ds = none := Text.cut?_of_not_mem (h.not_mem rfl)
  simp only [isFloat, hcs, hmantissa, hinf, hnan, hpoint]
  simp

end Digits

/-! ## Integers -/

/-- Decimal digits with a sign in front, or without one. -/
def signed (negative : Bool) (ds : List Char) : List Char := if negative then '-' :: ds else ds

/-- An integer is written with its digits, and with a sign if it is negative. -/
theorem toList_toString : ∀ n : Int,
    (toString n).toList = signed (decide (n < 0)) (Nat.toDigits 10 n.natAbs)
  | .ofNat n => by
    have hsign : decide (Int.ofNat n < 0) = false :=
      decide_eq_false (Int.not_lt.2 (Int.natCast_nonneg n))
    rw [hsign]
    show (toString n).toList = _
    rw [Nat.toString_eq_ofList_toDigits, String.toList_ofList]
    rfl
  | .negSucc n => by
    have hsign : decide (Int.negSucc n < 0) = true := decide_eq_true (Int.negSucc_lt_zero n)
    rw [hsign]
    show ("-" ++ toString (n + 1)).toList = _
    simp only [String.toList_append, Nat.toString_eq_ofList_toDigits, String.toList_ofList]
    rfl

theorem date?_eq_none {cs : List Char} (h : '-' ∉ cs.tail) : date? cs = none := by
  unfold date?
  split
  · exact absurd (by simp) h
  · rfl

theorem time?_eq_none {cs : List Char} (h : ':' ∉ cs) : time? cs = none := by
  unfold time?
  split
  · exact absurd (by simp) h
  · rfl

namespace Digits

variable {ds : List Char} (h : Digits ds) (negative : Bool)

include h

theorem not_mem_signed {c : Char} (hc : c.isDigit = false) (hsign : c ≠ '-') :
    c ∉ signed negative ds := by
  cases negative with
  | true => exact fun hmem => (List.mem_cons.1 hmem).elim hsign (h.not_mem hc)
  | false => exact h.not_mem hc

theorem signed_ne_nil : signed negative ds ≠ [] := by
  cases negative with
  | true => exact List.cons_ne_nil _ _
  | false => exact h.nonempty

theorem isScalarChar_of_mem : ∀ c ∈ signed negative ds, isScalarChar c = true := by
  have hdigit : ∀ c ∈ ds, isScalarChar c = true := by
    intro c hc
    simp [isScalarChar, Char.isAlphanum, h.digits c hc]
  cases negative with
  | true => exact List.forall_mem_cons.2 ⟨rfl, hdigit⟩
  | false => exact hdigit

theorem unsignedPart_signed : Toml.unsignedPart (signed negative ds) = (negative, ds) := by
  cases negative with
  | true => rfl
  | false => exact h.unsignedPart

theorem date?_signed : date? (signed negative ds) = none := by
  refine date?_eq_none fun hmem => h.not_mem (c := '-') rfl ?_
  cases negative with
  | true => exact hmem
  | false => exact List.mem_of_mem_tail hmem

/-- Decimal digits are read as an integer to the base ten. -/
theorem integer?_signed (hzero : ds.length = 1 ∨ ds.head? ≠ some '0') :
    integer? (signed negative ds)
      = (some (if negative then -(valueIn 10 ds : Int) else valueIn 10 ds)).filter isInteger := by
  have hbase : ∀ {c : Char} {more : List Char}, c.isDigit = false → c ≠ '-' →
      signed negative ds ≠ '0' :: c :: more := by
    intro c more hc hsign heq
    exact h.not_mem_signed negative hc hsign (by simp [heq])
  unfold integer?
  dsimp only
  split
  · next heq => exact absurd heq (hbase rfl (by decide))
  · next heq => exact absurd heq (hbase rfl (by decide))
  · next heq => exact absurd heq (hbase rfl (by decide))
  · rw [h.unsignedPart_signed, h.decimal? hzero]
    rfl

theorem scalar?_signed :
    scalar? (signed negative ds) = (integer? (signed negative ds)).map .integer := by
  have htrue : signed negative ds ≠ "true".toList := by
    intro heq
    exact h.not_mem_signed negative (c := 't') rfl (by decide) (by rw [heq]; decide)
  have hfalse : signed negative ds ≠ "false".toList := by
    intro heq
    exact h.not_mem_signed negative (c := 'f') rfl (by decide) (by rw [heq]; decide)
  have htime : time? (signed negative ds) = none :=
    time?_eq_none (h.not_mem_signed negative rfl (by decide))
  have hdate : isDate (signed negative ds) = false := by
    simp only [isDate, h.date?_signed, htime, Option.any_none]
  rw [scalar?, if_neg htrue, if_neg hfalse, if_neg (by simp [hdate]),
    if_neg (by simp [h.not_isFloat (h.unsignedPart_signed negative)])]

end Digits

/-- **An integer is read as it was written.** -/
theorem scalar?_toString {n : Int} (h : isInteger n = true) :
    scalar? (toString n).toList = some (.integer n) := by
  have hdigits := digits_toDigits n.natAbs
  have hzero : (Nat.toDigits 10 n.natAbs).length = 1 ∨
      (Nat.toDigits 10 n.natAbs).head? ≠ some '0' := by
    by_cases hn : n.natAbs = 0
    · rw [hn]
      exact .inl rfl
    · exact .inr (head?_toDigits hn)
  have hvalue : (if decide (n < 0) = true then -(n.natAbs : Int) else n.natAbs) = n := by
    split
    · next hneg =>
      have hneg := of_decide_eq_true hneg
      omega
    · next hneg =>
      have hneg := mt decide_eq_true hneg
      omega
  rw [toList_toString, hdigits.scalar?_signed, hdigits.integer?_signed _ hzero,
    valueIn_toDigits, hvalue, Option.filter_some, if_pos h]
  rfl

/-! ## Scalars in a document -/

/-- **A scalar that was written is read**, up to the end of its line. -/
theorem readScalar_of_token {token : List Char} {value : Value} (h : scalar? token = some value)
    (htoken : ∀ c ∈ token, isScalarChar c = true) (rest : List Char) :
    readScalar (token ++ '\n' :: rest) = some (value, '\n' :: rest) := by
  have hfeed : isScalarChar '\n' = false := by decide
  have htake : (token ++ '\n' :: rest).takeWhile isScalarChar = token := by
    rw [List.takeWhile_append_of_pos htoken, List.takeWhile_cons_of_neg (by simp [hfeed]),
      List.append_nil]
  have hdrop : (token ++ '\n' :: rest).dropWhile isScalarChar = '\n' :: rest := by
    rw [List.dropWhile_append_of_pos htoken, List.dropWhile_cons_of_neg (by simp [hfeed])]
  unfold readScalar
  dsimp only
  rw [htake, hdrop]
  split
  · next heq => cases heq
  · rw [h]
    rfl

end EventScripts.Toml
