import Mathlib.Data.List.Basic
import StyleTree.Number.Basic

/-!
# Numerals and literals

A number has two writings: its text in a style sheet, and its literal. They differ for the doubles
that are whole numbers and for no others (`Number.literal_eq_text`), since the literal of a finite
double always has a point or an exponent (`Decimal.mark_mem_layout`), which no numeral of an integer
has. A number that is not finite is written as a word.
-/

namespace StyleTree

/-- The literal of a finite double is in positional or in scientific notation. -/
theorem Decimal.mark_mem_layout (d : Decimal) : '.' ∈ d.layout ∨ 'e' ∈ d.layout := by
  unfold layout
  simp only
  split
  · left
    unfold positional
    split <;> simp
  · right
    simp [exponential]

/-- An integer is written as its digits, with a sign in front if it is negative. -/
theorem toList_toString (i : Int) :
    (toString i).toList = (if i < 0 then ['-'] else []) ++ Nat.toDigits 10 i.natAbs := by
  cases i with
  | ofNat n =>
    rw [show toString (Int.ofNat n) = n.repr from rfl, Nat.toList_repr]
    rfl
  | negSucc n =>
    rw [show toString (Int.negSucc n) = "-" ++ (n + 1).repr from rfl, String.toList_append,
      Nat.toList_repr, if_pos (Int.negSucc_lt_zero n)]
    rfl

/-- The characters of an integer's numeral. -/
theorem isDigit_or_sign_of_mem_toString {i : Int} {ch : Char} (h : ch ∈ (toString i).toList) :
    ch.isDigit = true ∨ ch = '-' := by
  rw [toList_toString] at h
  rcases List.mem_append.mp h with h | h
  · split at h
    · exact .inr (List.mem_singleton.mp h)
    · cases h
  · exact .inl (Nat.isDigit_of_mem_toDigits (by decide) (by decide) h)

namespace Binary64

variable {x : Binary64}

theorem mark_mem_literal (hx : x.isFinite = true) :
    '.' ∈ x.literal.toList ∨ 'e' ∈ x.literal.toList := by
  cases x with
  | nan | infinity _ => cases hx
  | finite negative units representable =>
    have hsigned {ch : Char} (h : ch ∈ (Decimal.shortest units).layout) :
        ch ∈ (literal (.finite negative units representable)).toList := by
      rw [literal, String.toList_ofList]
      split
      · exact List.mem_cons_of_mem _ h
      · exact h
    exact (Decimal.shortest units).mark_mem_layout.imp hsigned hsigned

/-- The literal of a finite double is no numeral of an integer. -/
theorem literal_ne_toString (hx : x.isFinite = true) (i : Int) : x.literal ≠ toString i := by
  intro heq
  rcases mark_mem_literal hx with h | h
  · rw [heq] at h
    rcases isDigit_or_sign_of_mem_toString h with h | h <;> simp at h
  · rw [heq] at h
    rcases isDigit_or_sign_of_mem_toString h with h | h <;> simp at h

theorem isFinite_of_toInt? {i : Int} (h : x.toInt? = some i) : x.isFinite = true := by
  cases x with
  | nan | infinity _ => cases h
  | finite _ _ _ => rfl

end Binary64

namespace Number

/-- The number is a double without a fraction. -/
def isWholeDouble : Number → Bool
  | int _ => false
  | float x => x.toInt?.isSome

/-- Only doubles that are whole are written in two ways. -/
theorem literal_eq_text {n : Number} : n.literal = n.text ↔ n.isWholeDouble = false := by
  cases n with
  | int i => exact ⟨fun _ => rfl, fun _ => rfl⟩
  | float x =>
    rw [literal, text, isWholeDouble]
    cases hwhole : x.toInt? with
    | none => exact ⟨fun _ => rfl, fun _ => rfl⟩
    | some i =>
      have hne := Binary64.literal_ne_toString (Binary64.isFinite_of_toInt? hwhole) i
      exact ⟨fun heq => absurd heq hne, fun h => by cases h⟩

/-- A number that is not finite is written as a word. -/
theorem text_of_not_finite {n : Number} (h : n.isFinite = false) :
    n.text ∈ ["nan", "inf", "-inf"] := by
  cases n with
  | int i => cases h
  | float x =>
    cases x with
    | nan => decide
    | infinity negative => cases negative <;> decide
    | finite _ _ _ => cases h

end Number

end StyleTree
