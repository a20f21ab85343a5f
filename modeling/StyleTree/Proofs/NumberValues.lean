import Mathlib
import StyleTree.Proofs.LiteralReading
import StyleTree.Proofs.NumberText

/-!
# Texts and values of numbers

The text of a finite number tells its value and nothing else (`Number.text_tells_value`). A whole
number, be it an integer or a double, has the canonical numeral of its exact value for its text, and
that is of no other integer (`IsNumeral.inj`). A double that is not whole has its literal, which reads
back as the double and is no numeral. So the two zeros have the same text, and so have a whole double
and the integer of its value.
-/

namespace StyleTree

/-! ## Numerals -/

/-- The canonical decimal numeral of an integer: digits, of which the first is no zero if there are
more, and in front of them the sign of a negative one. -/
def IsNumeral (i : ℤ) (s : String) : Prop :=
  ∃ digits : List Char, s.toList = (if i < 0 then ['-'] else []) ++ digits ∧
    digits ≠ [] ∧ Decimal.IsDigits digits ∧ (digits.head? = some '0' → digits = ['0']) ∧
    Decimal.ofDigits digits = i.natAbs

theorem head?_toDigits_ne_zero {n : ℕ} (h : 0 < n) : (Nat.toDigits 10 n).head? ≠ some '0' := by
  induction n using Nat.strong_induction_on with
  | _ n ih =>
    rcases Nat.lt_or_ge n 10 with hlt | hge
    · rw [Nat.toDigits_of_lt_base hlt, List.head?_singleton, Ne, Option.some.injEq,
        Nat.digitChar_eq_zero]
      omega
    · rw [Nat.toDigits_of_base_le (by decide) hge, List.head?_append_of_ne_nil _ Nat.toDigits_ne_nil]
      exact ih (n / 10) (by omega) (by omega)

theorem digits_of_head?_toDigits {n : ℕ} (h : (Nat.toDigits 10 n).head? = some '0') :
    Nat.toDigits 10 n = ['0'] := by
  rcases Nat.eq_zero_or_pos n with rfl | hpos
  · exact Nat.toDigits_zero 10
  · exact absurd h (head?_toDigits_ne_zero hpos)

theorem isNumeral_toString (i : ℤ) : IsNumeral i (toString i) :=
  ⟨Nat.toDigits 10 i.natAbs, toList_toString i, Nat.toDigits_ne_nil, Decimal.isDigits_toDigits _,
    digits_of_head?_toDigits, Decimal.ofDigits_toDigits _⟩

/-- A numeral is that of one integer. -/
theorem IsNumeral.inj {i j : ℤ} {s : String} (hi : IsNumeral i s) (hj : IsNumeral j s) : i = j := by
  obtain ⟨digits, hs, -, hdigits, -, hvalue⟩ := hi
  obtain ⟨digits', hs', -, hdigits', -, hvalue'⟩ := hj
  rw [hs'] at hs
  have hsign {ds : List Char} : ¬ Decimal.IsDigits ('-' :: ds) :=
    fun h => absurd (h '-' List.mem_cons_self) (by decide)
  split at hs <;> split at hs
  · rw [List.append_cancel_left hs] at hvalue'
    omega
  · rw [List.nil_append] at hs
    exact absurd (hs ▸ hdigits) hsign
  · rw [List.nil_append] at hs
    exact absurd (hs ▸ hdigits') hsign
  · rw [List.append_cancel_left hs] at hvalue'
    omega

/-! ## Values -/

namespace Binary64

variable {x y : Binary64}

/-- The exact value of a finite double. -/
def value : Binary64 → ℚ
  | .finite negative units _ => (if negative then -1 else 1) * (units / unitsPerOne)
  | _ => 0

theorem abs_value (negative : Bool) {units : ℕ} (h : Representable units) :
    |(finite negative units h).value| = units / unitsPerOne := by
  have hpos : (0 : ℚ) ≤ units / unitsPerOne := by positivity
  cases negative with
  | false => rw [value, if_neg Bool.false_ne_true, one_mul, abs_of_nonneg hpos]
  | true => rw [value, if_pos rfl, neg_one_mul, abs_neg, abs_of_nonneg hpos]

theorem toInt?_eq_some (hx : x.isFinite = true) {i : ℤ} : x.toInt? = some i ↔ x.value = i := by
  cases x with
  | nan | infinity => cases hx
  | finite negative units h =>
    have hone : (unitsPerOne : ℚ) ≠ 0 := Nat.cast_ne_zero.mpr unitsPerOne_pos.ne'
    rw [toInt?]
    split
    · rename_i hmod
      have hquotient : ((units / unitsPerOne : ℕ) : ℚ) = units / unitsPerOne :=
        Nat.cast_div (Nat.dvd_of_mod_eq_zero hmod) hone
      rw [value, ← hquotient, Option.some.injEq]
      generalize units / unitsPerOne = whole
      cases negative with
      | false =>
        rw [if_neg Bool.false_ne_true, if_neg Bool.false_ne_true, one_mul]
        exact_mod_cast Iff.rfl
      | true =>
        rw [if_pos rfl, if_pos rfl, neg_one_mul]
        exact_mod_cast Iff.rfl
    · rename_i hmod
      refine ⟨nofun, fun hvalue => absurd ?_ hmod⟩
      have habs := abs_value negative h
      rw [hvalue, eq_div_iff hone, ← Int.cast_abs, Int.abs_eq_natAbs] at habs
      have hunits : i.natAbs * unitsPerOne = units := by exact_mod_cast habs
      rw [← hunits, Nat.mul_mod_left]

theorem value_not (negative : Bool) {units : ℕ} (h : Representable units) :
    (finite (!negative) units h).value = -(finite negative units h).value := by
  cases negative with
  | false => rw [value, value, if_neg Bool.false_ne_true, Bool.not_false, if_pos rfl, one_mul,
      neg_one_mul]
  | true => rw [value, value, if_pos rfl, Bool.not_true, if_neg Bool.false_ne_true, one_mul,
      neg_one_mul, neg_neg]

/-- Doubles that are not whole are equal if their values are; the two zeros are whole. -/
theorem eq_of_value_eq (hx : x.isFinite = true) (hy : y.isFinite = true)
    (hfraction : x.toInt? = none) (h : x.value = y.value) : x = y := by
  have hzero : x.value ≠ 0 := by
    intro hvalue
    rw [← Int.cast_zero, ← toInt?_eq_some hx, hfraction] at hvalue
    cases hvalue
  cases x with
  | nan | infinity => cases hx
  | finite negative units hunits =>
    cases y with
    | nan | infinity => cases hy
    | finite negative' units' hunits' =>
      have hone : (unitsPerOne : ℚ) ≠ 0 := Nat.cast_ne_zero.mpr unitsPerOne_pos.ne'
      have habs := congrArg abs h
      rw [abs_value, abs_value, div_left_inj' hone, Nat.cast_inj] at habs
      subst habs
      rcases Bool.eq_or_eq_not negative' negative with rfl | rfl
      · rfl
      · rw [value_not negative hunits, self_eq_neg] at h
        exact absurd h hzero

end Binary64

namespace Number

/-- The exact value of a finite number. -/
def value : Number → ℚ
  | .int i => i
  | .float x => x.value

/-- The integer that a number is. -/
def toInt? : Number → Option ℤ
  | .int i => some i
  | .float x => x.toInt?

variable {m n : Number} {i : ℤ}

theorem toInt?_eq_some (hn : n.isFinite = true) : n.toInt? = some i ↔ n.value = i := by
  cases n with
  | int j => rw [toInt?, value, Option.some.injEq, Int.cast_inj]
  | float x => exact Binary64.toInt?_eq_some hn

theorem text_of_toInt? (h : n.toInt? = some i) : n.text = toString i := by
  cases n with
  | int j =>
    cases h
    rfl
  | float x =>
    have hx : x.toInt? = some i := h
    rw [text, hx]

theorem exists_float (h : n.toInt? = none) :
    ∃ x, n = .float x ∧ x.toInt? = none ∧ n.text = x.literal := by
  cases n with
  | int j => cases h
  | float x =>
    have hx : x.toInt? = none := h
    exact ⟨x, rfl, hx, by rw [text, hx]⟩

/-- A whole number is no double with a fraction, in text as in value. -/
theorem text_ne_and_value_ne (hm : m.isFinite = true) (hn : n.isFinite = true)
    (hwhole : m.toInt? = some i) (hfraction : n.toInt? = none) :
    m.text ≠ n.text ∧ m.value ≠ n.value := by
  constructor
  · obtain ⟨x, rfl, -, htext⟩ := exists_float hfraction
    rw [text_of_toInt? hwhole, htext]
    exact (Binary64.literal_ne_toString hn i).symm
  · rw [(toInt?_eq_some hm).mp hwhole]
    intro hvalue
    rw [(toInt?_eq_some hn).mpr hvalue.symm] at hfraction
    cases hfraction

theorem text_eq_iff (hm : m.isFinite = true) (hn : n.isFinite = true) :
    m.text = n.text ↔ m.value = n.value := by
  cases hi : m.toInt? with
  | some i =>
    cases hj : n.toInt? with
    | some j =>
      rw [(toInt?_eq_some hm).mp hi, (toInt?_eq_some hn).mp hj, Int.cast_inj, text_of_toInt? hi,
        text_of_toInt? hj]
      exact ⟨fun h => (isNumeral_toString i).inj (h ▸ isNumeral_toString j), congrArg toString⟩
    | none =>
      obtain ⟨htext, hvalue⟩ := text_ne_and_value_ne hm hn hi hj
      exact iff_of_false htext hvalue
  | none =>
    cases hj : n.toInt? with
    | some j =>
      obtain ⟨htext, hvalue⟩ := text_ne_and_value_ne hn hm hj hi
      exact iff_of_false htext.symm hvalue.symm
    | none =>
      obtain ⟨x, rfl, hx, hxtext⟩ := exists_float hi
      obtain ⟨y, rfl, -, hytext⟩ := exists_float hj
      rw [hxtext, hytext]
      constructor
      · intro h
        rw [Binary64.literal_inj hm hn h]
      · intro h
        rw [Binary64.eq_of_value_eq hm hn hx h]

/-- Finite numbers have the same text exactly if they have the same value, whether they are integers or
doubles. The text of a whole number is the canonical numeral of its value. The text of a double with a
fraction is a literal that reads back as the double, with a point or an exponent. -/
theorem text_tells_value :
    (∀ m n : Number, m.isFinite = true → n.isFinite = true →
      (m.text = n.text ↔ m.value = n.value)) ∧
    (∀ (n : Number) (i : ℤ), n.isFinite = true → n.value = i → IsNumeral i n.text) ∧
    ∀ x : Binary64, x.isFinite = true → (∀ i : ℤ, x.value ≠ i) →
      (Number.float x).text = x.literal ∧ Binary64.read? x.literal = some x ∧
        ('.' ∈ x.literal.toList ∨ 'e' ∈ x.literal.toList) := by
  refine ⟨fun m n => text_eq_iff, fun n i hn hvalue => ?_, fun x hx hfraction => ?_⟩
  · rw [text_of_toInt? ((toInt?_eq_some hn).mpr hvalue)]
    exact isNumeral_toString i
  · have hnone : x.toInt? = none := Option.eq_none_iff_forall_ne_some.mpr fun i hi =>
      hfraction i ((Binary64.toInt?_eq_some hx).mp hi)
    exact ⟨by rw [text, hnone], Binary64.read?_literal hx, Binary64.mark_mem_literal hx⟩

/-- The double 1e23, which is no power of ten. -/
def tenPow23 : Binary64 :=
  .finite false (99999999999999991611392 * unitsPerOne) (by decide +kernel)

def oneHalf : Binary64 :=
  .finite false (unitsPerOne / 2) (by decide +kernel)

theorem text_tells_value_sample :
    (Number.float tenPow23).isFinite = true ∧
      (Number.int 99999999999999991611392).isFinite = true ∧
      (Number.float tenPow23).value = (99999999999999991611392 : ℤ) ∧
      (Number.float tenPow23).text = (Number.int 99999999999999991611392).text ∧
      IsNumeral 99999999999999991611392 (Number.float tenPow23).text ∧
      oneHalf.isFinite = true ∧ (∀ i : ℤ, oneHalf.value ≠ i) ∧
      (Number.float oneHalf).text = oneHalf.literal ∧
      Binary64.read? oneHalf.literal = some oneHalf := by
  have hwhole : (Number.float tenPow23).toInt? = some 99999999999999991611392 := by decide +kernel
  have hnone : oneHalf.toInt? = none := by decide +kernel
  have hvalue := (toInt?_eq_some rfl).mp hwhole
  have hfraction (i : ℤ) : oneHalf.value ≠ i := by
    intro h
    rw [(Binary64.toInt?_eq_some rfl).mpr h] at hnone
    cases hnone
  obtain ⟨hsame, hnumeral, hliteral⟩ := text_tells_value
  obtain ⟨htext, hread, -⟩ := hliteral oneHalf rfl hfraction
  exact ⟨rfl, rfl, hvalue,
    (hsame (.float tenPow23) (.int 99999999999999991611392) rfl rfl).mpr hvalue,
    hnumeral _ _ rfl hvalue, rfl, hfraction, htext, hread⟩

end Number

end StyleTree
