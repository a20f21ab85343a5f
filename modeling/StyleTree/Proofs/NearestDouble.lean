import Mathlib
import StyleTree.Number.Decimal

/-!
# The nearest double

A decimal is read as the nearest double. What it is read as depends on its magnitude alone and not
on how many zeros its significand ends in (`Decimal.nearest_finer`), and the sign goes along
(`Decimal.nearest_signed`). The exact decimal value of a double reads as that double
(`Decimal.readsAs_ofUnits`), so the search for the shortest decimal finds one that does
(`Decimal.readsAs_shortest`).
-/

namespace StyleTree

theorem unitsPerOne_pos : 0 < unitsPerOne := by
  unfold unitsPerOne
  apply Nat.pow_pos
  decide

namespace Binary64

/-! ## Rounding -/

theorem roundDiv_mul_right (n d : ℕ) {k : ℕ} (hk : 0 < k) :
    roundDiv (n * k) (d * k) = roundDiv n d := by
  have hdouble : 2 * (n % d * k) = 2 * (n % d) * k := (Nat.mul_assoc 2 (n % d) k).symm
  have hlt : 2 * (n % d) * k < d * k ↔ 2 * (n % d) < d := Nat.mul_lt_mul_right hk
  have heq : 2 * (n % d) * k = d * k ↔ 2 * (n % d) = d := Nat.mul_left_inj hk.ne'
  simp only [roundDiv, Nat.mul_div_mul_right n d hk, Nat.mul_mod_mul_right, hdouble, hlt, heq]

theorem roundDiv_mul_self (q : ℕ) {d : ℕ} (hd : 0 < d) : roundDiv (q * d) d = q := by
  simp only [roundDiv, Nat.mul_div_cancel q hd, Nat.mul_mod_left, Nat.mul_zero]
  exact if_pos (.inl hd)

/-- The quotient as it is counts, not how it is written. -/
theorem ofRatio_mul_right (negative : Bool) (n d : ℕ) {k : ℕ} (hk : 0 < k) :
    ofRatio negative (n * k) (d * k) = ofRatio negative n d := by
  have hscaled : n * k * unitsPerOne = n * unitsPerOne * k := Nat.mul_right_comm n k unitsPerOne
  have hstep (step : ℕ) : d * k * step = d * step * k := Nat.mul_right_comm d k step
  simp only [ofRatio, hscaled, Nat.mul_div_mul_right _ d hk, hstep, roundDiv_mul_right _ _ hk]

/-- A double is the nearest to its own value. -/
theorem ofRatio_units (negative : Bool) {units : ℕ} (h : Representable units) :
    ofRatio negative units unitsPerOne = .finite negative units h := by
  obtain ⟨significand, hunits⟩ := h.2
  have hpos : 0 < Nat.pow 2 (units.log2 - 52) := Nat.pow_pos (by decide)
  have hround : roundDiv (units * unitsPerOne) (unitsPerOne * Nat.pow 2 (units.log2 - 52)) *
      Nat.pow 2 (units.log2 - 52) = units := by
    generalize Nat.pow 2 (units.log2 - 52) = step at hunits hpos ⊢
    have hscaled : units * unitsPerOne = significand * (unitsPerOne * step) := by
      rw [hunits]
      ring
    rw [hscaled, roundDiv_mul_self _ (Nat.mul_pos unitsPerOne_pos hpos), Nat.mul_comm, ← hunits]
  simp only [ofRatio, Nat.mul_div_cancel units unitsPerOne_pos, hround]
  exact dif_pos h

end Binary64

namespace Decimal

/-! ## Zeros at the end -/

theorem width_le_iff {n k : ℕ} (hk : 0 < k) : width n ≤ k ↔ n < 10 ^ k :=
  Nat.length_toDigits_le_iff (by decide) hk

theorem toDigits_mul_pow {n : ℕ} (hn : 0 < n) (k : ℕ) :
    Nat.toDigits 10 (n * 10 ^ k) = Nat.toDigits 10 n ++ zeros k := by
  induction k with
  | zero => simp [zeros]
  | succ k ih =>
    have hpos : 0 < n * 10 ^ k := Nat.mul_pos hn (Nat.pow_pos (by decide))
    have happend := Nat.toDigits_append_toDigits (by decide : 1 < 10) hpos (by decide : 0 < 10)
    have hvalue : n * 10 ^ (k + 1) = 10 * (n * 10 ^ k) + 0 := by ring
    rw [hvalue, ← happend, ih, List.append_assoc, Nat.toDigits_zero, zeros, zeros,
      List.replicate_succ']

theorem width_mul_pow {n : ℕ} (hn : 0 < n) (k : ℕ) : width (n * 10 ^ k) = width n + k := by
  rw [width, toDigits_mul_pow hn, List.length_append, zeros, List.length_replicate, width]

/-- The same magnitude, with more zeros at the end of the significand. -/
def finer (d : Decimal) (k : ℕ) : Decimal :=
  ⟨d.significand * 10 ^ k, d.exponent - k⟩

theorem finer_mk (significand : ℕ) (exponent : ℤ) (k : ℕ) :
    finer ⟨significand, exponent⟩ k = ⟨significand * 10 ^ k, exponent - k⟩ :=
  rfl

/-- The place of the decimal's leading digit. -/
def size (d : Decimal) : ℤ :=
  width d.significand + d.exponent

/-- Numerator and denominator are told by the exponent, whatever its sign. -/
theorem nearest_eq (negative : Bool) (d : Decimal) :
    d.nearest negative =
      if d.significand = 0 ∨ d.size < -400 then .zero negative
      else if 400 < d.size then .infinity negative
      else .ofRatio negative (d.significand * 10 ^ d.exponent.toNat) (10 ^ (-d.exponent).toNat) := by
  obtain ⟨significand, exponent⟩ := d
  cases exponent with
  | ofNat e =>
    have hdenominator : (-Int.ofNat e).toNat = 0 := by
      rw [Int.ofNat_eq_natCast]
      omega
    simp only [hdenominator]
    rfl
  | negSucc e =>
    have hnumerator : significand * 10 ^ (Int.negSucc e).toNat = significand := Nat.mul_one _
    simp only [hnumerator]
    rfl

theorem nearest_zero (negative : Bool) {d : Decimal} (h : d.significand = 0) :
    d.nearest negative = .zero negative := by
  rw [nearest_eq, if_pos (.inl h)]

theorem size_finer {d : Decimal} (h : d.significand ≠ 0) (k : ℕ) : (d.finer k).size = d.size := by
  simp only [size, finer, width_mul_pow (Nat.pos_of_ne_zero h)]
  omega

theorem significand_finer_eq_zero {d : Decimal} {k : ℕ} :
    (d.finer k).significand = 0 ↔ d.significand = 0 := by
  rw [finer, Nat.mul_eq_zero, or_iff_left (Nat.pow_pos (by decide : 0 < 10)).ne']

/-- Zeros at the end of the significand do not count. -/
theorem nearest_finer (negative : Bool) (d : Decimal) (k : ℕ) :
    (d.finer k).nearest negative = d.nearest negative := by
  by_cases hzero : d.significand = 0
  · rw [nearest_zero negative hzero, nearest_zero negative (significand_finer_eq_zero.mpr hzero)]
  -- Both the numerator and the denominator grow by the power of ten that the exponents lack.
  obtain ⟨j, hnumerator, hdenominator⟩ : ∃ j : ℕ,
      k + (d.exponent - k).toNat = d.exponent.toNat + j ∧
        (-(d.exponent - k)).toNat = (-d.exponent).toNat + j :=
    ⟨(-(d.exponent - k)).toNat - (-d.exponent).toNat, by omega, by omega⟩
  have hratio : Binary64.ofRatio negative ((d.finer k).significand * 10 ^ (d.finer k).exponent.toNat)
      (10 ^ (-(d.finer k).exponent).toNat) =
        .ofRatio negative (d.significand * 10 ^ d.exponent.toNat) (10 ^ (-d.exponent).toNat) := by
    simp only [finer]
    rw [Nat.mul_assoc, ← Nat.pow_add, hnumerator, hdenominator, Nat.pow_add, Nat.pow_add,
      ← Nat.mul_assoc, Binary64.ofRatio_mul_right negative _ _ (Nat.pow_pos (by decide))]
  rw [nearest_eq, nearest_eq, hratio]
  simp only [significand_finer_eq_zero, size_finer hzero]

/-! ## The sign -/

/-- The sign of the double is the one that is given, and nothing else depends on it. -/
theorem nearest_signed {d : Decimal} {units : ℕ} {h : Representable units} {given sign : Bool}
    (hd : d.nearest given = .finite sign units h) (negative : Bool) :
    d.nearest negative = .finite negative units h := by
  rw [nearest_eq] at hd ⊢
  split at hd
  · rename_i hzero
    rw [if_pos hzero]
    cases hd
    rfl
  rename_i hzero
  split at hd
  · cases hd
  rename_i hhigh
  rw [if_neg hzero, if_neg hhigh]
  unfold Binary64.ofRatio at hd ⊢
  simp only at hd ⊢
  split at hd
  · rename_i hunits
    rw [dif_pos hunits]
    cases hd
    rfl
  · cases hd

/-! ## The exact value of a double -/

/-- The least positive double is this over a power of ten. -/
def unitSignificand : ℕ := Nat.pow 5 1074

theorem significand_ofUnits (units : ℕ) :
    (ofUnits units).significand = units * unitSignificand := by
  unfold ofUnits unitSignificand
  with_reducible rfl

theorem exponent_ofUnits (units : ℕ) : (ofUnits units).exponent = -1074 :=
  rfl

theorem lt_unitSignificand : 10 ^ 750 < unitSignificand := by decide +kernel

theorem unitSignificand_pos : 0 < unitSignificand :=
  lt_unitSignificand.pos

theorem unitLimit_mul_lt : unitLimit * unitSignificand < 10 ^ 1400 := by decide +kernel

theorem ten_pow_eq : 10 ^ 1074 = unitsPerOne * unitSignificand := by decide +kernel

theorem size_ofUnits {units : ℕ} (h : Representable units) (hpos : 0 < units) :
    -400 ≤ (ofUnits units).size ∧ (ofUnits units).size ≤ 400 := by
  have hlow : ¬ width (units * unitSignificand) ≤ 750 := by
    rw [width_le_iff (by decide), Nat.not_lt]
    exact lt_unitSignificand.le.trans (Nat.le_mul_of_pos_left _ hpos)
  have hhigh : width (units * unitSignificand) ≤ 1400 := by
    rw [width_le_iff (by decide)]
    exact ((Nat.mul_lt_mul_right unitSignificand_pos).mpr h.1).trans unitLimit_mul_lt
  rw [size, significand_ofUnits, exponent_ofUnits]
  omega

theorem nearest_ofUnits (negative : Bool) {units : ℕ} (h : Representable units) :
    (ofUnits units).nearest negative = .finite negative units h := by
  rcases Nat.eq_zero_or_pos units with rfl | hpos
  · have hzero : (ofUnits 0).significand = 0 := by rw [significand_ofUnits, Nat.zero_mul]
    exact nearest_zero negative hzero
  obtain ⟨hlow, hhigh⟩ := size_ofUnits h hpos
  have hzero : (ofUnits units).significand ≠ 0 := by
    rw [significand_ofUnits]
    exact (Nat.mul_pos hpos unitSignificand_pos).ne'
  have hnumerator : (-1074 : ℤ).toNat = 0 := rfl
  have hdenominator : (- -1074 : ℤ).toNat = 1074 := rfl
  rw [nearest_eq, if_neg (by omega), if_neg (by omega), exponent_ofUnits, significand_ofUnits,
    hnumerator, hdenominator, Nat.pow_zero, Nat.mul_one, ten_pow_eq,
    Binary64.ofRatio_mul_right negative _ _ unitSignificand_pos]
  exact Binary64.ofRatio_units negative h

/-! ## The shortest decimal -/

theorem readsAs_eq_true {units : ℕ} {d : Decimal} :
    readsAs units d = true ↔
      ∃ (h : Representable units) (sign : Bool), d.nearest false = .finite sign units h := by
  unfold readsAs
  split
  · rename_i sign u hu heq
    rw [heq, beq_iff_eq]
    constructor
    · rintro rfl
      exact ⟨hu, sign, rfl⟩
    · rintro ⟨h, sign', h'⟩
      cases h'
      rfl
  · rename_i hne
    exact ⟨nofun, fun ⟨h, sign, heq⟩ => absurd heq (hne sign units h)⟩

/-- The decimal that is written for a double reads as the double. -/
theorem readsAs_shortest {units : ℕ} (h : Representable units) :
    readsAs units (shortest units) = true := by
  unfold shortest
  simp only
  cases hfound : (List.range (width (ofUnits units).significand)).reverse.findSome? fun drop =>
      ((ofUnits units).neighbours drop).find? (readsAs units) with
  | none => exact readsAs_eq_true.mpr ⟨h, false, nearest_ofUnits false h⟩
  | some d =>
    obtain ⟨drop, -, hdrop⟩ := List.exists_of_findSome?_eq_some hfound
    exact List.find?_some hdrop

end Decimal

end StyleTree
