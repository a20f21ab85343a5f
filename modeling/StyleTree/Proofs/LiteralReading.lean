import Mathlib
import StyleTree.Proofs.NearestDouble

/-!
# Literals read back

The literal of a finite double reads as that double (`Binary64.read?_literal`). Positional and
scientific notation keep the digits and the place of the first one, so a decimal that is laid out and
read again is the same but for zeros at the end of its significand (`Decimal.read?_layout`), and
these do not count for the nearest double. So different finite doubles have different literals
(`Binary64.literal_inj`).
-/

namespace StyleTree

namespace Decimal

/-! ## Digits -/

theorem ofDigits_toDigits (n : ℕ) : ofDigits (Nat.toDigits 10 n) = n :=
  Nat.ofDigitChars_ten_toDigits

theorem ofDigits_append_zeros (digits : List Char) (k : ℕ) :
    ofDigits (digits ++ zeros k) = ofDigits digits * 10 ^ k := by
  rw [ofDigits, Nat.ofDigitChars_append, zeros, Nat.ofDigitChars_replicate_zero, ofDigits,
    Nat.mul_comm]

theorem ofDigits_zeros_append (k : ℕ) (digits : List Char) :
    ofDigits (zeros k ++ digits) = ofDigits digits := by
  rw [ofDigits, Nat.ofDigitChars_append, zeros, Nat.ofDigitChars_replicate_zero, Nat.mul_zero,
    ofDigits]

/-- A numeral in decimal digits. -/
def IsDigits (cs : List Char) : Prop :=
  ∀ ch ∈ cs, ch.isDigit = true

theorem isDigits_append {cs cs' : List Char} : IsDigits (cs ++ cs') ↔ IsDigits cs ∧ IsDigits cs' :=
  List.forall_mem_append

theorem isDigits_zeros (k : ℕ) : IsDigits (zeros k) := by
  intro ch hch
  rw [List.eq_of_mem_replicate hch]
  rfl

theorem isDigits_toDigits (n : ℕ) : IsDigits (Nat.toDigits 10 n) :=
  fun _ => Nat.isDigit_of_mem_toDigits (by decide) (by decide)

/-! ## The parts of a literal -/

variable {whole fraction rest digits : List Char} {exponent place : ℤ}

/-- What can stand behind the digits of a literal. -/
def IsExponent (rest : List Char) : Prop :=
  rest = [] ∨ ∃ more, rest = 'e' :: more

theorem takeWhile_digits (hdigits : IsDigits digits) (hrest : IsExponent rest) :
    (digits ++ rest).takeWhile Char.isDigit = digits := by
  rw [List.takeWhile_append_of_pos hdigits]
  rcases hrest with rfl | ⟨more, rfl⟩
  · rw [List.takeWhile_nil, List.append_nil]
  · rw [List.takeWhile_cons_of_neg (by decide), List.append_nil]

theorem dropWhile_digits (hdigits : IsDigits digits) (hrest : IsExponent rest) :
    (digits ++ rest).dropWhile Char.isDigit = rest := by
  rw [List.dropWhile_append_of_pos hdigits]
  rcases hrest with rfl | ⟨more, rfl⟩
  · rfl
  · exact List.dropWhile_cons_of_neg (by decide)

theorem read?_point (hwhole : IsDigits whole) (hne : whole ≠ []) (hfraction : IsDigits fraction)
    (hrest : IsExponent rest) (hexponent : readExponent? rest = some exponent) :
    read? (whole ++ '.' :: (fraction ++ rest)) =
      some ⟨ofDigits (whole ++ fraction), exponent - fraction.length⟩ := by
  have htake : (whole ++ '.' :: (fraction ++ rest)).takeWhile Char.isDigit = whole := by
    rw [List.takeWhile_append_of_pos hwhole, List.takeWhile_cons_of_neg (by decide),
      List.append_nil]
  have hdrop : (whole ++ '.' :: (fraction ++ rest)).dropWhile Char.isDigit =
      '.' :: (fraction ++ rest) := by
    rw [List.dropWhile_append_of_pos hwhole, List.dropWhile_cons_of_neg (by decide)]
  have hnonempty : (whole.isEmpty && fraction.isEmpty) = false := by
    rw [List.isEmpty_eq_false_iff.mpr hne, Bool.false_and]
  simp only [read?, htake, hdrop, takeWhile_digits hfraction hrest,
    dropWhile_digits hfraction hrest, hnonempty, hexponent]
  rfl

theorem read?_mark {more : List Char} (hwhole : IsDigits whole) (hne : whole ≠ [])
    (hexponent : readExponent? ('e' :: more) = some exponent) :
    read? (whole ++ 'e' :: more) = some ⟨ofDigits whole, exponent⟩ := by
  have hread : read? (whole ++ 'e' :: more) =
      if (whole.isEmpty && ([] : List Char).isEmpty) = true then none
      else (readExponent? ('e' :: more)).bind fun e => some ⟨ofDigits (whole ++ []), e - 0⟩ := by
    simp only [read?, takeWhile_digits hwhole (.inr ⟨more, rfl⟩),
      dropWhile_digits hwhole (.inr ⟨more, rfl⟩)]
    rfl
  rw [hread, List.isEmpty_eq_false_iff.mpr hne, Bool.false_and, if_neg Bool.false_ne_true,
    hexponent, List.append_nil, Option.bind_some, Int.sub_zero]

/-- The exponent part that scientific notation writes. -/
theorem readExponent?_mark (place : ℤ) (padding : ℕ) :
    readExponent? ('e' :: (if place < 0 then '-' else '+') ::
      (zeros padding ++ Nat.toDigits 10 place.natAbs)) = some place := by
  have hsign : splitSign ((if place < 0 then '-' else '+') ::
      (zeros padding ++ Nat.toDigits 10 place.natAbs)) =
        (decide (place < 0), zeros padding ++ Nat.toDigits 10 place.natAbs) := by
    by_cases h : place < 0
    · rw [if_pos h, decide_eq_true h]
      rfl
    · rw [if_neg h, decide_eq_false h]
      rfl
  have hnonempty : (zeros padding ++ Nat.toDigits 10 place.natAbs).isEmpty = false := by
    rw [List.isEmpty_eq_false_iff]
    exact List.append_ne_nil_of_right_ne_nil _ Nat.toDigits_ne_nil
  have hall : (zeros padding ++ Nat.toDigits 10 place.natAbs).all Char.isDigit = true :=
    List.all_eq_true.mpr (isDigits_append.mpr ⟨isDigits_zeros _, isDigits_toDigits _⟩)
  simp only [readExponent?, hsign, hnonempty, hall, ofDigits_zeros_append, ofDigits_toDigits,
    decide_eq_true_eq]
  rw [if_pos (by decide)]
  split <;> congr 1 <;> omega

/-! ## Layouts -/

/-- Digits that end before the point are filled up with zeros. -/
theorem positional_of_length_le {place : ℕ} (h : digits.length ≤ place + 1) :
    positional digits (.ofNat place) =
      digits ++ zeros (place + 1 - digits.length) ++ '.' :: zeros 1 := by
  have htake : digits.take (place + 1) = digits := List.take_of_length_le h
  have hdrop : digits.drop (place + 1) = [] := List.drop_of_length_le h
  simp only [positional, htake, hdrop]
  rfl

theorem positional_of_lt_length {place : ℕ} (h : place + 1 < digits.length) :
    positional digits (.ofNat place) =
      digits.take (place + 1) ++ '.' :: digits.drop (place + 1) := by
  have hlength : place + 1 - (digits.take (place + 1)).length = 0 := by
    rw [List.length_take]
    omega
  have hdrop : (digits.drop (place + 1)).isEmpty = false := by
    rw [List.isEmpty_eq_false_iff, Ne, List.drop_eq_nil_iff]
    omega
  simp only [positional, hlength, hdrop, zeros, List.replicate_zero, List.append_nil]
  rfl

/-- Positional notation keeps the digits and the place of the first one, but may add zeros. -/
theorem read?_positional (place : ℤ) (hdigits : IsDigits digits) (hne : digits ≠ []) :
    ∃ k, read? (positional digits place) =
      some (finer ⟨ofDigits digits, place + 1 - digits.length⟩ k) := by
  have hread {whole fraction : List Char} (hwhole : IsDigits whole) (hne : whole ≠ [])
      (hfraction : IsDigits fraction) : read? (whole ++ '.' :: fraction) =
        some ⟨ofDigits (whole ++ fraction), -fraction.length⟩ := by
    have hexponent : readExponent? [] = some 0 := rfl
    have hpoint := read?_point hwhole hne hfraction (.inl rfl) hexponent
    rwa [List.append_nil, Int.zero_sub] at hpoint
  cases place with
  | ofNat place =>
    rcases Nat.lt_or_ge (place + 1) digits.length with h | h
    · refine ⟨0, ?_⟩
      obtain ⟨htake, hdrop⟩ : IsDigits (digits.take (place + 1)) ∧
          IsDigits (digits.drop (place + 1)) := by
        rwa [← isDigits_append, List.take_append_drop]
      have hwhole : digits.take (place + 1) ≠ [] := by
        rw [Ne, List.take_eq_nil_iff, not_or]
        exact ⟨Nat.succ_ne_zero place, hne⟩
      rw [positional_of_lt_length h, hread htake hwhole hdrop, List.take_append_drop,
        List.length_drop, finer_mk, Option.some.injEq, mk.injEq, Int.ofNat_eq_natCast]
      exact ⟨(Nat.mul_one _).symm, by omega⟩
    · refine ⟨place + 1 - digits.length + 1, ?_⟩
      have hwhole : IsDigits (digits ++ zeros (place + 1 - digits.length)) :=
        isDigits_append.mpr ⟨hdigits, isDigits_zeros _⟩
      rw [positional_of_length_le h,
        hread hwhole (List.append_ne_nil_of_left_ne_nil hne _) (isDigits_zeros 1),
        ofDigits_append_zeros, ofDigits_append_zeros, finer_mk, Option.some.injEq, mk.injEq,
        Int.ofNat_eq_natCast, zeros, List.length_replicate]
      exact ⟨by rw [Nat.mul_assoc, ← Nat.pow_add], by omega⟩
  | negSucc gap =>
    refine ⟨0, ?_⟩
    have hfraction : IsDigits (zeros gap ++ digits) :=
      isDigits_append.mpr ⟨isDigits_zeros gap, hdigits⟩
    have hlayout : positional digits (.negSucc gap) = zeros 1 ++ '.' :: (zeros gap ++ digits) := rfl
    rw [hlayout, hread (isDigits_zeros 1) (List.cons_ne_nil _ _) hfraction, ofDigits_zeros_append,
      ofDigits_zeros_append, finer_mk, Option.some.injEq, mk.injEq, List.length_append, zeros,
      List.length_replicate]
    exact ⟨(Nat.mul_one _).symm, by omega⟩

theorem read?_exponential (hdigits : IsDigits digits) (hne : digits ≠ []) :
    read? (exponential digits place) = some ⟨ofDigits digits, place + 1 - digits.length⟩ := by
  have hexponent := readExponent?_mark place (2 - (Nat.toDigits 10 place.natAbs).length)
  cases digits with
  | nil => exact absurd rfl hne
  | cons first more =>
    obtain ⟨hfirst, hmore⟩ := List.forall_mem_cons.mp hdigits
    have hwhole : IsDigits [first] := List.forall_mem_singleton.mpr hfirst
    have hplace : place - more.length = place + 1 - (first :: more).length := by
      rw [List.length_cons]
      omega
    rw [← hplace]
    cases more with
    | nil =>
      have hread := read?_mark hwhole (List.cons_ne_nil _ _) hexponent
      rw [List.length_nil, Nat.cast_zero, Int.sub_zero, ← hread]
      simp only [exponential, List.cons_append, List.nil_append]
    | cons second more =>
      have hread := read?_point hwhole (List.cons_ne_nil _ _) hmore (.inr ⟨_, rfl⟩) hexponent
      rw [List.singleton_append, List.singleton_append] at hread
      rw [← hread]
      simp only [exponential, List.append_assoc, List.cons_append]

/-- The digits of a decimal without the zeros at their end, and the place of the first one. -/
theorem exists_finer_scientific {d : Decimal} (h : d.significand ≠ 0) :
    IsDigits d.scientific.1 ∧ d.scientific.1 ≠ [] ∧
      ∃ k, finer ⟨ofDigits d.scientific.1, d.scientific.2 + 1 - d.scientific.1.length⟩ k = d := by
  have hscientific : d.scientific =
      ((Nat.toDigits 10 d.significand).rdropWhile (· = '0'),
        d.exponent + (Nat.toDigits 10 d.significand).length - 1) := if_neg h
  obtain ⟨k, hzeros⟩ : ∃ k, (Nat.toDigits 10 d.significand).rtakeWhile (· = '0') = zeros k :=
    ⟨_, List.eq_replicate_of_mem fun ch hch => by simpa using List.mem_rtakeWhile_imp hch⟩
  have hdigits : (Nat.toDigits 10 d.significand).rdropWhile (· = '0') ++ zeros k =
      Nat.toDigits 10 d.significand := by
    rw [← hzeros, List.rdropWhile_append_rtakeWhile]
  rw [hscientific]
  generalize (Nat.toDigits 10 d.significand).rdropWhile (· = '0') = digits at hdigits ⊢
  have hsignificand : ofDigits digits * 10 ^ k = d.significand := by
    rw [← ofDigits_append_zeros, hdigits, ofDigits_toDigits]
  have hlength : digits.length + k = (Nat.toDigits 10 d.significand).length := by
    rw [← hdigits, List.length_append, zeros, List.length_replicate]
  refine ⟨?_, ?_, k, ?_⟩
  · exact (isDigits_append.mp (hdigits ▸ isDigits_toDigits d.significand)).1
  · rintro rfl
    exact h (hsignificand.symm.trans (Nat.zero_mul _))
  · have hexponent : d.exponent + (digits.length + k : ℕ) - 1 + 1 - digits.length - k =
        d.exponent := by omega
    rw [finer_mk, hsignificand, ← hlength, hexponent]

/-- A decimal that is laid out and read again is read as the same double. -/
theorem read?_layout (d : Decimal) :
    ∃ r, read? d.layout = some r ∧ ∀ negative, r.nearest negative = d.nearest negative := by
  by_cases h : d.significand = 0
  · have hlayout : d.layout = ['0', '.', '0'] := by
      have hscientific : d.scientific = (['0'], 0) := if_pos h
      rw [layout, hscientific]
      rfl
    refine ⟨⟨0, -1⟩, by rw [hlayout]; rfl, fun negative => ?_⟩
    rw [nearest_zero negative h, nearest_zero negative rfl]
  obtain ⟨hdigits, hne, k, hfiner⟩ := exists_finer_scientific h
  unfold layout
  simp only
  split
  · obtain ⟨k', hread⟩ := read?_positional d.scientific.2 hdigits hne
    refine ⟨_, hread, fun negative => ?_⟩
    rw [nearest_finer, ← nearest_finer negative _ k, hfiner]
  · refine ⟨_, read?_exponential hdigits hne, fun negative => ?_⟩
    rw [← nearest_finer negative _ k, hfiner]

/-! ## Signs and words -/

/-- An unsigned literal starts with no sign. -/
theorem splitSign_of_read? {cs : List Char} {r : Decimal} (h : read? cs = some r) :
    splitSign cs = (false, cs) := by
  unfold splitSign
  split
  · cases h
  · cases h
  · rfl

theorem ne_words_of_read? {cs : List Char} {r : Decimal} (h : read? cs = some r) :
    cs ≠ ['i', 'n', 'f'] ∧ cs ≠ ['n', 'a', 'n'] := by
  constructor <;> rintro rfl <;> cases h

end Decimal

namespace Binary64

/-- A literal with its sign. -/
theorem read?_signed {cs : List Char} {r : Decimal} (h : Decimal.read? cs = some r)
    (negative : Bool) :
    read? (String.ofList (if negative then '-' :: cs else cs)) = some (r.nearest negative) := by
  have hsplit : Decimal.splitSign (if negative then '-' :: cs else cs) = (negative, cs) := by
    cases negative with
    | true => rfl
    | false => exact Decimal.splitSign_of_read? h
  obtain ⟨hinf, hnan⟩ := Decimal.ne_words_of_read? h
  simp only [read?, String.toList_ofList, hsplit, if_neg hinf, if_neg hnan, h, Option.map_some]

/-- The literal of a finite double reads as the double. -/
theorem read?_literal {x : Binary64} (h : x.isFinite = true) : read? x.literal = some x := by
  cases x with
  | nan | infinity => cases h
  | finite negative units representable =>
    obtain ⟨r, hr, hnearest⟩ := Decimal.read?_layout (Decimal.shortest units)
    obtain ⟨hunits, sign, hshortest⟩ :=
      Decimal.readsAs_eq_true.mp (Decimal.readsAs_shortest representable)
    rw [literal, read?_signed hr negative, hnearest, Decimal.nearest_signed hshortest negative]

theorem literal_inj {x y : Binary64} (hx : x.isFinite = true) (hy : y.isFinite = true)
    (h : x.literal = y.literal) : x = y := by
  have hread := read?_literal hx
  rw [h, read?_literal hy] at hread
  exact (Option.some.inj hread).symm

end Binary64

end StyleTree
