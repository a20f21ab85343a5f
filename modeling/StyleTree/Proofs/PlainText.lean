import StyleTree.Proofs.NumberText
import StyleTree.Proofs.TreeWalk

/-!
# Plain texts

Braces and semicolons are the marks that part the text of a style sheet. A text without them is
plain. What the compiler itself adds to the texts of a tree is plain: numerals, hyphens in property
names, the names of pseudo-classes. So a property, a value or a suffix is plain when the texts of
the tree and of the configuration in it are.
-/

namespace StyleTree

namespace Text

/-- The characters that part the declarations and the rules of a style sheet. -/
def marks : List Char :=
  ['\x7b', '\x7d', ';']

/-- The text holds no brace and no semicolon. -/
def IsPlain (s : String) : Prop :=
  ∀ ch ∈ s.toList, ch ∉ marks

instance (s : String) : Decidable (IsPlain s) :=
  List.decidableBAll (· ∉ marks) s.toList

theorem IsPlain.not_mem {s : String} (h : IsPlain s) {ch : Char} (hmark : ch ∈ marks) :
    ch ∉ s.toList :=
  fun hmem => h ch hmem hmark

theorem isPlain_append {a b : String} : IsPlain (a ++ b) ↔ IsPlain a ∧ IsPlain b := by
  rw [IsPlain, String.toList_append]
  exact List.forall_mem_append

theorem isPlain_ofList {cs : List Char} : IsPlain (String.ofList cs) ↔ ∀ ch ∈ cs, ch ∉ marks := by
  rw [IsPlain, String.toList_ofList]

/-- The small letter of a capital one is a letter; the marks lie outside the letters. -/
theorem toLower_not_mem_marks {ch : Char} (h : ch.isUpper = true) : ch.toLower ∉ marks := by
  have hbounds : ch.val ≥ 'A'.val ∧ ch.val ≤ 'Z'.val := of_decide_eq_true h
  have hlow : 65 ≤ ch.val.toNat := hbounds.1
  have hhigh : ch.val.toNat ≤ 90 := hbounds.2
  have hshift : ('a'.val - 'A'.val).toNat = 32 := rfl
  have hlower : ch.toLower.val = ch.val + ('a'.val - 'A'.val) := congrArg Char.val (dif_pos hbounds)
  have hsmall : ch.toLower.toNat = ch.val.toNat + 32 := by
    show ch.toLower.val.toNat = ch.val.toNat + 32
    rw [hlower, UInt32.toNat_add, hshift]
    exact Nat.mod_eq_of_lt (by omega)
  have hmarks : ∀ mark ∈ marks, mark.toNat < 97 ∨ 122 < mark.toNat := by simp [marks]
  intro hmem
  have := hmarks _ hmem
  omega

theorem isPlain_hyphenate {s : String} (h : IsPlain s) : IsPlain (hyphenate s) := by
  refine isPlain_ofList.mpr fun ch hch => ?_
  obtain ⟨a, ha, hch⟩ := List.mem_flatMap.mp hch
  rw [splitCapital] at hch
  split at hch
  · rcases List.mem_cons.mp hch with rfl | hch
    · decide
    · rw [List.mem_singleton.mp hch]
      exact toLower_not_mem_marks ‹_›
  · rw [List.mem_singleton.mp hch]
    exact h a ha

end Text

open Text Visit

theorem Property.isPlain_name {key : String} (h : IsPlain key) : IsPlain (Property.name key) := by
  rw [Property.name]
  split
  · exact h
  · exact isPlain_hyphenate h

/-! ## Numerals -/

/-- A character of a numeral. -/
def IsNumeralChar (ch : Char) : Prop :=
  ch.isDigit = true ∨ ch ∈ ['-', '+', '.', 'e']

theorem isPlain_numeral {cs : List Char} (h : ∀ ch ∈ cs, IsNumeralChar ch) :
    IsPlain (String.ofList cs) := by
  have hmarks : ∀ mark ∈ marks, ¬ IsNumeralChar mark := by simp [marks, IsNumeralChar]
  exact isPlain_ofList.mpr fun ch hch hmark => hmarks ch hmark (h ch hch)

theorem isNumeralChar_of_mem_toDigits {n : Nat} {ch : Char} (h : ch ∈ Nat.toDigits 10 n) :
    IsNumeralChar ch :=
  .inl (Nat.isDigit_of_mem_toDigits (by decide) (by decide) h)

namespace Decimal

variable {d : Decimal} {digits : List Char} {place : Int} {ch : Char}

theorem isNumeralChar_zeros {n : Nat} (h : ch ∈ zeros n) : IsNumeralChar ch := by
  rw [List.eq_of_mem_replicate h]
  exact .inl rfl

theorem isNumeralChar_scientific (h : ch ∈ d.scientific.1) : IsNumeralChar ch := by
  rw [scientific] at h
  split at h
  · rw [List.mem_singleton.mp h]
    exact .inl rfl
  · have hmem := (List.dropWhile_sublist _).mem (List.mem_reverse.mp h)
    exact isNumeralChar_of_mem_toDigits (List.mem_reverse.mp hmem)

theorem isNumeralChar_positional (hdigits : ∀ ch ∈ digits, IsNumeralChar ch)
    (h : ch ∈ positional digits place) : IsNumeralChar ch := by
  cases place with
  | ofNat place =>
    simp only [positional, List.mem_append, List.mem_cons] at h
    rcases h with (h | h) | rfl | h
    · exact hdigits ch (List.mem_of_mem_take h)
    · exact isNumeralChar_zeros h
    · exact .inr (by decide)
    · split at h
      · rw [List.mem_singleton.mp h]
        exact .inl rfl
      · exact hdigits ch (List.mem_of_mem_drop h)
  | negSucc gap =>
    simp only [positional, List.cons_append, List.mem_append, List.mem_cons] at h
    rcases h with rfl | rfl | h | h
    · exact .inl rfl
    · exact .inr (by decide)
    · exact isNumeralChar_zeros h
    · exact hdigits ch h

theorem isNumeralChar_exponential (hdigits : ∀ ch ∈ digits, IsNumeralChar ch)
    (h : ch ∈ exponential digits place) : IsNumeralChar ch := by
  have hsign : IsNumeralChar (if place < 0 then '-' else '+') := by
    split
    · exact .inr (by decide)
    · exact .inr (by decide)
  simp only [exponential, List.mem_append, List.mem_cons] at h
  rcases h with (h | rfl | rfl | h) | h
  · split at h
    · cases h
    · exact hdigits ch h
    · rcases List.mem_cons.mp h with rfl | h
      · exact hdigits ch List.mem_cons_self
      rcases List.mem_cons.mp h with rfl | h
      · exact .inr (by decide)
      · exact hdigits ch (List.mem_cons_of_mem _ h)
  · exact .inr (by decide)
  · exact hsign
  · exact isNumeralChar_zeros h
  · exact isNumeralChar_of_mem_toDigits h

theorem isNumeralChar_layout (h : ch ∈ d.layout) : IsNumeralChar ch := by
  have hdigits : ∀ ch ∈ d.scientific.1, IsNumeralChar ch := fun _ => isNumeralChar_scientific
  unfold layout at h
  simp only at h
  split at h
  · exact isNumeralChar_positional hdigits h
  · exact isNumeralChar_exponential hdigits h

end Decimal

theorem isPlain_toString (i : Int) : IsPlain (toString i) := by
  have hnumeral : ∀ ch ∈ (toString i).toList, IsNumeralChar ch := by
    intro ch hch
    rcases isDigit_or_sign_of_mem_toString hch with hdigit | rfl
    · exact .inl hdigit
    · exact .inr List.mem_cons_self
  rw [← String.ofList_toList (s := toString i)]
  exact isPlain_numeral hnumeral

theorem Binary64.isPlain_literal (x : Binary64) : IsPlain x.literal := by
  cases x with
  | nan => decide
  | infinity negative => cases negative <;> decide
  | finite negative units representable =>
    have hlayout : ∀ ch ∈ (Decimal.shortest units).layout, IsNumeralChar ch :=
      fun _ => Decimal.isNumeralChar_layout
    rw [literal]
    refine isPlain_numeral fun ch h => ?_
    split at h
    · rcases List.mem_cons.mp h with rfl | h
      · exact .inr (by decide)
      · exact hlayout ch h
    · exact hlayout ch h

/-- The text of a number is plain, whatever the number is. -/
theorem Number.isPlain_text (n : Number) : IsPlain n.text := by
  cases n with
  | int value => exact isPlain_toString value
  | float value =>
    rw [text]
    split
    · exact isPlain_toString _
    · exact value.isPlain_literal

/-! ## Declarations -/

/-- The text of a tree or of a configuration that a written value shows: a text with its constant
looked up, or the unit behind a number. -/
def ValueRules.shown? (rules : ValueRules) (property : String) : Value → Option String
  | .text s => some (rules.constants.resolve s)
  | .number _ => if property ∈ rules.unitless then none else some rules.unit
  | _ => none

theorem ValueRules.isPlain_write {rules : ValueRules} {property written : String} {v : Value}
    (h : rules.write property v = .ok written)
    (hshown : ∀ s ∈ rules.shown? property v, IsPlain s) : IsPlain written := by
  cases v with
  | text s =>
    cases h
    exact hshown _ rfl
  | number n =>
    rw [write, writeNumber] at h
    rw [shown?] at hshown
    split at h
    · cases h
    split at h
    · cases h
    split at h
    · cases h
      exact n.isPlain_text
    · rename_i hunit
      rw [if_neg hunit] at hshown
      cases h
      exact isPlain_append.mpr ⟨n.isPlain_text, hshown _ rfl⟩
  | _ => cases h

/-- The property and the value are plain. -/
structure Declaration.IsPlain (d : Declaration) : Prop where
  property : Text.IsPlain d.property
  value : Text.IsPlain d.value

/-! ## Selectors -/

/-- The text of a tree that an opening shows in selectors: the parameter of a pseudo block or the
label of a spec. -/
inductive Opening.Shows : Opening → String → Prop where
  | param {key : String} {p : Pseudo} (param : String) : Pseudo.ofKey? key = some p →
      Shows (.scope (p.suffixWith (some param))) param
  | label (kind : SpecKind) (label : String) : Shows (.scope (kind.suffix label)) label

/-- What an opening shows is a part of what it adds to a selector. -/
theorem Opening.Shows.isPlain {o : Opening} {s : String} (h : o.Shows s)
    (hsuffix : IsPlain o.suffix) : IsPlain s := by
  cases h with
  | param _ _ => exact (isPlain_append.mp (isPlain_append.mp hsuffix).1).2
  | label kind _ =>
    cases kind with
    | modifier => exact (isPlain_append.mp hsuffix).2
    | child => exact (isPlain_append.mp hsuffix).2

/-- The name of a pseudo-class is a hyphenated key. -/
theorem Pseudo.name_of_ofKey? {key : String} {p : Pseudo} (h : ofKey? key = some p) :
    key ∈ classes ++ functions ++ elements ∧ p.name = hyphenate key := by
  obtain ⟨before, after, heq, -⟩ := List.lookup_eq_some_iff.mp h
  have hmem : (key, p) ∈ table := by
    rw [heq]
    exact List.mem_append_right _ List.mem_cons_self
  simp only [table, List.mem_append, List.mem_map] at hmem ⊢
  rcases hmem with (⟨k, hk, hp⟩ | ⟨k, hk, hp⟩) | ⟨k, hk, hp⟩
  · cases hp
    exact ⟨.inl (.inl hk), rfl⟩
  · cases hp
    exact ⟨.inl (.inr hk), rfl⟩
  · cases hp
    exact ⟨.inr hk, rfl⟩

theorem Pseudo.isPlain_suffix {key : String} {p : Pseudo} (h : ofKey? key = some p) :
    IsPlain p.suffix := by
  have hkeys : ∀ key ∈ classes ++ functions ++ elements, IsPlain key := by decide +kernel
  obtain ⟨hkey, hname⟩ := name_of_ofKey? h
  rw [suffix, hname]
  refine isPlain_append.mpr ⟨?_, isPlain_hyphenate (hkeys key hkey)⟩
  split <;> decide

theorem SpecKind.isPlain_suffix {kind : SpecKind} {label : String} (h : IsPlain label) :
    IsPlain (kind.suffix label) := by
  cases kind with
  | modifier => exact isPlain_append.mpr ⟨by decide, h⟩
  | child => exact isPlain_append.mpr ⟨by decide, h⟩

/-- The walk through a tree enters scopes that are plain where the texts they show are. -/
theorem plain_walk (c : Config) (tree : Mapping) :
    EveryStep (fun o => (∀ s, o.Shows s → IsPlain s) → IsPlain o.suffix) (walk c tree) := by
  have hspec (kind : SpecKind) (raw : Mapping)
      (h : ∀ s, (kind.opening raw).Shows s → IsPlain s) : IsPlain (kind.opening raw).suffix :=
    SpecKind.isPlain_suffix (h _ (.label kind _))
  refine everyStep_visitsOf ⟨fun key body hk => ?_, hspec⟩ tree none [] 0
  cases hc : classify c key (.mapping body) with
  | property => exact absurd hc hk
  | breakpoint => exact fun _ => show IsPlain "" by decide
  | pseudo =>
    obtain ⟨p, hp⟩ := ofKey?_of_classify hc
    intro h
    simp only [KeyKind.opening, hp, Option.map_some, Option.getD_some] at h ⊢
    have hname := Pseudo.isPlain_suffix hp
    cases hparam : paramText? body with
    | none => exact hname
    | some param =>
      rw [hparam] at h
      have hopen := isPlain_append.mpr ⟨hname, show IsPlain "(" by decide⟩
      exact isPlain_append.mpr ⟨isPlain_append.mpr ⟨hopen, h param (.param param hp)⟩, by decide⟩
  | modifier => exact hspec .modifier body
  | child => exact hspec .child body

theorem Trail.isPlain_suffix {t : Trail} (h : ∀ step ∈ t, IsPlain step.opening.suffix) :
    IsPlain t.suffix := by
  induction t with
  | nil => decide
  | cons step rest ih =>
    have hrest := ih fun other hother => h other (List.mem_cons_of_mem _ hother)
    exact isPlain_append.mpr ⟨h step List.mem_cons_self, hrest⟩

end StyleTree
