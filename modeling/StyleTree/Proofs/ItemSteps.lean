import Mathlib.Data.List.Basic
import StyleTree.KeyKind

/-!
# Steps to the items of a sequence

The step to an item of a sequence is the key that holds the sequence, followed by the number of the
item in brackets. The key and the number can be read off it (`Path.itemStep_inj`), so that steps to
different items differ. A step is never one of the keys under which a block keeps its parameter, and
no pseudo key is a step (`Config.namesItem_ofKey?`); the keys of a tree and of a configuration are
free, and can have the form of a step.
-/

namespace StyleTree

namespace Path

/-- The number of the item of the sequence under `key` that the step leads to. -/
def itemIndex? (key step : String) : Option Nat :=
  let digits := (step.toList.drop (key.length + 1)).dropLast
  let index := Nat.ofDigitChars 10 digits 0
  if step = itemStep key index then some index else none

theorem toList_itemStep (key : String) (index : Nat) :
    (itemStep key index).toList = key.toList ++ '[' :: (Nat.toDigits 10 index ++ [']']) := by
  have hstep : itemStep key index = key ++ "[" ++ index.repr ++ "]" := rfl
  rw [hstep, String.toList_append, String.toList_append, String.toList_append, Nat.toList_repr,
    List.append_assoc, List.append_assoc]
  rfl

/-- Behind the bracket there are only digits and the other bracket. -/
theorem bracket_not_mem (index : Nat) : '[' ∉ Nat.toDigits 10 index ++ [']'] := by
  intro h
  rcases List.mem_append.mp h with h | h
  · have hdigit : '['.isDigit = true := Nat.isDigit_of_mem_toDigits (by decide) (by decide) h
    cases hdigit
  · cases List.mem_singleton.mp h

/-- A list splits in one way at the last place where `a` stands. -/
theorem append_cons_inj_of_not_mem {α : Type} {a : α} {xs xs' ys ys' : List α} (hys : a ∉ ys)
    (hys' : a ∉ ys') (h : xs ++ a :: ys = xs' ++ a :: ys') : xs = xs' ∧ ys = ys' := by
  rcases List.append_eq_append_iff.mp h with ⟨zs, hxs, hzs⟩ | ⟨zs, hxs, hzs⟩
  · cases zs with
    | nil =>
      rw [List.append_nil] at hxs
      rw [List.nil_append, List.cons.injEq] at hzs
      exact ⟨hxs.symm, hzs.2⟩
    | cons z zs =>
      rw [List.cons_append, List.cons.injEq] at hzs
      exact absurd (hzs.2 ▸ List.mem_append_right zs List.mem_cons_self) hys
  · cases zs with
    | nil =>
      rw [List.append_nil] at hxs
      rw [List.nil_append, List.cons.injEq] at hzs
      exact ⟨hxs, hzs.2.symm⟩
    | cons z zs =>
      rw [List.cons_append, List.cons.injEq] at hzs
      exact absurd (hzs.2 ▸ List.mem_append_right zs List.mem_cons_self) hys'

/-- Steps to different items differ. -/
theorem itemStep_inj {key key' : String} {index index' : Nat} :
    itemStep key index = itemStep key' index' ↔ key = key' ∧ index = index' := by
  constructor
  · intro h
    have hlist := congrArg String.toList h
    rw [toList_itemStep, toList_itemStep] at hlist
    obtain ⟨hkey, hdigits⟩ := append_cons_inj_of_not_mem (bracket_not_mem _) (bracket_not_mem _) hlist
    have hindex := congrArg (Nat.ofDigitChars 10 · 0) (List.append_cancel_right hdigits)
    simp only [Nat.ofDigitChars_ten_toDigits] at hindex
    exact ⟨String.toList_inj.mp hkey, hindex⟩
  · rintro ⟨rfl, rfl⟩
    rfl

theorem itemIndex?_eq_some {key step : String} {index : Nat} :
    itemIndex? key step = some index ↔ step = itemStep key index := by
  constructor
  · intro h
    simp only [itemIndex?] at h
    split at h
    · rename_i hstep
      cases h
      exact hstep
    · cases h
  · rintro rfl
    have hdigits : ((itemStep key index).toList.drop (key.length + 1)).dropLast =
        Nat.toDigits 10 index := by
      rw [toList_itemStep, ← String.length_toList, List.drop_append, List.drop_of_length_le (by omega)]
      simp
    simp only [itemIndex?, hdigits, Nat.ofDigitChars_ten_toDigits, ↓reduceIte]

theorem itemIndex?_eq_none {key step : String} :
    itemIndex? key step = none ↔ ∀ index, step ≠ itemStep key index := by
  simp only [Option.eq_none_iff_forall_ne_some, Ne, itemIndex?_eq_some]

theorem getLast?_itemStep (key : String) (index : Nat) :
    (itemStep key index).toList.getLast? = some ']' := by
  rw [toList_itemStep, ← List.cons_append, ← List.append_assoc, List.getLast?_concat]

end Path

namespace Config

variable {c : Config}

/-- The key holds the specs of modifiers or of children. -/
def holdsSpecs (c : Config) (key : String) : Prop :=
  key = c.modifierKey ∨ key = c.childKey

/-- The key has the form of a step to an item of the sequence under the modifier key or the child
key. -/
def namesItem (c : Config) (key : String) : Bool :=
  (Path.itemIndex? c.modifierKey key).isSome || (Path.itemIndex? c.childKey key).isSome

theorem namesItem_eq_true {step : String} :
    c.namesItem step = true ↔ ∃ key index, c.holdsSpecs key ∧ step = Path.itemStep key index := by
  simp only [namesItem, Bool.or_eq_true, Option.isSome_iff_exists, Path.itemIndex?_eq_some]
  constructor
  · rintro (⟨index, h⟩ | ⟨index, h⟩)
    · exact ⟨_, index, .inl rfl, h⟩
    · exact ⟨_, index, .inr rfl, h⟩
  · rintro ⟨key, index, rfl | rfl, h⟩
    · exact .inl ⟨index, h⟩
    · exact .inr ⟨index, h⟩

/-- No text that ends otherwise than with a bracket is such a step. -/
theorem namesItem_of_getLast? {step : String} (h : step.toList.getLast? ≠ some ']') :
    c.namesItem step = false := by
  rw [← Bool.not_eq_true, namesItem_eq_true]
  rintro ⟨key, index, -, rfl⟩
  exact h (Path.getLast?_itemStep key index)

/-- The step is the key, or one to an item of the specs that the key holds. -/
def StepsFrom (c : Config) (key step : String) : Prop :=
  step = key ∨ c.holdsSpecs key ∧ ∃ index, step = Path.itemStep key index

/-- Where keys do not have the form of steps to items, the key can be read off the step. -/
theorem StepsFrom.key_eq {key key' step : String} (h : c.StepsFrom key step)
    (h' : c.StepsFrom key' step) (hkey : c.namesItem key = false)
    (hkey' : c.namesItem key' = false) : key = key' := by
  rcases h with rfl | ⟨hspecs, index, rfl⟩ <;> rcases h' with rfl | ⟨hspecs', index', heq⟩
  · rfl
  · rw [namesItem_eq_true.mpr ⟨key', index', hspecs', heq⟩] at hkey
    cases hkey
  · rw [namesItem_eq_true.mpr ⟨key, index, hspecs, rfl⟩] at hkey'
    cases hkey'
  · exact (Path.itemStep_inj.mp heq).1

theorem namesItem_ofKey? {key : String} {pseudo : Pseudo} (h : Pseudo.ofKey? key = some pseudo) :
    c.namesItem key = false := by
  have hall : (Pseudo.table.all fun entry => entry.1.toList.getLast? != some ']') = true := by decide
  obtain ⟨before, after, htable, -⟩ := List.lookup_eq_some_iff.mp h
  have hmem : (key, pseudo) ∈ Pseudo.table := htable ▸ List.mem_append_right _ List.mem_cons_self
  rw [List.all_eq_true] at hall
  have hlast := hall (key, pseudo) hmem
  exact namesItem_of_getLast? (bne_iff_ne.mp hlast)

end Config

end StyleTree
