import Mathlib
import StyleTree.Proofs.Hyphenation

/-!
# Names of properties read back

The name of a property stands for itself. A key in camel case is read back from it: every hyphen of
the name was put there with the small form of a capital, so the capitals can be put back
(`Text.camelCase_hyphenate`). Two keys without hyphens therefore name different properties
(`Property.name_readBack`). A key that has a hyphen is its own name, and is not read back.
-/

namespace StyleTree

namespace Text

/-- Puts a capital in the place of every hyphen and the small letter behind it. -/
def joinCapitals : List Char → List Char
  | '-' :: ch :: rest =>
    if ch.isLower then ch.toUpper :: joinCapitals rest else '-' :: joinCapitals (ch :: rest)
  | ch :: rest => ch :: joinCapitals rest
  | [] => []

def camelCase (s : String) : String :=
  String.ofList (joinCapitals s.toList)

variable {ch : Char} {cs rest : List Char}

theorem joinCapitals_cons (h : ch ≠ '-') : joinCapitals (ch :: rest) = ch :: joinCapitals rest := by
  rw [joinCapitals]
  rintro _ _ rfl
  exact absurd rfl h

theorem joinCapitals_hyphen (h : ch.isLower = true) :
    joinCapitals ('-' :: ch :: rest) = ch.toUpper :: joinCapitals rest := by
  rw [joinCapitals, if_pos h]

theorem joinCapitals_splitCapital (h : ch ≠ '-') :
    joinCapitals (splitCapital ch ++ rest) = ch :: joinCapitals rest := by
  unfold splitCapital
  split
  · rename_i hupper
    have hlower : ch.toLower.isLower = true := by
      rw [Char.isLower_toLower_eq_isAlpha, Char.isAlpha, hupper, Bool.true_or]
    have hback : ch.toLower.toUpper = ch := by
      rw [Char.toUpper_toLower_eq_toUpper]
      exact Char.toUpper_eq_of_not_isLower (Char.not_isLower_of_isUpper hupper)
    rw [List.cons_append, List.cons_append, List.nil_append, joinCapitals_hyphen hlower, hback]
  · exact joinCapitals_cons h

theorem joinCapitals_flatMap (h : '-' ∉ cs) : joinCapitals (cs.flatMap splitCapital) = cs := by
  induction cs with
  | nil => rfl
  | cons ch rest ih =>
    obtain ⟨hch, hrest⟩ := not_or.mp (mt List.mem_cons.mpr h)
    rw [List.flatMap_cons, joinCapitals_splitCapital (Ne.symm hch), ih hrest]

theorem camelCase_hyphenate {s : String} (h : '-' ∉ s.toList) : camelCase (hyphenate s) = s := by
  rw [camelCase, hyphenate, String.toList_ofList, joinCapitals_flatMap h, String.ofList_toList]

theorem not_isUpper_of_mem_splitCapital {a : Char} (h : ch ∈ splitCapital a) :
    ch.isUpper = false := by
  unfold splitCapital at h
  split at h
  · rcases List.mem_pair.mp h with rfl | rfl
    · rfl
    · exact Char.isUpper_toLower_eq_false a
  · rename_i hupper
    rw [List.mem_singleton.mp h]
    exact Bool.eq_false_iff.mpr hupper

theorem not_isUpper_of_mem_hyphenate {s : String} (h : ch ∈ (hyphenate s).toList) :
    ch.isUpper = false := by
  rw [hyphenate, String.toList_ofList] at h
  obtain ⟨a, -, hch⟩ := List.mem_flatMap.mp h
  exact not_isUpper_of_mem_splitCapital hch

end Text

namespace Property

theorem name_of_no_hyphen {key : String} (h : '-' ∉ key.toList) : name key = Text.hyphenate key :=
  if_neg h

theorem camelCase_name {key : String} (h : '-' ∉ key.toList) : Text.camelCase (name key) = key := by
  rw [name_of_no_hyphen h, Text.camelCase_hyphenate h]

/-- The name of a property names it too. Of a key without hyphens the name holds no capital, and the
key is what the name is in camel case; no other such key has that name. -/
theorem name_readBack (key : String) :
    name (name key) = name key ∧
      ('-' ∉ key.toList →
        (∀ ch ∈ (name key).toList, ch.isUpper = false) ∧
        Text.camelCase (name key) = key ∧
        ∀ key' : String, '-' ∉ key'.toList → name key' = name key → key' = key) := by
  refine ⟨name_name key, fun hkey => ⟨fun ch hch => ?_, camelCase_name hkey,
    fun key' hkey' heq => ?_⟩⟩
  · rw [name_of_no_hyphen hkey] at hch
    exact Text.not_isUpper_of_mem_hyphenate hch
  · calc
      key' = Text.camelCase (name key') := (camelCase_name hkey').symm
      _ = Text.camelCase (name key) := congrArg Text.camelCase heq
      _ = key := camelCase_name hkey

/-- Adjacent capitals, one of them in front. -/
theorem name_readBack_sample :
    '-' ∉ "MsGridXY2é".toList ∧ name "MsGridXY2é" = "-ms-grid-x-y2é" ∧
      name "-ms-grid-x-y2é" = "-ms-grid-x-y2é" ∧
      Text.camelCase "-ms-grid-x-y2é" = "MsGridXY2é" ∧
      ∀ key' : String, '-' ∉ key'.toList → name key' = "-ms-grid-x-y2é" → key' = "MsGridXY2é" := by
  have hkey : '-' ∉ "MsGridXY2é".toList := by simp
  have hname : name "MsGridXY2é" = "-ms-grid-x-y2é" := by decide
  obtain ⟨hself, hback⟩ := name_readBack "MsGridXY2é"
  obtain ⟨-, hcamel, hinj⟩ := hback hkey
  rw [hname] at hself hcamel hinj
  exact ⟨hkey, hname, hself, hcamel, hinj⟩

end Property

end StyleTree
