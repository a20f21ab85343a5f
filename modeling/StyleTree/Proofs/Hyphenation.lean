import StyleTree.Proofs.NodeChange

/-!
# The spellings of a property

A property is named in camel case or in hyphenated form, and only the hyphenated name is looked at
when its value is written. So a key in camel case can be replaced by the name in any declarations of
a tree that compiles, and the output is the same (`compile_hyphenated`). The name stands for itself
(`Property.name_name`), it is the key of a declaration where the value is not nested
(`entryItems?_name`), and it is none of the keys that blocks use up (`Property.eq_of_name_eq`).
-/

namespace StyleTree

/-! ## Names -/

namespace Text

theorem splitCapital_of_not_mem {ch : Char} (h : '-' ∉ splitCapital ch) :
    splitCapital ch = [ch] := by
  unfold splitCapital at h ⊢
  split
  · rename_i hupper
    rw [if_pos hupper] at h
    exact absurd List.mem_cons_self h
  · rfl

/-- Without a capital there is nothing to hyphenate. -/
theorem hyphenate_eq_self {s : String} (h : '-' ∉ (hyphenate s).toList) : hyphenate s = s := by
  rw [hyphenate, String.toList_ofList, List.mem_flatMap] at h
  have hsplit : s.toList.flatMap splitCapital = s.toList.flatMap ([·]) :=
    List.flatMap_congr fun ch hch => splitCapital_of_not_mem fun hmem => h ⟨ch, hch, hmem⟩
  rw [hyphenate, hsplit, List.flatMap_singleton', String.ofList_toList]

end Text

namespace Property

/-- A name without a hyphen is the key itself. -/
theorem eq_of_name_eq {key field : String} (hfield : '-' ∉ field.toList) (h : name key = field) :
    key = field := by
  unfold name at h
  split at h
  · exact h
  · subst h
    exact (Text.hyphenate_eq_self hfield).symm

theorem name_of_hyphen {key : String} (h : '-' ∈ key.toList) : name key = key :=
  if_pos h

theorem name_name (key : String) : name (name key) = name key := by
  by_cases h : '-' ∈ (name key).toList
  · exact name_of_hyphen h
  · exact congrArg name (eq_of_name_eq h rfl).symm

end Property

theorem KeyKind.not_mem_consumedKey {kind : KeyKind} {field : String}
    (h : kind.consumedKey = some field) : '-' ∉ field.toList := by
  cases kind with
  | property | breakpoint => cases h
  | pseudo | modifier | child =>
    cases h
    decide

/-! ## Declarations -/

section Declarations

variable {c : Config} {key : String} {v : Value}

theorem toOption_declarationOf_name :
    (declarationOf c (Property.name key) [] v).toOption = (declarationOf c key [] v).toOption := by
  rw [declarationOf, declarationOf, Property.name_name]
  split
  · rfl
  · simp only
    split <;> rfl

theorem classify_name (hv : v.isMapping = false) (hmodifier : Property.name key ≠ c.modifierKey)
    (hchild : Property.name key ≠ c.childKey) : classify c (Property.name key) v = .property := by
  rw [classify, if_neg hmodifier, if_neg hchild, hv]
  rfl

/-- A declaration under the name of its property. -/
theorem entryItems?_name (hclass : classify c key v = .property)
    (hmodifier : Property.name key ≠ c.modifierKey) (hchild : Property.name key ≠ c.childKey)
    (h : (entryItems? c key v).isSome) :
    entryItems? c (Property.name key) v = entryItems? c key v := by
  rw [entryItems?_of_property hclass] at h ⊢
  obtain ⟨d, hd⟩ := Option.isSome_iff_exists.mp (Option.isSome_map.symm.trans h)
  obtain ⟨hnested, -⟩ := declarationOf_eq_ok (toOption_eq_some.mp hd)
  have hmapping : v.isMapping = false := by
    rw [Value.isNested, Bool.or_eq_false_iff] at hnested
    exact hnested.1
  rw [entryItems?_of_property (classify_name hmapping hmodifier hchild),
    toOption_declarationOf_name]

end Declarations

/-! ## Trees -/

/-- A declaration gets the name of its property as its key. -/
inductive Hyphenates (c : Config) : Change where
  | key {consumed context : Option String} {key : String} {v : Value} {before after : Mapping} :
      consumed ≠ some key → classify c key v = .property →
      Property.name key ≠ c.modifierKey → Property.name key ≠ c.childKey →
      Hyphenates c consumed context (before ++ (key, v) :: after)
        (before ++ (Property.name key, v) :: after)

/-- The name of a property is not taken for the key that a block uses up. -/
theorem KeyKind.consumedKey_ne_name {kind : KeyKind} {key : String}
    (h : kind.consumedKey ≠ some key) : kind.consumedKey ≠ some (Property.name key) := by
  intro hfield
  rw [← Property.eq_of_name_eq (not_mem_consumedKey hfield) rfl] at hfield
  exact h hfield

theorem keeps_hyphenates (c : Config) : (Hyphenates c).Keeps c where
  get?_eq hfield h := by
    rw [← hfield] at h
    obtain ⟨hkey, -, -, -⟩ := h
    have hname := KeyKind.consumedKey_ne_name hkey
    rw [hfield] at hkey hname
    rw [Mapping.get?_between hkey, Mapping.get?_between hname]
  sameSheets _ hnode h := by
    obtain ⟨hkey, hclass, hmodifier, hchild⟩ := h
    rw [nodeItems?_between hkey] at hnode ⊢
    rw [nodeItems?_between (KeyKind.consumedKey_ne_name hkey),
      entryItems?_name hclass hmodifier hchild (SameSheets.isSome_of_between hnode)]
    exact .refl _

/-- With the names of properties as the keys of any declarations, a tree that compiles compiles to
the same output. -/
theorem compile_hyphenated {c : Config} {tree tree' : Mapping} {scope context : Option String}
    {o : Output} (h : Relation.ReflTransGen ((Hyphenates c).Within c none context) tree tree')
    (hcompile : compile c (.mapping tree) scope context = .ok o) :
    compile c (.mapping tree') scope context = .ok o :=
  (keeps_hyphenates c).compile_steps h hcompile

/-- The sample tree with the names of properties for its keys. -/
def hyphenatedTree : Mapping :=
  [("color", .text "red"),
   ("tablet", .mapping
     [("line-height", .number (.int 2)),
      ("hover", .mapping [("margin", .number (.int 3))]),
      ("small", .mapping [("width", .text "1px")])])]

theorem compile_hyphenated_sample :
    Relation.ReflTransGen ((Hyphenates .standard).Within .standard none none) sampleTree
        hyphenatedTree ∧
      compile .standard (.mapping hyphenatedTree) none none = .ok sampleOutput := by
  have hkey : Hyphenates .standard none (some "tablet")
      [("lineHeight", .number (.int 2)),
        ("hover", .mapping [("margin", .number (.int 3))]),
        ("small", .mapping [("width", .text "1px")])]
      [("line-height", .number (.int 2)),
        ("hover", .mapping [("margin", .number (.int 3))]),
        ("small", .mapping [("width", .text "1px")])] :=
    @Hyphenates.key .standard none (some "tablet") "lineHeight" _ [] [_, _] nofun rfl (by decide)
      (by decide)
  have htree : (Hyphenates .standard).Within .standard none none sampleTree hyphenatedTree :=
    @Change.Within.block .standard _ none none "tablet" [_] _ _ [] nofun nofun (.here hkey)
  exact ⟨.single htree, compile_hyphenated (.single htree) compile_sampleTree⟩

end StyleTree
