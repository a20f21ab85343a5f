import StyleTree.Proofs.Results
import StyleTree.Proofs.TreeWalk

/-!
# What a checked tree holds

Each check of a style tree has a lemma that says what it has found when it succeeds. Together they
give `select_visitsOf`: a well-formed tree and its checked tree are walked alike, the declarations
of the one being those of the other on the same trails. The checks of a node include those of every
entry along the walk (`checked_visitsOf`).
-/

namespace StyleTree

open Visit

/-! ## The checks of one entry -/

/-- The declaration of an entry: the property that the key names, with the written value. -/
def Entry.declaration? (c : Config) (e : Entry) : Option Declaration :=
  if e.kind = .property then
    match c.write (Property.name e.key) e.value with
    | .ok written => some ⟨Property.name e.key, written⟩
    | .error _ => none
  else none

theorem declarationOf_eq_ok {c : Config} {key : String} {path : Path} {v : Value}
    {d : Declaration} (h : declarationOf c key path v = .ok d) :
    v.isNested = false ∧ d.property = Property.name key ∧
      c.write (Property.name key) v = .ok d.value := by
  unfold declarationOf at h
  split at h
  · cases h
  · rename_i hn
    simp only at h
    split at h
    · rename_i written hw
      cases h
      exact ⟨by simpa using hn, rfl, hw⟩
    · cases h

theorem pseudoSuffix_eq_ok {key : String} {path : Path} {body : Mapping} {s : String}
    (h : pseudoSuffix key path body = .ok s) :
    ∃ p, Pseudo.ofKey? key = some p ∧ s = p.suffixWith (paramText? body) := by
  unfold pseudoSuffix at h
  split at h
  · cases h
  · rename_i p hp
    refine ⟨p, hp, ?_⟩
    unfold paramText?
    split at h
    · rename_i hget
      split at h
      · cases h
      · cases h
        rw [hget]
    · rename_i hget
      split at h
      · cases h
      · cases h
        rw [hget]
    · rename_i hget
      cases h
      rw [hget]
    · rename_i hget
      cases h
      rw [hget]
    · cases h

theorem spec_eq_ok {kind : SpecKind} {path : Path} {raw : Mapping} {spec : Spec}
    (h : kind.spec path raw = .ok spec) :
    ∃ s, kind.fieldText? raw = some s ∧ spec.label = kind.labelOf s ∧ spec.path = path := by
  unfold SpecKind.spec at h
  split at h
  · rename_i s hs
    cases h
    exact ⟨s, hs, rfl, rfl⟩
  · cases h

/-- The specs of a sequence. -/
theorem specs_of_items {kind : SpecKind} {key : String} {path : Path} {v : Value}
    {items : List Value} (h : v.sequence? = some items) :
    kind.specs key path v =
      if items = [] then .error ⟨.emptySpecs key, path ++ [key]⟩
      else if items.all Value.isMapping then kind.specItems key path 0 items
      else .error ⟨.specShape key v.typeName, path ++ [key]⟩ := by
  cases v with
  | list _ | tuple _ | sequence _ _ =>
    cases h
    cases items <;> rfl
  | _ => cases h

theorem specs_eq_ok {kind : SpecKind} {key : String} {path : Path} {v : Value}
    {items : List Value} {specs : List Spec} (hv : v.sequence? = some items)
    (h : kind.specs key path v = .ok specs) :
    items ≠ [] ∧ items.all Value.isMapping = true ∧
      kind.specItems key path 0 items = .ok specs := by
  rw [specs_of_items hv] at h
  split at h
  · cases h
  split at h
  · exact ⟨‹_›, ‹_›, h⟩
  · cases h

theorem isMapping_of_sequence? {v : Value} {values : List Value} (h : v.sequence? = some values) :
    v.isMapping = false := by
  cases v with
  | mapping _ => cases h
  | _ => rfl

theorem isNested_of_sequence? {v : Value} {values : List Value} (h : v.sequence? = some values) :
    v.isNested = values.all Value.isMapping := by
  rw [Value.isNested, isMapping_of_sequence? h, Value.isMappingSequence, h]
  rfl

theorem consumedKey_of_specKind? {k : KeyKind} {kind : SpecKind} (h : k.specKind? = some kind) :
    k.consumedKey = some kind.field := by
  cases k <;> cases h <;> rfl

theorem ne_property_of_specKind? {k : KeyKind} {kind : SpecKind} (h : k.specKind? = some kind) :
    k ≠ .property := by
  rintro rfl
  cases h

/-! ## Walking both trees -/

section Walks

variable {c : Config} {e : Entry}

theorem declaration?_eq_none (h : e.kind ≠ .property) : e.declaration? c = none :=
  if_neg h

/-- An entry that opens blocks only contributes the walk through them. -/
theorem select_block (h : e.kind ≠ .property) (below : List (Visit Entry)) :
    select (Entry.declaration? c) (.holds [] e :: below) =
      select (Entry.declaration? c) below := by
  rw [select_holds_cons, declaration?_eq_none h]
  rfl

/-- A declaration opens no block and is found as it is written. -/
theorem select_property {key : String} {path : Path} {v : Value} {items : List Item}
    (hk : classify c key v = .property)
    (h : (do let d ← declarationOf c key path v; return [Item.declaration d]) = .ok items)
    (place : Nat) :
    select (Entry.declaration? c) [.holds [] ⟨path ++ [key], key, v, classify c key v⟩] =
        visitsOfItems place items ∧
      blocksOf items = 0 := by
  obtain ⟨⟨property, value⟩, hd, hitems⟩ := bind_eq_ok.mp h
  obtain ⟨-, rfl, hvalue⟩ := declarationOf_eq_ok hd
  cases hitems
  refine ⟨?_, rfl⟩
  rw [select_holds_cons, Entry.declaration?, hk, if_pos rfl, hvalue]
  rfl

theorem opening_of_spec {kind : SpecKind} {path : Path} {raw : Mapping} {spec : Spec}
    (h : kind.spec path raw = .ok spec) : kind.opening raw = .scope (kind.suffix spec.label) := by
  obtain ⟨s, hs, hlabel, -⟩ := spec_eq_ok h
  rw [SpecKind.opening, hs, hlabel]
  rfl

/-- The block of a spec is walked as its scope is. -/
theorem select_spec {kind : SpecKind} {path : Path} {raw : Mapping} {spec : Spec}
    (h : kind.spec path raw = .ok spec) (place : Nat) {below : List (Visit Entry)}
    {inner : List Item}
    (hinner : select (Entry.declaration? c) below = visitsOfItems 0 inner) :
    select (Entry.declaration? c) (enter ⟨place, kind.opening raw⟩ below) =
      visitsOfItem place (.scope (kind.suffix spec.label) inner) := by
  rw [opening_of_spec h, select_enter, hinner]
  rfl

/-- The block of a spec that is not in a sequence. -/
theorem select_specBlock {kind : SpecKind} {path : Path} {raw : Mapping} {items : List Item}
    (h : (do
      let spec ← (kind.spec path raw).mapError CompileError.malformed
      let inner ← itemsOf c (some kind.field) spec.path raw
      return [Item.scope (kind.suffix spec.label) inner]) = .ok items)
    {below : List (Visit Entry)}
    (hbody : ∀ inner, itemsOf c (some kind.field) path raw = .ok inner →
      select (Entry.declaration? c) below = visitsOfItems 0 inner) (place : Nat) :
    select (Entry.declaration? c) (enter ⟨place, kind.opening raw⟩ below) =
        visitsOfItems place items ∧
      blocksOf items = 1 := by
  simp only [bind_eq_ok, mapError_eq_ok] at h
  obtain ⟨spec, hspec, inner, hinner, hitems⟩ := h
  cases hitems
  obtain ⟨-, -, -, hpath⟩ := spec_eq_ok hspec
  rw [hpath] at hinner
  refine ⟨?_, rfl⟩
  rw [select_spec hspec place (hbody inner hinner), visitsOfItems_singleton]

end Walks

theorem itemsAt_of_items {c : Config} {key : String} {path : Path} {v : Value}
    {values : List Value} (hv : v.sequence? = some values) :
    itemsAt c key path v =
      match (classify c key v).specKind? with
      | some kind => do
        let specs ← (kind.specs key path v).mapError .malformed
        scopesOf c kind specs values
      | none => do
        let d ← declarationOf c key path v
        return [.declaration d] := by
  cases v with
  | list _ | tuple _ | sequence _ _ => cases hv; rfl
  | _ => cases hv

/-- The check of a declaration. -/
theorem itemsAt_of_property {c : Config} {key : String} {v : Value}
    (h : classify c key v = .property) (path : Path) :
    itemsAt c key path v = do
      let d ← declarationOf c key path v
      return [.declaration d] := by
  cases hv : v.sequence? with
  | some values =>
    rw [itemsAt_of_items hv, h]
    rfl
  | none =>
    cases v with
    | mapping body => rw [itemsAt, h]
    | list _ | tuple _ | sequence _ _ => cases hv
    | _ =>
      rw [itemsAt, h]
      · rfl
      all_goals simp

/-- The block that a mapping opens. -/
theorem select_of_mapping {c : Config} {key : String} {path : Path} {body : Mapping}
    {items : List Item}
    (hbody : ∀ consumed path inner, itemsOf c consumed path body = .ok inner →
      select (Entry.declaration? c) (visitsOf c consumed path 0 body) = visitsOfItems 0 inner)
    (place : Nat) (h : itemsAt c key path (.mapping body) = .ok items) :
    select (Entry.declaration? c)
        (.holds [] ⟨path ++ [key], key, .mapping body, classify c key (.mapping body)⟩ ::
          visitsBelow c key path place (.mapping body)) = visitsOfItems place items ∧
      blocksOf items = blockCount c key (.mapping body) := by
  rw [itemsAt] at h
  rw [blockCount]
  by_cases hk : classify c key (.mapping body) = .property
  · rw [visitsBelow_of_property hk, if_pos hk]
    rw [hk] at h
    exact select_property hk h place
  rw [select_block hk, visitsBelow_of_block rfl hk, if_neg hk]
  cases hc : classify c key (.mapping body) with
  | property => exact absurd hc hk
  | pseudo =>
    rw [hc] at h
    simp only [bind_eq_ok] at h
    obtain ⟨suffix, hsuffix, inner, hinner, hitems⟩ := h
    obtain ⟨p, hp, rfl⟩ := pseudoSuffix_eq_ok hsuffix
    cases hitems
    refine ⟨?_, rfl⟩
    rw [select_enter, KeyKind.consumedKey, hbody _ _ inner hinner, KeyKind.opening, hp,
      visitsOfItems_singleton]
    rfl
  | breakpoint =>
    rw [hc] at h
    simp only [bind_eq_ok] at h
    obtain ⟨inner, hinner, hitems⟩ := h
    cases hitems
    refine ⟨?_, rfl⟩
    rw [select_enter, KeyKind.consumedKey, hbody _ _ inner hinner, visitsOfItems_singleton]
    rfl
  | modifier =>
    rw [hc] at h
    exact select_specBlock h (hbody _ _) place
  | child =>
    rw [hc] at h
    exact select_specBlock h (hbody _ _) place

/-- The blocks of a sequence of specs. -/
theorem select_of_items {c : Config} {key : String} {path : Path} {place : Nat} {v : Value}
    {values : List Value} {items : List Item} (hv : v.sequence? = some values)
    (hvalues : ∀ (kind : SpecKind) (specs : List Spec), values.all Value.isMapping = true →
      kind.specItems key path 0 values = .ok specs → scopesOf c kind specs values = .ok items →
      select (Entry.declaration? c) (visitsOfSpecs c kind key path 0 place values) =
          visitsOfItems place items ∧
        blocksOf items = values.countP Value.isMapping)
    (h : itemsAt c key path v = .ok items) :
    select (Entry.declaration? c) (.holds [] ⟨path ++ [key], key, v, classify c key v⟩ ::
        visitsBelow c key path place v) = visitsOfItems place items ∧
      blocksOf items = blockCount c key v := by
  rw [itemsAt_of_items hv] at h
  rw [visitsBelow_of_items hv, blockCount_of_items hv]
  cases hk : (classify c key v).specKind? with
  | none =>
    rw [hk] at h
    exact select_property (classify_eq_property (isMapping_of_sequence? hv) hk) h place
  | some kind =>
    rw [hk] at h
    simp only [bind_eq_ok, mapError_eq_ok] at h
    obtain ⟨specs, hspecs, hscopes⟩ := h
    obtain ⟨-, hall, hitems⟩ := specs_eq_ok hv hspecs
    rw [select_block (ne_property_of_specKind? hk)]
    exact hvalues kind specs hall hitems hscopes

mutual

theorem select_visitsOf (c : Config) : ∀ (m : Mapping) (consumed : Option String) (path : Path)
    (place : Nat) (items : List Item), itemsOf c consumed path m = .ok items →
    select (Entry.declaration? c) (visitsOf c consumed path place m) = visitsOfItems place items
  | [], _, _, _, _, h => by
    cases h
    rfl
  | (key, v) :: rest, consumed, path, place, items, h => by
    have hbelow := select_visitsBelow c v key path place
    have hrest := select_visitsOf c rest consumed path
    rw [itemsOf] at h
    rw [visitsOf]
    split at h
    · rename_i hconsumed
      rw [if_pos hconsumed]
      exact hrest place items h
    · rename_i hconsumed
      rw [if_neg hconsumed]
      simp only [bind_eq_ok] at h
      obtain ⟨first, hfirst, others, hothers, hitems⟩ := h
      cases hitems
      obtain ⟨hselect, hcount⟩ := hbelow first hfirst
      rw [visitsOfItems_append, hcount, ← hselect, ← hrest _ others hothers, ← select_append]
      rfl

theorem select_visitsBelow (c : Config) : ∀ (v : Value) (key : String) (path : Path)
    (place : Nat) (items : List Item), itemsAt c key path v = .ok items →
    select (Entry.declaration? c) (.holds [] ⟨path ++ [key], key, v, classify c key v⟩ ::
        visitsBelow c key path place v) = visitsOfItems place items ∧
      blocksOf items = blockCount c key v
  | .mapping body, key, path, place, items, h =>
    select_of_mapping (fun consumed path => select_visitsOf c body consumed path 0) place h
  | .list values, key, path, place, items, h | .tuple values, key, path, place, items, h
  | .sequence _ values, key, path, place, items, h =>
    select_of_items rfl
      (fun kind specs => select_visitsOfSpecs c values kind key path 0 place specs items) h
  | .null, key, path, place, items, h | .flag _, key, path, place, items, h
  | .number _, key, path, place, items, h | .text _, key, path, place, items, h
  | .bytes _, key, path, place, items, h => by
    rw [itemsAt] at h
    · split at h
      · simp only [bind_eq_ok, mapError_eq_ok] at h
        obtain ⟨specs, hspecs, -⟩ := h
        cases hspecs
      · rename_i hs
        exact select_property (classify_eq_property rfl hs) h place
    all_goals simp

theorem select_visitsOfSpecs (c : Config) : ∀ (values : List Value) (kind : SpecKind)
    (key : String) (path : Path) (index place : Nat) (specs : List Spec) (items : List Item),
    values.all Value.isMapping = true → kind.specItems key path index values = .ok specs →
    scopesOf c kind specs values = .ok items →
    select (Entry.declaration? c) (visitsOfSpecs c kind key path index place values) =
        visitsOfItems place items ∧
      blocksOf items = values.countP Value.isMapping
  | [], _, _, _, _, _, _, _, _, hspecs, h => by
    cases hspecs
    cases h
    exact ⟨rfl, rfl⟩
  | .mapping raw :: rest, kind, key, path, index, place, specs, items, hall, hspecs, h => by
    have hbody := select_visitsOf c raw
    have hrest := select_visitsOfSpecs c rest kind key path (index + 1) (place + 1)
    rw [SpecKind.specItems] at hspecs
    simp only [bind_eq_ok] at hspecs
    obtain ⟨spec, hspec, later, hlater, heq⟩ := hspecs
    cases heq
    rw [scopesOf] at h
    simp only [bind_eq_ok] at h
    obtain ⟨inner, hinner, others, hothers, hitems⟩ := h
    cases hitems
    obtain ⟨-, -, -, hpath⟩ := spec_eq_ok hspec
    rw [hpath] at hinner
    have hall : rest.all Value.isMapping = true := by simpa [Value.isMapping] using hall
    obtain ⟨hselect, hcount⟩ := hrest later others hall hlater hothers
    refine ⟨?_, ?_⟩
    · rw [visitsOfSpecs, select_append, select_spec hspec place (hbody _ _ 0 inner hinner), hselect]
      rfl
    · rw [List.countP_cons_of_pos rfl, blocksOf, hcount, Nat.add_comm]
      rfl
  | .list _ :: _, _, _, _, _, _, _, _, hall, _, _ | .tuple _ :: _, _, _, _, _, _, _, _, hall, _, _
  | .sequence _ _ :: _, _, _, _, _, _, _, _, hall, _, _
  | .null :: _, _, _, _, _, _, _, _, hall, _, _ | .flag _ :: _, _, _, _, _, _, _, _, hall, _, _
  | .number _ :: _, _, _, _, _, _, _, _, hall, _, _ | .text _ :: _, _, _, _, _, _, _, _, hall, _, _
  | .bytes _ :: _, _, _, _, _, _, _, _, hall, _, _ => by cases hall

end

/-! ## Checks along the walk -/

/-- The checks of the entry succeed. -/
def Entry.Checked (c : Config) (e : Entry) : Prop :=
  ∃ path items, e = ⟨path ++ [e.key], e.key, e.value, classify c e.key e.value⟩ ∧
    itemsAt c e.key path e.value = .ok items

theorem checked_of_items {c : Config} {key : String} {path : Path} {place : Nat} {v : Value}
    {values : List Value} {items : List Item} (hv : v.sequence? = some values)
    (hvalues : ∀ (kind : SpecKind) (specs : List Spec), values.all Value.isMapping = true →
      kind.specItems key path 0 values = .ok specs → scopesOf c kind specs values = .ok items →
      ∀ e ∈ (visitsOfSpecs c kind key path 0 place values).filterMap held?, e.Checked c)
    (h : itemsAt c key path v = .ok items) :
    ∀ e ∈ (visitsBelow c key path place v).filterMap held?, e.Checked c := by
  rw [itemsAt_of_items hv] at h
  rw [visitsBelow_of_items hv]
  cases hk : (classify c key v).specKind? with
  | none => exact List.forall_mem_nil _
  | some kind =>
    rw [hk] at h
    simp only [bind_eq_ok, mapError_eq_ok] at h
    obtain ⟨specs, hspecs, hscopes⟩ := h
    obtain ⟨-, hall, hitems⟩ := specs_eq_ok hv hspecs
    exact hvalues kind specs hall hitems hscopes

/-- What stands in a block is checked with the block. -/
theorem itemsOf_of_itemsAt {c : Config} {key : String} {path : Path} {body : Mapping}
    {items : List Item} (hk : classify c key (.mapping body) ≠ .property)
    (h : itemsAt c key path (.mapping body) = .ok items) :
    ∃ inner, itemsOf c (classify c key (.mapping body)).consumedKey (path ++ [key]) body =
      .ok inner := by
  rw [itemsAt] at h
  cases hc : classify c key (.mapping body) with
  | property => exact absurd hc hk
  | pseudo =>
    rw [hc] at h
    simp only [bind_eq_ok] at h
    obtain ⟨-, -, inner, hinner, -⟩ := h
    exact ⟨inner, hinner⟩
  | breakpoint =>
    rw [hc] at h
    simp only [bind_eq_ok] at h
    obtain ⟨inner, hinner, -⟩ := h
    exact ⟨inner, hinner⟩
  | modifier | child =>
    rw [hc] at h
    simp only [bind_eq_ok, mapError_eq_ok] at h
    obtain ⟨spec, hspec, inner, hinner, -⟩ := h
    obtain ⟨-, -, -, hpath⟩ := spec_eq_ok hspec
    rw [hpath] at hinner
    exact ⟨inner, hinner⟩

mutual

theorem checked_visitsOf (c : Config) : ∀ (m : Mapping) (consumed : Option String) (path : Path)
    (place : Nat) (items : List Item), itemsOf c consumed path m = .ok items →
    ∀ e ∈ (visitsOf c consumed path place m).filterMap held?, e.Checked c
  | [], _, _, _, _, _ => List.forall_mem_nil _
  | (key, v) :: rest, consumed, path, place, items, h => by
    have hbelow := checked_visitsBelow c v key path place
    have hrest := checked_visitsOf c rest consumed path
    rw [itemsOf] at h
    rw [visitsOf]
    split at h
    · rename_i hconsumed
      rw [if_pos hconsumed]
      exact hrest place items h
    · rename_i hconsumed
      rw [if_neg hconsumed]
      simp only [bind_eq_ok] at h
      obtain ⟨first, hfirst, others, hothers, -⟩ := h
      simp only [List.filterMap_cons, held?, List.filterMap_append]
      exact List.forall_mem_cons.mpr ⟨⟨path, first, rfl, hfirst⟩,
        List.forall_mem_append.mpr ⟨hbelow first hfirst, hrest _ others hothers⟩⟩

theorem checked_visitsBelow (c : Config) : ∀ (v : Value) (key : String) (path : Path)
    (place : Nat) (items : List Item), itemsAt c key path v = .ok items →
    ∀ e ∈ (visitsBelow c key path place v).filterMap held?, e.Checked c
  | .mapping body, key, path, place, items, h => by
    have hbody := checked_visitsOf c body
    by_cases hk : classify c key (.mapping body) = .property
    · rw [visitsBelow_of_property hk]
      exact List.forall_mem_nil _
    · obtain ⟨inner, hinner⟩ := itemsOf_of_itemsAt hk h
      rw [visitsBelow_of_block rfl hk, filterMap_held?_enter]
      exact hbody _ _ 0 inner hinner
  | .list values, key, path, place, items, h | .tuple values, key, path, place, items, h
  | .sequence _ values, key, path, place, items, h =>
    checked_of_items rfl
      (fun kind specs => checked_visitsOfSpecs c values kind key path 0 place specs items) h
  | .null, _, _, _, _, _ | .flag _, _, _, _, _, _ | .number _, _, _, _, _, _
  | .text _, _, _, _, _, _ | .bytes _, _, _, _, _, _ => List.forall_mem_nil _

theorem checked_visitsOfSpecs (c : Config) : ∀ (values : List Value) (kind : SpecKind)
    (key : String) (path : Path) (index place : Nat) (specs : List Spec) (items : List Item),
    values.all Value.isMapping = true → kind.specItems key path index values = .ok specs →
    scopesOf c kind specs values = .ok items →
    ∀ e ∈ (visitsOfSpecs c kind key path index place values).filterMap held?, e.Checked c
  | [], _, _, _, _, _, _, _, _, _, _ => List.forall_mem_nil _
  | .mapping raw :: rest, kind, key, path, index, place, specs, items, hall, hspecs, h => by
    have hbody := checked_visitsOf c raw
    have hrest := checked_visitsOfSpecs c rest kind key path (index + 1) (place + 1)
    rw [SpecKind.specItems] at hspecs
    simp only [bind_eq_ok] at hspecs
    obtain ⟨spec, hspec, later, hlater, heq⟩ := hspecs
    cases heq
    rw [scopesOf] at h
    simp only [bind_eq_ok] at h
    obtain ⟨inner, hinner, others, hothers, -⟩ := h
    obtain ⟨-, -, -, hpath⟩ := spec_eq_ok hspec
    rw [hpath] at hinner
    have hall : rest.all Value.isMapping = true := by simpa [Value.isMapping] using hall
    rw [visitsOfSpecs, List.filterMap_append, filterMap_held?_enter]
    exact List.forall_mem_append.mpr
      ⟨hbody _ _ 0 inner hinner, hrest later others hall hlater hothers⟩
  | .list _ :: _, _, _, _, _, _, _, _, hall, _, _ | .tuple _ :: _, _, _, _, _, _, _, _, hall, _, _
  | .sequence _ _ :: _, _, _, _, _, _, _, _, hall, _, _
  | .null :: _, _, _, _, _, _, _, _, hall, _, _ | .flag _ :: _, _, _, _, _, _, _, _, hall, _, _
  | .number _ :: _, _, _, _, _, _, _, _, hall, _, _ | .text _ :: _, _, _, _, _, _, _, _, hall, _, _
  | .bytes _ :: _, _, _, _, _, _, _, _, hall, _, _ => by cases hall

end

end StyleTree
