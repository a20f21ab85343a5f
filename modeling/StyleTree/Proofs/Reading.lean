import StyleTree.Compile
import StyleTree.Proofs.CheckedTree

/-!
# Reading a node without its place

Where a node stands in the tree shows in the faults of its checks and in nothing else: the items of
a well-formed node are the same at every path (`toOption_itemsOf`). So a node can be read by itself,
its entries one by one (`nodeItems?_append`), and a block from what it adds to the selector and its
body (`entryItems?_scope`, `entryItems?_media`).
-/

namespace StyleTree

section Result

variable {ε ε' α β : Type}

theorem toOption_bind (x : Except ε α) (f : α → Except ε β) :
    (x >>= f).toOption = x.toOption.bind fun a => (f a).toOption := by
  cases x <;> rfl

theorem toOption_mapError (x : Except ε α) (f : ε → ε') : (x.mapError f).toOption = x.toOption := by
  cases x <;> rfl

theorem toOption_map (x : Except ε α) (f : α → β) : (x.map f).toOption = x.toOption.map f := by
  cases x <;> rfl

theorem toOption_ok (a : α) : (Except.ok a : Except ε α).toOption = some a :=
  rfl

theorem toOption_pure (a : α) : (pure a : Except ε α).toOption = some a :=
  rfl

theorem toOption_eq_some {x : Except ε α} {a : α} : x.toOption = some a ↔ x = .ok a := by
  cases x <;> simp [Except.toOption]

end Result

/-- The items of a node, if it is well formed. -/
def nodeItems? (c : Config) (consumed : Option String) (m : Mapping) : Option (List Item) :=
  (itemsOf c consumed [] m).toOption

/-- The items of an entry, if it is well formed. -/
def entryItems? (c : Config) (key : String) (v : Value) : Option (List Item) :=
  (itemsAt c key [] v).toOption

/-- The scope of a spec, if it is well formed. -/
def specItem? (c : Config) (kind : SpecKind) : Value → Option Item
  | .mapping raw => (kind.fieldText? raw).bind fun s =>
      (nodeItems? c (some kind.field) raw).map fun inner =>
        .scope (kind.suffix (kind.labelOf s)) inner
  | _ => none

/-- What the block `body` under `key` adds to the selector, for the kinds that add something. -/
def KeyKind.suffix? (key : String) (body : Mapping) : KeyKind → Option String
  | pseudo => (pseudoSuffix key [] body).toOption
  | modifier => (SpecKind.modifier.fieldText? body).map fun s =>
      SpecKind.modifier.suffix (SpecKind.modifier.labelOf s)
  | child => (SpecKind.child.fieldText? body).map fun s =>
      SpecKind.child.suffix (SpecKind.child.labelOf s)
  | property => none
  | breakpoint => none

/-! ## Checks and places -/

section Places

variable {c : Config} {key : String}

theorem toOption_declarationOf (v : Value) (path : Path) :
    (declarationOf c key path v).toOption = (declarationOf c key [] v).toOption := by
  unfold declarationOf
  split
  · rfl
  · simp only
    split <;> rfl

theorem toOption_pseudoSuffix (body : Mapping) (path : Path) :
    (pseudoSuffix key path body).toOption = (pseudoSuffix key [] body).toOption := by
  unfold pseudoSuffix
  split
  · rfl
  · split
    iterate 2 split <;> rfl
    all_goals rfl

theorem toOption_spec (kind : SpecKind) (raw : Mapping) (path : Path) :
    (kind.spec path raw).toOption =
      (kind.fieldText? raw).map fun s => ⟨kind.labelOf s, raw.without kind.field, path⟩ := by
  unfold SpecKind.spec
  cases kind.fieldText? raw <;> rfl

end Places

/-! ## Nodes and places -/

/-- The block of a spec that is not in a sequence. -/
theorem toOption_specBlock {c : Config} {kind : SpecKind} {path : Path} {raw : Mapping}
    (hbody : ∀ path, (itemsOf c (some kind.field) path raw).toOption =
      nodeItems? c (some kind.field) raw) :
    (do
      let spec ← (kind.spec path raw).mapError CompileError.malformed
      let inner ← itemsOf c (some kind.field) spec.path raw
      return [Item.scope (kind.suffix spec.label) inner]).toOption =
        (specItem? c kind (.mapping raw)).map ([·]) := by
  simp only [toOption_bind, toOption_mapError, toOption_spec, hbody, specItem?]
  cases kind.fieldText? raw with
  | none => rfl
  | some s => cases nodeItems? c (some kind.field) raw <;> rfl

/-- One more spec in a sequence: all specs are checked before the first body, which makes no
difference to what is read. -/
theorem toOption_scopes_cons {c : Config} {kind : SpecKind} {key : String} {path : Path}
    {index : Nat} {raw : Mapping} {rest : List Value}
    (hbody : ∀ path, (itemsOf c (some kind.field) path raw).toOption =
      nodeItems? c (some kind.field) raw)
    (hrest : (do
        let specs ← (kind.specItems key path (index + 1) rest).mapError CompileError.malformed
        scopesOf c kind specs rest).toOption = rest.mapM (specItem? c kind)) :
    (do
        let specs ← (kind.specItems key path index (.mapping raw :: rest)).mapError
          CompileError.malformed
        scopesOf c kind specs (.mapping raw :: rest)).toOption =
      (Value.mapping raw :: rest).mapM (specItem? c kind) := by
  rw [List.mapM_cons, ← hrest, SpecKind.specItems, specItem?]
  have hspec := toOption_spec kind raw (path ++ [Path.itemStep key index])
  cases hfield : kind.fieldText? raw with
  | none =>
    rw [hfield] at hspec
    simp only [toOption_bind, toOption_mapError, hspec]
    rfl
  | some s =>
    rw [hfield] at hspec
    simp only [toOption_bind, toOption_mapError, hspec]
    cases hspecs : kind.specItems key path (index + 1) rest with
    | error f => cases nodeItems? c (some kind.field) raw <;> rfl
    | ok specs =>
      have hinner := hbody (path ++ [Path.itemStep key index])
      simp only [toOption_ok, toOption_pure, Option.map_some, Option.bind_some, scopesOf,
        toOption_bind, hinner]
      cases nodeItems? c (some kind.field) raw <;> cases scopesOf c kind specs rest <;> rfl

theorem mapM_specItem?_eq_none {c : Config} {kind : SpecKind} {values : List Value}
    (h : values.all Value.isMapping = false) : values.mapM (specItem? c kind) = none := by
  induction values with
  | nil => cases h
  | cons v rest ih =>
    rw [List.mapM_cons]
    cases v with
    | mapping raw =>
      rw [ih (by simpa [Value.isMapping] using h)]
      cases specItem? c kind (.mapping raw) <;> rfl
    | _ => rfl

/-- What is read of a sequence: the scopes of its specs under a key that holds specs. -/
theorem toOption_itemsAt_of_items {c : Config} {key : String} {path : Path} {v : Value}
    {values : List Value} (hv : v.sequence? = some values)
    (hvalues : ∀ kind : SpecKind, values.all Value.isMapping = true → (do
        let specs ← (kind.specItems key path 0 values).mapError CompileError.malformed
        scopesOf c kind specs values).toOption = values.mapM (specItem? c kind)) :
    (itemsAt c key path v).toOption =
      match (classify c key v).specKind? with
      | some kind => if values = [] then none else values.mapM (specItem? c kind)
      | none => (declarationOf c key [] v).toOption.map fun d => [.declaration d] := by
  rw [itemsAt_of_items hv]
  cases (classify c key v).specKind? with
  | none =>
    simp only [toOption_bind, toOption_declarationOf v path]
    cases declarationOf c key [] v <;> rfl
  | some kind =>
    simp only [specs_of_items hv]
    by_cases hnil : values = []
    · rw [if_pos hnil, if_pos hnil]
      rfl
    rw [if_neg hnil, if_neg hnil]
    cases hall : values.all Value.isMapping with
    | true => exact hvalues kind hall
    | false =>
      rw [mapM_specItem?_eq_none hall]
      rfl

mutual

/-- What is read of a node does not depend on where it stands. -/
theorem toOption_itemsOf (c : Config) : ∀ (m : Mapping) (consumed : Option String) (path : Path),
    (itemsOf c consumed path m).toOption = nodeItems? c consumed m
  | [], _, _ => rfl
  | (key, v) :: rest, consumed, path => by
    have hfirst := toOption_itemsAt c v key
    have hrest := toOption_itemsOf c rest consumed
    rw [nodeItems?, itemsOf, itemsOf]
    split
    · exact (hrest path).trans (hrest []).symm
    · simp only [toOption_bind, hfirst path, hfirst [], hrest path, hrest []]

theorem toOption_itemsAt (c : Config) : ∀ (v : Value) (key : String) (path : Path),
    (itemsAt c key path v).toOption = entryItems? c key v
  | .mapping body, key, path => by
    have hbody := toOption_itemsOf c body
    rw [entryItems?, itemsAt, itemsAt]
    cases classify c key (.mapping body) with
    | property => simp only [toOption_bind, toOption_declarationOf _ path]
    | pseudo => simp only [toOption_bind, toOption_pseudoSuffix _ path, hbody]
    | breakpoint => simp only [toOption_bind, hbody]
    | modifier | child => exact (toOption_specBlock (hbody _)).trans (toOption_specBlock (hbody _)).symm
  | .list values, key, path | .tuple values, key, path | .sequence _ values, key, path => by
    have hvalues := fun kind => toOption_scopes c values kind key
    rw [toOption_itemsAt_of_items rfl fun kind => hvalues kind path 0, entryItems?,
      toOption_itemsAt_of_items rfl fun kind => hvalues kind [] 0]
  | .null, key, path | .flag _, key, path | .number _, key, path | .text _, key, path
  | .bytes _, key, path => by
    rw [entryItems?, itemsAt, itemsAt]
    · split
      · rfl
      · simp only [toOption_bind, toOption_declarationOf _ path]
    all_goals simp

theorem toOption_scopes (c : Config) : ∀ (values : List Value) (kind : SpecKind) (key : String)
    (path : Path) (index : Nat), values.all Value.isMapping = true →
    (do
        let specs ← (kind.specItems key path index values).mapError CompileError.malformed
        scopesOf c kind specs values).toOption = values.mapM (specItem? c kind)
  | [], _, _, _, _, _ => rfl
  | .mapping raw :: rest, kind, key, path, index, hall =>
    toOption_scopes_cons (toOption_itemsOf c raw _)
      (toOption_scopes c rest kind key path _ (by simpa [Value.isMapping] using hall))
  | .list _ :: _, _, _, _, _, hall | .tuple _ :: _, _, _, _, _, hall
  | .sequence _ _ :: _, _, _, _, _, hall
  | .null :: _, _, _, _, _, hall | .flag _ :: _, _, _, _, _, hall
  | .number _ :: _, _, _, _, _, hall | .text _ :: _, _, _, _, _, hall
  | .bytes _ :: _, _, _, _, _, hall => by cases hall

end

/-! ## Reading entry by entry -/

section Entries

variable {c : Config} {consumed : Option String} {key : String}

theorem nodeItems?_nil : nodeItems? c consumed [] = some [] :=
  rfl

theorem nodeItems?_cons {v : Value} {rest : Mapping} :
    nodeItems? c consumed ((key, v) :: rest) =
      if consumed = some key then nodeItems? c consumed rest
      else do
        let first ← entryItems? c key v
        let others ← nodeItems? c consumed rest
        return first ++ others := by
  rw [nodeItems?, itemsOf]
  split
  · rfl
  · simp only [toOption_bind]
    rfl

theorem nodeItems?_append {before after : Mapping} :
    nodeItems? c consumed (before ++ after) = do
      let first ← nodeItems? c consumed before
      let others ← nodeItems? c consumed after
      return first ++ others := by
  induction before with
  | nil => simp [nodeItems?_nil]
  | cons entry rest ih =>
    obtain ⟨key, v⟩ := entry
    rw [List.cons_append, nodeItems?_cons, nodeItems?_cons]
    split
    · exact ih
    · rw [ih]
      cases entryItems? c key v with
      | none => rfl
      | some first =>
        cases nodeItems? c consumed rest with
        | none => rfl
        | some others => cases nodeItems? c consumed after <;> simp

/-- A node of one entry. -/
theorem nodeItems?_singleton {v : Value} (h : consumed ≠ some key) :
    nodeItems? c consumed [(key, v)] = entryItems? c key v := by
  rw [nodeItems?_cons, if_neg h, nodeItems?_nil]
  cases entryItems? c key v <;> simp

theorem nodeItems?_entry {v : Value} : nodeItems? c none [(key, v)] = entryItems? c key v :=
  nodeItems?_singleton nofun

/-- A key that the node does not have need not be left out. -/
theorem nodeItems?_of_not_consumed {m : Mapping} (h : ∀ entry ∈ m, consumed ≠ some entry.1) :
    nodeItems? c consumed m = nodeItems? c none m := by
  induction m with
  | nil => rfl
  | cons entry rest ih =>
    obtain ⟨key, v⟩ := entry
    have ih := ih fun entry hentry => h entry (List.mem_cons_of_mem _ hentry)
    rw [nodeItems?_cons, nodeItems?_cons, if_neg (h _ List.mem_cons_self), if_neg nofun, ih]

/-- A node with nothing but the key that its block uses up. -/
theorem nodeItems?_of_consumed {m : Mapping} (h : ∀ entry ∈ m, consumed = some entry.1) :
    nodeItems? c consumed m = some [] := by
  induction m with
  | nil => rfl
  | cons entry rest ih =>
    obtain ⟨key, v⟩ := entry
    rw [nodeItems?_cons, if_pos (h _ List.mem_cons_self)]
    exact ih fun entry hentry => h entry (List.mem_cons_of_mem _ hentry)

theorem Mapping.get?_append (before after : Mapping) (field : String) :
    Mapping.get? (before ++ after) field = (before.get? field).or (after.get? field) :=
  List.lookup_append

theorem Mapping.get?_eq_none {m : Mapping} {field : String} :
    m.get? field = none ↔ ∀ entry ∈ m, entry.1 ≠ field := by
  rw [get?, List.lookup_eq_none_iff]
  refine forall₂_congr fun entry _ => ?_
  rw [bne_iff_ne, ne_comm]

/-- What a key stands for depends on the value only in so far as this is a mapping. -/
theorem classify_congr {v w : Value} (h : v.isMapping = w.isMapping) :
    classify c key v = classify c key w := by
  rw [classify, classify, h]

/-- What a block adds to the selector depends on the key that it uses up and nothing else. -/
theorem KeyKind.suffix?_congr {kind : KeyKind} {field : String} {body body' : Mapping}
    (hk : kind.consumedKey = some field) (h : body.get? field = body'.get? field) :
    kind.suffix? key body = kind.suffix? key body' := by
  cases kind with
  | property | breakpoint => cases hk
  | pseudo =>
    cases hk
    rw [suffix?, suffix?, pseudoSuffix, pseudoSuffix, h]
  | modifier | child =>
    cases hk
    simp only [suffix?, SpecKind.fieldText?, h]

theorem entryItems?_of_property {v : Value} (h : classify c key v = .property) :
    entryItems? c key v = (declarationOf c key [] v).toOption.map fun d => [.declaration d] := by
  rw [entryItems?, itemsAt_of_property h]
  cases declarationOf c key [] v <;> rfl

/-- The block of a pseudo key or of a single spec is read as a scope. -/
theorem entryItems?_scope {body : Mapping} {kind : KeyKind} {field : String}
    (hc : classify c key (.mapping body) = kind) (hk : kind.consumedKey = some field) :
    entryItems? c key (.mapping body) = (kind.suffix? key body).bind fun suffix =>
      (nodeItems? c (some field) body).map fun inner => [.scope suffix inner] := by
  have hspec (kind : SpecKind) : (specItem? c kind (.mapping body)).map ([·]) =
      ((kind.fieldText? body).map fun s => kind.suffix (kind.labelOf s)).bind fun suffix =>
        (nodeItems? c (some kind.field) body).map fun inner => [Item.scope suffix inner] := by
    rw [specItem?]
    cases kind.fieldText? body with
    | none => rfl
    | some s => cases nodeItems? c (some kind.field) body <;> rfl
  rw [entryItems?, itemsAt, hc]
  cases kind with
  | property | breakpoint => cases hk
  | pseudo =>
    cases hk
    simp only [toOption_bind, toOption_itemsOf]
    refine congrArg (Option.bind _) (funext fun suffix => ?_)
    cases nodeItems? c (some Pseudo.paramKey) body <;> rfl
  | modifier =>
    cases hk
    exact (toOption_specBlock (toOption_itemsOf c body _)).trans (hspec .modifier)
  | child =>
    cases hk
    exact (toOption_specBlock (toOption_itemsOf c body _)).trans (hspec .child)

theorem entryItems?_media {body : Mapping} (hc : classify c key (.mapping body) = .breakpoint) :
    entryItems? c key (.mapping body) =
      (nodeItems? c none body).map fun inner => [.media key inner] := by
  rw [entryItems?, itemsAt, hc]
  simp only [toOption_bind, toOption_itemsOf]
  cases nodeItems? c none body <;> rfl

/-- A sequence of specs is read spec by spec. -/
theorem entryItems?_of_items {v : Value} {values : List Value} {kind : SpecKind}
    (hv : v.sequence? = some values) (hk : (classify c key v).specKind? = some kind)
    (hne : values ≠ []) : entryItems? c key v = values.mapM (specItem? c kind) := by
  rw [entryItems?, toOption_itemsAt_of_items hv fun kind => toOption_scopes c values kind key [] 0,
    hk]
  exact if_neg hne

end Entries

/-- Compiling from what is read of the root. -/
theorem toOption_compile (c : Config) (tree : Mapping) (scope context : Option String) :
    (compile c (.mapping tree) scope context).toOption =
      (c.checkContext context).toOption.bind fun _ => (nodeItems? c none tree).bind fun items =>
        (sheetOf c.setting (c.scopeOf scope) context items).toOption.map Sheet.render := by
  rw [compile, toOption_map, compileSheet]
  simp only [toOption_bind, toOption_mapError, checkedTree, toOption_itemsOf, Option.map_bind,
    Function.comp_def]

end StyleTree
