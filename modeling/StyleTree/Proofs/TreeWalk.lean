import StyleTree.Item
import StyleTree.Entry
import StyleTree.Proofs.Gathering

/-!
# The walk through a style tree

The walk of the compiler through a style tree, with the trail of the block in which each entry
stands. It goes into the specs of every sequence. So it finds the entries in their order, and more of
them where specs stand in a sequence that is no list and no tuple (`seenOf_entriesOf`). What holds of
the openings of all blocks holds along it (`everyStep_visitsOf`).
-/

namespace StyleTree

open Visit

/-! ## What keys stand for -/

/-- What is known about the key and the value of an entry of each kind. -/
theorem classify_spec (c : Config) (key : String) (v : Value) :
    match classify c key v with
    | .modifier => key = c.modifierKey
    | .child => key = c.childKey
    | .pseudo => v.isMapping = true ∧ ∃ pseudo, Pseudo.ofKey? key = some pseudo
    | .breakpoint => v.isMapping = true ∧ c.breakpoints.has key = true
    | .property => key ≠ c.modifierKey ∧ key ≠ c.childKey := by
  unfold classify
  by_cases hm : key = c.modifierKey
  · rw [if_pos hm]
    exact hm
  by_cases hc : key = c.childKey
  · rw [if_neg hm, if_pos hc]
    exact hc
  rw [if_neg hm, if_neg hc]
  by_cases hv : v.isMapping = true
  · rw [if_pos hv]
    by_cases hp : (Pseudo.ofKey? key).isSome = true
    · rw [if_pos hp]
      exact ⟨hv, Option.isSome_iff_exists.mp hp⟩
    by_cases hb : c.breakpoints.has key = true
    · rw [if_neg hp, if_pos hb]
      exact ⟨hv, hb⟩
    · rw [if_neg hp, if_neg hb]
      exact ⟨hm, hc⟩
  · rw [if_neg hv]
    exact ⟨hm, hc⟩

theorem has_of_classify {c : Config} {key : String} {v : Value}
    (h : classify c key v = .breakpoint) : c.breakpoints.has key = true := by
  have hspec := classify_spec c key v
  rw [h] at hspec
  exact hspec.2

theorem ofKey?_of_classify {c : Config} {key : String} {v : Value}
    (h : classify c key v = .pseudo) : ∃ pseudo, Pseudo.ofKey? key = some pseudo := by
  have hspec := classify_spec c key v
  rw [h] at hspec
  exact hspec.2

/-- What opens a block under its own name is a mapping. -/
theorem mapping_of_classify {c : Config} {key : String} {v : Value}
    (h : classify c key v = .pseudo ∨ classify c key v = .breakpoint) :
    ∃ body, v = .mapping body := by
  have hspec := classify_spec c key v
  have hv : v.isMapping = true := by
    rcases h with h | h
    all_goals
      rw [h] at hspec
      exact hspec.1
  cases v with
  | mapping body => exact ⟨body, rfl⟩
  | _ => cases hv

theorem classify_eq_property {c : Config} {key : String} {v : Value} (hv : v.isMapping = false)
    (h : (classify c key v).specKind? = none) : classify c key v = .property := by
  have hspec := classify_spec c key v
  cases hc : classify c key v with
  | property => rfl
  | modifier | child =>
    rw [hc] at h
    cases h
  | pseudo | breakpoint =>
    rw [hc, hv] at hspec
    cases hspec.1

/-! ## The walk -/

/-- The parameter of a pseudo block as its selector shows it. -/
def paramText? (body : Mapping) : Option String :=
  match body.get? Pseudo.paramKey with
  | some (.text s) => some s
  | some (.number n) => some n.text
  | _ => none

/-- A spec adds its label to the selector. -/
def SpecKind.opening (kind : SpecKind) (raw : Mapping) : Opening :=
  .scope (kind.suffix (kind.labelOf ((kind.fieldText? raw).getD "")))

/-- What entering the block `body` under `key` does, for every kind of key that opens one. -/
def KeyKind.opening (key : String) (body : Mapping) : KeyKind → Opening
  | pseudo => .scope (((Pseudo.ofKey? key).map (·.suffixWith (paramText? body))).getD "")
  | modifier => SpecKind.modifier.opening body
  | child => SpecKind.child.opening body
  | breakpoint => .media key
  | property => .media key

/-- How many blocks the entry opens. -/
def blockCount (c : Config) (key : String) : Value → Nat
  | .mapping body => if classify c key (.mapping body) = .property then 0 else 1
  | .list items =>
    match (classify c key (.list items)).specKind? with
    | some _ => items.countP Value.isMapping
    | none => 0
  | .tuple items =>
    match (classify c key (.tuple items)).specKind? with
    | some _ => items.countP Value.isMapping
    | none => 0
  | .sequence type items =>
    match (classify c key (.sequence type items)).specKind? with
    | some _ => items.countP Value.isMapping
    | none => 0
  | _ => 0

mutual

/-- The walk through a node at `path`, without the key that its block uses up, whose next block has
the number `place`. -/
def visitsOf (c : Config) (consumed : Option String) (path : Path) (place : Nat) :
    Mapping → List (Visit Entry)
  | [] => []
  | (key, v) :: rest =>
    if consumed = some key then visitsOf c consumed path place rest
    else
      .holds [] ⟨path ++ [key], key, v, classify c key v⟩ ::
        (visitsBelow c key path place v ++
          visitsOf c consumed path (place + blockCount c key v) rest)

/-- The walk through the block or blocks that `key` holds in the node at `path`. -/
def visitsBelow (c : Config) (key : String) (path : Path) (place : Nat) :
    Value → List (Visit Entry)
  | .mapping body =>
    match classify c key (.mapping body) with
    | .property => []
    | kind =>
      enter ⟨place, kind.opening key body⟩ (visitsOf c kind.consumedKey (path ++ [key]) 0 body)
  | .list items =>
    match (classify c key (.list items)).specKind? with
    | some kind => visitsOfSpecs c kind key path 0 place items
    | none => []
  | .tuple items =>
    match (classify c key (.tuple items)).specKind? with
    | some kind => visitsOfSpecs c kind key path 0 place items
    | none => []
  | .sequence type items =>
    match (classify c key (.sequence type items)).specKind? with
    | some kind => visitsOfSpecs c kind key path 0 place items
    | none => []
  | _ => []

/-- The walk through the specs in a sequence under `key`, whose items are numbered from `index` on
and whose blocks from `place` on. -/
def visitsOfSpecs (c : Config) (kind : SpecKind) (key : String) (path : Path)
    (index place : Nat) : List Value → List (Visit Entry)
  | [] => []
  | .mapping raw :: rest =>
    enter ⟨place, kind.opening raw⟩
        (visitsOf c (some kind.field) (path ++ [Path.itemStep key index]) 0 raw) ++
      visitsOfSpecs c kind key path (index + 1) (place + 1) rest
  | _ :: rest => visitsOfSpecs c kind key path (index + 1) place rest

end

theorem visitsBelow_of_property {c : Config} {key : String} {body : Mapping}
    (h : classify c key (.mapping body) = .property) (path : Path) (place : Nat) :
    visitsBelow c key path place (.mapping body) = [] := by
  rw [visitsBelow, h]

theorem visitsBelow_of_block {c : Config} {key : String} {body : Mapping} {kind : KeyKind}
    (h : classify c key (.mapping body) = kind) (hk : kind ≠ .property) (path : Path)
    (place : Nat) :
    visitsBelow c key path place (.mapping body) =
      enter ⟨place, kind.opening key body⟩
        (visitsOf c kind.consumedKey (path ++ [key]) 0 body) := by
  rw [visitsBelow, h]
  cases kind with
  | property => exact absurd rfl hk
  | _ => rfl

/-! ### Sequences, of which the entries take lists and tuples only -/

section Items

variable {c : Config} {key : String} {path : Path} {v : Value} {values : List Value}

theorem sequence?_of_items? (h : v.items? = some values) : v.sequence? = some values := by
  cases v with
  | list _ | tuple _ => exact h
  | _ => cases h

theorem entriesBelow_of_items (h : v.items? = some values) :
    entriesBelow c key path v =
      match (classify c key v).specKind? with
      | some kind => entriesOfItems c kind key path 0 values
      | none => [] := by
  cases v with
  | list _ | tuple _ => cases h; rfl
  | _ => cases h

theorem blockCount_of_items (h : v.sequence? = some values) :
    blockCount c key v =
      match (classify c key v).specKind? with
      | some _ => values.countP Value.isMapping
      | none => 0 := by
  cases v with
  | list _ | tuple _ | sequence _ _ => cases h; rfl
  | _ => cases h

theorem visitsBelow_of_items (h : v.sequence? = some values) (place : Nat) :
    visitsBelow c key path place v =
      match (classify c key v).specKind? with
      | some kind => visitsOfSpecs c kind key path 0 place values
      | none => [] := by
  cases v with
  | list _ | tuple _ | sequence _ _ => cases h; rfl
  | _ => cases h

end Items

/-- The walk through a whole tree. -/
def walk (c : Config) (tree : Mapping) : List (Visit Entry) :=
  visitsOf c none [] 0 tree

/-! ## What it finds -/

/-- The entries along the walk, those of the specs in every sequence among them. -/
def walked (c : Config) (tree : Mapping) : List Entry :=
  (walk c tree).filterMap held?

section Held

variable {c : Config} {P : Entry → Prop}

theorem held_of_items {key : String} {path : Path} {place : Nat} {v : Value} {values : List Value}
    (hv : v.sequence? = some values)
    (h : ∀ kind, ∀ e ∈ (visitsOfSpecs c kind key path 0 place values).filterMap held?, P e) :
    ∀ e ∈ (visitsBelow c key path place v).filterMap held?, P e := by
  rw [visitsBelow_of_items hv]
  cases (classify c key v).specKind? with
  | none => exact List.forall_mem_nil _
  | some kind => exact h kind

mutual

/-- What holds of every key with its value holds of the entries along the walk. -/
theorem held_visitsOf (h : ∀ path key v, P ⟨path ++ [key], key, v, classify c key v⟩) :
    ∀ (m : Mapping) (consumed : Option String) (path : Path) (place : Nat),
    ∀ e ∈ (visitsOf c consumed path place m).filterMap held?, P e
  | [], _, _, _ => List.forall_mem_nil _
  | (key, v) :: rest, consumed, path, place => by
    have hbelow := held_visitsBelow h v key path place
    have hrest := held_visitsOf h rest consumed path
    rw [visitsOf]
    split
    · exact hrest place
    · simp only [List.filterMap_cons, held?, List.filterMap_append]
      exact List.forall_mem_cons.mpr
        ⟨h path key v, List.forall_mem_append.mpr ⟨hbelow, hrest _⟩⟩

theorem held_visitsBelow (h : ∀ path key v, P ⟨path ++ [key], key, v, classify c key v⟩) :
    ∀ (v : Value) (key : String) (path : Path) (place : Nat),
    ∀ e ∈ (visitsBelow c key path place v).filterMap held?, P e
  | .mapping body, key, path, place => by
    have hbody := held_visitsOf h body
    by_cases hk : classify c key (.mapping body) = .property
    · rw [visitsBelow_of_property hk]
      exact List.forall_mem_nil _
    · rw [visitsBelow_of_block rfl hk, filterMap_held?_enter]
      exact hbody _ _ 0
  | .list values, key, path, place | .tuple values, key, path, place
  | .sequence _ values, key, path, place =>
    held_of_items rfl fun kind => held_visitsOfSpecs h values kind key path 0 place
  | .null, _, _, _ | .flag _, _, _, _ | .number _, _, _, _ | .text _, _, _, _
  | .bytes _, _, _, _ => List.forall_mem_nil _

theorem held_visitsOfSpecs (h : ∀ path key v, P ⟨path ++ [key], key, v, classify c key v⟩) :
    ∀ (items : List Value) (kind : SpecKind) (key : String) (path : Path) (index place : Nat),
    ∀ e ∈ (visitsOfSpecs c kind key path index place items).filterMap held?, P e
  | [], _, _, _, _, _ => List.forall_mem_nil _
  | .mapping raw :: rest, kind, key, path, index, place => by
    have hraw := held_visitsOf h raw
    have hrest := held_visitsOfSpecs h rest kind key path
    rw [visitsOfSpecs, List.filterMap_append, filterMap_held?_enter]
    exact List.forall_mem_append.mpr ⟨hraw _ _ 0, hrest _ _⟩
  | .list _ :: rest, kind, key, path, index, place
  | .tuple _ :: rest, kind, key, path, index, place
  | .sequence _ _ :: rest, kind, key, path, index, place
  | .null :: rest, kind, key, path, index, place
  | .flag _ :: rest, kind, key, path, index, place
  | .number _ :: rest, kind, key, path, index, place
  | .text _ :: rest, kind, key, path, index, place
  | .bytes _ :: rest, kind, key, path, index, place => by
    rw [visitsOfSpecs]
    · exact held_visitsOfSpecs h rest kind key path _ _
    all_goals simp

end

end Held

/-- An entry along the walk has the kind that its key stands for. -/
theorem kind_of_mem_walked {c : Config} {tree : Mapping} {e : Entry} (h : e ∈ walked c tree) :
    e.kind = classify c e.key e.value :=
  held_visitsOf (P := fun e => e.kind = classify c e.key e.value) (fun _ _ _ => rfl) tree none [] 0
    e h

/-! ### Which of it the rules look at -/

/-- If the entry holds specs, they stand in no sequence but a list or a tuple. -/
def Entry.Listed (e : Entry) : Prop :=
  e.kind.specKind? ≠ none → e.value.items? = e.value.sequence?

/-- The entries `seen` are among `all`, and they are all where the specs of each are listed. -/
structure SeenOf (seen all : List Entry) : Prop where
  sublist : seen.Sublist all
  eq : (∀ e ∈ seen, e.Listed) → all = seen

namespace SeenOf

theorem refl (es : List Entry) : SeenOf es es :=
  ⟨.refl es, fun _ => rfl⟩

variable {seen all seen' all' : List Entry}

theorem append (h : SeenOf seen all) (h' : SeenOf seen' all') :
    SeenOf (seen ++ seen') (all ++ all') := by
  refine ⟨h.sublist.append h'.sublist, fun hlisted => ?_⟩
  obtain ⟨hseen, hseen'⟩ := List.forall_mem_append.mp hlisted
  rw [h.eq hseen, h'.eq hseen']

theorem cons (e : Entry) (h : SeenOf seen all) : SeenOf (e :: seen) (e :: all) :=
  (refl [e]).append h

/-- What is below an entry can stay unseen if its specs are not listed. -/
theorem of_not_listed {e : Entry} (h : ¬ e.Listed) (below : List Entry) :
    SeenOf [e] (e :: below) :=
  ⟨List.cons_sublist_cons.mpr (List.nil_sublist below),
    fun hlisted => absurd (hlisted e (List.mem_singleton_self e)) h⟩

end SeenOf

theorem seenOf_of_items {c : Config} {key : String} {path : Path} {place : Nat} {v : Value}
    {values : List Value} (hv : v.items? = some values)
    (h : ∀ kind, SeenOf (entriesOfItems c kind key path 0 values)
      ((visitsOfSpecs c kind key path 0 place values).filterMap held?)) :
    SeenOf (entriesBelow c key path v) ((visitsBelow c key path place v).filterMap held?) := by
  rw [visitsBelow_of_items (sequence?_of_items? hv), entriesBelow_of_items hv]
  cases (classify c key v).specKind? with
  | none => exact .refl []
  | some kind => exact h kind

mutual

theorem seenOf_entriesOf (c : Config) : ∀ (m : Mapping) (consumed : Option String)
    (path : Path) (place : Nat),
    SeenOf (entriesOf c consumed path m) ((visitsOf c consumed path place m).filterMap held?)
  | [], _, _, _ => .refl []
  | (key, v) :: rest, consumed, path, place => by
    have hrest := seenOf_entriesOf c rest consumed path
    have hbelow := seenOf_entriesBelow c v key path place
    rw [visitsOf, entriesOf]
    split
    · exact hrest place
    · simp only [List.filterMap_cons, held?, List.filterMap_append]
      exact hbelow.append (hrest _)

theorem seenOf_entriesBelow (c : Config) : ∀ (v : Value) (key : String) (path : Path)
    (place : Nat),
    SeenOf (⟨path ++ [key], key, v, classify c key v⟩ :: entriesBelow c key path v)
      (⟨path ++ [key], key, v, classify c key v⟩ ::
        (visitsBelow c key path place v).filterMap held?)
  | .mapping body, key, path, place => by
    have hbody := seenOf_entriesOf c body
    refine .cons _ ?_
    rw [entriesBelow]
    cases hc : classify c key (.mapping body) with
    | property =>
      rw [visitsBelow_of_property hc]
      exact .refl []
    | _ =>
      rw [visitsBelow_of_block hc KeyKind.noConfusion, filterMap_held?_enter]
      exact hbody _ _ 0
  | .list values, key, path, place | .tuple values, key, path, place =>
    .cons _ (seenOf_of_items rfl fun kind =>
      seenOf_entriesOfItems c values kind key path 0 place)
  | .sequence type values, key, path, place => by
    rw [visitsBelow_of_items rfl]
    cases hk : (classify c key (.sequence type values)).specKind? with
    | none => exact .refl _
    | some kind =>
      -- the rules do not go on here, and the entry is not listed
      refine .of_not_listed (fun hlisted => ?_) _
      have hitems := hlisted (Option.ne_none_iff_exists'.mpr ⟨kind, hk⟩)
      cases hitems
  | .null, _, _, _ | .flag _, _, _, _ | .number _, _, _, _ | .text _, _, _, _
  | .bytes _, _, _, _ => .refl _

theorem seenOf_entriesOfItems (c : Config) : ∀ (items : List Value) (kind : SpecKind)
    (key : String) (path : Path) (index place : Nat),
    SeenOf (entriesOfItems c kind key path index items)
      ((visitsOfSpecs c kind key path index place items).filterMap held?)
  | [], _, _, _, _, _ => .refl []
  | .mapping raw :: rest, kind, key, path, index, place => by
    have hraw := seenOf_entriesOf c raw
    have hrest := seenOf_entriesOfItems c rest kind key path
    rw [visitsOfSpecs, entriesOfItems, List.filterMap_append, filterMap_held?_enter]
    exact (hraw _ _ 0).append (hrest _ _)
  | .list _ :: rest, kind, key, path, index, place
  | .tuple _ :: rest, kind, key, path, index, place
  | .sequence _ _ :: rest, kind, key, path, index, place
  | .null :: rest, kind, key, path, index, place
  | .flag _ :: rest, kind, key, path, index, place
  | .number _ :: rest, kind, key, path, index, place
  | .text _ :: rest, kind, key, path, index, place
  | .bytes _ :: rest, kind, key, path, index, place => by
    rw [visitsOfSpecs, entriesOfItems]
    · exact seenOf_entriesOfItems c rest kind key path _ _
    all_goals simp

end

/-- The entries of a tree are found along the walk, in their order. -/
theorem entries_sublist_walked (c : Config) (tree : Mapping) :
    (entries c tree []).Sublist (walked c tree) :=
  (seenOf_entriesOf c tree none [] 0).sublist

theorem isWalk_of_items {c : Config} {key : String} {path : Path} {place : Nat} {v : Value}
    {values : List Value} {rest : List (Visit Entry)} (hv : v.sequence? = some values)
    (hvalues : ∀ kind, IsWalk (place + values.countP Value.isMapping) rest →
      IsWalk place (visitsOfSpecs c kind key path 0 place values ++ rest))
    (h : IsWalk (place + blockCount c key v) rest) :
    IsWalk place (visitsBelow c key path place v ++ rest) := by
  rw [blockCount_of_items hv] at h
  rw [visitsBelow_of_items hv]
  cases hk : (classify c key v).specKind? with
  | none =>
    rw [hk] at h
    exact h
  | some kind =>
    rw [hk] at h
    exact hvalues kind h

mutual

theorem isWalk_visitsOf (c : Config) : ∀ (m : Mapping) (consumed : Option String)
    (path : Path) (place : Nat), IsWalk place (visitsOf c consumed path place m)
  | [], _, _, place => .nil place
  | (key, v) :: rest, consumed, path, place => by
    have hrest := isWalk_visitsOf c rest consumed path
    rw [visitsOf]
    split
    · exact hrest place
    · exact .holds _ (isWalk_visitsBelow c v key path place (hrest _))

theorem isWalk_visitsBelow (c : Config) : ∀ (v : Value) (key : String) (path : Path)
    (place : Nat) {rest : List (Visit Entry)}, IsWalk (place + blockCount c key v) rest →
    IsWalk place (visitsBelow c key path place v ++ rest)
  | .mapping body, key, path, place, rest, h => by
    have hbody := isWalk_visitsOf c body
    rw [blockCount] at h
    by_cases hk : classify c key (.mapping body) = .property
    · rw [visitsBelow_of_property hk]
      rwa [if_pos hk] at h
    · rw [visitsBelow_of_block rfl hk]
      rw [if_neg hk] at h
      exact .block _ (hbody _ _ 0) h
  | .list values, key, path, place, _, h | .tuple values, key, path, place, _, h
  | .sequence _ values, key, path, place, _, h =>
    isWalk_of_items rfl (fun kind => isWalk_visitsOfSpecs c values kind key path 0 place) h
  | .null, _, _, _, _, h | .flag _, _, _, _, _, h | .number _, _, _, _, _, h
  | .text _, _, _, _, _, h | .bytes _, _, _, _, _, h => h

theorem isWalk_visitsOfSpecs (c : Config) : ∀ (items : List Value) (kind : SpecKind)
    (key : String) (path : Path) (index place : Nat) {rest : List (Visit Entry)},
    IsWalk (place + items.countP Value.isMapping) rest →
    IsWalk place (visitsOfSpecs c kind key path index place items ++ rest)
  | [], _, _, _, _, _, _, h => h
  | .mapping raw :: items, kind, key, path, index, place, rest, h => by
    rw [visitsOfSpecs, List.append_assoc]
    refine .block _ (isWalk_visitsOf c raw _ _ 0)
      (isWalk_visitsOfSpecs c items kind key path _ _ ?_)
    rwa [List.countP_cons_of_pos rfl, Nat.add_comm _ 1, ← Nat.add_assoc] at h
  | .list _ :: items, kind, key, path, index, place, rest, h
  | .tuple _ :: items, kind, key, path, index, place, rest, h
  | .sequence _ _ :: items, kind, key, path, index, place, rest, h
  | .null :: items, kind, key, path, index, place, rest, h
  | .flag _ :: items, kind, key, path, index, place, rest, h
  | .number _ :: items, kind, key, path, index, place, rest, h
  | .text _ :: items, kind, key, path, index, place, rest, h
  | .bytes _ :: items, kind, key, path, index, place, rest, h => by
    rw [List.countP_cons_of_neg (by simp [Value.isMapping])] at h
    rw [visitsOfSpecs]
    · exact isWalk_visitsOfSpecs c items kind key path _ _ h
    all_goals simp

end

theorem isWalk_walk (c : Config) (tree : Mapping) : IsWalk 0 (walk c tree) :=
  isWalk_visitsOf c tree none [] 0

/-! ## Its steps -/

/-- `P` holds of the openings of all blocks and specs. -/
structure OfOpenings (c : Config) (P : Opening → Prop) : Prop where
  block (key : String) (body : Mapping) : classify c key (.mapping body) ≠ .property →
    P ((classify c key (.mapping body)).opening key body)
  spec (kind : SpecKind) (raw : Mapping) : P (kind.opening raw)

section Steps

variable {c : Config} {P : Opening → Prop}

theorem everyStep_of_items {key : String} {path : Path} {place : Nat} {v : Value}
    {values : List Value} (hv : v.sequence? = some values)
    (h : ∀ kind, EveryStep P (visitsOfSpecs c kind key path 0 place values)) :
    EveryStep P (visitsBelow c key path place v) := by
  rw [visitsBelow_of_items hv]
  cases (classify c key v).specKind? with
  | none => exact everyStep_nil
  | some kind => exact h kind

mutual

theorem everyStep_visitsOf (h : OfOpenings c P) : ∀ (m : Mapping) (consumed : Option String)
    (path : Path) (place : Nat), EveryStep P (visitsOf c consumed path place m)
  | [], _, _, _ => everyStep_nil
  | (key, v) :: rest, consumed, path, place => by
    have hbelow := everyStep_visitsBelow h v key path place
    have hrest := everyStep_visitsOf h rest consumed path
    rw [visitsOf]
    split
    · exact hrest place
    · exact everyStep_holds_cons (everyStep_append.mpr ⟨hbelow, hrest _⟩)

theorem everyStep_visitsBelow (h : OfOpenings c P) : ∀ (v : Value) (key : String) (path : Path)
    (place : Nat), EveryStep P (visitsBelow c key path place v)
  | .mapping body, key, path, place => by
    have hbody := everyStep_visitsOf h body
    by_cases hk : classify c key (.mapping body) = .property
    · rw [visitsBelow_of_property hk]
      exact everyStep_nil
    · rw [visitsBelow_of_block rfl hk]
      exact everyStep_enter.mpr ⟨h.block key body hk, hbody _ _ 0⟩
  | .list values, key, path, place | .tuple values, key, path, place
  | .sequence _ values, key, path, place =>
    everyStep_of_items rfl fun kind => everyStep_visitsOfSpecs h values kind key path 0 place
  | .null, _, _, _ | .flag _, _, _, _ | .number _, _, _, _ | .text _, _, _, _
  | .bytes _, _, _, _ => everyStep_nil

theorem everyStep_visitsOfSpecs (h : OfOpenings c P) : ∀ (items : List Value) (kind : SpecKind)
    (key : String) (path : Path) (index place : Nat),
    EveryStep P (visitsOfSpecs c kind key path index place items)
  | [], _, _, _, _, _ => everyStep_nil
  | .mapping raw :: rest, kind, key, path, index, place => by
    have hraw := everyStep_visitsOf h raw
    have hrest := everyStep_visitsOfSpecs h rest kind key path
    rw [visitsOfSpecs]
    exact everyStep_append.mpr ⟨everyStep_enter.mpr ⟨h.spec kind raw, hraw _ _ 0⟩, hrest _ _⟩
  | .list _ :: rest, kind, key, path, index, place
  | .tuple _ :: rest, kind, key, path, index, place
  | .sequence _ _ :: rest, kind, key, path, index, place
  | .null :: rest, kind, key, path, index, place
  | .flag _ :: rest, kind, key, path, index, place
  | .number _ :: rest, kind, key, path, index, place
  | .text _ :: rest, kind, key, path, index, place
  | .bytes _ :: rest, kind, key, path, index, place => by
    rw [visitsOfSpecs]
    · exact everyStep_visitsOfSpecs h rest kind key path _ _
    all_goals simp

end

end Steps

/-- The breakpoint of a block is known. -/
theorem ofOpenings_known (c : Config) : OfOpenings c (Opening.Known c.breakpoints) := by
  refine ⟨fun key body hk => ?_, fun _ _ => trivial⟩
  cases hc : classify c key (.mapping body) with
  | property => exact absurd hc hk
  | breakpoint => exact has_of_classify hc
  | _ => exact trivial

/-- The walk through a node enters only breakpoints that are known. -/
theorem known_visitsOf (c : Config) (m : Mapping) (consumed : Option String) (path : Path)
    (place : Nat) : EveryStep (Opening.Known c.breakpoints) (visitsOf c consumed path place m) :=
  everyStep_visitsOf (ofOpenings_known c) m consumed path place

/-- The walk through a tree enters only breakpoints that are known. -/
theorem known_walk (c : Config) (tree : Mapping) :
    EveryStep (Opening.Known c.breakpoints) (walk c tree) :=
  known_visitsOf c tree none [] 0

theorem SpecKind.suffix_ne (kind : SpecKind) (label : String) : kind.suffix label ≠ "" := by
  cases kind <;> simp [suffix]

theorem Pseudo.suffixWith_ne (p : Pseudo) (param : Option String) : p.suffixWith param ≠ "" := by
  cases param <;> cases h : p.element <;> simp [suffixWith, suffix, h]

/-- The scopes that the walk enters all extend the selector. -/
theorem extends_walk (c : Config) (tree : Mapping) :
    EveryStep Opening.Extends (walk c tree) := by
  have hspec (kind : SpecKind) (raw : Mapping) : (kind.opening raw).Extends :=
    kind.suffix_ne _
  refine everyStep_visitsOf ⟨fun key body hk => ?_, hspec⟩ tree none [] 0
  cases hc : classify c key (.mapping body) with
  | property => exact absurd hc hk
  | breakpoint => exact trivial
  | pseudo =>
    obtain ⟨pseudo, hpseudo⟩ := ofKey?_of_classify hc
    simp only [KeyKind.opening, hpseudo]
    exact pseudo.suffixWith_ne _
  | modifier => exact hspec .modifier body
  | child => exact hspec .child body

end StyleTree
