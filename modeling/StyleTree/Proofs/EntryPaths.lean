import StyleTree.Proofs.WalkOrder

/-!
# Paths locate entries

The path of an entry can be followed: from the root, every step selects a key of the node or an item
of the specs that a key holds, and the last one is the key of the entry (`follow_of_mem_entries`).
For a following step to have one meaning, the keys that open blocks must not look like steps to
items (`Config.HasPlainKeys`); then different entries have different paths, and an entry comes
before those that its block holds (`entries_located`). A declaration may have a key that looks like
such a step: no step follows it.
-/

namespace StyleTree

/-- No key that the configuration gives a meaning has the form of a step to an item of specs. -/
structure Config.HasPlainKeys (c : Config) : Prop where
  modifierKey : c.namesItem c.modifierKey = false
  childKey : c.namesItem c.childKey = false
  breakpoints : ∀ name ∈ c.breakpoints.names, c.namesItem name = false

/-! ## Following a path -/

/-- What the step selects among the specs that `key` holds in a sequence, if it leads to one. -/
def Mapping.itemAt? (m : Mapping) (step key : String) : Option (Option Value) := do
  let index ← Path.itemIndex? key step
  let held ← m.get? key
  let items ← held.items?
  return items[index]?

/-- The value that a step leads to when others follow: an item of the specs that the modifier key or
the child key holds in a sequence, else what stands under the key. -/
def Mapping.stepInto? (c : Config) (m : Mapping) (step : String) : Option Value :=
  ([c.modifierKey, c.childKey].findSome? (m.itemAt? step)).getD (m.get? step)

/-- The value at the end of a path, whose last step is a key. -/
def follow (c : Config) : Path → Value → Option Value
  | [], v => some v
  | [key], .mapping m => Mapping.get? m key
  | step :: rest, .mapping m => Mapping.stepInto? c m step >>= follow c rest
  | _, _ => none

theorem Mapping.get?_of_mem {m : Mapping} {key : String} {v : Value} (h : (key, v) ∈ m)
    (hkeys : (m.map Prod.fst).Nodup) : m.get? key = some v := by
  induction m with
  | nil => cases h
  | cons entry rest ih =>
    rw [List.map_cons, List.nodup_cons] at hkeys
    rcases List.mem_cons.mp h with rfl | h
    · exact List.lookup_cons_self
    · have hne : key ≠ entry.1 := fun heq =>
        hkeys.1 (heq ▸ List.mem_map_of_mem (f := Prod.fst) h)
      rw [Mapping.get?, List.lookup_cons, beq_false_of_ne hne]
      exact ih h hkeys.2

section Follow

variable {c : Config} {b d : TreeBlock} {e x : Entry}

/-- An entry that opens blocks has a plain key. -/
theorem Config.HasPlainKeys.namesItem_of_mem_own (hc : c.HasPlainKeys) (he : e ∈ d.own c)
    (hk : e.kind ≠ .property) : c.namesItem e.key = false := by
  have hspec := classify_spec c e.key e.value
  rw [kind_of_mem_own he] at hk
  cases hkind : classify c e.key e.value with
  | property => exact absurd hkind hk
  | modifier =>
    rw [hkind] at hspec
    exact hspec ▸ hc.modifierKey
  | child =>
    rw [hkind] at hspec
    exact hspec ▸ hc.childKey
  | pseudo =>
    obtain ⟨pseudo, hpseudo⟩ := ofKey?_of_classify hkind
    exact Config.namesItem_ofKey? hpseudo
  | breakpoint =>
    have hmem : e.key ∈ c.breakpoints.names := List.contains_iff_mem.mp (has_of_classify hkind)
    exact hc.breakpoints e.key hmem

theorem itemAt?_eq_none {m : Mapping} {step key : String}
    (h : ∀ index, step ≠ Path.itemStep key index) : m.itemAt? step key = none := by
  rw [Mapping.itemAt?, Path.itemIndex?_eq_none.mpr h]
  rfl

theorem itemAt?_of_not_namesItem {m : Mapping} {step key : String} (hkey : c.holdsSpecs key)
    (hstep : c.namesItem step = false) : m.itemAt? step key = none := by
  refine itemAt?_eq_none fun index heq => ?_
  rw [Config.namesItem_eq_true.mpr ⟨key, index, hkey, heq⟩] at hstep
  cases hstep

/-- A plain step selects a key. -/
theorem stepInto?_of_not_namesItem {m : Mapping} {step : String}
    (hstep : c.namesItem step = false) : m.stepInto? c step = m.get? step := by
  rw [Mapping.stepInto?, List.findSome?_cons, itemAt?_of_not_namesItem (.inl rfl) hstep,
    List.findSome?_cons, itemAt?_of_not_namesItem (.inr rfl) hstep]
  rfl

theorem itemAt?_itemStep {m : Mapping} {key : String} {v : Value} {items : List Value}
    (hget : m.get? key = some v) (hitems : v.items? = some items) (index : Nat) :
    m.itemAt? (Path.itemStep key index) key = some items[index]? := by
  rw [Mapping.itemAt?, Path.itemIndex?_eq_some.mpr rfl, hget]
  simp only [Option.bind_eq_bind, Option.bind_some, hitems]
  rfl

/-- A step to an item selects it among the specs that the key holds. -/
theorem stepInto?_itemStep {m : Mapping} {key : String} {v : Value} {items : List Value}
    {index : Nat} (hkey : c.holdsSpecs key) (hget : m.get? key = some v)
    (hitems : v.items? = some items) :
    m.stepInto? c (Path.itemStep key index) = items[index]? := by
  have hitem := itemAt?_itemStep hget hitems index
  rw [Mapping.stepInto?]
  rcases hkey with rfl | rfl
  · rw [List.findSome?_cons, hitem]
    rfl
  · have hmodifier : m.itemAt? (Path.itemStep c.childKey index) c.modifierKey = none :=
      itemAt?_eq_none fun index' heq => c.keys_ne (Path.itemStep_inj.mp heq).1.symm
    rw [List.findSome?_cons, hmodifier, List.findSome?_cons, hitem]
    rfl

/-- The step from a block into a block of one of its entries selects what that block holds. -/
theorem stepInto?_of_stepsTo {step : String} {body : Mapping} (hc : c.HasPlainKeys)
    (hkeys : (b.body.map Prod.fst).Nodup) (he : e ∈ b.own c) (hk : e.kind ≠ .property)
    (h : e.StepsTo step body) : b.body.stepInto? c step = some (.mapping body) := by
  have hget : b.body.get? e.key = some e.value := Mapping.get?_of_mem (mem_nodeEntries.mp he).1 hkeys
  cases h with
  | block hv => rw [stepInto?_of_not_namesItem (hc.namesItem_of_mem_own he hk), hget, hv]
  | item hitems hitem =>
    rw [kind_of_mem_own he] at hk
    have hspecs := holdsSpecs_of_classify (isMapping_of_sequence? (sequence?_of_items? hitems)) hk
    rw [stepInto?_itemStep hspecs hget hitems, hitem]

theorem follow_cons {m : Mapping} {step : String} {path : Path} (h : path ≠ []) :
    follow c (step :: path) (.mapping m) = m.stepInto? c step >>= follow c path := by
  cases path with
  | nil => exact absurd rfl h
  | cons _ _ => rfl

/-- Followed from its block, the path of an entry ends with the key and reaches the value. -/
theorem follow_of_mem_entries (hc : c.HasPlainKeys)
    (hkeys : (Value.mapping b.body).hasDistinctKeys = true) (hx : x ∈ b.entries c) :
    ∃ path, x.path = b.path ++ path ∧ path.getLast? = some x.key ∧
      follow c path (.mapping b.body) = some x.value := by
  induction b using TreeBlock.induction c with
  | step b ih =>
    have hnodup : (b.body.map Prod.fst).Nodup := of_decide_eq_true (everyMapping_self hkeys)
    rw [TreeBlock.entries_eq] at hx
    obtain ⟨e, he, hx⟩ := List.mem_flatMap.mp hx
    rcases List.mem_cons.mp hx with rfl | hx
    · exact ⟨[x.key], path_of_mem_own he, rfl, Mapping.get?_of_mem (mem_nodeEntries.mp he).1 hnodup⟩
    obtain ⟨b', hb', hx⟩ := List.mem_flatMap.mp hx
    obtain ⟨hk, -⟩ := mem_blocks hb'
    obtain ⟨step, hblock, hstep⟩ := mem_blocks_of_mem_own he hb'
    obtain ⟨path, hpath, hlast, hfollow⟩ :=
      ih e he b' hb' (everyMapping_of_mem_blocks hkeys he hb') hx
    have hne : path ≠ [] := by
      rintro rfl
      cases hlast
    refine ⟨step :: path, ?_, ?_, ?_⟩
    · rw [hpath, hblock, List.append_assoc, List.singleton_append]
    · rw [List.getLast?_cons, hlast]
      rfl
    · rw [follow_cons hne, stepInto?_of_stepsTo hc hnodup he hk hstep]
      exact hfollow

end Follow

/-! ## Places of different entries -/

section Places

variable {c : Config} {tree : Mapping} {path : Path} {b d : TreeBlock} {e e' x y : Entry}
  {es : List Entry}

/-- What is below an entry is inside a place one step from the entry's node. -/
theorem exists_step_of_mem_below (he : e ∈ d.own c) (hx : x ∈ e.below c) :
    e.kind ≠ .property ∧ ∃ step, c.StepsFrom e.key step ∧
      Path.Inside (d.path ++ [step]) x.path ∧
        ∀ b ∈ x.blocks, Path.Inside (d.path ++ [step]) b.path := by
  obtain ⟨b', hb', hx⟩ := List.mem_flatMap.mp hx
  obtain ⟨step, hpath, hstep⟩ := stepsFrom_of_mem_blocks he hb'
  obtain ⟨hk, -⟩ := mem_blocks hb'
  refine ⟨hk, step, hstep, ?_⟩
  rw [← hpath]
  exact ⟨inside_of_mem_entries hx, fun b hb => inside_of_mem_blocks hx hb⟩

theorem length_lt_of_mem_below (he : e ∈ d.own c) (hx : x ∈ e.below c) :
    e.path.length < x.path.length ∧ ∀ b ∈ x.blocks, e.path.length < b.path.length := by
  obtain ⟨-, step, -, hinside, hblocks⟩ := exists_step_of_mem_below he hx
  have hlength : (d.path ++ [step]).length = e.path.length := by
    rw [length_of_mem_own he, List.length_append, List.length_singleton]
  rw [← hlength]
  exact ⟨hinside.length_lt, fun b hb => (hblocks b hb).length_lt⟩

/-- The blocks of an entry, and of those below it, are behind a step from its key. -/
theorem exists_step_of_mem_blocks (he : e ∈ d.own c) (hx : x ∈ e :: e.below c)
    (hb : b ∈ x.blocks) :
    e.kind ≠ .property ∧ ∃ step, c.StepsFrom e.key step ∧ d.path ++ [step] <+: b.path := by
  rcases List.mem_cons.mp hx with rfl | hx
  · obtain ⟨step, hpath, hstep⟩ := stepsFrom_of_mem_blocks he hb
    exact ⟨(mem_blocks hb).1, step, hstep, hpath ▸ List.prefix_rfl⟩
  · obtain ⟨hk, step, hstep, -, hblocks⟩ := exists_step_of_mem_below he hx
    exact ⟨hk, step, hstep, (hblocks b hb).isPrefix⟩

/-- Plain keys are told apart by the steps from them. -/
theorem step_ne_of_key_ne (hc : c.HasPlainKeys) {step step' : String} (he : e ∈ d.own c)
    (he' : e' ∈ d.own c) (hne : e.key ≠ e'.key) (hk : e.kind ≠ .property)
    (hk' : e'.kind ≠ .property) (hstep : c.StepsFrom e.key step)
    (hstep' : c.StepsFrom e'.key step') : step ≠ step' := by
  rintro rfl
  exact hne (hstep.key_eq hstep' (hc.namesItem_of_mem_own he hk) (hc.namesItem_of_mem_own he' hk'))

theorem path_ne_of_before (hc : c.HasPlainKeys) (h : Entry.Before c es x y) : x.path ≠ y.path := by
  intro heq
  have hlength := congrArg List.length heq
  cases h with
  | below hx hy =>
    have hlt := (length_lt_of_mem_below hx hy).1
    omega
  | @entries d e e' _ he he' hne hx hy =>
    rcases List.mem_cons.mp hx with rfl | hx <;> rcases List.mem_cons.mp hy with rfl | hy
    · rw [path_of_mem_own he, path_of_mem_own he', List.append_cancel_left_eq] at heq
      exact hne (List.singleton_inj.mp heq)
    · have hlt := (length_lt_of_mem_below he' hy).1
      rw [length_of_mem_own he'] at hlt
      rw [length_of_mem_own he] at hlength
      omega
    · have hlt := (length_lt_of_mem_below he hx).1
      rw [length_of_mem_own he] at hlt
      rw [length_of_mem_own he'] at hlength
      omega
    · obtain ⟨hk, step, hstep, hinside, -⟩ := exists_step_of_mem_below he hx
      obtain ⟨hk', step', hstep', hinside', -⟩ := exists_step_of_mem_below he' hy
      rw [heq] at hinside
      exact step_ne_of_key_ne hc he he' hne hk hk' hstep hstep'
        (Path.step_eq_of_prefix hinside.isPrefix hinside'.isPrefix)
  | blocks he hb hb' hne hx hy =>
    have hinside := inside_of_mem_entries hx
    rw [heq] at hinside
    have hblocks := (length_of_mem_blocks he hb).trans (length_of_mem_blocks he hb').symm
    exact hne (Path.eq_of_prefix hinside.isPrefix (inside_of_mem_entries hy).isPrefix hblocks)

/-- An entry is in none of its own blocks. -/
theorem not_inside_of_mem_blocks (hx : x ∈ entries c tree path) (hb : b ∈ x.blocks) :
    ¬ Path.Inside b.path x.path := by
  intro hinside
  obtain ⟨d, hd, -⟩ := exists_own_of_mem_entries (b := .root path tree) hx
  have hdeeper := hinside.length_lt
  rw [length_of_mem_blocks hd hb, length_of_mem_own hd] at hdeeper
  exact Nat.lt_irrefl _ hdeeper

/-- No entry comes before one whose block it is in. -/
theorem not_inside_of_before (hc : c.HasPlainKeys) (h : Entry.Before c es x y)
    (hb : b ∈ y.blocks) : ¬ Path.Inside b.path x.path := by
  intro hinside
  have hdeeper := hinside.length_lt
  cases h with
  | below hx hy =>
    have hlt := (length_lt_of_mem_below hx hy).2 b hb
    omega
  | @entries d e e' _ he he' hne hx hy =>
    -- The block lies behind a step from `e'`, so `x` does too and cannot be `e` itself.
    obtain ⟨hk', step', hstep', hpre⟩ := exists_step_of_mem_blocks he' hy hb
    rcases List.mem_cons.mp hx with rfl | hx
    · have hle := hpre.length_le
      rw [List.length_append, List.length_singleton, ← length_of_mem_own he] at hle
      omega
    · obtain ⟨hk, step, hstep, hstepInside, -⟩ := exists_step_of_mem_below he hx
      exact step_ne_of_key_ne hc he he' hne hk hk' hstep hstep'
        (Path.step_eq_of_prefix hstepInside.isPrefix (hpre.trans hinside.isPrefix))
  | @blocks d b₁ b₂ e he hb₁ hb₂ hne hx hy =>
    have hpre := (inside_of_mem_blocks hy hb).isPrefix.trans hinside.isPrefix
    have hblocks := (length_of_mem_blocks he hb₁).trans (length_of_mem_blocks he hb₂).symm
    exact hne (Path.eq_of_prefix (inside_of_mem_entries hx).isPrefix hpre hblocks)

end Places

/-! ## Other places for the root -/

/-- The entry, where the root of its tree stands at `start`. -/
def Entry.prepend (start : Path) (e : Entry) : Entry :=
  { e with path := start ++ e.path }

def TreeBlock.prepend (start : Path) (b : TreeBlock) : TreeBlock :=
  { b with path := start ++ b.path }

section Prepend

variable {c : Config} {b : TreeBlock} {e : Entry} {start : Path}

theorem own_prepend : (b.prepend start).own c = (b.own c).map (Entry.prepend start) := by
  rw [TreeBlock.own, TreeBlock.own, nodeEntries, nodeEntries, List.map_map]
  refine List.map_congr_left fun entry _ => ?_
  simp [TreeBlock.prepend, Entry.prepend]

theorem rawItems_prepend (start : Path) (key : String) (path : Path) (index : Nat)
    (items : List Value) :
    Lint.rawItems key (start ++ path) index items =
      (Lint.rawItems key path index items).map (Prod.map (start ++ ·) id) := by
  induction items generalizing index with
  | nil => rfl
  | cons item rest ih =>
    cases item with
    | mapping raw =>
      rw [Lint.rawItems, Lint.rawItems, List.map_cons, ih, List.append_assoc]
      rfl
    | _ => exact ih _

theorem rawSpecs_prepend {key : String} {path : Path} {v : Value} :
    Lint.rawSpecs key (start ++ path) v =
      (Lint.rawSpecs key path v).map (Prod.map (start ++ ·) id) := by
  cases v with
  | mapping raw =>
    rw [Lint.rawSpecs, Lint.rawSpecs, List.append_assoc]
    rfl
  | list items | tuple items =>
    have hitems := rawItems_prepend start key path 0 items
    rwa [Lint.rawItems_eq, Lint.rawItems_eq] at hitems
  | _ => rfl

theorem entrySpecs_prepend (h : e.path ≠ []) :
    Lint.entrySpecs (e.prepend start) = (Lint.entrySpecs e).map (Prod.map (start ++ ·) id) := by
  have hnode : (e.prepend start).path.dropLast = start ++ e.path.dropLast :=
    List.dropLast_append_of_ne_nil h
  rw [Lint.entrySpecs, hnode]
  exact rawSpecs_prepend

theorem blocks_prepend (h : e.path ≠ []) :
    (e.prepend start).blocks = e.blocks.map (TreeBlock.prepend start) := by
  have hkind : (e.prepend start).kind = e.kind := rfl
  rw [Entry.blocks, Entry.blocks, hkind]
  by_cases hk : e.kind = .property
  · rw [if_pos hk, if_pos hk]
    rfl
  · rw [if_neg hk, if_neg hk, entrySpecs_prepend h, List.map_map, List.map_map]
    rfl

/-- The entries of a block, where the root stands elsewhere, are the same with other paths. -/
theorem entries_prepend (b : TreeBlock) :
    (b.prepend start).entries c = (b.entries c).map (Entry.prepend start) := by
  induction b using TreeBlock.induction c with
  | step b ih =>
    rw [TreeBlock.entries_eq, TreeBlock.entries_eq, own_prepend, List.flatMap_map, List.map_flatMap]
    refine List.flatMap_congr fun e he => ?_
    have hne : e.path ≠ [] := by
      rw [path_of_mem_own he]
      exact List.concat_ne_nil _ _
    rw [List.map_cons, Entry.below, Entry.below, blocks_prepend hne, List.flatMap_map,
      List.map_flatMap]
    refine congrArg _ (List.flatMap_congr fun b' hb' => ?_)
    exact ih e he b' hb'

end Prepend

/-! ## All entries -/

theorem Path.inside_iff {outer p : Path} : Path.Inside outer p ↔ outer <+: p ∧ p ≠ outer := by
  constructor
  · intro h
    refine ⟨h.isPrefix, ?_⟩
    rintro rfl
    exact Nat.lt_irrefl _ h.length_lt
  · rintro ⟨⟨rest, rfl⟩, hne⟩
    cases rest with
    | nil => exact absurd (List.append_nil outer) hne
    | cons step rest => exact ⟨step, rest, by simp⟩

/-- The entries of a tree, whose root stands at `start`, have different paths. Each of them is found
by its path from the root, and comes before the entries in its blocks. The paths are those from the
root behind `start`. -/
theorem entries_located {c : Config} {tree : Mapping} (hc : c.HasPlainKeys)
    (htree : (Value.mapping tree).hasDistinctKeys = true) (start : Path) :
    ((entries c tree start).map Entry.path).Nodup ∧
      (∀ e ∈ entries c tree start, ∃ path, e.path = start ++ path ∧
        path.getLast? = some e.key ∧ follow c path (.mapping tree) = some e.value) ∧
      (∀ (i j : Nat) (e e' : Entry), (entries c tree start)[i]? = some e →
        (entries c tree start)[j]? = some e' → ∀ b ∈ e.blocks,
          b.path <+: e'.path → e'.path ≠ b.path → i < j) ∧
      entries c tree start = (entries c tree []).map (Entry.prepend start) := by
  have hpairs : (entries c tree start).Pairwise (Entry.Before c (entries c tree start)) :=
    TreeBlock.pairwise_entries (b := .root start tree) htree
  refine ⟨?_, fun e he => ?_, ?_, ?_⟩
  · exact List.pairwise_map.mpr (hpairs.imp fun h => path_ne_of_before hc h)
  · exact follow_of_mem_entries (b := .root start tree) hc htree he
  · intro i j e e' he he' b hb hpre hne
    have hinside : Path.Inside b.path e'.path := Path.inside_iff.mpr ⟨hpre, hne⟩
    obtain ⟨hi, rfl⟩ := List.getElem?_eq_some_iff.mp he
    obtain ⟨hj, rfl⟩ := List.getElem?_eq_some_iff.mp he'
    rcases Nat.lt_trichotomy i j with hlt | rfl | hlt
    · exact hlt
    · exact absurd hinside (not_inside_of_mem_blocks (List.getElem_mem hi) hb)
    · have hbefore := List.pairwise_iff_getElem.mp hpairs j i hj hi hlt
      exact absurd hinside (not_inside_of_before hc hbefore hb)
  · rw [← TreeBlock.entries_root [] tree, ← entries_prepend]
    show _ = TreeBlock.entries c ⟨start ++ [], .property, tree⟩
    rw [List.append_nil]
    rfl

/-- A key that looks like the step to a spec, and a sequence of specs with a gap in it. -/
def locatedTree : Mapping :=
  [("class[0]", .text "x"),
   ("class", .list
    [.mapping [("name", .text "on"), ("color", .text "red")],
     .null,
     .mapping [("name", .text "off"), ("hover", .mapping [("color", .text "blue")])]])]

theorem entries_located_sample :
    Config.standard.HasPlainKeys ∧ (Value.mapping locatedTree).hasDistinctKeys = true ∧
      (entries .standard locatedTree ["page"]).map Entry.path =
        [["page", "class[0]"], ["page", "class"], ["page", "class[0]", "color"],
         ["page", "class[2]", "hover"], ["page", "class[2]", "hover", "color"]] ∧
      ((entries .standard locatedTree ["page"]).map Entry.path).Nodup ∧
      ∀ e ∈ entries .standard locatedTree ["page"], ∃ path, e.path = ["page"] ++ path ∧
        path.getLast? = some e.key ∧
          follow .standard path (.mapping locatedTree) = some e.value := by
  have hbreakpoints : (Config.standard.breakpoints.names.all fun name =>
      !Config.standard.namesItem name) = true := by decide
  have hc : Config.standard.HasPlainKeys :=
    ⟨by decide, by decide, by simpa using hbreakpoints⟩
  have htree : (Value.mapping locatedTree).hasDistinctKeys = true := by decide
  obtain ⟨hnodup, hfollow, -⟩ := entries_located hc htree ["page"]
  exact ⟨hc, htree, rfl, hnodup, hfollow⟩

end StyleTree
