import StyleTree.Proofs.ItemSteps
import StyleTree.Proofs.TreeBlock

/-!
# The order of the walk

Every step of a path leads from a block to an entry or into a block of it, and what is inside a block
has a path that goes on from the place of the block. Where the keys of each mapping are distinct, of
any two entries the walk meets the second below the first, or the two stand apart, below different
entries of one block or in different blocks of one entry (`TreeBlock.pairwise_entries`).
-/

namespace StyleTree

/-! ## Properties of all mappings in a value -/

mutual

/-- `p` holds of every mapping in the value, at any depth. As for the entries, the sequences that are
looked into are lists and tuples. -/
def Value.everyMapping (p : Mapping → Bool) : Value → Bool
  | .mapping m => p m && everyMappingOfEntries p m
  | .list items => everyMappingOfItems p items
  | .tuple items => everyMappingOfItems p items
  | _ => true

def everyMappingOfEntries (p : Mapping → Bool) : Mapping → Bool
  | [] => true
  | (_, v) :: rest => v.everyMapping p && everyMappingOfEntries p rest

def everyMappingOfItems (p : Mapping → Bool) : List Value → Bool
  | [] => true
  | v :: rest => v.everyMapping p && everyMappingOfItems p rest

end

/-- The keys of every mapping in the value are distinct. -/
def Value.hasDistinctKeys (v : Value) : Bool :=
  v.everyMapping fun m => decide (m.map Prod.fst).Nodup

/-- `p` holds of every key in the value, at any depth. -/
def Value.everyKey (p : String → Bool) (v : Value) : Bool :=
  v.everyMapping fun m => m.all fun entry => p entry.1

section EveryMapping

variable {p : Mapping → Bool} {m : Mapping}

theorem everyMapping_self (h : (Value.mapping m).everyMapping p = true) : p m = true := by
  rw [Value.everyMapping, Bool.and_eq_true] at h
  exact h.1

theorem everyMapping_of_mem {key : String} {v : Value}
    (h : (Value.mapping m).everyMapping p = true) (hv : (key, v) ∈ m) :
    v.everyMapping p = true := by
  rw [Value.everyMapping, Bool.and_eq_true] at h
  have hentries := h.2
  clear h
  induction m with
  | nil => cases hv
  | cons entry rest ih =>
    rw [everyMappingOfEntries, Bool.and_eq_true] at hentries
    rcases List.mem_cons.mp hv with rfl | hv
    · exact hentries.1
    · exact ih hv hentries.2

theorem everyMapping_of_mem_items {v w : Value} {items : List Value}
    (h : v.everyMapping p = true) (hitems : v.items? = some items) (hw : w ∈ items) :
    w.everyMapping p = true := by
  have hall : everyMappingOfItems p items = true := by
    cases v with
    | list _ | tuple _ =>
      cases hitems
      exact h
    | _ => cases hitems
  clear h hitems
  induction items with
  | nil => cases hw
  | cons first rest ih =>
    rw [everyMappingOfItems, Bool.and_eq_true] at hall
    rcases List.mem_cons.mp hw with rfl | hw
    · exact hall.1
    · exact ih hw hall.2

end EveryMapping

/-! ## The blocks of an entry -/

/-- A whole tree, seen as a block that no key has opened. -/
def TreeBlock.root (path : Path) (tree : Mapping) : TreeBlock :=
  ⟨path, .property, tree⟩

/-- The step leads from the node of the entry into a block of it, which holds `body`. -/
inductive Entry.StepsTo (e : Entry) : String → Mapping → Prop where
  | block {body : Mapping} : e.value = .mapping body → e.StepsTo e.key body
  | item {items : List Value} {index : Nat} {raw : Mapping} : e.value.items? = some items →
      items[index]? = some (.mapping raw) → e.StepsTo (Path.itemStep e.key index) raw

section Blocks

variable {c : Config} {b b' : TreeBlock} {e : Entry} {key : String} {path : Path}

theorem mem_rawItems {found : Path × Mapping} {items : List Value} {index : Nat}
    (h : found ∈ Lint.rawItems key path index items) :
    ∃ offset, found.1 = path ++ [Path.itemStep key (index + offset)] ∧
      items[offset]? = some (.mapping found.2) := by
  induction items generalizing index with
  | nil => cases h
  | cons item rest ih =>
    have hrest (h : found ∈ Lint.rawItems key path (index + 1) rest) : ∃ offset,
        found.1 = path ++ [Path.itemStep key (index + offset)] ∧
          (item :: rest)[offset]? = some (.mapping found.2) := by
      obtain ⟨offset, hpath, hitem⟩ := ih h
      exact ⟨offset + 1, by rw [hpath, Nat.add_right_comm, Nat.add_assoc], hitem⟩
    cases item with
    | mapping raw =>
      rcases List.mem_cons.mp h with rfl | h
      · exact ⟨0, rfl, rfl⟩
      · exact hrest h
    | _ => exact hrest h

theorem nodup_rawItems {items : List Value} {index : Nat} :
    ((Lint.rawItems key path index items).map Prod.fst).Nodup := by
  induction items generalizing index with
  | nil => exact .nil
  | cons item rest ih =>
    cases item with
    | mapping raw =>
      rw [Lint.rawItems, List.map_cons, List.nodup_cons, List.mem_map]
      refine ⟨?_, ih⟩
      rintro ⟨found, hfound, hpath⟩
      obtain ⟨offset, hfound, -⟩ := mem_rawItems hfound
      rw [hfound, List.append_cancel_left_eq, List.cons.injEq, Path.itemStep_inj] at hpath
      omega
    | _ => exact ih

theorem TreeBlock.entries_root (path : Path) (tree : Mapping) :
    (root path tree).entries c = StyleTree.entries c tree path :=
  rfl

theorem path_of_mem_own (h : e ∈ b.own c) : e.path = b.path ++ [e.key] :=
  (mem_nodeEntries.mp h).2.2.1

theorem kind_of_mem_own (h : e ∈ b.own c) : e.kind = classify c e.key e.value :=
  (mem_nodeEntries.mp h).2.2.2

theorem own_subset_entries : b.own c ⊆ b.entries c := by
  intro e he
  exact (infix_of_mem_nodeEntries he).subset List.mem_cons_self

theorem entrySpecs_eq_rawItems {items : List Value} (h : e.value.items? = some items) :
    Lint.entrySpecs e = Lint.rawItems e.key e.path.dropLast 0 items := by
  rw [Lint.rawItems_eq, Lint.entrySpecs]
  generalize e.value = v at h
  cases v with
  | list _ | tuple _ =>
    cases h
    rfl
  | _ => cases h

theorem entrySpecs_eq_singleton {body : Mapping} (h : e.value = .mapping body) :
    Lint.entrySpecs e = [(e.path.dropLast ++ [e.key], body)] := by
  rw [Lint.entrySpecs, h]
  rfl

/-- Only a mapping and a sequence hold blocks. -/
theorem entrySpecs_cases (e : Entry) : (∃ body, e.value = .mapping body) ∨
    (∃ items, e.value.items? = some items) ∨ Lint.entrySpecs e = [] := by
  rw [Lint.entrySpecs]
  cases e.value with
  | mapping body => exact .inl ⟨body, rfl⟩
  | list items | tuple items => exact .inr (.inl ⟨items, rfl⟩)
  | _ => exact .inr (.inr rfl)

/-- The blocks of an entry stand one step from the node of the entry. -/
theorem mem_blocks (hb : b' ∈ e.blocks) : e.kind ≠ .property ∧ b'.kind = e.kind ∧
    ∃ step, b'.path = e.path.dropLast ++ [step] ∧ e.StepsTo step b'.body := by
  rw [Entry.blocks] at hb
  split at hb
  · cases hb
  rename_i hk
  obtain ⟨found, hfound, rfl⟩ := List.mem_map.mp hb
  refine ⟨hk, rfl, ?_⟩
  obtain ⟨body, hv⟩ | ⟨items, hitems⟩ | hnone := entrySpecs_cases e
  · rw [entrySpecs_eq_singleton hv] at hfound
    cases List.mem_singleton.mp hfound
    exact ⟨_, rfl, .block hv⟩
  · rw [entrySpecs_eq_rawItems hitems] at hfound
    obtain ⟨index, hpath, hitem⟩ := mem_rawItems hfound
    rw [Nat.zero_add] at hpath
    exact ⟨_, hpath, .item hitems hitem⟩
  · rw [hnone] at hfound
    cases hfound

theorem mem_blocks_of_mem_own (he : e ∈ b.own c) (hb : b' ∈ e.blocks) :
    ∃ step, b'.path = b.path ++ [step] ∧ e.StepsTo step b'.body := by
  obtain ⟨-, -, hstep⟩ := mem_blocks hb
  rwa [path_of_mem_own he, List.dropLast_concat] at hstep

/-- The specs of an entry stand at different places. -/
theorem nodup_entrySpecs (e : Entry) : ((Lint.entrySpecs e).map Prod.fst).Nodup := by
  obtain ⟨body, hv⟩ | ⟨items, hitems⟩ | hnone := entrySpecs_cases e
  · rw [entrySpecs_eq_singleton hv]
    exact List.nodup_singleton _
  · rw [entrySpecs_eq_rawItems hitems]
    exact nodup_rawItems
  · rw [hnone]
    exact .nil

theorem nodup_blocks (e : Entry) : (e.blocks.map TreeBlock.path).Nodup := by
  rw [Entry.blocks]
  split
  · exact .nil
  · rw [List.map_map]
    exact nodup_entrySpecs e

theorem nodup_own (h : (Value.mapping b.body).hasDistinctKeys = true) :
    ((b.own c).map Entry.key).Nodup := by
  have hkeys : (b.body.map Prod.fst).Nodup := of_decide_eq_true (everyMapping_self h)
  rw [TreeBlock.own, nodeEntries, List.map_map]
  exact hkeys.sublist (List.filter_sublist.map Prod.fst)

/-- What holds of every mapping in a block holds of those in the blocks of its entries. -/
theorem everyMapping_of_mem_blocks {p : Mapping → Bool}
    (h : (Value.mapping b.body).everyMapping p = true) (he : e ∈ b.own c) (hb : b' ∈ e.blocks) :
    (Value.mapping b'.body).everyMapping p = true := by
  have hvalue : e.value.everyMapping p = true := everyMapping_of_mem h (mem_nodeEntries.mp he).1
  obtain ⟨step, -, hstep⟩ := mem_blocks_of_mem_own he hb
  cases hstep with
  | block hv => rwa [hv] at hvalue
  | item hitems hitem =>
    exact everyMapping_of_mem_items hvalue hitems (List.mem_of_getElem? hitem)

end Blocks

/-! ## The places of the entries -/

/-- The place `p` is inside the block that stands at `outer`. -/
def Path.Inside (outer p : Path) : Prop :=
  ∃ step, outer ++ [step] <+: p

namespace Path

variable {outer outer' p q : Path} {step step' : String}

theorem Inside.length_lt (h : Inside outer p) : outer.length < p.length := by
  obtain ⟨step, hpre⟩ := h
  have hlength := hpre.length_le
  rwa [List.length_append, List.length_singleton] at hlength

theorem Inside.isPrefix (h : Inside outer p) : outer <+: p := by
  obtain ⟨step, hpre⟩ := h
  exact (List.prefix_append _ _).trans hpre

theorem inside_concat (h : outer <+: p) (step : String) : Inside outer (p ++ [step]) := by
  obtain ⟨rest, rfl⟩ := h
  cases rest with
  | nil =>
    rw [List.append_nil]
    exact ⟨step, List.prefix_rfl⟩
  | cons first rest =>
    refine ⟨first, rest ++ [step], ?_⟩
    simp

/-- A place is inside one block of those at one depth. -/
theorem eq_of_prefix (h : outer <+: p) (h' : outer' <+: p) (hlength : outer.length = outer'.length) :
    outer = outer' :=
  (List.prefix_of_prefix_length_le h h' (Nat.le_of_eq hlength)).eq_of_length hlength

/-- From one node, one step leads towards a place. -/
theorem step_eq_of_prefix (h : outer ++ [step] <+: p) (h' : outer ++ [step'] <+: p) :
    step = step' := by
  have heq := eq_of_prefix h h' (by simp)
  simpa using heq

end Path

/-! ### Of an entry in a block -/

section Places

variable {c : Config} {b b' d : TreeBlock} {e x y : Entry}

/-- Every entry inside a block stands in that block or in one further down. -/
theorem exists_own_of_mem_entries (h : x ∈ b.entries c) :
    ∃ d : TreeBlock, x ∈ d.own c ∧ d.own c ⊆ b.entries c ∧ b.path <+: d.path := by
  induction b using TreeBlock.induction c with
  | step b ih =>
    rw [TreeBlock.entries_eq] at h
    obtain ⟨e, he, hx⟩ := List.mem_flatMap.mp h
    rcases List.mem_cons.mp hx with rfl | hx
    · exact ⟨b, he, own_subset_entries, List.prefix_rfl⟩
    obtain ⟨b', hb', hx⟩ := List.mem_flatMap.mp hx
    obtain ⟨d, hd, hsubset, hpre⟩ := ih e he b' hb' hx
    obtain ⟨step, hpath, -⟩ := mem_blocks_of_mem_own he hb'
    refine ⟨d, hd, List.Subset.trans hsubset (TreeBlock.entries_infix_of_mem_own he hb').subset, ?_⟩
    exact (hpath ▸ List.prefix_append _ _).trans hpre

theorem key_of_mem_entries {p : String → Bool} (h : (Value.mapping b.body).everyKey p = true)
    (hx : x ∈ b.entries c) : p x.key = true := by
  induction b using TreeBlock.induction c with
  | step b ih =>
    rw [TreeBlock.entries_eq] at hx
    obtain ⟨e, he, hx⟩ := List.mem_flatMap.mp hx
    rcases List.mem_cons.mp hx with rfl | hx
    · exact List.all_eq_true.mp (everyMapping_self h) _ (mem_nodeEntries.mp he).1
    · obtain ⟨b', hb', hx⟩ := List.mem_flatMap.mp hx
      exact ih e he b' hb' (everyMapping_of_mem_blocks h he hb') hx

theorem inside_of_mem_entries (h : x ∈ b.entries c) : Path.Inside b.path x.path := by
  obtain ⟨d, hd, -, hpre⟩ := exists_own_of_mem_entries h
  rw [path_of_mem_own hd]
  exact Path.inside_concat hpre _

theorem inside_of_mem_blocks (h : x ∈ b.entries c) (hb : b' ∈ x.blocks) :
    Path.Inside b.path b'.path := by
  obtain ⟨d, hd, -, hpre⟩ := exists_own_of_mem_entries h
  obtain ⟨step, hpath, -⟩ := mem_blocks_of_mem_own hd hb
  rw [hpath]
  exact Path.inside_concat hpre _

theorem length_of_mem_own (h : e ∈ d.own c) : e.path.length = d.path.length + 1 := by
  rw [path_of_mem_own h, List.length_append, List.length_singleton]

/-- The blocks of an entry stand as deep as the entry. -/
theorem length_of_mem_blocks (he : e ∈ d.own c) (hb : b ∈ e.blocks) :
    b.path.length = d.path.length + 1 := by
  obtain ⟨step, hpath, -⟩ := mem_blocks_of_mem_own he hb
  rw [hpath, List.length_append, List.length_singleton]

/-- Only specs stand in a sequence. -/
theorem holdsSpecs_of_classify {key : String} {v : Value} (hv : v.isMapping = false)
    (h : classify c key v ≠ .property) : c.holdsSpecs key := by
  have hspec := classify_spec c key v
  cases hc : classify c key v with
  | modifier =>
    rw [hc] at hspec
    exact .inl hspec
  | child =>
    rw [hc] at hspec
    exact .inr hspec
  | property => exact absurd hc h
  | pseudo | breakpoint =>
    rw [hc, hv] at hspec
    cases hspec.1

theorem stepsFrom_of_mem_blocks (he : e ∈ d.own c) (hb : b ∈ e.blocks) :
    ∃ step, b.path = d.path ++ [step] ∧ c.StepsFrom e.key step := by
  obtain ⟨step, hpath, hstep⟩ := mem_blocks_of_mem_own he hb
  refine ⟨step, hpath, ?_⟩
  cases hstep with
  | block hv => exact .inl rfl
  | item hitems hitem =>
    obtain ⟨hk, -⟩ := mem_blocks hb
    rw [kind_of_mem_own he] at hk
    exact .inr ⟨holdsSpecs_of_classify (isMapping_of_sequence? (sequence?_of_items? hitems)) hk, _, rfl⟩

end Places

/-! ## The order of the entries -/

/-- The walk meets `x` before `y`: the second is below the first, or they stand apart, below
different entries of one block or in different blocks of one entry. -/
inductive Entry.Before (c : Config) (es : List Entry) (x y : Entry) : Prop where
  | below {d : TreeBlock} : x ∈ d.own c → y ∈ x.below c → Before c es x y
  | entries {d : TreeBlock} {e e' : Entry} : d.own c ⊆ es → e ∈ d.own c → e' ∈ d.own c →
      e.key ≠ e'.key → x ∈ e :: e.below c → y ∈ e' :: e'.below c → Before c es x y
  | blocks {d b b' : TreeBlock} {e : Entry} : e ∈ d.own c → b ∈ e.blocks → b' ∈ e.blocks →
      b.path ≠ b'.path → x ∈ b.entries c → y ∈ b'.entries c → Before c es x y

theorem Entry.Before.mono {c : Config} {es es' : List Entry} {x y : Entry} (h : Before c es x y)
    (hes : es ⊆ es') : Before c es' x y := by
  cases h with
  | below hx hy => exact .below hx hy
  | entries hd he he' hne hx hy => exact .entries (List.Subset.trans hd hes) he he' hne hx hy
  | blocks he hb hb' hne hx hy => exact .blocks he hb hb' hne hx hy

theorem TreeBlock.pairwise_entries {c : Config} {b : TreeBlock}
    (h : (Value.mapping b.body).hasDistinctKeys = true) :
    (b.entries c).Pairwise (Entry.Before c (b.entries c)) := by
  induction b using TreeBlock.induction c with
  | step b ih =>
    -- Within one entry of the block: the entry itself, then block after block.
    have hentry : ∀ e ∈ b.own c, (e :: e.below c).Pairwise (Entry.Before c (b.entries c)) := by
      intro e he
      refine List.pairwise_cons.mpr ⟨fun y hy => .below he hy, ?_⟩
      refine List.pairwise_flatMap.mpr ⟨fun b' hb' => ?_, ?_⟩
      · have hinside := ih e he b' hb' (everyMapping_of_mem_blocks h he hb')
        exact hinside.imp fun hxy => hxy.mono (entries_infix_of_mem_own he hb').subset
      · refine (List.pairwise_map.mp (nodup_blocks e)).imp_of_mem ?_
        intro b₁ b₂ hb₁ hb₂ hne x hx y hy
        exact .blocks he hb₁ hb₂ hne hx hy
    have hentries : (b.own c).Pairwise fun e e' => ∀ x ∈ e :: e.below c, ∀ y ∈ e' :: e'.below c,
        Entry.Before c (b.entries c) x y := by
      refine (List.pairwise_map.mp (nodup_own h)).imp_of_mem ?_
      intro e e' he he' hne x hx y hy
      exact .entries own_subset_entries he he' hne hx hy
    have hall := List.pairwise_flatMap.mpr ⟨hentry, hentries⟩
    rwa [← entries_eq] at hall

end StyleTree
