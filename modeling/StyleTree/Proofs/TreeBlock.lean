import StyleTree.Proofs.Agreement

/-!
# Blocks of a tree

An entry under a key that opens blocks has one block, or one for every spec in a sequence. The walk
takes the entries of a node one after the other, each followed by the entries of its blocks
(`entriesOf_eq`), so that it goes through a block in one piece: the entries inside a block are a
segment of those around it (`entries_infix_of_mem_treeBlocks`). A block has fewer entries than the one
around it, and what holds of a block if it holds of the blocks of its entries holds of every block
(`TreeBlock.induction`).
-/

namespace StyleTree

/-- A block of a style tree: where it stands, the kind of key that opens it, and what it holds, the
key that it uses up included. -/
structure TreeBlock where
  path : Path
  kind : KeyKind
  body : Mapping

/-- The entries inside the block, at every depth. -/
def TreeBlock.entries (c : Config) (b : TreeBlock) : List Entry :=
  entriesOf c b.kind.consumedKey b.path b.body

/-- The blocks that an entry opens. -/
def Entry.blocks (e : Entry) : List TreeBlock :=
  if e.kind = .property then []
  else (Lint.entrySpecs e).map fun (path, body) => ⟨path, e.kind, body⟩

/-- The blocks of a tree, in the order of the walk. -/
def treeBlocks (c : Config) (tree : Mapping) : List TreeBlock :=
  (entries c tree []).flatMap Entry.blocks

/-! ## Entries below a key -/

section Below

variable {c : Config} {key : String}

/-- A declaration has no entries below it. -/
theorem entriesBelow_of_property {v : Value} (h : classify c key v = .property) (path : Path) :
    entriesBelow c key path v = [] := by
  cases v with
  | mapping _ => rw [entriesBelow, h]
  | list _ | tuple _ =>
    rw [entriesBelow, h]
    rfl
  | _ => rfl

theorem entriesBelow_of_block {body : Mapping} {kind : KeyKind}
    (h : classify c key (.mapping body) = kind) (hk : kind ≠ .property) (path : Path) :
    entriesBelow c key path (.mapping body) =
      entriesOf c kind.consumedKey (path ++ [key]) body := by
  rw [entriesBelow, h]
  cases kind with
  | property => exact absurd rfl hk
  | _ => rfl

end Below

/-! ## The walk, block by block -/

/-- The entries of the node itself, without those of the blocks inside. -/
def nodeEntries (c : Config) (consumed : Option String) (path : Path) (m : Mapping) : List Entry :=
  (m.filter fun entry => consumed ≠ some entry.1).map fun entry =>
    ⟨path ++ [entry.1], entry.1, entry.2, classify c entry.1 entry.2⟩

/-- The entries of the blocks of an entry. -/
def Entry.below (c : Config) (e : Entry) : List Entry :=
  e.blocks.flatMap (TreeBlock.entries c)

section Walk

variable {c : Config} {consumed : Option String} {path : Path} {m : Mapping} {key : String}
  {b b' : TreeBlock} {e : Entry}

theorem entriesOfItems_eq {kind : SpecKind} {items : List Value} {index : Nat} :
    entriesOfItems c kind key path index items =
      (Lint.rawItems key path index items).flatMap fun found =>
        entriesOf c (some kind.field) found.1 found.2 := by
  induction items generalizing index with
  | nil => rfl
  | cons item rest ih =>
    cases item with
    | mapping raw => rw [entriesOfItems, Lint.rawItems, List.flatMap_cons, ih]
    | _ =>
      rw [entriesOfItems, Lint.rawItems]
      · exact ih
      all_goals simp

/-- What the walk finds below an entry are the entries of its blocks. -/
theorem entriesBelow_eq (v : Value) :
    entriesBelow c key path v = Entry.below c ⟨path ++ [key], key, v, classify c key v⟩ := by
  rw [Entry.below, Entry.blocks]
  by_cases hk : classify c key v = .property
  · rw [if_pos hk, entriesBelow_of_property hk]
    rfl
  rw [if_neg hk, List.flatMap_map]
  cases hitems : v.items? with
  | some items =>
    obtain ⟨kind, hkind⟩ := Option.ne_none_iff_exists'.mp fun hnone =>
      hk (classify_eq_property (isMapping_of_sequence? (sequence?_of_items? hitems)) hnone)
    rw [Lint.entrySpecs_of_items hitems, entriesBelow_of_items hitems, hkind]
    simp only [TreeBlock.entries, consumedKey_of_specKind? hkind]
    exact entriesOfItems_eq
  | none =>
    cases v with
    | mapping body =>
      rw [Lint.entrySpecs_of_mapping, List.flatMap_singleton, entriesBelow_of_block rfl hk]
      rfl
    | list _ | tuple _ => cases hitems
    | _ => rfl

/-- The walk takes the entries of a node in turn, each followed by the entries below it. -/
theorem entriesOf_eq : entriesOf c consumed path m =
    (nodeEntries c consumed path m).flatMap fun e => e :: e.below c := by
  rw [nodeEntries, List.flatMap_map]
  induction m with
  | nil => rfl
  | cons entry rest ih =>
    obtain ⟨key, v⟩ := entry
    rw [entriesOf, ih]
    by_cases h : consumed = some key
    · rw [if_pos h, List.filter_cons_of_neg (by simpa using h)]
    · rw [if_neg h, List.filter_cons_of_pos (by simpa using h), List.flatMap_cons, entriesBelow_eq,
        List.cons_append]

theorem mem_nodeEntries : e ∈ nodeEntries c consumed path m ↔ (e.key, e.value) ∈ m ∧
    consumed ≠ some e.key ∧ e.path = path ++ [e.key] ∧ e.kind = classify c e.key e.value := by
  simp only [nodeEntries, List.mem_map, List.mem_filter, decide_eq_true_eq]
  constructor
  · rintro ⟨entry, ⟨hmem, hconsumed⟩, rfl⟩
    exact ⟨hmem, hconsumed, rfl, rfl⟩
  · rintro ⟨hmem, hconsumed, hpath, hkind⟩
    refine ⟨(e.key, e.value), ⟨hmem, hconsumed⟩, ?_⟩
    rw [← hpath, ← hkind]

theorem infix_of_mem_nodeEntries (h : e ∈ nodeEntries c consumed path m) :
    e :: e.below c <:+: entriesOf c consumed path m := by
  rw [entriesOf_eq]
  exact List.infix_of_mem_flatten (List.mem_map_of_mem h)

theorem TreeBlock.entries_infix_below (h : b ∈ e.blocks) : b.entries c <:+: e.below c :=
  List.infix_of_mem_flatten (List.mem_map_of_mem h)

theorem TreeBlock.entries_infix_entriesBelow {v : Value}
    (h : b ∈ Entry.blocks ⟨path ++ [key], key, v, classify c key v⟩) :
    b.entries c <:+: entriesBelow c key path v := by
  rw [entriesBelow_eq]
  exact entries_infix_below h

/-! ### Blocks inside blocks -/

/-- The entries of the block itself. -/
def TreeBlock.own (c : Config) (b : TreeBlock) : List Entry :=
  nodeEntries c b.kind.consumedKey b.path b.body

theorem TreeBlock.entries_eq (b : TreeBlock) :
    b.entries c = (b.own c).flatMap fun e => e :: e.below c :=
  entriesOf_eq

theorem TreeBlock.entries_infix_of_mem_own (he : e ∈ b.own c) (hb : b' ∈ e.blocks) :
    b'.entries c <:+: b.entries c :=
  (List.infix_cons (entries_infix_below hb)).trans (infix_of_mem_nodeEntries he)

/-- What holds of a block if it holds of the blocks of its entries holds of every block. -/
theorem TreeBlock.induction (c : Config) {P : TreeBlock → Prop}
    (step : ∀ b : TreeBlock, (∀ e ∈ b.own c, ∀ b' ∈ e.blocks, P b') → P b) (b : TreeBlock) : P b := by
  refine step b fun e he b' hb' => ?_
  have hinside : b'.entries c <:+: e.below c := entries_infix_below hb'
  have hentry : e :: e.below c <:+: b.entries c := infix_of_mem_nodeEntries he
  have hsmaller : (b'.entries c).length < (b.entries c).length :=
    Nat.lt_of_le_of_lt hinside.length_le hentry.length_le
  exact TreeBlock.induction c step b'
termination_by (b.entries c).length
decreasing_by exact hsmaller

end Walk

/-! ## Entries and what follows them -/

/-- The entry has the kind that its key stands for, and in `es` it is followed by the entries of its
blocks. -/
def Entry.Among (c : Config) (e : Entry) (es : List Entry) : Prop :=
  ∃ path, e = ⟨path ++ [e.key], e.key, e.value, classify c e.key e.value⟩ ∧
    e :: entriesBelow c e.key path e.value <:+: es

theorem Entry.Among.mono {c : Config} {e : Entry} {es es' : List Entry} (h : e.Among c es)
    (hes : es <:+: es') : e.Among c es' := by
  obtain ⟨path, he, hbelow⟩ := h
  exact ⟨path, he, hbelow.trans hes⟩

section Among

variable {c : Config} {consumed : Option String} {path : Path} {m : Mapping} {e : Entry}

theorem among_of_mem_nodeEntries (h : e ∈ nodeEntries c consumed path m) :
    e.Among c (entriesOf c consumed path m) := by
  obtain ⟨-, -, hpath, hkind⟩ := mem_nodeEntries.mp h
  have heq : e = ⟨path ++ [e.key], e.key, e.value, classify c e.key e.value⟩ := by
    rw [← hpath, ← hkind]
  refine ⟨path, heq, ?_⟩
  rw [entriesBelow_eq, ← heq]
  exact infix_of_mem_nodeEntries h

theorem among_of_blocks (h : ∀ e ∈ nodeEntries c consumed path m, ∀ b ∈ e.blocks,
    ∀ x ∈ b.entries c, x.Among c (b.entries c)) :
    ∀ e ∈ entriesOf c consumed path m, e.Among c (entriesOf c consumed path m) := by
  intro x hx
  rw [entriesOf_eq] at hx
  obtain ⟨e, he, hx⟩ := List.mem_flatMap.mp hx
  rcases List.mem_cons.mp hx with rfl | hx
  · exact among_of_mem_nodeEntries he
  · obtain ⟨b, hb, hx⟩ := List.mem_flatMap.mp hx
    exact (h e he b hb x hx).mono
      ((List.infix_cons (TreeBlock.entries_infix_below hb)).trans (infix_of_mem_nodeEntries he))

theorem TreeBlock.among_entries (b : TreeBlock) :
    ∀ e ∈ b.entries c, e.Among c (b.entries c) := by
  induction b using TreeBlock.induction c with
  | step b ih => exact among_of_blocks ih

theorem among_entriesOf (c : Config) (m : Mapping) (consumed : Option String) (path : Path) :
    ∀ e ∈ entriesOf c consumed path m, e.Among c (entriesOf c consumed path m) :=
  among_of_blocks fun _ _ b _ => b.among_entries

end Among

/-! ## Entries inside a block -/

/-- The entries inside a block are a segment of the entries of the tree. -/
theorem entries_infix_of_mem_treeBlocks {c : Config} {tree : Mapping} {b : TreeBlock}
    (h : b ∈ treeBlocks c tree) : b.entries c <:+: entries c tree [] := by
  obtain ⟨e, he, hb⟩ := List.mem_flatMap.mp h
  obtain ⟨path, heq, hbelow⟩ := among_entriesOf c tree none [] e he
  rw [heq] at hb
  exact (List.infix_cons (TreeBlock.entries_infix_entriesBelow hb)).trans hbelow

/-- The blocks inside the block, at every depth. -/
def TreeBlock.inner (c : Config) (b : TreeBlock) : List TreeBlock :=
  (b.entries c).flatMap Entry.blocks

/-- No error is found about the entries. -/
def Lint.Clean (c : Config) (es : List Entry) : Prop :=
  ∀ e ∈ es, ∀ p, ¬ ErrorAt c e p

namespace Lint

variable {c : Config} {es es' : List Entry}

theorem Clean.mono (h : Clean c es) (hes : es' <:+: es) : Clean c es' :=
  fun e he => h e (hes.subset he)

end Lint

namespace WellFormed

variable {c : Config} {tree : Mapping}

/-- The checks of an entry along the walk succeed. -/
theorem checked (h : WellFormed c tree) {e : Entry} (he : e ∈ walked c tree) : e.Checked c := by
  obtain ⟨items, hitems⟩ := h
  exact checked_visitsOf c tree none [] 0 items hitems e he

theorem itemsAt_eq_ok (h : WellFormed c tree) {e : Entry} (he : e ∈ walked c tree) :
    ∃ path items, e.path = path ++ [e.key] ∧ itemsAt c e.key path e.value = .ok items := by
  obtain ⟨path, items, heq, hitems⟩ := h.checked he
  exact ⟨path, items, congrArg Entry.path heq, hitems⟩

end WellFormed

/-! ## Trees without hidden specs -/

theorem NothingHidden.mono {es es' : List Entry} (h : NothingHidden es) (hes : es' <:+: es) :
    NothingHidden es' :=
  fun e he => h e (hes.subset he)

/-- A checked entry without hidden specs has its specs in a list or a tuple. -/
theorem Entry.Checked.listed {c : Config} {e : Entry} (h : e.Checked c)
    (hhidden : e.hidesSpecs = false) : e.Listed := by
  obtain ⟨path, items, heq, hitems⟩ := h
  intro hspec
  obtain ⟨kind, hk⟩ := Option.ne_none_iff_exists'.mp hspec
  cases hv : e.value with
  | sequence type values =>
    have hclass : (classify c e.key e.value).specKind? = some kind := by
      rw [← hk, congrArg Entry.kind heq]
    have hsequence : e.value.sequence? = some values := by
      rw [hv]
      rfl
    rw [itemsAt_of_items hsequence, hclass] at hitems
    simp only [bind_eq_ok, mapError_eq_ok] at hitems
    obtain ⟨specs, hspecs, -⟩ := hitems
    obtain ⟨hne, hall, -⟩ := specs_eq_ok hsequence hspecs
    rw [hidesSpecs_of_sequence hv hk hne hall] at hhidden
    cases hhidden
  | _ => rfl

end StyleTree
