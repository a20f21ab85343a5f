import StyleTree.Proofs.Cascade
import StyleTree.Proofs.ModifierNames
import StyleTree.Proofs.NodeChange

/-!
# Declarations and rules do not depend on how they interleave

What a node comes to are two lists, its declarations and its blocks, and most entries add to one of
them only: a declaration has no blocks, and a scope or a wrapped breakpoint no declarations. Only a
merged breakpoint has both. So the entries of a node can be put in another order as long as the order
is kept among those that feed the declarations and among those that feed the rules
(`entrySheet_declarations`, `entrySheet_blocks`); the key that a block uses up may stand anywhere. A
tree with its nodes so rearranged compiles to the same output (`compile_interleaved`).
-/

namespace StyleTree

/-! ## What entries feed -/

/-- The entry adds to the declarations of its node: it is a declaration, or a breakpoint that the
context implies. -/
def feedsDeclarations (c : Config) (consumed context : Option String) (entry : String × Value) :
    Bool :=
  consumed ≠ some entry.1 &&
    match classify c entry.1 entry.2 with
    | .property => true
    | .breakpoint => c.breakpoints.covers context entry.1
    | _ => false

/-- The entry adds to the rules: it is anything but a declaration. -/
def feedsRules (c : Config) (consumed : Option String) (entry : String × Value) : Bool :=
  consumed ≠ some entry.1 && classify c entry.1 entry.2 ≠ .property

/-- The entries of a node in another order, in which those that feed the declarations have kept
theirs, and those that feed the rules. -/
structure Interleaves (c : Config) (consumed context : Option String) (m m' : Mapping) : Prop where
  perm : m.Perm m'
  /-- The keys of a node are distinct. -/
  nodup : (m.map Prod.fst).Nodup
  declarations : m.filter (feedsDeclarations c consumed context) =
    m'.filter (feedsDeclarations c consumed context)
  rules : m.filter (feedsRules c consumed) = m'.filter (feedsRules c consumed)

/-! ## Entries that add nothing -/

def Item.IsScope (item : Item) : Prop :=
  ∃ suffix body, item = .scope suffix body

section Entries

variable {c : Config} {consumed context : Option String} {scope key : String} {v : Value}
  {entry : String × Value} {items : List Item} {s : Sheet}

theorem forall_mem_of_forall₂ {α β : Type} {R : α → β → Prop} {P : β → Prop} {as : List α}
    {bs : List β} (h : List.Forall₂ R as bs) (hP : ∀ a b, R a b → P b) : ∀ b ∈ bs, P b := by
  induction h with
  | nil => nofun
  | cons hab _ ih => exact List.forall_mem_cons.mpr ⟨hP _ _ hab, ih⟩

/-- What is neither a declaration nor a breakpoint is read as scopes. -/
theorem isScope_of_entryItems? (h : entryItems? c key v = some items)
    (hproperty : classify c key v ≠ .property) (hmedia : classify c key v ≠ .breakpoint) :
    ∀ item ∈ items, item.IsScope := by
  cases hk : (classify c key v).specKind? with
  | some kind =>
    obtain ⟨specs, -, hscopes⟩ := itemsAt_specs hk (toOption_eq_some.mp h)
    exact forall_mem_of_forall₂ hscopes fun _ _ ⟨inner, hitem⟩ => ⟨_, inner, hitem⟩
  | none =>
    cases hc : classify c key v with
    | property => exact absurd hc hproperty
    | breakpoint => exact absurd hc hmedia
    | modifier | child =>
      rw [hc] at hk
      cases hk
    | pseudo =>
      obtain ⟨body, rfl⟩ := mapping_of_classify (.inl hc)
      rw [entryItems?_scope hc rfl] at h
      obtain ⟨suffix, -, h⟩ := Option.bind_eq_some_iff.mp h
      obtain ⟨inner, -, rfl⟩ := Option.map_eq_some_iff.mp h
      exact List.forall_mem_singleton.mpr ⟨_, _, rfl⟩

theorem declarations_of_scopes {g : Setting} (hitems : ∀ item ∈ items, item.IsScope)
    (h : sheetOf g scope context items = .ok s) : s.declarations = [] := by
  induction items generalizing s with
  | nil =>
    cases h
    rfl
  | cons item rest ih =>
    obtain ⟨⟨suffix, body, rfl⟩, hrest⟩ := List.forall_mem_cons.mp hitems
    rw [sheetOf] at h
    obtain ⟨first, hfirst, h⟩ := bind_eq_ok.mp h
    obtain ⟨others, hothers, h⟩ := bind_eq_ok.mp h
    obtain ⟨inner, -, hfirst⟩ := bind_eq_ok.mp hfirst
    cases hfirst
    cases h
    rw [Sheet.declarations_append, ih hrest hothers]
    rfl

/-- A breakpoint block that is not implied has no declarations for the scope around it. -/
theorem declarations_of_wrapped {g : Setting} {name : String} {body : List Item}
    (hcovers : g.registry.covers context name = false)
    (h : sheetOf g scope context [.media name body] = .ok s) : s.declarations = [] := by
  rw [sheetOf_singleton, sheetOfItem] at h
  obtain ⟨implied, himplied, h⟩ := bind_eq_ok.mp h
  rw [Registry.covers, himplied] at hcovers
  cases hcovers
  obtain ⟨inner, -, h⟩ := bind_eq_ok.mp h
  obtain ⟨b, -, h⟩ := bind_eq_ok.mp h
  cases h
  rfl

/-- The sheet of an entry of a node, which is empty for the key that the block uses up. -/
def entrySheet (c : Config) (consumed : Option String) (scope : String) (context : Option String)
    (entry : String × Value) : Sheet :=
  if consumed = some entry.1 then .empty
  else ((entryItems? c entry.1 entry.2).bind fun items =>
    (sheetOf c.setting scope context items).toOption).getD .empty

theorem entrySheet_of_consumed (h : consumed = some entry.1) :
    entrySheet c consumed scope context entry = .empty :=
  if_pos h

theorem entrySheet_eq (hconsumed : consumed ≠ some key) (h : entryItems? c key v = some items)
    (hs : sheetOf c.setting scope context items = .ok s) :
    entrySheet c consumed scope context (key, v) = s := by
  rw [entrySheet, if_neg hconsumed, h, Option.bind_some, toOption_eq_some.mpr hs, Option.getD_some]

/-- An entry has no sheet, or is read as items that have one. -/
theorem entrySheet_eq_empty_or (c : Config) (consumed : Option String) (scope : String)
    (context : Option String) (entry : String × Value) :
    entrySheet c consumed scope context entry = .empty ∨
      consumed ≠ some entry.1 ∧ ∃ items s, entryItems? c entry.1 entry.2 = some items ∧
        sheetOf c.setting scope context items = .ok s ∧
        entrySheet c consumed scope context entry = s := by
  by_cases hconsumed : consumed = some entry.1
  · exact .inl (entrySheet_of_consumed hconsumed)
  · cases hitems : entryItems? c entry.1 entry.2 with
    | none => exact .inl (by rw [entrySheet, if_neg hconsumed, hitems]; rfl)
    | some items =>
      cases hs : sheetOf c.setting scope context items with
      | error u =>
        exact .inl (by rw [entrySheet, if_neg hconsumed, hitems, Option.bind_some, hs]; rfl)
      | ok s => exact .inr ⟨hconsumed, items, s, rfl, hs, entrySheet_eq hconsumed hitems hs⟩

theorem entrySheet_declarations (h : feedsDeclarations c consumed context entry = false) :
    (entrySheet c consumed scope context entry).declarations = [] := by
  rcases entrySheet_eq_empty_or c consumed scope context entry with
    hempty | ⟨hconsumed, items, s, hitems, hs, hsheet⟩
  · rw [hempty]
    rfl
  rw [hsheet]
  obtain ⟨key, v⟩ := entry
  simp only [feedsDeclarations, ne_eq, hconsumed, not_false_eq_true, decide_true,
    Bool.true_and] at h
  cases hc : classify c key v with
  | property =>
    rw [hc] at h
    cases h
  | breakpoint =>
    rw [hc] at h
    obtain ⟨body, rfl⟩ := mapping_of_classify (.inr hc)
    rw [entryItems?_media hc] at hitems
    obtain ⟨inner, -, rfl⟩ := Option.map_eq_some_iff.mp hitems
    exact declarations_of_wrapped h hs
  | pseudo | modifier | child =>
    refine declarations_of_scopes (isScope_of_entryItems? hitems ?_ ?_) hs
    all_goals simp [hc]

theorem entrySheet_blocks (h : feedsRules c consumed entry = false) :
    (entrySheet c consumed scope context entry).blocks = [] := by
  rcases entrySheet_eq_empty_or c consumed scope context entry with
    hempty | ⟨hconsumed, items, s, hitems, hs, hsheet⟩
  · rw [hempty]
    rfl
  rw [hsheet]
  have hclass : classify c entry.1 entry.2 = .property := by
    simpa [feedsRules, hconsumed] using h
  rw [entryItems?_of_property hclass] at hitems
  obtain ⟨d, -, rfl⟩ := Option.map_eq_some_iff.mp hitems
  cases hs
  rfl

end Entries

/-! ## The sheet of a node -/

section Nodes

variable {c : Config} {consumed context : Option String} {scope : String} {m m' : Mapping}
  {items : List Item}

/-- The sheet of a node is put together from the sheets of its entries. -/
theorem sheet_eq_flatMap {s : Sheet} (h : nodeItems? c consumed m = some items)
    (hs : sheetOf c.setting scope context items = .ok s) :
    s = ⟨m.flatMap fun entry => (entrySheet c consumed scope context entry).declarations,
      m.flatMap fun entry => (entrySheet c consumed scope context entry).blocks⟩ := by
  induction m generalizing items s with
  | nil =>
    cases h
    cases hs
    rfl
  | cons entry rest ih =>
    obtain ⟨key, v⟩ := entry
    rw [nodeItems?_cons] at h
    split at h
    · rename_i hconsumed
      simp only [List.flatMap_cons]
      rw [entrySheet_of_consumed hconsumed]
      exact ih h hs
    · rename_i hconsumed
      obtain ⟨first, hfirst, h⟩ := Option.bind_eq_some_iff.mp h
      obtain ⟨others, hothers, h⟩ := Option.bind_eq_some_iff.mp h
      cases h
      rw [sheetOf_append] at hs
      obtain ⟨sheet, hsheet, hs⟩ := bind_eq_ok.mp hs
      obtain ⟨more, hmore, hs⟩ := bind_eq_ok.mp hs
      cases hs
      simp only [List.flatMap_cons]
      rw [entrySheet_eq hconsumed hfirst hsheet, ih hothers hmore]
      rfl

/-- Of the entries, those count for the declarations that feed them. -/
theorem flatMap_declarations (m : Mapping) :
    (m.flatMap fun entry => (entrySheet c consumed scope context entry).declarations) =
      (m.filter (feedsDeclarations c consumed context)).flatMap fun entry =>
        (entrySheet c consumed scope context entry).declarations :=
  (flatMap_filter_of_eq_nil fun _ _ => entrySheet_declarations).symm

/-- And those for the blocks that feed the rules. -/
theorem flatMap_blocks (m : Mapping) :
    (m.flatMap fun entry => (entrySheet c consumed scope context entry).blocks) =
      (m.filter (feedsRules c consumed)).flatMap fun entry =>
        (entrySheet c consumed scope context entry).blocks :=
  (flatMap_filter_of_eq_nil fun _ _ => entrySheet_blocks).symm

/-- A well-formed node has a sheet in a known context. -/
theorem exists_sheetOf (hcontext : c.breakpoints.Admits context)
    (h : nodeItems? c consumed m = some items) (scope : String) :
    ∃ s, sheetOf c.setting scope context items = .ok s :=
  ⟨_, sheetOf_eq_gather c.setting items 0 scope hcontext
    (known_visitsOfItems (toOption_eq_some.mp h))⟩

theorem isSome_nodeItems? : (nodeItems? c consumed m).isSome ↔
    ∀ entry ∈ m, consumed ≠ some entry.1 → (entryItems? c entry.1 entry.2).isSome := by
  induction m with
  | nil => exact ⟨nofun, fun _ => rfl⟩
  | cons entry rest ih =>
    obtain ⟨key, v⟩ := entry
    rw [nodeItems?_cons, List.forall_mem_cons, ← ih]
    split
    · rename_i hconsumed
      simp [hconsumed]
    · rename_i hconsumed
      cases entryItems? c key v <;> cases nodeItems? c consumed rest <;> simp [hconsumed]

theorem Mapping.get?_perm {field : String} (h : m.Perm m') (hnodup : (m.map Prod.fst).Nodup) :
    m.get? field = m'.get? field := by
  induction h with
  | nil => rfl
  | cons entry _ ih =>
    have ih := ih (List.nodup_cons.mp hnodup).2
    rw [get?, get?] at ih
    rw [get?, get?, List.lookup_cons, List.lookup_cons, ih]
  | swap entry entry' rest =>
    obtain ⟨key, v⟩ := entry
    obtain ⟨key', v'⟩ := entry'
    have hne : key' ≠ key := fun heq =>
      (List.nodup_cons.mp hnodup).1 (heq ▸ List.mem_cons_self)
    by_cases hkey : key = field
    · subst hkey
      rw [get?_cons_of_ne hne, get?, get?, List.lookup_cons_self, List.lookup_cons_self]
    · rw [← List.singleton_append, get?_append, get?_cons_of_ne hkey, get?_cons_of_ne hkey,
        ← get?_append, List.singleton_append]
  | trans h _ ih ih' => exact (ih hnodup).trans (ih' ((h.map _).nodup_iff.mp hnodup))

end Nodes

theorem keeps_interleaves (c : Config) : Change.Keeps c (Interleaves c) where
  get?_eq _ h := Mapping.get?_perm h.perm h.nodup
  sameSheets hcontext hnode h := by
    obtain ⟨items, hitems⟩ := Option.isSome_iff_exists.mp hnode
    have hnode' := isSome_nodeItems?.mpr fun entry hentry =>
      isSome_nodeItems?.mp hnode entry (h.perm.mem_iff.mpr hentry)
    obtain ⟨items', hitems'⟩ := Option.isSome_iff_exists.mp hnode'
    rw [hitems, hitems']
    refine .some fun scope => ?_
    obtain ⟨s, hs⟩ := exists_sheetOf hcontext hitems scope
    obtain ⟨s', hs'⟩ := exists_sheetOf hcontext hitems' scope
    rw [hs, hs', sheet_eq_flatMap hitems hs, sheet_eq_flatMap hitems' hs',
      flatMap_declarations, flatMap_blocks, h.declarations, h.rules, ← flatMap_declarations,
      ← flatMap_blocks]

/-- With the entries of its nodes in another order, in which declarations and rules have kept theirs,
a tree that compiles compiles to the same output. -/
theorem compile_interleaved {c : Config} {tree tree' : Mapping} {scope context : Option String}
    {o : Output}
    (h : Relation.ReflTransGen (Change.Within c (Interleaves c) none context) tree tree')
    (hcompile : compile c (.mapping tree) scope context = .ok o) :
    compile c (.mapping tree') scope context = .ok o :=
  (keeps_interleaves c).compile_steps h hcompile

/-- The sample tree with the scope in front of the declaration next to it, and the breakpoint block
in front of the other. -/
def interleavedTree : Mapping :=
  [("tablet", .mapping
     [("hover", .mapping [("margin", .number (.int 3))]),
      ("lineHeight", .number (.int 2)),
      ("small", .mapping [("width", .text "1px")])]),
   ("color", .text "red")]

theorem compile_interleaved_sample :
    Relation.ReflTransGen (Change.Within .standard (Interleaves .standard) none none) sampleTree
        interleavedTree ∧
      compile .standard (.mapping interleavedTree) none none = .ok sampleOutput := by
  have hbody : Interleaves .standard none (some "tablet")
      [("lineHeight", .number (.int 2)),
        ("hover", .mapping [("margin", .number (.int 3))]),
        ("small", .mapping [("width", .text "1px")])]
      [("hover", .mapping [("margin", .number (.int 3))]),
        ("lineHeight", .number (.int 2)),
        ("small", .mapping [("width", .text "1px")])] :=
    ⟨.swap _ _ _, by decide, rfl, rfl⟩
  have hinner := @Change.Within.block .standard (Interleaves .standard) none none "tablet"
    [("color", .text "red")] _ _ [] nofun nofun (.here hbody)
  have houter : Interleaves .standard none none _ interleavedTree :=
    ⟨.swap ("tablet", _) ("color", _) [], by decide, rfl, rfl⟩
  have hsteps := (Relation.ReflTransGen.single hinner).tail (.here houter)
  exact ⟨hsteps, compile_interleaved hsteps compile_sampleTree⟩

end StyleTree
