import StyleTree.Proofs.Reading
import StyleTree.Proofs.TreeBlock

/-!
# Blocks reported as empty

A block is reported as empty when it has no key but one that is not counted as content. The compiler
leaves out the key that a block uses up, and for pseudo blocks and specs that is the key not counted:
such a block, if it is reported, has no entries, and it comes to nothing in every scope and context.
A breakpoint block uses up no key, but `param` is not counted there either. So a breakpoint block
that holds `param` is reported, although the compiler writes what stands there
(`emptyBlocks_param_written`); apart from these blocks a report is right (`emptyBlocks_sound`).
-/

namespace StyleTree

/-- The sheet of what stands in the block, for the scope and the context inside it. -/
def TreeBlock.sheet (c : Config) (scope : String) (context : Option String) (b : TreeBlock) :
    Except CompileError Sheet := do
  let items ← itemsOf c b.kind.consumedKey b.path b.body
  (sheetOf c.setting scope context items).mapError .unknownBreakpoint

section Content

variable {c : Config} {b : TreeBlock}

/-- A node has no entries exactly if it has nothing but the key that its block uses up. -/
theorem entriesOf_eq_nil {consumed : Option String} {path : Path} {m : Mapping} :
    entriesOf c consumed path m = [] ↔ ∀ entry ∈ m, consumed = some entry.1 := by
  induction m with
  | nil => exact ⟨fun _ _ h => absurd h List.not_mem_nil, fun _ => rfl⟩
  | cons entry rest ih =>
    obtain ⟨key, v⟩ := entry
    rw [entriesOf, List.forall_mem_cons]
    by_cases h : consumed = some key
    · rw [if_pos h, ih, and_iff_right h]
    · rw [if_neg h]
      exact ⟨fun hnil => absurd hnil (List.cons_ne_nil _ _), fun hall => absurd hall.1 h⟩

/-- A block without entries comes to nothing, whatever the scope and the context. -/
theorem TreeBlock.sheet_of_entries_eq_nil (h : b.entries c = []) (scope : String)
    (context : Option String) : b.sheet c scope context = .ok .empty := by
  have hitems : itemsOf c b.kind.consumedKey b.path b.body = .ok [] := by
    rw [← toOption_eq_some, toOption_itemsOf]
    exact nodeItems?_of_consumed (entriesOf_eq_nil.mp h)
  rw [sheet, hitems]
  rfl

end Content

namespace Lint

/-- The key of a block that is not counted as content. -/
def uncountedKey : KeyKind → String
  | .modifier => SpecKind.modifier.field
  | .child => SpecKind.child.field
  | .pseudo | .breakpoint | .property => Pseudo.paramKey

/-- The block is reported as empty. -/
def isReported (b : TreeBlock) : Bool :=
  isEmptyBody (uncountedKey b.kind) b.body

variable {c : Config} {tree : Mapping} {e : Entry} {b : TreeBlock}

/-! ## What is reported -/

theorem openedBlocks_eq (h : e ∈ entries c tree []) :
    openedBlocks e = e.blocks.map fun b => (b.path, b.body, uncountedKey b.kind) := by
  obtain ⟨path, heq, -⟩ := among_entriesOf c tree none [] e h
  generalize e.key = key at heq
  generalize e.value = v at heq
  subst heq
  rw [Entry.blocks]
  cases hk : classify c key v with
  | property => rfl
  | modifier | child =>
    rw [if_neg (by simp), List.map_map]
    rfl
  | pseudo | breakpoint =>
    have hblock : classify c key v = .pseudo ∨ classify c key v = .breakpoint := by simp [hk]
    obtain ⟨body, rfl⟩ := mapping_of_classify hblock
    rw [if_neg (by simp), entrySpecs_of_mapping]
    rfl

theorem check_emptyBlocks (h : e ∈ entries c tree []) :
    emptyBlocks.check c e = (e.blocks.filter isReported).map fun b =>
      Finding.report emptyBlocks.name (b.path, .emptyBlock) := by
  have hfound : ((openedBlocks e).filterMap fun found =>
      if isEmptyBody found.2.2 found.2.1 then some (found.1, Finding.emptyBlock) else none) =
        (e.blocks.filter isReported).map fun b => (b.path, .emptyBlock) := by
    rw [openedBlocks_eq h, List.filterMap_map, ← List.filterMap_eq_filter, List.map_filterMap]
    refine List.filterMap_congr fun b _ => ?_
    show (if isReported b then some (b.path, Finding.emptyBlock) else none) =
      (Option.guard isReported b).map fun b => (b.path, .emptyBlock)
    rw [Option.guard]
    cases isReported b <;> rfl
  exact (congrArg (List.map (Finding.report _)) hfound).trans List.map_map

/-- The rule reports the blocks that have nothing but the key that is not counted. -/
theorem run_emptyBlocks (c : Config) (tree : Mapping) :
    emptyBlocks.run c tree = ((treeBlocks c tree).filter isReported).map fun b =>
      Finding.report emptyBlocks.name (b.path, .emptyBlock) := by
  rw [Rule.run, treeBlocks, List.filter_flatMap, List.map_flatMap]
  exact List.flatMap_congr fun e he => check_emptyBlocks he

theorem isReported_eq_true : isReported b = true ↔ ∀ entry ∈ b.body, entry.1 = uncountedKey b.kind := by
  rw [isReported, isEmptyBody, List.all_eq_true]
  exact forall₂_congr fun entry _ => beq_iff_eq

/-! ## When a report is right -/

theorem kind_ne_property_of_mem_treeBlocks (h : b ∈ treeBlocks c tree) : b.kind ≠ .property := by
  obtain ⟨e, -, hb⟩ := List.mem_flatMap.mp h
  rw [Entry.blocks] at hb
  split at hb
  · cases hb
  · rename_i hk
    obtain ⟨found, -, rfl⟩ := List.mem_map.mp hb
    exact hk

/-- The key that is not counted is the one that the block uses up, but for breakpoint blocks. -/
theorem consumedKey_eq_uncountedKey {k : KeyKind} (hp : k ≠ .property) (hb : k ≠ .breakpoint) :
    k.consumedKey = some (uncountedKey k) := by
  cases k with
  | property => exact absurd rfl hp
  | breakpoint => exact absurd rfl hb
  | _ => rfl

/-- A reported block has no entries exactly if it is no breakpoint block that holds `param`. -/
theorem entries_eq_nil_of_isReported (hkind : b.kind ≠ .property) (h : isReported b = true) :
    b.entries c = [] ↔ (b.kind = .breakpoint → b.body.get? Pseudo.paramKey = none) := by
  rw [isReported_eq_true] at h
  rw [TreeBlock.entries, entriesOf_eq_nil]
  by_cases hb : b.kind = .breakpoint
  · rw [hb] at h ⊢
    simp only [forall_const, Mapping.get?_eq_none]
    constructor
    · intro hnone entry hentry
      cases hnone entry hentry
    · intro hfree entry hentry
      exact absurd (h entry hentry) (hfree entry hentry)
  · rw [consumedKey_eq_uncountedKey hkind hb]
    exact ⟨fun _ hbreakpoint => absurd hbreakpoint hb, fun _ entry hentry => by rw [h entry hentry]⟩

/-- The rule reports the blocks with no key but the one that is not counted. A reported block that
is no breakpoint block with `param` in it has no entries, and so no declarations, and it comes to
nothing in every scope and context. -/
theorem emptyBlocks_sound (c : Config) (tree : Mapping) :
    emptyBlocks.run c tree = (((treeBlocks c tree).filter isReported).map fun b =>
      Finding.report emptyBlocks.name (b.path, .emptyBlock)) ∧
    (∀ b ∈ treeBlocks c tree, b.entries c <:+: entries c tree []) ∧
    ∀ b ∈ treeBlocks c tree, isReported b = true →
      ((b.kind = .breakpoint → b.body.get? Pseudo.paramKey = none) ↔ b.entries c = []) ∧
      ((b.kind = .breakpoint → b.body.get? Pseudo.paramKey = none) →
        ∀ scope context, b.sheet c scope context = .ok .empty) := by
  refine ⟨run_emptyBlocks c tree, fun b => entries_infix_of_mem_treeBlocks, fun b hb hreported => ?_⟩
  have hiff := entries_eq_nil_of_isReported (c := c) (kind_ne_property_of_mem_treeBlocks hb) hreported
  exact ⟨hiff.symm, fun hfree => b.sheet_of_entries_eq_nil (hiff.mpr hfree)⟩

/-- A pseudo block with nothing but its parameter, a breakpoint block without entries, and a spec
with nothing but its name. -/
def reportedTree : Mapping :=
  [("nthChild", .mapping [("param", .text "2n")]),
   ("tablet", .mapping []),
   ("class", .list [.mapping [("name", .text "on")]])]

def reportedBlock : TreeBlock :=
  ⟨["nthChild"], .pseudo, [("param", .text "2n")]⟩

theorem emptyBlocks_sound_sample :
    (emptyBlocks.run .standard reportedTree).map Diagnostic.path =
        [["nthChild"], ["tablet"], ["class[0]"]] ∧
      reportedBlock ∈ treeBlocks .standard reportedTree ∧ isReported reportedBlock = true ∧
      reportedBlock.entries .standard = [] ∧
      ∀ scope context, reportedBlock.sheet .standard scope context = .ok .empty := by
  obtain ⟨-, -, hblocks⟩ := emptyBlocks_sound .standard reportedTree
  have hmem : reportedBlock ∈ treeBlocks .standard reportedTree := List.mem_cons_self
  obtain ⟨hentries, hsheet⟩ := hblocks reportedBlock hmem rfl
  exact ⟨rfl, hmem, rfl, hentries.mp nofun, hsheet nofun⟩

/-- A breakpoint block that holds `param` is reported, and what stands there is written. -/
theorem emptyBlocks_param_written :
    emptyBlocks.run .standard [("tablet", .mapping [("param", .text "red")])] =
        [Finding.report emptyBlocks.name (["tablet"], .emptyBlock)] ∧
      (∃ b ∈ treeBlocks .standard [("tablet", .mapping [("param", .text "red")])],
        b.path = ["tablet"] ∧ b.entries .standard ≠ []) ∧
      compile .standard (.mapping [("tablet", .mapping [("param", .text "red")])]) none none =
        .ok ⟨"", ["@media print, only screen and (min-width: 768px)\x7bparam:red;\x7d"]⟩ :=
  ⟨rfl, ⟨_, List.mem_cons_self, rfl, List.cons_ne_nil _ _⟩, rfl⟩

end Lint

end StyleTree
