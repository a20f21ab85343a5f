import Mathlib.Data.List.Perm.Basic
import StyleTree.Proofs.WalkOrder

/-!
# Each error has its own location

Of the built-in rules one alone can report errors about an entry (`name_of_errs`), and it reports
them at different places. All of these places are the entry's own: its path, one of its blocks, or
the parameter that its block keeps for itself (`Entry.Locates`). Two entries have no such place in
common unless a key has the form of a step to an item of specs (`not_locates_of_before`), so that the
errors of a tree are at different places (`nodup_error_paths`).
-/

namespace StyleTree

/-! ## The places of an entry -/

/-- The place belongs to the entry: it is the entry's own, or that of a block of it, or that of the
parameter in its block. -/
def Entry.Locates (e : Entry) (p : Path) : Prop :=
  p = e.path ∨ (∃ b ∈ e.blocks, b.path = p) ∨ e.kind = .pseudo ∧ p = e.path ++ [Pseudo.paramKey]

section Places

variable {c : Config} {b d : TreeBlock} {e x y : Entry} {es : List Entry} {p : Path}

theorem inside_of_locates (hx : x ∈ b.entries c) (hp : x.Locates p) : Path.Inside b.path p := by
  rcases hp with rfl | ⟨b', hb', rfl⟩ | ⟨-, rfl⟩
  · exact inside_of_mem_entries hx
  · exact inside_of_mem_blocks hx hb'
  · exact Path.inside_concat (inside_of_mem_entries hx).isPrefix _

/-- A place of an entry, or of one below it, is reached by a step from the key of that entry. -/
theorem exists_step_of_locates (he : e ∈ d.own c) (hx : x ∈ e :: e.below c) (hp : x.Locates p) :
    ∃ step, c.StepsFrom e.key step ∧ d.path ++ [step] <+: p := by
  rcases List.mem_cons.mp hx with rfl | hx
  · rcases hp with rfl | ⟨b, hb, rfl⟩ | ⟨-, rfl⟩
    · exact ⟨x.key, .inl rfl, path_of_mem_own he ▸ List.prefix_rfl⟩
    · obtain ⟨step, hpath, hstep⟩ := stepsFrom_of_mem_blocks he hb
      exact ⟨step, hstep, hpath ▸ List.prefix_rfl⟩
    · exact ⟨x.key, .inl rfl, path_of_mem_own he ▸ List.prefix_append _ _⟩
  · obtain ⟨b, hb, hx⟩ := List.mem_flatMap.mp hx
    obtain ⟨step, hpath, hstep⟩ := stepsFrom_of_mem_blocks he hb
    exact ⟨step, hstep, hpath ▸ (inside_of_locates hx hp).isPrefix⟩

/-- The parameter of a block is no place of an entry in the block: its key is used up. -/
theorem not_locates_param (hb : b.kind = .pseudo) (hx : x ∈ b.entries c) :
    ¬ x.Locates (b.path ++ [Pseudo.paramKey]) := by
  intro hp
  rw [TreeBlock.entries_eq] at hx
  obtain ⟨e, he, hx⟩ := List.mem_flatMap.mp hx
  obtain ⟨step, hstep, hpre⟩ := exists_step_of_locates he hx hp
  obtain rfl := Path.step_eq_of_prefix hpre List.prefix_rfl
  rcases hstep with hkey | ⟨hspecs, index, hitem⟩
  · have hconsumed := (mem_nodeEntries.mp he).2.1
    rw [hb, ← hkey] at hconsumed
    exact hconsumed rfl
  · have hparam : c.namesItem Pseudo.paramKey = false :=
      Config.namesItem_of_getLast? (by decide)
    rw [Config.namesItem_eq_true.mpr ⟨e.key, index, hspecs, hitem⟩] at hparam
    cases hparam

/-- Two entries have no place in common. -/
theorem not_locates_of_before (hplain : ∀ e ∈ es, c.namesItem e.key = false)
    (h : Entry.Before c es x y) (hx : x.Locates p) : ¬ y.Locates p := by
  intro hy
  cases h with
  | @below d hown hbelow =>
    obtain ⟨b, hb, hmem⟩ := List.mem_flatMap.mp hbelow
    have hinside := inside_of_locates hmem hy
    have hdeeper := hinside.length_lt
    have hblock := length_of_mem_blocks hown hb
    have hentry := length_of_mem_own hown
    rcases hx with rfl | ⟨b', hb', rfl⟩ | ⟨hk, rfl⟩
    · omega
    · have hblock' := length_of_mem_blocks hown hb'
      omega
    · have hpath : b.path = x.path := Path.eq_of_prefix hinside.isPrefix (List.prefix_append _ _)
        (hblock.trans hentry.symm)
      rw [← hpath] at hy
      exact not_locates_param ((mem_blocks hb).2.1.trans hk) hmem hy
  | entries hd he he' hne hmem hmem' =>
    obtain ⟨step, hstep, hpre⟩ := exists_step_of_locates he hmem hx
    obtain ⟨step', hstep', hpre'⟩ := exists_step_of_locates he' hmem' hy
    obtain rfl := Path.step_eq_of_prefix hpre hpre'
    exact hne (hstep.key_eq hstep' (hplain _ (hd he)) (hplain _ (hd he')))
  | blocks he hb hb' hne hmem hmem' =>
    have hlength := (length_of_mem_blocks he hb).trans (length_of_mem_blocks he hb').symm
    exact hne (Path.eq_of_prefix (inside_of_locates hmem hx).isPrefix
      (inside_of_locates hmem' hy).isPrefix hlength)

end Places

namespace Lint

variable {c : Config} {e : Entry} {p : Path} {rule : Rule}

/-! ## The errors about one entry -/

/-- Where the rule reports errors about the entry. -/
def Rule.errorPaths (rule : Rule) (c : Config) (e : Entry) : List Path :=
  ((rule.check c e).filter Diagnostic.isError).map Diagnostic.path

theorem mem_errorPaths : p ∈ rule.errorPaths c e ↔ rule.Errs c e p := by
  simp only [Rule.errorPaths, Rule.Errs, List.mem_map, List.mem_filter, and_assoc]

theorem errorPaths_eq_nil (h : ∀ p, ¬ rule.Errs c e p) : rule.errorPaths c e = [] :=
  List.eq_nil_iff_forall_not_mem.mpr fun p hp => h p (mem_errorPaths.mp hp)

/-- The name of the rule that judges the entry: no other can report errors about it. -/
def judge (e : Entry) : Option String :=
  match e.kind with
  | .modifier => some modifierSpecs.name
  | .child => some childSpecs.name
  | .pseudo => some pseudoParams.name
  | .property => some (if e.value.isNested then nestedUnknown.name else numericValues.name)
  | .breakpoint => none

/-- At most one finding is made about a parameter: at the entry, or at the parameter. -/
theorem paramFindings_eq (e : Entry) (pseudo : Pseudo) (body : Mapping) :
    paramFindings e pseudo body = [] ∨ ∃ found, paramFindings e pseudo body = [found] ∧
      (found.1 = e.path ∨ found.1 = e.path ++ [Pseudo.paramKey]) := by
  simp only [paramFindings]
  split
  iterate 2
    split
    · exact .inr ⟨_, rfl, .inl rfl⟩
    · exact .inl rfl
  iterate 2
    split
    · exact .inl rfl
    · exact .inr ⟨_, rfl, .inl rfl⟩
  · exact .inr ⟨_, rfl, .inr rfl⟩

theorem errs_pseudoParams (h : pseudoParams.Errs c e p) :
    e.kind = .pseudo ∧ (p = e.path ∨ p = e.path ++ [Pseudo.paramKey]) := by
  rw [pseudoParams, errs_ofFindings] at h
  obtain ⟨found, hfound, -, rfl⟩ := h
  split at hfound
  · rename_i body pseudo hk _ _
    rcases paramFindings_eq e pseudo body with hnil | ⟨found', hone, hpath⟩
    · rw [hnil] at hfound
      cases hfound
    · rw [hone] at hfound
      cases List.mem_singleton.mp hfound
      exact ⟨hk, hpath⟩
  · cases hfound

theorem name_of_errs (hrule : rule ∈ builtin) (h : rule.Errs c e p) :
    judge e = some rule.name := by
  simp only [builtin, List.mem_cons, List.not_mem_nil, or_false] at hrule
  rcases hrule with rfl | rfl | rfl | rfl | rfl | rfl | rfl
  · rw [judge, (errs_modifierSpecs.mp h).1]
  · rw [judge, (errs_childSpecs.mp h).1]
  · rw [judge, (errs_pseudoParams h).1]
  · obtain ⟨hk, hn, -⟩ := errs_nestedUnknown.mp h
    simp only [judge, hk, hn, if_true]
  · obtain ⟨hk, hn, -⟩ := errs_numericValues.mp h
    simp only [judge, hk, hn, Bool.false_eq_true, if_false]
  · exact absurd h not_errs_emptyBlocks
  · exact absurd h not_errs_contentQuotes

theorem path_of_mem_specFindings {kind : SpecKind} {found : Path × Finding}
    (h : found ∈ specFindings kind e) :
    found.1 = e.path ∨ ∃ spec ∈ entrySpecs e, spec.1 = found.1 := by
  unfold specFindings at h
  split at h
  · cases List.mem_singleton.mp h
    exact .inl rfl
  split at h
  · cases List.mem_singleton.mp h
    exact .inl rfl
  · obtain ⟨⟨path, raw⟩, hspec, hfound⟩ := List.mem_filterMap.mp h
    simp only at hfound
    split at hfound
    · cases hfound
    · cases hfound
      exact .inr ⟨_, hspec, rfl⟩

theorem locates_of_specFindings {kind : SpecKind} (hk : e.kind ≠ .property)
    (h : ∃ found ∈ specFindings kind e, found.2.severity = .error ∧ found.1 = p) :
    e.Locates p := by
  obtain ⟨found, hfound, -, rfl⟩ := h
  rcases path_of_mem_specFindings hfound with hpath | ⟨spec, hspec, hpath⟩
  · exact .inl hpath
  · refine .inr (.inl ⟨⟨spec.1, e.kind, spec.2⟩, ?_, hpath⟩)
    rw [Entry.blocks, if_neg hk]
    exact List.mem_map_of_mem hspec

/-- The errors about an entry stand at its places. -/
theorem locates_of_errorAt (h : ErrorAt c e p) : e.Locates p := by
  rcases errorAt_iff.mp h with h | h | h | h | h
  · obtain ⟨hk, hfound⟩ := errs_modifierSpecs.mp h
    exact locates_of_specFindings (by rw [hk]; decide) hfound
  · obtain ⟨hk, hfound⟩ := errs_childSpecs.mp h
    exact locates_of_specFindings (by rw [hk]; decide) hfound
  · obtain ⟨hk, hpath | hpath⟩ := errs_pseudoParams h
    · exact .inl hpath
    · exact .inr (.inr ⟨hk, hpath⟩)
  · exact .inl (errs_nestedUnknown.mp h).2.2.symm
  · exact .inl (errs_numericValues.mp h).2.2.2.symm

/-! ## One rule finds an error at a place once -/

theorem nodup_errorPaths_ofFindings {name : String} {find : Config → Entry → List (Path × Finding)}
    (h : ((find c e).map Prod.fst).Nodup) : ((Rule.ofFindings name find).errorPaths c e).Nodup := by
  have hpaths : ((find c e).map (Finding.report name)).map Diagnostic.path =
      (find c e).map Prod.fst := by
    rw [List.map_map]
    rfl
  rw [← hpaths] at h
  exact h.sublist (List.filter_sublist.map Diagnostic.path)

theorem sublist_map_filterMap {α β γ : Type} {f : α → Option β} {g : β → γ} {h : α → γ}
    (hf : ∀ x y, f x = some y → g y = h x) (xs : List α) :
    ((xs.filterMap f).map g).Sublist (xs.map h) := by
  induction xs with
  | nil => exact .slnil
  | cons x xs ih =>
    rw [List.map_cons]
    cases hx : f x with
    | none =>
      rw [List.filterMap_cons_none hx]
      exact ih.cons _
    | some y =>
      rw [List.filterMap_cons_some hx, List.map_cons, hf x y hx]
      exact ih.cons_cons _

theorem nodup_specFindings (kind : SpecKind) (e : Entry) :
    ((specFindings kind e).map Prod.fst).Nodup := by
  unfold specFindings
  split
  · exact List.nodup_singleton _
  split
  · exact List.nodup_singleton _
  · refine (nodup_entrySpecs e).sublist (sublist_map_filterMap (fun spec found hfound => ?_) _)
    simp only at hfound
    split at hfound
    · cases hfound
    · cases hfound
      rfl

theorem nodup_errorPaths (hrule : rule ∈ builtin) : (rule.errorPaths c e).Nodup := by
  simp only [builtin, List.mem_cons, List.not_mem_nil, or_false] at hrule
  rcases hrule with rfl | rfl | rfl | rfl | rfl | rfl | rfl
  · refine nodup_errorPaths_ofFindings ?_
    split
    · exact nodup_specFindings _ _
    · exact .nil
  · refine nodup_errorPaths_ofFindings ?_
    split
    · exact nodup_specFindings _ _
    · exact .nil
  · refine nodup_errorPaths_ofFindings ?_
    split
    · rename_i body pseudo _ _ _
      rcases paramFindings_eq e pseudo body with hnil | ⟨found, hone, -⟩
      · rw [hnil]
        exact .nil
      · rw [hone]
        exact List.nodup_singleton _
    · exact .nil
  · refine nodup_errorPaths_ofFindings ?_
    split
    · exact List.nodup_singleton _
    · exact .nil
  · refine nodup_errorPaths_ofFindings ?_
    split
    · cases valueFindings c (Property.name e.key) e.value with
      | none => exact .nil
      | some found => exact List.nodup_singleton _
    · exact .nil
  · rw [errorPaths_eq_nil fun p => not_errs_emptyBlocks]
    exact .nil
  · rw [errorPaths_eq_nil fun p => not_errs_contentQuotes]
    exact .nil

/-- The errors about one entry are at different places. -/
theorem nodup_errorPaths_entry (c : Config) (e : Entry) :
    (builtin.flatMap fun rule => rule.errorPaths c e).Nodup := by
  have hnames : (builtin.map Rule.name).Nodup := by decide
  refine List.nodup_flatMap.mpr ⟨fun rule hrule => nodup_errorPaths hrule, ?_⟩
  refine (List.pairwise_map.mp hnames).imp_of_mem fun hrule hrule' hne p hp hp' => ?_
  have hjudge := name_of_errs hrule (mem_errorPaths.mp hp)
  have hjudge' := name_of_errs hrule' (mem_errorPaths.mp hp')
  exact hne (Option.some.inj (hjudge.symm.trans hjudge'))

/-! ## The errors of a tree -/

theorem perm_flatMap_swap {α β γ : Type} (f : α → β → List γ) (xs : List α) (ys : List β) :
    (xs.flatMap fun x => ys.flatMap (f x)).Perm (ys.flatMap fun y => xs.flatMap (f · y)) := by
  induction xs with
  | nil => simp
  | cons x xs ih =>
    rw [List.flatMap_cons]
    refine (ih.append_left _).trans ?_
    exact List.flatMap_append_perm ys (f x) fun y => xs.flatMap (f · y)

/-- The errors of validation, rule by rule, are those of the entries, entry by entry. -/
theorem perm_error_paths (c : Config) (tree : Mapping) :
    (((validate c tree []).filter Diagnostic.isError).map Diagnostic.path).Perm
      ((entries c tree []).flatMap fun e => builtin.flatMap fun rule => rule.errorPaths c e) := by
  have hrules : ((validate c tree []).filter Diagnostic.isError).map Diagnostic.path =
      builtin.flatMap fun rule => (entries c tree []).flatMap (rule.errorPaths c) := by
    simp only [validate, List.append_nil, Rule.run, List.filter_flatMap, List.map_flatMap]
    rfl
  rw [hrules]
  exact perm_flatMap_swap (fun rule e => rule.errorPaths c e) builtin (entries c tree [])

/-- In a tree without keys that look like steps to specs, no two errors are at one place. -/
theorem nodup_error_paths {c : Config} {tree : Mapping}
    (htree : (Value.mapping tree).hasDistinctKeys = true)
    (hkeys : (Value.mapping tree).everyKey (fun key => !c.namesItem key) = true) :
    (((validate c tree []).filter Diagnostic.isError).map Diagnostic.path).Nodup := by
  have hplain : ∀ e ∈ entries c tree [], c.namesItem e.key = false := by
    intro e he
    have hkey := key_of_mem_entries (b := .root [] tree) hkeys he
    exact (Bool.not_eq_true' _).mp hkey
  have hpairs : (entries c tree []).Pairwise (Entry.Before c (entries c tree [])) :=
    TreeBlock.pairwise_entries (b := .root [] tree) htree
  rw [(perm_error_paths c tree).nodup_iff, List.nodup_flatMap]
  refine ⟨fun e _ => nodup_errorPaths_entry c e, hpairs.imp ?_⟩
  intro x y hxy p hx hy
  have hlocates {e : Entry} (h : p ∈ builtin.flatMap fun rule => rule.errorPaths c e) :
      e.Locates p := by
    obtain ⟨rule, hrule, hp⟩ := List.mem_flatMap.mp h
    exact locates_of_errorAt ⟨rule, hrule, mem_errorPaths.mp hp⟩
  exact not_locates_of_before hplain hxy (hlocates hx) (hlocates hy)

/-- A key that looks like the step to a spec shares the place of that spec. -/
example :
    ((validate .standard [("class[0]", .null), ("class", .list [.mapping []])] []).filter
      Diagnostic.isError).map Diagnostic.path = [["class[0]"], ["class[0]"]] := by
  decide

/-- Faults of every kind, some of them at specs and at a parameter. -/
def faultyTree : Mapping :=
  [("class", .list
    [.mapping [("color", .null)], .mapping [("name", .text "on"), ("child", .text "x")]]),
   ("nthChild", .mapping [("param", .flag true), ("zIndex", .null)]),
   ("box", .mapping [])]

theorem nodup_error_paths_sample :
    (Value.mapping faultyTree).hasDistinctKeys = true ∧
      (Value.mapping faultyTree).everyKey (fun key => !Config.standard.namesItem key) = true ∧
      ((validate .standard faultyTree []).filter Diagnostic.isError).map Diagnostic.path =
        [["class[0]"], ["class[1]", "child"], ["nthChild", "param"], ["box"],
         ["class[0]", "color"], ["nthChild", "zIndex"]] ∧
      (((validate .standard faultyTree []).filter Diagnostic.isError).map Diagnostic.path).Nodup := by
  have htree : (Value.mapping faultyTree).hasDistinctKeys = true := by decide
  have hkeys : (Value.mapping faultyTree).everyKey (fun key => !Config.standard.namesItem key) =
      true := by decide
  exact ⟨htree, hkeys, rfl, nodup_error_paths htree hkeys⟩

end Lint

end StyleTree
