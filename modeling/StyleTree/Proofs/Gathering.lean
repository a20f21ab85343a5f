import StyleTree.Sheet
import StyleTree.Proofs.Visit

/-!
# Sheets as gathered walks

The sheet of a checked tree, seen from its walk: its declarations are those assigned to the root,
and it has one block for every opener with declarations of its own, in the order in which the walk
enters the openers. `sheetOf_eq_gather` is the law; with it everything about selectors, media rules
and the order of rules is read off trails.
-/

namespace StyleTree

open Visit

/-! ## The walk through a checked tree -/

/-- How many blocks the item opens. -/
def Item.blocks : Item → Nat
  | declaration _ => 0
  | scope _ _ => 1
  | media _ _ => 1

/-- How many blocks the items of a node open. -/
def blocksOf : List Item → Nat
  | [] => 0
  | item :: rest => item.blocks + blocksOf rest

mutual

/-- The walk through a checked node whose blocks are numbered from `place` on. -/
def visitsOfItems (place : Nat) : List Item → List (Visit Declaration)
  | [] => []
  | item :: rest => visitsOfItem place item ++ visitsOfItems (place + item.blocks) rest

def visitsOfItem (place : Nat) : Item → List (Visit Declaration)
  | .declaration d => [.holds [] d]
  | .scope suffix body => enter ⟨place, .scope suffix⟩ (visitsOfItems 0 body)
  | .media name body => enter ⟨place, .media name⟩ (visitsOfItems 0 body)

end

mutual

theorem isWalk_visitsOfItems : ∀ (place : Nat) (items : List Item),
    IsWalk place (visitsOfItems place items)
  | place, [] => .nil place
  | place, item :: rest => isWalk_visitsOfItem place item (isWalk_visitsOfItems _ rest)

theorem isWalk_visitsOfItem : ∀ (place : Nat) (item : Item) {rest : List (Visit Declaration)},
    IsWalk (place + item.blocks) rest → IsWalk place (visitsOfItem place item ++ rest)
  | _, .declaration d, _, h => .holds d h
  | _, .scope suffix body, _, h => .block (.scope suffix) (isWalk_visitsOfItems 0 body) h
  | _, .media name body, _, h => .block (.media name) (isWalk_visitsOfItems 0 body) h

end

theorem visitsOfItems_singleton (place : Nat) (item : Item) :
    visitsOfItems place [item] = visitsOfItem place item :=
  List.append_nil _

theorem visitsOfItems_append (place : Nat) (before after : List Item) :
    visitsOfItems place (before ++ after) =
      visitsOfItems place before ++
        visitsOfItems (place + blocksOf before) after := by
  induction before generalizing place with
  | nil => rfl
  | cons item rest ih =>
    simp only [List.cons_append, visitsOfItems, ih, blocksOf, List.append_assoc, Nat.add_assoc]

/-! ## Gathering -/

/-- The block of an opener with these declarations. -/
def Trail.block (g : Setting) (scope : String) (context : Option String) (t : Trail)
    (ds : List Declaration) : Block where
  media := (Trail.chain g.registry context t).filterMap (Registry.findIn? g.registry.toList)
  selector := scope ++ Trail.suffix t
  bare := Trail.endsInMedia t && scope ++ Trail.suffix t = g.placeholder
  declarations := ds

/-- The sheet that gathers the declarations of a walk by their openers. -/
def Sheet.gather (g : Setting) (scope : String) (context : Option String)
    (visits : List (Visit Declaration)) : Sheet where
  declarations := assigned g.registry context [] visits
  blocks :=
    ((openers g.registry context visits).filter fun t =>
      assigned g.registry context t visits ≠ []).map fun t =>
        Trail.block g scope context t (assigned g.registry context t visits)

namespace Sheet

variable {g : Setting} {scope : String} {context : Option String}

/-- Two walks are gathered apart when neither assigns anything to an opener of the other. -/
theorem gather_append {before after : List (Visit Declaration)}
    (hafter : ∀ t ∈ openers g.registry context before, assigned g.registry context t after = [])
    (hbefore : ∀ t ∈ openers g.registry context after, assigned g.registry context t before = []) :
    gather g scope context (before ++ after) =
      gather g scope context before ++ gather g scope context after := by
  have hb : ∀ t ∈ openers g.registry context before,
      assigned g.registry context t (before ++ after) = assigned g.registry context t before := by
    intro t ht
    rw [assigned_append, hafter t ht, List.append_nil]
  have ha : ∀ t ∈ openers g.registry context after,
      assigned g.registry context t (before ++ after) = assigned g.registry context t after := by
    intro t ht
    rw [assigned_append, hbefore t ht, List.nil_append]
  show Sheet.mk _ _ = Sheet.mk _ _
  rw [Sheet.mk.injEq]
  refine ⟨assigned_append before after, ?_⟩
  simp only [gather, openers_append, List.filter_append, List.map_append]
  congr 1
  · rw [List.filter_congr fun t ht => by rw [hb t ht]]
    exact List.map_congr_left fun t ht => by rw [hb t (List.mem_of_mem_filter ht)]
  · rw [List.filter_congr fun t ht => by rw [ha t ht]]
    exact List.map_congr_left fun t ht => by rw [ha t (List.mem_of_mem_filter ht)]

theorem gather_holds_append {n : Nat} {rest : List (Visit Declaration)} (h : IsWalk n rest)
    (d : Declaration) :
    gather g scope context ([.holds [] d] ++ rest) =
      ⟨[d], []⟩ ++ gather g scope context rest := by
  refine gather_append (fun t ht => absurd ht List.not_mem_nil) fun t ht => ?_
  refine assigned_eq_nil fun t' a hmem howner => ?_
  cases List.mem_singleton.mp hmem
  exact h.openers_ne_nil ht howner.symm

theorem gather_enter_append {n : Nat} {rest : List (Visit Declaration)} (h : IsWalk (n + 1) rest)
    (opening : Opening) (inner : List (Visit Declaration)) :
    gather g scope context (enter ⟨n, opening⟩ inner ++ rest) =
      gather g scope context (enter ⟨n, opening⟩ inner) ++ gather g scope context rest := by
  refine gather_append (fun t ht => ?_) fun t ht => ?_
  · obtain ⟨t', ht'⟩ := trail_of_mem_enter (mem_openers.mp ht).1
    rw [show t = ⟨n, opening⟩ :: t' from ht']
    exact h.assigned_eq_nil_of_place (Nat.lt_succ_self n) t'
  · exact h.assigned_enter_eq_nil_of_place (Nat.lt_succ_self n) ht

/-- Entering an opener: the sheet of its inside with its own declarations in front, each block
changed by `f`. -/
theorem gather_enter_of_opens (step : Step) (inside : String) (bare : Bool) (f : Block → Block)
    (h : step.opening.opens g.registry context = true) {inner : List (Visit Declaration)}
    (hinner : IsWalk 0 inner)
    (hown : ∀ ds, Trail.block g scope context [step] ds = f ⟨[], inside, bare, ds⟩)
    (hblock : ∀ t ≠ [], ∀ ds, Trail.block g scope context (step :: t) ds =
      f (Trail.block g inside (step.opening.inside g.registry context) t ds)) :
    gather g scope context (enter step inner) =
      ⟨[], ((gather g inside (step.opening.inside g.registry context) inner).close
        inside bare).map f⟩ := by
  rw [show gather g scope context (enter step inner) = ⟨_, _⟩ from rfl, Sheet.mk.injEq]
  refine ⟨assigned_nil_enter_of_opens h, ?_⟩
  simp only [openers_enter_of_opens h, ← List.map_cons (f := (step :: ·)), List.filter_map,
    List.map_map, Function.comp_def, assigned_enter_of_opens h]
  have hrest : ∀ t ∈ (openers g.registry (step.opening.inside g.registry context) inner).filter
      fun t => assigned g.registry (step.opening.inside g.registry context) t inner ≠ [],
      ∀ ds, Trail.block g scope context (step :: t) ds =
        f (Trail.block g inside (step.opening.inside g.registry context) t ds) :=
    fun t ht => hblock t (hinner.openers_ne_nil (List.mem_of_mem_filter ht))
  rw [List.filter_cons]
  cases hds : assigned g.registry (step.opening.inside g.registry context) [] inner with
  | nil =>
    simp only [close, gather, hds, Block.own, List.isEmpty_nil, ↓reduceIte, List.nil_append,
      List.map_map, ne_eq, not_true_eq_false, decide_false, Bool.false_eq_true]
    exact List.map_congr_left fun t ht => hrest t ht _
  | cons d ds =>
    simp only [close, gather, hds, Block.own, List.isEmpty_cons, List.map_map,
      List.map_cons, ne_eq, reduceCtorEq, not_false_eq_true, decide_true, Bool.false_eq_true,
      ↓reduceIte, hown, List.cons_append, List.nil_append]
    exact congrArg _ (List.map_congr_left fun t ht => hrest t ht _)

theorem gather_enter_scope {inner : List (Visit Declaration)} (hinner : IsWalk 0 inner)
    (n : Nat) (suffix : String) :
    gather g scope context (enter ⟨n, .scope suffix⟩ inner) =
      ⟨[], (gather g (scope ++ suffix) context inner).close (scope ++ suffix) false⟩ := by
  have hsuffix : ∀ t, scope ++ Trail.suffix (⟨n, .scope suffix⟩ :: t) =
      scope ++ suffix ++ Trail.suffix t := fun t => String.append_assoc.symm
  rw [gather_enter_of_opens ⟨n, .scope suffix⟩ (scope ++ suffix) false id rfl hinner ?_ ?_,
    List.map_id]
  · rfl
  · intro ds
    rw [Trail.block, hsuffix, Trail.suffix, String.append_empty]
    rfl
  · intro t hne ds
    rw [Trail.block, hsuffix, Trail.endsInMedia_cons hne]
    rfl

theorem gather_enter_wrapped {inner : List (Visit Declaration)} (hinner : IsWalk 0 inner)
    (n : Nat) {name : String} {b : Breakpoint} (hcov : g.registry.covers context name = false)
    (hb : Registry.findIn? g.registry.toList name = some b) :
    gather g scope context (enter ⟨n, .media name⟩ inner) =
      ⟨[], ((gather g scope (some name) inner).close scope (scope = g.placeholder)).map
        (.within b)⟩ := by
  have hopens : (Opening.media name).opens g.registry context = true := by
    rw [Opening.opens, hcov]
    rfl
  have hinside : (Opening.media name).inside g.registry context = some name := by
    rw [Opening.inside, hcov]
    rfl
  have hsuffix : ∀ t, scope ++ Trail.suffix (⟨n, .media name⟩ :: t) = scope ++ Trail.suffix t :=
    fun t => congrArg _ String.empty_append
  have hchain : ∀ t, (Trail.chain g.registry context (⟨n, .media name⟩ :: t)).filterMap
      (Registry.findIn? g.registry.toList) = b ::
        (Trail.chain g.registry (some name) t).filterMap (Registry.findIn? g.registry.toList) := by
    intro t
    rw [Trail.chain, hcov]
    exact List.filterMap_cons_some hb
  rw [gather_enter_of_opens ⟨n, .media name⟩ scope (scope = g.placeholder) (.within b) hopens
    hinner ?_ ?_, hinside]
  · intro ds
    rw [Trail.block, hsuffix, hchain, Trail.suffix, String.append_empty]
    rfl
  · intro t hne ds
    rw [Trail.block, hsuffix, hchain, Trail.endsInMedia_cons hne, hinside]
    rfl

theorem gather_enter_merged {inner : List (Visit Declaration)} (hinner : IsWalk 0 inner)
    (n : Nat) {name : String} (hcov : g.registry.covers context name = true) :
    gather g scope context (enter ⟨n, .media name⟩ inner) = gather g scope context inner := by
  have hopens : (Opening.media name).opens g.registry context = false := by
    rw [Opening.opens, hcov]
    rfl
  have hinside : (Opening.media name).inside g.registry context = context := by
    rw [Opening.inside, hcov]
    rfl
  have hblock : ∀ t ∈ openers g.registry context inner, ∀ ds,
      Trail.block g scope context (⟨n, .media name⟩ :: t) ds =
        Trail.block g scope context t ds := by
    intro t ht ds
    rw [Trail.block, Trail.endsInMedia_cons (hinner.openers_ne_nil ht), Trail.chain, hcov,
      Trail.suffix, show (Opening.media name).suffix = "" from rfl, String.empty_append]
    rfl
  have hassigned : ∀ t ∈ openers g.registry context inner,
      assigned g.registry context (⟨n, .media name⟩ :: t) (enter ⟨n, .media name⟩ inner) =
        assigned g.registry context t inner := by
    intro t ht
    rw [assigned_enter_of_merged hopens (hinner.openers_ne_nil ht), hinside]
  rw [show gather g scope context (enter ⟨n, .media name⟩ inner) = ⟨_, _⟩ from rfl, gather,
    Sheet.mk.injEq]
  refine ⟨by rw [assigned_nil_enter_of_merged hopens, hinside], ?_⟩
  rw [hinner.openers_enter_of_merged hopens, hinside, List.filter_map, List.map_map]
  simp only [Function.comp_def]
  rw [List.filter_congr fun t ht => by rw [hassigned t ht]]
  refine List.map_congr_left fun t ht => ?_
  rw [hassigned t (List.mem_of_mem_filter ht), hblock t (List.mem_of_mem_filter ht)]

end Sheet

/-! ## The law -/

theorem gather_visitsOfItem_append (g : Setting) (scope : String) (context : Option String)
    (place : Nat) (item : Item) {rest : List (Visit Declaration)}
    (h : IsWalk (place + item.blocks) rest) :
    Sheet.gather g scope context (visitsOfItem place item ++ rest) =
      Sheet.gather g scope context (visitsOfItem place item) ++
        Sheet.gather g scope context rest := by
  cases item with
  | declaration d => exact Sheet.gather_holds_append h d
  | scope suffix body => exact Sheet.gather_enter_append h (.scope suffix) _
  | media name body => exact Sheet.gather_enter_append h (.media name) _

mutual

/-- Items whose breakpoints are known have a sheet, which gathers their walk. -/
theorem sheetOf_eq_gather (g : Setting) : ∀ (items : List Item) (place : Nat) (scope : String)
    {context : Option String}, g.registry.Admits context →
    EveryStep (Opening.Known g.registry) (visitsOfItems place items) →
    sheetOf g scope context items =
      .ok (.gather g scope context (visitsOfItems place items))
  | [], _, _, _, _, _ => rfl
  | item :: rest, place, scope, context, hcontext, hknown => by
    obtain ⟨hfirst, hrest⟩ := everyStep_append.mp hknown
    rw [visitsOfItems, gather_visitsOfItem_append g scope context place item
      (isWalk_visitsOfItems _ rest)]
    simp only [sheetOf, sheetOfItem_eq_gather g item place scope hcontext hfirst,
      sheetOf_eq_gather g rest _ scope hcontext hrest, bind, Except.bind, pure, Except.pure]

theorem sheetOfItem_eq_gather (g : Setting) : ∀ (item : Item) (place : Nat) (scope : String)
    {context : Option String}, g.registry.Admits context →
    EveryStep (Opening.Known g.registry) (visitsOfItem place item) →
    sheetOfItem g scope context item =
      .ok (.gather g scope context (visitsOfItem place item))
  | .declaration _, _, _, _, _, _ => rfl
  | .scope suffix body, place, scope, context, hcontext, hknown => by
    have hbody := (everyStep_enter.mp hknown).2
    have hinner := sheetOf_eq_gather g body 0 (scope ++ suffix) hcontext hbody
    rw [visitsOfItem, Sheet.gather_enter_scope (isWalk_visitsOfItems 0 body)]
    simp only [sheetOfItem, hinner, bind, Except.bind, pure, Except.pure]
  | .media name body, place, scope, context, hcontext, hknown => by
    obtain ⟨hname, hbody⟩ := everyStep_enter.mp hknown
    rw [visitsOfItem]
    cases hcov : g.registry.covers context name with
    | true =>
      have hinner := sheetOf_eq_gather g body 0 scope hcontext hbody
      rw [Sheet.gather_enter_merged (isWalk_visitsOfItems 0 body) place hcov, ← hinner]
      simp only [sheetOfItem, Registry.implies_eq_covers hcontext, hcov, bind, Except.bind,
        ↓reduceIte]
    | false =>
      obtain ⟨b, hb⟩ := Registry.findIn?_of_has hname
      have hinner := sheetOf_eq_gather g body 0 scope (Registry.admits_some hname) hbody
      rw [Sheet.gather_enter_wrapped (isWalk_visitsOfItems 0 body) place hcov hb]
      simp only [sheetOfItem, Registry.implies_eq_covers hcontext, hcov, hinner,
        Registry.get_eq_ok.mpr hb, bind, Except.bind, pure, Except.pure, Bool.false_eq_true,
        ↓reduceIte]

end

end StyleTree
