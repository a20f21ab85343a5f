import StyleTree.Compile
import StyleTree.Proofs.CheckedTree

/-!
# Compilations

A mapping compiles exactly when the media context is known and the mapping is well formed, and its
sheet then gathers the declarations of the walk through it (`compile_eq_ok`). An unknown context is
the first error; after that only the checks of the tree fail (`compile_eq_error`).
-/

namespace StyleTree

open Visit

/-- The declarations of a tree, on their trails. -/
def declarationWalk (c : Config) (tree : Mapping) : List (Visit Declaration) :=
  select (Entry.declaration? c) (walk c tree)

/-- The openers that the walk through a tree enters, in order. -/
def treeOpeners (c : Config) (tree : Mapping) (context : Option String) : List Trail :=
  openers c.breakpoints context (walk c tree)

/-- The declarations that belong to an opener, or to the root, in the order of the walk. -/
def ownDeclarations (c : Config) (tree : Mapping) (context : Option String) (opener : Trail) :
    List Declaration :=
  assigned c.breakpoints context opener (declarationWalk c tree)

/-- The openers with declarations of their own. -/
def filledOpeners (c : Config) (tree : Mapping) (context : Option String) : List Trail :=
  (treeOpeners c tree context).filter fun t => ownDeclarations c tree context t ≠ []

/-- The sheet of a well-formed tree. -/
def treeSheet (c : Config) (tree : Mapping) (scope context : Option String) : Sheet :=
  .gather c.setting (c.scopeOf scope) context (declarationWalk c tree)

/-- The checks of the tree find no fault. -/
def WellFormed (c : Config) (tree : Mapping) : Prop :=
  ∃ items, itemsOf c none [] tree = .ok items

variable {c : Config} {tree : Mapping} {scope context : Option String}

theorem treeSheet_eq : treeSheet c tree scope context =
    ⟨ownDeclarations c tree context [], (filledOpeners c tree context).map fun t =>
      Trail.block c.setting (c.scopeOf scope) context t (ownDeclarations c tree context t)⟩ := by
  have hopeners : openers c.breakpoints context (declarationWalk c tree) =
      treeOpeners c tree context := openers_select _ _ _
  rw [filledOpeners, ← hopeners]
  rfl

/-! ## Openers of a tree -/

section Openers

variable {t : Trail}

theorem mem_treeOpeners {step : Step} :
    t ++ [step] ∈ treeOpeners c tree context ↔ .opens (t ++ [step]) ∈ walk c tree ∧
      step.opening.opens c.breakpoints (Trail.inForce c.breakpoints context t) = true := by
  rw [treeOpeners, mem_openers, Trail.owner_concat]

theorem owner_of_mem_treeOpeners (h : t ∈ treeOpeners c tree context) :
    Trail.owner c.breakpoints context t = t :=
  (mem_openers.mp h).2

theorem known_of_mem_treeOpeners (h : t ∈ treeOpeners c tree context) :
    ∀ step ∈ t, step.opening.Known c.breakpoints :=
  known_walk c tree _ (mem_openers.mp h).1

theorem extends_of_mem_treeOpeners (h : t ∈ treeOpeners c tree context) :
    ∀ step ∈ t, step.opening.Extends :=
  extends_walk c tree _ (mem_openers.mp h).1

theorem ne_nil_of_mem_treeOpeners (h : t ∈ treeOpeners c tree context) : t ≠ [] :=
  (isWalk_walk c tree).openers_ne_nil h

theorem mem_filledOpeners : t ∈ filledOpeners c tree context ↔
    t ∈ treeOpeners c tree context ∧ ownDeclarations c tree context t ≠ [] := by
  rw [filledOpeners, List.mem_filter, decide_eq_true_eq]

end Openers

/-! ## Compiling -/

theorem checkContext_eq_ok : c.checkContext context = .ok () ↔ c.breakpoints.Admits context := by
  cases context with
  | none => exact ⟨fun _ => Registry.admits_none, fun _ => rfl⟩
  | some name =>
    by_cases h : c.breakpoints.has name = true
    · exact ⟨fun _ => Registry.admits_some h, fun _ => if_pos h⟩
    · refine ⟨fun hok => ?_, fun ha => absurd (ha name rfl) h⟩
      rw [Config.checkContext, if_neg h] at hok
      cases hok

theorem declarationWalk_eq {items : List Item} (h : itemsOf c none [] tree = .ok items) :
    declarationWalk c tree = visitsOfItems 0 items :=
  select_visitsOf c tree none [] 0 items h

/-- The items of a node name only breakpoints that are known. -/
theorem known_visitsOfItems {consumed : Option String} {path : Path} {items : List Item}
    (h : itemsOf c consumed path tree = .ok items) :
    EveryStep (Opening.Known c.breakpoints) (visitsOfItems 0 items) := by
  rw [← select_visitsOf c tree consumed path 0 items h]
  exact (known_visitsOf c tree consumed path 0).select _

theorem sheetOf_itemsOf (hcontext : c.breakpoints.Admits context) {items : List Item}
    (h : itemsOf c none [] tree = .ok items) (scope : String) :
    sheetOf c.setting scope context items =
      .ok (.gather c.setting scope context (declarationWalk c tree)) := by
  rw [declarationWalk_eq h,
    sheetOf_eq_gather c.setting items 0 scope hcontext (known_visitsOfItems h)]

theorem compileSheet_eq (hcontext : c.breakpoints.Admits context) :
    compileSheet c (.mapping tree) scope context =
      (itemsOf c none [] tree).map fun _ => treeSheet c tree scope context := by
  unfold compileSheet
  rw [checkContext_eq_ok.mpr hcontext]
  cases h : itemsOf c none [] tree with
  | error e => simp only [checkedTree, h, bind, Except.bind, Except.map]
  | ok items =>
    simp only [checkedTree, h, bind, Except.bind, sheetOf_itemsOf hcontext h, Except.map,
      Except.mapError]
    rfl

/-- When a mapping compiles, and what to. -/
theorem compile_eq_ok {o : Output} :
    compile c (.mapping tree) scope context = .ok o ↔
      c.breakpoints.Admits context ∧ WellFormed c tree ∧
        o = (treeSheet c tree scope context).render := by
  by_cases hcontext : c.breakpoints.Admits context
  · rw [compile, compileSheet_eq hcontext]
    cases h : itemsOf c none [] tree with
    | error e =>
      refine ⟨fun heq => (nomatch heq), fun ⟨_, ⟨items, hitems⟩, _⟩ => ?_⟩
      rw [h] at hitems
      cases hitems
    | ok items =>
      constructor
      · intro heq
        cases heq
        exact ⟨hcontext, ⟨items, h⟩, rfl⟩
      · rintro ⟨-, -, rfl⟩
        rfl
  · refine ⟨fun heq => absurd ?_ hcontext, fun h => absurd h.1 hcontext⟩
    cases hcheck : c.checkContext context with
    | ok u => exact checkContext_eq_ok.mp hcheck
    | error e =>
      rw [compile, compileSheet, hcheck] at heq
      cases heq

/-- A breakpoint block with a scope and a merged breakpoint inside. -/
def sampleTree : Mapping :=
  [("color", .text "red"),
   ("tablet", .mapping
     [("lineHeight", .number (.int 2)),
      ("hover", .mapping [("margin", .number (.int 3))]),
      ("small", .mapping [("width", .text "1px")])])]

def sampleOutput : Output where
  declarations := "color:red;"
  rules :=
    ["@media print, only screen and (min-width: 768px)\x7bline-height:2;width:1px;\x7d",
     "@media print, only screen and (min-width: 768px)\x7b&:hover\x7bmargin:3px;\x7d\x7d"]

theorem compile_sampleTree :
    compile .standard (.mapping sampleTree) none none = .ok sampleOutput := by
  rfl

/-- In a known context a mapping fails to compile with the fault of its checks. -/
theorem compile_eq_error (hcontext : c.breakpoints.Admits context) {e : CompileError} :
    compile c (.mapping tree) scope context = .error e ↔ itemsOf c none [] tree = .error e := by
  rw [compile, compileSheet_eq hcontext]
  cases itemsOf c none [] tree with
  | error e' => exact ⟨fun h => by cases h; rfl, fun h => by cases h; rfl⟩
  | ok items => exact ⟨fun h => (nomatch h), fun h => (nomatch h)⟩

end StyleTree
