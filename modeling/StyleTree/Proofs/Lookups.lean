import Mathlib.Logic.Relation
import StyleTree.Proofs.TreeBlock

/-!
# Look-ups

On its way through a tree the compiler looks up pseudo keys and breakpoints: the breakpoint of a
block, and the one that is the media context there. Nothing is looked up that is not known. A key
opens a block only if it is, and entering a block keeps the context absent or known
(`Registry.Admits.inside`), so that it is so in every call of the recursion (`Call.Sound.of_steps`)
and in every block of a tree (`Registry.Admits.inForce`). What is left to fail are the checks of the
tree (`compile_lookups`).
-/

namespace StyleTree

open Visit

namespace Registry.Admits

variable {r : Registry} {context : Option String}

/-- Entering a block. -/
theorem inside {opening : Opening} (h : r.Admits context) (hknown : opening.Known r) :
    r.Admits (opening.inside r context) := by
  cases opening with
  | scope suffix => exact h
  | media name =>
    rw [Opening.inside]
    split
    · exact h
    · exact admits_some hknown

/-- The context in force in a block, however deep. -/
theorem inForce (h : r.Admits context) {t : Trail} (hknown : ∀ step ∈ t, step.opening.Known r) :
    r.Admits (Trail.inForce r context t) := by
  induction t generalizing context with
  | nil => exact h
  | cons step t ih =>
    obtain ⟨hstep, hrest⟩ := List.forall_mem_cons.mp hknown
    rw [Trail.inForce_cons]
    exact ih (h.inside hstep) hrest

end Registry.Admits

/-! ## The calls of the recursion -/

/-- The sheet of some items is computed for a scope in a context. -/
structure Call where
  scope : String
  context : Option String
  items : List Item

/-- The second sheet is computed as a part of the first. -/
inductive Call.Steps (g : Setting) : Call → Call → Prop where
  | scope {outer context : _} {items body : List Item} {suffix : String} :
      .scope suffix body ∈ items → Steps g ⟨outer, context, items⟩ ⟨outer ++ suffix, context, body⟩
  | merged {outer context : _} {items body : List Item} {name : String} :
      .media name body ∈ items → g.registry.implies context name = .ok true →
      Steps g ⟨outer, context, items⟩ ⟨outer, context, body⟩
  | wrapped {outer context : _} {items body : List Item} {name : String} :
      .media name body ∈ items → g.registry.implies context name = .ok false →
      Steps g ⟨outer, context, items⟩ ⟨outer, some name, body⟩

/-- The context is absent or known, and so are the breakpoints of the items. -/
structure Call.Sound (g : Setting) (call : Call) : Prop where
  admits : g.registry.Admits call.context
  known : EveryStep (Opening.Known g.registry) (visitsOfItems 0 call.items)

theorem everyStep_of_mem_items {P : Opening → Prop} {item : Item} {items : List Item} {place : Nat}
    (h : EveryStep P (visitsOfItems place items)) (hmem : item ∈ items) :
    ∃ place, EveryStep P (visitsOfItem place item) := by
  induction items generalizing place with
  | nil => cases hmem
  | cons first rest ih =>
    rw [visitsOfItems, everyStep_append] at h
    rcases List.mem_cons.mp hmem with rfl | hmem
    · exact ⟨place, h.1⟩
    · exact ih h.2 hmem

namespace Call.Sound

variable {g : Setting} {call call' : Call}

theorem step (h : call.Sound g) (hstep : call.Steps g call') : call'.Sound g := by
  obtain ⟨hcontext, hknown⟩ := h
  cases hstep with
  | scope hmem =>
    obtain ⟨place, hitem⟩ := everyStep_of_mem_items hknown hmem
    exact ⟨hcontext, (everyStep_enter.mp hitem).2⟩
  | merged hmem himplies =>
    obtain ⟨place, hitem⟩ := everyStep_of_mem_items hknown hmem
    exact ⟨hcontext, (everyStep_enter.mp hitem).2⟩
  | wrapped hmem himplies =>
    obtain ⟨place, hitem⟩ := everyStep_of_mem_items hknown hmem
    obtain ⟨hname, hbody⟩ := everyStep_enter.mp hitem
    exact ⟨Registry.admits_some hname, hbody⟩

theorem of_steps (h : call.Sound g) (hsteps : Relation.ReflTransGen (Call.Steps g) call call') :
    call'.Sound g := by
  induction hsteps with
  | refl => exact h
  | tail _ hstep ih => exact ih.step hstep

/-- In such a call all look-ups succeed. -/
theorem sheetOf_eq_ok (h : call.Sound g) :
    ∃ s, sheetOf g call.scope call.context call.items = .ok s :=
  ⟨_, sheetOf_eq_gather g call.items 0 call.scope h.admits h.known⟩

end Call.Sound

/-! ## Compilations -/

variable {c : Config} {tree : Mapping}

/-- The checks of a node fail with a fault of the tree. -/
theorem malformed_of_itemsOf {consumed : Option String} {path : Path} {e : CompileError}
    (h : itemsOf c consumed path tree = .error e) : ∃ f, e = .malformed f := by
  have hagrees := Lint.agrees_itemsOf c tree consumed path
  rw [h] at hagrees
  obtain ⟨f, hf, -⟩ := hagrees
  exact ⟨f, hf⟩

/-- A tree that is checked is well formed or has a fault. -/
theorem malformed_of_checkedTree {tree : Value} {e : CompileError}
    (h : checkedTree c tree = .error e) : ∃ f, e = .malformed f := by
  cases tree with
  | mapping m => exact malformed_of_itemsOf h
  | _ =>
    cases h
    exact ⟨_, rfl⟩

/-- In a known context compilation gives an output or a fault of the tree. -/
theorem compile_ok_or_malformed {context : Option String} (hcontext : c.breakpoints.Admits context)
    (tree : Mapping) (scope : Option String) :
    (∃ o, compile c (.mapping tree) scope context = .ok o) ∨
      ∃ f, compile c (.mapping tree) scope context = .error (.malformed f) := by
  cases h : compile c (.mapping tree) scope context with
  | ok o => exact .inl ⟨o, rfl⟩
  | error e =>
    obtain ⟨f, rfl⟩ := malformed_of_itemsOf ((compile_eq_error hcontext).mp h)
    exact .inr ⟨f, rfl⟩

/-- The look-ups for a breakpoint block: what the context implies, and its media rule. -/
theorem lookups_of_opens {context : Option String} (hcontext : c.breakpoints.Admits context)
    {t : Trail} {place : Nat} {name : String}
    (h : .opens (t ++ [⟨place, .media name⟩]) ∈ walk c tree) :
    (∃ implied, c.breakpoints.implies (Trail.inForce c.breakpoints context t) name = .ok implied) ∧
      ∃ b, c.breakpoints.get name = .ok b := by
  obtain ⟨hknown, hname⟩ := List.forall_mem_append.mp (known_walk c tree _ h)
  have hhas : c.breakpoints.has name = true := hname _ (List.mem_singleton_self _)
  exact ⟨⟨_, Registry.implies_eq_covers (hcontext.inForce hknown)⟩, Registry.has_iff_get.mp hhas⟩

theorem ofKey?_of_mem_walked {e : Entry} (h : e ∈ walked c tree) (hk : e.kind = .pseudo) :
    ∃ pseudo, Pseudo.ofKey? e.key = some pseudo :=
  ofKey?_of_classify ((kind_of_mem_walked h).symm.trans hk)

/-- In a known media context a mapping compiles or has a fault. In every call of the recursion the
context is absent or known, and the call succeeds. So it is in every block of the tree, whether or not
a fault is found elsewhere: the look-ups of breakpoints and pseudo keys succeed. -/
theorem compile_lookups (c : Config) (tree : Mapping) (scope : Option String)
    {context : Option String} (hcontext : c.breakpoints.Admits context) :
    ((∃ o, compile c (.mapping tree) scope context = .ok o) ∨
      ∃ f, compile c (.mapping tree) scope context = .error (.malformed f)) ∧
    (∀ items call, itemsOf c none [] tree = .ok items →
      Relation.ReflTransGen (Call.Steps c.setting) ⟨c.scopeOf scope, context, items⟩ call →
        c.breakpoints.Admits call.context ∧
          ∃ s, sheetOf c.setting call.scope call.context call.items = .ok s) ∧
    (∀ v ∈ walk c tree, c.breakpoints.Admits (Trail.inForce c.breakpoints context v.trail)) ∧
    (∀ t place name, .opens (t ++ [⟨place, .media name⟩]) ∈ walk c tree →
      (∃ implied,
        c.breakpoints.implies (Trail.inForce c.breakpoints context t) name = .ok implied) ∧
      ∃ b, c.breakpoints.get name = .ok b) ∧
    ∀ e ∈ walked c tree, e.kind = .pseudo → ∃ pseudo, Pseudo.ofKey? e.key = some pseudo := by
  refine ⟨compile_ok_or_malformed hcontext tree scope, fun items call hitems hsteps => ?_,
    fun v hv => hcontext.inForce (known_walk c tree v hv), fun _ _ _ => lookups_of_opens hcontext,
    fun _ => ofKey?_of_mem_walked⟩
  have hfirst : Call.Sound c.setting ⟨c.scopeOf scope, context, items⟩ :=
    ⟨hcontext, known_visitsOfItems hitems⟩
  have hsound := hfirst.of_steps hsteps
  exact ⟨hsound.admits, hsound.sheetOf_eq_ok⟩

/-- In the sample tree, from a known context: the merged breakpoint is looked up in the context of the
block around it. -/
theorem compile_lookups_sample :
    Config.standard.breakpoints.Admits (some "mobile") ∧
      (∃ o, compile .standard (.mapping sampleTree) none (some "mobile") = .ok o) ∧
      (∃ implied, Config.standard.breakpoints.implies
        (Trail.inForce Config.standard.breakpoints (some "mobile") [⟨0, .media "tablet"⟩])
        "small" = .ok implied) := by
  have hcontext : Config.standard.breakpoints.Admits (some "mobile") := Registry.admits_some rfl
  obtain ⟨hresult, -, -, hlookups, -⟩ := compile_lookups .standard sampleTree none hcontext
  have hentered : (walk .standard sampleTree).filterMap entered? =
      [[⟨0, .media "tablet"⟩], [⟨0, .media "tablet"⟩, ⟨0, .scope ":hover"⟩],
        [⟨0, .media "tablet"⟩] ++ [⟨1, .media "small"⟩]] := rfl
  have hopens : .opens ([⟨0, .media "tablet"⟩] ++ [⟨1, .media "small"⟩]) ∈
      walk .standard sampleTree := by
    rw [← mem_filterMap_entered?, hentered]
    simp
  refine ⟨hcontext, ?_, (hlookups _ _ _ hopens).1⟩
  rcases hresult with hok | ⟨f, hf⟩
  · exact hok
  · cases hf

end StyleTree
