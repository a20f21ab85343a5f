import StyleTree.Proofs.Gathering

/-!
# Blocks of openers

What the block of an opener looks like is read off its trail. The media rules are named by the chain
(`names_media`). Declarations stand bare for the breakpoints of the root scope only, when that scope
is the placeholder (`bare_block`); this needs that no scope inside is mistaken for the placeholder,
which the scope has to ensure (`Setting.Separates`).
-/

namespace StyleTree

/-- The scope is the placeholder, or the placeholder does not begin with it. -/
def Setting.Separates (g : Setting) (scope : String) : Prop :=
  scope = g.placeholder ∨ ∀ rest, scope ++ rest ≠ g.placeholder

variable {g : Setting} {scope : String} {context : Option String} {t : Trail}
  {ds : List Declaration}

theorem Setting.Separates.append_eq {s : String} (h : g.Separates scope) :
    scope ++ s = g.placeholder ↔ s = "" ∧ scope = g.placeholder := by
  constructor
  · intro heq
    rcases h with h | h
    · rw [← h, String.append_eq_left_iff] at heq
      exact ⟨heq, h⟩
    · exact absurd heq (h s)
  · rintro ⟨rfl, h⟩
    rwa [String.append_empty]

namespace Trail

theorem names_media (scope : String) (ds : List Declaration)
    (hknown : ∀ step ∈ t, step.opening.Known g.registry) :
    (block g scope context t ds).media.map Breakpoint.name = chain g.registry context t := by
  have hnames : ∀ name ∈ chain g.registry context t,
      (Registry.findIn? g.registry.toList name).map Breakpoint.name = some name := by
    intro name hname
    obtain ⟨b, hb⟩ := Registry.findIn?_of_has (has_of_mem_chain _ _ hknown name hname)
    rw [hb, Option.map_some, Registry.name_of_findIn? hb]
  rw [block, List.map_filterMap, List.filterMap_congr hnames, List.filterMap_some]

/-- The rule of an opener that is a breakpoint block stands in a media rule. -/
theorem media_ne_nil (howner : owner g.registry context t = t)
    (hknown : ∀ step ∈ t, step.opening.Known g.registry) (hends : endsInMedia t = true) :
    (block g scope context t ds).media ≠ [] := by
  intro hnil
  apply chain_ne_nil howner hends
  rw [← names_media scope ds hknown, hnil]
  rfl

theorem bare_block (hsep : g.Separates scope) (hne : t ≠ [])
    (hext : ∀ step ∈ t, step.opening.Extends) :
    (block g scope context t ds).bare = true ↔
      (∀ step ∈ t, step.opening.isMedia = true) ∧ scope = g.placeholder := by
  rw [← suffix_eq_empty hext, block, Bool.and_eq_true, decide_eq_true_eq, hsep.append_eq]
  refine and_iff_right_of_imp fun h => ?_
  exact endsInMedia_of_forall hne ((suffix_eq_empty hext).mp h.1)

theorem bare_block_iff_media (hsep : g.Separates scope) (hne : t ≠ [])
    (hext : ∀ step ∈ t, step.opening.Extends)
    (hknown : ∀ step ∈ t, step.opening.Known g.registry)
    (howner : owner g.registry context t = t) :
    (block g scope context t ds).bare = true ↔
      (block g scope context t ds).media ≠ [] ∧ scope ++ suffix t = g.placeholder := by
  constructor
  · intro hbare
    rw [block, Bool.and_eq_true, decide_eq_true_eq] at hbare
    exact ⟨media_ne_nil howner hknown hbare.1, hbare.2⟩
  · rintro ⟨-, hselector⟩
    rw [hsep.append_eq, suffix_eq_empty hext] at hselector
    exact (bare_block hsep hne hext).mpr hselector

/-- What the rule of an opener starts with, from the outermost media rule on. -/
def heads (g : Setting) (scope : String) (context : Option String) (t : Trail) : List String :=
  (block g scope context t []).media.map Breakpoint.media ++
    if (block g scope context t []).bare then [] else [scope ++ suffix t]

/-- The rule of an opener has braces around its declarations. -/
theorem heads_ne_nil (howner : owner g.registry context t = t)
    (hknown : ∀ step ∈ t, step.opening.Known g.registry) : t.heads g scope context ≠ [] := by
  intro hnil
  rw [heads, List.append_eq_nil_iff, List.map_eq_nil_iff] at hnil
  obtain ⟨hmedia, hbare⟩ := hnil
  refine media_ne_nil howner hknown ?_ hmedia
  by_contra hends
  simp [block, hends] at hbare

end Trail

theorem Block.core_eq (b : Block) :
    b.core = (if b.bare then [] else [b.selector]).foldr rule
      (renderDeclarations b.declarations) := by
  rw [core]
  cases b.bare <;> rfl

theorem render_block :
    (Trail.block g scope context t ds).render =
      (t.heads g scope context).foldr rule (renderDeclarations ds) := by
  rw [Trail.heads, Block.render, Block.core_eq, List.foldr_append, List.foldr_map]
  rfl

end StyleTree
