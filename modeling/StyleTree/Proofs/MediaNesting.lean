import Mathlib.Data.List.Chain
import StyleTree.Proofs.Compilation
import StyleTree.Proofs.OpenerBlock

/-!
# No redundant media rules

A breakpoint block gets a media rule only where the context in force does not imply its breakpoint,
and then the breakpoint is the context in force inside. Scopes and merged blocks leave the context
alone, however many lie between two media rules. So of the media rules around a block none is implied
by the one around it, and the outermost is not implied by the context outside
(`compile_media_irredundant`).
-/

namespace StyleTree

/-- No breakpoint is implied where it stands: the first not by the context outside, and no other by
the one before it. -/
def Registry.Irredundant (r : Registry) (context : Option String) (names : List String) : Prop :=
  (∀ name ∈ names.head?, r.implies context name = .ok false) ∧
    names.IsChain fun outer inner => r.implies (some outer) inner = .ok false

namespace Registry

variable {r : Registry} {context : Option String} {name : String} {names : List String}

theorem irredundant_nil : r.Irredundant context [] :=
  ⟨nofun, .nil⟩

theorem Irredundant.cons (h : r.Irredundant (some name) names)
    (hname : r.implies context name = .ok false) : r.Irredundant context (name :: names) := by
  refine ⟨fun first hfirst => ?_, List.isChain_cons.mpr h⟩
  cases hfirst
  exact hname

/-- What a breakpoint does not imply is neither the breakpoint itself nor one that it inherits from. -/
theorem not_mem_of_implies {b : Breakpoint} (hb : r.get b.name = .ok b)
    (h : r.implies (some b.name) name = .ok false) : name ≠ b.name ∧ name ∉ b.inheritsFrom := by
  rw [implies_of_findIn? (get_eq_ok.mp hb), Except.ok.injEq, List.contains_eq_mem,
    decide_eq_false_iff_not, List.mem_cons, not_or] at h
  exact h

theorem Irredundant.isChain {media : List Breakpoint} (hget : ∀ m ∈ media, r.get m.name = .ok m)
    (h : r.Irredundant context (media.map Breakpoint.name)) :
    media.IsChain fun outer inner => inner.name ≠ outer.name ∧ inner.name ∉ outer.inheritsFrom :=
  ((List.isChain_map _).mp h.2).imp_of_mem_imp fun outer _ houter _ himplies =>
    not_mem_of_implies (hget outer houter) himplies

end Registry

/-- The breakpoints on a trail that no context in force implies. -/
theorem Trail.irredundant_chain {r : Registry} : ∀ {context : Option String} {t : Trail},
    r.Admits context → (∀ step ∈ t, step.opening.Known r) → r.Irredundant context (chain r context t)
  | _, [], _, _ => Registry.irredundant_nil
  | _, ⟨_, .scope _⟩ :: t, hcontext, hknown =>
    irredundant_chain (t := t) hcontext (List.forall_mem_cons.mp hknown).2
  | context, ⟨_, .media name⟩ :: t, hcontext, hknown => by
    obtain ⟨hname, hrest⟩ := List.forall_mem_cons.mp hknown
    rw [chain]
    cases hcov : r.covers context name with
    | true => exact irredundant_chain hcontext hrest
    | false =>
      have hinner := irredundant_chain (Registry.admits_some hname) hrest
      exact hinner.cons (by rw [Registry.implies_eq_covers hcontext, hcov])

section Block

variable {g : Setting} {context : Option String} {t : Trail}

theorem Trail.irredundant_media (scope : String) (ds : List Declaration)
    (hcontext : g.registry.Admits context)
    (hknown : ∀ step ∈ t, step.opening.Known g.registry) :
    g.registry.Irredundant context ((block g scope context t ds).media.map Breakpoint.name) := by
  rw [names_media scope ds hknown]
  exact irredundant_chain hcontext hknown

/-- The media rules of a block are those of registered breakpoints. -/
theorem Trail.get_of_mem_media {scope : String} {ds : List Declaration} {m : Breakpoint}
    (h : m ∈ (block g scope context t ds).media) :
    g.registry.get m.name = .ok m := by
  obtain ⟨name, -, hm⟩ := List.mem_filterMap.mp h
  rw [Registry.get_eq_ok, Registry.name_of_findIn? hm, hm]

end Block

variable {c : Config} {tree : Mapping} {scope context : Option String}

/-- Around no rule of an output is there a redundant media rule. A breakpoint stands directly neither
inside itself nor inside one that inherits from it, and the outermost is not implied by the media
context of the compilation. -/
theorem compile_media_irredundant {o : Output}
    (h : compile c (.mapping tree) scope context = .ok o) :
    ∃ s, compileSheet c (.mapping tree) scope context = .ok s ∧ o = s.render ∧
      ∀ b ∈ s.blocks,
        c.breakpoints.Irredundant context (b.media.map Breakpoint.name) ∧
        (∀ m ∈ b.media, c.breakpoints.get m.name = .ok m) ∧
        b.media.IsChain fun outer inner =>
          inner.name ≠ outer.name ∧ inner.name ∉ outer.inheritsFrom := by
  obtain ⟨hcontext, ⟨items, hitems⟩, rfl⟩ := compile_eq_ok.mp h
  refine ⟨treeSheet c tree scope context, by rw [compileSheet_eq hcontext, hitems]; rfl, rfl,
    fun b hb => ?_⟩
  rw [treeSheet_eq] at hb
  obtain ⟨t, ht, rfl⟩ := List.mem_map.mp hb
  have hknown := known_of_mem_treeOpeners (mem_filledOpeners.mp ht).1
  have hirredundant := Trail.irredundant_media (g := c.setting) (c.scopeOf scope)
    (ownDeclarations c tree context t) hcontext hknown
  exact ⟨hirredundant, fun m => Trail.get_of_mem_media,
    hirredundant.isChain fun m => Trail.get_of_mem_media⟩

/-- Between two media rules that stay lie a merged breakpoint and a scope. -/
def nestedTree : Mapping :=
  [("tablet", .mapping
     [("small", .mapping [("hover", .mapping [("print", .mapping [("color", .text "red")])])])])]

def nestedOutput : Output where
  declarations := ""
  rules :=
    ["@media print, only screen and (min-width: 768px)\x7b@media print\x7b&:hover\x7bcolor:red;" ++
      "\x7d\x7d\x7d"]

theorem compile_media_irredundant_sample :
    compile .standard (.mapping nestedTree) none (some "mobile") = .ok nestedOutput ∧
      Config.standard.breakpoints.Irredundant (some "mobile") ["tablet", "print"] := by
  have hcompile : compile .standard (.mapping nestedTree) none (some "mobile") =
      .ok nestedOutput := rfl
  obtain ⟨s, hs, -, hblocks⟩ := compile_media_irredundant hcompile
  have hnames : s.blocks.map (fun b => b.media.map Breakpoint.name) = [["tablet", "print"]] := by
    cases hs
    rfl
  obtain ⟨b, hb, hmedia⟩ := List.mem_map.mp (hnames ▸ List.mem_singleton_self _)
  exact ⟨hcompile, hmedia ▸ (hblocks b hb).1⟩

end StyleTree
