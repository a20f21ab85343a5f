import StyleTree.Proofs.Compilation
import StyleTree.Proofs.OpenerBlock

/-!
# Output is uniform in the scope

The rules of a tree are templates: what stands before and after the scope does not depend on it
(`compile_uniform`). This holds for every scope that the placeholder does not begin with. For the
placeholder itself one thing is different: the declarations of the breakpoint blocks that belong to
the root stand bare in their media rule.
-/

namespace StyleTree

open Visit

/-! ## Media rules around a text -/

/-- What media rules put before the text inside them. -/
def openMedia : List String → String
  | [] => ""
  | head :: rest => head ++ "\x7b" ++ openMedia rest

/-- What media rules put behind the text inside them. -/
def closeMedia : List String → String
  | [] => ""
  | _ :: rest => closeMedia rest ++ "\x7d"

theorem foldr_rule (heads : List String) (inner : String) :
    heads.foldr rule inner = openMedia heads ++ inner ++ closeMedia heads := by
  induction heads with
  | nil => simp [openMedia, closeMedia]
  | cons head rest ih => simp only [List.foldr_cons, ih, rule, openMedia, closeMedia,
      String.append_assoc]

/-! ## Templates -/

/-- A rule with the scope left out. -/
structure Template where
  opener : Trail
  /-- What the media rules around it start with, outermost first. -/
  media : List String
  declarations : String

namespace Template

def before (t : Template) : String :=
  openMedia t.media

def after (t : Template) : String :=
  t.opener.suffix ++ "\x7b" ++ t.declarations ++ "\x7d" ++ closeMedia t.media

/-- The block is a breakpoint block that belongs to the root. -/
def ofRoot (t : Template) : Bool :=
  t.opener.all fun step => step.opening.isMedia

theorem fill_eq (t : Template) (scope : String) :
    t.before ++ scope ++ t.after =
      t.media.foldr rule (rule (scope ++ t.opener.suffix) t.declarations) := by
  simp only [before, after, foldr_rule, rule, String.append_assoc]

end Template

/-- The template of the rule of an opener. -/
def Trail.template (c : Config) (tree : Mapping) (context : Option String) (t : Trail) :
    Template where
  opener := t
  media := ((chain c.breakpoints context t).filterMap
    (Registry.findIn? c.breakpoints.toList)).map Breakpoint.media
  declarations := renderDeclarations (ownDeclarations c tree context t)

variable {c : Config} {tree : Mapping} {scope context : Option String}

theorem render_template {s : String} (hsep : c.setting.Separates s) {t : Trail}
    (ht : t ∈ treeOpeners c tree context) :
    (Trail.block c.setting s context t (ownDeclarations c tree context t)).render =
      if (t.template c tree context).ofRoot ∧ s = c.placeholder then
        (t.template c tree context).media.foldr rule (t.template c tree context).declarations
      else (t.template c tree context).before ++ s ++ (t.template c tree context).after := by
  have hbare : (Trail.block c.setting s context t (ownDeclarations c tree context t)).bare = true ↔
      (t.template c tree context).ofRoot = true ∧ s = c.placeholder := by
    rw [Trail.bare_block hsep (ne_nil_of_mem_treeOpeners ht) (extends_of_mem_treeOpeners ht),
      Template.ofRoot, List.all_eq_true]
    rfl
  rw [Block.render, Block.core, Template.fill_eq, ← List.foldr_map]
  by_cases h : (t.template c tree context).ofRoot = true ∧ s = c.placeholder
  · rw [if_pos h, if_pos (hbare.mpr h)]
    rfl
  · rw [if_neg h, if_neg (hbare.not.mpr h)]
    rfl

theorem compile_eq_templates (hcontext : c.breakpoints.Admits context) (hwf : WellFormed c tree)
    (hsep : c.setting.Separates (c.scopeOf scope)) :
    compile c (.mapping tree) scope context = .ok
      ⟨renderDeclarations (ownDeclarations c tree context []),
        ((filledOpeners c tree context).map (Trail.template c tree context)).map fun t =>
          if t.ofRoot ∧ c.scopeOf scope = c.placeholder then t.media.foldr rule t.declarations
          else t.before ++ c.scopeOf scope ++ t.after⟩ := by
  refine compile_eq_ok.mpr ⟨hcontext, hwf, ?_⟩
  rw [treeSheet_eq, Sheet.render, Output.mk.injEq]
  refine ⟨rfl, ?_⟩
  rw [List.map_map, List.map_map]
  exact List.map_congr_left fun t ht =>
    (render_template hsep (mem_filledOpeners.mp ht).1).symm

theorem Config.scopeOf_placeholder (c : Config) :
    c.scopeOf (some c.placeholder) = c.placeholder := by
  rw [scopeOf]
  split <;> rfl

theorem Config.scopeOf_of_ne {s : String} (h : ∀ rest, s ++ rest ≠ c.placeholder) :
    c.scopeOf (some s) = s := by
  refine if_neg ?_
  rintro rfl
  exact h c.placeholder String.empty_append

/-- The output of a tree that compiles for some scope is uniform in the scope. -/
theorem compile_uniform {o : Output} (h : compile c (.mapping tree) scope context = .ok o) :
    ∃ (declarations : String) (templates : List Template),
      templates.map Template.opener = filledOpeners c tree context ∧
      (∀ s, (∀ rest, s ++ rest ≠ c.placeholder) →
        compile c (.mapping tree) (some s) context =
          .ok ⟨declarations, templates.map fun t => t.before ++ s ++ t.after⟩) ∧
      compile c (.mapping tree) (some c.placeholder) context =
        .ok ⟨declarations, templates.map fun t =>
          if t.ofRoot then t.media.foldr rule t.declarations
          else t.before ++ c.placeholder ++ t.after⟩ ∧
      ∀ t ∈ templates, (t.ofRoot = true → t.opener.suffix = "") ∧
        ∀ s, t.before ++ s ++ t.after =
          t.media.foldr rule (rule (s ++ t.opener.suffix) t.declarations) := by
  obtain ⟨hcontext, hwf, -⟩ := compile_eq_ok.mp h
  refine ⟨renderDeclarations (ownDeclarations c tree context []),
    (filledOpeners c tree context).map (Trail.template c tree context), ?_, fun s hs => ?_, ?_,
    fun t ht => ⟨fun hroot => ?_, t.fill_eq⟩⟩
  · rw [List.map_map]
    exact List.map_id _
  · have hscope := Config.scopeOf_of_ne hs
    have hne : s ≠ c.placeholder := fun heq => hs "" (by rw [String.append_empty, heq])
    have hsep : c.setting.Separates (c.scopeOf (some s)) := by
      rw [hscope]
      exact .inr hs
    have hcompile := compile_eq_templates hcontext hwf hsep
    simpa only [hscope, hne, and_false, ↓reduceIte] using hcompile
  · have hscope := c.scopeOf_placeholder
    have hcompile := compile_eq_templates hcontext hwf (.inl hscope)
    simpa only [hscope, and_true] using hcompile
  · obtain ⟨opener, hopener, rfl⟩ := List.mem_map.mp ht
    have hext := extends_of_mem_treeOpeners (mem_filledOpeners.mp hopener).1
    exact (Trail.suffix_eq_empty hext).mpr (List.all_eq_true.mp hroot)

theorem compile_uniform_sample :
    compile .standard (.mapping sampleTree) none none = .ok sampleOutput ∧
      ∃ (declarations : String) (templates : List Template),
        compile .standard (.mapping sampleTree) (some ".card") none =
          .ok ⟨declarations, templates.map fun t => t.before ++ ".card" ++ t.after⟩ := by
  obtain ⟨declarations, templates, -, hscope, -⟩ := compile_uniform compile_sampleTree
  refine ⟨compile_sampleTree, declarations, templates, hscope ".card" fun rest heq => ?_⟩
  have hchars := congrArg String.toList heq
  simp [Config.standard] at hchars

end StyleTree
