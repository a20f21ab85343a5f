import StyleTree.Proofs.Compilation
import StyleTree.Proofs.OpenerBlock

/-!
# Style sheets of their own

A style sheet is a row of rules: the rule of the root in front, then one for each opener with
declarations of its own. Every rule has declarations and a selector that starts with the root's.
Whether the selector is written is decided by the placeholder (`standalone_bare_eq_false`): the
declarations of a breakpoint block whose selector is the placeholder stand bare in their media rule,
as they may inside a host rule. A style sheet has no host rule around it, so that such a block is out
of place there (`stylesheet_bare_placeholder`). A selector that the placeholder does not begin with
is always written (`stylesheet_isRuleRow`).
-/

namespace StyleTree

variable {c : Config} {tree : Mapping} {selector : String}

theorem renderDeclarations_eq_empty {ds : List Declaration} :
    renderDeclarations ds = "" ↔ ds = [] := by
  cases ds with
  | nil => simp [renderDeclarations]
  | cons d rest => simp [renderDeclarations, Declaration.render, String.append_eq_empty_iff]

/-- The rules of a scope, its own in front. A scope without declarations has no rule of its own. -/
def Output.close (selector : String) (bare : Bool) (o : Output) : List String :=
  (if o.declarations = "" then []
    else [if bare then o.declarations else rule selector o.declarations]) ++ o.rules

theorem Sheet.map_render_close (s : Sheet) (selector : String) (bare : Bool) :
    (s.close selector bare).map Block.render = s.render.close selector bare := by
  have hdeclarations : s.render.declarations = renderDeclarations s.declarations := rfl
  rw [close, Block.own, List.map_append, Output.close, hdeclarations]
  by_cases h : s.declarations = []
  · rw [if_pos (renderDeclarations_eq_empty.mpr h), if_pos (by rw [h]; rfl)]
    rfl
  · rw [if_neg (mt renderDeclarations_eq_empty.mp h), if_neg (by simpa using h)]
    rfl

/-- The rules of a style sheet are those of the closed root scope. -/
theorem standalone_render (s : Sheet) :
    s.render.standalone selector = String.join ((s.close selector false).map Block.render) := by
  rw [s.map_render_close, Output.close, Output.standalone, String.join_append]
  split
  · rfl
  · rw [String.join_cons, String.join_nil, String.append_empty]
    rfl

/-- What a style sheet is compiled from. -/
theorem stylesheet_eq_ok {css : String} :
    stylesheet c selector (.mapping tree) = .ok css ↔
      Text.isBlank selector = false ∧ WellFormed c tree ∧
        css = (treeSheet c tree (some selector) none).render.standalone selector := by
  rw [stylesheet, compileRoot]
  by_cases hblank : Text.isBlank selector = true
  · rw [if_pos hblank]
    constructor
    · intro h
      cases h
    · rintro ⟨hfalse, -⟩
      rw [hblank] at hfalse
      cases hfalse
  rw [if_neg hblank]
  constructor
  · intro h
    cases ho : compile c (.mapping tree) (some selector) none with
    | error e =>
      rw [ho] at h
      cases h
    | ok o =>
      obtain ⟨-, hwf, rfl⟩ := compile_eq_ok.mp ho
      rw [ho] at h
      cases h
      exact ⟨by simpa using hblank, hwf, rfl⟩
  · rintro ⟨-, hwf, rfl⟩
    rw [compile_eq_ok.mpr ⟨Registry.admits_none, hwf, rfl⟩]
    rfl

theorem Config.scopeOf_of_not_blank (h : Text.isBlank selector = false) :
    c.scopeOf (some selector) = selector := by
  refine if_neg ?_
  rintro rfl
  cases h

/-- The blocks of a style sheet: the root's, if it has declarations, and one for each opener that
has. -/
theorem mem_standalone_blocks (hblank : Text.isBlank selector = false) {b : Block} :
    b ∈ (treeSheet c tree (some selector) none).close selector false ↔
      (ownDeclarations c tree none [] ≠ [] ∧
        b = ⟨[], selector, false, ownDeclarations c tree none []⟩) ∨
      ∃ t ∈ filledOpeners c tree none,
        Trail.block c.setting selector none t (ownDeclarations c tree none t) = b := by
  rw [treeSheet_eq, Config.scopeOf_of_not_blank hblank, Sheet.close, List.mem_append,
    List.mem_map]
  refine or_congr_left ?_
  rw [Block.own]
  by_cases h : ownDeclarations c tree none [] = []
  · simp [h]
  · simp [h]

/-- All rules of a style sheet have their selector written exactly if no breakpoint block with
declarations has the placeholder for its selector. -/
theorem standalone_bare_eq_false (hblank : Text.isBlank selector = false) :
    (∀ b ∈ (treeSheet c tree (some selector) none).close selector false, b.bare = false) ↔
      ∀ t ∈ filledOpeners c tree none, t.endsInMedia = true →
        selector ++ t.suffix ≠ c.placeholder := by
  constructor
  · intro hall t ht hends heq
    have hfalse := hall _ ((mem_standalone_blocks hblank).mpr (.inr ⟨t, ht, rfl⟩))
    simp [Trail.block, hends, heq, Config.setting] at hfalse
  · intro hne b hb
    rcases (mem_standalone_blocks hblank).mp hb with ⟨-, rfl⟩ | ⟨t, ht, rfl⟩
    · rfl
    · have ht := hne t ht
      rw [Trail.block, Bool.and_eq_false_imp, decide_eq_false_iff_not]
      exact ht

/-! ## Rows of rules -/

/-- The text is a row of rules with declarations, each in media rules of the configuration and with
a selector that starts with the given one. -/
def IsRuleRow (c : Config) (selector css : String) : Prop :=
  ∃ blocks : List Block,
    (css = String.join (blocks.map fun b => b.media.foldr (fun m inner => rule m.media inner)
      (rule b.selector (renderDeclarations b.declarations)))) ∧
    ∀ b ∈ blocks, (∃ rest, b.selector = selector ++ rest) ∧
      renderDeclarations b.declarations ≠ "" ∧ ∀ m ∈ b.media, m ∈ c.breakpoints.toList

/-- A style sheet is a row of rules unless a breakpoint block with declarations has the placeholder
for its selector. For a selector that the placeholder does not begin with there is no such block. -/
theorem stylesheet_isRuleRow {css : String}
    (h : stylesheet c selector (.mapping tree) = .ok css)
    (hplaceholder : ∀ t ∈ filledOpeners c tree none, t.endsInMedia = true →
      selector ++ t.suffix ≠ c.placeholder) :
    IsRuleRow c selector css := by
  obtain ⟨hblank, -, rfl⟩ := stylesheet_eq_ok.mp h
  have hbare := (standalone_bare_eq_false hblank).mpr hplaceholder
  refine ⟨(treeSheet c tree (some selector) none).close selector false, ?_, fun b hb => ?_⟩
  · rw [standalone_render]
    refine congrArg String.join (List.map_congr_left fun b hb => ?_)
    rw [Block.render, Block.core, hbare b hb]
    rfl
  · rw [Ne, renderDeclarations_eq_empty]
    rcases (mem_standalone_blocks hblank).mp hb with ⟨hne, rfl⟩ | ⟨t, ht, rfl⟩
    · refine ⟨⟨"", String.append_empty.symm⟩, hne, fun m hm => ?_⟩
      cases hm
    · refine ⟨⟨t.suffix, rfl⟩, (mem_filledOpeners.mp ht).2, fun m hm => ?_⟩
      obtain ⟨name, -, hname⟩ := List.mem_filterMap.mp hm
      exact Registry.mem_of_findIn? hname

/-- The sample tree for elements of a class, as a style sheet. -/
def sampleStylesheet : String :=
  ".card\x7bcolor:red;\x7d" ++
    "@media print, only screen and (min-width: 768px)\x7b.card\x7bline-height:2;width:1px;\x7d\x7d" ++
    "@media print, only screen and (min-width: 768px)\x7b.card:hover\x7bmargin:3px;\x7d\x7d"

theorem stylesheet_isRuleRow_sample :
    stylesheet .standard ".card" (.mapping sampleTree) = .ok sampleStylesheet ∧
      IsRuleRow .standard ".card" sampleStylesheet := by
  have hcss : stylesheet .standard ".card" (.mapping sampleTree) = .ok sampleStylesheet := by rfl
  refine ⟨hcss, stylesheet_isRuleRow hcss fun t _ _ heq => ?_⟩
  have hchars := congrArg String.toList heq
  simp [Config.standard] at hchars

/-- A row of rules shows the first character of its selectors. -/
theorem IsRuleRow.mem_of_ne {css : String} (h : IsRuleRow c selector css) (hne : css ≠ "")
    {ch : Char} {rest : List Char} (hsel : selector.toList = ch :: rest) : ch ∈ css.toList := by
  obtain ⟨blocks, rfl, hblocks⟩ := h
  cases blocks with
  | nil => exact absurd rfl hne
  | cons b others =>
    obtain ⟨⟨suffix, hsuffix⟩, -⟩ := hblocks b List.mem_cons_self
    have hrule (media : List Breakpoint) :
        ch ∈ (media.foldr (fun m inner => rule m.media inner)
          (rule b.selector (renderDeclarations b.declarations))).toList := by
      induction media with
      | nil => simp [rule, hsuffix, hsel]
      | cons m media ih =>
        rw [List.foldr_cons, rule]
        simp [ih]
    rw [List.map_cons, String.join_cons, String.toList_append, List.mem_append]
    exact .inl (hrule b.media)

/-- With the placeholder for its selector a style sheet holds a bare declaration. -/
theorem stylesheet_bare_placeholder :
    stylesheet .standard "&" (.mapping [("tablet", .mapping [("color", .text "red")])]) =
        .ok "@media print, only screen and (min-width: 768px)\x7bcolor:red;\x7d" ∧
      ¬ IsRuleRow .standard "&"
        "@media print, only screen and (min-width: 768px)\x7bcolor:red;\x7d" := by
  refine ⟨rfl, fun hrow => ?_⟩
  have hmem : '&' ∈ _ := hrow.mem_of_ne (by decide) rfl
  revert hmem
  decide

end StyleTree
