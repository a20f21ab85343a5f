import StyleTree.Proofs.Bracing
import StyleTree.Proofs.Compilation
import StyleTree.Proofs.OpenerBlock
import StyleTree.Proofs.PlainText

/-!
# Reading style sheets back

The text of an output does not say where its parts end, yet the output can be read off it by its
braces and semicolons (`IsReadable.read_css`), as long as these stand for nothing else. Of the texts
that reach the output (`Reaches`) none may hold such a mark; what the compiler adds is plain. So
compilation loses nothing when it writes an output as one text (`compile_readable`).
-/

namespace StyleTree

open Text Visit

/-! ## Rules and declarations -/

section Rules

variable {head body : String}

theorem toList_rule (head body : String) :
    (rule head body).toList = head.toList ++ '\x7b' :: (body.toList ++ ['\x7d']) := by
  simp [rule]

theorem isRule_rule (hhead : IsPlain head) (hbody : IsBalanced body.toList) :
    IsRule (rule head body).toList := by
  rw [toList_rule]
  exact hbody.isRule (hhead.not_mem (by decide)) (hhead.not_mem (by decide))

theorem isBalanced_foldr {heads : List String} (hheads : ∀ head ∈ heads, IsPlain head)
    (hbody : IsBalanced body.toList) : IsBalanced (heads.foldr rule body).toList := by
  induction heads with
  | nil => exact hbody
  | cons head rest ih =>
    have hrest := ih fun other hother => hheads other (List.mem_cons_of_mem _ hother)
    exact (isRule_rule (hheads head List.mem_cons_self) hrest).balanced

/-- What stands before the first brace of a rule is its head, whatever follows the rule. -/
theorem takeWhile_rule_append (hhead : IsPlain head) (body : String) (after : List Char) :
    ((rule head body).toList ++ after).takeWhile (· ≠ '\x7b') = head.toList := by
  have hhead : '\x7b' ∉ head.toList := hhead.not_mem (by decide)
  rw [toList_rule, List.append_assoc, List.takeWhile_append_of_pos (decide_ne_of_not_mem hhead),
    List.cons_append, List.takeWhile_cons_of_neg (by simp), List.append_nil]

variable {ds : List Declaration}

/-- Plain declarations are written without braces. -/
theorem renderDeclarations_not_mem (h : ∀ d ∈ ds, d.IsPlain) {brace : Char}
    (hmark : brace ∈ marks) (hbrace : brace ∉ [':', ';']) :
    brace ∉ (renderDeclarations ds).toList := by
  rw [renderDeclarations, String.toList_join]
  intro hmem
  obtain ⟨text, htext, hmem⟩ := List.mem_flatMap.mp hmem
  obtain ⟨d, hd, rfl⟩ := List.mem_map.mp htext
  have hproperty := (h d hd).property.not_mem hmark
  have hvalue := (h d hd).value.not_mem hmark
  have hrender : brace ∉ d.render.toList := by
    simpa [Declaration.render, hproperty, hvalue] using hbrace
  exact hrender hmem

theorem isBalanced_renderDeclarations (h : ∀ d ∈ ds, d.IsPlain) :
    IsBalanced (renderDeclarations ds).toList :=
  isBalanced_of_not_mem (renderDeclarations_not_mem h (by decide) (by decide))
    (renderDeclarations_not_mem h (by decide) (by decide))

theorem renderDeclarations_ended (ds : List Declaration) :
    (renderDeclarations ds).toList = [] ∨
      ∃ start, (renderDeclarations ds).toList = start ++ [';'] := by
  rcases List.eq_nil_or_concat ds with rfl | ⟨before, d, rfl⟩
  · exact .inl rfl
  · refine .inr ⟨(renderDeclarations before).toList ++ (d.property ++ ":" ++ d.value).toList, ?_⟩
    simp [renderDeclarations, Declaration.render, String.toList_join]

end Rules

/-! ## Outputs -/

namespace Output

/-- The output that a style sheet shows: the declarations in front, and the rules behind them. -/
def read (css : String) : Output :=
  let front := leading css.toList
  ⟨String.ofList front, (scanRules 0 [] (css.toList.drop front.length)).map String.ofList⟩

/-- The declarations are without braces and end with a semicolon; the rules have plain heads and
balanced bodies. -/
structure IsReadable (o : Output) : Prop where
  declarations : '\x7b' ∉ o.declarations.toList
  ended : o.declarations.toList = [] ∨ ∃ start, o.declarations.toList = start ++ [';']
  rules : ∀ r ∈ o.rules, ∃ head body, r = rule head body ∧ IsPlain head ∧ IsBalanced body.toList

namespace IsReadable

variable {o o' : Output}

theorem isRule (h : o.IsReadable) : ∀ r ∈ o.rules, IsRule r.toList := by
  intro r hr
  obtain ⟨head, body, rfl, hhead, hbody⟩ := h.rules r hr
  exact isRule_rule hhead hbody

/-- Behind the declarations no semicolon stands before the first brace. -/
theorem not_mem_takeWhile (h : o.IsReadable) :
    ';' ∉ (o.rules.flatMap String.toList).takeWhile (· ≠ '\x7b') := by
  cases hrules : o.rules with
  | nil => simp
  | cons r rest =>
    have hr : r ∈ o.rules := by simp [hrules]
    obtain ⟨head, body, rfl, hhead, -⟩ := h.rules r hr
    rw [List.flatMap_cons, takeWhile_rule_append hhead]
    exact hhead.not_mem (by decide)

/-- Reading undoes writing. -/
theorem read_css (h : o.IsReadable) : read o.css = o := by
  have hcss : o.css.toList = o.declarations.toList ++ o.rules.flatMap String.toList := by
    rw [css, String.toList_append, String.toList_join]
  have hfront : leading o.css.toList = o.declarations.toList := by
    rw [hcss]
    exact leading_append h.declarations h.ended h.not_mem_takeWhile
  have hrules : scanRules 0 [] (o.rules.flatMap String.toList) = o.rules.map String.toList := by
    rw [List.flatMap_def]
    refine scanRules_flatten fun cs hcs => ?_
    obtain ⟨r, hr, rfl⟩ := List.mem_map.mp hcs
    exact h.isRule r hr
  have hmap : (o.rules.map String.toList).map String.ofList = o.rules := by
    rw [List.map_map]
    exact List.map_id'' (fun r => String.ofList_toList) o.rules
  rw [read, hfront, hcss, List.drop_left, hrules, hmap, String.ofList_toList]

theorem css_inj (h : o.IsReadable) (h' : o'.IsReadable) (heq : o.css = o'.css) : o = o' := by
  rw [← h.read_css, heq, h'.read_css]

end IsReadable

end Output

/-! ## What reaches the output -/

/-- The texts of a tree, of a configuration and of the scope that are found in the output: the keys
and values of property entries along the walk, and what the selectors and the media rules of openers with
declarations are made of. -/
inductive Reaches (c : Config) (tree : Mapping) (scope context : Option String) :
    String → Prop where
  | key {e : Entry} : e ∈ walked c tree → e.kind = .property →
      Reaches c tree scope context e.key
  | value {e : Entry} {s : String} : e ∈ walked c tree → e.kind = .property →
      s ∈ c.shown? (Property.name e.key) e.value → Reaches c tree scope context s
  | scope {t : Trail} : t ∈ filledOpeners c tree context →
      (t.block c.setting (c.scopeOf scope) context []).bare = false →
      Reaches c tree scope context (c.scopeOf scope)
  | suffix {t : Trail} {step : Step} {s : String} : t ∈ filledOpeners c tree context →
      (t.block c.setting (c.scopeOf scope) context []).bare = false → step ∈ t →
      step.opening.Shows s → Reaches c tree scope context s
  | predicate {t : Trail} {b : Breakpoint} : t ∈ filledOpeners c tree context →
      b ∈ (t.block c.setting (c.scopeOf scope) context []).media →
      Reaches c tree scope context b.predicate

section Compiled

variable {c : Config} {tree : Mapping} {scope context : Option String}

theorem isPlain_ownDeclarations (hplain : ∀ s, Reaches c tree scope context s → IsPlain s)
    (t : Trail) : ∀ d ∈ ownDeclarations c tree context t, d.IsPlain := by
  intro d hd
  rw [ownDeclarations, declarationWalk, assigned_select] at hd
  obtain ⟨e, he, hd⟩ := List.mem_filterMap.mp hd
  have hentry : e ∈ walked c tree := mem_held_of_mem_assigned he
  rw [Entry.declaration?] at hd
  split at hd
  · rename_i hk
    split at hd
    · rename_i written hw
      cases hd
      exact ⟨Property.isPlain_name (hplain _ (.key hentry hk)),
        ValueRules.isPlain_write hw fun s hs => hplain s (.value hentry hk hs)⟩
    · cases hd
  · cases hd

theorem isPlain_heads (hplain : ∀ s, Reaches c tree scope context s → IsPlain s) {t : Trail}
    (ht : t ∈ filledOpeners c tree context) :
    ∀ head ∈ t.heads c.setting (c.scopeOf scope) context, IsPlain head := by
  intro head hhead
  rcases List.mem_append.mp hhead with hhead | hhead
  · obtain ⟨b, hb, rfl⟩ := List.mem_map.mp hhead
    exact isPlain_append.mpr ⟨by decide, hplain _ (.predicate ht hb)⟩
  · split at hhead
    · cases hhead
    rename_i hbare
    rw [Bool.not_eq_true] at hbare
    rw [List.mem_singleton.mp hhead]
    have hsuffix : IsPlain t.suffix := Trail.isPlain_suffix fun step hstep =>
      plain_walk c tree _ (mem_openers.mp (mem_filledOpeners.mp ht).1).1 step hstep
        fun s hs => hplain s (.suffix ht hbare hstep hs)
    exact isPlain_append.mpr ⟨hplain _ (.scope ht hbare), hsuffix⟩

/-- What is compiled from texts without marks is readable. -/
theorem isReadable_of_compile {o : Output} (h : compile c (.mapping tree) scope context = .ok o)
    (hplain : ∀ s, Reaches c tree scope context s → IsPlain s) : o.IsReadable := by
  obtain ⟨-, -, rfl⟩ := compile_eq_ok.mp h
  rw [treeSheet_eq, Sheet.render, List.map_map]
  have hds := isPlain_ownDeclarations hplain
  refine ⟨renderDeclarations_not_mem (hds []) (by decide) (by decide),
    renderDeclarations_ended _, fun r hr => ?_⟩
  obtain ⟨t, ht, rfl⟩ := List.mem_map.mp hr
  have hopener := (mem_filledOpeners.mp ht).1
  have hne : t.heads c.setting (c.scopeOf scope) context ≠ [] :=
    Trail.heads_ne_nil (owner_of_mem_treeOpeners hopener) (known_of_mem_treeOpeners hopener)
  have hheads := isPlain_heads hplain ht
  rw [Function.comp_apply, render_block]
  obtain ⟨head, rest, heq⟩ := List.exists_cons_of_ne_nil hne
  rw [heq] at hheads ⊢
  exact ⟨head, _, rfl, hheads head List.mem_cons_self,
    isBalanced_foldr (fun other hother => hheads other (List.mem_cons_of_mem _ hother))
      (isBalanced_renderDeclarations (hds t))⟩

/-- An output can be read back when no text that reaches it holds a brace or a semicolon. Its rules
are balanced and end with the brace that closes their first one, the scanner finds the declarations
and the rules again, and so no two outputs have the same text. -/
theorem compile_readable {o : Output} (h : compile c (.mapping tree) scope context = .ok o)
    (hplain : ∀ s, Reaches c tree scope context s → IsPlain s) :
    (∀ r ∈ o.rules, IsRule r.toList) ∧ Output.read o.css = o ∧
      ∀ (c' : Config) (tree' : Mapping) (scope' context' : Option String) (o' : Output),
        compile c' (.mapping tree') scope' context' = .ok o' →
        (∀ s, Reaches c' tree' scope' context' s → IsPlain s) → o.css = o'.css → o = o' := by
  have hreadable := isReadable_of_compile h hplain
  exact ⟨hreadable.isRule, hreadable.read_css, fun _ _ _ _ _ h' hplain' =>
    hreadable.css_inj (isReadable_of_compile h' hplain')⟩

end Compiled

/-- The texts of the sample tree hold no marks. -/
theorem reaches_sampleTree {s : String} (h : Reaches .standard sampleTree none none s) :
    IsPlain s := by
  have hentries : ∀ e ∈ walked .standard sampleTree, IsPlain e.key ∧
      ∀ s ∈ Config.standard.shown? (Property.name e.key) e.value, IsPlain s := by decide
  have hopeners : ∀ t ∈ filledOpeners .standard sampleTree none,
      (∀ step ∈ t, IsPlain step.opening.suffix) ∧
      ∀ b ∈ (t.block Config.standard.setting "&" none []).media, IsPlain b.predicate := by decide
  cases h with
  | key he _ => exact (hentries _ he).1
  | value he _ hs => exact (hentries _ he).2 s hs
  | scope _ _ => decide
  | suffix ht _ hstep hs => exact hs.isPlain ((hopeners _ ht).1 _ hstep)
  | predicate ht hb => exact (hopeners _ ht).2 _ hb

theorem compile_readable_sample :
    compile .standard (.mapping sampleTree) none none = .ok sampleOutput ∧
      (∀ s, Reaches .standard sampleTree none none s → IsPlain s) ∧
      Output.read sampleOutput.css = sampleOutput :=
  ⟨compile_sampleTree, fun _ => reaches_sampleTree,
    (compile_readable compile_sampleTree fun _ => reaches_sampleTree).2.1⟩

end StyleTree
