import Mathlib.Data.List.Perm.Basic
import StyleTree.Proofs.Compilation
import StyleTree.Proofs.OpenerBlock

/-!
# Merging keeps the cascade

In a medium some breakpoints are active, and with a breakpoint all that it inherits from. What a
tree says in the medium are its declarations whose breakpoints are all active, and what a sheet says
are the declarations of the root and of the blocks whose media rules are all active. Compilation
keeps what is said (`compile_cascade`), though it leaves out the media rules of merged breakpoints:
these are active wherever the context that implies them is (`all_chain`).
-/

namespace StyleTree

open Visit

/-- With a breakpoint, all that it inherits from is active. -/
def Registry.Closed (r : Registry) (active : String → Bool) : Prop :=
  ∀ b ∈ r.toList, active b.name = true → ∀ parent ∈ b.inheritsFrom, active parent = true

/-- What a visit says in a medium: a declaration for a selector. -/
def Visit.style? (scope : String) (active : String → Bool) :
    Visit Declaration → Option (String × Declaration)
  | .opens _ => none
  | .holds t d => if t.breakpoints.all active then some (scope ++ t.suffix, d) else none

/-- What a tree says in a medium. -/
def treeStyles (c : Config) (tree : Mapping) (scope : String) (active : String → Bool) :
    List (String × Declaration) :=
  (declarationWalk c tree).filterMap (style? scope active)

def Block.styles (active : String → Bool) (b : Block) : List (String × Declaration) :=
  if b.media.all fun m => active m.name then b.declarations.map (b.selector, ·) else []

/-- What a sheet says in a medium. -/
def Sheet.styles (scope : String) (active : String → Bool) (s : Sheet) :
    List (String × Declaration) :=
  s.declarations.map (scope, ·) ++ s.blocks.flatMap (Block.styles active)

section Lists

variable {α β : Type}

theorem flatMap_filter_of_eq_nil {p : α → Bool} {f : α → List β} {l : List α}
    (h : ∀ a ∈ l, p a = false → f a = []) : (l.filter p).flatMap f = l.flatMap f := by
  induction l with
  | nil => rfl
  | cons a l ih =>
    have ih := ih fun b hb => h b (List.mem_cons_of_mem _ hb)
    cases hp : p a with
    | true => rw [List.filter_cons_of_pos hp, List.flatMap_cons, List.flatMap_cons, ih]
    | false =>
      rw [List.filter_cons_of_neg (by simp [hp]), List.flatMap_cons, h a List.mem_cons_self hp, ih]
      rfl

/-- A list sorted into groups by distinct keys. -/
theorem perm_flatMap_filter [DecidableEq β] (key : α → β) {keys : List β} (hnodup : keys.Nodup) {l : List α}
    (h : ∀ a ∈ l, key a ∈ keys) : (keys.flatMap fun k => l.filter fun a => key a = k).Perm l := by
  induction keys generalizing l with
  | nil =>
    cases l with
    | nil => exact .nil
    | cons a l => cases h a List.mem_cons_self
  | cons k keys ih =>
    obtain ⟨hk, hnodup⟩ := List.nodup_cons.mp hnodup
    have hrest : ∀ a ∈ l.filter fun a => !decide (key a = k), key a ∈ keys := by
      intro a ha
      rw [List.mem_filter, Bool.not_eq_true', decide_eq_false_iff_not] at ha
      exact (List.mem_cons.mp (h a ha.1)).resolve_left ha.2
    have hgroups : (keys.flatMap fun k' => l.filter fun a => key a = k') =
        keys.flatMap fun k' =>
          (l.filter fun a => !decide (key a = k)).filter fun a => key a = k' := by
      refine List.flatMap_congr fun k' hk' => ?_
      rw [List.filter_filter]
      refine List.filter_congr fun a _ => ?_
      by_cases ha : key a = k'
      · have hne : key a ≠ k := fun heq => hk (by rwa [← heq, ha])
        rw [decide_eq_true ha, decide_eq_false hne]
        rfl
      · rw [decide_eq_false ha, Bool.false_and]
    rw [List.flatMap_cons, hgroups]
    exact ((ih hnodup hrest).append_left _).trans (List.filter_append_perm _ l)

end Lists

/-- Where the context is active, the media rules that are kept decide about all breakpoints. -/
theorem Trail.all_chain {r : Registry} {active : String → Bool} (hclosed : r.Closed active) :
    ∀ {context : Option String} (t : Trail), (∀ m ∈ context, active m = true) →
      (chain r context t).all active = t.breakpoints.all active
  | _, [], _ => rfl
  | _, ⟨_, .scope _⟩ :: t, hcontext => all_chain hclosed t hcontext
  | context, ⟨_, .media name⟩ :: t, hcontext => by
    rw [breakpoints, List.all_cons]
    cases hc : r.covers context name with
    | true =>
      obtain ⟨b, hb, heq, hname⟩ := Registry.covers_eq_true hc
      have hactive : active b.name = true := hcontext _ heq
      have : active name = true := by
        rcases hname with rfl | hname
        · exact hactive
        · exact hclosed b hb hactive name hname
      simp only [chain, hc, ↓reduceIte, this, Bool.true_and, all_chain hclosed t hcontext]
    | false =>
      rw [chain, hc, if_neg Bool.false_ne_true, List.all_cons]
      cases hname : active name with
      | true => rw [all_chain hclosed t fun m hm => by cases hm; exact hname]
      | false => rfl

section Gather

variable {g : Setting} {scope : String} {context : Option String} {active : String → Bool}
  {visits : List (Visit Declaration)}

/-- A declaration is in effect exactly if the media rules around its owner are. -/
theorem style?_holds (hclosed : g.registry.Closed active)
    (hcontext : ∀ m ∈ context, active m = true) (t : Trail) (d : Declaration) :
    style? scope active (.holds t d) =
      if (Trail.chain g.registry context (Trail.owner g.registry context t)).all active then
        some (scope ++ (Trail.owner g.registry context t).suffix, d)
      else none := by
  rw [Trail.chain_owner, Trail.suffix_owner, Trail.all_chain hclosed t hcontext, style?]

/-- What the visits say that are assigned to one opener. -/
theorem filterMap_style?_owner (scope : String) (visits : List (Visit Declaration))
    (hclosed : g.registry.Closed active)
    (hcontext : ∀ m ∈ context, active m = true) (t : Trail) :
    (visits.filter fun v => Trail.owner g.registry context v.trail = t).filterMap
        (style? scope active) =
      if (Trail.chain g.registry context t).all active then
        (assigned g.registry context t visits).map (scope ++ t.suffix, ·)
      else [] := by
  have hvisit : ∀ v ∈ visits,
      (if decide (Trail.owner g.registry context v.trail = t) then style? scope active v
        else none) =
        if (Trail.chain g.registry context t).all active then
          (assigned? g.registry context t v).map (scope ++ t.suffix, ·)
        else none := by
    intro v _
    cases v with
    | opens t' => simp [style?, assigned?]
    | holds t' d =>
      by_cases ht : Trail.owner g.registry context t' = t
      · rw [style?_holds hclosed hcontext, assigned?, if_pos ht, trail, ht, decide_eq_true rfl]
        rfl
      · simp [assigned?, trail, ht]
  rw [List.filterMap_filter, List.filterMap_congr hvisit, assigned, List.map_filterMap]
  split
  · rfl
  · exact List.filterMap_eq_nil_iff.mpr fun _ _ => rfl

theorem styles_block {t : Trail} (hknown : ∀ step ∈ t, step.opening.Known g.registry)
    (ds : List Declaration) :
    (Trail.block g scope context t ds).styles active =
      if (Trail.chain g.registry context t).all active then ds.map (scope ++ t.suffix, ·)
      else [] := by
  rw [Block.styles, ← Trail.names_media scope ds hknown, List.all_map]
  rfl

/-- A sheet says, opener by opener, what the walk says. -/
theorem styles_gather (hknown : EveryStep (Opening.Known g.registry) visits)
    (hclosed : g.registry.Closed active) (hcontext : ∀ m ∈ context, active m = true) :
    (Sheet.gather g scope context visits).styles scope active =
      ([] :: openers g.registry context visits).flatMap fun t =>
        (visits.filter fun v => Trail.owner g.registry context v.trail = t).filterMap
          (style? scope active) := by
  have hgroup := filterMap_style?_owner scope visits hclosed hcontext
  have hopener : ∀ t ∈ openers g.registry context visits,
      ∀ step ∈ t, step.opening.Known g.registry :=
    fun t ht => hknown _ (mem_openers.mp ht).1
  have hroot : (visits.filter fun v => Trail.owner g.registry context v.trail = []).filterMap
      (style? scope active) = (assigned g.registry context [] visits).map (scope, ·) := by
    rw [hgroup [], Trail.suffix, String.append_empty]
    rfl
  have hblocks : (Sheet.gather g scope context visits).blocks.flatMap (Block.styles active) =
      (openers g.registry context visits).flatMap fun t =>
        (visits.filter fun v => Trail.owner g.registry context v.trail = t).filterMap
          (style? scope active) := by
    rw [Sheet.gather, List.flatMap_map, flatMap_filter_of_eq_nil]
    · refine List.flatMap_congr fun t ht => ?_
      rw [styles_block (hopener t ht), hgroup t]
    · intro t ht hnil
      rw [styles_block (hopener t ht)]
      have hnil : assigned g.registry context t visits = [] := by simpa using hnil
      simp [hnil]
  rw [Sheet.styles, hblocks, List.flatMap_cons, hroot]
  rfl

/-- A sheet says what the walk says: no visit is left out or repeated by its openers. -/
theorem perm_styles_gather {n : Nat} (hwalk : IsWalk n visits)
    (hknown : EveryStep (Opening.Known g.registry) visits) (hclosed : g.registry.Closed active)
    (hcontext : ∀ m ∈ context, active m = true) :
    ((Sheet.gather g scope context visits).styles scope active).Perm
      (visits.filterMap (style? scope active)) := by
  have hkeys : ([] :: openers g.registry context visits).Nodup :=
    List.nodup_cons.mpr ⟨fun h => hwalk.openers_ne_nil h rfl, hwalk.nodup_openers _ _⟩
  have hperm := perm_flatMap_filter (fun v => Trail.owner g.registry context v.trail) hkeys
    fun v hv => hwalk.owner_mem_openers g.registry context hv
  rw [styles_gather hknown hclosed hcontext, ← List.filterMap_flatMap]
  exact hperm.filterMap _

end Gather

variable {c : Config} {tree : Mapping} {scope context : Option String}

/-- Compilation keeps the cascade. The rules render blocks whose declarations stand bare directly in
a media rule for the placeholder; and in every medium, what the root and the blocks say is what the
declarations of the tree say. -/
theorem compile_cascade {o : Output} (hsep : c.setting.Separates (c.scopeOf scope))
    (h : compile c (.mapping tree) scope context = .ok o) :
    ∃ s : Sheet, compileSheet c (.mapping tree) scope context = .ok s ∧
      o.declarations = renderDeclarations s.declarations ∧
      (o.rules = s.blocks.map fun b => b.media.foldr (fun m inner => rule m.media inner)
        (if b.media ≠ [] ∧ b.selector = c.placeholder then renderDeclarations b.declarations
          else rule b.selector (renderDeclarations b.declarations))) ∧
      (∀ b ∈ s.blocks, b.declarations ≠ [] ∧ ∀ m ∈ b.media, m ∈ c.breakpoints.toList) ∧
      ∀ active, c.breakpoints.Closed active → (∀ m ∈ context, active m = true) →
        (s.styles (c.scopeOf scope) active).Perm
          (treeStyles c tree (c.scopeOf scope) active) := by
  obtain ⟨hcontext, ⟨items, hitems⟩, rfl⟩ := compile_eq_ok.mp h
  refine ⟨treeSheet c tree scope context, by rw [compileSheet_eq hcontext, hitems]; rfl, rfl, ?_,
    fun b hb => ?_, fun active hclosed hactive => perm_styles_gather ((isWalk_walk c tree).select _)
      ((known_walk c tree).select _) hclosed hactive⟩
  · refine List.map_congr_left fun b hb => ?_
    rw [treeSheet_eq] at hb
    obtain ⟨t, ht, rfl⟩ := List.mem_map.mp hb
    have hopener := (mem_filledOpeners.mp ht).1
    rw [Block.render, Block.core]
    exact congrArg (List.foldr _ · _) (if_congr (Trail.bare_block_iff_media hsep
      (ne_nil_of_mem_treeOpeners hopener) (extends_of_mem_treeOpeners hopener)
      (known_of_mem_treeOpeners hopener) (owner_of_mem_treeOpeners hopener)) rfl rfl)
  · rw [treeSheet_eq] at hb
    obtain ⟨t, ht, rfl⟩ := List.mem_map.mp hb
    refine ⟨(mem_filledOpeners.mp ht).2, fun m hm => ?_⟩
    obtain ⟨name, -, hm⟩ := List.mem_filterMap.mp hm
    exact Registry.mem_of_findIn? hm

theorem compile_cascade_sample :
    compile .standard (.mapping sampleTree) none none = .ok sampleOutput ∧
      ∃ s : Sheet, compileSheet .standard (.mapping sampleTree) none none = .ok s ∧
        (s.styles "&" fun name => name = "tablet" || name = "small").Perm
          [("&", ⟨"color", "red"⟩), ("&", ⟨"line-height", "2"⟩), ("&:hover", ⟨"margin", "3px"⟩),
           ("&", ⟨"width", "1px"⟩)] := by
  obtain ⟨s, hs, -, -, -, hstyles⟩ := compile_cascade (.inl rfl) compile_sampleTree
  refine ⟨compile_sampleTree, s, hs, hstyles _ ?_ fun m hm => (nomatch hm)⟩
  unfold Registry.Closed
  decide

end StyleTree
