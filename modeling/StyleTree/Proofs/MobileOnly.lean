import StyleTree.Proofs.Compilation
import StyleTree.Proofs.OpenerBlock
import StyleTree.Proofs.RegistryFaults

/-!
# Mobile-only breakpoints are isolated

A mobile-only breakpoint of a registry neither inherits nor is inherited, so that it is implied in
its own context only (`Registry.covers_mobileOnly`) and nothing else is implied there
(`Registry.covers_in_mobileOnly`). Blocks are merged along implication. Hence what stands in a block
for such a breakpoint, however deep, is compiled into rules inside its media rule, and a block for
another breakpoint in its context gets a media rule of its own there (`compile_mobileOnly`).
-/

namespace StyleTree

open Visit

/-! ## What is implied -/

namespace Registry

variable {r : Registry} {m : Breakpoint} {context : Option String} {name : String}

/-- A mobile-only breakpoint is implied in its own context only. -/
theorem covers_mobileOnly (hm : m ∈ r.toList) (hmobile : m.mobileOnly = true) :
    r.covers context m.name = true ↔ context = some m.name := by
  constructor
  · intro h
    obtain ⟨b, hb, hcontext, hname⟩ := covers_eq_true h
    rcases hname with hname | hname
    · rw [hcontext, hname]
    · exact absurd hname (not_mem_inheritsFrom hm hmobile hb)
  · rintro rfl
    rw [covers, implies_of_findIn? (findIn?_of_mem hm)]
    simp

/-- In the context of a mobile-only breakpoint nothing else is implied. -/
theorem covers_in_mobileOnly (hm : m ∈ r.toList) (hmobile : m.mobileOnly = true) :
    r.covers (some m.name) name = true ↔ name = m.name := by
  rw [covers, implies_of_findIn? (findIn?_of_mem hm), inheritsFrom_of_mobileOnly hm hmobile]
  simp

end Registry

/-! ## The media rules around a block -/

namespace Trail

variable {r : Registry} {context : Option String} {m : Breakpoint}

theorem chain_append (r : Registry) : ∀ (context : Option String) (s t : Trail),
    chain r context (s ++ t) = chain r context s ++ chain r (inForce r context s) t
  | _, [], _ => rfl
  | context, ⟨_, .scope _⟩ :: s, t => by
    rw [inForce_cons]
    exact chain_append r context s t
  | context, ⟨_, .media name⟩ :: s, t => by
    have ih := fun context => chain_append r context s t
    rw [inForce_cons, Opening.inside, List.cons_append, chain, chain]
    split
    · exact ih context
    · rw [ih, List.cons_append]

/-- The innermost media rule is that of the context in force. -/
theorem chain_of_inForce {name : String} {t : Trail} (hcontext : context ≠ some name)
    (h : inForce r context t = some name) : ∃ outer, chain r context t = outer ++ [name] := by
  rw [inForce] at h
  cases hlast : (chain r context t).getLast? with
  | none =>
    rw [hlast, Option.none_or] at h
    exact absurd h hcontext
  | some last =>
    rw [hlast, Option.some_or] at h
    cases h
    exact List.getLast?_eq_some_iff.mp hlast

/-- In a block for a mobile-only breakpoint, however deep, its media rule stays around. -/
theorem mem_chain_of_mobileOnly (hm : m ∈ r.toList) (hmobile : m.mobileOnly = true) :
    ∀ {context : Option String} {t : Trail}, context ≠ some m.name → m.name ∈ t.breakpoints →
      m.name ∈ chain r context t
  | _, [], _, h => nomatch h
  | _, ⟨_, .scope _⟩ :: t, hcontext, h => mem_chain_of_mobileOnly (t := t) hm hmobile hcontext h
  | context, ⟨_, .media name⟩ :: t, hcontext, h => by
    rw [chain]
    cases hcov : r.covers context name with
    | true =>
      -- a merged block is not one for the breakpoint, which only its own context implies
      have hne : m.name ≠ name := by
        rintro rfl
        exact hcontext ((Registry.covers_mobileOnly hm hmobile).mp hcov)
      exact mem_chain_of_mobileOnly hm hmobile hcontext ((List.mem_cons.mp h).resolve_left hne)
    | false =>
      rcases List.mem_cons.mp h with rfl | h
      · exact List.mem_cons_self
      by_cases hname : some name = some m.name
      · cases hname
        exact List.mem_cons_self
      · exact List.mem_cons_of_mem _ (mem_chain_of_mobileOnly hm hmobile hname h)

/-- A block for another breakpoint in the context of a mobile-only one is not merged. -/
theorem opens_in_mobileOnly (hm : m ∈ r.toList) (hmobile : m.mobileOnly = true) {name : String}
    (hname : name ≠ m.name) : (Opening.media name).opens r (some m.name) = true := by
  have hcov : r.covers (some m.name) name ≠ true :=
    fun hcov => hname ((Registry.covers_in_mobileOnly hm hmobile).mp hcov)
  rw [Opening.opens, Bool.eq_false_iff.mpr hcov]
  rfl

/-- Around what is inside such a block stand the two media rules, one directly in the other. -/
theorem chain_in_mobileOnly (hm : m ∈ r.toList) (hmobile : m.mobileOnly = true) {name : String}
    (hname : name ≠ m.name) {t : Trail} (hcontext : context ≠ some m.name)
    (hforce : inForce r context t = some m.name) (place : Nat) :
    ∃ outer, ∀ t', t ++ [⟨place, .media name⟩] <+: t' →
      ∃ inner, chain r context t' = outer ++ m.name :: name :: inner := by
  have hopens := opens_in_mobileOnly hm hmobile hname
  rw [← hforce, Opening.opens, Bool.not_eq_true'] at hopens
  obtain ⟨outer, houter⟩ := chain_of_inForce hcontext hforce
  refine ⟨outer, ?_⟩
  rintro _ ⟨rest, rfl⟩
  rw [chain_append, chain_concat_media r context t place hopens, houter, List.append_assoc,
    List.append_assoc]
  exact ⟨_, rfl⟩

end Trail

/-! ## Compilations -/

/-- The block that an opener of a tree comes to. -/
def openerBlock (c : Config) (tree : Mapping) (scope context : Option String) (t : Trail) : Block :=
  Trail.block c.setting (c.scopeOf scope) context t (ownDeclarations c tree context t)

section Compile

variable {c : Config} {tree : Mapping} {scope context : Option String}

/-- A breakpoint of the chain has its media rule around the block. -/
theorem mem_media_of_mem_chain {m : Breakpoint} {t : Trail} (hm : m ∈ c.breakpoints.toList)
    (h : m.name ∈ Trail.chain c.breakpoints context t) :
    m ∈ (openerBlock c tree scope context t).media :=
  List.mem_filterMap.mpr ⟨m.name, h, Registry.findIn?_of_mem hm⟩

theorem owner_mem_filledOpeners {t : Trail} {d : Declaration}
    (h : .holds t d ∈ declarationWalk c tree) (hne : Trail.owner c.breakpoints context t ≠ []) :
    Trail.owner c.breakpoints context t ∈ filledOpeners c tree context := by
  have hmem := ((isWalk_walk c tree).select (Entry.declaration? c)).owner_mem_openers
    c.breakpoints context h
  rw [openers_select] at hmem
  exact mem_filledOpeners.mpr
    ⟨(List.mem_cons.mp hmem).resolve_left hne, List.ne_nil_of_mem (mem_assigned_owner h)⟩

/-- A block for another breakpoint in the context of a mobile-only one has its media rule in that
one, and so has all that is inside. -/
theorem media_in_mobileOnly (tree : Mapping) (scope : Option String) {m : Breakpoint}
    (hm : m ∈ c.breakpoints.toList) (hmobile : m.mobileOnly = true) (hcontext : context ≠ some m.name)
    {t : Trail} (hforce : Trail.inForce c.breakpoints context t = some m.name) {name : String}
    (hname : name ≠ m.name) (hknown : c.breakpoints.has name = true) (place : Nat) :
    ∃ outer b, c.breakpoints.get name = .ok b ∧ ∀ t', t ++ [⟨place, .media name⟩] <+: t' →
      ∃ inner, (openerBlock c tree scope context t').media = outer ++ m :: b :: inner := by
  obtain ⟨b, hb⟩ := Registry.findIn?_of_has hknown
  obtain ⟨outer, houter⟩ := Trail.chain_in_mobileOnly hm hmobile hname hcontext hforce place
  refine ⟨outer.filterMap (Registry.findIn? c.breakpoints.toList), b, Registry.get_eq_ok.mpr hb,
    fun t' hpre => ?_⟩
  obtain ⟨inner, hinner⟩ := houter t' hpre
  refine ⟨inner.filterMap (Registry.findIn? c.breakpoints.toList), ?_⟩
  have hmedia : (openerBlock c tree scope context t').media =
      (Trail.chain c.breakpoints context t').filterMap
        (Registry.findIn? c.breakpoints.toList) := rfl
  rw [hmedia, hinner, List.filterMap_append,
    List.filterMap_cons_some (Registry.findIn?_of_mem hm), List.filterMap_cons_some hb]

/-- Mobile-only breakpoints are isolated, from any context but their own. A declaration in a block
for such a breakpoint, however deep, belongs to an opener inside the media rule and not to the root.
In the context of the breakpoint a block for another one is an opener; what is found inside belongs
to openers inside, and all of these have its media rule directly in that of the breakpoint. -/
theorem compile_mobileOnly {m : Breakpoint} {o : Output} (hm : m ∈ c.breakpoints.toList)
    (hmobile : m.mobileOnly = true) (hcontext : context ≠ some m.name)
    (h : compile c (.mapping tree) scope context = .ok o) :
    (∃ s, compileSheet c (.mapping tree) scope context = .ok s ∧ o = s.render ∧
      s.declarations = ownDeclarations c tree context [] ∧
      s.blocks = (filledOpeners c tree context).map (openerBlock c tree scope context)) ∧
    (∀ t d, .holds t d ∈ declarationWalk c tree → m.name ∈ t.breakpoints →
      Trail.owner c.breakpoints context t ≠ [] ∧
        Trail.owner c.breakpoints context t ∈ filledOpeners c tree context ∧
        m ∈ (openerBlock c tree scope context (Trail.owner c.breakpoints context t)).media) ∧
    ∀ t place name, .opens (t ++ [⟨place, .media name⟩]) ∈ walk c tree →
      Trail.inForce c.breakpoints context t = some m.name → name ≠ m.name →
      t ++ [⟨place, .media name⟩] ∈ treeOpeners c tree context ∧
      (∀ t' d, .holds t' d ∈ declarationWalk c tree → t ++ [⟨place, .media name⟩] <+: t' →
        t ++ [⟨place, .media name⟩] <+: Trail.owner c.breakpoints context t') ∧
      ∃ outer b, c.breakpoints.get name = .ok b ∧
        ∀ opener ∈ filledOpeners c tree context, t ++ [⟨place, .media name⟩] <+: opener →
          ∃ inner, (openerBlock c tree scope context opener).media = outer ++ m :: b :: inner := by
  obtain ⟨hadmits, ⟨items, hitems⟩, rfl⟩ := compile_eq_ok.mp h
  refine ⟨⟨treeSheet c tree scope context, by rw [compileSheet_eq hadmits, hitems]; rfl, rfl, ?_⟩,
    fun t d hd hblock => ?_, fun t place name hopens hforce hname => ?_⟩
  · rw [treeSheet_eq]
    exact ⟨rfl, rfl⟩
  · have hchain := Trail.mem_chain_of_mobileOnly hm hmobile hcontext hblock
    rw [← Trail.chain_owner] at hchain
    have hne : Trail.owner c.breakpoints context t ≠ [] := by
      intro hnil
      rw [hnil] at hchain
      cases hchain
    exact ⟨hne, owner_mem_filledOpeners hd hne, mem_media_of_mem_chain hm hchain⟩
  · have hopener : t ++ [⟨place, .media name⟩] ∈ treeOpeners c tree context := by
      refine mem_treeOpeners.mpr ⟨hopens, ?_⟩
      rw [hforce]
      exact Trail.opens_in_mobileOnly hm hmobile hname
    have hknown : c.breakpoints.has name = true :=
      known_walk c tree _ hopens ⟨place, .media name⟩ (by simp [trail])
    obtain ⟨outer, b, hb, hmedia⟩ :=
      media_in_mobileOnly tree scope hm hmobile hcontext hforce hname hknown place
    exact ⟨hopener,
      fun t' d _ hpre => Trail.prefix_owner _ _ (owner_of_mem_treeOpeners hopener) hpre,
      outer, b, hb, fun opener _ hpre => hmedia opener hpre⟩

end Compile

/-- A block for another breakpoint inside one for a mobile-only breakpoint. -/
def mobileTree : Mapping :=
  [("mobile", .mapping
     [("color", .text "red"),
      ("hover", .mapping [("tablet", .mapping [("width", .text "1px")])])])]

def mobileOutput : Output where
  declarations := ""
  rules :=
    ["@media only screen and (max-width: 575px)\x7bcolor:red;\x7d",
     "@media only screen and (max-width: 575px)\x7b@media print, only screen and " ++
       "(min-width: 768px)\x7b&:hover\x7bwidth:1px;\x7d\x7d\x7d"]

/-- The block for `tablet` is merged neither into the scope around it nor further out. -/
theorem compile_mobileOnly_sample :
    ∃ m ∈ Config.standard.breakpoints.toList, m.name = "mobile" ∧ m.mobileOnly = true ∧
      compile .standard (.mapping mobileTree) none none = .ok mobileOutput ∧
      [⟨0, .media "mobile"⟩, ⟨0, .scope ":hover"⟩] ++ [⟨0, .media "tablet"⟩] ∈
        treeOpeners .standard mobileTree none := by
  obtain ⟨m, hm, hname, hmobile⟩ : ∃ m ∈ Config.standard.breakpoints.toList,
      m.name = "mobile" ∧ m.mobileOnly = true := ⟨_, List.mem_cons_self, rfl, rfl⟩
  have hcompile : compile .standard (.mapping mobileTree) none none = .ok mobileOutput := rfl
  have hcontext : none ≠ some m.name := nofun
  obtain ⟨-, -, hblocks⟩ := compile_mobileOnly hm hmobile hcontext hcompile
  have hentered : (walk .standard mobileTree).filterMap entered? =
      [[⟨0, .media "mobile"⟩], [⟨0, .media "mobile"⟩, ⟨0, .scope ":hover"⟩],
        [⟨0, .media "mobile"⟩, ⟨0, .scope ":hover"⟩] ++ [⟨0, .media "tablet"⟩]] := rfl
  have hopens : .opens ([⟨0, .media "mobile"⟩, ⟨0, .scope ":hover"⟩] ++ [⟨0, .media "tablet"⟩]) ∈
      walk .standard mobileTree := by
    rw [← mem_filterMap_entered?, hentered]
    simp
  have hforce : Trail.inForce Config.standard.breakpoints none
      [⟨0, .media "mobile"⟩, ⟨0, .scope ":hover"⟩] = some m.name := by
    rw [hname]
    rfl
  have hother : "tablet" ≠ m.name := by
    rw [hname]
    decide
  exact ⟨m, hm, hname, hmobile, hcompile, (hblocks _ _ _ hopens hforce hother).1⟩

end StyleTree
