import StyleTree.Proofs.MediaContext

/-!
# Trails

A trail leads from the root of a style tree into a block, with one step for every block that is
entered, outermost first. The blocks of a node are numbered, so that different blocks have
different trails. An opener is a block that gets a rule of its own: a scope, or a breakpoint that
the media context in force does not imply (`owner_concat`). What stands in any other block belongs
to the innermost opener around it, and to the root where there is none. A block and its owner have
the same selector (`suffix_owner`) and stand in the same media rules (`chain_owner`).
-/

namespace StyleTree

/-- What entering a block does: it extends the selector, or names a breakpoint. -/
inductive Opening where
  | scope (suffix : String)
  | media (name : String)
  deriving DecidableEq, Repr

namespace Opening

def suffix : Opening → String
  | scope s => s
  | media _ => ""

def isMedia : Opening → Bool
  | scope _ => false
  | media _ => true

/-- A block that is entered in `context` gets a rule of its own. -/
def opens (r : Registry) (context : Option String) : Opening → Bool
  | scope _ => true
  | media name => !r.covers context name

/-- The context in force inside the block. A merged breakpoint leaves the outer one. -/
def inside (r : Registry) (context : Option String) : Opening → Option String
  | scope _ => context
  | media name => if r.covers context name then context else some name

/-- A breakpoint that the opening names is in the registry. -/
def Known (r : Registry) : Opening → Prop
  | scope _ => True
  | media name => r.has name = true

/-- A scope that is opened extends the selector. -/
def Extends : Opening → Prop
  | scope s => s ≠ ""
  | media _ => True

end Opening

/-- The step from a node into the block with this number among the blocks of the node. -/
structure Step where
  place : Nat
  opening : Opening
  deriving DecidableEq, Repr

abbrev Trail := List Step

namespace Trail

/-- What the trail adds to the selector of the root. -/
def suffix : Trail → String
  | [] => ""
  | step :: rest => step.opening.suffix ++ suffix rest

/-- The breakpoints around the block, outermost first. -/
def breakpoints : Trail → List String
  | [] => []
  | ⟨_, .scope _⟩ :: rest => breakpoints rest
  | ⟨_, .media name⟩ :: rest => name :: breakpoints rest

/-- The breakpoints around the block that no context in force implies, outermost first. -/
def chain (r : Registry) (context : Option String) : Trail → List String
  | [] => []
  | ⟨_, .scope _⟩ :: rest => chain r context rest
  | ⟨_, .media name⟩ :: rest =>
    if r.covers context name then chain r context rest else name :: chain r (some name) rest

/-- The innermost opener on the trail; the empty trail stands for the root. -/
def owner (r : Registry) (context : Option String) : Trail → Trail
  | [] => []
  | step :: rest =>
    let inner := owner r (step.opening.inside r context) rest
    if inner = [] then if step.opening.opens r context then [step] else []
    else step :: inner

/-- The last block of the trail is a breakpoint block. -/
def endsInMedia (t : Trail) : Bool :=
  t.getLast?.any fun step => step.opening.isMedia

/-- The context in force in the block: the innermost breakpoint around it that is not implied, or
the context outside where there is none. -/
def inForce (r : Registry) (context : Option String) (t : Trail) : Option String :=
  (chain r context t).getLast?.or context

variable {r : Registry} {context : Option String} {step : Step} {t : Trail}

theorem endsInMedia_cons (h : t ≠ []) : endsInMedia (step :: t) = endsInMedia t := by
  obtain ⟨next, rest, rfl⟩ := List.exists_cons_of_ne_nil h
  rw [endsInMedia, List.getLast?_cons_cons]
  rfl

theorem owner_cons_of_nil (h : owner r (step.opening.inside r context) t = []) :
    owner r context (step :: t) = if step.opening.opens r context then [step] else [] := by
  simp only [owner, h, ↓reduceIte]

theorem owner_cons_of_ne_nil (h : owner r (step.opening.inside r context) t ≠ []) :
    owner r context (step :: t) = step :: owner r (step.opening.inside r context) t := by
  simp only [owner, h, ↓reduceIte]

theorem owner_cons_of_opens (h : step.opening.opens r context = true) :
    owner r context (step :: t) = step :: owner r (step.opening.inside r context) t := by
  by_cases hnil : owner r (step.opening.inside r context) t = []
  · rw [owner_cons_of_nil hnil, if_pos h, hnil]
  · exact owner_cons_of_ne_nil hnil

theorem owner_prefix (r : Registry) : ∀ (context : Option String) (t : Trail),
    owner r context t <+: t
  | _, [] => List.nil_prefix
  | context, step :: t => by
    by_cases h : owner r (step.opening.inside r context) t = []
    · rw [owner_cons_of_nil h]
      split
      · exact ⟨t, rfl⟩
      · exact List.nil_prefix
    · rw [owner_cons_of_ne_nil h]
      exact (List.cons_prefix_cons).mpr ⟨rfl, owner_prefix r _ t⟩

/-- The owner is the innermost opener on the trail. -/
theorem prefix_owner (r : Registry) : ∀ (context : Option String) {s t : Trail},
    owner r context s = s → s <+: t → s <+: owner r context t
  | _, [], _, _, _ => List.nil_prefix
  | context, step :: s, _, hs, ⟨more, rfl⟩ => by
    by_cases h : owner r (step.opening.inside r context) s = []
    · rw [owner_cons_of_nil h] at hs
      split at hs
      · rename_i hopens
        cases hs
        rw [List.cons_append, owner_cons_of_opens hopens]
        exact List.cons_prefix_cons.mpr ⟨rfl, List.nil_prefix⟩
      · cases hs
    · rw [owner_cons_of_ne_nil h, List.cons.injEq] at hs
      have ih := prefix_owner r _ hs.2 (List.prefix_append s more)
      have hne : owner r (step.opening.inside r context) (s ++ more) ≠ [] := by
        intro hnil
        rw [hnil, List.prefix_nil] at ih
        rw [hs.2] at h
        exact h ih
      rw [List.cons_append, owner_cons_of_ne_nil hne]
      exact List.cons_prefix_cons.mpr ⟨rfl, ih⟩

/-- The owner of an owner is that owner. -/
theorem owner_owner (r : Registry) : ∀ (context : Option String) (t : Trail),
    owner r context (owner r context t) = owner r context t
  | _, [] => rfl
  | context, step :: t => by
    by_cases h : owner r (step.opening.inside r context) t = []
    · rw [owner_cons_of_nil h]
      split
      · rename_i hopens
        rw [owner_cons_of_nil rfl, if_pos hopens]
      · rfl
    · have ih := owner_owner r (step.opening.inside r context) t
      rw [owner_cons_of_ne_nil h, owner_cons_of_ne_nil (by rw [ih]; exact h), ih]

/-- Blocks between a block and its owner do not touch the selector. -/
theorem suffix_owner (r : Registry) : ∀ (context : Option String) (t : Trail),
    suffix (owner r context t) = suffix t
  | _, [] => rfl
  | context, ⟨place, opening⟩ :: t => by
    have ih := suffix_owner r (opening.inside r context) t
    by_cases h : owner r (opening.inside r context) t = []
    · rw [h] at ih
      rw [owner_cons_of_nil h, suffix, ← ih]
      cases opening with
      | scope s => rfl
      | media name =>
        cases hc : r.covers context name <;> simp [Opening.opens, Opening.suffix, suffix, hc]
    · rw [owner_cons_of_ne_nil h, suffix, suffix, ih]

/-- Every media rule around a block is one around its owner. -/
theorem chain_owner (r : Registry) : ∀ (context : Option String) (t : Trail),
    chain r context (owner r context t) = chain r context t
  | _, [] => rfl
  | context, ⟨place, .scope s⟩ :: t => by
    have ih := chain_owner r context t
    by_cases h : owner r context t = []
    · rw [h] at ih
      rw [owner_cons_of_nil h]
      simp only [Opening.opens, ↓reduceIte, chain, ← ih]
    · rw [owner_cons_of_ne_nil h]
      exact ih
  | context, ⟨place, .media name⟩ :: t => by
    have ih := chain_owner r ((Opening.media name).inside r context) t
    by_cases h : owner r ((Opening.media name).inside r context) t = []
    · rw [h] at ih
      rw [owner_cons_of_nil h]
      cases hc : r.covers context name <;>
        simp_all [Opening.opens, Opening.inside, chain]
    · rw [owner_cons_of_ne_nil h]
      cases hc : r.covers context name <;>
        simp_all [Opening.inside, chain]

/-- The selector stays where no scope is entered, and changes where one is. -/
theorem suffix_eq_empty : ∀ {t : Trail}, (∀ step ∈ t, step.opening.Extends) →
    (suffix t = "" ↔ ∀ step ∈ t, step.opening.isMedia = true)
  | [], _ => by simp [suffix]
  | ⟨_, .scope s⟩ :: t, h => by
    have hs : s ≠ "" := h _ List.mem_cons_self
    simp [suffix, Opening.suffix, Opening.isMedia, String.append_eq_empty_iff, hs]
  | ⟨_, .media _⟩ :: t, h => by
    have ih := suffix_eq_empty fun step hstep => h step (List.mem_cons_of_mem _ hstep)
    simpa [suffix, Opening.suffix, Opening.isMedia] using ih

theorem endsInMedia_of_forall (hne : t ≠ []) (h : ∀ step ∈ t, step.opening.isMedia = true) :
    endsInMedia t = true := by
  rw [endsInMedia, List.getLast?_eq_some_getLast hne]
  exact h _ (List.getLast_mem hne)

/-! ## The last step of a trail -/

theorem inForce_nil (r : Registry) (context : Option String) : inForce r context [] = context :=
  rfl

theorem inForce_cons (r : Registry) (context : Option String) (step : Step) (t : Trail) :
    inForce r context (step :: t) = inForce r (step.opening.inside r context) t := by
  obtain ⟨place, opening⟩ := step
  cases opening with
  | scope s => rfl
  | media name =>
    cases hc : r.covers context name with
    | true => simp only [inForce, chain, Opening.inside, hc, ↓reduceIte]
    | false =>
      simp only [inForce, chain, Opening.inside, hc, Bool.false_eq_true, ↓reduceIte,
        List.getLast?_cons]
      cases (chain r (some name) t).getLast? <;> rfl

/-- A block is an opener when its last step opens in the context in force there. -/
theorem owner_concat (r : Registry) : ∀ (context : Option String) (t : Trail) (step : Step),
    owner r context (t ++ [step]) = t ++ [step] ↔
      step.opening.opens r (inForce r context t) = true
  | context, [], step => by
    rw [List.nil_append, owner_cons_of_nil rfl, inForce_nil]
    cases step.opening.opens r context <;> simp
  | context, first :: t, step => by
    have ih := owner_concat r (first.opening.inside r context) t step
    rw [inForce_cons, ← ih, List.cons_append]
    by_cases h : owner r (first.opening.inside r context) (t ++ [step]) = []
    · rw [owner_cons_of_nil h, h]
      split <;> simp
    · rw [owner_cons_of_ne_nil h, List.cons.injEq, eq_self, true_and]

theorem chain_concat_media (r : Registry) : ∀ (context : Option String) (t : Trail) (place : Nat)
    {name : String}, r.covers (inForce r context t) name = false →
    chain r context (t ++ [⟨place, .media name⟩]) = chain r context t ++ [name]
  | context, [], place, name, h => by
    rw [inForce_nil] at h
    simp only [List.nil_append, chain, h, Bool.false_eq_true, ↓reduceIte]
  | context, ⟨_, .scope _⟩ :: t, place, name, h => by
    rw [inForce_cons] at h
    exact chain_concat_media r context t place h
  | context, ⟨_, .media other⟩ :: t, place, name, h => by
    rw [inForce_cons] at h
    have ih := chain_concat_media r _ t place h
    cases hc : r.covers context other <;> simp_all [Opening.inside, chain]

theorem has_of_mem_chain (r : Registry) : ∀ (context : Option String) {t : Trail},
    (∀ step ∈ t, step.opening.Known r) → ∀ name ∈ chain r context t, r.has name = true
  | _, [], _, _, hname => by cases hname
  | context, ⟨_, .scope _⟩ :: t, h, name, hname =>
    has_of_mem_chain r context (fun step hstep => h step (List.mem_cons_of_mem _ hstep)) name hname
  | context, ⟨_, .media other⟩ :: t, h, name, hname => by
    have ih := fun context => has_of_mem_chain r context
      (fun step hstep => h step (List.mem_cons_of_mem _ hstep)) name
    rw [chain] at hname
    split at hname
    · exact ih _ hname
    · rcases List.mem_cons.mp hname with rfl | hname
      · exact h _ List.mem_cons_self
      · exact ih _ hname

/-- The rule of an opener that is a breakpoint block stands in a media rule. -/
theorem chain_ne_nil (howner : owner r context t = t) (hmedia : endsInMedia t = true) :
    chain r context t ≠ [] := by
  rcases List.eq_nil_or_concat t with rfl | ⟨outer, ⟨place, opening⟩, rfl⟩
  · cases hmedia
  rw [List.concat_eq_append] at howner hmedia ⊢
  have hopens := (owner_concat r context outer _).mp howner
  cases opening with
  | scope s => simp [endsInMedia, Opening.isMedia] at hmedia
  | media name =>
    rw [chain_concat_media r context outer place (by simpa [Opening.opens] using hopens)]
    simp

end Trail

end StyleTree
