import Mathlib.Data.List.Nodup
import StyleTree.Proofs.Trail

/-!
# Walks

A depth-first walk through a tree is written down as a list of visits: it enters a block, or it
finds something in one. Every visit has the trail of the block. `IsWalk n` says that the visits
are those of a node whose blocks are numbered from `n` on. In a walk no block is entered twice
(`IsWalk.nodup_entered`), and every block is entered before it is found on a trail
(`IsWalk.opens_prefix`); so what is found is assigned to the root or to an opener of the walk
(`IsWalk.owner_mem_openers`).
-/

namespace StyleTree

inductive Visit (α : Type) where
  /-- The walk enters the block at the end of the trail. -/
  | opens (trail : Trail)
  /-- The walk finds `a` in the block at the end of the trail. -/
  | holds (trail : Trail) (a : α)
  deriving Repr

namespace Visit

variable {α β : Type}

def trail : Visit α → Trail
  | opens t => t
  | holds t _ => t

/-- The visit as it is seen from outside the block that `step` enters. -/
def within (step : Step) : Visit α → Visit α
  | opens t => opens (step :: t)
  | holds t a => holds (step :: t) a

def entered? : Visit α → Option Trail
  | opens t => some t
  | holds _ _ => none

def held? : Visit α → Option α
  | opens _ => none
  | holds _ a => some a

/-- The visits of a block with these visits inside. -/
def enter (step : Step) (inner : List (Visit α)) : List (Visit α) :=
  opens [step] :: inner.map (within step)

/-- What the visit finds, if it is assigned to `opener`. -/
def assigned? (r : Registry) (context : Option String) (opener : Trail) : Visit α → Option α
  | opens _ => none
  | holds t a => if Trail.owner r context t = opener then some a else none

/-- What is assigned to `opener`, in the order of the walk. -/
def assigned (r : Registry) (context : Option String) (opener : Trail)
    (visits : List (Visit α)) : List α :=
  visits.filterMap (assigned? r context opener)

/-- The openers that the walk enters, in order. -/
def openers (r : Registry) (context : Option String) (visits : List (Visit α)) : List Trail :=
  (visits.filterMap entered?).filter fun t => Trail.owner r context t = t

@[simp] theorem trail_within (step : Step) (v : Visit α) :
    (v.within step).trail = step :: v.trail := by
  cases v <;> rfl

@[simp] theorem held?_within (step : Step) (v : Visit α) : (v.within step).held? = v.held? := by
  cases v <;> rfl

@[simp] theorem entered?_within (step : Step) (v : Visit α) :
    (v.within step).entered? = v.entered?.map (step :: ·) := by
  cases v <;> rfl

theorem filterMap_held?_enter (step : Step) (inner : List (Visit α)) :
    (enter step inner).filterMap held? = inner.filterMap held? := by
  rw [enter, List.filterMap_cons_none rfl, List.filterMap_map]
  exact List.filterMap_congr fun v _ => held?_within step v

theorem filterMap_entered?_enter (step : Step) (inner : List (Visit α)) :
    (enter step inner).filterMap entered? =
      [step] :: (inner.filterMap entered?).map (step :: ·) := by
  have hfirst : (opens [step] : Visit α).entered? = some [step] := rfl
  rw [enter, List.filterMap_cons_some hfirst, List.filterMap_map, List.map_filterMap]
  congr 1
  exact List.filterMap_congr fun v _ => entered?_within step v

theorem trail_of_mem_enter {step : Step} {inner : List (Visit α)} {v : Visit α}
    (h : v ∈ enter step inner) : ∃ t, v.trail = step :: t := by
  rcases List.mem_cons.mp h with rfl | h
  · exact ⟨[], rfl⟩
  · obtain ⟨w, -, rfl⟩ := List.mem_map.mp h
    exact ⟨w.trail, trail_within step w⟩

theorem opens_of_entered? {v : Visit α} {t : Trail} (h : v.entered? = some t) : v = opens t := by
  cases v with
  | opens t' => cases h; rfl
  | holds _ _ => cases h

theorem mem_filterMap_entered? {visits : List (Visit α)} {t : Trail} :
    t ∈ visits.filterMap entered? ↔ opens t ∈ visits := by
  rw [List.mem_filterMap]
  constructor
  · rintro ⟨v, hv, ht⟩
    rwa [← opens_of_entered? ht]
  · exact fun h => ⟨_, h, rfl⟩

theorem mem_openers {r : Registry} {context : Option String} {visits : List (Visit α)}
    {t : Trail} :
    t ∈ openers r context visits ↔ opens t ∈ visits ∧ Trail.owner r context t = t := by
  simp only [openers, List.mem_filter, mem_filterMap_entered?, decide_eq_true_eq]

/-! ## Selecting from a walk -/

/-- The visit with what `f` makes of the thing found; blocks are entered as before. -/
def selected? (f : α → Option β) : Visit α → Option (Visit β)
  | opens t => some (opens t)
  | holds t a => (f a).map (holds t)

/-- The walk that finds only what `f` selects. -/
def select (f : α → Option β) (visits : List (Visit α)) : List (Visit β) :=
  visits.filterMap (selected? f)

section Select

variable {f : α → Option β}

theorem select_append (before after : List (Visit α)) :
    select f (before ++ after) = select f before ++ select f after :=
  List.filterMap_append

theorem select_holds_cons (t : Trail) (a : α) (rest : List (Visit α)) :
    select f (holds t a :: rest) = ((f a).map (holds t)).toList ++ select f rest := by
  cases h : f a <;> simp [select, selected?, h]

theorem select_enter (step : Step) (inner : List (Visit α)) :
    select f (enter step inner) = enter step (select f inner) := by
  have hwithin : ∀ v : Visit α, selected? f (v.within step) =
      (selected? f v).map (within step) := by
    intro v
    cases v with
    | opens t => rfl
    | holds t a => cases h : f a <;> simp [selected?, within, h]
  have hfirst : selected? f (opens [step]) = some (opens [step]) := rfl
  rw [select, enter, List.filterMap_cons_some hfirst, List.filterMap_map, enter, select,
    List.map_filterMap]
  exact congrArg _ (List.filterMap_congr fun v _ => hwithin v)

theorem assigned_select (r : Registry) (context : Option String) (opener : Trail)
    (visits : List (Visit α)) :
    assigned r context opener (select f visits) =
      (assigned r context opener visits).filterMap f := by
  rw [assigned, select, assigned, List.filterMap_filterMap, List.filterMap_filterMap]
  refine List.filterMap_congr fun v _ => ?_
  cases v with
  | opens t => rfl
  | holds t a =>
    by_cases howner : Trail.owner r context t = opener <;>
      cases h : f a <;> simp [selected?, assigned?, howner, h]

theorem openers_select (r : Registry) (context : Option String) (visits : List (Visit α)) :
    openers r context (select f visits) = openers r context visits := by
  rw [openers, select, List.filterMap_filterMap]
  refine congrArg _ (List.filterMap_congr fun v _ => ?_)
  cases v with
  | opens t => rfl
  | holds t a => cases h : f a <;> simp [selected?, entered?, h]

end Select

/-! ## Properties of all steps -/

/-- Every block on the trails of the walk is one that `P` admits. -/
def EveryStep (P : Opening → Prop) (visits : List (Visit α)) : Prop :=
  ∀ v ∈ visits, ∀ step ∈ v.trail, P step.opening

section EveryStep

variable {P : Opening → Prop}

theorem everyStep_nil : EveryStep P ([] : List (Visit α)) := by
  intro v hv
  cases hv

theorem everyStep_append {before after : List (Visit α)} :
    EveryStep P (before ++ after) ↔ EveryStep P before ∧ EveryStep P after :=
  List.forall_mem_append

theorem everyStep_holds_cons {a : α} {rest : List (Visit α)} (h : EveryStep P rest) :
    EveryStep P (.holds [] a :: rest) := by
  intro v hv step hstep
  rcases List.mem_cons.mp hv with rfl | hv
  · cases hstep
  · exact h v hv step hstep

theorem everyStep_enter {step : Step} {inner : List (Visit α)} :
    EveryStep P (enter step inner) ↔ P step.opening ∧ EveryStep P inner := by
  constructor
  · intro h
    refine ⟨h _ List.mem_cons_self step (List.mem_singleton_self step), fun v hv other hother => ?_⟩
    refine h (v.within step) (List.mem_cons_of_mem _ (List.mem_map_of_mem hv)) other ?_
    rw [trail_within]
    exact List.mem_cons_of_mem _ hother
  · rintro ⟨hstep, hinner⟩ v hv other hother
    rcases List.mem_cons.mp hv with rfl | hv
    · cases List.mem_singleton.mp hother
      exact hstep
    · obtain ⟨w, hw, rfl⟩ := List.mem_map.mp hv
      rw [trail_within] at hother
      rcases List.mem_cons.mp hother with rfl | hother
      · exact hstep
      · exact hinner w hw other hother

theorem EveryStep.select {visits : List (Visit α)} (h : EveryStep P visits) (f : α → Option β) :
    EveryStep P (select f visits) := by
  intro v hv
  obtain ⟨w, hw, hv⟩ := List.mem_filterMap.mp hv
  cases w with
  | opens t =>
    cases hv
    exact h _ hw
  | holds t a =>
    obtain ⟨b, -, rfl⟩ := Option.map_eq_some_iff.mp hv
    exact h _ hw

end EveryStep

/-! ## What is assigned in a block -/

section Assigned

variable {r : Registry} {context : Option String} {opener : Trail}

theorem assigned_append (before after : List (Visit α)) :
    assigned r context opener (before ++ after) =
      assigned r context opener before ++ assigned r context opener after :=
  List.filterMap_append

theorem openers_append (before after : List (Visit α)) :
    openers r context (before ++ after) =
      openers r context before ++ openers r context after := by
  simp only [openers, List.filterMap_append, List.filter_append]

theorem mem_held_of_mem_assigned {visits : List (Visit α)} {a : α}
    (h : a ∈ assigned r context opener visits) : a ∈ visits.filterMap held? := by
  obtain ⟨v, hv, ha⟩ := List.mem_filterMap.mp h
  refine List.mem_filterMap.mpr ⟨v, hv, ?_⟩
  cases v with
  | opens _ => cases ha
  | holds t a' =>
    rw [assigned?] at ha
    split at ha
    · exact ha
    · cases ha

/-- What is found is assigned to its owner. -/
theorem mem_assigned_owner {visits : List (Visit α)} {t : Trail} {a : α} (h : .holds t a ∈ visits) :
    a ∈ assigned r context (Trail.owner r context t) visits :=
  List.mem_filterMap.mpr ⟨_, h, if_pos rfl⟩

theorem assigned_eq_nil {visits : List (Visit α)}
    (h : ∀ t a, .holds t a ∈ visits → Trail.owner r context t ≠ opener) :
    assigned r context opener visits = [] := by
  refine List.filterMap_eq_nil_iff.mpr fun v hv => ?_
  cases v with
  | opens t => rfl
  | holds t a => exact if_neg (h t a hv)

variable {step : Step} {inner : List (Visit α)}

theorem assigned_enter {outer : Trail}
    (h : ∀ t, Trail.owner r context (step :: t) = outer ↔
      Trail.owner r (step.opening.inside r context) t = opener) :
    assigned r context outer (enter step inner) =
      assigned r (step.opening.inside r context) opener inner := by
  rw [assigned, enter, List.filterMap_cons_none rfl, List.filterMap_map]
  refine List.filterMap_congr fun v _ => ?_
  cases v with
  | opens t => rfl
  | holds t a => exact if_congr (h t) rfl rfl

/-- Inside an opener everything is assigned to it or to an opener further inside. -/
theorem assigned_enter_of_opens (h : step.opening.opens r context = true) (opener : Trail) :
    assigned r context (step :: opener) (enter step inner) =
      assigned r (step.opening.inside r context) opener inner :=
  assigned_enter fun t => by rw [Trail.owner_cons_of_opens h, List.cons.injEq, eq_self, true_and]

theorem assigned_nil_enter_of_opens (h : step.opening.opens r context = true) :
    assigned r context [] (enter step inner) = [] := by
  refine assigned_eq_nil fun t a hmem => ?_
  obtain ⟨t', ht'⟩ := trail_of_mem_enter hmem
  rw [show t = step :: t' from ht', Trail.owner_cons_of_opens h]
  exact List.cons_ne_nil _ _

/-- What is assigned to the root of a merged block is assigned to the root around it. -/
theorem assigned_nil_enter_of_merged (h : step.opening.opens r context = false) :
    assigned r context [] (enter step inner) =
      assigned r (step.opening.inside r context) [] inner :=
  assigned_enter fun t => by simp [Trail.owner, h]

theorem assigned_enter_of_merged (h : step.opening.opens r context = false)
    (hopener : opener ≠ []) :
    assigned r context (step :: opener) (enter step inner) =
      assigned r (step.opening.inside r context) opener inner := by
  refine assigned_enter fun t => ?_
  by_cases hnil : Trail.owner r (step.opening.inside r context) t = []
  · simp [Trail.owner_cons_of_nil hnil, h, hnil, Ne.symm hopener]
  · simp [Trail.owner_cons_of_ne_nil hnil]

theorem openers_enter_of_opens (h : step.opening.opens r context = true) :
    openers r context (enter step inner) =
      [step] :: (openers r (step.opening.inside r context) inner).map (step :: ·) := by
  have hfirst : Trail.owner r context [step] = [step] := Trail.owner_cons_of_opens h
  simp only [openers, filterMap_entered?_enter, List.filter_cons, hfirst, decide_true, ↓reduceIte,
    List.filter_map, Function.comp_def, Trail.owner_cons_of_opens h, List.cons.injEq, true_and]

end Assigned

end Visit

open Visit

/-- The visits of a node whose blocks are numbered from `n` on. -/
inductive IsWalk {α : Type} : Nat → List (Visit α) → Prop where
  | nil (n : Nat) : IsWalk n []
  | holds {n : Nat} {rest : List (Visit α)} (a : α) : IsWalk n rest →
      IsWalk n (.holds [] a :: rest)
  | block {n : Nat} {inner rest : List (Visit α)} (opening : Opening) : IsWalk 0 inner →
      IsWalk (n + 1) rest → IsWalk n (enter ⟨n, opening⟩ inner ++ rest)

namespace IsWalk

variable {α : Type} {n : Nat} {visits : List (Visit α)}

theorem le_place (h : IsWalk n visits) :
    ∀ v ∈ visits, ∀ step t, v.trail = step :: t → n ≤ step.place := by
  induction h with
  | nil => intro v hv; cases hv
  | holds a _ ih =>
    intro v hv step t ht
    rcases List.mem_cons.mp hv with rfl | hv
    · cases ht
    · exact ih v hv step t ht
  | block opening _ _ _ ih =>
    intro v hv step t ht
    rcases List.mem_append.mp hv with hv | hv
    · obtain ⟨t', ht'⟩ := trail_of_mem_enter hv
      rw [ht] at ht'
      cases ht'
      exact Nat.le_refl _
    · have := ih v hv step t ht
      omega

theorem entered_ne_nil (h : IsWalk n visits) {t : Trail} (ht : .opens t ∈ visits) : t ≠ [] := by
  induction h with
  | nil => cases ht
  | holds a _ ih =>
    rcases List.mem_cons.mp ht with ht | ht
    · cases ht
    · exact ih ht
  | block opening _ _ _ ih =>
    rcases List.mem_append.mp ht with ht | ht
    · obtain ⟨t', ht'⟩ := trail_of_mem_enter ht
      rintro rfl
      cases ht'
    · exact ih ht

theorem select {β : Type} (h : IsWalk n visits) (f : α → Option β) :
    IsWalk n (Visit.select f visits) := by
  induction h with
  | nil n => exact .nil n
  | holds a _ ih =>
    rw [select_holds_cons]
    cases f a with
    | none => exact ih
    | some b => exact .holds b ih
  | block opening _ _ ih ih' =>
    rw [select_append, select_enter]
    exact .block opening ih ih'

/-- No block is entered twice. -/
theorem nodup_entered (h : IsWalk n visits) : (visits.filterMap entered?).Nodup := by
  induction h with
  | nil => exact List.nodup_nil
  | holds a _ ih => exact ih
  | @block n inner rest opening hinner hrest ih ih' =>
    rw [List.filterMap_append, filterMap_entered?_enter, List.nodup_append]
    refine ⟨List.nodup_cons.mpr ⟨?_, ?_⟩, ih', ?_⟩
    · intro hmem
      obtain ⟨t, ht, heq⟩ := List.mem_map.mp hmem
      cases heq
      exact hinner.entered_ne_nil (mem_filterMap_entered?.mp ht) rfl
    · exact ih.map fun _ _ heq => List.tail_eq_of_cons_eq heq
    · -- the blocks that follow have greater numbers
      rintro t ht _ ht' rfl
      rw [← filterMap_entered?_enter, mem_filterMap_entered?] at ht
      obtain ⟨t', heq⟩ := trail_of_mem_enter ht
      have := hrest.le_place _ (mem_filterMap_entered?.mp ht') _ _ heq
      simp only at this
      omega

/-- The blocks on a trail are entered by the walk. -/
theorem opens_prefix (h : IsWalk n visits) :
    ∀ v ∈ visits, ∀ t, t <+: v.trail → t ≠ [] → .opens t ∈ visits := by
  induction h with
  | nil => intro v hv; cases hv
  | holds a _ ih =>
    intro v hv t ht hne
    rcases List.mem_cons.mp hv with rfl | hv
    · exact absurd (List.prefix_nil.mp ht) hne
    · exact List.mem_cons_of_mem _ (ih v hv t ht hne)
  | @block n inner rest opening _ _ ih ih' =>
    intro v hv t ht hne
    rcases List.mem_append.mp hv with hv | hv
    · refine List.mem_append_left _ ?_
      obtain ⟨step, t, rfl⟩ := List.exists_cons_of_ne_nil hne
      rcases List.mem_cons.mp hv with rfl | hv
      · obtain ⟨rfl, hnil⟩ := List.cons_prefix_cons.mp (show step :: t <+: [_] from ht)
        rw [List.prefix_nil.mp hnil]
        exact List.mem_cons_self
      · obtain ⟨w, hw, rfl⟩ := List.mem_map.mp hv
        rw [trail_within] at ht
        obtain ⟨rfl, hpre⟩ := List.cons_prefix_cons.mp ht
        by_cases hnil : t = []
        · rw [hnil]
          exact List.mem_cons_self
        · exact List.mem_cons_of_mem _ (List.mem_map.mpr ⟨_, ih w hw t hpre hnil, rfl⟩)
    · exact List.mem_append_right _ (ih' v hv t ht hne)

theorem nodup_openers (h : IsWalk n visits) (r : Registry) (context : Option String) :
    (openers r context visits).Nodup :=
  h.nodup_entered.filter _

/-- What the walk finds belongs to the root or to an opener that the walk enters. -/
theorem owner_mem_openers (h : IsWalk n visits) (r : Registry) (context : Option String)
    {v : Visit α} (hv : v ∈ visits) :
    Trail.owner r context v.trail ∈ [] :: openers r context visits := by
  by_cases hnil : Trail.owner r context v.trail = []
  · rw [hnil]
    exact List.mem_cons_self
  · refine List.mem_cons_of_mem _ (mem_openers.mpr ⟨?_, Trail.owner_owner r context v.trail⟩)
    exact h.opens_prefix v hv _ (Trail.owner_prefix r context v.trail) hnil

theorem openers_ne_nil (h : IsWalk n visits) {r : Registry} {context : Option String} {t : Trail}
    (ht : t ∈ openers r context visits) : t ≠ [] :=
  h.entered_ne_nil (mem_openers.mp ht).1

theorem openers_enter_of_merged (hinner : IsWalk n visits) {r : Registry}
    {context : Option String} {step : Step} (h : step.opening.opens r context = false) :
    openers r context (enter step visits) =
      (openers r (step.opening.inside r context) visits).map (step :: ·) := by
  have hfirst : Trail.owner r context [step] = [] := by
    rw [Trail.owner_cons_of_nil rfl, h]
    rfl
  simp only [openers, filterMap_entered?_enter, List.filter_cons, hfirst, List.filter_map,
    Function.comp_def, reduceCtorEq, decide_false, Bool.false_eq_true, ↓reduceIte]
  refine congrArg _ (List.filter_congr fun t ht => ?_)
  have hne := hinner.entered_ne_nil (mem_filterMap_entered?.mp ht)
  by_cases hnil : Trail.owner r (step.opening.inside r context) t = []
  · simp [Trail.owner_cons_of_nil hnil, h, hnil, Ne.symm hne]
  · simp [Trail.owner_cons_of_ne_nil hnil]

/-- Nothing in a block is assigned to a block that is numbered differently. -/
theorem assigned_eq_nil_of_place (h : IsWalk n visits) {r : Registry} {context : Option String}
    {step : Step} (hstep : step.place < n) (t : Trail) :
    assigned r context (step :: t) visits = [] := by
  refine assigned_eq_nil fun t' a hmem howner => ?_
  obtain ⟨rest, hrest⟩ := Trail.owner_prefix r context t'
  rw [howner] at hrest
  have := h.le_place _ hmem step (t ++ rest) hrest.symm
  omega

theorem assigned_enter_eq_nil_of_place (h : IsWalk n visits) {r : Registry}
    {context : Option String} {step : Step} (hstep : step.place < n) {inner : List (Visit α)}
    {t : Trail} (ht : t ∈ openers r context visits) :
    assigned r context t (enter step inner) = [] := by
  obtain ⟨first, rest, rfl⟩ := List.exists_cons_of_ne_nil (h.openers_ne_nil ht)
  have hplace := h.le_place _ (mem_openers.mp ht).1 first rest rfl
  refine assigned_eq_nil fun t' a hmem howner => ?_
  obtain ⟨t'', ht''⟩ := trail_of_mem_enter hmem
  obtain ⟨more, hmore⟩ := Trail.owner_prefix r context t'
  rw [howner, show t' = step :: t'' from ht''] at hmore
  cases hmore
  omega

end IsWalk

end StyleTree
