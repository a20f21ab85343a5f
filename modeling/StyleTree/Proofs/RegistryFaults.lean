import Mathlib.Data.List.Nodup
import StyleTree.Proofs.MediaContext

/-!
# Registries without faults

The check of a list of breakpoints finds no fault exactly if their names are distinct and each of
them inherits as it may (`fault?_eq_none`): from other breakpoints of the list, from none that is
mobile-only, and from none at all if it is mobile-only itself. A registry carries the result of the
check, so that this holds of its breakpoints, and each of them is found under its name.
-/

namespace StyleTree.Registry

/-! ## The check of a list -/

/-- What the breakpoint inherits from, it may inherit from. -/
structure Permits (bs : List Breakpoint) (b : Breakpoint) : Prop where
  of_mobileOnly : b.mobileOnly = true → b.inheritsFrom = []
  of_mem : ∀ parent ∈ b.inheritsFrom,
    parent ≠ b.name ∧ ∃ p ∈ bs, p.name = parent ∧ p.mobileOnly = false

section Lists

variable {bs : List Breakpoint} {b : Breakpoint} {name parent : String} {seen : List String}

theorem duplicate?_eq_none : duplicate? seen bs = none ↔
    (bs.map Breakpoint.name).Nodup ∧ ∀ b ∈ bs, b.name ∉ seen := by
  induction bs generalizing seen with
  | nil => exact ⟨fun _ => ⟨.nil, nofun⟩, fun _ => rfl⟩
  | cons b rest ih =>
    rw [duplicate?, List.map_cons, List.nodup_cons, List.forall_mem_cons]
    split
    · rename_i hseen
      exact ⟨nofun, fun h => absurd hseen h.2.1⟩
    · rename_i hseen
      rw [ih, List.mem_map]
      constructor
      · rintro ⟨hnodup, hrest⟩
        refine ⟨⟨?_, hnodup⟩, hseen, fun other hother hmem =>
          hrest other hother (List.mem_cons_of_mem _ hmem)⟩
        rintro ⟨other, hother, heq⟩
        exact hrest other hother (heq ▸ List.mem_cons_self)
      · rintro ⟨⟨hne, hnodup⟩, -, hrest⟩
        refine ⟨hnodup, fun other hother hmem => ?_⟩
        rcases List.mem_cons.mp hmem with heq | hmem
        · exact hne ⟨other, hother, heq⟩
        · exact hrest other hother hmem

/-- Where names are distinct, a breakpoint is found under its name and no other. -/
theorem findIn?_eq_some (hnodup : (bs.map Breakpoint.name).Nodup) :
    findIn? bs name = some b ↔ b ∈ bs ∧ b.name = name := by
  constructor
  · exact fun h => ⟨mem_of_findIn? h, name_of_findIn? h⟩
  · rintro ⟨hb, rfl⟩
    obtain ⟨found, hfound⟩ : ∃ found, findIn? bs b.name = some found :=
      Option.isSome_iff_exists.mp (List.find?_isSome.mpr ⟨b, hb, beq_self_eq_true _⟩)
    have heq := List.inj_on_of_nodup_map hnodup (mem_of_findIn? hfound) hb (name_of_findIn? hfound)
    rw [hfound, heq]

theorem parentFault?_eq_none (hnodup : (bs.map Breakpoint.name).Nodup) :
    parentFault? bs name parent = none ↔
      parent ≠ name ∧ ∃ p ∈ bs, p.name = parent ∧ p.mobileOnly = false := by
  rw [parentFault?]
  by_cases hself : parent = name
  · rw [if_pos hself]
    exact ⟨nofun, fun h => absurd hself h.1⟩
  rw [if_neg hself, and_iff_right hself]
  constructor
  · intro h
    cases hfound : findIn? bs parent with
    | none =>
      rw [hfound] at h
      cases h
    | some p =>
      obtain ⟨hp, hname⟩ := (findIn?_eq_some hnodup).mp hfound
      refine ⟨p, hp, hname, ?_⟩
      rw [hfound] at h
      cases hmobile : p.mobileOnly with
      | false => rfl
      | true =>
        simp only [hmobile, ↓reduceIte] at h
        cases h
  · rintro ⟨p, hp, hname, hmobile⟩
    simp only [(findIn?_eq_some hnodup).mpr ⟨hp, hname⟩, hmobile, Bool.false_eq_true, ↓reduceIte]

theorem inheritanceFault?_eq_none (hnodup : (bs.map Breakpoint.name).Nodup) :
    inheritanceFault? bs b = none ↔ Permits bs b := by
  rw [inheritanceFault?]
  split
  · rename_i hmobile
    exact ⟨nofun, fun h => absurd (h.of_mobileOnly hmobile.1) hmobile.2⟩
  · rename_i hmobile
    rw [List.findSome?_eq_none_iff]
    constructor
    · exact fun h => ⟨fun honly => by_contra fun hne => hmobile ⟨honly, hne⟩,
        fun parent hparent => (parentFault?_eq_none hnodup).mp (h parent hparent)⟩
    · exact fun h parent hparent => (parentFault?_eq_none hnodup).mpr (h.of_mem parent hparent)

/-- The check finds no fault in distinct names with permitted inheritance, and in nothing else. -/
theorem fault?_eq_none : fault? bs = none ↔
    (bs.map Breakpoint.name).Nodup ∧ ∀ b ∈ bs, Permits bs b := by
  rw [fault?, Option.or_eq_none_iff, duplicate?_eq_none, List.findSome?_eq_none_iff]
  constructor
  · rintro ⟨⟨hnodup, -⟩, h⟩
    exact ⟨hnodup, fun b hb => (inheritanceFault?_eq_none hnodup).mp (h b hb)⟩
  · rintro ⟨hnodup, h⟩
    exact ⟨⟨hnodup, fun _ _ => List.not_mem_nil⟩,
      fun b hb => (inheritanceFault?_eq_none hnodup).mpr (h b hb)⟩

theorem ofList_eq_ok {r : Registry} : ofList bs = .ok r ↔ r.toList = bs := by
  rw [ofList]
  split
  · rename_i fault hfault
    refine ⟨nofun, fun h => ?_⟩
    rw [← h, r.sound] at hfault
    cases hfault
  · constructor
    · intro h
      cases h
      rfl
    · rintro rfl
      rfl

theorem ofList_eq_error {fault : BreakpointFault} :
    ofList bs = .error fault ↔ fault? bs = some fault := by
  rw [ofList]
  split
  · rename_i other hother
    rw [hother, Except.error.injEq, Option.some.injEq]
  · rename_i hnone
    exact ⟨nofun, fun h => nomatch hnone.symm.trans h⟩

end Lists

/-! ## The breakpoints of a registry -/

variable {r : Registry} {b m : Breakpoint}

theorem nodup_names (r : Registry) : (r.toList.map Breakpoint.name).Nodup :=
  (fault?_eq_none.mp r.sound).1

theorem permits_of_mem (h : b ∈ r.toList) : Permits r.toList b :=
  (fault?_eq_none.mp r.sound).2 b h

/-- A breakpoint is found under its name. -/
theorem findIn?_of_mem (h : b ∈ r.toList) : findIn? r.toList b.name = some b :=
  (findIn?_eq_some r.nodup_names).mpr ⟨h, rfl⟩

theorem inheritsFrom_of_mobileOnly (hm : m ∈ r.toList) (hmobile : m.mobileOnly = true) :
    m.inheritsFrom = [] :=
  (permits_of_mem hm).of_mobileOnly hmobile

/-- No breakpoint has a mobile-only one for a parent. -/
theorem not_mem_inheritsFrom (hm : m ∈ r.toList) (hmobile : m.mobileOnly = true)
    (hb : b ∈ r.toList) : m.name ∉ b.inheritsFrom := by
  intro hparent
  obtain ⟨-, p, hp, hname, hother⟩ := (permits_of_mem hb).of_mem m.name hparent
  have heq := List.inj_on_of_nodup_map r.nodup_names hp hm hname
  rw [heq, hmobile] at hother
  cases hother

end StyleTree.Registry
