import StyleTree.Breakpoint.Registry

/-!
# Media contexts

A media context is absent or the name of a breakpoint. In a context that the registry knows, the
look-ups behind `implies` succeed, so that implication is a Boolean function: nothing is implied
where there is no context, and a breakpoint implies itself and what it inherits from.
-/

namespace StyleTree.Registry

/-- The context is absent or a breakpoint of the registry. -/
def Admits (r : Registry) (context : Option String) : Prop :=
  ∀ name ∈ context, r.has name = true

/-- `implies` as a Boolean. -/
def covers (r : Registry) (context : Option String) (name : String) : Bool :=
  match r.implies context name with
  | .ok implied => implied
  | .error _ => false

variable {r : Registry} {context : Option String} {name : String}

theorem admits_none : r.Admits none := by
  intro name hname
  cases hname

theorem admits_some (h : r.has name = true) : r.Admits (some name) := by
  intro other hother
  cases hother
  exact h

theorem findIn?_of_has (h : r.has name = true) : ∃ b, findIn? r.toList name = some b := by
  obtain ⟨b, hb⟩ := has_iff_get.mp h
  exact ⟨b, get_eq_ok.mp hb⟩

theorem name_of_findIn? {bs : List Breakpoint} {b : Breakpoint}
    (h : findIn? bs name = some b) : b.name = name := by
  simpa using List.find?_some h

theorem mem_of_findIn? {bs : List Breakpoint} {b : Breakpoint}
    (h : findIn? bs name = some b) : b ∈ bs :=
  List.mem_of_find?_eq_some h

theorem implies_of_findIn? {m : String} {b : Breakpoint} (h : findIn? r.toList m = some b) :
    r.implies (some m) name = .ok ((b.name :: b.inheritsFrom).contains name) := by
  simp only [implies, visibleAt, get, h]
  rfl

/-- In an admitted context the look-up of `implies` does not fail. -/
theorem implies_eq_covers (h : r.Admits context) :
    r.implies context name = .ok (r.covers context name) := by
  cases context with
  | none => rfl
  | some m =>
    obtain ⟨b, hb⟩ := findIn?_of_has (h m rfl)
    rw [covers, implies_of_findIn? hb]

/-- What is implied is the context itself or a parent of it. -/
theorem covers_eq_true (h : r.covers context name = true) :
    ∃ b ∈ r.toList, context = some b.name ∧ (name = b.name ∨ name ∈ b.inheritsFrom) := by
  cases context with
  | none => cases h
  | some m =>
    cases hb : findIn? r.toList m with
    | none => simp [covers, implies, visibleAt, get, hb, bind, Except.bind] at h
    | some b =>
      rw [covers, implies_of_findIn? hb] at h
      refine ⟨b, mem_of_findIn? hb, by rw [name_of_findIn? hb], ?_⟩
      simpa using h

end StyleTree.Registry
