import StyleTree.Proofs.Consistency

/-!
# Registries through their descriptions

The description of a registry is read back as the registry, breakpoint by breakpoint, if every
predicate has a character that is not blank. The constructor asks only for a predicate that is not
empty, while a description with a blank one is refused: a registry with a blank predicate has a
description that cannot be read (`ofMapping_toMapping_blank`). Blank predicates are the only
obstacle, and the fault names the first of them (`ofMapping_toMapping`).
-/

namespace StyleTree.Registry

variable {r : Registry} {b : Breakpoint} {bs : List Breakpoint}

def hasBlankPredicate (b : Breakpoint) : Bool :=
  Text.isBlank b.predicate

theorem breakpointOf_describe (h : hasBlankPredicate b = false) :
    breakpointOf b.name (describe b) = .ok b :=
  breakpointOf_eq_ok.mpr ⟨b.name_ne, rfl, .mapping rfl h (.list b.inheritsFrom)⟩

theorem breakpointOf_describe_blank (h : hasBlankPredicate b = true) :
    breakpointOf b.name (describe b) = .error (.blankPredicate b.name) :=
  if_pos h

/-- The names of a registry are the keys of its description. -/
theorem keys_toMapping (r : Registry) : r.toMapping.map Prod.fst = r.names := by
  rw [toMapping, List.map_map]
  rfl

theorem readAs_toMapping (h : ∀ b ∈ r.toList, hasBlankPredicate b = false) :
    ReadAs r.toMapping r.toList := by
  rw [ReadAs, toMapping, List.forall₂_map_left_iff, List.forall₂_same]
  exact fun b hb => breakpointOf_describe (h b hb)

theorem ofMapping_toMapping_of_find? (h : r.toList.find? hasBlankPredicate = some b) :
    ofMapping r.toMapping = .error (.blankPredicate b.name) := by
  obtain ⟨hblank, before, after, hlist, hbefore⟩ := List.find?_eq_some_iff_append.mp h
  rw [ofMapping_eq_error, toMapping, hlist, List.map_append, List.map_cons]
  refine .inl (mapM_eq_error (fun entry hentry => ?_) (breakpointOf_describe_blank hblank))
  obtain ⟨b', hb', rfl⟩ := List.mem_map.mp hentry
  exact ⟨b', breakpointOf_describe (by simpa using hbefore b' hb')⟩

/-- The description of a registry has distinct keys. It is read back as that registry if no
predicate is blank; otherwise the first breakpoint with a blank one is the fault. -/
theorem ofMapping_toMapping (h : ofList bs = .ok r) :
    r.toList = bs ∧ (r.toMapping.map Prod.fst).Nodup ∧
      (ofMapping r.toMapping = .ok r ↔ ∀ b ∈ bs, Text.isBlank b.predicate = false) ∧
      ∀ b, bs.find? hasBlankPredicate = some b →
        ofMapping r.toMapping = .error (.blankPredicate b.name) := by
  obtain rfl := ofList_eq_ok.mp h
  refine ⟨rfl, ?_, ⟨fun hok => ?_, fun hfree => ?_⟩, fun b => ofMapping_toMapping_of_find?⟩
  · rw [keys_toMapping]
    exact r.nodup_names
  · cases hfind : r.toList.find? hasBlankPredicate with
    | none => simpa [hasBlankPredicate] using List.find?_eq_none.mp hfind
    | some b =>
      rw [ofMapping_toMapping_of_find? hfind] at hok
      cases hok
  · exact ofMapping_eq_ok.mpr (readAs_toMapping hfree)

/-- The registry that is used where no other is given is its own description read back. -/
theorem ofMapping_toMapping_sample :
    ofList Registry.standard.toList = .ok .standard ∧
      ofMapping Registry.standard.toMapping = .ok .standard := by
  have hlist : ofList Registry.standard.toList = .ok .standard := rfl
  obtain ⟨-, -, hiff, -⟩ := ofMapping_toMapping hlist
  exact ⟨hlist, hiff.mpr (by decide)⟩

/-- A breakpoint can have a blank for its predicate, and then the description of its registry cannot
be read. -/
theorem ofMapping_toMapping_blank :
    ∃ b r, Breakpoint.make "wall" " " [] false = .ok b ∧ ofList [b] = .ok r ∧
      ofMapping r.toMapping = .error (.blankPredicate "wall") :=
  ⟨_, _, rfl, rfl, rfl⟩

end StyleTree.Registry
