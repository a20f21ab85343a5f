import StyleTree.Json.Reader
import StyleTree.Proofs.Results
import StyleTree.Proofs.WalkOrder

/-!
# Values that are read

An array of a JSON text becomes a list, and there is no other sequence in a value that is read
(`Json.listsOnly_readText`). So no specs are hidden from the rules in a style file
(`Value.ListsOnly.nothingHidden`).
-/

namespace StyleTree

namespace Value

/-- The value is a sequence, and neither list nor tuple. -/
def isOther : Value → Bool
  | sequence _ _ => true
  | _ => false

/-- The value is no such sequence, and none is held under a key in it. -/
structure ListsOnly (v : Value) : Prop where
  isOther : v.isOther = false
  everyMapping : v.everyMapping (fun m => m.all fun entry => !entry.2.isOther) = true

theorem listsOnly_list {items : List Value} (h : ∀ v ∈ items, v.ListsOnly) :
    (list items).ListsOnly := by
  refine ⟨rfl, ?_⟩
  rw [Value.everyMapping]
  induction items with
  | nil => rfl
  | cons v rest ih =>
    obtain ⟨hv, hrest⟩ := List.forall_mem_cons.mp h
    rw [everyMappingOfItems, hv.everyMapping, ih hrest]
    rfl

theorem listsOnly_mapping {m : Mapping} (h : ∀ entry ∈ m, entry.2.ListsOnly) :
    (mapping m).ListsOnly := by
  refine ⟨rfl, ?_⟩
  have hall : (m.all fun entry => !entry.2.isOther) = true :=
    List.all_eq_true.mpr fun entry hentry => by rw [(h entry hentry).isOther]; rfl
  rw [Value.everyMapping, hall, Bool.true_and]
  clear hall
  induction m with
  | nil => rfl
  | cons entry rest ih =>
    obtain ⟨hentry, hrest⟩ := List.forall_mem_cons.mp h
    rw [everyMappingOfEntries, hentry.everyMapping, ih hrest]
    rfl

theorem hidesSpecs_of_isOther {e : Entry} (h : e.value.isOther = false) :
    e.hidesSpecs = false := by
  unfold Entry.hidesSpecs
  split
  · rename_i hv
    rw [hv] at h
    cases h
  · rfl

theorem nothingHidden_block {c : Config} {b : TreeBlock}
    (h : (mapping b.body).everyMapping (fun m => m.all fun entry => !entry.2.isOther) = true) :
    NothingHidden (b.entries c) := by
  induction b using TreeBlock.induction c with
  | step b ih =>
    intro x hx
    rw [TreeBlock.entries_eq] at hx
    obtain ⟨e, he, hx⟩ := List.mem_flatMap.mp hx
    rcases List.mem_cons.mp hx with rfl | hx
    · have hother := List.all_eq_true.mp (everyMapping_self h) _ (mem_nodeEntries.mp he).1
      exact hidesSpecs_of_isOther (by simpa using hother)
    · obtain ⟨b', hb', hx⟩ := List.mem_flatMap.mp hx
      exact ih e he b' hb' (everyMapping_of_mem_blocks h he hb') x hx

theorem ListsOnly.nothingHidden {tree : Mapping} (h : (mapping tree).ListsOnly) (c : Config) :
    NothingHidden (entries c tree []) :=
  nothingHidden_block (b := .root [] tree) h.everyMapping

end Value

namespace Json

/-! ## Reading -/

theorem mem_of_mem_put {table : List (String × Value)} {key : String} {v : Value}
    {entry : String × Value} (h : entry ∈ Assoc.put table key v) :
    entry = (key, v) ∨ entry ∈ table := by
  induction table with
  | nil => exact .inl (List.mem_singleton.mp h)
  | cons first rest ih =>
    rw [Assoc.put] at h
    split at h
    · rename_i hkey
      rw [hkey] at h
      exact (List.mem_cons.mp h).imp_right (List.mem_cons_of_mem _)
    · rcases List.mem_cons.mp h with rfl | h
      · exact .inr List.mem_cons_self
      · exact (ih h).imp_right (List.mem_cons_of_mem _)

/-- A table has no other pairs than those that it is made of. -/
theorem ofPairs_subset (pairs : List (String × Value)) : Assoc.ofPairs pairs ⊆ pairs := by
  have hfold (rest table : List (String × Value)) (h : table ⊆ pairs) (hrest : rest ⊆ pairs) :
      rest.foldl (fun table pair => Assoc.put table pair.1 pair.2) table ⊆ pairs := by
    induction rest generalizing table with
    | nil => exact h
    | cons pair rest ih =>
      obtain ⟨hpair, hrest⟩ := List.cons_subset.mp hrest
      refine ih _ (fun entry hentry => ?_) hrest
      rcases mem_of_mem_put hentry with rfl | hentry
      · exact hpair
      · exact h hentry
  exact hfold pairs [] (List.nil_subset pairs) (List.Subset.refl pairs)

theorem listsOnly_scalar {cur after : Cursor} {v : Value} (h : scalar cur = .ok (v, after)) :
    v.ListsOnly := by
  have hwords : ∀ word ∈ words, word.2.ListsOnly := by
    simp only [words, List.forall_mem_cons]
    exact ⟨⟨rfl, rfl⟩, ⟨rfl, rfl⟩, ⟨rfl, rfl⟩, ⟨rfl, rfl⟩, ⟨rfl, rfl⟩, ⟨rfl, rfl⟩,
      List.forall_mem_nil _⟩
  unfold scalar at h
  split at h
  · rename_i hfound
    obtain ⟨word, hword, hskip⟩ := List.exists_of_findSome?_eq_some hfound
    obtain ⟨_, -, heq⟩ := Option.map_eq_some_iff.mp hskip
    cases h
    cases heq
    exact hwords word hword
  split at h
  · rename_i read _
    cases read with
    | error e => cases h
    | ok found =>
      cases h
      exact ⟨rfl, rfl⟩
  split at h
  · cases h
    exact ⟨rfl, rfl⟩
  · cases h

/-- In so many calls only values with lists only are read, by themselves, in an array and in an
object. -/
structure ReadsListsOnly (calls : Nat) : Prop where
  value : ∀ {cur v after}, Json.value calls cur = .ok (v, after) → v.ListsOnly
  elements : ∀ {cur vs after}, Json.elements calls cur = .ok (vs, after) → ∀ v ∈ vs, v.ListsOnly
  members : ∀ {cur ms after}, Json.members calls cur = .ok (ms, after) →
    ∀ member ∈ ms, member.2.ListsOnly

namespace ReadsListsOnly

variable {calls : Nat} {cur after : Cursor}

theorem value_succ (h : ReadsListsOnly calls) {v : Value}
    (hread : Json.value (calls + 1) cur = .ok (v, after)) : v.ListsOnly := by
  rw [Json.value] at hread
  split at hread
  · simp only at hread
    split at hread
    · cases hread
      exact Value.listsOnly_list (List.forall_mem_nil _)
    · obtain ⟨⟨items, last⟩, hitems, heq⟩ := bind_eq_ok.mp hread
      cases heq
      exact Value.listsOnly_list (h.elements hitems)
  · simp only at hread
    split at hread
    · cases hread
      exact Value.listsOnly_mapping (List.forall_mem_nil _)
    · obtain ⟨⟨ms, last⟩, hms, heq⟩ := bind_eq_ok.mp hread
      cases heq
      exact Value.listsOnly_mapping fun entry hentry =>
        h.members hms entry (ofPairs_subset ms hentry)
  · exact listsOnly_scalar hread

theorem elements_succ (h : ReadsListsOnly calls) {vs : List Value}
    (hread : Json.elements (calls + 1) cur = .ok (vs, after)) : ∀ v ∈ vs, v.ListsOnly := by
  rw [Json.elements] at hread
  obtain ⟨⟨v, next⟩, hv, hread⟩ := bind_eq_ok.mp hread
  have hfirst := h.value hv
  simp only at hread
  split at hread
  · cases hread
    exact List.forall_mem_singleton.mpr hfirst
  · obtain ⟨⟨others, last⟩, hothers, heq⟩ := bind_eq_ok.mp hread
    cases heq
    exact List.forall_mem_cons.mpr ⟨hfirst, h.elements hothers⟩
  · cases hread

theorem members_succ (h : ReadsListsOnly calls) {ms : List (String × Value)}
    (hread : Json.members (calls + 1) cur = .ok (ms, after)) :
    ∀ member ∈ ms, member.2.ListsOnly := by
  rw [Json.members] at hread
  split at hread
  · cases hread
  obtain ⟨⟨name, next⟩, -, hread⟩ := bind_eq_ok.mp hread
  simp only at hread
  split at hread
  · obtain ⟨⟨v, next⟩, hv, hread⟩ := bind_eq_ok.mp hread
    have hfirst := h.value hv
    simp only at hread
    split at hread
    · cases hread
      exact List.forall_mem_singleton.mpr hfirst
    · obtain ⟨⟨others, last⟩, hothers, heq⟩ := bind_eq_ok.mp hread
      cases heq
      exact List.forall_mem_cons.mpr ⟨hfirst, h.members hothers⟩
    · cases hread
  · cases hread

end ReadsListsOnly

theorem readsListsOnly (calls : Nat) : ReadsListsOnly calls := by
  induction calls with
  | zero => exact ⟨nofun, nofun, nofun⟩
  | succ calls ih => exact ⟨ih.value_succ, ih.elements_succ, ih.members_succ⟩

theorem listsOnly_readText {text : String} {v : Value} (h : readText text = .ok v) :
    v.ListsOnly := by
  have hread := mapError_eq_ok.mp h
  unfold read at hread
  split at hread
  · cases hread
  obtain ⟨⟨w, after⟩, hw, hread⟩ := bind_eq_ok.mp hread
  simp only at hread
  split at hread
  · cases hread
    exact (readsListsOnly _).value hw
  · cases hread

end Json

end StyleTree
