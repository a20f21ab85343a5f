import StyleTree.Breakpoint.Table
import StyleTree.Proofs.RegistryFaults
import StyleTree.Proofs.Results

/-!
# Consistent descriptions of registries

A mapping from names to descriptions is read as a registry when each of its entries is consistent
with the mapping: the value describes a breakpoint, and its parents are other breakpoints that the
mapping describes and that are not mobile-only. The checks are spread over the shape of the values,
the breakpoints one by one and the list of them; together they succeed on exactly the consistent
mappings, and where they fail, the fault names an entry that is not consistent
(`ofMapping_consistent`).
-/

namespace StyleTree

/-- What is said about a breakpoint apart from its name. -/
structure Breakpoint.Traits where
  predicate : String
  parents : List String
  mobileOnly : Bool
  deriving DecidableEq

def Breakpoint.traits (b : Breakpoint) : Traits :=
  ⟨b.predicate, b.inheritsFrom, b.mobileOnly⟩

/-- The breakpoint that a fault is about. -/
def BreakpointFault.subject : BreakpointFault → String
  | emptyName => ""
  | emptyPredicate name | duplicate name | mobileOnlyInherits name | inheritsItself name
  | inheritsUnknown name _ | inheritsMobileOnly name _ | describedAs name | blankPredicate name
  | parentsShape name => name

namespace Registry

/-! ## Descriptions -/

/-- The parents that are listed under `inherits_from`: none where there is no such key, one for a
text, and any number for a sequence of texts. -/
inductive ListsParents : Option Value → List String → Prop where
  | absent : ListsParents none []
  | name (parent : String) : ListsParents (some (.text parent)) [parent]
  | list (parents : List String) : ListsParents (some (.list (parents.map .text))) parents
  | tuple (parents : List String) : ListsParents (some (.tuple (parents.map .text))) parents

/-- The value describes a breakpoint with these traits. -/
inductive Describes : Value → Breakpoint.Traits → Prop where
  | text {predicate : String} : Text.isBlank predicate = false →
      Describes (.text predicate) ⟨predicate, [], false⟩
  | mapping {m : Mapping} {predicate : String} {parents : List String} :
      m.get? "predicate" = some (.text predicate) → Text.isBlank predicate = false →
      ListsParents (m.get? "inherits_from") parents →
      Describes (.mapping m) ⟨predicate, parents, (m.get? "mobile_only").any Value.isTruthy⟩

/-- The entry has a name and describes a breakpoint whose parents are other breakpoints of the
mapping, none of them mobile-only; a mobile-only breakpoint has none. -/
structure IsConsistent (m : Mapping) (entry : String × Value) : Prop where
  name_ne : entry.1 ≠ ""
  described : ∃ traits, Describes entry.2 traits ∧ (traits.mobileOnly = true → traits.parents = []) ∧
    ∀ parent ∈ traits.parents, parent ≠ entry.1 ∧
      ∃ other ∈ m, other.1 = parent ∧ ∃ traits', Describes other.2 traits' ∧
        traits'.mobileOnly = false

section Entries

variable {name : String} {v : Value} {b : Breakpoint} {fault : BreakpointFault}

theorem allTexts?_eq_some {values : List Value} {texts : List String} :
    allTexts? values = some texts ↔ values = texts.map .text := by
  induction values generalizing texts with
  | nil =>
    rw [allTexts?, Option.some.injEq, eq_comm, eq_comm (a := ([] : List Value)), List.map_eq_nil_iff]
  | cons value rest ih =>
    cases value with
    | text s =>
      rw [allTexts?, Option.map_eq_some_iff]
      constructor
      · rintro ⟨others, hothers, rfl⟩
        rw [ih.mp hothers, List.map_cons]
      · intro h
        cases texts with
        | nil => cases h
        | cons first others =>
          rw [List.map_cons, List.cons.injEq, Value.text.injEq] at h
          exact ⟨others, ih.mpr h.2, by rw [h.1]⟩
    | _ =>
      refine ⟨nofun, fun h => ?_⟩
      cases texts <;> cases h

theorem parents?_eq_some {listed : Option Value} {parents : List String} :
    parents? listed = some parents ↔ ListsParents listed parents := by
  constructor
  · intro h
    cases listed with
    | none =>
      cases h
      exact .absent
    | some v =>
      cases v with
      | text s =>
        cases h
        exact .name s
      | list values =>
        rw [allTexts?_eq_some.mp h]
        exact .list parents
      | tuple values =>
        rw [allTexts?_eq_some.mp h]
        exact .tuple parents
      | _ => cases h
  · rintro (_ | _ | _ | _)
    · rfl
    · rfl
    · exact allTexts?_eq_some.mpr rfl
    · exact allTexts?_eq_some.mpr rfl

theorem ne_empty_of_not_blank {s : String} (h : Text.isBlank s = false) : s ≠ "" := by
  rintro rfl
  cases h

/-- A breakpoint can be made of a name and a predicate unless one of them is empty. -/
theorem make_eq_ok {predicate : String} {parents : List String} {mobileOnly : Bool} :
    Breakpoint.make name predicate parents mobileOnly = .ok b ↔
      name ≠ "" ∧ predicate ≠ "" ∧ b.name = name ∧ b.traits = ⟨predicate, parents, mobileOnly⟩ := by
  rw [Breakpoint.make]
  split
  · rename_i hname
    exact ⟨nofun, fun h => absurd hname h.1⟩
  rename_i hname
  split
  · rename_i hpredicate
    exact ⟨nofun, fun h => absurd hpredicate h.2.1⟩
  rename_i hpredicate
  constructor
  · intro h
    cases h
    exact ⟨hname, hpredicate, rfl, rfl⟩
  · rintro ⟨-, -, rfl, htraits⟩
    cases b
    cases htraits
    rfl

theorem describedBreakpoint_eq_ok {m : Mapping} :
    describedBreakpoint name m = .ok b ↔
      name ≠ "" ∧ b.name = name ∧ Describes (.mapping m) b.traits := by
  constructor
  · intro h
    unfold describedBreakpoint at h
    split at h
    · rename_i predicate hpredicate
      split at h
      · cases h
      rename_i hblank
      rw [Bool.not_eq_true] at hblank
      split at h
      · cases h
      rename_i parents hparents
      obtain ⟨hname, -, hb, htraits⟩ := make_eq_ok.mp h
      refine ⟨hname, hb, ?_⟩
      rw [htraits]
      exact .mapping hpredicate hblank (parents?_eq_some.mp hparents)
    · cases h
  · rintro ⟨hname, hb, hdescribes⟩
    generalize htraits : b.traits = traits at hdescribes
    obtain _ | ⟨hpredicate, hblank, hparents⟩ := hdescribes
    simp only [describedBreakpoint, hpredicate, hblank, parents?_eq_some.mpr hparents,
      Bool.false_eq_true, ↓reduceIte]
    exact make_eq_ok.mpr ⟨hname, ne_empty_of_not_blank hblank, hb, htraits⟩

/-- A text describes what a mapping with this predicate alone describes. -/
theorem describes_text {predicate : String} {traits : Breakpoint.Traits} :
    Describes (.text predicate) traits ↔
      Describes (.mapping [("predicate", .text predicate)]) traits := by
  constructor
  · rintro ⟨hblank⟩
    exact .mapping rfl hblank .absent
  · intro h
    obtain _ | ⟨hpredicate, hblank, hparents⟩ := h
    cases hpredicate
    cases hparents
    exact .text hblank

/-- An entry is read as a breakpoint if it has a name and its value describes one. -/
theorem breakpointOf_eq_ok : breakpointOf name v = .ok b ↔
    name ≠ "" ∧ b.name = name ∧ Describes v b.traits := by
  cases v with
  | text predicate => rw [breakpointOf, describedBreakpoint_eq_ok, describes_text]
  | mapping m => rw [breakpointOf, describedBreakpoint_eq_ok]
  | _ => exact ⟨nofun, nofun⟩

/-- An entry with a name and a described breakpoint is read. -/
theorem exists_breakpointOf {traits : Breakpoint.Traits} (hname : name ≠ "")
    (h : Describes v traits) : ∃ b, breakpointOf name v = .ok b ∧ b.traits = traits := by
  have hpredicate : traits.predicate ≠ "" := by
    obtain hblank | ⟨-, hblank, -⟩ := h
    · exact ne_empty_of_not_blank hblank
    · exact ne_empty_of_not_blank hblank
  exact ⟨⟨name, traits.predicate, traits.parents, traits.mobileOnly, hname, hpredicate⟩,
    breakpointOf_eq_ok.mpr ⟨hname, rfl, h⟩, rfl⟩

theorem subject_of_breakpointOf (h : breakpointOf name v = .error fault) : fault.subject = name := by
  have hmapping {m : Mapping} (h : describedBreakpoint name m = .error fault) :
      fault.subject = name := by
    unfold describedBreakpoint at h
    split at h
    · split at h
      · cases h
        rfl
      split at h
      · cases h
        rfl
      unfold Breakpoint.make at h
      split at h
      · rename_i hname
        cases h
        exact hname.symm
      split at h
      · cases h
        rfl
      · cases h
    · cases h
      rfl
  cases v with
  | text predicate => exact hmapping (m := [("predicate", .text predicate)]) h
  | mapping m => exact hmapping h
  | _ =>
    cases h
    rfl

theorem subject_of_inheritanceFault? {bs : List Breakpoint}
    (h : inheritanceFault? bs b = some fault) : fault.subject = b.name := by
  unfold inheritanceFault? at h
  split at h
  · cases h
    rfl
  · obtain ⟨parent, -, h⟩ := List.exists_of_findSome?_eq_some h
    unfold parentFault? at h
    split at h
    · cases h
      rfl
    split at h
    · cases h
      rfl
    split at h
    · cases h
      rfl
    · cases h

end Entries

/-! ## Mappings -/

section Mappings

variable {m : Mapping} {bs : List Breakpoint} {r : Registry} {fault : BreakpointFault}

/-- The breakpoints of the list are those that the entries are read as. -/
abbrev ReadAs (m : Mapping) (bs : List Breakpoint) : Prop :=
  List.Forall₂ (fun entry b => breakpointOf entry.1 entry.2 = .ok b) m bs

theorem ofMapping_eq_ok : ofMapping m = .ok r ↔ ReadAs m r.toList := by
  simp only [ofMapping, bind_eq_ok, mapM_eq_ok, ofList_eq_ok]
  exact ⟨fun ⟨_, h, heq⟩ => heq ▸ h, fun h => ⟨_, h, rfl⟩⟩

theorem ofMapping_eq_error : ofMapping m = .error fault ↔
    (m.mapM fun entry => breakpointOf entry.1 entry.2) = .error fault ∨
      ∃ bs, ReadAs m bs ∧ fault? bs = some fault := by
  simp only [ofMapping, bind_eq_error, mapM_eq_ok, ofList_eq_error]

theorem ReadAs.names (h : ReadAs m bs) : bs.map Breakpoint.name = m.map Prod.fst := by
  induction h with
  | nil => rfl
  | cons hb _ ih => rw [List.map_cons, List.map_cons, ih, (breakpointOf_eq_ok.mp hb).2.1]

/-- An entry is consistent if and only if the breakpoint that it is read as inherits as it may. -/
theorem isConsistent_iff_permits (h : ReadAs m bs) {entry : String × Value} {b : Breakpoint}
    (hb : breakpointOf entry.1 entry.2 = .ok b) : IsConsistent m entry ↔ Permits bs b := by
  obtain ⟨hname_ne, hname, hdescribes⟩ := breakpointOf_eq_ok.mp hb
  constructor
  · rintro ⟨-, traits, htraits, honly, hparents⟩
    obtain ⟨b', hb', heq⟩ := exists_breakpointOf hname_ne htraits
    cases hb.symm.trans hb'
    subst heq
    refine ⟨honly, fun parent hparent => ?_⟩
    obtain ⟨hne, other, hother, rfl, traits', htraits', hmobile⟩ := hparents parent hparent
    obtain ⟨p, hp, hread⟩ := exists_right_of_forall₂ h hother
    obtain ⟨hother_ne, hpname, -⟩ := breakpointOf_eq_ok.mp hread
    obtain ⟨p', hp', rfl⟩ := exists_breakpointOf hother_ne htraits'
    cases hread.symm.trans hp'
    exact ⟨hname ▸ hne, p, hp, hpname, hmobile⟩
  · rintro ⟨honly, hparents⟩
    refine ⟨hname_ne, b.traits, hdescribes, honly, fun parent hparent => ?_⟩
    obtain ⟨hne, p, hp, rfl, hmobile⟩ := hparents parent hparent
    obtain ⟨other, hother, hread⟩ := exists_left_of_forall₂ h hp
    obtain ⟨-, hpname, hpdescribes⟩ := breakpointOf_eq_ok.mp hread
    exact ⟨hname ▸ hne, other, hother, hpname.symm, p.traits, hpdescribes, hmobile⟩

/-- The list of what consistent entries are read as has no fault. -/
theorem ReadAs.fault?_eq_none (hread : ReadAs m bs) (hkeys : (m.map Prod.fst).Nodup)
    (h : ∀ entry ∈ m, IsConsistent m entry) : fault? bs = none := by
  refine Registry.fault?_eq_none.mpr ⟨hread.names ▸ hkeys, fun b hb => ?_⟩
  obtain ⟨entry, hentry, hb⟩ := exists_left_of_forall₂ hread hb
  exact (isConsistent_iff_permits hread hb).mp (h entry hentry)

theorem exists_ofMapping (hkeys : (m.map Prod.fst).Nodup) (h : ∀ entry ∈ m, IsConsistent m entry) :
    ∃ r, ofMapping m = .ok r := by
  have hentries : ∀ entry ∈ m, ∃ b, breakpointOf entry.1 entry.2 = .ok b := by
    intro entry hentry
    obtain ⟨hname, traits, htraits, -⟩ := h entry hentry
    obtain ⟨b, hb, -⟩ := exists_breakpointOf hname htraits
    exact ⟨b, hb⟩
  obtain ⟨bs, hbs⟩ := exists_mapM_eq_ok hentries
  have hread : ReadAs m bs := mapM_eq_ok.mp hbs
  exact ⟨⟨bs, hread.fault?_eq_none hkeys h⟩, ofMapping_eq_ok.mpr hread⟩

/-- A fault is about an entry that is not consistent. -/
theorem not_isConsistent_of_fault (hkeys : (m.map Prod.fst).Nodup)
    (h : ofMapping m = .error fault) :
    ∃ entry ∈ m, entry.1 = fault.subject ∧ ¬ IsConsistent m entry := by
  rcases ofMapping_eq_error.mp h with h | ⟨bs, hread, hfault⟩
  · obtain ⟨entry, hentry, hb⟩ := exists_of_mapM_eq_error h
    refine ⟨entry, hentry, (subject_of_breakpointOf hb).symm, fun hconsistent => ?_⟩
    obtain ⟨hname, traits, htraits, -⟩ := hconsistent
    obtain ⟨b, hok, -⟩ := exists_breakpointOf hname htraits
    cases hb.symm.trans hok
  · have hnodup : (bs.map Breakpoint.name).Nodup := hread.names ▸ hkeys
    have hduplicate : duplicate? [] bs = none :=
      duplicate?_eq_none.mpr ⟨hnodup, fun _ _ => List.not_mem_nil⟩
    rw [fault?, hduplicate, Option.none_or] at hfault
    obtain ⟨b, hb, hfault⟩ := List.exists_of_findSome?_eq_some hfault
    obtain ⟨entry, hentry, hok⟩ := exists_left_of_forall₂ hread hb
    obtain ⟨-, hname, -⟩ := breakpointOf_eq_ok.mp hok
    refine ⟨entry, hentry, ?_, fun hconsistent => ?_⟩
    · rw [subject_of_inheritanceFault? hfault, hname]
    · have hpermits := (isConsistent_iff_permits hread hok).mp hconsistent
      rw [(inheritanceFault?_eq_none hnodup).mpr hpermits] at hfault
      cases hfault

/-- The look-ups agree with the list of breakpoints: each is found under its name, and nothing is
found under any other. -/
theorem lookups_of_mem (r : Registry) {b : Breakpoint} (hb : b ∈ r.toList) :
    r.has b.name = true ∧ r.get b.name = .ok b ∧
      r.visibleAt b.name = .ok (b.name :: b.inheritsFrom) := by
  have hget : r.get b.name = .ok b := get_eq_ok.mpr (findIn?_of_mem hb)
  refine ⟨has_iff_get.mpr ⟨b, hget⟩, hget, ?_⟩
  rw [visibleAt, hget]
  rfl

theorem lookups_of_not_mem (r : Registry) {name : String} (h : name ∉ r.names) :
    r.has name = false ∧ r.get name = .error ⟨name⟩ ∧ r.visibleAt name = .error ⟨name⟩ := by
  have hhas : r.has name = false := by
    rw [has, List.contains_eq_mem, decide_eq_false h]
  have hget : r.get name = .error ⟨name⟩ := by
    cases hget : r.get name with
    | ok b =>
      rw [has_iff_get.mpr ⟨b, hget⟩] at hhas
      cases hhas
    | error unknown =>
      rw [get] at hget
      split at hget
      · cases hget
      · exact hget.symm
  refine ⟨hhas, hget, ?_⟩
  rw [visibleAt, hget]
  rfl

/-- A mapping is read as a registry exactly if all of its entries are consistent. The registry has
the names in their order, each with the traits that are described, and the look-ups agree with that
list. Where there is no registry, the fault is about an entry that is not consistent. -/
theorem ofMapping_consistent {m : Mapping} (hkeys : (m.map Prod.fst).Nodup) :
    ((∃ r, ofMapping m = .ok r) ↔ ∀ entry ∈ m, IsConsistent m entry) ∧
    (∀ r, ofMapping m = .ok r →
      List.Forall₂ (fun entry b => b.name = entry.1 ∧ Describes entry.2 b.traits) m r.toList ∧
      (∀ b ∈ r.toList, r.has b.name = true ∧ r.get b.name = .ok b ∧
        r.visibleAt b.name = .ok (b.name :: b.inheritsFrom)) ∧
      ∀ name, name ∉ m.map Prod.fst →
        r.has name = false ∧ r.get name = .error ⟨name⟩ ∧ r.visibleAt name = .error ⟨name⟩) ∧
    ∀ fault, ofMapping m = .error fault →
      ∃ entry ∈ m, entry.1 = fault.subject ∧ ¬ IsConsistent m entry := by
  refine ⟨⟨?_, exists_ofMapping hkeys⟩, fun r h => ?_, fun fault => not_isConsistent_of_fault hkeys⟩
  · rintro ⟨r, h⟩ entry hentry
    have hread := ofMapping_eq_ok.mp h
    obtain ⟨b, hb, hok⟩ := exists_right_of_forall₂ hread hentry
    exact (isConsistent_iff_permits hread hok).mpr (permits_of_mem hb)
  · have hread := ofMapping_eq_ok.mp h
    refine ⟨hread.imp fun entry b hb => (breakpointOf_eq_ok.mp hb).2, fun b => r.lookups_of_mem,
      fun name hname => r.lookups_of_not_mem ?_⟩
    rwa [names, hread.names]

end Mappings

/-- A parent that is described further down, in a table with a text for a description and a number
for a truth value. -/
def wallTable (mobileOnly : Value) : Mapping :=
  [("wall", .mapping [("predicate", .text "print"), ("inherits_from", .tuple [.text "desk"])]),
   ("phone", .text "(max-width: 30em)"),
   ("desk", .mapping [("mobile_only", mobileOnly), ("predicate", .text "screen")])]

/-- What is true of the parent decides whether the first entry is consistent. -/
theorem ofMapping_consistent_sample :
    (∀ entry ∈ wallTable (.number (.int 0)), IsConsistent (wallTable (.number (.int 0))) entry) ∧
      (∃ r, ofMapping (wallTable (.number (.int 0))) = .ok r ∧
        r.visibleAt "wall" = .ok ["wall", "desk"]) ∧
      ofMapping (wallTable (.number (.int 1))) = .error (.inheritsMobileOnly "wall" "desk") ∧
      ∃ entry ∈ wallTable (.number (.int 1)),
        entry.1 = "wall" ∧ ¬ IsConsistent (wallTable (.number (.int 1))) entry := by
  have hkeys (mobileOnly : Value) : ((wallTable mobileOnly).map Prod.fst).Nodup := by
    have hnames : (wallTable mobileOnly).map Prod.fst = ["wall", "phone", "desk"] := rfl
    rw [hnames]
    decide
  have hok : ∃ r, ofMapping (wallTable (.number (.int 0))) = .ok r ∧
      r.visibleAt "wall" = .ok ["wall", "desk"] := ⟨_, rfl, rfl⟩
  have herror : ofMapping (wallTable (.number (.int 1))) =
      .error (.inheritsMobileOnly "wall" "desk") := rfl
  obtain ⟨hiff, -, -⟩ := ofMapping_consistent (hkeys (.number (.int 0)))
  obtain ⟨-, -, hfault⟩ := ofMapping_consistent (hkeys (.number (.int 1)))
  exact ⟨hiff.mp (hok.imp fun _ h => h.1), hok, herror, hfault _ herror⟩

end Registry

end StyleTree
