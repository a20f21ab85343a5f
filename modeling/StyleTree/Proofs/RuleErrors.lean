import StyleTree.Lint.Validate

/-!
# Where the rules report errors

The errors of the built-in rules about one entry, for each kind of entry: `ErrorAt c e p` holds when
one of the rules reports an error about `e` that is located at `p`. Advisory rules report none.
-/

namespace StyleTree.Lint

variable {c : Config} {e : Entry} {p : Path}

/-! ## Errors of the rules -/

/-- The rule reports an error about the entry, located at `p`. -/
def Rule.Errs (rule : Rule) (c : Config) (e : Entry) (p : Path) : Prop :=
  ∃ d ∈ rule.check c e, d.isError = true ∧ d.path = p

/-- Some built-in rule reports an error about the entry, located at `p`. -/
def ErrorAt (c : Config) (e : Entry) (p : Path) : Prop :=
  ∃ rule ∈ builtin, rule.Errs c e p

theorem errs_ofFindings {name : String} {find : Config → Entry → List (Path × Finding)} :
    (Rule.ofFindings name find).Errs c e p ↔
      ∃ found ∈ find c e, found.2.severity = .error ∧ found.1 = p := by
  constructor
  · rintro ⟨d, hd, herror, hpath⟩
    obtain ⟨found, hfound, rfl⟩ := List.mem_map.mp hd
    exact ⟨found, hfound, of_decide_eq_true herror, hpath⟩
  · rintro ⟨found, hfound, herror, hpath⟩
    exact ⟨_, List.mem_map_of_mem hfound, decide_eq_true herror, hpath⟩

theorem not_errs_emptyBlocks : ¬ emptyBlocks.Errs c e p := by
  rw [emptyBlocks, errs_ofFindings]
  rintro ⟨found, hfound, herror, -⟩
  obtain ⟨⟨path, body, consumed⟩, -, hfound⟩ := List.mem_filterMap.mp hfound
  simp only at hfound
  split at hfound
  · cases hfound
    cases herror
  · cases hfound

theorem not_errs_contentQuotes : ¬ contentQuotes.Errs c e p := by
  rw [contentQuotes, errs_ofFindings]
  rintro ⟨found, hfound, herror, -⟩
  split at hfound
  · split at hfound
    · cases List.mem_singleton.mp hfound
      cases herror
    · cases hfound
  · cases hfound

theorem errorAt_iff : ErrorAt c e p ↔
    modifierSpecs.Errs c e p ∨ childSpecs.Errs c e p ∨ pseudoParams.Errs c e p ∨
      nestedUnknown.Errs c e p ∨ numericValues.Errs c e p := by
  simp only [ErrorAt, builtin, List.mem_cons, List.not_mem_nil, or_false, exists_eq_or_imp,
    exists_eq_left, not_errs_emptyBlocks, not_errs_contentQuotes]

theorem errs_modifierSpecs : modifierSpecs.Errs c e p ↔
    e.kind = .modifier ∧ ∃ found ∈ specFindings .modifier e,
      found.2.severity = .error ∧ found.1 = p := by
  rw [modifierSpecs, errs_ofFindings]
  by_cases h : e.kind = .modifier <;> simp [h]

theorem errs_childSpecs : childSpecs.Errs c e p ↔
    e.kind = .child ∧ ∃ found ∈ specFindings .child e,
      found.2.severity = .error ∧ found.1 = p := by
  rw [childSpecs, errs_ofFindings]
  by_cases h : e.kind = .child <;> simp [h]

theorem errs_nestedUnknown : nestedUnknown.Errs c e p ↔
    e.kind = .property ∧ e.value.isNested = true ∧ e.path = p := by
  rw [nestedUnknown, errs_ofFindings]
  simp only [List.mem_ite_nil_right, List.mem_singleton, and_assoc]
  constructor
  · rintro ⟨found, hk, hn, rfl, -, hp⟩
    exact ⟨hk, hn, hp⟩
  · rintro ⟨hk, hn, hp⟩
    exact ⟨_, hk, hn, rfl, rfl, hp⟩

theorem severity_valueFindings {property : String} {v : Value} {found : Finding}
    (h : valueFindings c property v = some found) : found.severity = .error := by
  unfold valueFindings at h
  split at h
  · cases h
  · split at h
    · cases h; rfl
    split at h
    · cases h; rfl
    · cases h
  · cases h; rfl

theorem errs_numericValues : numericValues.Errs c e p ↔
    e.kind = .property ∧ e.value.isNested = false ∧
      (valueFindings c (Property.name e.key) e.value).isSome = true ∧ e.path = p := by
  rw [numericValues, errs_ofFindings]
  simp only [List.mem_ite_nil_right, List.mem_map, Option.mem_toList, and_assoc,
    Bool.not_eq_true']
  constructor
  · rintro ⟨found, hk, hn, ⟨finding, hfinding, rfl⟩, -, hp⟩
    exact ⟨hk, hn, Option.isSome_of_mem hfinding, hp⟩
  · rintro ⟨hk, hn, hsome, hp⟩
    obtain ⟨finding, hfinding⟩ := Option.isSome_iff_exists.mp hsome
    exact ⟨_, hk, hn, ⟨finding, hfinding, rfl⟩, severity_valueFindings hfinding, hp⟩

/-! ## Errors about one entry, by its kind -/

theorem errorAt_property (hk : e.kind = .property) : ErrorAt c e p ↔
    (e.value.isNested = true ∨
      (valueFindings c (Property.name e.key) e.value).isSome = true) ∧ e.path = p := by
  have hpseudo : ¬ pseudoParams.Errs c e p := by
    rw [pseudoParams, errs_ofFindings, hk]
    rintro ⟨found, hfound, -⟩
    cases hfound
  rw [errorAt_iff, errs_modifierSpecs, errs_childSpecs, errs_nestedUnknown, errs_numericValues]
  cases hn : e.value.isNested <;> simp_all

theorem errorAt_pseudo {body : Mapping} {pseudo : Pseudo} (hk : e.kind = .pseudo)
    (hv : e.value = .mapping body) (hp : Pseudo.ofKey? e.key = some pseudo) :
    ErrorAt c e p ↔ ∃ found ∈ paramFindings e pseudo body,
      found.2.severity = .error ∧ found.1 = p := by
  have hpseudo : pseudoParams.Errs c e p ↔ ∃ found ∈ paramFindings e pseudo body,
      found.2.severity = .error ∧ found.1 = p := by
    rw [pseudoParams, errs_ofFindings, hk, hv, hp]
  rw [errorAt_iff, errs_modifierSpecs, errs_childSpecs, errs_nestedUnknown, errs_numericValues,
    hpseudo]
  simp [hk]

theorem not_errorAt_breakpoint (hk : e.kind = .breakpoint) : ¬ ErrorAt c e p := by
  have hpseudo : ¬ pseudoParams.Errs c e p := by
    rw [pseudoParams, errs_ofFindings, hk]
    rintro ⟨found, hfound, -⟩
    cases hfound
  rw [errorAt_iff, errs_modifierSpecs, errs_childSpecs, errs_nestedUnknown, errs_numericValues]
  simp_all

theorem severity_specFindings {kind : SpecKind} {found : Path × Finding}
    (h : found ∈ specFindings kind e) : found.2.severity = .error := by
  unfold specFindings at h
  split at h
  · cases List.mem_singleton.mp h
    rfl
  split at h
  · cases List.mem_singleton.mp h
    rfl
  · obtain ⟨⟨path, raw⟩, -, hfound⟩ := List.mem_filterMap.mp h
    simp only at hfound
    split at hfound
    · cases hfound
    · cases hfound
      rfl

theorem errorAt_spec {kind : SpecKind} (hk : e.kind.specKind? = some kind) :
    ErrorAt c e p ↔ ∃ found ∈ specFindings kind e, found.1 = p := by
  have hpseudo : ¬ pseudoParams.Errs c e p := by
    rw [pseudoParams, errs_ofFindings]
    rintro ⟨found, hfound, -⟩
    cases hkind : e.kind with
    | modifier => rw [hkind] at hfound; simp at hfound
    | child => rw [hkind] at hfound; simp at hfound
    | _ => rw [hkind] at hk; cases hk
  have herror : (∃ found ∈ specFindings kind e, found.2.severity = .error ∧ found.1 = p) ↔
      ∃ found ∈ specFindings kind e, found.1 = p :=
    exists_congr fun found => and_congr_right fun hfound =>
      and_iff_right (severity_specFindings hfound)
  rw [errorAt_iff, errs_modifierSpecs, errs_childSpecs, errs_nestedUnknown, errs_numericValues,
    ← herror]
  cases hkind : e.kind <;> rw [hkind] at hk <;> cases hk <;> simp [hpseudo]

/-! ## Errors of a tree -/

/-- The errors of validation are those about the entries. -/
theorem error_mem_validate {tree : Mapping} :
    (∃ d ∈ validate c tree [], d.isError = true ∧ d.path = p) ↔
      ∃ e ∈ entries c tree [], ErrorAt c e p := by
  simp only [validate, List.append_nil, List.mem_flatMap, Rule.run, ErrorAt, Rule.Errs]
  constructor
  · rintro ⟨d, ⟨rule, hrule, e, he, hd⟩, herror⟩
    exact ⟨e, he, rule, hrule, d, hd, herror⟩
  · rintro ⟨e, he, rule, hrule, d, hd, herror⟩
    exact ⟨d, ⟨rule, hrule, e, he, hd⟩, herror⟩

end StyleTree.Lint
