import StyleTree.Proofs.Compilation
import StyleTree.Proofs.RuleErrors

/-!
# The linter and the compiler

The compiler reads specs from any sequence, and the linter from lists and tuples. Specs in another
sequence are hidden from the rules: the compiler can fail there, and nothing is reported
(`compile_fails_unreported`). Apart from them the two agree. A check of the compiler agrees with the
findings about some entries when no error is found about them if it succeeds, and when an error
stands where it fails, unless one of the entries hides its specs. Agreement is kept by running checks
one after the other (`Agrees.bind`), though the compiler stops at its first fault and the linter goes
on. So the two walks agree on every node (`agrees_itemsOf`).
-/

namespace StyleTree

/-- The specs of the entry are hidden from the rules: they stand in a sequence that is compiled, and
that is no list and no tuple. -/
def Entry.hidesSpecs (e : Entry) : Bool :=
  match e.value with
  | .sequence _ items => e.kind.specKind?.isSome && !items.isEmpty && items.all Value.isMapping
  | _ => false

theorem Entry.hidesSpecs_of_sequence {e : Entry} {type : String} {items : List Value}
    {kind : SpecKind} (hv : e.value = .sequence type items) (hk : e.kind.specKind? = some kind)
    (hne : items ≠ []) (hall : items.all Value.isMapping = true) : e.hidesSpecs = true := by
  simp [hidesSpecs, hv, hk, hne, hall]

/-- No specs are hidden from the rules. -/
def NothingHidden (es : List Entry) : Prop :=
  ∀ e ∈ es, e.hidesSpecs = false

namespace Lint

variable {c : Config} {e : Entry} {p : Path}

/-! ## Agreement -/

/-- If the check succeeds, no error is found about the entries. If it fails, an error is found at the
place of the fault, or specs are hidden. -/
def Agrees {α : Type} (c : Config) (result : Except CompileError α) (es : List Entry) : Prop :=
  match result with
  | .ok _ => ∀ e ∈ es, ∀ p, ¬ ErrorAt c e p
  | .error err =>
    ∃ f, err = .malformed f ∧ ∃ e ∈ es, ErrorAt c e f.path ∨ e.hidesSpecs = true

theorem agrees_ok {α : Type} (a : α) : Agrees c (.ok a) [] := by
  intro e he
  cases he

theorem Agrees.bind {α β : Type} {x : Except CompileError α} {f : α → Except CompileError β}
    {es es' : List Entry} (hx : Agrees c x es) (hf : ∀ a, x = .ok a → Agrees c (f a) es') :
    Agrees c (x >>= f) (es ++ es') := by
  cases x with
  | error err =>
    obtain ⟨fault, herr, e, he, herror⟩ := hx
    exact ⟨fault, herr, e, List.mem_append_left _ he, herror⟩
  | ok a =>
    have hfa := hf a rfl
    show Agrees c (f a) (es ++ es')
    cases h : f a with
    | error err =>
      rw [h] at hfa
      obtain ⟨fault, herr, e, he, herror⟩ := hfa
      exact ⟨fault, herr, e, List.mem_append_right _ he, herror⟩
    | ok b =>
      rw [h] at hfa
      intro e he
      rcases List.mem_append.mp he with he | he
      · exact hx e he
      · exact hfa e he

theorem Agrees.map {α β : Type} {x : Except CompileError α} {es : List Entry}
    (hx : Agrees c x es) (f : α → β) : Agrees c (do let a ← x; return f a) es := by
  have h : Agrees c (x >>= fun a => .ok (f a)) (es ++ []) := hx.bind fun a _ => agrees_ok (f a)
  rwa [List.append_nil] at h

theorem agrees_malformedAt {α : Type} {reason : Reason} (h : ErrorAt c e p) :
    Agrees c (malformedAt p reason : Except CompileError α) [e] :=
  ⟨⟨reason, p⟩, rfl, e, List.mem_singleton_self e, .inl h⟩

theorem agrees_ok_singleton {α : Type} {a : α} (h : ∀ p, ¬ ErrorAt c e p) :
    Agrees c (.ok a) [e] := by
  intro e' he'
  cases List.mem_singleton.mp he'
  exact h

/-- What is below an entry that hides its specs can be left out. -/
theorem Agrees.of_hidden {α : Type} {x : Except CompileError α} {es : List Entry}
    (hx : Agrees c x (e :: es)) (h : e.hidesSpecs = true) : Agrees c x [e] := by
  cases x with
  | ok a =>
    intro e' he'
    cases List.mem_singleton.mp he'
    exact hx e List.mem_cons_self
  | error err =>
    obtain ⟨f, herr, -⟩ := hx
    exact ⟨f, herr, e, List.mem_singleton_self e, .inr h⟩

/-- An entry without errors needs no check. -/
theorem Agrees.cons {α : Type} {x : Except CompileError α} {es : List Entry} (hx : Agrees c x es)
    (he : ∀ p, ¬ ErrorAt c e p) : Agrees c x (e :: es) :=
  (agrees_ok_singleton (a := ()) he).bind (f := fun _ => x) fun _ _ => hx

/-! ## The checks of one entry -/

section Checks

variable {key : String} {path : Path}

/-- The values with findings are those that are not written. -/
theorem valueFindings_eq_none {property : String} {v : Value} :
    valueFindings c property v = none ↔ ∃ written, c.write property v = .ok written := by
  cases v with
  | number n =>
    simp only [valueFindings, ValueRules.write, ValueRules.writeNumber]
    split
    · simp
    split
    · simp
    split <;> simp
  | text s => simp [valueFindings, ValueRules.write]
  | _ => simp [valueFindings, ValueRules.write]

theorem agrees_declarationOf {v : Value} {kind : KeyKind} (hk : kind = .property) :
    Agrees c (declarationOf c key path v) [⟨path ++ [key], key, v, kind⟩] := by
  unfold declarationOf
  split
  · rename_i hn
    exact agrees_malformedAt ((errorAt_property hk).mpr ⟨.inl hn, rfl⟩)
  · rename_i hn
    simp only
    split
    · rename_i written hw
      have hnone := valueFindings_eq_none.mpr ⟨written, hw⟩
      refine agrees_ok_singleton fun p herror => ?_
      rcases ((errorAt_property hk).mp herror).1 with h | h
      · exact hn h
      · rw [hnone] at h
        cases h
    · rename_i reason hw
      refine agrees_malformedAt ((errorAt_property hk).mpr ⟨.inr ?_, rfl⟩)
      rw [Option.isSome_iff_ne_none, Ne, valueFindings_eq_none, hw]
      rintro ⟨written, h⟩
      cases h

/-- The errors of a pseudo block, by its parameter. -/
theorem errorAt_param {body : Mapping} {pseudo : Pseudo} (hk : e.kind = .pseudo)
    (hv : e.value = .mapping body) (hp : Pseudo.ofKey? e.key = some pseudo) :
    ErrorAt c e p ↔
      match body.get? Pseudo.paramKey with
      | none | some .null => pseudo.parameterized = true ∧ e.path = p
      | some (.text _) | some (.number _) => False
      | some _ => e.path ++ [Pseudo.paramKey] = p := by
  rw [errorAt_pseudo hk hv hp, paramFindings]
  cases hget : body.get? Pseudo.paramKey with
  | none => simp [Finding.severity, @eq_comm _ p]
  | some v => cases v <;> simp [Finding.severity, @eq_comm _ p]

theorem agrees_pseudoSuffix {body : Mapping} (hc : classify c key (.mapping body) = .pseudo) :
    Agrees c (pseudoSuffix key path body) [⟨path ++ [key], key, .mapping body, .pseudo⟩] := by
  obtain ⟨pseudo, hpseudo⟩ := ofKey?_of_classify hc
  have herror := fun p => errorAt_param (c := c) (p := p)
    (e := ⟨path ++ [key], key, .mapping body, .pseudo⟩) rfl rfl hpseudo
  simp only [pseudoSuffix, hpseudo]
  split <;> rename_i hget <;> rw [hget] at herror <;> simp only at herror
  iterate 2
    split
    · rename_i hparam
      exact agrees_malformedAt ((herror _).mpr ⟨hparam, rfl⟩)
    · rename_i hparam
      exact agrees_ok_singleton fun p h => hparam ((herror p).mp h).1
  · exact agrees_ok_singleton fun p h => (herror p).mp h
  · exact agrees_ok_singleton fun p h => (herror p).mp h
  · rw [show path ++ [key, Pseudo.paramKey] = path ++ [key] ++ [Pseudo.paramKey] by simp]
    exact agrees_malformedAt ((herror _).mpr rfl)

/-- The specs among the items of a sequence under `key`, numbered from `index` on. -/
def rawItems (key : String) (path : Path) (index : Nat) : List Value → List (Path × Mapping)
  | [] => []
  | .mapping raw :: rest =>
    (path ++ [Path.itemStep key index], raw) :: rawItems key path (index + 1) rest
  | _ :: rest => rawItems key path (index + 1) rest

theorem rawItems_eq (items : List Value) (index : Nat) :
    rawItems key path index items =
      (items.zipIdx index).filterMap fun (item, index) =>
        match item with
        | .mapping raw => some (path ++ [Path.itemStep key index], raw)
        | _ => none := by
  induction items generalizing index with
  | nil => rfl
  | cons item rest ih =>
    rw [List.zipIdx_cons, List.filterMap_cons]
    cases item <;> simp only [rawItems, ih]

/-- A sequence of mappings is read as specs unless one of them lacks its field. -/
theorem specItems_fault (kind : SpecKind) (key : String) (path : Path) {items : List Value}
    (hall : items.all Value.isMapping = true) (index : Nat) :
    match kind.specItems key path index items with
    | .ok _ => ∀ raw ∈ rawItems key path index items, kind.fieldText? raw.2 ≠ none
    | .error f => ∃ raw ∈ rawItems key path index items,
        kind.fieldText? raw.2 = none ∧ raw.1 = f.path := by
  induction items generalizing index with
  | nil => intro raw hraw; cases hraw
  | cons item rest ih =>
    cases item with
    | mapping raw =>
      have ih := ih (by simpa [Value.isMapping] using hall) (index + 1)
      rw [SpecKind.specItems, rawItems, SpecKind.spec]
      cases hfield : kind.fieldText? raw with
      | none => exact ⟨_, List.mem_cons_self, hfield, rfl⟩
      | some s =>
        cases hrest : kind.specItems key path (index + 1) rest with
        | error f =>
          rw [hrest] at ih
          obtain ⟨found, hfound, h⟩ := ih
          exact ⟨found, List.mem_cons_of_mem _ hfound, h⟩
        | ok specs =>
          rw [hrest] at ih
          intro found hfound
          rcases List.mem_cons.mp hfound with rfl | hfound
          · simp [hfield]
          · exact ih found hfound
    | _ => cases hall

section Specs

variable {kind : SpecKind}

theorem errorAt_shape (hk : e.kind.specKind? = some kind) (h : e.value.isNested = false) :
    ErrorAt c e e.path := by
  refine (errorAt_spec hk).mpr ⟨(e.path, .specShape e.key), ?_, rfl⟩
  rw [specFindings, h]
  exact List.mem_singleton_self _

theorem errorAt_empty (hk : e.kind.specKind? = some kind) (h : e.value.sequence? = some []) :
    ErrorAt c e e.path := by
  refine (errorAt_spec hk).mpr ⟨(e.path, .specEmpty e.key), ?_, rfl⟩
  have hnested : e.value.isNested = true := by
    simp [Value.isNested, Value.isMappingSequence, h]
  rw [specFindings, hnested, h]
  exact List.mem_singleton_self _

/-- The errors of an entry that holds specs are the specs that lack their field. -/
theorem errorAt_field (hk : e.kind.specKind? = some kind) (hnested : e.value.isNested = true)
    (hne : e.value.sequence? ≠ some []) :
    ErrorAt c e p ↔ ∃ raw ∈ entrySpecs e, kind.fieldText? raw.2 = none ∧ raw.1 = p := by
  have hany : e.value.sequence?.any List.isEmpty = false := by
    cases hitems : e.value.sequence? with
    | none => rfl
    | some items =>
      cases items with
      | nil => exact absurd hitems hne
      | cons item rest => rfl
  rw [errorAt_spec hk, specFindings, hnested, hany]
  simp only [Bool.not_true, Bool.false_eq_true, ↓reduceIte, List.mem_filterMap]
  constructor
  · rintro ⟨found, ⟨raw, hraw, hfound⟩, hp⟩
    split at hfound
    · cases hfound
    · rename_i hfield
      cases hfound
      exact ⟨raw, hraw, hfield, hp⟩
  · rintro ⟨raw, hraw, hfield, hp⟩
    exact ⟨_, ⟨raw, hraw, by rw [hfield]⟩, hp⟩

theorem entrySpecs_of_mapping {raw : Mapping} {k : KeyKind} :
    entrySpecs ⟨path ++ [key], key, .mapping raw, k⟩ = [(path ++ [key], raw)] := by
  simp only [entrySpecs, rawSpecs, List.dropLast_concat]

theorem entrySpecs_of_items {v : Value} {items : List Value} {k : KeyKind}
    (h : v.items? = some items) :
    entrySpecs ⟨path ++ [key], key, v, k⟩ = rawItems key path 0 items := by
  rw [rawItems_eq, entrySpecs, List.dropLast_concat]
  cases v with
  | list _ | tuple _ => cases h; rfl
  | _ => cases h

theorem agrees_spec {raw : Mapping} {k : KeyKind} (hk : k.specKind? = some kind) :
    Agrees c ((kind.spec (path ++ [key]) raw).mapError .malformed)
      [⟨path ++ [key], key, .mapping raw, k⟩] := by
  have herror (p : Path) : ErrorAt c ⟨path ++ [key], key, .mapping raw, k⟩ p ↔
      ∃ found ∈ [(path ++ [key], raw)], kind.fieldText? found.2 = none ∧ found.1 = p := by
    rw [errorAt_field hk rfl (by simp [Value.sequence?]), entrySpecs_of_mapping]
  unfold SpecKind.spec
  split
  · rename_i s hfield
    refine agrees_ok_singleton fun p h => ?_
    obtain ⟨found, hfound, hnone, -⟩ := (herror p).mp h
    cases List.mem_singleton.mp hfound
    rw [hfield] at hnone
    cases hnone
  · rename_i hfield
    exact agrees_malformedAt ((herror _).mpr ⟨_, List.mem_singleton_self _, hfield, rfl⟩)

/-- The check of a list or a tuple of mappings. -/
theorem agrees_specItems {v : Value} {items : List Value} {k : KeyKind}
    (hk : k.specKind? = some kind) (hitems : v.items? = some items) (hne : items ≠ [])
    (hnested : v.isNested = true) (hall : items.all Value.isMapping = true) :
    Agrees c ((kind.specItems key path 0 items).mapError .malformed)
      [⟨path ++ [key], key, v, k⟩] := by
  have herror (p : Path) : ErrorAt c ⟨path ++ [key], key, v, k⟩ p ↔
      ∃ raw ∈ rawItems key path 0 items, kind.fieldText? raw.2 = none ∧ raw.1 = p := by
    rw [errorAt_field hk hnested (by simpa [sequence?_of_items? hitems] using hne),
      entrySpecs_of_items hitems]
  have hfault := specItems_fault kind key path hall 0
  cases hspecs : kind.specItems key path 0 items with
  | ok specs =>
    rw [hspecs] at hfault
    refine agrees_ok_singleton fun p h => ?_
    obtain ⟨raw, hraw, hnone, -⟩ := (herror p).mp h
    exact hfault raw hraw hnone
  | error f =>
    rw [hspecs] at hfault
    exact agrees_malformedAt ((herror _).mpr hfault)

/-- The check of another sequence of mappings. -/
theorem agrees_hidden {type : String} {items : List Value} {k : KeyKind}
    (hk : k.specKind? = some kind) (hne : items ≠ []) (hall : items.all Value.isMapping = true) :
    Agrees c ((kind.specItems key path 0 items).mapError .malformed)
      [⟨path ++ [key], key, .sequence type items, k⟩] := by
  cases kind.specItems key path 0 items with
  | error f =>
    exact ⟨f, rfl, _, List.mem_singleton_self _, .inr (Entry.hidesSpecs_of_sequence rfl hk hne hall)⟩
  | ok specs =>
    refine agrees_ok_singleton fun p h => ?_
    have hnested := (isNested_of_sequence? (v := .sequence type items) rfl).trans hall
    obtain ⟨raw, hraw, -⟩ := (errorAt_field hk hnested (by simpa [Value.sequence?] using hne)).mp h
    cases hraw

theorem agrees_specs {v : Value} {k : KeyKind} (hk : k.specKind? = some kind)
    (hv : v.isMapping = false) :
    Agrees c ((kind.specs key path v).mapError .malformed) [⟨path ++ [key], key, v, k⟩] := by
  cases hitems : v.sequence? with
  | none =>
    have hshape : kind.specs key path v = .error ⟨.specShape key v.typeName, path ++ [key]⟩ := by
      cases v with
      | list _ | tuple _ | sequence _ _ => cases hitems
      | mapping _ => cases hv
      | _ => rfl
    rw [hshape]
    refine agrees_malformedAt (errorAt_shape hk ?_)
    simp [Value.isNested, hv, Value.isMappingSequence, hitems]
  | some items =>
    have hnested := isNested_of_sequence? hitems
    rw [specs_of_items hitems]
    split
    · rename_i hempty
      rw [hempty] at hitems
      exact agrees_malformedAt (errorAt_empty hk hitems)
    rename_i hne
    split
    · rename_i hall
      cases v with
      | list _ | tuple _ => exact agrees_specItems hk hitems hne (hnested.trans hall) hall
      | sequence type values =>
        cases hitems
        exact agrees_hidden hk hne hall
      | _ => cases hitems
    · rename_i hall
      exact agrees_malformedAt (errorAt_shape hk (hnested.trans (by simpa using hall)))

end Specs

end Checks

/-! ## The two walks -/

/-- The check of a block that is one spec. -/
theorem agrees_specBlock {kind : SpecKind} {k : KeyKind} {key : String} {path : Path}
    {raw : Mapping} (hk : k.specKind? = some kind)
    (hbody : Agrees c (itemsOf c (some kind.field) (path ++ [key]) raw)
      (entriesOf c (some kind.field) (path ++ [key]) raw)) :
    Agrees c (do
        let spec ← (kind.spec (path ++ [key]) raw).mapError CompileError.malformed
        let inner ← itemsOf c (some kind.field) spec.path raw
        return [Item.scope (kind.suffix spec.label) inner])
      (⟨path ++ [key], key, .mapping raw, k⟩ ::
        entriesOf c (some kind.field) (path ++ [key]) raw) := by
  refine (agrees_spec hk).bind fun spec hspec => ?_
  obtain ⟨-, -, -, hpath⟩ := spec_eq_ok (mapError_eq_ok.mp hspec)
  rw [hpath]
  exact hbody.map _

/-- The check of a list or a tuple of specs. -/
theorem agrees_of_items {key : String} {path : Path} {v : Value} {values : List Value}
    (hv : v.items? = some values)
    (hvalues : ∀ (kind : SpecKind) (specs : List Spec), values.all Value.isMapping = true →
      kind.specItems key path 0 values = .ok specs →
      Agrees c (scopesOf c kind specs values) (entriesOfItems c kind key path 0 values)) :
    Agrees c (itemsAt c key path v)
      (⟨path ++ [key], key, v, classify c key v⟩ :: entriesBelow c key path v) := by
  have hsequence := sequence?_of_items? hv
  have hmapping := isMapping_of_sequence? hsequence
  rw [itemsAt_of_items hsequence, entriesBelow_of_items hv]
  cases hk : (classify c key v).specKind? with
  | none => exact (agrees_declarationOf (classify_eq_property hmapping hk)).map _
  | some kind =>
    refine (agrees_specs hk hmapping).bind fun specs hspecs => ?_
    obtain ⟨-, hall, hitems⟩ := specs_eq_ok hsequence (mapError_eq_ok.mp hspecs)
    exact hvalues kind specs hall hitems

/-- The check of another sequence of specs, which has no entries. -/
theorem agrees_of_sequence {key : String} {path : Path} {type : String} {values : List Value}
    (hvalues : ∀ (kind : SpecKind) (specs : List Spec), values.all Value.isMapping = true →
      kind.specItems key path 0 values = .ok specs →
      Agrees c (scopesOf c kind specs values) (entriesOfItems c kind key path 0 values)) :
    Agrees c (itemsAt c key path (.sequence type values))
      [⟨path ++ [key], key, .sequence type values, classify c key (.sequence type values)⟩] := by
  rw [itemsAt_of_items rfl]
  cases hk : (classify c key (.sequence type values)).specKind? with
  | none => exact (agrees_declarationOf (classify_eq_property rfl hk)).map _
  | some kind =>
    have hfirst : Agrees c ((kind.specs key path (.sequence type values)).mapError .malformed)
        [⟨path ++ [key], key, .sequence type values, classify c key (.sequence type values)⟩] :=
      agrees_specs hk rfl
    dsimp only
    cases hspecs : kind.specs key path (.sequence type values) with
    | error f =>
      rw [hspecs] at hfirst
      exact hfirst
    | ok specs =>
      rw [hspecs] at hfirst
      obtain ⟨hne, hall, hitems⟩ := specs_eq_ok rfl hspecs
      -- what is below agrees with entries that the linter does not come to
      have hbelow := hfirst.bind (f := fun specs => scopesOf c kind specs values) fun _ heq => by
        cases heq
        exact hvalues kind specs hall hitems
      exact hbelow.of_hidden (Entry.hidesSpecs_of_sequence rfl hk hne hall)

mutual

theorem agrees_itemsOf (c : Config) : ∀ (m : Mapping) (consumed : Option String) (path : Path),
    Agrees c (itemsOf c consumed path m) (entriesOf c consumed path m)
  | [], _, _ => agrees_ok []
  | (key, v) :: rest, consumed, path => by
    have hrest := agrees_itemsOf c rest consumed path
    have hfirst := agrees_itemsAt c v key path
    rw [itemsOf, entriesOf]
    split
    · exact hrest
    · exact hfirst.bind fun first _ => hrest.map (first ++ ·)

theorem agrees_itemsAt (c : Config) : ∀ (v : Value) (key : String) (path : Path),
    Agrees c (itemsAt c key path v)
      (⟨path ++ [key], key, v, classify c key v⟩ :: entriesBelow c key path v)
  | .mapping body, key, path => by
    have hbody := agrees_itemsOf c body
    rw [itemsAt, entriesBelow]
    cases hc : classify c key (.mapping body) with
    | property => exact (agrees_declarationOf rfl).map _
    | pseudo => exact (agrees_pseudoSuffix hc).bind fun suffix _ => (hbody _ _).map _
    | breakpoint => exact ((hbody _ _).map _).cons fun p => not_errorAt_breakpoint rfl
    | modifier => exact agrees_specBlock rfl (hbody _ _)
    | child => exact agrees_specBlock rfl (hbody _ _)
  | .list values, key, path | .tuple values, key, path =>
    agrees_of_items rfl fun kind specs => agrees_scopesOf c values kind key path 0 specs
  | .sequence type values, key, path =>
    agrees_of_sequence fun kind specs => agrees_scopesOf c values kind key path 0 specs
  | .null, key, path | .flag _, key, path | .number _, key, path | .text _, key, path
  | .bytes _, key, path => by
    rw [itemsAt, entriesBelow]
    · split
      · rename_i kind hk
        exact (agrees_specs hk rfl).map _
      · rename_i hk
        exact (agrees_declarationOf (classify_eq_property rfl hk)).map _
    all_goals simp

theorem agrees_scopesOf (c : Config) : ∀ (values : List Value) (kind : SpecKind) (key : String)
    (path : Path) (index : Nat) (specs : List Spec), values.all Value.isMapping = true →
    kind.specItems key path index values = .ok specs →
    Agrees c (scopesOf c kind specs values) (entriesOfItems c kind key path index values)
  | [], _, _, _, _, _, _, hspecs => by
    cases hspecs
    exact agrees_ok []
  | .mapping raw :: rest, kind, key, path, index, specs, hall, hspecs => by
    have hbody := agrees_itemsOf c raw
    have hrest := agrees_scopesOf c rest kind key path (index + 1)
    rw [SpecKind.specItems] at hspecs
    simp only [bind_eq_ok] at hspecs
    obtain ⟨spec, hspec, later, hlater, heq⟩ := hspecs
    cases heq
    obtain ⟨-, -, -, hpath⟩ := spec_eq_ok hspec
    rw [scopesOf, entriesOfItems, hpath]
    exact (hbody _ _).bind fun inner _ =>
      (hrest later (by simpa [Value.isMapping] using hall) hlater).map _
  | .list _ :: _, _, _, _, _, _, hall, _ | .tuple _ :: _, _, _, _, _, _, hall, _
  | .sequence _ _ :: _, _, _, _, _, _, hall, _
  | .null :: _, _, _, _, _, _, hall, _ | .flag _ :: _, _, _, _, _, _, hall, _
  | .number _ :: _, _, _, _, _, _, hall, _ | .text _ :: _, _, _, _, _, _, hall, _
  | .bytes _ :: _, _, _, _, _, _, hall, _ => by cases hall

end

/-! ## Whole trees -/

section Trees

variable {tree : Mapping}

/-- In a tree that compiles no error is found. -/
theorem no_error_of_wellFormed (h : WellFormed c tree) :
    ∀ d ∈ validate c tree [], d.isError = false := by
  obtain ⟨items, hitems⟩ := h
  have hagrees := agrees_itemsOf c tree none []
  rw [hitems] at hagrees
  intro d hd
  rw [← Bool.not_eq_true]
  intro herror
  obtain ⟨e, he, hat⟩ := error_mem_validate.mp ⟨d, hd, herror, rfl⟩
  exact hagrees e he d.path hat

/-- Where the checks of a tree fail, an error is found or specs are hidden. -/
theorem error_of_itemsOf {err : CompileError} (h : itemsOf c none [] tree = .error err) :
    ∃ f, err = .malformed f ∧ ((∃ d ∈ validate c tree [], d.isError = true ∧ d.path = f.path) ∨
      ∃ e ∈ entries c tree [], e.hidesSpecs = true) := by
  have hagrees := agrees_itemsOf c tree none []
  rw [h] at hagrees
  obtain ⟨f, hf, e, he, hat | hhidden⟩ := hagrees
  · exact ⟨f, hf, .inl (error_mem_validate.mpr ⟨e, he, hat⟩)⟩
  · exact ⟨f, hf, .inr ⟨e, he, hhidden⟩⟩

theorem error_of_nothingHidden (hhidden : NothingHidden (entries c tree []))
    {err : CompileError} (h : itemsOf c none [] tree = .error err) :
    ∃ f, err = .malformed f ∧ ∃ d ∈ validate c tree [], d.isError = true ∧ d.path = f.path := by
  obtain ⟨f, hf, herror | ⟨e, he, hhides⟩⟩ := error_of_itemsOf h
  · exact ⟨f, hf, herror⟩
  · rw [hhidden e he] at hhides
    cases hhides

/-- Where nothing is hidden, a tree is well formed exactly when validation finds no error. -/
theorem wellFormed_iff_validate (hhidden : NothingHidden (entries c tree [])) :
    WellFormed c tree ↔ ∀ d ∈ validate c tree [], d.isError = false := by
  refine ⟨no_error_of_wellFormed, fun hclean => ?_⟩
  cases h : itemsOf c none [] tree with
  | ok items => exact ⟨items, h⟩
  | error err =>
    obtain ⟨f, -, d, hd, herror, -⟩ := error_of_nothingHidden hhidden h
    rw [hclean d hd] at herror
    cases herror

end Trees

end Lint

end StyleTree
