import StyleTree.Proofs.Reading

/-!
# Constants are a substitution

Constants are looked up for the values of declarations and nowhere else, and each value is looked up
once. `Substitutes` says of two trees that the second is the first with the constants in place of
their names; there is one such tree (`substitutes_iff`). Compiling with constants is compiling that
tree without any (`compile_constants`): there is the same output, or the same fault at the same place.
A constant whose name does not match the pattern of names is never looked up.
-/

namespace StyleTree

/-! ## Names of constants -/

namespace Constants

/-- A letter of `[A-Za-z_]`. -/
def IsNameStart (ch : Char) : Prop :=
  ('A' ≤ ch ∧ ch ≤ 'Z') ∨ ('a' ≤ ch ∧ ch ≤ 'z') ∨ ch = '_'

/-- A letter of `[A-Za-z0-9_-]`. -/
def IsNamePart (ch : Char) : Prop :=
  IsNameStart ch ∨ ('0' ≤ ch ∧ ch ≤ '9') ∨ ch = '-'

/-- The text matches `^[A-Za-z_][A-Za-z0-9_-]*$`, whose end can be followed by one line feed. -/
def MatchesName (s : String) : Prop :=
  ∃ first body, IsNameStart first ∧ (∀ ch ∈ body, IsNamePart ch) ∧
    (s.toList = first :: body ∨ s.toList = first :: (body ++ ['\n']))

theorem isUpper_iff (ch : Char) : ch.isUpper = true ↔ 'A' ≤ ch ∧ ch ≤ 'Z' :=
  decide_eq_true_iff

theorem isLower_iff (ch : Char) : ch.isLower = true ↔ 'a' ≤ ch ∧ ch ≤ 'z' := by
  show (decide (ch.val ≥ 'a'.val) && decide (ch.val ≤ 'z'.val)) = true ↔ _
  rw [Bool.and_eq_true, decide_eq_true_iff, decide_eq_true_iff]
  exact Iff.rfl

theorem isDigit_iff (ch : Char) : ch.isDigit = true ↔ '0' ≤ ch ∧ ch ≤ '9' := by
  show (decide (ch.val ≥ '0'.val) && decide (ch.val ≤ '9'.val)) = true ↔ _
  rw [Bool.and_eq_true, decide_eq_true_iff, decide_eq_true_iff]
  exact Iff.rfl

theorem isIdentifierStart_iff (ch : Char) : isIdentifierStart ch = true ↔ IsNameStart ch := by
  show (ch.isUpper || ch.isLower || ch == '_') = true ↔ _
  rw [Bool.or_eq_true, Bool.or_eq_true, isUpper_iff, isLower_iff, beq_iff_eq, or_assoc, IsNameStart]

theorem isIdentifierPart_iff (ch : Char) : isIdentifierPart ch = true ↔ IsNamePart ch := by
  rw [IsNamePart, ← isIdentifierStart_iff, ← isDigit_iff]
  show (ch.isAlpha || ch.isDigit || ch == '_' || ch == '-') = true ↔
    (ch.isAlpha || ch == '_') = true ∨ _
  simp only [Bool.or_eq_true, beq_iff_eq]
  tauto

theorem isIdentifierTail_cons {ch : Char} {rest : List Char} (h : isIdentifierPart ch = true) :
    isIdentifierTail (ch :: rest) = isIdentifierTail rest := by
  rw [isIdentifierTail, h, Bool.true_and]
  rintro rfl -
  exact absurd h (by decide)

theorem isIdentifierTail_iff (cs : List Char) : isIdentifierTail cs = true ↔
    ∃ body, (∀ ch ∈ body, IsNamePart ch) ∧ (cs = body ∨ cs = body ++ ['\n']) := by
  constructor
  · intro h
    fun_induction isIdentifierTail cs with
    | case1 => exact ⟨[], List.forall_mem_nil _, .inl rfl⟩
    | case2 => exact ⟨[], List.forall_mem_nil _, .inr rfl⟩
    | case3 ch rest _ ih =>
      rw [Bool.and_eq_true, isIdentifierPart_iff] at h
      obtain ⟨body, hbody, hrest⟩ := ih h.2
      refine ⟨ch :: body, List.forall_mem_cons.mpr ⟨h.1, hbody⟩, ?_⟩
      exact hrest.imp (congrArg (ch :: ·)) (congrArg (ch :: ·))
  · rintro ⟨body, hbody, hcs⟩
    induction body generalizing cs with
    | nil => rcases hcs with rfl | rfl <;> rfl
    | cons ch body ih =>
      obtain ⟨hch, hbody⟩ := List.forall_mem_cons.mp hbody
      have hpart := (isIdentifierPart_iff ch).mpr hch
      rcases hcs with rfl | rfl
      · rw [isIdentifierTail_cons hpart]
        exact ih body hbody (.inl rfl)
      · rw [List.cons_append, isIdentifierTail_cons hpart]
        exact ih _ hbody (.inr rfl)

theorem isIdentifier_iff (s : String) : isIdentifier s = true ↔ MatchesName s := by
  unfold isIdentifier MatchesName
  cases s.toList with
  | nil => simp
  | cons ch rest =>
    rw [Bool.and_eq_true, isIdentifierStart_iff, isIdentifierTail_iff]
    constructor
    · rintro ⟨hch, body, hbody, hrest⟩
      exact ⟨ch, body, hch, hbody, hrest.imp (congrArg (ch :: ·)) (congrArg (ch :: ·))⟩
    · rintro ⟨first, body, hfirst, hbody, h⟩
      simp only [List.cons.injEq, ← and_or_left] at h
      obtain ⟨rfl, hrest⟩ := h
      exact ⟨hfirst, body, hbody, hrest⟩

/-- A text that matches the pattern and is the name of a constant stands for its value. -/
theorem resolve_of_lookup {constants : Constants} {s value : String} (hname : MatchesName s)
    (hvalue : constants.lookup s = some value) : constants.resolve s = value := by
  rw [resolve, if_pos ((isIdentifier_iff s).mpr hname), hvalue]
  rfl

/-- Any other text stands for itself. -/
theorem resolve_eq_self {constants : Constants} {s : String}
    (h : MatchesName s → constants.lookup s = none) : constants.resolve s = s := by
  rw [resolve]
  split
  · rename_i hname
    rw [h ((isIdentifier_iff s).mp hname)]
    rfl
  · rfl

end Constants

/-! ## The substitution -/

/-- The second value is what a declaration with the first one stands for: the value of the constant
that its text names, or the value as it is. -/
inductive Constants.StandsFor (constants : Constants) : Value → Value → Prop where
  | constant {name value : String} : MatchesName name → constants.lookup name = some value →
      StandsFor constants (.text name) (.text value)
  | other {v : Value} :
      (∀ name, v = .text name → MatchesName name → constants.lookup name = none) →
      StandsFor constants v v

/-- The sequence with other items. -/
def Value.withItems : Value → List Value → Value
  | list _, items => list items
  | tuple _, items => tuple items
  | sequence type _, items => sequence type items
  | v, _ => v

mutual

/-- The second node is the first with the constants in place of their names, at every depth. The key
that the block of the node uses up keeps its value. -/
inductive Substitutes (c : Config) : Option String → Mapping → Mapping → Prop where
  | nil {consumed : Option String} : Substitutes c consumed [] []
  | consumed {key : String} {v : Value} {rest rest' : Mapping} :
      Substitutes c (some key) rest rest' →
      Substitutes c (some key) ((key, v) :: rest) ((key, v) :: rest')
  | entry {consumed : Option String} {key : String} {v v' : Value} {rest rest' : Mapping} :
      consumed ≠ some key → SubstitutesAt c key v v' → Substitutes c consumed rest rest' →
      Substitutes c consumed ((key, v) :: rest) ((key, v') :: rest')

/-- So are the values of the entry `key: v`, which is a declaration or holds blocks. -/
inductive SubstitutesAt (c : Config) : String → Value → Value → Prop where
  | property {key : String} {v v' : Value} :
      classify c key v = .property → c.constants.StandsFor v v' → SubstitutesAt c key v v'
  | block {key : String} {body body' : Mapping} :
      classify c key (.mapping body) ≠ .property →
      Substitutes c (classify c key (.mapping body)).consumedKey body body' →
      SubstitutesAt c key (.mapping body) (.mapping body')
  | specs {key : String} {kind : SpecKind} {v : Value} {values values' : List Value} :
      (classify c key v).specKind? = some kind → v.sequence? = some values →
      SubstitutesEach c kind values values' → SubstitutesAt c key v (v.withItems values')
  | malformed {key : String} {v : Value} :
      classify c key v ≠ .property → v.isMapping = false → v.sequence? = none →
      SubstitutesAt c key v v

/-- So are the items of a sequence of specs. -/
inductive SubstitutesEach (c : Config) : SpecKind → List Value → List Value → Prop where
  | nil {kind : SpecKind} : SubstitutesEach c kind [] []
  | spec {kind : SpecKind} {raw raw' : Mapping} {rest rest' : List Value} :
      Substitutes c (some kind.field) raw raw' → SubstitutesEach c kind rest rest' →
      SubstitutesEach c kind (.mapping raw :: rest) (.mapping raw' :: rest')
  | other {kind : SpecKind} {v : Value} {rest rest' : List Value} :
      v.isMapping = false → SubstitutesEach c kind rest rest' →
      SubstitutesEach c kind (v :: rest) (v :: rest')

end

def Config.withConstants (c : Config) (constants : Constants) : Config :=
  { c with constants }

/-! ## The new tree -/

/-- The value of a declaration with `f` applied to its text. -/
def Value.mapText (f : String → String) : Value → Value
  | text s => text (f s)
  | v => v

mutual

/-- The node with `f` applied to the texts of its declarations, at every depth. The key that its
block uses up keeps its value. -/
def mapTexts (c : Config) (f : String → String) (consumed : Option String) : Mapping → Mapping
  | [] => []
  | (key, v) :: rest =>
    (key, if consumed = some key then v else mapTextsAt c f key v) :: mapTexts c f consumed rest

/-- The value of the entry `key: v`, which is a declaration or has declarations in its blocks. -/
def mapTextsAt (c : Config) (f : String → String) (key : String) : Value → Value
  | .mapping body =>
    match classify c key (.mapping body) with
    | .property => .mapping body
    | kind => .mapping (mapTexts c f kind.consumedKey body)
  | .list items =>
    match (classify c key (.list items)).specKind? with
    | some kind => .list (mapTextsOfItems c f kind items)
    | none => .list items
  | .tuple items =>
    match (classify c key (.tuple items)).specKind? with
    | some kind => .tuple (mapTextsOfItems c f kind items)
    | none => .tuple items
  | .sequence type items =>
    match (classify c key (.sequence type items)).specKind? with
    | some kind => .sequence type (mapTextsOfItems c f kind items)
    | none => .sequence type items
  | v => if classify c key v = .property then v.mapText f else v

/-- The items of a sequence of specs. -/
def mapTextsOfItems (c : Config) (f : String → String) (kind : SpecKind) : List Value → List Value
  | [] => []
  | .mapping raw :: rest =>
    .mapping (mapTexts c f (some kind.field) raw) :: mapTextsOfItems c f kind rest
  | v :: rest => v :: mapTextsOfItems c f kind rest

end

/-! ### What is left alone -/

section Values

variable {c : Config} {f : String → String} {key field : String} {kind : SpecKind}

theorem get?_mapTexts (c : Config) (f : String → String) (field : String) (m : Mapping) :
    Mapping.get? (mapTexts c f (some field) m) field = m.get? field := by
  induction m with
  | nil => rfl
  | cons entry rest ih =>
    obtain ⟨key, v⟩ := entry
    rw [mapTexts, Mapping.get?, Mapping.get?, List.lookup_cons, List.lookup_cons]
    by_cases h : field = key
    · simp [h]
    · have hne : (field == key) = false := by simpa using h
      rw [hne]
      exact ih

theorem without_mapTexts (c : Config) (f : String → String) (field : String) (m : Mapping) :
    Mapping.without (mapTexts c f (some field) m) field =
      mapTexts c f (some field) (m.without field) := by
  induction m with
  | nil => rfl
  | cons entry rest ih =>
    obtain ⟨key, v⟩ := entry
    rw [Mapping.without, Mapping.without] at ih ⊢
    rw [mapTexts]
    by_cases h : key = field
    · rw [List.filter_cons_of_neg (by simpa using h), List.filter_cons_of_neg (by simpa using h), ih]
    · rw [List.filter_cons_of_pos (by simpa using h), List.filter_cons_of_pos (by simpa using h),
        mapTexts, ih]

theorem mapTextsAt_of_block {body : Mapping} {kind : KeyKind}
    (h : classify c key (.mapping body) = kind) (hk : kind ≠ .property) :
    mapTextsAt c f key (.mapping body) = .mapping (mapTexts c f kind.consumedKey body) := by
  rw [mapTextsAt, h]
  cases kind with
  | property => exact absurd rfl hk
  | _ => rfl

theorem mapTextsAt_of_property {v : Value} (h : classify c key v = .property) :
    mapTextsAt c f key v = v.mapText f := by
  cases v with
  | mapping _ | list _ | tuple _ | sequence _ _ =>
    rw [mapTextsAt, h]
    rfl
  | _ =>
    rw [mapTextsAt, if_pos h]
    all_goals simp

theorem mapTextsAt_of_items {v : Value} {items : List Value} (hv : v.sequence? = some items)
    (hk : (classify c key v).specKind? = some kind) :
    mapTextsAt c f key v = v.withItems (mapTextsOfItems c f kind items) := by
  cases v with
  | list _ | tuple _ | sequence _ _ =>
    cases hv
    rw [mapTextsAt, hk]
    rfl
  | _ => cases hv

theorem sequence?_mapTextsAt {v : Value} {items : List Value} (hv : v.sequence? = some items)
    (hk : (classify c key v).specKind? = some kind) :
    (mapTextsAt c f key v).sequence? = some (mapTextsOfItems c f kind items) := by
  rw [mapTextsAt_of_items hv hk]
  cases v with
  | list _ | tuple _ | sequence _ _ => rfl
  | _ => cases hv

/-- A value that holds no blocks although its key stands for some. -/
theorem mapTextsAt_of_malformed {v : Value} (h : classify c key v ≠ .property)
    (hm : v.isMapping = false) (hv : v.sequence? = none) : mapTextsAt c f key v = v := by
  cases v with
  | mapping _ => cases hm
  | list _ | tuple _ | sequence _ _ => cases hv
  | _ =>
    rw [mapTextsAt, if_neg h]
    all_goals simp

/-- A value stays a value of the same sort. -/
theorem sort_mapTextsAt (c : Config) (f : String → String) (key : String) (v : Value) :
    (mapTextsAt c f key v).isMapping = v.isMapping ∧
      (mapTextsAt c f key v).typeName = v.typeName := by
  cases v with
  | mapping _ | list _ | tuple _ | sequence _ _ =>
    rw [mapTextsAt]
    split <;> exact ⟨rfl, rfl⟩
  | _ =>
    rw [mapTextsAt]
    · split <;> exact ⟨rfl, rfl⟩
    all_goals simp

/-- Keys stand for the same as before, whatever the constants are. -/
theorem classify_mapTextsAt (c : Config) (constants : Constants) (f : String → String)
    (key : String) (v : Value) :
    classify (c.withConstants constants) key (mapTextsAt c f key v) = classify c key v :=
  classify_congr (c := c) (sort_mapTextsAt c f key v).1

theorem mapTextsOfItems_eq_nil {items : List Value} :
    mapTextsOfItems c f kind items = [] ↔ items = [] := by
  cases items with
  | nil => exact Iff.rfl
  | cons item rest => cases item <;> simp [mapTextsOfItems]

theorem all_isMapping_mapTextsOfItems (c : Config) (f : String → String) (kind : SpecKind)
    (items : List Value) :
    (mapTextsOfItems c f kind items).all Value.isMapping = items.all Value.isMapping := by
  induction items with
  | nil => rfl
  | cons item rest ih => cases item <;> simp [mapTextsOfItems, Value.isMapping, ih]

end Values

/-! ### It is the one that is meant -/

theorem Constants.standsFor_iff {constants : Constants} {v v' : Value} :
    constants.StandsFor v v' ↔ v' = v.mapText constants.resolve := by
  constructor
  · rintro (⟨hname, hvalue⟩ | hother)
    · rw [Value.mapText, resolve_of_lookup hname hvalue]
    · cases v with
      | text s => rw [Value.mapText, resolve_eq_self (hother s rfl)]
      | _ => rfl
  · rintro rfl
    cases v with
    | text s =>
      by_cases hname : MatchesName s
      · cases hvalue : constants.lookup s with
        | some value =>
          rw [Value.mapText, resolve_of_lookup hname hvalue]
          exact .constant hname hvalue
        | none =>
          rw [Value.mapText, resolve_eq_self fun _ => hvalue]
          exact .other fun name heq _ => by
            cases heq
            exact hvalue
      · rw [Value.mapText, resolve_eq_self fun h => absurd h hname]
        exact .other fun name heq h => by
          cases heq
          exact absurd h hname
    | _ => exact .other nofun

section Substitutes

variable {c : Config} {key : String}

theorem substitutesAt_of_property {v v' : Value} (h : classify c key v = .property) :
    SubstitutesAt c key v v' ↔ v' = mapTextsAt c c.constants.resolve key v := by
  rw [mapTextsAt_of_property h, ← Constants.standsFor_iff]
  refine ⟨fun hsubst => ?_, .property h⟩
  cases hsubst with
  | property _ hv => exact hv
  | block hk _ | malformed hk _ _ => exact absurd h hk
  | specs hk _ _ =>
    rw [h] at hk
    cases hk

theorem substitutesAt_of_block {body : Mapping} {v' : Value}
    (hk : classify c key (.mapping body) ≠ .property)
    (hbody : ∀ consumed m', Substitutes c consumed body m' ↔
      m' = mapTexts c c.constants.resolve consumed body) :
    SubstitutesAt c key (.mapping body) v' ↔
      v' = mapTextsAt c c.constants.resolve key (.mapping body) := by
  rw [mapTextsAt_of_block rfl hk]
  constructor
  · intro h
    cases h with
    | property hprop _ => exact absurd hprop hk
    | block _ h => rw [(hbody _ _).mp h]
    | specs _ hv _ => cases hv
    | malformed _ hm _ => cases hm
  · rintro rfl
    exact .block hk ((hbody _ _).mpr rfl)

theorem substitutesAt_of_items {v v' : Value} {values : List Value}
    (hv : v.sequence? = some values)
    (hvalues : ∀ kind values', SubstitutesEach c kind values values' ↔
      values' = mapTextsOfItems c c.constants.resolve kind values) :
    SubstitutesAt c key v v' ↔ v' = mapTextsAt c c.constants.resolve key v := by
  have hm := isMapping_of_sequence? hv
  cases hk : (classify c key v).specKind? with
  | none => exact substitutesAt_of_property (classify_eq_property hm hk)
  | some kind =>
    rw [mapTextsAt_of_items hv hk]
    constructor
    · intro h
      cases h with
      | property hprop _ => exact absurd hprop (ne_property_of_specKind? hk)
      | block _ _ => cases hm
      | specs hk' hv' h =>
        cases hk.symm.trans hk'
        cases hv.symm.trans hv'
        rw [(hvalues _ _).mp h]
      | malformed _ _ hnone => cases hv.symm.trans hnone
    · rintro rfl
      exact .specs hk hv ((hvalues _ _).mpr rfl)

theorem substitutesAt_of_leaf {v v' : Value} (hm : v.isMapping = false)
    (hv : v.sequence? = none) :
    SubstitutesAt c key v v' ↔ v' = mapTextsAt c c.constants.resolve key v := by
  by_cases hk : classify c key v = .property
  · exact substitutesAt_of_property hk
  · rw [mapTextsAt_of_malformed hk hm hv]
    constructor
    · intro h
      cases h with
      | property hprop _ => exact absurd hprop hk
      | block _ _ => cases hm
      | specs _ hv' _ => cases hv.symm.trans hv'
      | malformed _ _ _ => rfl
    · rintro rfl
      exact .malformed hk hm hv

theorem substitutesEach_cons {kind : SpecKind} {v : Value} {rest values' : List Value}
    (hv : v.isMapping = false) (hrest : ∀ rest', SubstitutesEach c kind rest rest' ↔
      rest' = mapTextsOfItems c c.constants.resolve kind rest) :
    SubstitutesEach c kind (v :: rest) values' ↔
      values' = mapTextsOfItems c c.constants.resolve kind (v :: rest) := by
  have hmap : mapTextsOfItems c c.constants.resolve kind (v :: rest) =
      v :: mapTextsOfItems c c.constants.resolve kind rest := by
    cases v with
    | mapping _ => cases hv
    | _ => rfl
  rw [hmap]
  constructor
  · intro h
    cases h with
    | spec _ _ => cases hv
    | other _ h => rw [(hrest _).mp h]
  · rintro rfl
    exact .other hv ((hrest _).mpr rfl)

end Substitutes

mutual

/-- There is one tree with the constants in place of their names. -/
theorem substitutes_iff (c : Config) : ∀ (m : Mapping) (consumed : Option String) (m' : Mapping),
    Substitutes c consumed m m' ↔ m' = mapTexts c c.constants.resolve consumed m
  | [], consumed, m' => by
    constructor
    · intro h
      cases h
      rfl
    · rintro rfl
      exact .nil
  | (key, v) :: rest, consumed, m' => by
    have hvalue := substitutesAt_iff c v key
    have hrest := substitutes_iff c rest consumed
    rw [mapTexts]
    constructor
    · intro h
      cases h with
      | consumed h => rw [if_pos rfl, (hrest _).mp h]
      | entry hkey hv h => rw [if_neg hkey, (hvalue _).mp hv, (hrest _).mp h]
    · rintro rfl
      by_cases hkey : consumed = some key
      · subst hkey
        rw [if_pos rfl]
        exact .consumed ((hrest _).mpr rfl)
      · rw [if_neg hkey]
        exact .entry hkey ((hvalue _).mpr rfl) ((hrest _).mpr rfl)

theorem substitutesAt_iff (c : Config) : ∀ (v : Value) (key : String) (v' : Value),
    SubstitutesAt c key v v' ↔ v' = mapTextsAt c c.constants.resolve key v
  | .mapping body, key, v' => by
    have hbody := substitutes_iff c body
    by_cases hk : classify c key (.mapping body) = .property
    · exact substitutesAt_of_property hk
    · exact substitutesAt_of_block hk hbody
  | .list values, _, _ | .tuple values, _, _ | .sequence _ values, _, _ =>
    substitutesAt_of_items rfl (substitutesEach_iff c values)
  | .null, _, _ | .flag _, _, _ | .number _, _, _ | .text _, _, _ | .bytes _, _, _ =>
    substitutesAt_of_leaf rfl rfl

theorem substitutesEach_iff (c : Config) : ∀ (values : List Value) (kind : SpecKind)
    (values' : List Value), SubstitutesEach c kind values values' ↔
      values' = mapTextsOfItems c c.constants.resolve kind values
  | [], kind, values' => by
    constructor
    · intro h
      cases h
      rfl
    · rintro rfl
      exact .nil
  | .mapping raw :: rest, kind, values' => by
    have hraw := substitutes_iff c raw (some kind.field)
    have hrest := substitutesEach_iff c rest kind
    rw [mapTextsOfItems]
    constructor
    · intro h
      cases h with
      | spec h hs => rw [(hraw _).mp h, (hrest _).mp hs]
      | other hv _ => cases hv
    · rintro rfl
      exact .spec ((hraw _).mpr rfl) ((hrest _).mpr rfl)
  | .list _ :: rest, kind, _ | .tuple _ :: rest, kind, _ | .sequence _ _ :: rest, kind, _
  | .null :: rest, kind, _ | .flag _ :: rest, kind, _ | .number _ :: rest, kind, _
  | .text _ :: rest, kind, _ | .bytes _ :: rest, kind, _ =>
    substitutesEach_cons rfl (substitutesEach_iff c rest kind)

end

/-! ## What it is compiled to -/

/-- The spec as it is read in the new tree. -/
def Spec.mapTexts (c : Config) (f : String → String) (kind : SpecKind) (spec : Spec) : Spec :=
  { spec with body := StyleTree.mapTexts c f (some kind.field) spec.body }

section Items

variable {c : Config} {constants : Constants} {f : String → String} {key : String} {kind : SpecKind}

theorem spec_mapTexts (c : Config) (f : String → String) (kind : SpecKind) (path : Path)
    (raw : Mapping) :
    kind.spec path (mapTexts c f (some kind.field) raw) =
      (kind.spec path raw).map (Spec.mapTexts c f kind) := by
  have hfield : kind.fieldText? (mapTexts c f (some kind.field) raw) = kind.fieldText? raw := by
    simp only [SpecKind.fieldText?, get?_mapTexts]
  rw [SpecKind.spec, SpecKind.spec, hfield]
  cases kind.fieldText? raw with
  | none => rfl
  | some s =>
    rw [without_mapTexts]
    rfl

theorem specItems_mapTexts (c : Config) (f : String → String) (kind : SpecKind) (key : String)
    (path : Path) (index : Nat) (items : List Value) :
    kind.specItems key path index (mapTextsOfItems c f kind items) =
      (kind.specItems key path index items).map (List.map (Spec.mapTexts c f kind)) := by
  induction items generalizing index with
  | nil => rfl
  | cons item rest ih =>
    cases item with
    | mapping raw =>
      rw [mapTextsOfItems, SpecKind.specItems, SpecKind.specItems, spec_mapTexts, ih]
      cases kind.spec (path ++ [Path.itemStep key index]) raw with
      | error f => rfl
      | ok spec => cases kind.specItems key path (index + 1) rest <;> rfl
    | _ =>
      rw [mapTextsOfItems, SpecKind.specItems, SpecKind.specItems, ih]
      all_goals simp

theorem specs_mapTexts {v : Value} (hk : (classify c key v).specKind? = some kind) (path : Path) :
    kind.specs key path (mapTextsAt c f key v) =
      (kind.specs key path v).map (List.map (Spec.mapTexts c f kind)) := by
  have hne := ne_property_of_specKind? hk
  cases v with
  | mapping raw =>
    rw [mapTextsAt_of_block rfl hne, consumedKey_of_specKind? hk, SpecKind.specs, SpecKind.specs,
      spec_mapTexts]
    cases kind.spec (path ++ [key]) raw <;> rfl
  | list items | tuple items | sequence _ items =>
    rw [specs_of_items (sequence?_mapTextsAt rfl hk), specs_of_items rfl, (sort_mapTextsAt c f key _).2,
      all_isMapping_mapTextsOfItems, specItems_mapTexts]
    simp only [mapTextsOfItems_eq_nil]
    split
    · rfl
    · split <;> rfl
  | _ =>
    rw [mapTextsAt, if_neg hne]
    · rfl
    all_goals simp

theorem resolve_nil (s : String) : Constants.resolve [] s = s :=
  Constants.resolve_eq_self fun _ => rfl

/-- A text is resolved once, before or in the check of its declaration. -/
theorem declarationOf_resolve (c : Config) (constants : Constants) (key : String) (path : Path)
    (v : Value) :
    declarationOf (c.withConstants []) key path (v.mapText constants.resolve) =
      declarationOf (c.withConstants constants) key path v := by
  cases v with
  | text s =>
    have htext (c : Config) (s : String) : declarationOf c key path (.text s) =
        .ok ⟨Property.name key, c.constants.resolve s⟩ := rfl
    rw [Value.mapText, htext, htext, Config.withConstants, resolve_nil]
    rfl
  | _ => rfl

theorem itemsAt_resolve_of_property {v : Value} (h : classify c key v = .property) (path : Path) :
    itemsAt (c.withConstants []) key path (mapTextsAt c constants.resolve key v) =
      itemsAt (c.withConstants constants) key path v := by
  have hclass := (classify_mapTextsAt c [] constants.resolve key v).trans h
  have hclass' : classify (c.withConstants constants) key v = .property := h
  rw [itemsAt_of_property hclass, itemsAt_of_property hclass', mapTextsAt_of_property h,
    declarationOf_resolve]

/-- A value without blocks, of whatever kind its key is. -/
theorem itemsAt_resolve_of_leaf {v : Value} (hm : v.isMapping = false) (hv : v.sequence? = none)
    (path : Path) :
    itemsAt (c.withConstants []) key path (mapTextsAt c constants.resolve key v) =
      itemsAt (c.withConstants constants) key path v := by
  cases hk : (classify c key v).specKind? with
  | none => exact itemsAt_resolve_of_property (classify_eq_property hm hk) path
  | some kind =>
    have hclass (constants : Constants) :
        (classify (c.withConstants constants) key v).specKind? = some kind := hk
    cases v with
    | mapping _ => cases hm
    | list _ | tuple _ | sequence _ _ => cases hv
    | _ =>
      rw [mapTextsAt, if_neg (ne_property_of_specKind? hk), itemsAt, itemsAt, hclass, hclass]
      all_goals simp

theorem itemsAt_resolve_of_items {path : Path} {v : Value} {values : List Value}
    (hv : v.sequence? = some values)
    (hvalues : ∀ kind specs,
      scopesOf (c.withConstants []) kind (specs.map (Spec.mapTexts c constants.resolve kind))
          (mapTextsOfItems c constants.resolve kind values) =
        scopesOf (c.withConstants constants) kind specs values) :
    itemsAt (c.withConstants []) key path (mapTextsAt c constants.resolve key v) =
      itemsAt (c.withConstants constants) key path v := by
  cases hk : (classify c key v).specKind? with
  | none =>
    exact itemsAt_resolve_of_property (classify_eq_property (isMapping_of_sequence? hv) hk) path
  | some kind =>
    have hclass : (classify (c.withConstants constants) key v).specKind? = some kind := hk
    simp only [itemsAt_of_items (sequence?_mapTextsAt hv hk), itemsAt_of_items hv, classify_mapTextsAt,
      hk, hclass, specs_mapTexts hk]
    cases kind.specs key path v with
    | error f => rfl
    | ok specs => exact hvalues kind specs

/-- The block of a spec that is not in a sequence. -/
theorem specBlock_resolve {path : Path} {raw : Mapping}
    (hbody : ∀ path, itemsOf (c.withConstants []) (some kind.field) path
        (mapTexts c constants.resolve (some kind.field) raw) =
      itemsOf (c.withConstants constants) (some kind.field) path raw) :
    (do
      let spec ← (kind.spec path (mapTexts c constants.resolve (some kind.field) raw)).mapError
        CompileError.malformed
      let inner ← itemsOf (c.withConstants []) (some kind.field) spec.path
        (mapTexts c constants.resolve (some kind.field) raw)
      return [Item.scope (kind.suffix spec.label) inner]) = do
    let spec ← (kind.spec path raw).mapError CompileError.malformed
    let inner ← itemsOf (c.withConstants constants) (some kind.field) spec.path raw
    return [Item.scope (kind.suffix spec.label) inner] := by
  simp only [hbody, spec_mapTexts]
  cases kind.spec path raw <;> rfl

mutual

/-- The new tree is checked without constants as the old one is with them. -/
theorem itemsOf_resolve (c : Config) (constants : Constants) : ∀ (m : Mapping)
    (consumed : Option String) (path : Path),
    itemsOf (c.withConstants []) consumed path (mapTexts c constants.resolve consumed m) =
      itemsOf (c.withConstants constants) consumed path m
  | [], _, _ => rfl
  | (key, v) :: rest, consumed, path => by
    have hfirst := itemsAt_resolve c constants v key path
    have hrest := itemsOf_resolve c constants rest consumed path
    rw [mapTexts, itemsOf, itemsOf]
    split
    · exact hrest
    · rw [hfirst, hrest]

theorem itemsAt_resolve (c : Config) (constants : Constants) : ∀ (v : Value) (key : String)
    (path : Path),
    itemsAt (c.withConstants []) key path (mapTextsAt c constants.resolve key v) =
      itemsAt (c.withConstants constants) key path v
  | .mapping body, key, path => by
    have hbody := itemsOf_resolve c constants body
    have hclass := classify_mapTextsAt c [] constants.resolve key (.mapping body)
    have hclass' : classify (c.withConstants constants) key (.mapping body) =
      classify c key (.mapping body) := rfl
    cases hk : classify c key (.mapping body) with
    | property => exact itemsAt_resolve_of_property hk path
    | pseudo =>
      have hparam : pseudoSuffix key path (mapTexts c constants.resolve (some Pseudo.paramKey) body) =
          pseudoSuffix key path body := by
        rw [pseudoSuffix, pseudoSuffix, get?_mapTexts]
      rw [mapTextsAt_of_block hk nofun] at hclass ⊢
      rw [itemsAt, itemsAt, hclass, hclass', hk]
      simp only [KeyKind.consumedKey, hparam, hbody]
    | breakpoint =>
      rw [mapTextsAt_of_block hk nofun] at hclass ⊢
      rw [itemsAt, itemsAt, hclass, hclass', hk]
      simp only [KeyKind.consumedKey, hbody]
    | modifier | child =>
      rw [mapTextsAt_of_block hk nofun] at hclass ⊢
      rw [itemsAt, itemsAt, hclass, hclass', hk]
      exact specBlock_resolve (hbody _)
  | .list values, _, path | .tuple values, _, path | .sequence _ values, _, path =>
    itemsAt_resolve_of_items rfl fun kind specs => scopesOf_resolve c constants values kind specs
  | .null, _, path | .flag _, _, path | .number _, _, path | .text _, _, path
  | .bytes _, _, path => itemsAt_resolve_of_leaf rfl rfl path

theorem scopesOf_resolve (c : Config) (constants : Constants) : ∀ (values : List Value)
    (kind : SpecKind) (specs : List Spec),
    scopesOf (c.withConstants []) kind (specs.map (Spec.mapTexts c constants.resolve kind))
        (mapTextsOfItems c constants.resolve kind values) =
      scopesOf (c.withConstants constants) kind specs values
  | .mapping raw :: rest, kind, spec :: specs => by
    have hbody := itemsOf_resolve c constants raw (some kind.field) spec.path
    have hrest := scopesOf_resolve c constants rest kind specs
    rw [mapTextsOfItems, List.map_cons, scopesOf, scopesOf, hrest]
    exact congrArg (· >>= _) hbody
  | [], _, _ | .list _ :: _, _, _ | .tuple _ :: _, _, _ | .sequence _ _ :: _, _, _
  | .null :: _, _, _ | .flag _ :: _, _, _ | .number _ :: _, _, _ | .text _ :: _, _, _
  | .bytes _ :: _, _, _ | .mapping _ :: _, _, [] => by
    rw [mapTextsOfItems, scopesOf, scopesOf]
    all_goals simp

end

end Items

/-! ## Compilations -/

theorem compile_resolve (c : Config) (constants : Constants) (tree : Mapping)
    (scope context : Option String) :
    compile (c.withConstants constants) (.mapping tree) scope context =
      compile (c.withConstants []) (.mapping (mapTexts c constants.resolve none tree)) scope
        context := by
  rw [compile, compile, compileSheet, compileSheet, checkedTree, checkedTree, itemsOf_resolve]
  rfl

/-- Only constants with names that match the pattern are looked up. -/
theorem resolve_congr {constants constants' : Constants}
    (h : ∀ name, Constants.MatchesName name → constants'.lookup name = constants.lookup name) :
    constants'.resolve = constants.resolve := by
  funext s
  rw [Constants.resolve, Constants.resolve]
  split
  · rename_i hname
    rw [h s ((Constants.isIdentifier_iff s).mp hname)]
  · rfl

/-- Compiling with constants is compiling, without any, the one tree in which they stand in place of
their names. Constants whose names do not match the pattern make no difference. -/
theorem compile_constants (c : Config) (tree : Mapping) (scope context : Option String) :
    (∃ tree', Substitutes c none tree tree' ∧
      ∀ tree'', Substitutes c none tree tree'' → tree'' = tree') ∧
    (∀ tree', Substitutes c none tree tree' →
      compile c (.mapping tree) scope context =
        compile (c.withConstants []) (.mapping tree') scope context) ∧
    ∀ constants : Constants,
      (∀ name, Constants.MatchesName name → constants.lookup name = c.constants.lookup name) →
      compile (c.withConstants constants) (.mapping tree) scope context =
        compile c (.mapping tree) scope context := by
  have hiff := substitutes_iff c tree none
  refine ⟨⟨_, (hiff _).mpr rfl, fun tree'' => (hiff tree'').mp⟩, fun tree' h => ?_,
    fun constants h => ?_⟩
  · rw [(hiff tree').mp h]
    exact compile_resolve c c.constants tree scope context
  · rw [compile_resolve c constants, resolve_congr h]
    exact (compile_resolve c c.constants tree scope context).symm

/-- The value of `accent` is the name of another constant, and `b c` is no name. -/
def chainedConstants : Constants :=
  [("accent", "primary"), ("primary", "red"), ("b c", "blue")]

/-- Names of constants for values and for a parameter. -/
def namedColors (color fill : String) : Mapping :=
  [("color", .text color), ("lineHeight", .text "b c"),
   ("lang", .mapping [("param", .text "primary"), ("fill", .text fill)])]

theorem not_matchesName_blank : ¬ Constants.MatchesName "b c" := by
  rw [← Constants.isIdentifier_iff]
  decide

/-- A constant is not looked up again, and a parameter is not looked up at all. -/
theorem compile_constants_sample :
    Substitutes (Config.standard.withConstants chainedConstants) none
        (namedColors "accent" "primary") (namedColors "primary" "red") ∧
      compile (Config.standard.withConstants chainedConstants)
          (.mapping (namedColors "accent" "primary")) none none =
        compile (Config.standard.withConstants []) (.mapping (namedColors "primary" "red")) none
          none ∧
      compile (Config.standard.withConstants []) (.mapping (namedColors "primary" "red")) none none =
        .ok ⟨"color:primary;line-height:b c;", ["&:lang(primary)\x7bfill:red;\x7d"]⟩ ∧
      (∀ name, Constants.MatchesName name →
        (chainedConstants.take 2).lookup name = chainedConstants.lookup name) ∧
      compile (Config.standard.withConstants (chainedConstants.take 2))
          (.mapping (namedColors "accent" "primary")) none none =
        compile (Config.standard.withConstants chainedConstants)
          (.mapping (namedColors "accent" "primary")) none none := by
  have hsubst : Substitutes (Config.standard.withConstants chainedConstants) none
      (namedColors "accent" "primary") (namedColors "primary" "red") :=
    (substitutes_iff _ _ _ _).mpr rfl
  have hnames : ∀ name, Constants.MatchesName name →
      (chainedConstants.take 2).lookup name = chainedConstants.lookup name := by
    intro name hname
    have hne : (name == "b c") = false :=
      beq_false_of_ne fun heq => not_matchesName_blank (heq ▸ hname)
    simp [chainedConstants, List.lookup_cons, hne]
  obtain ⟨-, hcompile, hpattern⟩ :=
    compile_constants (Config.standard.withConstants chainedConstants)
      (namedColors "accent" "primary") none none
  exact ⟨hsubst, hcompile _ hsubst, rfl, hnames, hpattern _ hnames⟩

end StyleTree
