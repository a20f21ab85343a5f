import StyleTree.Proofs.Compilation
import StyleTree.Proofs.Reading

/-!
# Implied breakpoint blocks are transparent

A breakpoint block that the media context implies stands for its entries. Putting them in its place,
anywhere in a tree, keeps what the tree compiles to (`compile_inline`): the block is merged into the
scope around it, and in it the context is the one outside. What is around the block is kept by a
congruence: trees whose parts have the same sheets in their contexts have the same sheet. The law
does not need the keys of a node to be distinct, only that no entry of the block is taken for the key
that the block around it uses up.
-/

namespace StyleTree

/-! ## Inlining a block -/

/-- The second node is the first with an implied breakpoint block replaced by its entries, at its
position. The block stands in the node itself, or in a block inside it; a sequence of specs, of any
type, is entered at one of them. `consumed` is the key that the block of the node uses up for itself, which
the entries may not have, and `context` is the media context in force in the node. -/
inductive Inlines (c : Config) : Option String → Option String → Mapping → Mapping → Prop where
  | here {consumed context : Option String} {name : String} {before body after : Mapping} :
      consumed ≠ some name → classify c name (.mapping body) = .breakpoint →
      c.breakpoints.covers context name = true → (∀ entry ∈ body, consumed ≠ some entry.1) →
      Inlines c consumed context (before ++ (name, .mapping body) :: after)
        (before ++ (body ++ after))
  | block {consumed context : Option String} {key : String} {before body body' after : Mapping} :
      consumed ≠ some key → classify c key (.mapping body) ≠ .property →
      Inlines c (classify c key (.mapping body)).consumedKey
        (((classify c key (.mapping body)).opening key body).inside c.breakpoints context)
        body body' →
      Inlines c consumed context (before ++ (key, .mapping body) :: after)
        (before ++ (key, .mapping body') :: after)
  | spec {consumed context : Option String} {key : String} {before raw raw' after : Mapping}
      {first rest : List Value} {kind : SpecKind} {sequence : List Value → Value} :
      consumed ≠ some key → (∀ values, (sequence values).sequence? = some values) →
      (classify c key (sequence (first ++ .mapping raw :: rest))).specKind? = some kind →
      Inlines c (some kind.field) context raw raw' →
      Inlines c consumed context
        (before ++ (key, sequence (first ++ .mapping raw :: rest)) :: after)
        (before ++ (key, sequence (first ++ .mapping raw' :: rest)) :: after)

theorem Mapping.get?_cons_of_ne {key field : String} (h : key ≠ field) (v : Value) (m : Mapping) :
    Mapping.get? ((key, v) :: m) field = m.get? field := by
  have hfirst : Mapping.get? [(key, v)] field = none :=
    Mapping.get?_eq_none.mpr fun entry hentry => by
      cases List.mem_singleton.mp hentry
      exact h
  rw [← List.singleton_append, Mapping.get?_append, hfirst, Option.none_or]

/-- An entry under another key makes no difference to a look-up. -/
theorem Mapping.get?_between {key field : String} (h : some field ≠ some key) (v : Value)
    (before after : Mapping) : Mapping.get? (before ++ (key, v) :: after) field =
      (before.get? field).or (after.get? field) := by
  rw [get?_append, get?_cons_of_ne fun heq => h (congrArg some heq.symm)]

/-- Inlining leaves the key alone that the block of the node uses up. -/
theorem Inlines.get?_eq {c : Config} {context : Option String} {field : String} {m m' : Mapping}
    (h : Inlines c (some field) context m m') : m.get? field = m'.get? field := by
  cases h with
  | @here _ _ name before body after hname _ _ hbody =>
    have hfree : body.get? field = none :=
      Mapping.get?_eq_none.mpr fun entry hentry heq => hbody entry hentry (congrArg some heq.symm)
    rw [Mapping.get?_between hname, Mapping.get?_append, Mapping.get?_append, hfree,
      Option.none_or]
  | block hkey _ _ | spec hkey _ _ _ =>
    rw [Mapping.get?_between hkey, Mapping.get?_between hkey]

/-! ## Items with the same sheets -/

/-- Both are missing, or both have the same sheet in the context, for every scope. -/
def SameSheets (g : Setting) (context : Option String) :
    Option (List Item) → Option (List Item) → Prop :=
  Option.Rel fun items items' => ∀ scope,
    sheetOf g scope context items = sheetOf g scope context items'

namespace SameSheets

variable {g : Setting} {context : Option String} {x x' : Option (List Item)}

theorem refl (x : Option (List Item)) : SameSheets g context x x := by
  cases x with
  | none => exact .none
  | some items => exact .some fun _ => rfl

/-- Items with others before and after them. -/
def between (before after x : Option (List Item)) : Option (List Item) := do
  let first ← before
  let items ← x
  let last ← after
  return first ++ (items ++ last)

theorem between_congr (before after : Option (List Item)) (h : SameSheets g context x x') :
    SameSheets g context (between before after x) (between before after x') := by
  cases before with
  | none => exact .none
  | some first =>
    cases h with
    | none => exact .none
    | some hitems =>
      cases after with
      | none => exact .none
      | some last => exact .some fun scope => by simp only [sheetOf_append, hitems scope]

/-- Whether in a scope. -/
theorem scope (suffix : String) (h : SameSheets g context x x') :
    SameSheets g context (x.map fun inner => [.scope suffix inner])
      (x'.map fun inner => [.scope suffix inner]) := by
  cases h with
  | none => exact .none
  | some hitems =>
    exact .some fun scope => by
      simp only [sheetOf_singleton, sheetOfItem, hitems (scope ++ suffix)]

/-- Or in a breakpoint block, in the context in force inside it. -/
theorem media {name : String}
    (h : SameSheets g ((Opening.media name).inside g.registry context) x x') :
    SameSheets g context (x.map fun inner => [.media name inner])
      (x'.map fun inner => [.media name inner]) := by
  cases h with
  | none => exact .none
  | some hitems =>
    refine .some fun scope => ?_
    have hitems := hitems scope
    simp only [sheetOf_singleton, sheetOfItem]
    rw [Opening.inside, Registry.covers] at hitems
    cases himplies : g.registry.implies context name with
    | error u => rfl
    | ok implied =>
      rw [himplies] at hitems
      cases implied with
      | true => exact hitems
      | false =>
        simp only [Bool.false_eq_true, ↓reduceIte] at hitems
        simp only [bind, Except.bind, Bool.false_eq_true, ↓reduceIte, hitems]

/-- An implied breakpoint block has the sheets of its items. -/
theorem merged {name : String} (hcovers : g.registry.covers context name = true)
    (x : Option (List Item)) : SameSheets g context (x.map fun inner => [.media name inner]) x := by
  cases x with
  | none => exact .none
  | some items =>
    refine .some fun scope => ?_
    rw [Registry.covers] at hcovers
    rw [sheetOf_singleton, sheetOfItem]
    cases himplies : g.registry.implies context name with
    | error u =>
      rw [himplies] at hcovers
      cases hcovers
    | ok implied =>
      rw [himplies] at hcovers
      cases hcovers
      rfl

end SameSheets

/-! ## What is read of a tree with an inlined block -/

section Trees

variable {c : Config} {consumed context : Option String} {key : String}

theorem nodeItems?_between {v : Value} {before after : Mapping} (h : consumed ≠ some key) :
    nodeItems? c consumed (before ++ (key, v) :: after) =
      SameSheets.between (nodeItems? c consumed before) (nodeItems? c consumed after)
        (entryItems? c key v) := by
  rw [nodeItems?_append, nodeItems?_cons, if_neg h]
  cases nodeItems? c consumed before with
  | none => rfl
  | some first =>
    cases entryItems? c key v with
    | none => rfl
    | some items => cases nodeItems? c consumed after <;> rfl

/-- What is read of a sequence of specs, seen from one of them. -/
theorem mapM_specItem?_between {kind : SpecKind} {v : Value} {first rest : List Value} :
    (first ++ v :: rest).mapM (specItem? c kind) =
      SameSheets.between (first.mapM (specItem? c kind)) (rest.mapM (specItem? c kind))
        ((specItem? c kind v).map ([·])) := by
  rw [List.mapM_append, List.mapM_cons]
  cases first.mapM (specItem? c kind) with
  | none => rfl
  | some before =>
    cases specItem? c kind v with
    | none => rfl
    | some item => cases rest.mapM (specItem? c kind) <;> rfl

/-- The block of a spec, inlined or not, is the same scope around bodies with the same sheets. -/
theorem sameSheets_specItem? {kind : SpecKind} {raw raw' : Mapping}
    (hlabel : kind.fieldText? raw = kind.fieldText? raw')
    (h : SameSheets c.setting context (nodeItems? c (some kind.field) raw)
      (nodeItems? c (some kind.field) raw')) :
    SameSheets c.setting context ((specItem? c kind (.mapping raw)).map ([·]))
      ((specItem? c kind (.mapping raw')).map ([·])) := by
  rw [specItem?, specItem?, ← hlabel]
  cases kind.fieldText? raw with
  | none => exact .none
  | some s =>
    have hscope := SameSheets.scope (kind.suffix (kind.labelOf s)) h
    simpa only [Option.bind_some, Option.map_map, Function.comp_def] using hscope

/-- So does a block of any kind that opens one. -/
theorem sameSheets_entryItems? {body body' : Mapping}
    (hclass : classify c key (.mapping body) ≠ .property)
    (hget : ∀ field, (classify c key (.mapping body)).consumedKey = some field →
      body.get? field = body'.get? field)
    (h : SameSheets c.setting
      (((classify c key (.mapping body)).opening key body).inside c.breakpoints context)
      (nodeItems? c (classify c key (.mapping body)).consumedKey body)
      (nodeItems? c (classify c key (.mapping body)).consumedKey body')) :
    SameSheets c.setting context (entryItems? c key (.mapping body))
      (entryItems? c key (.mapping body')) := by
  have hclass' : classify c key (.mapping body') = classify c key (.mapping body) :=
    classify_congr rfl
  have hscope {kind : KeyKind} {field : String} (hc : classify c key (.mapping body) = kind)
      (hk : kind.consumedKey = some field)
      (hbody : SameSheets c.setting context (nodeItems? c (some field) body)
        (nodeItems? c (some field) body')) :
      SameSheets c.setting context (entryItems? c key (.mapping body))
        (entryItems? c key (.mapping body')) := by
    rw [hc] at hget hclass'
    rw [entryItems?_scope hc hk, entryItems?_scope hclass' hk,
      KeyKind.suffix?_congr hk (hget field hk)]
    cases kind.suffix? key body' with
    | none => exact .none
    | some suffix => exact SameSheets.scope suffix hbody
  cases hc : classify c key (.mapping body) with
  | property => exact absurd hc hclass
  | breakpoint =>
    rw [hc] at h hclass'
    rw [entryItems?_media hc, entryItems?_media hclass']
    exact SameSheets.media h
  | pseudo | modifier | child =>
    rw [hc] at h
    exact hscope hc rfl h

/-- A block of a node can be replaced by one with the same sheets. -/
theorem sameSheets_block {before body body' after : Mapping} (hkey : consumed ≠ some key)
    (hclass : classify c key (.mapping body) ≠ .property)
    (hget : ∀ field, (classify c key (.mapping body)).consumedKey = some field →
      body.get? field = body'.get? field)
    (h : SameSheets c.setting
      (((classify c key (.mapping body)).opening key body).inside c.breakpoints context)
      (nodeItems? c (classify c key (.mapping body)).consumedKey body)
      (nodeItems? c (classify c key (.mapping body)).consumedKey body')) :
    SameSheets c.setting context (nodeItems? c consumed (before ++ (key, .mapping body) :: after))
      (nodeItems? c consumed (before ++ (key, .mapping body') :: after)) := by
  rw [nodeItems?_between hkey, nodeItems?_between hkey]
  exact SameSheets.between_congr _ _ (sameSheets_entryItems? hclass hget h)

/-- So can one of the specs in a sequence. -/
theorem sameSheets_spec {before raw raw' after : Mapping} {first rest : List Value}
    {kind : SpecKind} {sequence : List Value → Value} (hkey : consumed ≠ some key)
    (hseq : ∀ values, (sequence values).sequence? = some values)
    (hkind : (classify c key (sequence (first ++ .mapping raw :: rest))).specKind? = some kind)
    (hget : raw.get? kind.field = raw'.get? kind.field)
    (h : SameSheets c.setting context (nodeItems? c (some kind.field) raw)
      (nodeItems? c (some kind.field) raw')) :
    SameSheets c.setting context
      (nodeItems? c consumed (before ++ (key, sequence (first ++ .mapping raw :: rest)) :: after))
      (nodeItems? c consumed
        (before ++ (key, sequence (first ++ .mapping raw' :: rest)) :: after)) := by
  rw [nodeItems?_between hkey, nodeItems?_between hkey]
  refine SameSheets.between_congr _ _ ?_
  have hlabel : kind.fieldText? raw = kind.fieldText? raw' := by
    simp only [SpecKind.fieldText?, hget]
  have hclass : classify c key (sequence (first ++ .mapping raw' :: rest)) =
      classify c key (sequence (first ++ .mapping raw :: rest)) := by
    refine classify_congr ?_
    rw [isMapping_of_sequence? (hseq _), isMapping_of_sequence? (hseq _)]
  rw [entryItems?_of_items (hseq _) hkind (by simp),
    entryItems?_of_items (hseq _) (by rw [hclass, hkind]) (by simp), mapM_specItem?_between,
    mapM_specItem?_between]
  exact SameSheets.between_congr _ _ (sameSheets_specItem? hlabel h)

/-- Inlining an implied breakpoint block keeps what the node has for sheets in its context. -/
theorem sameSheets_of_inlines {m m' : Mapping} (h : Inlines c consumed context m m') :
    SameSheets c.setting context (nodeItems? c consumed m) (nodeItems? c consumed m') := by
  induction h with
  | @here consumed context name before body after hname hclass hcovers hbody =>
    have hinlined : nodeItems? c consumed (before ++ (body ++ after)) =
        SameSheets.between (nodeItems? c consumed before) (nodeItems? c consumed after)
          (nodeItems? c none body) := by
      rw [nodeItems?_append, nodeItems?_append, nodeItems?_of_not_consumed hbody]
      cases nodeItems? c consumed before with
      | none => rfl
      | some first =>
        cases nodeItems? c none body with
        | none => rfl
        | some items => cases nodeItems? c consumed after <;> rfl
    rw [nodeItems?_between hname, hinlined, entryItems?_media hclass]
    exact SameSheets.between_congr _ _ (SameSheets.merged hcovers _)
  | block hkey hclass hbody ih =>
    exact sameSheets_block hkey hclass
      (fun field hfield => by rw [hfield] at hbody; exact hbody.get?_eq) ih
  | spec hkey hseq hkind hraw ih => exact sameSheets_spec hkey hseq hkind hraw.get?_eq ih

end Trees

/-- A tree with an implied breakpoint block replaced by its entries compiles exactly if the tree with
the block does, and to the same output. -/
theorem compile_inline {c : Config} {tree tree' : Mapping} {context : Option String}
    (h : Inlines c none context tree tree') (scope : Option String) :
    (compile c (.mapping tree) scope context).toOption =
      (compile c (.mapping tree') scope context).toOption := by
  have hsame := sameSheets_of_inlines h
  rw [toOption_compile, toOption_compile]
  generalize nodeItems? c none tree = x at hsame
  generalize nodeItems? c none tree' = x' at hsame
  cases hsame with
  | none => rfl
  | some hitems => simp only [Option.bind_some, hitems (c.scopeOf scope)]

/-- The sample tree without its merged block. -/
def inlinedTree : Mapping :=
  [("color", .text "red"),
   ("tablet", .mapping
     [("lineHeight", .number (.int 2)),
      ("hover", .mapping [("margin", .number (.int 3))]),
      ("width", .text "1px")])]

/-- In the sample tree `small` is implied by the block around it. -/
theorem compile_inline_sample :
    Inlines .standard none none sampleTree inlinedTree ∧
      (compile .standard (.mapping inlinedTree) none none).toOption = some sampleOutput := by
  have hsmall : Inlines .standard none (some "tablet")
      [("lineHeight", .number (.int 2)),
        ("hover", .mapping [("margin", .number (.int 3))]),
        ("small", .mapping [("width", .text "1px")])]
      [("lineHeight", .number (.int 2)),
        ("hover", .mapping [("margin", .number (.int 3))]),
        ("width", .text "1px")] :=
    @Inlines.here .standard none (some "tablet") "small" [_, _] [_] [] nofun rfl rfl nofun
  have htree : Inlines .standard none none sampleTree inlinedTree :=
    @Inlines.block .standard none none "tablet" [_] _ _ [] nofun nofun hsmall
  refine ⟨htree, ?_⟩
  rw [← compile_inline htree none, compile_sampleTree]
  rfl

end StyleTree
