import StyleTree.Proofs.Reading
import StyleTree.Proofs.MediaContext

/-!
# Breakpoints commute with scopes

A breakpoint block inside a scope and the scope inside the breakpoint block say the same: the scope
writes its selector around the declarations in the one nesting, the media rule in the other. So they
compile to the same output (`compile_media_comm`), unless the selector of the scope happens to be the
placeholder, for which the media rule writes none.
-/

namespace StyleTree

/-! ## Sheets -/

/-- A breakpoint block inside a scope has the sheet of the scope inside the breakpoint block. -/
theorem sheetOf_scope_media_comm (g : Setting) {scope suffix : String} (context : Option String)
    (name : String) (body : List Item) (h : scope ++ suffix ≠ g.placeholder) :
    sheetOf g scope context [.scope suffix [.media name body]] =
      sheetOf g scope context [.media name [.scope suffix body]] := by
  simp only [sheetOf_singleton, sheetOfItem]
  cases g.registry.implies context name with
  | error u => rfl
  | ok implied =>
    cases implied with
    | true =>
      -- both nestings leave the scope alone
      rfl
    | false =>
      simp only [bind, Except.bind, Bool.false_eq_true, ↓reduceIte]
      cases sheetOf g (scope ++ suffix) (some name) body with
      | error u => rfl
      | ok s =>
        cases g.registry.get name with
        | error u => rfl
        | ok b => simp [pure, Except.pure, Sheet.close, Block.own, h]

/-! ## Trees -/

section Trees

variable {c : Config} {key name field : String} {kind : KeyKind} {own body : Mapping}

/-- What is read of a breakpoint block inside a scope. -/
theorem nodeItems?_scope_media (hkey : classify c key (.mapping body) = kind)
    (hk : kind.consumedKey = some field) (hname : classify c name (.mapping body) = .breakpoint)
    (hne : name ≠ field) (hown : ∀ entry ∈ own, entry.1 = field) :
    nodeItems? c none [(key, .mapping (own ++ [(name, .mapping body)]))] =
      (kind.suffix? key own).bind fun suffix => (nodeItems? c none body).map fun inner =>
        [.scope suffix [.media name inner]] := by
  have hclass : classify c key (.mapping (own ++ [(name, .mapping body)])) = kind :=
    (classify_congr rfl).trans hkey
  have hsuffix : kind.suffix? key (own ++ [(name, .mapping body)]) = kind.suffix? key own := by
    refine KeyKind.suffix?_congr hk ?_
    have hlast : Mapping.get? [(name, .mapping body)] field = none :=
      Mapping.get?_eq_none.mpr fun entry hentry => by
        cases List.mem_singleton.mp hentry
        exact hne
    rw [Mapping.get?_append, hlast, Option.or_none]
  have hinner : nodeItems? c (some field) (own ++ [(name, .mapping body)]) =
      (nodeItems? c none body).map fun inner => [.media name inner] := by
    rw [nodeItems?_append, nodeItems?_of_consumed fun entry hentry => by rw [hown entry hentry],
      nodeItems?_singleton fun heq => hne (Option.some.inj heq).symm, entryItems?_media hname]
    cases nodeItems? c none body <;> rfl
  rw [nodeItems?_entry, entryItems?_scope hclass hk, hsuffix, hinner]
  cases kind.suffix? key own with
  | none => rfl
  | some suffix => cases nodeItems? c none body <;> rfl

/-- What is read of a scope inside a breakpoint block. -/
theorem nodeItems?_media_scope (hkey : classify c key (.mapping body) = kind)
    (hk : kind.consumedKey = some field) (hname : classify c name (.mapping body) = .breakpoint)
    (hown : ∀ entry ∈ own, entry.1 = field) (hbody : body.get? field = none) :
    nodeItems? c none [(name, .mapping [(key, .mapping (own ++ body))])] =
      (kind.suffix? key own).bind fun suffix => (nodeItems? c none body).map fun inner =>
        [.media name [.scope suffix inner]] := by
  have hmedia : classify c name (.mapping [(key, .mapping (own ++ body))]) = .breakpoint :=
    (classify_congr rfl).trans hname
  have hclass : classify c key (.mapping (own ++ body)) = kind :=
    (classify_congr rfl).trans hkey
  have hsuffix : kind.suffix? key (own ++ body) = kind.suffix? key own := by
    refine KeyKind.suffix?_congr hk ?_
    rw [Mapping.get?_append, hbody, Option.or_none]
  have hinner : nodeItems? c (some field) (own ++ body) = nodeItems? c none body := by
    have hfree := Mapping.get?_eq_none.mp hbody
    rw [nodeItems?_append, nodeItems?_of_consumed fun entry hentry => by rw [hown entry hentry],
      nodeItems?_of_not_consumed fun entry hentry heq =>
        hfree entry hentry (Option.some.inj heq).symm]
    cases nodeItems? c none body <;> rfl
  rw [nodeItems?_entry, entryItems?_media hmedia, nodeItems?_entry,
    entryItems?_scope hclass hk, hsuffix, hinner]
  cases kind.suffix? key own with
  | none => rfl
  | some suffix => cases nodeItems? c none body <;> rfl

/-- A breakpoint block inside any block that extends the selector commutes with it. Only the key
that the outer block uses up, in `own`, stays in front. -/
theorem toOption_compile_comm (hkey : classify c key (.mapping body) = kind)
    (hk : kind.consumedKey = some field) (hname : classify c name (.mapping body) = .breakpoint)
    (hne : name ≠ field) (hown : ∀ entry ∈ own, entry.1 = field) (hbody : body.get? field = none)
    {scope : Option String}
    (hscope : ∀ suffix, kind.suffix? key own = some suffix →
      c.scopeOf scope ++ suffix ≠ c.placeholder) (context : Option String) :
    (compile c (.mapping [(key, .mapping (own ++ [(name, .mapping body)]))]) scope
        context).toOption =
      (compile c (.mapping [(name, .mapping [(key, .mapping (own ++ body))])]) scope
        context).toOption := by
  rw [toOption_compile, toOption_compile, nodeItems?_scope_media hkey hk hname hne hown,
    nodeItems?_media_scope hkey hk hname hown hbody]
  cases hsuffix : kind.suffix? key own with
  | none => rfl
  | some suffix =>
    cases nodeItems? c none body with
    | none => rfl
    | some inner =>
      have hsheet := sheetOf_scope_media_comm c.setting context name inner (hscope suffix hsuffix)
      simp only [Option.bind_some, Option.map_some, hsheet]

end Trees

/-- The key that holds specs of this kind. -/
def SpecKind.key (c : Config) : SpecKind → String
  | modifier => c.modifierKey
  | child => c.childKey

/-- The entry of a pseudo block that holds its parameter, if one is given. -/
def Pseudo.paramEntry : Option Value → Mapping
  | none => []
  | some param => [(paramKey, param)]

/-- Breakpoint blocks commute with pseudo blocks and with single specs, provided the selector of the
scope is not the placeholder: the two nestings both fail to compile, or have the same output. -/
theorem compile_media_comm (c : Config) (scope context : Option String) {name : String}
    {body : Mapping} (hname : classify c name (.mapping body) = .breakpoint) :
    (∀ (key : String) (param : Option Value), classify c key (.mapping body) = .pseudo →
      name ≠ Pseudo.paramKey → body.get? Pseudo.paramKey = none →
      (∀ suffix, pseudoSuffix key [] (Pseudo.paramEntry param) = .ok suffix →
        c.scopeOf scope ++ suffix ≠ c.placeholder) →
      (compile c (.mapping [(key, .mapping (Pseudo.paramEntry param ++ [(name, .mapping body)]))])
          scope context).toOption =
        (compile c (.mapping [(name, .mapping [(key, .mapping (Pseudo.paramEntry param ++ body))])])
          scope context).toOption) ∧
    ∀ (kind : SpecKind) (label : Value), name ≠ kind.field → body.get? kind.field = none →
      (∀ s, kind.fieldText? [(kind.field, label)] = some s →
        c.scopeOf scope ++ kind.suffix (kind.labelOf s) ≠ c.placeholder) →
      (compile c (.mapping [(kind.key c, .mapping [(kind.field, label), (name, .mapping body)])])
          scope context).toOption =
        (compile c (.mapping [(name, .mapping [(kind.key c, .mapping ((kind.field, label) :: body))])])
          scope context).toOption := by
  refine ⟨fun key param hkey hne hbody hscope => ?_, fun kind label hne hbody hscope => ?_⟩
  · have hown : ∀ entry ∈ Pseudo.paramEntry param, entry.1 = Pseudo.paramKey := by
      intro entry hentry
      cases param with
      | none => cases hentry
      | some p => rw [List.mem_singleton.mp hentry]
    exact toOption_compile_comm hkey rfl hname hne hown hbody
      (fun suffix hsuffix => hscope suffix (toOption_eq_some.mp hsuffix)) context
  · have hown : ∀ entry ∈ [(kind.field, label)], entry.1 = kind.field := by
      intro entry hentry
      rw [List.mem_singleton.mp hentry]
    have hsuffix {suffix : String} (h : ((kind.fieldText? [(kind.field, label)]).map fun s =>
        kind.suffix (kind.labelOf s)) = some suffix) : c.scopeOf scope ++ suffix ≠ c.placeholder := by
      obtain ⟨s, hs, rfl⟩ := Option.map_eq_some_iff.mp h
      exact hscope s hs
    cases kind with
    | modifier =>
      have hkey : classify c c.modifierKey (.mapping body) = .modifier := if_pos rfl
      exact toOption_compile_comm hkey rfl hname hne hown hbody (fun _ => hsuffix) context
    | child =>
      have hkey : classify c c.childKey (.mapping body) = .child :=
        (if_neg c.keys_ne.symm).trans (if_pos rfl)
      exact toOption_compile_comm hkey rfl hname hne hown hbody (fun _ => hsuffix) context

/-- A breakpoint block inside a modifier, taken outside of it. -/
theorem compile_media_comm_sample :
    classify .standard "tablet" (.mapping [("color", .text "red")]) = .breakpoint ∧
      (compile .standard (.mapping [("class", .mapping [("name", .text ".on"),
          ("tablet", .mapping [("color", .text "red")])])]) none (some "print")).toOption =
        (compile .standard (.mapping [("tablet", .mapping [("class", .mapping
          [("name", .text ".on"), ("color", .text "red")])])]) none (some "print")).toOption ∧
      compile .standard (.mapping [("tablet", .mapping [("class", .mapping
          [("name", .text ".on"), ("color", .text "red")])])]) none (some "print") =
        .ok ⟨"", ["&.on\x7bcolor:red;\x7d"]⟩ := by
  have hname : classify .standard "tablet" (.mapping [("color", .text "red")]) = .breakpoint := rfl
  have hcomm := (compile_media_comm .standard none (some "print") hname).2 .modifier (.text ".on")
    (by decide) rfl fun s _ heq => SpecKind.modifier.suffix_ne _ (String.append_eq_left_iff.mp heq)
  exact ⟨hname, hcomm, rfl⟩

end StyleTree
