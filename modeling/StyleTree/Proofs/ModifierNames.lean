import Mathlib.Data.List.DropRight
import StyleTree.Proofs.TreeBlock

/-!
# Names of modifiers

A modifier is read off a text with blanks around it and dots in front of it. A text that spells the
name of a class so is accepted and read as that name, whatever the blanks and the number of the dots
(`labelOf_of_spells`). But whether the text is blank is settled before the dots are dropped. A name
can be all dots and be read as no name, or have a blank after the dots and keep it
(`modifier_dots_only`); it is then the name of no class and is written all the same (`modifier_names`).
-/

namespace StyleTree

/-! ## Blanks at the ends -/

namespace Text

variable {p : Char → Bool} {cs : List Char}

theorem dropWhile_append_of_head {before core : List Char} (hbefore : ∀ ch ∈ before, p ch = true)
    (hcore : ∀ ch ∈ core.head?, p ch = false) : (before ++ core).dropWhile p = core := by
  rw [List.dropWhile_append_of_pos hbefore]
  cases core with
  | nil => rfl
  | cons ch rest =>
    refine List.dropWhile_cons_of_neg ?_
    rw [hcore ch rfl]
    exact Bool.false_ne_true

theorem of_head?_dropWhile {ch : Char} (h : ch ∈ (cs.dropWhile p).head?) : p ch = false := by
  have hhead := List.head?_dropWhile_not p cs
  rw [Option.mem_def.mp h] at hhead
  exact hhead

theorem of_getLast?_trimBoth {ch : Char} (h : ch ∈ (trimBoth p cs).getLast?) : p ch = false := by
  rw [trimBoth, List.getLast?_reverse] at h
  exact of_head?_dropWhile h

theorem trimBoth_append (p : Char → Bool) (cs : List Char) :
    ∃ before after, cs = before ++ trimBoth p cs ++ after ∧ (∀ ch ∈ before, p ch = true) ∧
      ∀ ch ∈ after, p ch = true := by
  refine ⟨cs.takeWhile p, (cs.dropWhile p).rtakeWhile p, ?_, fun ch => List.mem_takeWhile_imp,
    fun ch => List.mem_rtakeWhile_imp⟩
  calc
    cs = cs.takeWhile p ++ cs.dropWhile p := List.takeWhile_append_dropWhile.symm
    _ = cs.takeWhile p ++ (trimBoth p cs ++ (cs.dropWhile p).rtakeWhile p) :=
      congrArg _ List.rdropWhile_append_rtakeWhile.symm
    _ = _ := (List.append_assoc _ _ _).symm

theorem trimBoth_of_append {before core after : List Char} (hbefore : ∀ ch ∈ before, p ch = true)
    (hafter : ∀ ch ∈ after, p ch = true) (hne : core ≠ [])
    (hhead : ∀ ch ∈ core.head?, p ch = false) (hlast : ∀ ch ∈ core.getLast?, p ch = false) :
    trimBoth p (before ++ core ++ after) = core := by
  have hfront : (before ++ (core ++ after)).dropWhile p = core ++ after := by
    refine dropWhile_append_of_head hbefore ?_
    rwa [List.head?_append_of_ne_nil _ hne]
  have hback : (after.reverse ++ core.reverse).dropWhile p = core.reverse := by
    refine dropWhile_append_of_head (fun ch h => hafter ch (List.mem_reverse.mp h)) ?_
    rwa [List.head?_reverse]
  rw [trimBoth, List.append_assoc, hfront, List.reverse_append, hback, List.reverse_reverse]

end Text

/-! ## Spellings of a name -/

/-- A text that can be the name of a class as it stands. -/
structure IsClassName (name : String) : Prop where
  ne_empty : name ≠ ""
  no_dot : ∀ ch ∈ name.toList.head?, ch ≠ '.'
  head_not_blank : ∀ ch ∈ name.toList.head?, Text.isBlankChar ch = false
  last_not_blank : ∀ ch ∈ name.toList.getLast?, Text.isBlankChar ch = false

/-- The text is the name with dots in front of it and blanks around both. -/
def Spells (s name : String) : Prop :=
  ∃ before dots after : List Char, s.toList = before ++ (dots ++ name.toList) ++ after ∧
    (∀ ch ∈ before, Text.isBlankChar ch = true) ∧ (∀ ch ∈ dots, ch = '.') ∧
    ∀ ch ∈ after, Text.isBlankChar ch = true

namespace SpecKind

variable {s name : String} {ch : Char}

theorem toList_labelOf_modifier :
    (labelOf .modifier s).toList =
      (Text.trimBoth Text.isBlankChar s.toList).dropWhile (· = '.') := by
  rw [labelOf, Text.trim, String.toList_ofList, String.toList_ofList]

theorem spells_labelOf (s : String) : Spells s (labelOf .modifier s) := by
  obtain ⟨before, after, hs, hbefore, hafter⟩ := Text.trimBoth_append Text.isBlankChar s.toList
  refine ⟨before, (Text.trimBoth Text.isBlankChar s.toList).takeWhile (· = '.'), after, ?_, hbefore,
    fun ch h => by simpa using List.mem_takeWhile_imp h, hafter⟩
  rw [toList_labelOf_modifier, List.takeWhile_append_dropWhile]
  exact hs

theorem ne_dot_of_head_labelOf (h : ch ∈ (labelOf .modifier s).toList.head?) : ch ≠ '.' := by
  rw [toList_labelOf_modifier] at h
  simpa using Text.of_head?_dropWhile h

theorem not_blank_of_last_labelOf (h : ch ∈ (labelOf .modifier s).toList.getLast?) :
    Text.isBlankChar ch = false := by
  have hlast : ch ∈ (Text.trimBoth Text.isBlankChar s.toList).getLast? := by
    rw [toList_labelOf_modifier] at h
    rw [← List.takeWhile_append_dropWhile (p := (· = '.'))
      (l := Text.trimBoth Text.isBlankChar s.toList), List.getLast?_append, Option.mem_def.mp h]
    rfl
  exact Text.of_getLast?_trimBoth hlast

/-- All spellings of the name of a class are read as that name. -/
theorem labelOf_of_spells (hname : IsClassName name) (h : Spells s name) :
    labelOf .modifier s = name := by
  obtain ⟨before, dots, after, hs, hbefore, hdots, hafter⟩ := h
  have hne : name.toList ≠ [] := fun hnil => hname.ne_empty (String.toList_eq_nil_iff.mp hnil)
  -- a dot is no blank, so that what is trimmed ends before the dots
  have hhead : ∀ ch ∈ (dots ++ name.toList).head?, Text.isBlankChar ch = false := by
    intro ch hch
    cases dots with
    | nil => exact hname.head_not_blank ch hch
    | cons dot rest =>
      cases hch
      rw [hdots ch List.mem_cons_self]
      rfl
  have hlast : ∀ ch ∈ (dots ++ name.toList).getLast?, Text.isBlankChar ch = false := by
    rw [List.getLast?_append_of_ne_nil _ hne]
    exact hname.last_not_blank
  have hcore : Text.trimBoth Text.isBlankChar s.toList = dots ++ name.toList := by
    rw [hs]
    exact Text.trimBoth_of_append hbefore hafter (List.append_ne_nil_of_right_ne_nil _ hne) hhead
      hlast
  refine String.toList_injective ?_
  rw [toList_labelOf_modifier, hcore]
  exact Text.dropWhile_append_of_head (by simpa using hdots) (by simpa using hname.no_dot)

/-- What a text is read as is the name of a class exactly if the text spells one. -/
theorem isClassName_labelOf :
    IsClassName (labelOf .modifier s) ↔ ∃ name, IsClassName name ∧ Spells s name := by
  refine ⟨fun h => ⟨_, h, spells_labelOf s⟩, fun ⟨name, hname, h⟩ => ?_⟩
  rw [labelOf_of_spells hname h]
  exact hname

theorem isBlank_of_spells (hname : IsClassName name) (h : Spells s name) :
    Text.isBlank s = false := by
  obtain ⟨before, dots, after, hs, -⟩ := h
  cases hhead : name.toList with
  | nil => exact absurd (String.toList_eq_nil_iff.mp hhead) hname.ne_empty
  | cons ch rest =>
    rw [Text.isBlank, List.all_eq_false]
    refine ⟨ch, by simp [hs, hhead], ?_⟩
    rw [hname.head_not_blank ch (by rw [hhead]; rfl)]
    exact Bool.false_ne_true

end SpecKind

/-! ## Specs and the scopes that they open -/

variable {c : Config} {kind : SpecKind} {key : String} {path : Path}

theorem fieldText?_eq_some {raw : Mapping} {s : String} :
    kind.fieldText? raw = some s ↔
      raw.get? kind.field = some (.text s) ∧ Text.isBlank s = false := by
  unfold SpecKind.fieldText?
  constructor
  · intro h
    split at h
    · rename_i hraw
      split at h
      · cases h
      · rename_i hblank
        cases h
        exact ⟨hraw, by simpa using hblank⟩
    · cases h
  · rintro ⟨hraw, hblank⟩
    rw [hraw]
    exact if_neg (by simp [hblank])

theorem forall₂_specItems {items : List Value} {index : Nat} {specs : List Spec}
    (h : kind.specItems key path index items = .ok specs) :
    List.Forall₂ (fun found spec => kind.spec found.1 found.2 = .ok spec)
      (Lint.rawItems key path index items) specs := by
  induction items generalizing index specs with
  | nil =>
    cases h
    exact .nil
  | cons item rest ih =>
    cases item with
    | mapping raw =>
      rw [SpecKind.specItems] at h
      simp only [bind_eq_ok] at h
      obtain ⟨spec, hspec, later, hlater, heq⟩ := h
      cases heq
      exact .cons hspec (ih hlater)
    | _ => exact ih h

/-- The specs under `key` in the node at `path`: one mapping, or the mappings in a sequence. -/
def heldSpecs (key : String) (path : Path) (v : Value) : List (Path × Mapping) :=
  match v with
  | .mapping raw => [(path ++ [key], raw)]
  | v =>
    match v.sequence? with
    | some items => Lint.rawItems key path 0 items
    | none => []

/-- The specs of a key are read off its mappings, in their order. -/
theorem forall₂_specs {v : Value} {specs : List Spec} (h : kind.specs key path v = .ok specs) :
    List.Forall₂ (fun found spec => kind.spec found.1 found.2 = .ok spec)
      (heldSpecs key path v) specs := by
  cases hitems : v.sequence? with
  | some items =>
    obtain ⟨-, -, hread⟩ := specs_eq_ok hitems h
    have hheld : heldSpecs key path v = Lint.rawItems key path 0 items := by
      cases v with
      | mapping _ => cases hitems
      | _ => simp only [heldSpecs, hitems]
    rw [hheld]
    exact forall₂_specItems hread
  | none =>
    cases v with
    | mapping raw =>
      obtain ⟨spec, hspec, hsingle⟩ := bind_eq_ok.mp h
      cases hsingle
      exact .cons hspec .nil
    | list _ | tuple _ | sequence _ _ => cases hitems
    | _ => cases h

theorem forall₂_scopesOf {items : List Value} {index : Nat} {specs : List Spec}
    {scopes : List Item} (hspecs : kind.specItems key path index items = .ok specs)
    (hall : items.all Value.isMapping = true) (h : scopesOf c kind specs items = .ok scopes) :
    List.Forall₂ (fun spec item => ∃ inner, item = .scope (kind.suffix spec.label) inner)
      specs scopes := by
  induction items generalizing index specs scopes with
  | nil =>
    cases hspecs
    cases h
    exact .nil
  | cons item rest ih =>
    cases item with
    | mapping raw =>
      rw [SpecKind.specItems] at hspecs
      simp only [bind_eq_ok] at hspecs
      obtain ⟨spec, -, later, hlater, heq⟩ := hspecs
      cases heq
      rw [scopesOf] at h
      simp only [bind_eq_ok] at h
      obtain ⟨inner, -, others, hothers, heq⟩ := h
      cases heq
      exact .cons ⟨inner, rfl⟩ (ih hlater (by simpa [Value.isMapping] using hall) hothers)
    | _ => cases hall

/-- A key of specs that is compiled opens a scope for each of them. -/
theorem itemsAt_specs {v : Value} {scopes : List Item}
    (hk : (classify c key v).specKind? = some kind) (h : itemsAt c key path v = .ok scopes) :
    ∃ specs, kind.specs key path v = .ok specs ∧
      List.Forall₂ (fun spec item => ∃ inner, item = .scope (kind.suffix spec.label) inner)
        specs scopes := by
  cases hitems : v.sequence? with
  | some items =>
    rw [itemsAt_of_items hitems, hk] at h
    simp only [bind_eq_ok, mapError_eq_ok] at h
    obtain ⟨specs, hspecs, hscopes⟩ := h
    obtain ⟨-, hall, hread⟩ := specs_eq_ok hitems hspecs
    exact ⟨specs, hspecs, forall₂_scopesOf hread hall hscopes⟩
  | none =>
    cases v with
    | mapping raw =>
      rw [itemsAt] at h
      cases hc : classify c key (.mapping raw) with
      | modifier | child =>
        rw [hc] at hk h
        cases hk
        simp only [bind_eq_ok, mapError_eq_ok] at h
        obtain ⟨spec, hspec, inner, -, heq⟩ := h
        cases heq
        exact ⟨[spec], bind_eq_ok.mpr ⟨spec, hspec, rfl⟩, .cons ⟨inner, rfl⟩ .nil⟩
      | _ =>
        rw [hc] at hk
        cases hk
    | list _ | tuple _ | sequence _ _ => cases hitems
    | _ =>
      simp only [itemsAt, hk, bind_eq_ok, mapError_eq_ok] at h
      obtain ⟨specs, hspecs, -⟩ := h
      cases hspecs

/-- The names that are read have no dot in front and no blank at the end. A name is the name of a class
exactly if the text spells one, in which case the text is accepted and the name is that. The scopes of
a compilation have the names for suffixes. -/
theorem modifier_names (c : Config) :
    (∀ key path v specs, SpecKind.modifier.specs key path v = .ok specs →
      List.Forall₂ (fun found spec => ∃ s, Mapping.get? found.2 "name" = some (.text s) ∧
          Text.isBlank s = false ∧ Spells s spec.label ∧
          (∀ ch ∈ spec.label.toList.head?, ch ≠ '.') ∧
          (∀ ch ∈ spec.label.toList.getLast?, Text.isBlankChar ch = false) ∧
          (IsClassName spec.label ↔ ∃ name, IsClassName name ∧ Spells s name))
        (heldSpecs key path v) specs) ∧
    (∀ path raw s name, Mapping.get? raw "name" = some (.text s) → IsClassName name →
      Spells s name → SpecKind.modifier.spec path raw = .ok ⟨name, raw.without "name", path⟩) ∧
    ∀ tree scope context o, compile c (.mapping tree) scope context = .ok o →
      ∀ e ∈ walked c tree, e.kind = .modifier →
        ∃ path specs scopes, e.path = path ++ [e.key] ∧
          SpecKind.modifier.specs e.key path e.value = .ok specs ∧
          itemsAt c e.key path e.value = .ok scopes ∧
          List.Forall₂ (fun spec item => ∃ inner, item = .scope ("." ++ spec.label) inner)
            specs scopes := by
  refine ⟨fun key path v specs h => ?_, fun path raw s name hraw hname h => ?_,
    fun tree scope context o h e he hk => ?_⟩
  · refine (forall₂_specs h).imp fun found spec hspec => ?_
    obtain ⟨s, hfield, hlabel, -⟩ := spec_eq_ok hspec
    obtain ⟨hraw, hblank⟩ := fieldText?_eq_some.mp hfield
    rw [hlabel]
    exact ⟨s, hraw, hblank, SpecKind.spells_labelOf s, fun ch => SpecKind.ne_dot_of_head_labelOf,
      fun ch => SpecKind.not_blank_of_last_labelOf, SpecKind.isClassName_labelOf⟩
  · have hfield : SpecKind.modifier.fieldText? raw = some s :=
      fieldText?_eq_some.mpr ⟨hraw, SpecKind.isBlank_of_spells hname h⟩
    rw [SpecKind.spec, hfield, ← SpecKind.labelOf_of_spells hname h]
    rfl
  · obtain ⟨-, hwf, -⟩ := compile_eq_ok.mp h
    obtain ⟨path, scopes, hpath, hitems⟩ := hwf.itemsAt_eq_ok he
    have hkind : (classify c e.key e.value).specKind? = some .modifier := by
      rw [← kind_of_mem_walked he, hk]
      rfl
    obtain ⟨specs, hspecs, hscopes⟩ := itemsAt_specs hkind hitems
    exact ⟨path, specs, scopes, hpath, hspecs, hitems, hscopes⟩

/-- A modifier with a name. -/
def namedSpec (name : String) : Mapping :=
  [("name", .text name), ("color", .text "red")]

def namedTree (name : String) : Mapping :=
  [("class", .mapping (namedSpec name))]

theorem modifier_names_sample :
    SpecKind.modifier.spec ["class"] (namedSpec " ..on") =
        .ok ⟨"on", [("color", .text "red")], ["class"]⟩ ∧
      compile .standard (.mapping (namedTree " ..on")) none none =
        .ok ⟨"", ["&.on\x7bcolor:red;\x7d"]⟩ ∧
      ∃ path specs scopes, ["class"] = path ++ ["class"] ∧
        SpecKind.modifier.specs "class" path (.mapping (namedSpec " ..on")) = .ok specs ∧
        itemsAt .standard "class" path (.mapping (namedSpec " ..on")) = .ok scopes ∧
        List.Forall₂ (fun spec item => ∃ inner, item = .scope ("." ++ spec.label) inner)
          specs scopes := by
  have hname : IsClassName "on" := ⟨by simp, by simp,
    fun ch h => by cases h; rfl, fun ch h => by cases h; rfl⟩
  have hspells : Spells " ..on" "on" :=
    ⟨[' '], ['.', '.'], [], rfl, List.forall_mem_singleton.mpr rfl, by simp, by simp⟩
  have hcompile : compile .standard (.mapping (namedTree " ..on")) none none =
    .ok ⟨"", ["&.on\x7bcolor:red;\x7d"]⟩ := rfl
  obtain ⟨-, hspec, htree⟩ := modifier_names .standard
  exact ⟨hspec ["class"] _ _ "on" rfl hname hspells, hcompile,
    htree _ _ _ _ hcompile ⟨["class"], "class", _, .modifier⟩ List.mem_cons_self rfl⟩

/-- A name of dots only is read as no name, and a blank after the dots is kept. -/
theorem modifier_dots_only :
    SpecKind.modifier.specs "class" [] (.mapping (namedSpec "...")) =
        .ok [⟨"", [("color", .text "red")], ["class"]⟩] ∧
      compile .standard (.mapping (namedTree "...")) none none =
        .ok ⟨"", ["&.\x7bcolor:red;\x7d"]⟩ ∧
      compile .standard (.mapping (namedTree ". on")) none none =
        .ok ⟨"", ["&. on\x7bcolor:red;\x7d"]⟩ :=
  ⟨rfl, rfl, rfl⟩

end StyleTree
