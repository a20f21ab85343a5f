import StyleTree.Proofs.Lookups
import StyleTree.Proofs.Transparency

/-!
# Changes of nodes

Some changes keep what a node comes to, as long as the node is well formed and the media context
known. Such a change can be made in any node of a tree, and in as many as one likes: the tree
compiles to the same output (`Change.Keeps.compile_steps`). What is around the changed node is kept
by the congruences that also keep it when a block is inlined.
-/

namespace StyleTree

/-- A change of a node. It may depend on the key that the block of the node uses up for itself, and
on the media context in force in the node. -/
abbrev Change := Option String → Option String → Mapping → Mapping → Prop

namespace Change

/-- The change is made in the node itself or in a block inside it, however deep; a sequence of specs,
of any type, is entered at one of them. -/
inductive Within (c : Config) (change : Change) : Change where
  | here {consumed context : Option String} {m m' : Mapping} :
      change consumed context m m' → Within c change consumed context m m'
  | block {consumed context : Option String} {key : String} {before body body' after : Mapping} :
      consumed ≠ some key → classify c key (.mapping body) ≠ .property →
      Within c change (classify c key (.mapping body)).consumedKey
        (((classify c key (.mapping body)).opening key body).inside c.breakpoints context)
        body body' →
      Within c change consumed context (before ++ (key, .mapping body) :: after)
        (before ++ (key, .mapping body') :: after)
  | spec {consumed context : Option String} {key : String} {before raw raw' after : Mapping}
      {first rest : List Value} {kind : SpecKind} {sequence : List Value → Value} :
      consumed ≠ some key → (∀ values, (sequence values).sequence? = some values) →
      (classify c key (sequence (first ++ .mapping raw :: rest))).specKind? = some kind →
      Within c change (some kind.field) context raw raw' →
      Within c change consumed context
        (before ++ (key, sequence (first ++ .mapping raw :: rest)) :: after)
        (before ++ (key, sequence (first ++ .mapping raw' :: rest)) :: after)

/-- The change leaves the key alone that a block uses up, and keeps the sheets of a well-formed node
in a known context. -/
structure Keeps (c : Config) (change : Change) : Prop where
  get?_eq {kind : KeyKind} {field : String} {context : Option String} {m m' : Mapping} :
    kind.consumedKey = some field → change (some field) context m m' →
      m.get? field = m'.get? field
  sameSheets {kind : KeyKind} {context : Option String} {m m' : Mapping} :
    c.breakpoints.Admits context → (nodeItems? c kind.consumedKey m).isSome →
      change kind.consumedKey context m m' →
        SameSheets c.setting context (nodeItems? c kind.consumedKey m)
          (nodeItems? c kind.consumedKey m')

end Change

/-! ## The parts of a well-formed node -/

section Parts

variable {c : Config} {consumed : Option String} {key : String}

theorem SameSheets.isSome_of_between {before after x : Option (List Item)}
    (h : (between before after x).isSome) : x.isSome := by
  cases x with
  | none => cases before <;> cases h
  | some items => rfl

theorem isSome_of_bind_map {α β γ : Type} {x : Option α} {y : Option β} {f : α → β → γ}
    (h : (x.bind fun a => y.map (f a)).isSome) : y.isSome := by
  cases x with
  | none => cases h
  | some a => simpa using h

theorem isSome_of_block {body : Mapping} (hclass : classify c key (.mapping body) ≠ .property)
    (h : (entryItems? c key (.mapping body)).isSome) :
    (nodeItems? c (classify c key (.mapping body)).consumedKey body).isSome := by
  cases hc : classify c key (.mapping body) with
  | property => exact absurd hc hclass
  | breakpoint =>
    rw [entryItems?_media hc, Option.isSome_map] at h
    exact h
  | pseudo | modifier | child =>
    rw [entryItems?_scope hc rfl] at h
    exact isSome_of_bind_map h

theorem isSome_of_spec {kind : SpecKind} {raw : Mapping}
    (h : ((specItem? c kind (.mapping raw)).map ([·])).isSome) :
    (nodeItems? c (some kind.field) raw).isSome := by
  rw [specItem?, Option.isSome_map] at h
  exact isSome_of_bind_map h

end Parts

namespace Change

variable {c : Config} {change : Change}

theorem Within.get?_eq (hkeeps : change.Keeps c) {kind : KeyKind} {field : String}
    (hfield : kind.consumedKey = some field) {context : Option String} {m m' : Mapping}
    (h : change.Within c (some field) context m m') : m.get? field = m'.get? field := by
  cases h with
  | here h => exact hkeeps.get?_eq hfield h
  | block hkey _ _ | spec hkey _ _ _ =>
    rw [Mapping.get?_between hkey, Mapping.get?_between hkey]

/-- What keeps the sheets of a node in a known context keeps those of the node around it. -/
theorem Within.sameSheets (hkeeps : change.Keeps c) {kind : KeyKind}
    {consumed context : Option String} (hconsumed : kind.consumedKey = consumed)
    (hcontext : c.breakpoints.Admits context) {m m' : Mapping}
    (hnode : (nodeItems? c consumed m).isSome) (h : change.Within c consumed context m m') :
    SameSheets c.setting context (nodeItems? c consumed m) (nodeItems? c consumed m') := by
  induction h generalizing kind with
  | here h =>
    subst hconsumed
    exact hkeeps.sameSheets hcontext hnode h
  | @block consumed context key before body body' after hkey hclass hbody ih =>
    rw [nodeItems?_between hkey] at hnode
    have hread := isSome_of_block hclass (SameSheets.isSome_of_between hnode)
    have hinside := hcontext.inside ((ofOpenings_known c).block key body hclass)
    refine sameSheets_block hkey hclass (fun field hfield => ?_) (ih rfl hinside hread)
    rw [hfield] at hbody
    exact hbody.get?_eq hkeeps hfield
  | @spec consumed context key before raw raw' after first rest kind' sequence hkey hseq hkind
      hraw ih =>
    have hfield := consumedKey_of_specKind? hkind
    rw [nodeItems?_between hkey] at hnode
    have hspecs := SameSheets.isSome_of_between hnode
    rw [entryItems?_of_items (hseq _) hkind (by simp),
      mapM_specItem?_between] at hspecs
    have hread := isSome_of_spec (SameSheets.isSome_of_between hspecs)
    exact sameSheets_spec hkey hseq hkind (hraw.get?_eq hkeeps hfield) (ih hfield hcontext hread)

namespace Keeps

variable {tree tree' : Mapping} {scope context : Option String} {o : Output}

/-- One change anywhere in a tree that compiles. -/
theorem compile_step (hkeeps : change.Keeps c) (h : change.Within c none context tree tree')
    (hcompile : compile c (.mapping tree) scope context = .ok o) :
    compile c (.mapping tree') scope context = .ok o := by
  obtain ⟨hcontext, ⟨items, hitems⟩, -⟩ := compile_eq_ok.mp hcompile
  have hread : nodeItems? c none tree = some items := toOption_eq_some.mpr hitems
  have hsame : SameSheets c.setting context (nodeItems? c none tree) (nodeItems? c none tree') :=
    h.sameSheets hkeeps (show KeyKind.breakpoint.consumedKey = none from rfl) hcontext
      (Option.isSome_of_eq_some hread)
  rw [← toOption_eq_some, toOption_compile] at hcompile ⊢
  generalize nodeItems? c none tree = x at hsame hcompile
  generalize nodeItems? c none tree' = x' at hsame
  cases hsame with
  | none => exact hcompile
  | some heq => simpa only [Option.bind_some, heq (c.scopeOf scope)] using hcompile

/-- Any number of changes, in any nodes. -/
theorem compile_steps (hkeeps : change.Keeps c)
    (h : Relation.ReflTransGen (change.Within c none context) tree tree')
    (hcompile : compile c (.mapping tree) scope context = .ok o) :
    compile c (.mapping tree') scope context = .ok o := by
  induction h with
  | refl => exact hcompile
  | tail _ hstep ih => exact hkeeps.compile_step hstep ih

end Keeps

end Change

end StyleTree
