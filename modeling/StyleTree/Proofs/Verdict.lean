import StyleTree.Proofs.Lookups

/-!
# Verdicts

Whether a tree compiles, and with which fault if it does not, is settled by what its entries are
read as. Two configurations that read entries alike come to the same verdict on every tree
(`compile_sameVerdict`), for all scopes and all known media contexts: how selectors, numbers and
media rules are written, what constants stand for and which breakpoints are merged has no part in
it. A verdict is kept by running checks one after the other (`SameVerdict.bind`).
-/

namespace StyleTree

/-! ## Verdicts -/

/-- Both succeed, or both fail with the same error. -/
inductive SameVerdict {ε α β : Type} : Except ε α → Except ε β → Prop where
  | ok (a : α) (b : β) : SameVerdict (.ok a) (.ok b)
  | error (e : ε) : SameVerdict (.error e) (.error e)

namespace SameVerdict

variable {ε α β α' β' : Type} {x : Except ε α} {y : Except ε β}

theorem refl (x : Except ε α) : SameVerdict x x := by
  cases x with
  | ok a => exact .ok a a
  | error e => exact .error e

theorem symm (h : SameVerdict x y) : SameVerdict y x := by
  cases h with
  | ok a b => exact .ok b a
  | error e => exact .error e

theorem trans {γ : Type} {z : Except ε γ} (h : SameVerdict x y) (h' : SameVerdict y z) :
    SameVerdict x z := by
  cases h with
  | ok a b =>
    cases h' with
    | ok _ d => exact .ok a d
  | error e =>
    cases h' with
    | error _ => exact .error e

theorem eq_ok_or_eq_error (h : SameVerdict x y) :
    (∃ a b, x = .ok a ∧ y = .ok b) ∨ ∃ e, x = .error e ∧ y = .error e := by
  cases h with
  | ok a b => exact .inl ⟨a, b, rfl, rfl⟩
  | error e => exact .inr ⟨e, rfl, rfl⟩

theorem eq_error_iff (h : SameVerdict x y) {e : ε} : x = .error e ↔ y = .error e := by
  cases h with
  | ok a b => exact ⟨nofun, nofun⟩
  | error e' => rw [Except.error.injEq, Except.error.injEq]

theorem bind {f : α → Except ε α'} {g : β → Except ε β'} (h : SameVerdict x y)
    (hfg : ∀ a b, SameVerdict (f a) (g b)) : SameVerdict (x >>= f) (y >>= g) := by
  cases h with
  | ok a b => exact hfg a b
  | error e => exact .error e

/-- After the same check. -/
theorem bind_left {f : α → Except ε α'} {g : α → Except ε β'}
    (hfg : ∀ a, SameVerdict (f a) (g a)) : SameVerdict (x >>= f) (x >>= g) := by
  cases x with
  | ok a => exact hfg a
  | error e => exact .error e

theorem map (h : SameVerdict x y) (f : α → α') (g : β → β') :
    SameVerdict (do let a ← x; return f a) (do let b ← y; return g b) :=
  h.bind fun a b => .ok (f a) (g b)

end SameVerdict

/-! ## Reading entries alike -/

/-- The configurations have the same keys for specs, the same properties without numbers and
breakpoints of the same names. Everything else may differ. -/
structure Config.SameChecks (c c' : Config) : Prop where
  modifierKey : c.modifierKey = c'.modifierKey
  childKey : c.childKey = c'.childKey
  nonNumeric : ∀ property, property ∈ c.nonNumeric ↔ property ∈ c'.nonNumeric
  breakpoints : ∀ name, name ∈ c.breakpoints.names ↔ name ∈ c'.breakpoints.names

namespace Config.SameChecks

variable {c c' : Config} {key : String} {path : Path}

theorem classify_eq (h : c.SameChecks c') (key : String) (v : Value) :
    classify c key v = classify c' key v := by
  have hhas : c.breakpoints.has key = c'.breakpoints.has key := by
    rw [Registry.has, Registry.has, Bool.eq_iff_iff, List.contains_iff_mem, List.contains_iff_mem]
    exact h.breakpoints key
  rw [classify, classify, h.modifierKey, h.childKey, hhas]

theorem sameVerdict_write (h : c.SameChecks c') (property : String) (v : Value) :
    SameVerdict (c.write property v) (c'.write property v) := by
  cases v with
  | number n =>
    simp only [ValueRules.write, ValueRules.writeNumber, h.nonNumeric property]
    split
    · exact .error _
    split
    · exact .error _
    · split <;> split <;> exact .ok _ _
  | text s => exact .ok _ _
  | _ => exact .error _

theorem sameVerdict_declarationOf (h : c.SameChecks c') (key : String) (path : Path) (v : Value) :
    SameVerdict (declarationOf c key path v) (declarationOf c' key path v) := by
  unfold declarationOf
  rw [h.modifierKey, h.childKey]
  split
  · exact .error _
  · have hwrite := h.sameVerdict_write (Property.name key) v
    simp only
    generalize c.write (Property.name key) v = x at hwrite ⊢
    generalize c'.write (Property.name key) v = y at hwrite ⊢
    cases hwrite with
    | ok a b => exact .ok _ _
    | error e => exact .error _

end Config.SameChecks

/-! ## The verdict on a tree -/

variable {c c' : Config}

theorem sameVerdict_of_items (h : c.SameChecks c') {key : String} {path : Path} {v : Value}
    {values : List Value} (hv : v.sequence? = some values)
    (hvalues : ∀ kind specs, SameVerdict (scopesOf c kind specs values)
      (scopesOf c' kind specs values)) :
    SameVerdict (itemsAt c key path v) (itemsAt c' key path v) := by
  rw [itemsAt_of_items hv, itemsAt_of_items hv, h.classify_eq]
  cases (classify c' key v).specKind? with
  | none => exact (h.sameVerdict_declarationOf key path v).map _ _
  | some kind => exact .bind_left fun specs => hvalues kind specs

mutual

theorem sameVerdict_itemsOf (h : c.SameChecks c') : ∀ (m : Mapping) (consumed : Option String)
    (path : Path), SameVerdict (itemsOf c consumed path m) (itemsOf c' consumed path m)
  | [], _, _ => .refl _
  | (key, v) :: rest, consumed, path => by
    have hfirst := sameVerdict_itemsAt h v key path
    have hrest := sameVerdict_itemsOf h rest consumed path
    rw [itemsOf, itemsOf]
    split
    · exact hrest
    · exact hfirst.bind fun first first' => hrest.map _ _

theorem sameVerdict_itemsAt (h : c.SameChecks c') : ∀ (v : Value) (key : String) (path : Path),
    SameVerdict (itemsAt c key path v) (itemsAt c' key path v)
  | .mapping body, key, path => by
    have hbody := sameVerdict_itemsOf h body
    rw [itemsAt, itemsAt, h.classify_eq]
    cases classify c' key (.mapping body) with
    | property => exact (h.sameVerdict_declarationOf key path _).map _ _
    | breakpoint => exact (hbody _ _).map _ _
    | pseudo | modifier | child => exact .bind_left fun found => (hbody _ _).map _ _
  | .list values, key, path | .tuple values, key, path | .sequence _ values, key, path =>
    sameVerdict_of_items h rfl fun kind => sameVerdict_scopesOf h values kind
  | .null, key, path | .flag _, key, path | .number _, key, path | .text _, key, path
  | .bytes _, key, path => by
    rw [itemsAt, itemsAt, h.classify_eq]
    · split
      · exact .refl _
      · exact (h.sameVerdict_declarationOf key path _).map _ _
    all_goals simp

theorem sameVerdict_scopesOf (h : c.SameChecks c') : ∀ (values : List Value) (kind : SpecKind)
    (specs : List Spec), SameVerdict (scopesOf c kind specs values) (scopesOf c' kind specs values)
  | .mapping raw :: rest, kind, spec :: specs => by
    have hbody := sameVerdict_itemsOf h raw (some kind.field) spec.path
    have hrest := sameVerdict_scopesOf h rest kind specs
    rw [scopesOf, scopesOf]
    exact hbody.bind fun inner inner' => hrest.map _ _
  | [], _, _ | .list _ :: _, _, _ | .tuple _ :: _, _, _ | .sequence _ _ :: _, _, _
  | .null :: _, _, _ | .flag _ :: _, _, _ | .number _ :: _, _, _ | .text _ :: _, _, _
  | .bytes _ :: _, _, _ | .mapping _ :: _, _, [] => by
    rw [scopesOf, scopesOf]
    · exact .ok _ _
    all_goals simp

end

theorem sameVerdict_checkedTree (h : c.SameChecks c') (tree : Value) :
    SameVerdict (checkedTree c tree) (checkedTree c' tree) := by
  cases tree with
  | mapping m => exact sameVerdict_itemsOf h m none []
  | _ => exact .error _

/-- In a known context the checks of the tree settle whether it compiles. -/
theorem sameVerdict_compile {context : Option String} (hcontext : c.breakpoints.Admits context)
    (tree : Value) (scope : Option String) :
    SameVerdict (compile c tree scope context) (checkedTree c tree) := by
  cases tree with
  | mapping m =>
    rw [compile, compileSheet_eq hcontext, checkedTree]
    cases itemsOf c none [] m with
    | ok items => exact .ok _ _
    | error e => exact .error e
  | _ =>
    rw [compile, compileSheet, checkContext_eq_ok.mpr hcontext]
    exact .error _

/-- Configurations that read entries alike fail alike: a tree compiles with both, whatever the scopes
and the media contexts, or it has the same fault with both. -/
theorem compile_sameVerdict (h : c.SameChecks c') (tree : Value) (scope scope' : Option String)
    {context context' : Option String} (hcontext : c.breakpoints.Admits context)
    (hcontext' : c'.breakpoints.Admits context') :
    (∃ o o', compile c tree scope context = .ok o ∧ compile c' tree scope' context' = .ok o') ∨
      ∃ f, compile c tree scope context = .error (.malformed f) ∧
        compile c' tree scope' context' = .error (.malformed f) := by
  have hleft := sameVerdict_compile hcontext tree scope
  have hright := sameVerdict_compile hcontext' tree scope'
  have hchecks := sameVerdict_checkedTree h tree
  rcases (hleft.trans (hchecks.trans hright.symm)).eq_ok_or_eq_error with hok | ⟨e, he, he'⟩
  · exact .inl hok
  · obtain ⟨f, rfl⟩ := malformed_of_checkedTree (hleft.eq_error_iff.mp he)
    exact .inr ⟨f, he, he'⟩

/-- The breakpoint with its name only: it inherits from no other. -/
def Breakpoint.flat (b : Breakpoint) : Breakpoint where
  name := b.name
  predicate := "all"
  name_ne := b.name_ne

def flatRegistry : Registry where
  toList := Registry.standard.toList.map Breakpoint.flat
  sound := by decide

/-- Trees are read as in the standard configuration, and written differently. -/
def flatConfig : Config :=
  { Config.standard with
    unit := "em"
    unitless := []
    constants := .palette
    placeholder := ".host"
    breakpoints := flatRegistry }

/-- A fault in a breakpoint block that the one configuration merges and the other wraps. -/
theorem compile_sameVerdict_sample :
    Config.SameChecks .standard flatConfig ∧ Config.standard.breakpoints.Admits none ∧
      flatConfig.breakpoints.Admits (some "large") ∧
      ∃ f, compile .standard (.mapping [("tablet", .mapping [("small", .mapping
          [("color", .number (.int 3))])])]) none none = .error (.malformed f) ∧
        compile flatConfig (.mapping [("tablet", .mapping [("small", .mapping
          [("color", .number (.int 3))])])]) (some ".card") (some "large") =
            .error (.malformed f) := by
  have hchecks : Config.SameChecks .standard flatConfig :=
    ⟨rfl, rfl, fun _ => Iff.rfl, fun _ => Iff.rfl⟩
  have hcontext' : flatConfig.breakpoints.Admits (some "large") := Registry.admits_some rfl
  refine ⟨hchecks, Registry.admits_none, hcontext', ?_⟩
  rcases compile_sameVerdict hchecks (.mapping [("tablet", .mapping [("small", .mapping
    [("color", .number (.int 3))])])]) none (some ".card") Registry.admits_none hcontext' with
    ⟨o, o', ho, -⟩ | hfault
  · cases ho
  · exact hfault

end StyleTree
