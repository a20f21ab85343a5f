import StyleTree.Proofs.Standalone
import StyleTree.Proofs.Verdict

/-!
# Compiling in one pass

`compile` has the whole tree checked before a selector or a media rule is known. `outputOf` does both
in one recursion: it carries the scope and the media context along, checks an entry when it comes to
it and writes the rules of a block when it leaves the block. A breakpoint block is merged or wrapped
where it is met, and its body is compiled in the context that is in force there. In a known context
the two agree at every node (`renders_itemsOf`), so that compiling is one recursion
(`compile_eq_inOnePass`).

About the calls of that recursion there is more to say than about the run as a whole. No look-up fails
in any of them (`outputOf_ok_or_malformed`). Configurations that read entries alike come to the same
verdict in every two calls for the same node, also where the one merges a breakpoint block and the
other wraps it (`sameVerdict_merged_wrapped`).
-/

namespace StyleTree

/-! ## Outputs -/

namespace Output

def empty : Output :=
  ⟨"", []⟩

def append (a b : Output) : Output :=
  ⟨a.declarations ++ b.declarations, a.rules ++ b.rules⟩

instance : Append Output :=
  ⟨append⟩

end Output

namespace Sheet

theorem render_append (a b : Sheet) : (a ++ b).render = a.render ++ b.render := by
  show Output.mk _ _ = Output.mk _ _
  rw [declarations_append, blocks_append, renderDeclarations, List.map_append, String.join_append,
    List.map_append]
  rfl

end Sheet

/-! ## The recursion -/

mutual

/-- The output of a node at `path` for a scope in a media context, without the key that its block
uses up. -/
def outputOf (c : Config) (consumed : Option String) (scope : String) (context : Option String)
    (path : Path) : Mapping → Except CompileError Output
  | [] => .ok .empty
  | (key, v) :: rest =>
    if consumed = some key then outputOf c consumed scope context path rest
    else do
      let first ← outputAt c key scope context path v
      let others ← outputOf c consumed scope context path rest
      return first ++ others

/-- What the entry `key: v` of the node at `path` adds to the output of the node. -/
def outputAt (c : Config) (key : String) (scope : String) (context : Option String) (path : Path) :
    Value → Except CompileError Output
  | .mapping body =>
    match classify c key (.mapping body) with
    | .property => do
      let d ← declarationOf c key path (.mapping body)
      return ⟨d.render, []⟩
    | .pseudo => do
      let suffix ← pseudoSuffix key path body
      let inner ← outputOf c (some Pseudo.paramKey) (scope ++ suffix) context (path ++ [key]) body
      return ⟨"", inner.close (scope ++ suffix) false⟩
    | .breakpoint => do
      if ← (c.breakpoints.implies context key).mapError .unknownBreakpoint then
        outputOf c none scope context (path ++ [key]) body
      else
        let inner ← outputOf c none scope (some key) (path ++ [key]) body
        let b ← (c.breakpoints.get key).mapError .unknownBreakpoint
        return ⟨"", (inner.close scope (scope = c.placeholder)).map (rule b.media)⟩
    | .modifier => do
      let spec ← (SpecKind.modifier.spec (path ++ [key]) body).mapError .malformed
      let selector := scope ++ SpecKind.modifier.suffix spec.label
      let inner ← outputOf c (some SpecKind.modifier.field) selector context spec.path body
      return ⟨"", inner.close selector false⟩
    | .child => do
      let spec ← (SpecKind.child.spec (path ++ [key]) body).mapError .malformed
      let selector := scope ++ SpecKind.child.suffix spec.label
      let inner ← outputOf c (some SpecKind.child.field) selector context spec.path body
      return ⟨"", inner.close selector false⟩
  | .list items =>
    match (classify c key (.list items)).specKind? with
    | some kind => do
      let specs ← (kind.specs key path (.list items)).mapError .malformed
      outputOfSpecs c kind scope context specs items
    | none => do
      let d ← declarationOf c key path (.list items)
      return ⟨d.render, []⟩
  | .tuple items =>
    match (classify c key (.tuple items)).specKind? with
    | some kind => do
      let specs ← (kind.specs key path (.tuple items)).mapError .malformed
      outputOfSpecs c kind scope context specs items
    | none => do
      let d ← declarationOf c key path (.tuple items)
      return ⟨d.render, []⟩
  | .sequence type items =>
    match (classify c key (.sequence type items)).specKind? with
    | some kind => do
      let specs ← (kind.specs key path (.sequence type items)).mapError .malformed
      outputOfSpecs c kind scope context specs items
    | none => do
      let d ← declarationOf c key path (.sequence type items)
      return ⟨d.render, []⟩
  | v =>
    match (classify c key v).specKind? with
    | some kind => do
      let _ ← (kind.specs key path v).mapError CompileError.malformed
      return .empty
    | none => do
      let d ← declarationOf c key path v
      return ⟨d.render, []⟩

/-- The output of the specs that the items of a sequence have been read as. -/
def outputOfSpecs (c : Config) (kind : SpecKind) (scope : String) (context : Option String) :
    List Spec → List Value → Except CompileError Output
  | spec :: specs, .mapping body :: rest => do
    let selector := scope ++ kind.suffix spec.label
    let inner ← outputOf c (some kind.field) selector context spec.path body
    let others ← outputOfSpecs c kind scope context specs rest
    return ⟨"", inner.close selector false⟩ ++ others
  | _, _ => .ok .empty

end

/-- `compile` as that recursion. -/
def compileInOnePass (c : Config) (tree : Value) (scope context : Option String) :
    Except CompileError Output := do
  c.checkContext context
  match tree with
  | .mapping m => outputOf c none (c.scopeOf scope) context [] m
  | v => malformedAt [] (.rootNotMapping v.typeName)

/-! ## Checked items and their output -/

/-- The one gives items and the other the output of their sheet, or both fail with the same error. -/
inductive Renders (c : Config) (scope : String) (context : Option String) :
    Except CompileError (List Item) → Except CompileError Output → Prop where
  | ok {items : List Item} {s : Sheet} :
      sheetOf c.setting scope context items = .ok s → Renders c scope context (.ok items) (.ok s.render)
  | error (e : CompileError) : Renders c scope context (.error e) (.error e)

namespace Renders

section Binds

variable {c : Config} {scope scope' : String} {context context' : Option String}
  {x : Except CompileError (List Item)} {y : Except CompileError Output}

theorem bind {f : List Item → Except CompileError (List Item)}
    {g : Output → Except CompileError Output} (h : Renders c scope' context' x y)
    (hfg : ∀ items o, Renders c scope' context' (.ok items) (.ok o) →
      Renders c scope context (f items) (g o)) :
    Renders c scope context (x >>= f) (y >>= g) := by
  cases h with
  | ok hs => exact hfg _ _ (.ok hs)
  | error e => exact .error e

/-- After the same check. -/
theorem bind_left {α : Type} {check : Except CompileError α}
    {f : α → Except CompileError (List Item)} {g : α → Except CompileError Output}
    (hfg : ∀ a, Renders c scope context (f a) (g a)) :
    Renders c scope context (check >>= f) (check >>= g) := by
  cases check with
  | ok a => exact hfg a
  | error e => exact .error e

end Binds

/-! ### Items -/

variable {c : Config} {scope : String} {context : Option String} {o o' : Output}

theorem nil : Renders c scope context (.ok []) (.ok .empty) :=
  ok (s := .empty) rfl

theorem append {items items' : List Item} (h : Renders c scope context (.ok items) (.ok o))
    (h' : Renders c scope context (.ok items') (.ok o')) :
    Renders c scope context (.ok (items ++ items')) (.ok (o ++ o')) := by
  cases h with
  | ok hs =>
    cases h' with
    | ok hs' =>
      rw [← Sheet.render_append]
      refine .ok ?_
      rw [sheetOf_append, hs, hs']
      rfl

theorem singleton {item : Item} {s : Sheet}
    (h : sheetOfItem c.setting scope context item = .ok s) :
    Renders c scope context (.ok [item]) (.ok s.render) :=
  .ok ((sheetOf_singleton c.setting scope context item).trans h)

theorem declaration (d : Declaration) :
    Renders c scope context (.ok [.declaration d]) (.ok ⟨d.render, []⟩) := by
  have hrender : (⟨[d], []⟩ : Sheet).render = ⟨d.render, []⟩ := by
    simp [Sheet.render, renderDeclarations]
  rw [← hrender]
  exact singleton rfl

theorem scopeBlock {suffix : String} {inner : List Item}
    (h : Renders c (scope ++ suffix) context (.ok inner) (.ok o)) :
    Renders c scope context (.ok [.scope suffix inner])
      (.ok ⟨"", o.close (scope ++ suffix) false⟩) := by
  cases h with
  | @ok _ s hs =>
    have hrender : (⟨[], s.close (scope ++ suffix) false⟩ : Sheet).render =
        ⟨"", s.render.close (scope ++ suffix) false⟩ := by
      rw [← s.map_render_close]
      rfl
    rw [← hrender]
    refine singleton ?_
    rw [sheetOfItem, hs]
    rfl

/-- A breakpoint block that is merged. -/
theorem merged {name : String} {inner : List Item}
    (himplies : c.breakpoints.implies context name = .ok true)
    (h : Renders c scope context (.ok inner) (.ok o)) :
    Renders c scope context (.ok [.media name inner]) (.ok o) := by
  cases h with
  | ok hs =>
    refine singleton ?_
    rw [sheetOfItem, show c.setting.registry = c.breakpoints from rfl, himplies]
    exact hs

/-- A breakpoint block that is wrapped. -/
theorem wrapped {name : String} {b : Breakpoint} {inner : List Item}
    (himplies : c.breakpoints.implies context name = .ok false)
    (hget : c.breakpoints.get name = .ok b)
    (h : Renders c scope (some name) (.ok inner) (.ok o)) :
    Renders c scope context (.ok [.media name inner])
      (.ok ⟨"", (o.close scope (scope = c.placeholder)).map (rule b.media)⟩) := by
  cases h with
  | @ok _ s hs =>
    have hrender : (⟨[], (s.close scope (scope = c.placeholder)).map (.within b)⟩ : Sheet).render =
        ⟨"", (s.render.close scope (scope = c.placeholder)).map (rule b.media)⟩ := by
      rw [← s.map_render_close, Sheet.render, List.map_map, List.map_map]
      rfl
    rw [← hrender]
    refine singleton ?_
    rw [sheetOfItem, show c.setting.registry = c.breakpoints from rfl, himplies, hget, hs]
    rfl

end Renders

/-- The output is that of the sheet of the items. -/
theorem Renders.eq_render {c : Config} {scope : String} {context : Option String}
    {x : Except CompileError (List Item)} {y : Except CompileError Output}
    (h : Renders c scope context x y) :
    y = (do
      let items ← x
      (sheetOf c.setting scope context items).mapError .unknownBreakpoint).map Sheet.render := by
  cases h with
  | @ok items s hs =>
    show _ = ((sheetOf c.setting scope context items).mapError _).map Sheet.render
    rw [hs]
    rfl
  | error e => rfl

/-! ## Agreement at every node -/

/-- A breakpoint block is merged or wrapped as the context around it has it. Its body has its output in
every known context, so in either case in the right one. -/
theorem renders_breakpoint {c : Config} {context : Option String}
    (hcontext : c.breakpoints.Admits context) {name : String}
    (hname : c.breakpoints.has name = true) {scope : String}
    {x : Except CompileError (List Item)} {y : Option String → Except CompileError Output}
    (h : ∀ context, c.breakpoints.Admits context → Renders c scope context x (y context)) :
    Renders c scope context (do let inner ← x; return [.media name inner])
      (do
        if ← (c.breakpoints.implies context name).mapError .unknownBreakpoint then y context
        else
          let inner ← y (some name)
          let b ← (c.breakpoints.get name).mapError .unknownBreakpoint
          return ⟨"", (inner.close scope (scope = c.placeholder)).map (rule b.media)⟩) := by
  have himplies : c.breakpoints.implies context name = .ok (c.breakpoints.covers context name) :=
    Registry.implies_eq_covers hcontext
  rw [himplies]
  cases hcov : c.breakpoints.covers context name with
  | true =>
    rw [hcov] at himplies
    have hmerged := (h context hcontext).bind (g := pure) fun inner o ho => ho.merged himplies
    rw [bind_pure] at hmerged
    exact hmerged
  | false =>
    rw [hcov] at himplies
    obtain ⟨b, hb⟩ := Registry.has_iff_get.mp hname
    rw [hb]
    exact (h (some name) (Registry.admits_some hname)).bind fun inner o ho => ho.wrapped himplies hb

mutual

theorem renders_itemsOf (c : Config) : ∀ (m : Mapping) (consumed : Option String) (path : Path)
    (scope : String) {context : Option String}, c.breakpoints.Admits context →
    Renders c scope context (itemsOf c consumed path m) (outputOf c consumed scope context path m)
  | [], _, _, _, _, _ => by
    rw [itemsOf, outputOf]
    exact .nil
  | (key, v) :: rest, consumed, path, scope, context, hcontext => by
    have hfirst := renders_itemsAt c v key path scope hcontext
    have hrest := renders_itemsOf c rest consumed path scope hcontext
    rw [itemsOf, outputOf]
    split
    · exact hrest
    · exact hfirst.bind fun first o ho => hrest.bind fun others o' ho' => ho.append ho'

theorem renders_itemsAt (c : Config) : ∀ (v : Value) (key : String) (path : Path)
    (scope : String) {context : Option String}, c.breakpoints.Admits context →
    Renders c scope context (itemsAt c key path v) (outputAt c key scope context path v)
  | .mapping body, key, path, scope, context, hcontext => by
    have hbody := renders_itemsOf c body
    rw [itemsAt, outputAt]
    cases hkind : classify c key (.mapping body) with
    | property => exact .bind_left .declaration
    | pseudo =>
      exact .bind_left fun suffix => (hbody _ _ _ hcontext).bind fun inner o ho => ho.scopeBlock
    | breakpoint =>
      exact renders_breakpoint hcontext (has_of_classify hkind) fun context h => hbody _ _ _ h
    | modifier | child =>
      exact .bind_left fun spec => (hbody _ _ _ hcontext).bind fun inner o ho => ho.scopeBlock
  | .list values, key, path, scope, context, hcontext
  | .tuple values, key, path, scope, context, hcontext
  | .sequence _ values, key, path, scope, context, hcontext => by
    have hvalues := renders_scopesOf c values
    rw [itemsAt, outputAt]
    cases (classify c key _).specKind? with
    | some kind => exact .bind_left fun specs => hvalues _ _ _ hcontext
    | none => exact .bind_left .declaration
  | .null, key, path, scope, context, _ | .flag _, key, path, scope, context, _
  | .number _, key, path, scope, context, _ | .text _, key, path, scope, context, _
  | .bytes _, key, path, scope, context, _ => by
    rw [itemsAt, outputAt]
    · cases (classify c key _).specKind? with
      | some kind => exact .bind_left fun _ => .nil
      | none => exact .bind_left .declaration
    all_goals simp

theorem renders_scopesOf (c : Config) : ∀ (values : List Value) (kind : SpecKind)
    (specs : List Spec) (scope : String) {context : Option String}, c.breakpoints.Admits context →
    Renders c scope context (scopesOf c kind specs values)
      (outputOfSpecs c kind scope context specs values)
  | .mapping raw :: rest, kind, spec :: specs, scope, context, hcontext => by
    have hbody := renders_itemsOf c raw (some kind.field) spec.path
      (scope ++ kind.suffix spec.label) hcontext
    have hrest := renders_scopesOf c rest kind specs scope hcontext
    rw [scopesOf, outputOfSpecs]
    exact hbody.bind fun inner o ho => hrest.bind fun others o' ho' => ho.scopeBlock.append ho'
  | [], _, _, _, _, _ | .list _ :: _, _, _, _, _, _ | .tuple _ :: _, _, _, _, _, _
  | .sequence _ _ :: _, _, _, _, _, _ | .null :: _, _, _, _, _, _ | .flag _ :: _, _, _, _, _, _
  | .number _ :: _, _, _, _, _, _ | .text _ :: _, _, _, _, _, _ | .bytes _ :: _, _, _, _, _, _
  | .mapping _ :: _, _, [], _, _, _ => by
    rw [scopesOf, outputOfSpecs]
    · exact .nil
    all_goals simp

end

/-- Compiling is the recursion, for every tree, scope and media context. -/
theorem compile_eq_inOnePass (c : Config) (tree : Value) (scope context : Option String) :
    compile c tree scope context = compileInOnePass c tree scope context := by
  unfold compile compileSheet compileInOnePass
  cases hcheck : c.checkContext context with
  | error e => rfl
  | ok u =>
    cases tree with
    | mapping m =>
      have hnode := renders_itemsOf c m none [] (c.scopeOf scope) (checkContext_eq_ok.mp hcheck)
      exact hnode.eq_render.symm
    | _ => rfl

/-! ## The calls of the recursion -/

theorem Renders.sameVerdict {c : Config} {scope : String} {context : Option String}
    {x : Except CompileError (List Item)} {y : Except CompileError Output}
    (h : Renders c scope context x y) : SameVerdict x y := by
  cases h with
  | ok _ => exact .ok _ _
  | error e => exact .error e

/-- A call in a known context gives an output or a fault of the tree: the look-ups on the way
succeed, whatever the node, the scope and the path. -/
theorem outputOf_ok_or_malformed {c : Config} {context : Option String}
    (hcontext : c.breakpoints.Admits context) (m : Mapping) (consumed : Option String)
    (path : Path) (scope : String) :
    (∃ o, outputOf c consumed scope context path m = .ok o) ∨
      ∃ f, outputOf c consumed scope context path m = .error (.malformed f) := by
  rcases (renders_itemsOf c m consumed path scope hcontext).sameVerdict.eq_ok_or_eq_error with
    ⟨items, o, -, ho⟩ | ⟨e, hitems, he⟩
  · exact .inl ⟨o, ho⟩
  · obtain ⟨f, rfl⟩ := malformed_of_itemsOf hitems
    exact .inr ⟨f, he⟩

section Calls

variable {c c' : Config} {context context' : Option String}

/-- Two calls for the same node at the same path. -/
theorem sameVerdict_outputOf (h : c.SameChecks c') (hcontext : c.breakpoints.Admits context)
    (hcontext' : c'.breakpoints.Admits context') (m : Mapping) (consumed : Option String)
    (path : Path) (scope scope' : String) :
    SameVerdict (outputOf c consumed scope context path m)
      (outputOf c' consumed scope' context' path m) := by
  have hleft := (renders_itemsOf c m consumed path scope hcontext).sameVerdict
  have hright := (renders_itemsOf c' m consumed path scope' hcontext').sameVerdict
  exact hleft.symm.trans ((sameVerdict_itemsOf h m consumed path).trans hright)

/-- The call for a breakpoint block that the context implies. -/
theorem outputAt_of_merged {key scope : String} {path : Path} {body : Mapping}
    (hkind : classify c key (.mapping body) = .breakpoint)
    (himplies : c.breakpoints.implies context key = .ok true) :
    outputAt c key scope context path (.mapping body) =
      outputOf c none scope context (path ++ [key]) body := by
  rw [outputAt, hkind]
  simp only [himplies]
  rfl

/-- The call for a breakpoint block that the context does not imply. -/
theorem outputAt_of_wrapped {key scope : String} {path : Path} {body : Mapping} {b : Breakpoint}
    (hkind : classify c key (.mapping body) = .breakpoint)
    (himplies : c.breakpoints.implies context key = .ok false)
    (hget : c.breakpoints.get key = .ok b) :
    outputAt c key scope context path (.mapping body) = do
      let inner ← outputOf c none scope (some key) (path ++ [key]) body
      return ⟨"", (inner.close scope (scope = c.placeholder)).map (rule b.media)⟩ := by
  rw [outputAt, hkind]
  simp only [himplies, hget]
  rfl

/-- One run merges a breakpoint block and the other wraps it: the calls for its body, in the context
around the block and in the block's own, come to the same verdict. -/
theorem sameVerdict_merged_wrapped (h : c.SameChecks c') (hcontext : c.breakpoints.Admits context)
    {key scope scope' : String} {path : Path} {body : Mapping}
    (hkind : classify c key (.mapping body) = .breakpoint)
    (hmerged : c.breakpoints.implies context key = .ok true)
    (hwrapped : c'.breakpoints.implies context' key = .ok false) :
    ∃ b, c'.breakpoints.get key = .ok b ∧
      outputAt c key scope context path (.mapping body) =
        outputOf c none scope context (path ++ [key]) body ∧
      outputAt c' key scope' context' path (.mapping body) = (do
        let inner ← outputOf c' none scope' (some key) (path ++ [key]) body
        return ⟨"", (inner.close scope' (scope' = c'.placeholder)).map (rule b.media)⟩) ∧
      SameVerdict (outputOf c none scope context (path ++ [key]) body)
        (outputOf c' none scope' (some key) (path ++ [key]) body) := by
  have hkind' : classify c' key (.mapping body) = .breakpoint := h.classify_eq key _ ▸ hkind
  have hhas := has_of_classify hkind'
  obtain ⟨b, hb⟩ := Registry.has_iff_get.mp hhas
  exact ⟨b, hb, outputAt_of_merged hkind hmerged, outputAt_of_wrapped hkind' hwrapped hb,
    sameVerdict_outputOf h hcontext (Registry.admits_some hhas) body none _ scope scope'⟩

/-- In `tablet` the standard configuration merges `small`, and a registry without inheritance wraps
it. -/
example :
    outputOf .standard none ".a" (some "tablet") [] [("small", .mapping [("color", .text "red")])] =
        .ok ⟨"color:red;", []⟩ ∧
      outputOf flatConfig none ".a" (some "tablet") [] [("small", .mapping [("color", .text "red")])] =
        .ok ⟨"", ["@media all\x7b.a\x7bcolor:red;\x7d\x7d"]⟩ :=
  ⟨rfl, rfl⟩

end Calls

end StyleTree
