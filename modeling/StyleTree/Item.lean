import StyleTree.CompileError
import StyleTree.KeyKind

/-!
# Checked style trees

A checked tree holds what the entries of a style tree come to: declarations, scopes that extend the
selector by a suffix, and blocks for a breakpoint. Whether a tree is well formed is settled here,
before any selector or media rule is known.
-/

namespace StyleTree

inductive Item where
  | declaration (d : Declaration)
  | scope (suffix : String) (body : List Item)
  | media (name : String) (body : List Item)
  deriving Repr

/-- The declaration that an entry of the node at `path` comes to. -/
def declarationOf (c : Config) (key : String) (path : Path) (v : Value) :
    Except CompileError Declaration :=
  if v.isNested then malformedAt (path ++ [key]) (.nestedBlock key c.modifierKey c.childKey)
  else
    let property := Property.name key
    match c.write property v with
    | .ok written => .ok ⟨property, written⟩
    | .error reason => malformedAt (path ++ [key]) reason

/-- The suffix of a pseudo block, with its parameter. -/
def pseudoSuffix (key : String) (path : Path) (body : Mapping) : Except CompileError String :=
  match Pseudo.ofKey? key with
  | none => .error (.unknownPseudo key)
  | some pseudo =>
    match body.get? Pseudo.paramKey with
    | none | some .null =>
      if pseudo.parameterized then malformedAt (path ++ [key]) (.paramMissing key)
      else .ok (pseudo.suffixWith none)
    | some (.text param) => .ok (pseudo.suffixWith (some param))
    | some (.number param) => .ok (pseudo.suffixWith (some param.text))
    | some v => malformedAt (path ++ [key, Pseudo.paramKey]) (.paramType v.typeName)

mutual

/-- The items of a node at `path`, without the key that its block uses up. -/
def itemsOf (c : Config) (consumed : Option String) (path : Path) :
    Mapping → Except CompileError (List Item)
  | [] => .ok []
  | (key, v) :: rest =>
    if consumed = some key then itemsOf c consumed path rest
    else do
      let first ← itemsAt c key path v
      let others ← itemsOf c consumed path rest
      return first ++ others

/-- The items of the entry `key: v` of the node at `path`. The specs of a sequence are all checked
before the body of any of them. -/
def itemsAt (c : Config) (key : String) (path : Path) :
    Value → Except CompileError (List Item)
  | .mapping body =>
    match classify c key (.mapping body) with
    | .property => do
      let d ← declarationOf c key path (.mapping body)
      return [.declaration d]
    | .pseudo => do
      let suffix ← pseudoSuffix key path body
      let inner ← itemsOf c (some Pseudo.paramKey) (path ++ [key]) body
      return [.scope suffix inner]
    | .breakpoint => do
      let inner ← itemsOf c none (path ++ [key]) body
      return [.media key inner]
    | .modifier => do
      let spec ← (SpecKind.modifier.spec (path ++ [key]) body).mapError .malformed
      let inner ← itemsOf c (some SpecKind.modifier.field) spec.path body
      return [.scope (SpecKind.modifier.suffix spec.label) inner]
    | .child => do
      let spec ← (SpecKind.child.spec (path ++ [key]) body).mapError .malformed
      let inner ← itemsOf c (some SpecKind.child.field) spec.path body
      return [.scope (SpecKind.child.suffix spec.label) inner]
  | .list items =>
    match (classify c key (.list items)).specKind? with
    | some kind => do
      let specs ← (kind.specs key path (.list items)).mapError .malformed
      scopesOf c kind specs items
    | none => do
      let d ← declarationOf c key path (.list items)
      return [.declaration d]
  | .tuple items =>
    match (classify c key (.tuple items)).specKind? with
    | some kind => do
      let specs ← (kind.specs key path (.tuple items)).mapError .malformed
      scopesOf c kind specs items
    | none => do
      let d ← declarationOf c key path (.tuple items)
      return [.declaration d]
  | .sequence type items =>
    match (classify c key (.sequence type items)).specKind? with
    | some kind => do
      let specs ← (kind.specs key path (.sequence type items)).mapError .malformed
      scopesOf c kind specs items
    | none => do
      let d ← declarationOf c key path (.sequence type items)
      return [.declaration d]
  | v =>
    match (classify c key v).specKind? with
    | some kind => do
      let _ ← (kind.specs key path v).mapError CompileError.malformed
      return []
    | none => do
      let d ← declarationOf c key path v
      return [.declaration d]

/-- The scopes of the specs that the items of a sequence have been read as. -/
def scopesOf (c : Config) (kind : SpecKind) :
    List Spec → List Value → Except CompileError (List Item)
  | spec :: specs, .mapping body :: rest => do
    let inner ← itemsOf c (some kind.field) spec.path body
    let others ← scopesOf c kind specs rest
    return .scope (kind.suffix spec.label) inner :: others
  | _, _ => .ok []

end

end StyleTree
