import StyleTree.Fault
import StyleTree.Text.Blank

/-!
# Modifier and child specs

A spec is a mapping that opens a scope of its own: a modifier the elements of a class, a child the
descendants that a selector picks. One field of the mapping, `name` or `selector`, says which; the
rest is the body. A key holds one spec or a sequence of them, of any type.
-/

namespace StyleTree

inductive SpecKind where
  | modifier
  | child
  deriving DecidableEq, Repr

/-- A spec as it is compiled: its label, its body without the field of the label, its location. -/
structure Spec where
  label : String
  body : Mapping
  path : Path
  deriving Repr

namespace SpecKind

/-- The field of a spec that holds its label. -/
def field : SpecKind → String
  | modifier => "name"
  | child => "selector"

/-- The label that the text of the field stands for. A class name loses the blanks around it and
then the dots in front; a selector is kept as it stands. -/
def labelOf : SpecKind → String → String
  | modifier, s => String.ofList ((Text.trim s).toList.dropWhile (· = '.'))
  | child, s => s

/-- What a label adds to the selector of the scope around it. -/
def suffix : SpecKind → String → String
  | modifier, label => "." ++ label
  | child, label => " " ++ label

/-- The text in the field of the label, if it is a text and not blank. -/
def fieldText? (kind : SpecKind) (raw : Mapping) : Option String :=
  match raw.get? kind.field with
  | some (.text s) => if Text.isBlank s then none else some s
  | _ => none

def spec (kind : SpecKind) (path : Path) (raw : Mapping) : Except Fault Spec :=
  match kind.fieldText? raw with
  | some s => .ok ⟨kind.labelOf s, raw.without kind.field, path⟩
  | none => .error ⟨.specField kind.field, path⟩

/-- The specs among the items of a sequence under `key`, numbered from `index` on. -/
def specItems (kind : SpecKind) (key : String) (path : Path) (index : Nat) :
    List Value → Except Fault (List Spec)
  | [] => .ok []
  | .mapping raw :: rest => do
    let first ← kind.spec (path ++ [Path.itemStep key index]) raw
    let others ← kind.specItems key path (index + 1) rest
    return first :: others
  | _ :: rest => kind.specItems key path (index + 1) rest

/-- The specs that `key` holds in the node at `path`. An empty sequence is a fault, and so is a
sequence with an item that is no mapping. -/
def specs (kind : SpecKind) (key : String) (path : Path) (v : Value) : Except Fault (List Spec) :=
  let shape : Fault := ⟨.specShape key v.typeName, path ++ [key]⟩
  match v with
  | .mapping raw => do
    let only ← kind.spec (path ++ [key]) raw
    return [only]
  | .list [] | .tuple [] | .sequence _ [] => .error ⟨.emptySpecs key, path ++ [key]⟩
  | .list items | .tuple items | .sequence _ items =>
    if items.all Value.isMapping then kind.specItems key path 0 items else .error shape
  | _ => .error shape

end SpecKind

end StyleTree
