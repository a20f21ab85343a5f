import StyleTree.Number.Basic
import StyleTree.Text.Quoted

/-!
# Values of a style tree

A style tree is a value whose nodes are mappings: keys in order, each with a value. The keys of a
mapping are distinct. A scalar can stand as the value of a declaration; a mapping, or a sequence
of mappings, holds nested blocks; nothing else has a meaning in a style sheet.
-/

namespace StyleTree

inductive Value where
  | null
  | flag (value : Bool)
  | number (value : Number)
  | text (value : String)
  | bytes (data : List UInt8)
  | list (items : List Value)
  | tuple (items : List Value)
  /-- A sequence of another type than list and tuple, such as a queue. -/
  | sequence (type : String) (items : List Value)
  | mapping (entries : List (String × Value))
  deriving Repr, Inhabited

/-- The entries of a mapping, in order. -/
abbrev Mapping := List (String × Value)

namespace Mapping

def get? (m : Mapping) (key : String) : Option Value :=
  m.lookup key

def without (m : Mapping) (key : String) : Mapping :=
  m.filter fun entry => entry.1 != key

end Mapping

namespace Value

/-- The name of the value's type, as messages give it. -/
def typeName : Value → String
  | null => "NoneType"
  | flag _ => "bool"
  | number (.int _) => "int"
  | number (.float _) => "float"
  | text _ => "str"
  | bytes _ => "bytes"
  | list _ => "list"
  | tuple _ => "tuple"
  | sequence type _ => type
  | mapping _ => "dict"

def isScalar : Value → Bool
  | number _ => true
  | text _ => true
  | _ => false

def isMapping : Value → Bool
  | mapping _ => true
  | _ => false

/-- The items of a list or a tuple. -/
def items? : Value → Option (List Value)
  | list items => some items
  | tuple items => some items
  | _ => none

/-- The items of a sequence, a list or a tuple or one of another type. -/
def sequence? : Value → Option (List Value)
  | list items => some items
  | tuple items => some items
  | sequence _ items => some items
  | _ => none

/-- A sequence that holds only mappings, as the empty one does. -/
def isMappingSequence (v : Value) : Bool :=
  match v.sequence? with
  | some items => items.all isMapping
  | none => false

/-- The value holds nested blocks. -/
def isNested (v : Value) : Bool :=
  v.isMapping || v.isMappingSequence

/-- False for null, false, zero and what is empty. -/
def isTruthy : Value → Bool
  | null => false
  | flag value => value
  | number value => value.isNonzero
  | text value => value != ""
  | bytes data => !data.isEmpty
  | list items => !items.isEmpty
  | tuple items => !items.isEmpty
  | sequence _ items => !items.isEmpty
  | mapping entries => !entries.isEmpty

/-- The text of a value that is neither a block nor a sequence. -/
def display? : Value → Option String
  | null => some "None"
  | flag value => some (if value then "True" else "False")
  | number value => some value.literal
  | text value => some (Text.quoted value)
  | _ => none

end Value

end StyleTree
