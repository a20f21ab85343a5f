import StyleTree.Text.CamelCase

/-!
# Pseudo-classes and pseudo-elements

The keys that stand for a pseudo-class or a pseudo-element. A parameterized one takes a parameter
in parentheses behind its name; a parameter given to another one is written all the same.
-/

namespace StyleTree

structure Pseudo where
  name : String
  /-- A pseudo-element, written with two colons. -/
  element : Bool
  parameterized : Bool
  deriving DecidableEq, Repr

namespace Pseudo

/-- The key under which a pseudo block keeps its parameter. -/
def paramKey : String := "param"

def suffix (p : Pseudo) : String :=
  (if p.element then "::" else ":") ++ p.name

/-- The suffix with the parameter, if one is given. -/
def suffixWith (p : Pseudo) : Option String → String
  | none => p.suffix
  | some param => p.suffix ++ "(" ++ param ++ ")"

/-- The keys of the pseudo-classes without parameter: states, then places in the document. -/
def classes : List String :=
  ["hover", "focus", "focusWithin", "focusVisible", "active", "visited", "link", "target",
   "disabled", "enabled", "checked", "required", "optional", "invalid", "valid", "readOnly",
   "placeholderShown", "root", "empty", "firstChild", "lastChild", "onlyChild", "firstOfType",
   "lastOfType", "onlyOfType"]

/-- The keys of the pseudo-classes with a parameter. -/
def functions : List String :=
  ["nthChild", "nthLastChild", "nthOfType", "nthLastOfType", "not", "is", "where", "has", "lang",
   "dir"]

def elements : List String :=
  ["before", "after", "placeholder", "selection", "firstLetter", "firstLine", "marker",
   "backdrop"]

/-- All keys, each with what it stands for; the name is the hyphenated key. -/
def table : List (String × Pseudo) :=
  classes.map (fun key => (key, ⟨Text.hyphenate key, false, false⟩)) ++
    functions.map (fun key => (key, ⟨Text.hyphenate key, false, true⟩)) ++
    elements.map (fun key => (key, ⟨Text.hyphenate key, true, false⟩))

def ofKey? (key : String) : Option Pseudo :=
  table.lookup key

end Pseudo

end StyleTree
