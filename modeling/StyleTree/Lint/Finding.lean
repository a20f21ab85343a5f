import StyleTree.Lint.Diagnostic
import StyleTree.Pseudo
import StyleTree.Value

/-!
# What the rules find

Every finding of the built-in rules, with its severity, its message and the way to mend it.
-/

namespace StyleTree.Lint

inductive Finding where
  | specShape (key : String)
  | specEmpty (key : String)
  | specField (key field : String)
  | paramMissing (key : String)
  | paramType
  /-- A parameter stands where none is expected. -/
  | paramUnused (key suffix param : String)
  | nestedBlock (key modifierKey childKey : String)
  | unsupportedType (property typeName : String)
  | bareNumber (property : String)
  | nonFinite (property : String) (value : Number)
  | emptyBlock
  | unquotedContent (text : String)
  deriving DecidableEq, Repr

namespace Finding

def severity : Finding → Severity
  | paramUnused .. | emptyBlock | unquotedContent _ => .warning
  | _ => .error

def message : Finding → String
  | specShape key => s!"'{key}' must be a mapping or a list of mappings."
  | specEmpty key => s!"'{key}' is an empty list and produces no rule."
  | specField key field => s!"'{key}' spec has no '{field}'."
  | paramMissing key => s!"'{key}' requires a 'param' value."
  | paramType => "'param' must be a string or number."
  | paramUnused key suffix param =>
    s!"'{key}' does not take a parameter; '{suffix}({param})' will be emitted."
  | nestedBlock key modifierKey childKey =>
    s!"'{key}' is not a pseudo, breakpoint, '{modifierKey}' or '{childKey}' key " ++
      "but holds a nested block."
  | unsupportedType property typeName => s!"Unsupported value type {typeName} for '{property}'."
  | bareNumber property => s!"'{property}' does not accept a bare number."
  | nonFinite property value => s!"'{property}' has a non-finite value ({value.literal})."
  | emptyBlock => "Nested block is empty and produces no CSS."
  | unquotedContent text => s!"content value {Text.quoted text} is not quoted."

def fix : Finding → Option String
  | specEmpty key => some s!"Remove '{key}' or add at least one spec."
  | specField _ field => some s!"Add a non-empty '{field}' string to the spec."
  | paramMissing _ => some "Add e.g. 'param': '2n+1'."
  | paramUnused .. => some "Remove 'param'."
  | bareNumber _ => some "Pass the value as a string."
  | unquotedContent text => some s!"Use '\"{text}\"' to emit a literal string."
  | _ => none

/-- The finding of a rule at a location, as it is reported. -/
def report (rule : String) (found : Path × Finding) : Diagnostic :=
  { rule
    severity := found.2.severity
    message := found.2.message
    path := found.1
    fix := found.2.fix }

end Finding

end StyleTree.Lint
