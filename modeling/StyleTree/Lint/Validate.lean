import StyleTree.Lint.Rule

/-!
# Validation

Validation runs every rule over a tree and keeps what they report, rule by rule. It fails when
something reported is an error.
-/

namespace StyleTree.Lint

/-- What all rules report, the built-in ones first. -/
def validate (c : Config) (tree : Mapping) (extra : List Rule) : List Diagnostic :=
  (builtin ++ extra).flatMap fun rule => rule.run c tree

/-- The errors of a tree that is not valid. -/
structure Invalid where
  errors : List Diagnostic
  deriving DecidableEq, Repr

def Invalid.message (i : Invalid) : String :=
  s!"Validation failed with {i.errors.length} error(s): " ++
    "; ".intercalate (i.errors.map Diagnostic.render)

/-- The diagnostics of a tree without errors. -/
def validated (c : Config) (tree : Mapping) (extra : List Rule) :
    Except Invalid (List Diagnostic) :=
  let all := validate c tree extra
  let errors := all.filter Diagnostic.isError
  if errors.isEmpty then .ok all else .error ⟨errors⟩

end StyleTree.Lint
