import StyleTree.Sheet

/-!
# Compiling a style tree

A tree is compiled for a selector scope inside a media context. The scope is the placeholder where
none is given or the given one is empty. An unknown media context is reported before the tree is
looked at.
-/

namespace StyleTree

namespace Config

def setting (c : Config) : Setting :=
  ⟨c.breakpoints, c.placeholder⟩

/-- The scope that is meant by an optional selector. -/
def scopeOf (c : Config) : Option String → String
  | none => c.placeholder
  | some scope => if scope = "" then c.placeholder else scope

/-- A media context is absent or names a breakpoint of the configuration. -/
def checkContext (c : Config) : Option String → Except CompileError Unit
  | none => .ok ()
  | some name => if c.breakpoints.has name then .ok () else .error (.unknownMedia name)

end Config

/-- The items of a whole tree. -/
def checkedTree (c : Config) : Value → Except CompileError (List Item)
  | .mapping tree => itemsOf c none [] tree
  | v => malformedAt [] (.rootNotMapping v.typeName)

def compileSheet (c : Config) (tree : Value) (scope context : Option String) :
    Except CompileError Sheet := do
  c.checkContext context
  let items ← checkedTree c tree
  (sheetOf c.setting (c.scopeOf scope) context items).mapError .unknownBreakpoint

def compile (c : Config) (tree : Value) (scope context : Option String) :
    Except CompileError Output :=
  (compileSheet c tree scope context).map Sheet.render

/-- The body of a host rule. -/
def css (c : Config) (tree : Value) : Except CompileError String :=
  (compile c tree none none).map Output.css

/-- Compiles for `selector` as the outermost scope, which may not be blank. -/
def compileRoot (c : Config) (selector : String) (tree : Value) : Except CompileError Output :=
  if Text.isBlank selector then .error .blankSelector else compile c tree (some selector) none

/-- A style sheet of its own, with `selector` as the outermost scope. -/
def stylesheet (c : Config) (selector : String) (tree : Value) : Except CompileError String :=
  (compileRoot c selector tree).map (Output.standalone selector)

end StyleTree
