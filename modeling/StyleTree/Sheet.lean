import StyleTree.Item

/-!
# Sheets

A sheet is what a scope comes to: the declarations of the scope itself, and blocks for every scope
inside it. A block has a selector, declarations, and the breakpoints around it, outermost first.
Scopes extend the selector of the scope around them. A breakpoint block keeps the selector and wraps
its blocks, unless the media context already implies the breakpoint: then it is merged into the
scope around it, and the context stays.
-/

namespace StyleTree

structure Block where
  media : List Breakpoint
  selector : String
  /-- The declarations stand directly in the innermost media rule, without the selector. -/
  bare : Bool
  declarations : List Declaration
  deriving DecidableEq, Repr

structure Sheet where
  declarations : List Declaration
  blocks : List Block
  deriving DecidableEq, Repr

namespace Block

/-- The block wrapped in a media rule. -/
def within (b : Breakpoint) (block : Block) : Block :=
  { block with media := b :: block.media }

/-- The block of a scope's own declarations; a scope without any has none. -/
def own (selector : String) (bare : Bool) (ds : List Declaration) : List Block :=
  if ds.isEmpty then [] else [⟨[], selector, bare, ds⟩]

end Block

namespace Sheet

def empty : Sheet :=
  ⟨[], []⟩

def append (a b : Sheet) : Sheet :=
  ⟨a.declarations ++ b.declarations, a.blocks ++ b.blocks⟩

instance : Append Sheet :=
  ⟨append⟩

@[simp] theorem declarations_append (a b : Sheet) :
    (a ++ b).declarations = a.declarations ++ b.declarations := rfl

@[simp] theorem blocks_append (a b : Sheet) : (a ++ b).blocks = a.blocks ++ b.blocks := rfl

theorem empty_append (a : Sheet) : empty ++ a = a := rfl

theorem append_empty (a : Sheet) : a ++ empty = a := by
  obtain ⟨ds, blocks⟩ := a
  show (⟨ds ++ [], blocks ++ []⟩ : Sheet) = ⟨ds, blocks⟩
  simp

theorem append_assoc (a b c : Sheet) : a ++ b ++ c = a ++ (b ++ c) := by
  show Sheet.mk _ _ = Sheet.mk _ _
  simp

/-- The blocks of a scope with its own declarations in front. -/
def close (selector : String) (bare : Bool) (s : Sheet) : List Block :=
  Block.own selector bare s.declarations ++ s.blocks

end Sheet

/-- What the selectors and media rules of a compilation are taken from. -/
structure Setting where
  registry : Registry
  /-- Declarations of the scope with this selector stand bare in a media rule. -/
  placeholder : String
  deriving DecidableEq, Repr

mutual

/-- The sheet of the items of a scope. -/
def sheetOf (g : Setting) (scope : String) (context : Option String) :
    List Item → Except UnknownBreakpoint Sheet
  | [] => .ok .empty
  | item :: rest => do
    let first ← sheetOfItem g scope context item
    let others ← sheetOf g scope context rest
    return first ++ others

def sheetOfItem (g : Setting) (scope : String) (context : Option String) :
    Item → Except UnknownBreakpoint Sheet
  | .declaration d => .ok ⟨[d], []⟩
  | .scope suffix body => do
    let inner ← sheetOf g (scope ++ suffix) context body
    return ⟨[], inner.close (scope ++ suffix) false⟩
  | .media name body => do
    if ← g.registry.implies context name then sheetOf g scope context body
    else
      let inner ← sheetOf g scope (some name) body
      let b ← g.registry.get name
      return ⟨[], (inner.close scope (scope = g.placeholder)).map (.within b)⟩

end

section

variable (g : Setting) (scope : String) (context : Option String)

theorem sheetOf_singleton (item : Item) :
    sheetOf g scope context [item] = sheetOfItem g scope context item := by
  rw [sheetOf, sheetOf]
  cases sheetOfItem g scope context item with
  | error u => rfl
  | ok s => exact congrArg Except.ok s.append_empty

theorem sheetOf_append (before after : List Item) :
    sheetOf g scope context (before ++ after) = do
      let first ← sheetOf g scope context before
      let others ← sheetOf g scope context after
      return first ++ others := by
  induction before with
  | nil =>
    rw [List.nil_append, sheetOf]
    cases sheetOf g scope context after <;> rfl
  | cons item rest ih =>
    rw [List.cons_append, sheetOf, ih, sheetOf]
    cases sheetOfItem g scope context item with
    | error u => rfl
    | ok first =>
      cases sheetOf g scope context rest with
      | error u => rfl
      | ok others =>
        cases sheetOf g scope context after with
        | error u => rfl
        | ok last => exact congrArg Except.ok (first.append_assoc others last).symm

end

/-! ## Style sheets as text -/

/-- The text of a compiled scope: its declarations, and the rules of the scopes inside it. -/
structure Output where
  declarations : String
  rules : List String
  deriving DecidableEq, Repr

/-- A rule with what it starts with and what its braces hold. -/
def rule (head body : String) : String :=
  head ++ "\x7b" ++ body ++ "\x7d"

namespace Block

def core (b : Block) : String :=
  let body := renderDeclarations b.declarations
  if b.bare then body else rule b.selector body

def render (b : Block) : String :=
  b.media.foldr (fun breakpoint inner => rule breakpoint.media inner) b.core

end Block

namespace Sheet

def render (s : Sheet) : Output :=
  ⟨renderDeclarations s.declarations, s.blocks.map Block.render⟩

end Sheet

namespace Output

def isEmpty (o : Output) : Bool :=
  o.declarations == "" && o.rules.isEmpty

/-- The declarations followed by every rule, for the body of a host rule. -/
def css (o : Output) : String :=
  o.declarations ++ String.join o.rules

/-- The declarations as a rule of their own, followed by every rule. -/
def standalone (selector : String) (o : Output) : String :=
  (if o.declarations = "" then "" else rule selector o.declarations) ++ String.join o.rules

end Output

end StyleTree
