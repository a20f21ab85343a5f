import StyleTree.Breakpoint.Basic

/-!
# Breakpoint registries

A registry is a list of breakpoints with distinct names, each inheriting from breakpoints of the
list only. Inheritance is a look-up in the list of parents and not transitive: `print` inherits from
`tablet` and not from what `tablet` inherits from. A mobile-only breakpoint neither inherits nor is
inherited.
-/

namespace StyleTree

/-- A name that no breakpoint of the registry has. -/
structure UnknownBreakpoint where
  name : String
  deriving DecidableEq, Repr

def UnknownBreakpoint.message (u : UnknownBreakpoint) : String :=
  s!"Unknown breakpoint: {Text.quoted u.name}"

namespace Registry

def findIn? (bs : List Breakpoint) (name : String) : Option Breakpoint :=
  bs.find? fun b => b.name == name

/-- The first breakpoint whose name has been used before. -/
def duplicate? (seen : List String) : List Breakpoint → Option BreakpointFault
  | [] => none
  | b :: rest =>
    if b.name ∈ seen then some (.duplicate b.name) else duplicate? (b.name :: seen) rest

def parentFault? (bs : List Breakpoint) (name parent : String) : Option BreakpointFault :=
  if parent = name then some (.inheritsItself name)
  else match findIn? bs parent with
    | none => some (.inheritsUnknown name parent)
    | some p => if p.mobileOnly then some (.inheritsMobileOnly name parent) else none

def inheritanceFault? (bs : List Breakpoint) (b : Breakpoint) : Option BreakpointFault :=
  if b.mobileOnly ∧ b.inheritsFrom ≠ [] then some (.mobileOnlyInherits b.name)
  else b.inheritsFrom.findSome? (parentFault? bs b.name)

/-- The first fault of a list of breakpoints: names first, then inheritance. -/
def fault? (bs : List Breakpoint) : Option BreakpointFault :=
  (duplicate? [] bs).or (bs.findSome? (inheritanceFault? bs))

end Registry

structure Registry where
  toList : List Breakpoint
  sound : Registry.fault? toList = none
  deriving DecidableEq, Repr

namespace Registry

def ofList (bs : List Breakpoint) : Except BreakpointFault Registry :=
  match h : fault? bs with
  | some fault => .error fault
  | none => .ok ⟨bs, h⟩

/-- The registry used where no other is given. -/
def standard : Registry where
  toList :=
    [{ name := "mobile", predicate := "only screen and (max-width: 575px)", mobileOnly := true },
     { name := "small", predicate := "only screen and (min-width: 576px)" },
     { name := "tablet", predicate := "print, only screen and (min-width: 768px)",
       inheritsFrom := ["small"] },
     { name := "large", predicate := "only screen and (min-width: 992px)",
       inheritsFrom := ["tablet", "small"] },
     { name := "xlarge", predicate := "only screen and (min-width: 1200px)",
       inheritsFrom := ["large", "tablet", "small"] },
     { name := "print", predicate := "print", inheritsFrom := ["tablet"] }]
  sound := by decide

def names (r : Registry) : List String :=
  r.toList.map Breakpoint.name

def has (r : Registry) (name : String) : Bool :=
  r.names.contains name

def get (r : Registry) (name : String) : Except UnknownBreakpoint Breakpoint :=
  match findIn? r.toList name with
  | some b => .ok b
  | none => .error ⟨name⟩

theorem get_eq_ok {r : Registry} {name : String} {b : Breakpoint} :
    r.get name = .ok b ↔ findIn? r.toList name = some b := by
  unfold get
  cases findIn? r.toList name <;> simp

/-- The look-up succeeds for exactly the names of the registry. -/
theorem has_iff_get {r : Registry} {name : String} :
    r.has name = true ↔ ∃ b, r.get name = .ok b := by
  simp only [has, names, get_eq_ok, findIn?, List.contains_eq_mem, List.mem_map, decide_eq_true_eq]
  rw [← Option.isSome_iff_exists, List.find?_isSome]
  simp

/-- The breakpoints whose styles apply at `name`: itself and its parents. -/
def visibleAt (r : Registry) (name : String) : Except UnknownBreakpoint (List String) := do
  let b ← r.get name
  return b.name :: b.inheritsFrom

/-- Being inside `context` already guarantees that `name` applies. -/
def implies (r : Registry) (context : Option String) (name : String) :
    Except UnknownBreakpoint Bool :=
  match context with
  | none => .ok false
  | some context => do
    let visible ← r.visibleAt context
    return visible.contains name

end Registry

end StyleTree
