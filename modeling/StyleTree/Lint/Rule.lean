import StyleTree.Entry
import StyleTree.Lint.Finding

/-!
# Rules

A rule looks at the entries of a tree one by one. The structural rules report what keeps a tree from
being compiled, as errors; the advisory ones report what is likely a mistake, as warnings.
-/

namespace StyleTree.Lint

structure Rule where
  name : String
  /-- What the rule reports about one entry. -/
  check : Config → Entry → List Diagnostic

/-- A rule given by its findings and their locations. -/
def Rule.ofFindings (name : String) (find : Config → Entry → List (Path × Finding)) : Rule :=
  ⟨name, fun c e => (find c e).map (Finding.report name)⟩

/-- What the rule reports about a tree. -/
def Rule.run (rule : Rule) (c : Config) (tree : Mapping) : List Diagnostic :=
  (entries c tree []).flatMap (rule.check c)

/-! ## Structural rules -/

/-- The specs under `key` in the node at `path`: one mapping, or the mappings among the items of a
list or a tuple. -/
def rawSpecs (key : String) (path : Path) (v : Value) : List (Path × Mapping) :=
  match v with
  | .mapping raw => [(path ++ [key], raw)]
  | v =>
    match v.items? with
    | some items => items.zipIdx.filterMap fun (item, index) =>
      match item with
      | .mapping raw => some (path ++ [Path.itemStep key index], raw)
      | _ => none
    | none => []

/-- The specs of an entry. -/
def entrySpecs (e : Entry) : List (Path × Mapping) :=
  rawSpecs e.key e.path.dropLast e.value

def specFindings (kind : SpecKind) (e : Entry) : List (Path × Finding) :=
  if !e.value.isNested then [(e.path, .specShape e.key)]
  else if e.value.sequence?.any List.isEmpty then [(e.path, .specEmpty e.key)]
  else (entrySpecs e).filterMap fun (path, raw) =>
    match kind.fieldText? raw with
    | some _ => none
    | none => some (path, .specField e.key kind.field)

/-- Every modifier spec needs a name. -/
def modifierSpecs : Rule :=
  .ofFindings "check_modifier_specs" fun _ e =>
    if e.kind = .modifier then specFindings .modifier e else []

/-- Every child spec needs a selector. -/
def childSpecs : Rule :=
  .ofFindings "check_child_specs" fun _ e =>
    if e.kind = .child then specFindings .child e else []

def paramFindings (e : Entry) (pseudo : Pseudo) (body : Mapping) : List (Path × Finding) :=
  let unused (param : String) : List (Path × Finding) :=
    if pseudo.parameterized then [] else [(e.path, .paramUnused e.key pseudo.suffix param)]
  match body.get? Pseudo.paramKey with
  | none | some .null => if pseudo.parameterized then [(e.path, .paramMissing e.key)] else []
  | some (.text param) => unused param
  | some (.number param) => unused param.literal
  | some _ => [(e.path ++ [Pseudo.paramKey], .paramType)]

/-- A parameterized pseudo key needs a parameter, and another one should have none. -/
def pseudoParams : Rule :=
  .ofFindings "check_pseudo_params" fun _ e =>
    match e.kind, e.value, Pseudo.ofKey? e.key with
    | .pseudo, .mapping body, some pseudo => paramFindings e pseudo body
    | _, _, _ => []

/-- Blocks stand only under keys that open one. -/
def nestedUnknown : Rule :=
  .ofFindings "check_nested_unknown" fun c e =>
    if e.kind = .property ∧ e.value.isNested then
      [(e.path, .nestedBlock e.key c.modifierKey c.childKey)]
    else []

def valueFindings (c : Config) (property : String) : Value → Option Finding
  | .text _ => none
  | .number n =>
    if property ∈ c.nonNumeric then some (.bareNumber property)
    else if !n.isFinite then some (.nonFinite property n)
    else none
  | v => some (.unsupportedType property v.typeName)

/-- A declaration takes a text, or a number that its property accepts. -/
def numericValues : Rule :=
  .ofFindings "check_numeric_values" fun c e =>
    if e.kind = .property ∧ !e.value.isNested then
      (valueFindings c (Property.name e.key) e.value).toList.map (e.path, ·)
    else []

/-! ## Advisory rules -/

/-- The keys of a block other than `consumed`. -/
def isEmptyBody (consumed : String) (body : Mapping) : Bool :=
  body.all fun entry => entry.1 == consumed

/-- The blocks that an entry opens, each with the key that is not counted as content. -/
def openedBlocks (e : Entry) : List (Path × Mapping × String) :=
  match e.kind, e.value with
  | .modifier, _ => (entrySpecs e).map fun (path, raw) => (path, raw, SpecKind.modifier.field)
  | .child, _ => (entrySpecs e).map fun (path, raw) => (path, raw, SpecKind.child.field)
  | .pseudo, .mapping body => [(e.path, body, Pseudo.paramKey)]
  | .breakpoint, .mapping body => [(e.path, body, Pseudo.paramKey)]
  | _, _ => []

/-- A block without content gives no rule. -/
def emptyBlocks : Rule :=
  .ofFindings "check_empty_blocks" fun _ e =>
    (openedBlocks e).filterMap fun (path, body, consumed) =>
      if isEmptyBody consumed body then some (path, .emptyBlock) else none

def contentKeywords : List String :=
  ["none", "normal", "open-quote", "close-quote", "no-open-quote", "no-close-quote", "inherit",
   "initial", "unset"]

/-- The text is quoted, a keyword, or holds a function. -/
def isContentValue (s : String) : Bool :=
  let trimmed := Text.trim s
  let first := trimmed.toList.head?
  first == some '\'' || first == some '"' || contentKeywords.contains trimmed ||
    trimmed.toList.contains '('

/-- A text for `content` is written as it stands and mostly needs quotes. -/
def contentQuotes : Rule :=
  .ofFindings "check_content_quotes" fun _ e =>
    match e.kind, e.value with
    | .property, .text s =>
      if Property.name e.key = "content" ∧ !isContentValue s then [(e.path, .unquotedContent s)]
      else []
    | _, _ => []

/-- The built-in rules, in the order in which they run. -/
def builtin : List Rule :=
  [modifierSpecs, childSpecs, pseudoParams, nestedUnknown, numericValues, emptyBlocks,
   contentQuotes]

end StyleTree.Lint
