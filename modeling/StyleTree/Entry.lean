import StyleTree.KeyKind

/-!
# Entries of a style tree

The entries of a tree are its pairs of key and value at every depth, each before the entries of its
own block, in the order of the tree. The walk goes into every block, malformed or not; of a list or
tuple of specs it takes the items that are mappings. It does not go into the specs that a sequence
of another type holds, though these are compiled, too.
-/

namespace StyleTree

structure Entry where
  path : Path
  key : String
  value : Value
  kind : KeyKind
  deriving Repr

mutual

/-- The entries of a node at `path`, without the key that its block uses up. -/
def entriesOf (c : Config) (consumed : Option String) (path : Path) : Mapping → List Entry
  | [] => []
  | (key, v) :: rest =>
    if consumed = some key then entriesOf c consumed path rest
    else
      ⟨path ++ [key], key, v, classify c key v⟩ ::
        (entriesBelow c key path v ++ entriesOf c consumed path rest)

/-- The entries of the block or blocks that `key` holds in the node at `path`. -/
def entriesBelow (c : Config) (key : String) (path : Path) : Value → List Entry
  | .mapping body =>
    match classify c key (.mapping body) with
    | .property => []
    | kind => entriesOf c kind.consumedKey (path ++ [key]) body
  | .list items =>
    match (classify c key (.list items)).specKind? with
    | some kind => entriesOfItems c kind key path 0 items
    | none => []
  | .tuple items =>
    match (classify c key (.tuple items)).specKind? with
    | some kind => entriesOfItems c kind key path 0 items
    | none => []
  | _ => []

/-- The entries of the specs among `items`, which stand under `key` and are numbered from `index`
on. -/
def entriesOfItems (c : Config) (kind : SpecKind) (key : String) (path : Path) (index : Nat) :
    List Value → List Entry
  | [] => []
  | .mapping raw :: rest =>
    entriesOf c (some kind.field) (path ++ [Path.itemStep key index]) raw ++
      entriesOfItems c kind key path (index + 1) rest
  | _ :: rest => entriesOfItems c kind key path (index + 1) rest

end

/-- The entries of a tree whose root stands at `path`. -/
def entries (c : Config) (tree : Mapping) (path : Path) : List Entry :=
  entriesOf c none path tree

end StyleTree
