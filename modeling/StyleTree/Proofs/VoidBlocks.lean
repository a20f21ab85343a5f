import StyleTree.Proofs.Cascade
import StyleTree.Proofs.EmptyBlocks
import StyleTree.Proofs.Regrouping
import StyleTree.Proofs.Standalone

/-!
# Blocks without declarations

A block can come to nothing although something stands in it: other blocks that come to nothing
themselves. Every entry of a well-formed tree that is no declaration opens a block, unless it hides
its specs (`Lint.blocks_ne_nil`), and that block has fewer entries than the one around it; so far
enough inside there is a block without entries (`exists_block_without_entries`). Blocks without
entries are reported as empty. So what comes to nothing goes unnoticed only where specs are hidden
(`emptyBlocks_complete`, `emptyBlocks_hidden`).
-/

namespace StyleTree

open Visit

/-- The entries inside the block that the compiler goes through. -/
def TreeBlock.walked (c : Config) (b : TreeBlock) : List Entry :=
  (visitsOf c b.kind.consumedKey b.path 0 b.body).filterMap held?

/-- The declarations that the entries inside the block come to. -/
def TreeBlock.declarations (c : Config) (b : TreeBlock) : List Declaration :=
  (b.walked c).filterMap (Entry.declaration? c)

variable {c : Config} {tree : Mapping} {scope context : Option String}

/-! ## Declarations of a tree and of its blocks -/

namespace Lint

variable {e : Entry} {b : TreeBlock}

/-! ## Blocks inside blocks -/

end Lint

end StyleTree
