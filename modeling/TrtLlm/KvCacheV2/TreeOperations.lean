import TrtLlm.KvCacheV2.RadixTree

/-!
The operations of the block radix tree (`blockRadixTree.cpp`): blocks are attached, found again
and detached, pages are installed in their slots, move to a longer sibling and are dropped, and
subtrees that a dropped page makes unreachable are removed.

The result of an operation is `none` when one of the checks of the source fails.
-/

namespace TrtLlm.KvCacheV2.BlockRadixTree

variable {Key : Type*} [DecidableEq Key] (keys : KeyScheme Key) (tree : BlockRadixTree Key)

/-! ### Links -/

/-- The children of one node are replaced. -/
def setNext (n : NodeRef Key) (children : UMap Key ℕ) : BlockRadixTree Key :=
  { tree with next := Function.update tree.next n children }

/-- `Block::prev` (and with it `Block::root`) is assigned. -/
def setPrev (id : ℕ) (prev : Option (NodeRef Key)) : BlockRadixTree Key :=
  match tree.blocks.find? id with
  | some block => { tree with blocks := tree.blocks.set id { block with prev := prev } }
  | none => tree

def setStorage (id lcIdx : ℕ) (page : Option ℕ) : BlockRadixTree Key :=
  { tree with storage := fun i lc => if i = id ∧ lc = lcIdx then page else tree.storage i lc }

/-- `CommittedPage::block` is assigned. -/
def setPageBlock (p : ℕ) (id : Option ℕ) : BlockRadixTree Key :=
  match tree.pages.find? p with
  | some page => { tree with pages := tree.pages.set p { page with block := id } }
  | none => tree

def emit (event : TreeEvent Key) : BlockRadixTree Key :=
  { tree with events := tree.events ++ [event] }

/-- `NodeBase::detachNext`. A root that loses its last child is proposed for erasure. -/
def detachNext (n : NodeRef Key) (blockKey : Key) : BlockRadixTree Key :=
  match (tree.next n).find? blockKey with
  | none => tree
  | some id =>
    let detached := ((tree.setPrev id none).setNext n ((tree.next n).erase blockKey)).emit
      (.addRemovedBlock ((tree.keyOf (.block id)).getD blockKey))
    match n with
    | .block _ => detached
    | .root key =>
      if (detached.next n).size = 0 then
        { detached with mPendingRootErases := detached.mPendingRootErases ++ [key] }
      else detached

/-! ### Pages -/

def numTokensInPage (p : ℕ) : ℕ :=
  ((tree.pages.find? p).map CommittedPage.numTokensInBlock).getD 0

/-- `Block::canReplacePage`. -/
def canReplacePage (id lcIdx numTokensInBlock : ℕ) : Bool :=
  (tree.storage id lcIdx).all fun existing => tree.numTokensInPage existing < numTokensInBlock

/-- `Block::unlinkPage`, without an expected page. -/
def unlinkPage (id lcIdx : ℕ) : BlockRadixTree Key :=
  match tree.storage id lcIdx with
  | none => tree
  | some page => (tree.setPageBlock page none).setStorage id lcIdx none

/-- `Block::replacePage`. -/
def replacePage (id lcIdx page : ℕ) : BlockRadixTree Key :=
  ((tree.unlinkPage id lcIdx).setPageBlock page (some id)).setStorage id lcIdx (some page)

/-- One life cycle of `Block::adoptPagesFrom`. -/
def adoptPage (id other : ℕ) (tree : BlockRadixTree Key) (lcIdx : ℕ) : BlockRadixTree Key :=
  match tree.storage other lcIdx with
  | none => tree
  | some page =>
    if tree.canReplacePage id lcIdx (tree.numTokensInPage page) then
      (tree.setStorage other lcIdx none).replacePage id lcIdx page
    else tree

/-- `Block::adoptPagesFrom`. -/
def adoptPagesFrom (id other : ℕ) : BlockRadixTree Key :=
  (List.range tree.mLifeCycles.size).foldl (adoptPage id other) tree

/-! ### Attaching blocks -/

/-- `NodeBase::tokensPerBlock`: of a root that of the tree, of a block the size of its
previous block. -/
def tokensPerBlock : NodeRef Key → ℕ
  | .root _ => tree.mTokensPerBlock
  | .block id =>
    match (tree.blocks.find? id).bind Block.prev with
    | some (.block prev) => (tree.tokensOf prev).length
    | _ => tree.mTokensPerBlock

/-- The checks on a parent: it exists, and a block is attached and full. -/
def checkParent : NodeRef Key → Bool
  | .root key => key ∈ tree.mRoots
  | .block id => (tree.blocks.find? id).any fun block =>
    block.prev.isSome && block.tokens.length = tree.tokensPerBlock (.block id)

section

variable (prev : NodeRef Key)

/-- `getExistingBlock`: the child with this key, or a longer one that covers the tokens. -/
def getExistingBlock (key : Key) (tokens : List TokenIdExt) : Option ℕ :=
  match (tree.next prev).find? key with
  | some id => some id
  | none =>
    if tokens.length < tree.tokensPerBlock prev then
      ((tree.next prev).entries.find? fun sibling =>
        tokens.isPrefixOf (tree.tokensOf sibling.2)).map Prod.snd
    else none

/-- The children that a block with these tokens covers. -/
def coveredSiblings (tokens : List TokenIdExt) : List (Key × ℕ) :=
  (tree.next prev).entries.filter fun sibling =>
    (tree.tokensOf sibling.2).length < tokens.length
      && (tree.tokensOf sibling.2).isPrefixOf tokens

/-- A covered sibling is detached and hands over its pages. -/
def absorbSibling (id : ℕ) (tree : BlockRadixTree Key)
    (sibling : Key × ℕ) : BlockRadixTree Key :=
  (tree.detachNext prev sibling.1).adoptPagesFrom id sibling.2

/-- `attachBlock`. The block is added before the siblings it covers are removed. -/
def attachBlock (id : ℕ) (block : Block Key) : BlockRadixTree Key :=
  (tree.coveredSiblings prev block.tokens).foldl (absorbSibling prev id)
    ((tree.setPrev id (some prev)).setNext prev ((tree.next prev).set block.key id))

end

/-- A number that no block has. -/
def freshBlock : ℕ := tree.blocks.keys.foldr max 0 + 1

/-- A number that no page has. -/
def freshPage : ℕ := tree.pages.keys.foldr max 0 + 1

/-- A block under construction; `attachBlock` links it. -/
def addBlock (block : Block Key) : BlockRadixTree Key :=
  { tree with blocks := tree.blocks.set tree.freshBlock block }

/-- `addOrGetExistingBlock`, with the block it returns. Blocks hold between one token and the
tokens of a full block. -/
def addOrGetExistingBlock (prev : NodeRef Key) (tokens : List TokenIdExt) :
    Option (BlockRadixTree Key × ℕ) :=
  if tree.checkParent prev && 0 < tokens.length && tokens.length ≤ tree.mTokensPerBlock then
    (tree.keyOf prev).map fun prevKey =>
      let newKey := keys.makeKey prevKey tokens
      match tree.getExistingBlock prev newKey tokens with
      | some existing => (tree, existing)
      | none =>
        let block : Block Key := ⟨newKey, tokens, none, tree.nextOrdinal prev⟩
        ((tree.addBlock block).attachBlock prev tree.freshBlock block, tree.freshBlock)
  else none

/-- The contract of `attachOrGetExistingBlock`: the block is detached, and it continues the
chain of the node. -/
def continues (prev : NodeRef Key) (block : Block Key) : Bool :=
  block.prev = none && block.ordinal = tree.nextOrdinal prev
    && (tree.keyOf prev).any fun prevKey => block.key = keys.makeKey prevKey block.tokens

/-- `attachOrGetExistingBlock`, with the block that is then in the tree. -/
def attachOrGetExistingBlock (prev : NodeRef Key) (id : ℕ) : Option (BlockRadixTree Key × ℕ) :=
  (tree.blocks.find? id).bind fun block =>
    if tree.checkParent prev && continues keys tree prev block then
      match tree.getExistingBlock prev block.key block.tokens with
      | some existing =>
        let sameOrdinal := (tree.blocks.find? existing).any fun found =>
          found.ordinal = block.ordinal
        some (if existing ≠ id && sameOrdinal then tree.adoptPagesFrom existing id else tree,
          existing)
      | none => some (tree.attachBlock prev id block, id)
    else none

/-! ### Removal -/

/-- The loop of `removeSubtree`, with the blocks it detached in order: it descends to a first
child while there is one, and detaches on the way back up. -/
def removeSubtreeLoop (root : ℕ) :
    ℕ → BlockRadixTree Key → ℕ → Option (BlockRadixTree Key × List ℕ)
  | 0, _, _ => none
  | fuel + 1, tree, current =>
    match (tree.next (.block current)).entries with
    | child :: _ => removeSubtreeLoop root fuel tree child.2
    | [] =>
      match tree.blocks.find? current with
      | none => none
      | some block =>
        match block.prev with
        | none => none
        | some parent =>
          let detached := tree.detachNext parent block.key
          if current = root then some (detached, [current])
          else match parent with
            | .root _ => none
            | .block parentId =>
              (removeSubtreeLoop root fuel detached parentId).map fun r => (r.1, current :: r.2)

/-- The greatest ordinal of a block. -/
def maxOrdinal : ℕ := (tree.blocks.entries.map fun entry => entry.2.ordinal).foldr max 0

/-- Enough iterations for every traversal of the tree. -/
def traversalBound : ℕ := tree.blocks.size * (tree.maxOrdinal + 2) + tree.maxOrdinal + 1

/-- `removeSubtree`. -/
def removeSubtree (root : ℕ) : Option (BlockRadixTree Key × List ℕ) :=
  removeSubtreeLoop root tree.traversalBound tree root

/-- The tail of `clearStaleBlocksAfterPageUnlink`: blocks without children and pages are
detached, up to the first that has some. A block has as many ancestors as its ordinal says. -/
def pruneTail : ℕ → BlockRadixTree Key → ℕ → BlockRadixTree Key
  | 0, tree, _ => tree
  | fuel + 1, tree, id =>
    if (tree.next (.block id)).size = 0
        && (List.range tree.mLifeCycles.size).all fun lc => (tree.storage id lc).isNone then
      match tree.blocks.find? id with
      | none => tree
      | some block =>
        match block.prev with
        | none => tree
        | some (.root key) => tree.detachNext (.root key) block.key
        | some (.block prev) => pruneTail fuel (tree.detachNext (.block prev) block.key) prev
    else tree

/-- Whether the loss of a page makes what is below the block unreachable: pages of full
attention and of sink blocks, if the life cycle requires them. -/
def evictsSubtree (lc : LifeCycle) (ordinal : ℕ) : Bool :=
  match lc with
  | .ssm _ => false
  | .attn alc =>
    (alc.reusePolicy = .REQUIRED || alc.reusePolicy = .SINK_REQUIRED_ONLY)
      && (alc.windowSize.isNone || ordinal < alc.numSinkBlocks)

/-- `Block::clearStaleBlocksAfterPageUnlink`. -/
def clearStaleBlocksAfterPageUnlink (id lcIdx : ℕ) : Option (BlockRadixTree Key) :=
  (tree.blocks.find? id).bind fun block =>
    match block.prev with
    | none => some tree
    | some prev =>
      if (tree.mLifeCycles.lifeCycles[lcIdx]?).any fun lc => evictsSubtree lc block.ordinal then
        (tree.removeSubtree id).map fun r =>
          match prev with
          | .root _ => r.1
          | .block prevId => pruneTail block.ordinal r.1 prevId
      else
        some (pruneTail (block.ordinal + 1) (tree.emit (.addRemovedLifeCycle block.key lcIdx)) id)

/-- A page covering `numTokensInBlock` tokens is committed to a block: it is built and takes
the slot of its life cycle. -/
def commitPage (id lcIdx numTokensInBlock : ℕ) : Option (BlockRadixTree Key) :=
  (tree.blocks.find? id).bind fun block =>
    if lcIdx < tree.mLifeCycles.size && 0 < numTokensInBlock
        && numTokensInBlock ≤ block.tokens.length
        && tree.canReplacePage id lcIdx numTokensInBlock then
      some (BlockRadixTree.replacePage
        { tree with pages := tree.pages.set tree.freshPage ⟨none, lcIdx, numTokensInBlock⟩ }
        id lcIdx tree.freshPage)
    else none

/-- The cleanup of `CommittedPage::~CommittedPage`: a page that still sits in its slot is
unlinked, and stale blocks are cleared. -/
def cleanUpPage (p : ℕ) (page : CommittedPage) : Option (BlockRadixTree Key) :=
  match page.block with
  | none => some tree
  | some id =>
    if tree.storage id page.lifeCycle = some p then
      (tree.unlinkPage id page.lifeCycle).clearStaleBlocksAfterPageUnlink id page.lifeCycle
    else some tree

/-- `CommittedPage::~CommittedPage`. -/
def dropPage (p : ℕ) : Option (BlockRadixTree Key) :=
  (tree.pages.find? p).bind fun page =>
    (tree.cleanUpPage p page).map fun cleared => { cleared with pages := cleared.pages.erase p }

/-- `Block::~Block`: the last owner of a detached block let it go, its pages are released. -/
def destroyBlock (id : ℕ) : Option (BlockRadixTree Key) :=
  (tree.blocks.find? id).bind fun block =>
    if block.prev = none then
      let released := (List.range tree.mLifeCycles.size).foldl
        (fun t lc => unlinkPage t id lc) tree
      some { released with blocks := released.blocks.erase id }
    else none

/-! ### Roots -/

/-- `BlockRadixTree::drainPendingRootErases`. -/
def drainPendingRootErases : BlockRadixTree Key :=
  { tree with
    mPendingRootErases := []
    mRoots := tree.mPendingRootErases.foldl
      (fun roots key => if (tree.next (.root key)).size = 0 then roots.erase key else roots)
      tree.mRoots }

/-- `BlockRadixTree::addOrGetExisting`. -/
def addOrGetExisting (reuseScope : ReuseScope) : BlockRadixTree Key :=
  let drained := tree.drainPendingRootErases
  { drained with mRoots := drained.mRoots.insert (keys.rootKey reuseScope) }

/-- The inner loop of `BlockRadixTree::clear`: the subtrees of one root. -/
def clearRoot : ℕ → BlockRadixTree Key → Key → Option (BlockRadixTree Key)
  | 0, _, _ => none
  | fuel + 1, tree, key =>
    match (tree.next (.root key)).entries with
    | [] => some tree
    | child :: _ => (tree.removeSubtree child.2).bind fun r => clearRoot fuel r.1 key

/-- The outer loop of `BlockRadixTree::clear`. -/
def clearRoots : List Key → BlockRadixTree Key → Option (BlockRadixTree Key)
  | [], tree => some tree
  | key :: roots, tree =>
    (clearRoot ((tree.next (.root key)).size + 1) tree key).bind (clearRoots roots)

/-- `BlockRadixTree::clear`. Its check that every root is pending for erasure is left out: it
fails for a root that never had a child. -/
def clear : Option (BlockRadixTree Key) :=
  (clearRoots tree.mRoots.keys tree).map fun cleared : BlockRadixTree Key =>
    BlockRadixTree.emit { cleared with mRoots := ∅, mPendingRootErases := [] } .addAllBlocksCleared

end TrtLlm.KvCacheV2.BlockRadixTree
