import TrtLlm.Util.UMap
import TrtLlm.KvCacheV2.BlockKey

/-!
The block radix tree of the KV cache manager (`blockRadixTree.h`): blocks, roots, committed
pages, and the life cycles that decide which pages a reused prefix needs.

Blocks and pages are named by numbers and looked up in the tree's maps, so that the raw back
pointers of the source (`Block::prev`, `CommittedPage::block`) are names as well. A block that
was detached stays in the map of the blocks as long as a sequence holds it.

A key stands for the parent's key and the tokens in `Injective` schemes only. The keys of the
source (`hashKeys`) are not among them, since the bytes that are hashed do not tell a digest from
plain ids; a result that needs the property says so.
-/

namespace TrtLlm.KvCacheV2

/-- `RootBlock::makeKey` and `Block::makeKey`. -/
structure KeyScheme (Key : Type*) where
  rootKey : ReuseScope → Key
  makeKey : Key → List TokenIdExt → Key

/-- Keys that are injective on the parent's key and the tokens. -/
def KeyScheme.Injective {Key : Type*} (keys : KeyScheme Key) : Prop :=
  ∀ {k k' : Key} {l l' : List TokenIdExt}, keys.makeKey k l = keys.makeKey k' l' → k = k' ∧ l = l'

/-- The keys of the source. -/
def hashKeys (sha256 : List UInt8 → Digest) : KeyScheme Digest where
  rootKey := rootKey sha256
  makeKey prevKey tokens := makeKey sha256 prevKey (.general tokens)

/-- Keys that keep what was hashed. -/
inductive SymbolicKey where
  | root (scope : ReuseScope)
  | block (prev : SymbolicKey) (tokens : List TokenIdExt)
deriving DecidableEq

def symbolicKeys : KeyScheme SymbolicKey where
  rootKey := .root
  makeKey := .block

lemma symbolicKeys_injective : symbolicKeys.Injective := by
  intro k k' l l' h
  cases h
  exact ⟨rfl, rfl⟩

/-- The scope of a request without adapter and salt. -/
def plainScope : ReuseScope := ⟨none, none⟩

/-! ### Life cycles -/

/-- `ReusePolicy`. -/
inductive ReusePolicy where
  | REQUIRED
  | PRIVATE
  | OPTIONAL
  | SINK_REQUIRED_ONLY
deriving DecidableEq, Repr

/-- A half-open range of block ordinals. -/
structure HalfOpenRange where
  beg : ℕ
  fin : ℕ

/-- `divUp`. -/
def divUp (a b : ℕ) : ℕ := (a + b - 1) / b

/-- `AttnLifeCycle`: attention with an optional sliding window and sink blocks. -/
structure AttnLifeCycle where
  windowSize : Option ℕ
  numSinkBlocks : ℕ
  reusePolicy : ReusePolicy
deriving DecidableEq

/-- `AttnLifeCycle::getStaleRange`: the blocks between the sinks and the live window, which
starts `windowSize` tokens before the token in flight. -/
def AttnLifeCycle.getStaleRange (lc : AttnLifeCycle) (historyLength tokensPerBlock : ℕ) :
    HalfOpenRange :=
  let start := min (divUp historyLength tokensPerBlock) lc.numSinkBlocks
  match lc.windowSize with
  | none => ⟨start, start⟩
  | some windowSize => ⟨start, max start ((historyLength + 1 - windowSize) / tokensPerBlock)⟩

/-- `LifeCycle`. -/
inductive LifeCycle where
  | attn (lc : AttnLifeCycle)
  | ssm (reusePolicy : ReusePolicy)
deriving DecidableEq

/-- `LifeCycleRegistry`: a life cycle is registered once, its number is its position. -/
structure LifeCycleRegistry where
  lifeCycles : List LifeCycle
  nodup : lifeCycles.Nodup

namespace LifeCycleRegistry

variable (reg : LifeCycleRegistry)

def size : ℕ := reg.lifeCycles.length

/-- `attentionLifeCycles`: the attention life cycles with their numbers. -/
def attentionLifeCycles : List (ℕ × AttnLifeCycle) :=
  reg.lifeCycles.zipIdx.filterMap fun entry =>
    match entry.1 with
    | .attn lc => some (entry.2, lc)
    | .ssm _ => none

/-- `requiredSsmLifeCycleId`. -/
def requiredSsmLifeCycleId : Option ℕ :=
  reg.lifeCycles.findIdx? (· = .ssm .REQUIRED)

end LifeCycleRegistry

/-! ### The tree -/

/-- `CommittedPage`: the block that offers it, its life cycle and the tokens it covers. -/
structure CommittedPage where
  block : Option ℕ
  lifeCycle : ℕ
  numTokensInBlock : ℕ
deriving DecidableEq

/-- A node of the tree: a root under its key, or a block under its number. -/
inductive NodeRef (Key : Type*) where
  | root (key : Key)
  | block (id : ℕ)
deriving DecidableEq

/-- `Block`: what it is made of, and its previous node while it is attached. -/
structure Block (Key : Type*) where
  key : Key
  tokens : List TokenIdExt
  prev : Option (NodeRef Key)
  ordinal : ℕ

/-- The calls of the event sink. -/
inductive TreeEvent (Key : Type*) where
  | addRemovedBlock (key : Key)
  | addRemovedLifeCycle (key : Key) (lifeCycle : ℕ)
  | addAllBlocksCleared
deriving DecidableEq

/-- `BlockRadixTree`, with the blocks and the committed pages that exist.

The members `next` and `storage` of the nodes are kept by the tree, under the node. -/
structure BlockRadixTree (Key : Type*) where
  mLifeCycles : LifeCycleRegistry
  mTokensPerBlock : ℕ
  tokensPerBlock_pos : 0 < mTokensPerBlock
  mRoots : USet Key
  mPendingRootErases : List Key
  next : NodeRef Key → UMap Key ℕ
  blocks : UMap ℕ (Block Key)
  storage : ℕ → ℕ → Option ℕ
  pages : UMap ℕ CommittedPage
  /-- What the event sink was told. -/
  events : List (TreeEvent Key)

namespace BlockRadixTree

variable {Key : Type*} [DecidableEq Key] (tree : BlockRadixTree Key)

/-- The key of a node. -/
def keyOf : NodeRef Key → Option Key
  | .root key => if key ∈ tree.mRoots then some key else none
  | .block id => (tree.blocks.find? id).map Block.key

def tokensOf (id : ℕ) : List TokenIdExt := ((tree.blocks.find? id).map Block.tokens).getD []

/-- `Block::pageCoverage`. -/
def pageCoverage (id lcIdx : ℕ) : ℕ :=
  (((tree.storage id lcIdx).bind tree.pages.find?).map CommittedPage.numTokensInBlock).getD 0

/-- The ordinal of the children of a node. -/
def nextOrdinal : NodeRef Key → ℕ
  | .root _ => 0
  | .block id => ((tree.blocks.find? id).map fun block => block.ordinal + 1).getD 0

/-- A node that may get children: a root, or an attached block that is full. -/
def CanBeParent : NodeRef Key → Prop
  | .root key => key ∈ tree.mRoots
  | .block id => ∃ block, tree.blocks.find? id = some block
    ∧ block.tokens.length = tree.mTokensPerBlock ∧ block.prev.isSome

/-- The chains of the tree: the children of a node and the parents of the blocks are one
relation, under keys that chain the tokens, and only roots and attached full blocks have
children. -/
structure Chained (keys : KeyScheme Key) : Prop where
  child : ∀ {n k id}, (tree.next n).find? k = some id →
    ∃ block, tree.blocks.find? id = some block ∧ block.key = k ∧ block.prev = some n
  parent : ∀ {id block n}, tree.blocks.find? id = some block → block.prev = some n →
    (tree.next n).find? block.key = some id
  key : ∀ {id block n}, tree.blocks.find? id = some block → block.prev = some n →
    ∃ prevKey, tree.keyOf n = some prevKey ∧ block.key = keys.makeKey prevKey block.tokens
  ordinal : ∀ {id block n}, tree.blocks.find? id = some block → block.prev = some n →
    block.ordinal = tree.nextOrdinal n
  size : ∀ {id block}, tree.blocks.find? id = some block →
    0 < block.tokens.length ∧ block.tokens.length ≤ tree.mTokensPerBlock
  full : ∀ {n k id}, (tree.next n).find? k = some id → tree.CanBeParent n

/-- The pages of the tree: the pages in the slots of the blocks and the blocks of the pages are
one relation, and no page covers more tokens than its block has. -/
structure Paged : Prop where
  page : ∀ {id lc p}, tree.storage id lc = some p ↔
    ∃ page, tree.pages.find? p = some page ∧ page.block = some id ∧ page.lifeCycle = lc
  covers : ∀ {p page id}, tree.pages.find? p = some page → page.block = some id →
    ∃ block, tree.blocks.find? id = some block ∧ page.numTokensInBlock ≤ block.tokens.length
  slot : ∀ {p page}, tree.pages.find? p = some page → page.lifeCycle < tree.mLifeCycles.size

/-- No block's tokens are a prefix of a sibling's. -/
def SiblingsIncomparable : Prop :=
  ∀ {n k k' id id'}, (tree.next n).find? k = some id → (tree.next n).find? k' = some id' →
    tree.tokensOf id <+: tree.tokensOf id' → id = id'

/-- Well-formedness of the tree. -/
structure WellFormed (keys : KeyScheme Key) : Prop extends tree.Chained keys, tree.Paged where
  incomparable : tree.SiblingsIncomparable

end BlockRadixTree

end TrtLlm.KvCacheV2
