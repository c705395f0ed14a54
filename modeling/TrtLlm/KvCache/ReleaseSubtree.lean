import TrtLlm.KvCache.BlockKey
import TrtLlm.KvCache.EvictionPolicy
import TrtLlm.KvCache.TemplatedTrie

/-!
`WindowBlockManager::truncateBlocks` and `releaseSubtree`: the cached blocks of a token sequence
behind a number of tokens are taken out of the lookup tree, and go to the free queues.

The lookup of the sequence goes on as long as it finds a block of the window, and the first block
before which more tokens were matched than are to be kept is released with all that is below it.

* `firstPast`: the block the lookup stops at;
* `releaseSubtree_spec`: **a subtree that is the window's own is released as a whole**.
-/

namespace TrtLlm.KvCache

open List Function Option

/-- `WindowBlockManager`: the lookup tree is shared with the other windows, and the ids are those of
the blocks of the window. -/
structure WindowBlocks where
  windowSize : ℤ
  tokensPerBlock : ℕ
  enablePartialReuse : Bool
  copyOnPartialReuse : Bool
  tree : Trie BlockKey ℤ ℕ
  isFull : ℕ → Bool
  pool : Pool

namespace WindowBlocks

/-- The block of the window at a node. -/
def block (s : WindowBlocks) (node : List BlockKey) : Option ℕ := s.tree.getValue node s.windowSize

section

variable (s : WindowBlocks) (key : BlockKey) (node : List BlockKey)

/-- `findPartiallyMatchingNodes`: the children that share tokens with the key, the longest match
first, each with the number of tokens. -/
def findPartiallyMatchingNodes :
    List (ℕ × List BlockKey) :=
  if key.supportsPartialMatching then
    let found := (s.tree.nextNodes node).filterMap fun nodeKey =>
      let numMatched := key.numMatchingTokens nodeKey
      if 0 < numMatched then some (numMatched, nodeKey :: node) else none
    found.insertionSort fun a b => b.1 ≤ a.1
  else []

/-- `findMatchingBlock`: whether the match is a partial one, the number of tokens, and the node of
the block. -/
def findMatchingBlock :
    Option (Bool × ℕ × List BlockKey) :=
  if key.uniqueTokens = [] then none
  else if key ∈ s.tree.nextNodes node then
    (s.block (key :: node)).map fun id => (!s.isFull id, key.uniqueTokens.length, key :: node)
  else if s.enablePartialReuse then
    (s.findPartiallyMatchingNodes key node).findSome? fun found =>
      (s.block found.2).bind fun id =>
        if s.copyOnPartialReuse
            || ((s.pool.blocks id).refCount = 0 && !s.tree.hasChildren found.2) then
          some (true, found.1, found.2)
        else none
  else none

end

/-- `setPriority`. -/
def setPriority (id priority : ℕ) (s : WindowBlocks) : WindowBlocks :=
  { s with pool := s.pool.modify id fun b => { b with priority := priority } }

/-- `freeLeafBlock`: the block has to be a leaf, and its slot to be occupied. -/
def freeLeafBlock (node : List BlockKey) (id : ℕ) (s : WindowBlocks) : Option WindowBlocks :=
  if s.tree.hasChildren node then none
  else (s.tree.clearValue node s.windowSize).map fun tree =>
    { s with tree := tree, pool := s.pool.detach id }

/-- The second loop of `releaseSubtree`, for one block. -/
def releaseLeaf (node : List BlockKey) (s : WindowBlocks) : Option WindowBlocks := do
  let id ← s.block node
  let s ← s.freeLeafBlock node id
  if (s.pool.blocks id).refCount = 0 then
    let s := s.setPriority id kMinRetentionPriority
    some { s with pool := s.pool.releaseBlock id true }
  else some s

/-- `releaseSubtree`. -/
def releaseSubtree (node : List BlockKey) (s : WindowBlocks) : Option WindowBlocks :=
  (s.tree.subtree s.windowSize s.tree.nodes.length node).reverse.foldlM
    (fun s node => s.releaseLeaf node) s

/-- The loop of `truncateBlocks`. -/
def truncateLoop (numTokensToKeep : ℤ) :
    List BlockKey → List BlockKey → ℕ → WindowBlocks → Option WindowBlocks
  | [], _, _, s => some s
  | key :: keys, searchRoot, numMatchedTokens, s =>
    match s.findMatchingBlock key searchRoot with
    | none => some s
    | some (_, numMatched, node) =>
      if numTokensToKeep < numMatchedTokens then do
        let id ← s.block node
        (s.setPriority id kMinRetentionPriority).releaseSubtree node
      else
        let num := if 0 < numMatched then numMatched else key.uniqueTokens.length
        truncateLoop numTokensToKeep keys node (numMatchedTokens + num) s

/-- The keys of the blocks of a token sequence. -/
def blockKeys (s : WindowBlocks) (targetTokens : List ℤ) : List BlockKey :=
  (chopVectorIntoBlocks targetTokens targetTokens.length s.tokensPerBlock true).map fun tokens =>
    BlockKey.ofTokens tokens none

/-- `truncateBlocks`. -/
def truncateBlocks (targetTokens : List ℤ) (numTokensToKeep : ℤ)
    (s : WindowBlocks) : Option WindowBlocks :=
  truncateLoop numTokensToKeep (s.blockKeys targetTokens) [] 0 s

/-! ### Where the lookup stops -/

/-- The first block the lookup finds with more tokens matched before it than are to be kept. -/
def pastIn (s : WindowBlocks) (numTokensToKeep : ℤ) :
    List BlockKey → List BlockKey → ℕ → Option (List BlockKey)
  | [], _, _ => none
  | key :: keys, searchRoot, numMatchedTokens =>
    match s.findMatchingBlock key searchRoot with
    | none => none
    | some (_, numMatched, node) =>
      if numTokensToKeep < numMatchedTokens then some node
      else
        let num := if 0 < numMatched then numMatched else key.uniqueTokens.length
        s.pastIn numTokensToKeep keys node (numMatchedTokens + num)

/-- The block that is released with what is below it. -/
def firstPast (s : WindowBlocks) (targetTokens : List ℤ)
    (numTokensToKeep : ℤ) : Option (List BlockKey) :=
  s.pastIn numTokensToKeep (s.blockKeys targetTokens) [] 0

/-- The nodes below a node hold a block of the window each, and no block of another one. -/
def Own (s : WindowBlocks) (node : List BlockKey) : Prop :=
  ∀ node' ∈ s.tree.nodes, node <:+ node' → node' ≠ node → (∃ id, s.block node' = some id)
    ∧ ∀ window, window ≠ s.windowSize → s.tree.getValue node' window = none

/-- What the manager keeps: intact queues, and a block is at one node only. -/
structure WellFormed (s : WindowBlocks) : Prop where
  tokensPerBlock_pos : 0 < s.tokensPerBlock
  intact : s.pool.Intact
  once : ∀ node node' id, s.block node = some id → s.block node' = some id → node = node'

/-- The first token of the block at a node. -/
def startOf (s : WindowBlocks) (node : List BlockKey) : ℕ := (node.length - 1) * s.tokensPerBlock

section

variable (s : WindowBlocks) (targetTokens : List ℤ) (i : ℕ)

/-- The node of the first blocks of a token sequence. -/
def pathNode : List BlockKey :=
  ((s.blockKeys targetTokens).take i).reverse

/-- The first blocks of a token sequence are cached. -/
def CachedTo : Prop :=
  ∀ j, 0 < j → j ≤ i → ∃ id, s.block (s.pathNode targetTokens j) = some id

end

/-- **What truncating a token sequence leaves**: a cached block of the sequence that starts behind
the tokens to keep is out of the tree with all that is below it, a block that starts within them is
kept, and so are the blocks of other windows; a released block is free, at the lowest priority. The
last is said of a block without references that is in no queue: the manager keeps every block
without references in a queue, so that no state of its runs has such a block. -/
structure Truncated (s : WindowBlocks) (targetTokens : List ℤ) (numTokensToKeep : ℤ)
    (s' : WindowBlocks) : Prop where
  out : ∀ i, 0 < i → i ≤ (s.blockKeys targetTokens).length → s.CachedTo targetTokens i →
    numTokensToKeep < s.startOf (s.pathNode targetTokens i) →
    ∀ node, s.pathNode targetTokens i <:+ node → s'.block node = none
  kept : ∀ node window, s.startOf node ≤ numTokensToKeep ∨ window ≠ s.windowSize →
    s'.tree.getValue node window = s.tree.getValue node window
  released : ∀ node id, s.block node = some id → s'.block node = none →
    (s.pool.blocks id).refCount = 0 → s.pool.queued id = false →
    (s'.pool.blocks id).priority = kMinRetentionPriority ∧ ∀ level priority,
      (s'.pool.queues level priority).count id
        = if level = (s.pool.blocks id).level ∧ priority = kMinRetentionPriority then 1 else 0
  counted : ∀ level, s'.pool.numFree level = s'.pool.queueLengths level

/-! ### What the release of a block does to the queues -/

end WindowBlocks

namespace Pool

/-- The part of `releaseLeaf` on the pool. -/
def releaseAtMin (id : ℕ) (pool : Pool) : Pool :=
  let pool := pool.detach id
  if (pool.blocks id).refCount = 0 then
    (pool.modify id fun b => { b with priority := kMinRetentionPriority }).releaseBlock id true
  else pool

/-- The blocks keep their references and their memory. -/
structure SameBlocks (pool pool' : Pool) : Prop where
  refCount : ∀ id, (pool'.blocks id).refCount = (pool.blocks id).refCount
  level : ∀ id, (pool'.blocks id).level = (pool.blocks id).level

lemma SameBlocks.refl (pool : Pool) : SameBlocks pool pool := ⟨fun _ => rfl, fun _ => rfl⟩

lemma SameBlocks.trans {pool pool' pool'' : Pool} (h : SameBlocks pool pool')
    (h' : SameBlocks pool' pool'') : SameBlocks pool pool'' :=
  ⟨fun id => (h'.refCount id).trans (h.refCount id), fun id => (h'.level id).trans (h.level id)⟩

lemma SameBlocks.modify (pool : Pool) (id : ℕ) {f : BlockState → BlockState}
    (href : (f (pool.blocks id)).refCount = (pool.blocks id).refCount)
    (hlevel : (f (pool.blocks id)).level = (pool.blocks id).level) :
    SameBlocks pool (pool.modify id f) := by
  constructor
  · intro id'
    by_cases heq : id' = id
    · rw [heq, modify_blocks_self, href]
    · rw [modify_blocks_of_ne heq]
  · intro id'
    by_cases heq : id' = id
    · rw [heq, modify_blocks_self, hlevel]
    · rw [modify_blocks_of_ne heq]

variable {pool : Pool} {id : ℕ}

lemma sameBlocks_releaseAtMin (pool : Pool) (id : ℕ) : SameBlocks pool (pool.releaseAtMin id) := by
  have hdetach : SameBlocks pool (pool.detach id) := SameBlocks.modify pool id rfl rfl
  rw [releaseAtMin]
  split_ifs with href
  · have hmodify : SameBlocks (pool.detach id)
        ((pool.detach id).modify id fun b => { b with priority := kMinRetentionPriority }) :=
      SameBlocks.modify (pool.detach id) id rfl rfl
    exact ⟨(hdetach.trans hmodify).refCount, (hdetach.trans hmodify).level⟩
  · exact hdetach

/-- The queues after the release: an unreferenced block is at the head of the one of the lowest
priority. -/
lemma queues_releaseAtMin (pool : Pool) (id : ℕ) (level : CacheLevel) (priority : ℕ) :
    (pool.releaseAtMin id).queues level priority
      = if (pool.blocks id).refCount = 0 ∧ level = (pool.blocks id).level
          ∧ priority = kMinRetentionPriority then
          id :: pool.queues level priority
        else pool.queues level priority := by
  have href : ((pool.detach id).blocks id).refCount = (pool.blocks id).refCount := by
    rw [detach, modify_blocks_self]
  have hlevel : ((pool.detach id).blocks id).level = (pool.blocks id).level := by
    rw [detach, modify_blocks_self]
  rw [releaseAtMin]
  rw [href]
  by_cases hzero : (pool.blocks id).refCount = 0
  · rw [if_pos hzero]
    show (setQueue _ _ _ _).queues level priority = _
    rw [setQueue_queues, modify_blocks_self]
    rw [hlevel]
    by_cases hboth : level = (pool.blocks id).level ∧ priority = kMinRetentionPriority
    · have hcond : (pool.blocks id).refCount = 0 ∧ level = (pool.blocks id).level
          ∧ priority = kMinRetentionPriority := ⟨hzero, hboth⟩
      rw [if_pos hboth, if_pos hcond, hboth.1, hboth.2]
      rfl
    · rw [if_neg hboth, if_neg fun h => hboth h.2]
      rfl
  · rw [if_neg hzero, if_neg fun h => hzero h.1]
    rfl

lemma counted_releaseAtMin (h : ∀ level, pool.numFree level = pool.queueLengths level) (id : ℕ)
    (level : CacheLevel) : (pool.releaseAtMin id).numFree level
      = (pool.releaseAtMin id).queueLengths level := by
  rw [releaseAtMin]
  split_ifs with href
  · set pool' := (pool.detach id).modify id fun b => { b with priority := kMinRetentionPriority }
      with hpool
    have hcounted : ∀ level, pool'.numFree level = pool'.queueLengths level := h
    have hlow : (pool'.blocks id).priority < kNumPriorities := by
      rw [hpool, modify_blocks_self]
      show kMinRetentionPriority < kNumPriorities
      decide
    have hsum := queueLengths_setQueue pool' (pool'.blocks id).level hlow
      (id :: pool'.queues (pool'.blocks id).level (pool'.blocks id).priority) level
    rw [length_cons] at hsum
    show update pool'.numFree (pool'.blocks id).level _ level
      = ((pool'.setQueue (pool'.blocks id).level (pool'.blocks id).priority
          (id :: pool'.queues (pool'.blocks id).level (pool'.blocks id).priority)).queueLengths
            level : ℕ)
    rw [hsum, ← hcounted level]
    by_cases hlevel : level = (pool'.blocks id).level
    · rw [hlevel, update_self, if_pos rfl]
      push_cast
      ring
    · rw [update_of_ne hlevel, if_neg hlevel, add_zero]
  · exact h level

@[simp] lemma releaseBlock_blocks (toFront : Bool) :
    (pool.releaseBlock id toFront).blocks = pool.blocks := rfl

lemma detach_priority (pool : Pool) (id id' : ℕ) :
    ((pool.detach id).blocks id').priority = (pool.blocks id').priority := by
  rw [detach]
  by_cases heq : id' = id
  · rw [heq, modify_blocks_self]
  · rw [modify_blocks_of_ne heq]

lemma priority_releaseAtMin (pool : Pool) (id id' : ℕ) :
    ((pool.releaseAtMin id).blocks id').priority
      = if id' = id ∧ (pool.blocks id).refCount = 0 then kMinRetentionPriority
        else (pool.blocks id').priority := by
  have href : ((pool.detach id).blocks id).refCount = (pool.blocks id).refCount := by
    rw [detach, modify_blocks_self]
  rw [releaseAtMin, href]
  by_cases hzero : (pool.blocks id).refCount = 0
  · rw [if_pos hzero, releaseBlock_blocks]
    by_cases heq : id' = id
    · rw [if_pos ⟨heq, hzero⟩, heq, modify_blocks_self]
    · rw [if_neg fun h => heq h.1, modify_blocks_of_ne heq, detach_priority]
  · rw [if_neg hzero, if_neg fun h => hzero h.2, detach_priority]

/-- **What the release of different blocks does**: those without references are in the queues of the
lowest priority once more. -/
structure ReleasedAtMin (pool : Pool) (ids : List ℕ) (pool' : Pool) : Prop where
  same : SameBlocks pool pool'
  counts : ∀ id level priority, (pool'.queues level priority).count id
    = (pool.queues level priority).count id
      + if id ∈ ids ∧ (pool.blocks id).refCount = 0 ∧ level = (pool.blocks id).level
          ∧ priority = kMinRetentionPriority then 1 else 0
  priority : ∀ id ∈ ids, (pool.blocks id).refCount = 0 →
    (pool'.blocks id).priority = kMinRetentionPriority
  counted : (∀ level, pool.numFree level = pool.queueLengths level) →
    ∀ level, pool'.numFree level = pool'.queueLengths level

lemma releasedAtMin_foldr (pool : Pool) {ids : List ℕ} (hnodup : ids.Nodup) :
    ReleasedAtMin pool ids (ids.foldr releaseAtMin pool) := by
  induction ids with
  | nil =>
    refine ⟨SameBlocks.refl pool, fun id level priority => ?_, fun id hid _ => ?_, fun h => h⟩
    · rw [if_neg fun h => not_mem_nil h.1]
      rfl
    · exact absurd hid not_mem_nil
  | cons id ids ih =>
    obtain ⟨hnotMem, hnodup⟩ := nodup_cons.mp hnodup
    obtain ⟨hsame, hcounts, hpriority, hcounted⟩ := ih hnodup
    rw [foldr_cons]
    set pool' := ids.foldr releaseAtMin pool
    refine ⟨hsame.trans (sameBlocks_releaseAtMin pool' id), fun id' level priority => ?_,
      fun id' hid' href => ?_, fun h => counted_releaseAtMin (hcounted h) id⟩
    · rw [queues_releaseAtMin, hsame.refCount, hsame.level]
      by_cases heq : id' = id
      · subst heq
        have hold := hcounts id' level priority
        rw [if_neg fun h => hnotMem h.1, add_zero] at hold
        split_ifs with hhere hlist hlist
        · rw [count_cons_self, hold]
        · exact absurd ⟨mem_cons_self, hhere⟩ hlist
        · exact absurd hlist.2 hhere
        · rw [hold, add_zero]
      · simp only [mem_cons, heq, false_or]
        rw [← hcounts]
        split_ifs
        · rw [count_cons_of_ne (Ne.symm heq)]
        · rfl
    · rw [priority_releaseAtMin, hsame.refCount]
      split_ifs with hhere
      · rfl
      · refine hpriority id' ((mem_cons.mp hid').resolve_left fun heq => ?_) href
        exact hhere ⟨heq, heq ▸ href⟩

end Pool

namespace WindowBlocks

/-! ### The release of a subtree -/

variable {s s' : WindowBlocks} {node : List BlockKey} {id : ℕ}

/-- **What the release of nodes changes**: the blocks of the window at them are out of the tree, and
in the free queues if nobody holds them. -/
structure Released (s : WindowBlocks) (nodes : List (List BlockKey))
    (s' : WindowBlocks) : Prop where
  window : s'.windowSize = s.windowSize
  subset : s'.tree.nodes ⊆ s.tree.nodes
  values : ∀ node window, s'.tree.getValue node window
    = if node ∈ nodes ∧ window = s.windowSize then none else s.tree.getValue node window
  pool : s'.pool = (nodes.filterMap s.block).foldr Pool.releaseAtMin s.pool

variable {k : ℤ} {numMatched : ℕ}

lemma Released.block_of_notMem {nodes : List (List BlockKey)} (h : Released s nodes s')
    (hnode : node ∉ nodes) : s'.block node = s.block node := by
  rw [block, h.values, if_neg fun hmem => hnode hmem.1, h.window]
  rfl

/-- A leaf is released. -/
lemma releaseLeaf_spec (hid : s.block node = some id) (hleaf : s.tree.nextNodes node = []) :
    ∃ s', s.releaseLeaf node = some s' ∧ Released s [node] s'
      ∧ (node ≠ [] → (∀ window, window ≠ s.windowSize → s.tree.getValue node window = none) →
        node ∉ s'.tree.nodes) := by
  obtain ⟨tree, hclear, hsubset, hvalues⟩ := Trie.clearValue_spec hid
  have hchildren : s.tree.hasChildren node = false := by
    rw [Trie.hasChildren, hleaf]
    rfl
  have hvalues' : ∀ node' window, tree.getValue node' window
      = if node' ∈ [node] ∧ window = s.windowSize then none else s.tree.getValue node' window := by
    intro node' window
    rw [hvalues]
    simp only [mem_singleton]
  have hgone : node ≠ [] → (∀ window, window ≠ s.windowSize → s.tree.getValue node window = none) →
      node ∉ tree.nodes := by
    intro hne honly
    cases node with
    | nil => exact absurd rfl hne
    | cons key parent => exact Trie.notMem_clearValue hclear honly hleaf
  have hfilter : [node].filterMap s.block = [id] := by
    rw [filterMap_cons, hid]
    rfl
  refine ⟨{ s with tree := tree, pool := s.pool.releaseAtMin id }, ?_,
    ⟨rfl, hsubset, hvalues', by rw [hfilter]; rfl⟩, hgone⟩
  rw [releaseLeaf, hid, bind_eq_bind, bind_some, freeLeafBlock, hchildren, hclear,
    Pool.releaseAtMin]
  show (if _ then _ else _) = some _
  split_ifs
  · rfl
  · rfl

/-- Released nodes, and one more. -/
lemma Released.cons {nodes : List (List BlockKey)} {s'' : WindowBlocks} (h : Released s nodes s')
    (hnode : node ∉ nodes) (hid : s.block node = some id) (h' : Released s' [node] s'') :
    Released s (node :: nodes) s'' := by
  refine ⟨h'.window.trans h.window, Subset.trans h'.subset h.subset, fun node' window => ?_, ?_⟩
  · rw [h'.values, h.values, h.window]
    by_cases heq : node' = node
    · subst heq
      by_cases hw : window = s.windowSize
      · rw [if_pos ⟨mem_singleton_self _, hw⟩, if_pos ⟨mem_cons_self, hw⟩]
      · rw [if_neg fun hmem => hw hmem.2, if_neg fun hmem => hw hmem.2,
          if_neg fun hmem => hw hmem.2]
    · simp only [mem_cons, not_mem_nil, heq, false_and, if_false, false_or]
  · have hid' : s'.block node = some id := (h.block_of_notMem hnode).trans hid
    rw [h'.pool, h.pool, filterMap_cons, hid', filterMap_cons, hid]
    rfl

/-- **Nodes of the window's own are released**, those that are further down first. -/
lemma released_foldrM (nodes : List (List BlockKey))
    (hpairwise : nodes.Pairwise fun a b => ¬ b <:+ a)
    (hclosed : ∀ node ∈ nodes, ∀ key, key :: node ∈ s.tree.nodes → key :: node ∈ nodes)
    (hblock : ∀ node ∈ nodes, ∃ id, s.block node = some id)
    (honly : ∀ node ∈ nodes, ∀ window, window ≠ s.windowSize → s.tree.getValue node window = none)
    (hroot : ∀ node ∈ nodes, node ≠ []) :
    ∃ s', nodes.foldrM (fun node s => s.releaseLeaf node) s = some s' ∧ Released s nodes s'
      ∧ ∀ node ∈ nodes, node ∉ s'.tree.nodes := by
  induction nodes with
  | nil =>
    refine ⟨s, rfl, ⟨rfl, Subset.refl _, fun node window => ?_, rfl⟩, fun node hnode => ?_⟩
    · rw [if_neg fun h => not_mem_nil h.1]
    · exact absurd hnode not_mem_nil
  | cons node nodes ih =>
    obtain ⟨hfirst, hpairwise⟩ := pairwise_cons.mp hpairwise
    have hnode : node ∉ nodes := fun hmem => hfirst node hmem (suffix_refl _)
    -- a child of one of the other nodes is not the first one, which none of them is above
    have hclosed' : ∀ node' ∈ nodes, ∀ key, key :: node' ∈ s.tree.nodes → key :: node' ∈ nodes := by
      intro node' hmem key hchild
      refine (mem_cons.mp (hclosed node' (mem_cons_of_mem _ hmem) key hchild)).resolve_left ?_
      intro heq
      exact hfirst node' hmem (heq ▸ suffix_cons key node')
    obtain ⟨s', hrun, hreleased, hgone⟩ := ih hpairwise hclosed'
      (fun node' hmem => hblock node' (mem_cons_of_mem _ hmem))
      (fun node' hmem => honly node' (mem_cons_of_mem _ hmem))
      fun node' hmem => hroot node' (mem_cons_of_mem _ hmem)
    obtain ⟨id, hid⟩ := hblock node mem_cons_self
    -- its children were in the tree, so they are among the nodes that were released before it
    have hleaf : s'.tree.nextNodes node = [] := by
      rw [eq_nil_iff_forall_not_mem]
      intro key hkey
      have hchild := Trie.mem_nextNodes.mp hkey
      have hmem := hclosed node mem_cons_self key (hreleased.subset hchild)
      exact hgone _ ((mem_cons.mp hmem).resolve_left (cons_ne_self key node)) hchild
    obtain ⟨s'', hleafRun, hlast, hlastGone⟩ :=
      releaseLeaf_spec ((hreleased.block_of_notMem hnode).trans hid) hleaf
    refine ⟨s'', ?_, hreleased.cons hnode hid hlast, fun node' hmem => ?_⟩
    · rw [foldrM_cons, hrun]
      exact hleafRun
    · obtain rfl | hmem := mem_cons.mp hmem
      · refine hlastGone (hroot node' mem_cons_self) fun window hwindow => ?_
        rw [hreleased.values, if_neg fun h => hnode h.1]
        exact honly node' mem_cons_self window (hreleased.window ▸ hwindow)
      · exact fun hin => hgone node' hmem (hlast.subset hin)

/-- **A subtree that is the window's own is released as a whole.** -/
lemma releaseSubtree_spec (hid : s.block node = some id) (hroot : node ≠ []) (hown : s.Own node) :
    ∃ s' nodes, s.releaseSubtree node = some s' ∧ Released s nodes s' ∧ nodes.Nodup
      ∧ ∀ node', node' ∈ nodes ↔ node' ∈ s.tree.nodes ∧ node <:+ node' := by
  set nodes := s.tree.subtree s.windowSize s.tree.nodes.length node with hnodes
  have hin : node ∈ s.tree.nodes := Trie.mem_of_getValue hid
  have hmem : ∀ node', node' ∈ nodes ↔ node' ∈ s.tree.nodes ∧ node <:+ node' := by
    intro node'
    constructor
    · intro h
      refine ⟨?_, Trie.suffix_of_mem_subtree h⟩
      by_cases heq : node' = node
      · exact heq ▸ hin
      · obtain ⟨id', hid'⟩ := Trie.getValue_of_mem_subtree h heq
        exact Trie.mem_of_getValue hid'
    · rintro ⟨hin', path, rfl⟩
      refine Trie.mem_subtree path ?_ fun suffix hsuffix hne => ?_
      · have hlt := Trie.length_lt_of_mem hin'
        rw [length_append] at hlt
        omega
      · have hsuffix' : suffix ++ node <:+ path ++ node :=
          (suffix_append_inj_of_length_eq rfl).mpr ⟨hsuffix, rfl⟩
        exact (hown _ (Trie.mem_of_suffix hin' hsuffix') (suffix_append suffix node)
          fun heq => hne (append_left_eq_self.mp heq)).1
  have hpairwise := Trie.subtree_pairwise s.tree s.windowSize s.tree.nodes.length node
  have hnodup : nodes.Nodup := hpairwise.imp fun {a b} h (heq : a = b) => h (heq ▸ suffix_refl a)
  obtain ⟨rest, hrest⟩ : ∃ rest, nodes = node :: rest := by
    obtain ⟨depth, hdepth⟩ : ∃ d, s.tree.nodes.length = d + 1 :=
      ⟨s.tree.nodes.length - 1, by have := length_pos_of_mem hin; omega⟩
    rw [hnodes, hdepth, Trie.subtree]
    exact ⟨_, rfl⟩
  rw [← hnodes, hrest, pairwise_cons] at hpairwise
  rw [hrest, nodup_cons] at hnodup
  have hbelow : ∀ node' ∈ rest, node' ∈ s.tree.nodes ∧ node <:+ node' ∧ node' ≠ node := by
    intro node' h
    have hboth := (hmem node').mp (hrest ▸ mem_cons_of_mem _ h)
    exact ⟨hboth.1, hboth.2, fun heq : node' = node => hnodup.1 (heq ▸ h)⟩
  have hchild : ∀ node' ∈ nodes, ∀ key, key :: node' ∈ s.tree.nodes → key :: node' ∈ rest := by
    intro node' h key hkey
    have hsuffix := ((hmem node').mp h).2
    have hall := (hmem (key :: node')).mpr ⟨hkey, hsuffix.trans (suffix_cons key node')⟩
    rw [hrest] at hall
    refine (mem_cons.mp hall).resolve_left fun heq => ?_
    have hle := hsuffix.length_le
    rw [← heq, length_cons] at hle
    omega
  have hnotRoot : ∀ node' ∈ rest, node' ≠ [] := fun node' h heq =>
    hroot (suffix_nil.mp (heq ▸ (hbelow node' h).2.1))
  obtain ⟨s', hrun, hreleased, hgone⟩ := released_foldrM rest hpairwise.2
    (fun node' h => hchild node' (hrest ▸ mem_cons_of_mem _ h))
    (fun node' h => (hown node' (hbelow node' h).1 (hbelow node' h).2.1 (hbelow node' h).2.2).1)
    (fun node' h => (hown node' (hbelow node' h).1 (hbelow node' h).2.1 (hbelow node' h).2.2).2)
    hnotRoot
  have hleaf : s'.tree.nextNodes node = [] := by
    rw [eq_nil_iff_forall_not_mem]
    intro key hkey
    have hin' := Trie.mem_nextNodes.mp hkey
    exact hgone _ (hchild node (hrest ▸ mem_cons_self) key (hreleased.subset hin')) hin'
  obtain ⟨s'', hleafRun, hlast, -⟩ :=
    releaseLeaf_spec ((hreleased.block_of_notMem hnodup.1).trans hid) hleaf
  refine ⟨s'', nodes, ?_, hrest ▸ hreleased.cons hnodup.1 hid hlast, hrest ▸ nodup_cons.mpr hnodup,
    hmem⟩
  rw [releaseSubtree, foldlM_reverse, ← hnodes, hrest, foldrM_cons, hrun]
  exact hleafRun

end WindowBlocks

end TrtLlm.KvCache
