import TrtLlm.KvCacheV2.RadixTree

/-!
Prefix reuse: `BlockRadixTree::match` walks the tree along the keys of a query, backs the match
off by a fixed number of tokens, and prunes it until every page it needs is there.

A match is the list of the matched blocks with the tokens matched in each of them. Only the last
block may be matched in part, so a match is determined by its blocks and its endpoint
(`entries`). Each step of the pruning loop moves the endpoint down to the next one that the
failed requirement allows, and what it passes over violates the same requirement; so the loop
ends at the greatest endpoint that satisfies all of them.
-/

namespace TrtLlm.KvCacheV2

open List

/-- `MatchResult`. -/
structure MatchResult where
  block : ℕ
  numMatchedTokens : ℕ
deriving DecidableEq, Repr

/-- `ReuseMatch`. -/
structure ReuseMatch where
  blocks : List ℕ
  numTokens : ℕ
  numLookupTokens : ℕ
  numReusableTokensBeforeHybridPruning : ℕ
  numReusableTokensBeforePruning : ℕ
deriving DecidableEq, Repr

/-- `Block::partialMatchThisNode`: the number of leading tokens that agree. -/
def partialMatchThisNode : List TokenIdExt → List TokenIdExt → ℕ
  | token :: tokens, other :: otherTokens =>
    if token = other then partialMatchThisNode tokens otherTokens + 1 else 0
  | _, _ => 0

/-- `numMatchedTokens`. -/
def numMatchedTokens (matched : List MatchResult) (tokensPerBlock : ℕ) : ℕ :=
  match matched.getLast? with
  | none => 0
  | some last => tokensPerBlock * (matched.length - 1) + last.numMatchedTokens

/-- The loop of `backOffMatch`, from the last entry on. -/
def backOffLoop : List MatchResult → ℕ → List MatchResult
  | [], _ => []
  | last :: before, backoff =>
    if backoff = 0 then last :: before
    else if backoff < last.numMatchedTokens then
      { last with numMatchedTokens := last.numMatchedTokens - backoff } :: before
    else backOffLoop before (backoff - last.numMatchedTokens)

/-- `backOffMatch`. -/
def backOffMatch (matched : List MatchResult) (backoff : ℕ) : List MatchResult :=
  (backOffLoop matched.reverse backoff).reverse

namespace BlockRadixTree

variable {Key : Type*} [DecidableEq Key] (keys : KeyScheme Key) (tree : BlockRadixTree Key)

/-! ### The walk along the keys -/

/-- `findBestPartialMatchInNextNodes`. A node with many children is not searched. -/
def findBestPartialMatchInNextNodes (nextMap : UMap Key ℕ) (tokens : List TokenIdExt) :
    Option MatchResult :=
  if 32 ≤ nextMap.size then none
  else nextMap.entries.foldl
    (fun best child =>
      let m := partialMatchThisNode (tree.tokensOf child.2) tokens
      if (best.elim 0 MatchResult.numMatchedTokens) < m then some ⟨child.2, m⟩ else best) none

/-- The loop of `matchTokenPath` over the blocks of the query. -/
def matchSteps (enablePartialMatch : Bool) :
    Key → UMap Key ℕ → List (List TokenIdExt) → List MatchResult
  | _, _, [] => []
  | prevKey, currentNext, step :: steps =>
    match currentNext.find? (keys.makeKey prevKey step) with
    | some id =>
      ⟨id, step.length⟩
        :: matchSteps enablePartialMatch (keys.makeKey prevKey step) (tree.next (.block id)) steps
    | none =>
      if enablePartialMatch then (tree.findBestPartialMatchInNextNodes currentNext step).toList
      else []

/-- `BlockRadixTree::matchTokenPath`. -/
def matchTokenPath (reuseScope : ReuseScope) (tokens : List TokenIdExt)
    (enablePartialMatch : Bool) : List MatchResult :=
  if keys.rootKey reuseScope ∈ tree.mRoots then
    matchSteps keys tree enablePartialMatch (keys.rootKey reuseScope)
      (tree.next (.root (keys.rootKey reuseScope))) (blocksOf tree.mTokensPerBlock tokens)
  else []

/-! ### Pruning -/

/-- The recurrent-state step of the pruning loop: the match is cut at the last snapshot that it
reaches. -/
def cutAtSnapshot (ssmLcId : ℕ) : List MatchResult → List MatchResult
  | [] => []
  | entry :: rest =>
    match cutAtSnapshot ssmLcId rest with
    | [] =>
      let snapshotLen := tree.pageCoverage entry.block ssmLcId
      if 0 < snapshotLen ∧ snapshotLen ≤ entry.numMatchedTokens then
        [{ entry with numMatchedTokens := snapshotLen }]
      else []
    | cut => entry :: cut

/-- Whether a block constrains the match: not between the sinks and the window, and only as a
sink when the window is optional. -/
def constrains (attn : AttnLifeCycle) (stale : HalfOpenRange) (i : ℕ) : Bool :=
  !((stale.beg ≤ i && i < stale.fin)
    || (attn.reusePolicy = .SINK_REQUIRED_ONLY && stale.beg ≤ i))

/-- The attention step for one life cycle: the match is cut at the first block that its page
does not cover, or left as it is (`none`). -/
def cutUncovered (lcId : ℕ) (attn : AttnLifeCycle) (stale : HalfOpenRange) :
    ℕ → List MatchResult → Option (List MatchResult)
  | _, [] => none
  | i, entry :: rest =>
    let coverage := tree.pageCoverage entry.block lcId
    if constrains attn stale i && coverage < entry.numMatchedTokens then
      if 0 < coverage then some [{ entry with numMatchedTokens := coverage }] else some []
    else (cutUncovered lcId attn stale (i + 1) rest).map (entry :: ·)

/-- The attention step: the first life cycle that shortens the match. -/
def shorten (matched : List MatchResult) : Option (List MatchResult) :=
  tree.mLifeCycles.attentionLifeCycles.findSome? fun lc =>
    if lc.2.reusePolicy = .REQUIRED ∨ lc.2.reusePolicy = .SINK_REQUIRED_ONLY then
      let numTok := numMatchedTokens matched tree.mTokensPerBlock
      cutUncovered tree lc.1 lc.2 (lc.2.getStaleRange numTok tree.mTokensPerBlock) 0 matched
    else none

/-- What the pruning loop decreases. -/
def weight (matched : List MatchResult) : ℕ := (matched.map fun m => m.numMatchedTokens + 1).sum

omit [DecidableEq Key] in
lemma weight_cutAtSnapshot (ssmLcId : ℕ) (matched : List MatchResult) :
    weight (tree.cutAtSnapshot ssmLcId matched) ≤ weight matched := by
  induction matched with
  | nil => exact le_rfl
  | cons entry rest ih =>
    simp only [cutAtSnapshot]
    split
    · split_ifs with h
      · simp only [weight, map_cons, map_nil, sum_cons, sum_nil]
        omega
      · exact Nat.zero_le _
    · simp only [weight, map_cons, sum_cons] at ih ⊢
      omega

omit [DecidableEq Key] in
lemma weight_cutUncovered {lcId : ℕ} {attn : AttnLifeCycle} {stale : HalfOpenRange} {i : ℕ}
    {matched cut : List MatchResult}
    (h : tree.cutUncovered lcId attn stale i matched = some cut) : weight cut < weight matched := by
  induction matched generalizing i cut with
  | nil => cases h
  | cons entry rest ih =>
    simp only [cutUncovered] at h
    split at h
    · rename_i huncovered
      simp only [Bool.and_eq_true, decide_eq_true_eq] at huncovered
      split at h
      all_goals
        cases h
        simp only [weight, map_cons, map_nil, sum_cons, sum_nil]
        omega
    · obtain ⟨cut', hcut, rfl⟩ := Option.map_eq_some_iff.1 h
      have := ih hcut
      simp only [weight, map_cons, sum_cons] at this ⊢
      omega

omit [DecidableEq Key] in
lemma weight_shorten {matched cut : List MatchResult} (h : tree.shorten matched = some cut) :
    weight cut < weight matched := by
  obtain ⟨lc, -, h⟩ := exists_of_findSome?_eq_some h
  split at h
  · exact weight_cutUncovered tree h
  · cases h

/-- The match that a round of the pruning loop starts from. -/
def snapshotCandidate (ssmLcId : Option ℕ) (matched : List MatchResult) : List MatchResult :=
  match ssmLcId with
  | some lcId => tree.cutAtSnapshot lcId matched
  | none => matched

/-- `BlockRadixTree::pruneMatch`. Every further round starts from a shorter match. -/
def pruneMatch (ssmLcId : Option ℕ) (matched : List MatchResult) : List MatchResult :=
  match _h : tree.shorten (tree.snapshotCandidate ssmLcId matched) with
  | none => tree.snapshotCandidate ssmLcId matched
  | some shorter => pruneMatch ssmLcId shorter
termination_by weight matched
decreasing_by
  refine (tree.weight_shorten _h).trans_le ?_
  cases ssmLcId with
  | none => exact le_rfl
  | some lcId => exact tree.weight_cutAtSnapshot lcId matched

/-- `BlockRadixTree::match`. -/
def reuseMatch (reuseScope : ReuseScope) (tokens : List TokenIdExt) (enablePartialMatch : Bool)
    (backoff : ℕ) : ReuseMatch :=
  let rawMatched := tree.matchTokenPath keys reuseScope tokens enablePartialMatch
  let ssmLcId := tree.mLifeCycles.requiredSsmLifeCycleId
  let backedOff := backOffMatch rawMatched backoff
  let matched := tree.pruneMatch ssmLcId backedOff
  { blocks := matched.map MatchResult.block
    numTokens := numMatchedTokens matched tree.mTokensPerBlock
    numLookupTokens := tokens.length
    numReusableTokensBeforeHybridPruning :=
      if ssmLcId.isSome then numMatchedTokens (tree.pruneMatch none backedOff) tree.mTokensPerBlock
      else numMatchedTokens matched tree.mTokensPerBlock
    numReusableTokensBeforePruning := numMatchedTokens rawMatched tree.mTokensPerBlock }

end BlockRadixTree

end TrtLlm.KvCacheV2
