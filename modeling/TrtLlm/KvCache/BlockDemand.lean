import TrtLlm.Scheduler.CapacityScheduler

/-!
The blocks of one attention window that a request takes from the free pool
(`kvCacheManager.cpp`): `addSequenceBatch` allocates the blocks of the prompt, `addToken` a block
whenever a token starts one, and a sliding window gives back the blocks that it has left behind.
`getRemainingBlocksToCompletion` is the estimate by which requests are admitted.

What the walk of the reuse tree finds for a prompt enters as the list of the blocks it claims.
-/

namespace TrtLlm.KvCache

/-- `tc::ceilDiv`. -/
def ceilDiv (a b : ℕ) : ℕ := (a + b - 1) / b

/-- The members of a `KVCacheManager` that decide how many blocks a request needs. -/
structure ManagerConfig where
  mTokensPerBlock : ℕ
  tokensPerBlock_pos : 0 < mTokensPerBlock
  mChunkSize : ℕ
  maxSequenceLength : ℕ
  mEnableBlockReuse : Bool
  isVariableWindow : Bool
  isCrossKv : Bool

/-- The limits of a request: `mMaxNewTokens`, and the beam width of its sampling
configuration. -/
structure RequestLimits where
  mMaxNewTokens : ℕ
  beamWidth : ℕ
  beamWidth_pos : 0 < beamWidth

/-- `GenerationRequest`, for one window. -/
structure GenerationRequest where
  mNumTokens : ℕ
  mBeamWidth : ℕ
  /-- `getCacheBlockIds(windowSize).at(0).size()`. -/
  numCacheBlocks : ℕ
  /-- `getNumFrontBlocksRemoved(windowSize)`. -/
  numFrontBlocksRemoved : ℕ
deriving DecidableEq

namespace ManagerConfig

variable (cfg : ManagerConfig) (windowSize : ℕ)

/-- `mIsSWA`: the window slides over longer sequences. -/
def isSWA : Bool := windowSize < cfg.maxSequenceLength

/-- `WindowSizeMetadata::maxTokenNum`, without sink tokens. -/
def maxTokenNum : ℕ := max windowSize cfg.maxSequenceLength

/-! ### Inserting a prompt -/

/-- A block of the prompt that the walk of the reuse tree found. -/
inductive ClaimedBlock where
  /-- A match that some sequence holds: its reference count goes up. -/
  | held
  /-- A match that is free: it leaves the free queue. -/
  | cached
  /-- A partial match that is copied into a new block. A source that nobody holds leaves the
  free queue until the copy is done. -/
  | copied (sourceHeld : Bool)
  /-- An anchor of a sliding window that was evicted: a placeholder is put in its place. -/
  | missing
deriving DecidableEq

/-- The blocks that leave the free pool for good. -/
def ClaimedBlock.taken : ClaimedBlock → ℕ
  | held => 0
  | cached => 1
  | copied _ => 1
  | missing => 0

/-- The blocks that leave the free pool until the sequence is inserted. -/
def ClaimedBlock.pinned : ClaimedBlock → ℕ
  | copied false => 1
  | _ => 0

/-- `numContextBlocks`. Sliding windows too get the blocks of the whole prompt. -/
def numContextBlocks (inputLength : ℕ) : ℕ :=
  ceilDiv (min inputLength (cfg.maxTokenNum windowSize)) cfg.mTokensPerBlock

section

variable (inputLength beamWidth : ℕ)

/-- `ClaimResult::numSharedContextBlocks`: the last block of the prompt is not shared by the
beams if it is not full. -/
def numSharedContextBlocks : ℕ :=
  if 1 < beamWidth ∧ min inputLength (cfg.maxTokenNum windowSize) % cfg.mTokensPerBlock ≠ 0 then
    cfg.numContextBlocks windowSize inputLength - 1
  else cfg.numContextBlocks windowSize inputLength

/-- The claims that are used: those of shared blocks. -/
def usedClaims (claims : List ClaimedBlock) : List ClaimedBlock :=
  claims.take (cfg.numSharedContextBlocks windowSize inputLength beamWidth)

/-- The blocks that `onboardAndAllocateBlocks` leaves allocated to the sequence and that were
free: claimed ones, new ones for the rest of the shared blocks, and one for each beam. -/
def takenByContext (claims : List ClaimedBlock) : ℕ :=
  let used := cfg.usedClaims windowSize inputLength beamWidth claims
  let shared := cfg.numSharedContextBlocks windowSize inputLength beamWidth
  (used.map ClaimedBlock.taken).sum + (shared - used.length)
    + (cfg.numContextBlocks windowSize inputLength - shared) * beamWidth

/-- The free blocks that are claimed as the source of a copy. -/
def pinnedByContext (claims : List ClaimedBlock) : ℕ :=
  ((cfg.usedClaims windowSize inputLength beamWidth claims).map ClaimedBlock.pinned).sum

/-- The sequence after `addSequenceBatch`. -/
def addSequence : GenerationRequest where
  mNumTokens := inputLength
  mBeamWidth := beamWidth
  numCacheBlocks := cfg.numContextBlocks windowSize inputLength
  numFrontBlocksRemoved := 0

end

/-! ### Adding a token -/

/-- The loop of `adjustBlocksIfNeeded` that detaches the blocks out of a sliding window. -/
def detachFrontBlocks (seq : GenerationRequest) : GenerationRequest :=
  if cfg.isSWA windowSize
      ∧ windowSize + cfg.mTokensPerBlock
        ≤ seq.mNumTokens - seq.numFrontBlocksRemoved * cfg.mTokensPerBlock then
    detachFrontBlocks { seq with numFrontBlocksRemoved := seq.numFrontBlocksRemoved + 1 }
  else seq
termination_by seq.mNumTokens - seq.numFrontBlocksRemoved * cfg.mTokensPerBlock
decreasing_by
  have hpos := cfg.tokensPerBlock_pos
  rename_i h
  obtain ⟨-, hle⟩ := h
  simp only [Nat.add_mul, Nat.one_mul]
  omega

section

variable (seq : GenerationRequest)

/-- The last token is the first of a block. -/
def startsBlock : Bool :=
  (seq.mNumTokens - 1) % cfg.mTokensPerBlock = 0

/-- The blocks that `allocateBlock` takes: one for all beams if there is one beam only. -/
def takenByToken : ℕ :=
  if cfg.startsBlock { seq with mNumTokens := seq.mNumTokens + 1 } then
    if seq.mBeamWidth = 1 then 1 else seq.mBeamWidth
  else 0

/-- `addToken`. -/
def addToken : GenerationRequest :=
  let seq := cfg.detachFrontBlocks windowSize { seq with mNumTokens := seq.mNumTokens + 1 }
  if cfg.startsBlock seq then { seq with numCacheBlocks := seq.numCacheBlocks + 1 } else seq

end

/-! ### The estimate -/

variable {Key : Type}

/-- The blocks of a beam that a sequence holds. -/
def numAllocBlocksPerBeam : Option GenerationRequest → ℤ
  | some seq => (seq.numCacheBlocks : ℤ) - seq.numFrontBlocksRemoved
  | none => 0

/-- `numContextBlocks` of the estimate: the full blocks of the prompt, as far as they fit the
window and one chunk. -/
def estimatedContextBlocks (promptLen : ℕ) : ℕ :=
  min promptLen (windowSize + cfg.mChunkSize) / cfg.mTokensPerBlock

/-- `numTotalBlocksPerBeam`. -/
def numTotalBlocksPerBeam (maxSeqlen : ℕ) : ℕ :=
  ceilDiv (min maxSeqlen (windowSize + cfg.mChunkSize)) cfg.mTokensPerBlock

/-- `numExtraBlocksPerBeam`: a block that is allocated when the window slides, before the
block out of the window is detached. -/
def numExtraBlocksPerBeam (maxSeqlen numTokens : ℕ) : ℕ :=
  let maxSeqlenInBlocks := ceilDiv maxSeqlen cfg.mTokensPerBlock
  if windowSize < maxSeqlen ∧ ceilDiv numTokens cfg.mTokensPerBlock < maxSeqlenInBlocks
      ∧ cfg.numTotalBlocksPerBeam windowSize maxSeqlen < maxSeqlenInBlocks then 1 else 0

/-- `numReusableContextBlocks`: the context blocks that are not counted, since other sequences
hold them already. -/
def numReusableContextBlocks (req : LlmRequest) (seq : Option GenerationRequest)
    (summary : PrefixReuseSummary Key) : ℕ :=
  if cfg.mEnableBlockReuse && !cfg.isVariableWindow && req.isContextInitState
      && req.isFirstContextChunk && numAllocBlocksPerBeam seq = 0 then
    min (min summary.reusableBlocksAllocated (cfg.estimatedContextBlocks windowSize req.mPromptLen))
      ((req.mPromptLen - 1) / cfg.mTokensPerBlock)
  else 0

/-- `KVCacheManager::getRemainingBlocksToCompletion` for a window of attention, without sink
tokens. -/
def getRemainingBlocksToCompletion (limits : RequestLimits) (req : LlmRequest)
    (seq : Option GenerationRequest) (summary : PrefixReuseSummary Key) : ℤ :=
  if cfg.isCrossKv then
    if req.isContextInitState && req.contextCurrentPosition = 0 then
      ceilDiv req.encoderOutputLen cfg.mTokensPerBlock
    else 0
  else
    let maxSeqlen := req.mPromptLen + limits.mMaxNewTokens
    let numContextBlocks : ℤ := cfg.estimatedContextBlocks windowSize req.mPromptLen
    let numTotalBlocks : ℤ := cfg.numTotalBlocksPerBeam windowSize maxSeqlen
    let numGenBlocksPerBeam := numTotalBlocks - numContextBlocks
    let numAllocBlocks := numAllocBlocksPerBeam seq
    let numReusable : ℤ := cfg.numReusableContextBlocks windowSize req seq summary
    let numExtraBlocks : ℤ := cfg.numExtraBlocksPerBeam windowSize maxSeqlen req.numTokens
    let effectiveContextBlocks := numContextBlocks - numReusable
    if numAllocBlocks < effectiveContextBlocks then
      effectiveContextBlocks - numAllocBlocks
        + (numGenBlocksPerBeam + numExtraBlocks) * limits.beamWidth
    else (numTotalBlocks - numReusable - numAllocBlocks + numExtraBlocks) * limits.beamWidth

end ManagerConfig

end TrtLlm.KvCache
