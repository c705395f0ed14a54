import Mathlib
import TrtLlm.Scheduler.LlmRequest

/-!
The micro-batch scheduler: which of the active requests run in the next step of the engine,
and how large a chunk of its context each of them processes (`microBatchScheduler.cpp`).

Token counts are integers, since the chunking policies subtract costs from capacities. A
failed check of the source is the result `none`. `std::sort` and `std::partition` are modelled
by their stable counterparts; nothing below depends on the order of equal elements.
-/

namespace TrtLlm

open Option

/-- `ContextChunkingPolicy`. -/
inductive ContextChunkingPolicy where
  | kFIRST_COME_FIRST_SERVED
  | kEQUAL_PROGRESS
  | kFORCE_CHUNK
deriving DecidableEq, Repr

/-- `ContextChunkingConfig`. -/
structure ContextChunkingConfig where
  chunkingPolicy : ContextChunkingPolicy
  chunkUnitSize : ℕ
  chunkUnitSize_pos : 1 ≤ chunkUnitSize

/-- `reuse_adjusted_compute`: the tokens of a chunk that the forward pass computes. -/
def reuseAdjustedCompute (chunkSize reusable contextRemaining : ℤ) : ℤ :=
  if reusable ≤ 0 then chunkSize
  else if reusable + chunkSize < contextRemaining then chunkSize
  else max 0 (contextRemaining - reusable)

namespace LlmRequest

section

variable (req : LlmRequest)

/-- The chunk size may be set in the context phase and in the generation init phase. -/
def hasContextChunk : Bool :=
  req.isContextInitState || req.isDisaggGenerationInitState
    || req.isDisaggGenerationTransmissionComplete

def withChunkSize (size : ℕ) : LlmRequest := { req with contextChunkSize := size }

def withDraftTokens (n : ℕ) : LlmRequest := { req with numDraftTokens := n }

def setContextChunkSize (size : ℤ) : Option LlmRequest :=
  if req.hasContextChunk && 0 ≤ size then
    some (req.withChunkSize (min size req.contextRemainingLength).toNat)
  else none

def discardDraftTokens (numTokensToDiscard : ℤ) : Option LlmRequest :=
  if 0 < numTokensToDiscard ∧ numTokensToDiscard ≤ req.numDraftTokens then
    some (req.withDraftTokens (req.numDraftTokens - numTokensToDiscard).toNat)
  else none

/-- The reusable tokens that count: they are known for the first chunk only. -/
def reusableTokens : ℕ :=
  if req.isFirstContextChunk then req.estimatedReusableTokens else 0

/-- The reusable tokens within the remaining context. -/
def reusableRemaining : ℤ :=
  if req.isFirstContextChunk then min req.estimatedReusableTokens req.contextRemainingLength else 0

/-- The cost of a chunk of the given size, as the chunking policies compute it. -/
def chunkCompute (chunkSize : ℤ) : ℤ :=
  reuseAdjustedCompute chunkSize req.reusableRemaining req.contextRemainingLength

end

section

variable (req : LlmRequest) (c : ℕ)

@[simp] lemma withChunkSize_size : (req.withChunkSize c).contextChunkSize = c := rfl

@[simp] lemma withChunkSize_remaining :
    (req.withChunkSize c).contextRemainingLength = req.contextRemainingLength := rfl

@[simp] lemma withChunkSize_chunkCompute (size : ℤ) :
    (req.withChunkSize c).chunkCompute size = req.chunkCompute size := rfl

end

lemma setContextChunkSize_eq_some {req req' : LlmRequest} {size : ℤ}
    (h : req.setContextChunkSize size = some req') :
    0 ≤ size ∧ req' = req.withChunkSize (min size.toNat req.contextRemainingLength) := by
  simp only [setContextChunkSize] at h
  split at h
  · rename_i hsize
    simp only [Bool.and_eq_true, decide_eq_true_eq] at hsize
    refine ⟨hsize.2, (some.inj h).symm.trans (congrArg _ ?_)⟩
    omega
  · cases h

lemma discardDraftTokens_eq_some {req req' : LlmRequest} {n : ℤ}
    (h : req.discardDraftTokens n = some req') :
    n ≤ req.numDraftTokens ∧ req' = req.withDraftTokens (req.numDraftTokens - n).toNat := by
  simp only [discardDraftTokens] at h
  split at h
  · rename_i hn
    exact ⟨hn.2, (some.inj h).symm⟩
  · cases h

end LlmRequest

namespace MicroBatchScheduler

/-! ### Equal progress -/

section EqualProgress

variable (ctxTokensCapacity : Option ℤ) (chunkUnitSize : ℕ) (maxContextLength : Option ℕ)

/-- The capacity is set and less than the given count. -/
def overCapacity (tokens : ℤ) : Bool := ctxTokensCapacity.any fun capacity => capacity < tokens

/-- The length limit is set and less than the given size. -/
def overLength (size : ℤ) : Bool := maxContextLength.any fun length : ℕ => (length : ℤ) < size

/-- One request is offered one more chunk unit; the result has the increments of the compute
tokens and of the chunk size. The request is put back to its past size when the capacity or the
context length would be exceeded. -/
def offerChunkUnit (llmReq : LlmRequest) (numCtxTokens : ℤ) : Option (LlmRequest × ℤ × ℤ) :=
  (llmReq.setContextChunkSize (llmReq.contextChunkSize + chunkUnitSize)).bind fun grown =>
    let computeIncrement := grown.chunkCompute grown.contextChunkSize
      - grown.chunkCompute llmReq.contextChunkSize
    if overCapacity ctxTokensCapacity (numCtxTokens + computeIncrement)
        || overLength maxContextLength grown.contextChunkSize then
      (grown.setContextChunkSize llmReq.contextChunkSize).map fun restored => (restored, 0, 0)
    else
      some (grown, computeIncrement, (grown.contextChunkSize : ℤ) - llmReq.contextChunkSize)

/-- The requests and the counters after one pass of the loop. -/
structure EqualProgress where
  requests : List LlmRequest
  numCtxTokens : ℤ
  numTokensSingleLoop : ℤ

/-- The body of the loop: one pass over the requests. -/
def equalProgressPass : List LlmRequest → ℤ → Option EqualProgress
  | [], numCtxTokens => some ⟨[], numCtxTokens, 0⟩
  | llmReq :: rest, numCtxTokens =>
    (offerChunkUnit ctxTokensCapacity chunkUnitSize maxContextLength llmReq numCtxTokens).bind
      fun offer => (equalProgressPass rest (numCtxTokens + offer.2.1)).map fun p =>
        ⟨offer.1 :: p.requests, p.numCtxTokens, offer.2.2 + p.numTokensSingleLoop⟩

/-- How far a chunk size is from the whole remaining context. -/
def chunkGap (llmReq : LlmRequest) : ℕ :=
  ((llmReq.contextRemainingLength : ℤ) - llmReq.contextChunkSize).natAbs

variable {ctxTokensCapacity chunkUnitSize maxContextLength}

lemma offerChunkUnit_cases {llmReq : LlmRequest} {numCtxTokens : ℤ} {offer : LlmRequest × ℤ × ℤ}
    (h : offerChunkUnit ctxTokensCapacity chunkUnitSize maxContextLength llmReq numCtxTokens
      = some offer) :
    (offer = (llmReq.withChunkSize
        (min llmReq.contextChunkSize llmReq.contextRemainingLength), 0, 0))
    ∨ ∃ grown : LlmRequest, grown = llmReq.withChunkSize
          (min (llmReq.contextChunkSize + chunkUnitSize) llmReq.contextRemainingLength)
        ∧ offer = (grown, grown.chunkCompute grown.contextChunkSize
            - llmReq.chunkCompute llmReq.contextChunkSize,
            (grown.contextChunkSize : ℤ) - llmReq.contextChunkSize)
        ∧ overCapacity ctxTokensCapacity (numCtxTokens + offer.2.1) = false
        ∧ overLength maxContextLength grown.contextChunkSize = false := by
  simp only [offerChunkUnit, bind_eq_some_iff] at h
  obtain ⟨grown, hgrown, h⟩ := h
  obtain ⟨-, rfl⟩ := LlmRequest.setContextChunkSize_eq_some hgrown
  split at h
  · obtain ⟨restored, hrestored, rfl⟩ := map_eq_some_iff.1 h
    obtain ⟨-, rfl⟩ := LlmRequest.setContextChunkSize_eq_some hrestored
    exact .inl rfl
  · rename_i hover
    simp only [Bool.or_eq_true, not_or, Bool.not_eq_true] at hover
    cases h
    exact .inr ⟨_, rfl, rfl, hover⟩

/-- A pass brings the requests closer to their remaining contexts unless no chunk size
changed. -/
lemma equalProgressPass_gap {requests : List LlmRequest} {numCtxTokens : ℤ} {p : EqualProgress}
    (h : equalProgressPass ctxTokensCapacity chunkUnitSize maxContextLength requests numCtxTokens
      = some p) :
    (p.requests.map chunkGap).sum ≤ (requests.map chunkGap).sum
      ∧ (p.numTokensSingleLoop ≠ 0
        → (p.requests.map chunkGap).sum < (requests.map chunkGap).sum) := by
  induction requests generalizing numCtxTokens p with
  | nil =>
    cases h
    simp
  | cons llmReq rest ih =>
    simp only [equalProgressPass, bind_eq_some_iff, map_eq_some_iff] at h
    obtain ⟨offer, hoffer, q, hq, rfl⟩ := h
    obtain ⟨hle, hlt⟩ := ih hq
    have hgap : chunkGap offer.1 ≤ chunkGap llmReq
        ∧ (offer.2.2 ≠ 0 → chunkGap offer.1 < chunkGap llmReq) := by
      obtain rfl | ⟨grown, rfl, rfl, -⟩ := offerChunkUnit_cases hoffer
      all_goals
        simp only [chunkGap, LlmRequest.withChunkSize_remaining, LlmRequest.withChunkSize_size]
        omega
    simp only [List.map_cons, List.sum_cons]
    omega

variable (ctxTokensCapacity chunkUnitSize maxContextLength)

/-- The loop of `setCtxRequestsChunkSize<kEQUAL_PROGRESS>`. -/
def equalProgressLoop (requests : List LlmRequest) (numCtxTokens : ℤ) :
    Option (List LlmRequest) :=
  if ctxTokensCapacity.all fun capacity => numCtxTokens < capacity then
    match _h : equalProgressPass ctxTokensCapacity chunkUnitSize maxContextLength requests
        numCtxTokens with
    | none => none
    | some p =>
      if _hmore : p.numTokensSingleLoop = 0 then some p.requests
      else equalProgressLoop p.requests p.numCtxTokens
  else some requests
termination_by (requests.map chunkGap).sum
decreasing_by exact (equalProgressPass_gap _h).2 _hmore

end EqualProgress

/-! ### First come, first served -/

section FirstComeFirstServed

variable (chunkUnitSize : ℕ) (maxContextLength : Option ℕ)

/-- The first constraint: the whole remaining context if it is affordable, else the capacity. -/
def capacityChunk (ctxTokensCapacity : Option ℤ) (llmReq : LlmRequest) : ℤ :=
  match ctxTokensCapacity with
  | some capacity =>
    if capacity < llmReq.chunkCompute llmReq.contextRemainingLength then capacity
    else llmReq.contextRemainingLength
  | none => llmReq.contextRemainingLength

/-- The second constraint: the cost of a chunk is bounded by the maximal context length. -/
def lengthChunk (llmReq : LlmRequest) (actualChunkSize : ℤ) : ℤ :=
  match maxContextLength with
  | some length =>
    if length < llmReq.chunkCompute actualChunkSize then
      min length llmReq.contextRemainingLength
    else actualChunkSize
  | none => actualChunkSize

/-- The chunk size of one request under `kFIRST_COME_FIRST_SERVED`; a chunk that was cut is
aligned down to the chunk unit. -/
def firstComeChunk (ctxTokensCapacity : Option ℤ) (llmReq : LlmRequest) : ℤ :=
  let actualChunkSize :=
    lengthChunk maxContextLength llmReq (capacityChunk ctxTokensCapacity llmReq)
  if actualChunkSize ≠ llmReq.contextRemainingLength then
    actualChunkSize.tdiv chunkUnitSize * chunkUnitSize
  else actualChunkSize

/-- `setCtxRequestsChunkSize<kFIRST_COME_FIRST_SERVED>`: each request is charged its cost before
the next one is considered. -/
def firstComeFirstServed : Option ℤ → List LlmRequest → Option (List LlmRequest)
  | _, [] => some []
  | ctxTokensCapacity, llmReq :: rest =>
    let actualChunkSize := firstComeChunk chunkUnitSize maxContextLength ctxTokensCapacity llmReq
    (llmReq.setContextChunkSize actualChunkSize).bind fun chunked =>
      (firstComeFirstServed
        (ctxTokensCapacity.map fun capacity => capacity - llmReq.chunkCompute actualChunkSize)
        rest).map (chunked :: ·)

end FirstComeFirstServed

/-! ### Forced chunks -/

section ForceChunk

variable (ctxTokensCapacity : Option ℤ) (chunkUnitSize : ℕ) (maxContextLength : Option ℕ)

/-- The least snapshot point beyond the current position. -/
def nextSnapshotPoint (expectedSnapshotPoints : List ℕ) (currentPosition : ℕ) : Option ℕ :=
  expectedSnapshotPoints.foldl
    (fun next point =>
      if currentPosition < point && next.all (point < ·) then some point else next) none

/-- The chunk up to the next snapshot point, or the remaining context. -/
def snapshotChunk (llmReq : LlmRequest) : ℤ :=
  if llmReq.expectedSnapshotPoints.isEmpty then llmReq.contextRemainingLength
  else match nextSnapshotPoint llmReq.expectedSnapshotPoints llmReq.contextCurrentPosition with
    | some point =>
      max 0 ((min point llmReq.mPromptLen : ℕ) - (llmReq.contextCurrentPosition : ℤ))
    | none => llmReq.contextRemainingLength

/-- A snapshot chunk beyond the maximal context length is cut to whole chunk units. -/
def boundedSnapshotChunk (llmReq : LlmRequest) : ℤ :=
  match maxContextLength with
  | some length =>
    if length < snapshotChunk llmReq then (length : ℤ).tdiv chunkUnitSize * chunkUnitSize
    else snapshotChunk llmReq
  | none => snapshotChunk llmReq

/-- The chunk size of one request under `kFORCE_CHUNK`, after `totalTokens` of the others. -/
def forcedChunk (llmReq : LlmRequest) (totalTokens : ℤ) : ℤ :=
  let chunkSize := boundedSnapshotChunk chunkUnitSize maxContextLength llmReq
  match ctxTokensCapacity with
  | some capacity =>
    if capacity < totalTokens + chunkSize then
      (min chunkSize (max 0 (capacity - totalTokens))).tdiv chunkUnitSize * chunkUnitSize
    else chunkSize
  | none => chunkSize

def forceChunkLoop : List LlmRequest → ℤ → Option (List LlmRequest)
  | [], _ => some []
  | llmReq :: rest, totalTokens =>
    (llmReq.setContextChunkSize
      (forcedChunk ctxTokensCapacity chunkUnitSize maxContextLength llmReq totalTokens)).bind
      fun chunked => (forceChunkLoop rest (totalTokens + chunked.contextChunkSize)).map
        (chunked :: ·)

/-- `setCtxRequestsChunkSize<kFORCE_CHUNK>`. -/
def forceChunk (requests : List LlmRequest) : Option (List LlmRequest) :=
  if maxContextLength.any (· < chunkUnitSize) then none
  else forceChunkLoop ctxTokensCapacity chunkUnitSize maxContextLength requests 0

end ForceChunk

/-! ### Draft tokens -/

section FitDraftTokens

variable (ctxTokensCapacity : Option ℤ) (chunkUnitSize : ℕ) (maxContextLength : Option ℕ)

/-- How many draft tokens fit behind the chunk: in its last chunk unit, below the maximal
context length and within the capacity. -/
def spaceForDraftTokens (llmReq : LlmRequest) (numCtxTokens : ℤ) : ℤ :=
  let remainder := llmReq.contextChunkSize % chunkUnitSize
  let inUnit : ℤ := if remainder = 0 then 0 else chunkUnitSize - remainder
  let inContext := match maxContextLength with
    | some length => min inUnit (length - llmReq.contextChunkSize)
    | none => inUnit
  match ctxTokensCapacity with
  | some capacity => min inContext (capacity - numCtxTokens)
  | none => inContext

/-- Draft tokens beyond the space are discarded. -/
def keepDraftTokens (llmReq : LlmRequest) (space : ℤ) : Option LlmRequest :=
  if 0 < llmReq.numDraftTokens - space then
    llmReq.discardDraftTokens (llmReq.numDraftTokens - space)
  else some llmReq

def fitDraftLoop : List LlmRequest → ℤ → Option (List LlmRequest)
  | [], _ => some []
  | llmReq :: rest, numCtxTokens =>
    if llmReq.isLastContextChunk && llmReq.hasDraftTokens then
      let space := spaceForDraftTokens ctxTokensCapacity chunkUnitSize maxContextLength llmReq
        numCtxTokens
      (keepDraftTokens llmReq space).bind fun kept =>
        (fitDraftLoop rest (if ctxTokensCapacity.isSome then numCtxTokens + space
          else numCtxTokens)).map (kept :: ·)
    else (fitDraftLoop rest numCtxTokens).map (llmReq :: ·)

/-- `MicroBatchScheduler::fitDraftTokens`. -/
def fitDraftTokens (contextsToBeChunked : List LlmRequest) : Option (List LlmRequest) :=
  fitDraftLoop ctxTokensCapacity chunkUnitSize maxContextLength contextsToBeChunked
    (contextsToBeChunked.map fun llmReq => llmReq.chunkCompute llmReq.contextChunkSize).sum

end FitDraftTokens

/-- The dispatch over the policies. -/
def chunkByPolicy (policy : ContextChunkingPolicy) (ctxTokensCapacity : Option ℤ)
    (chunkUnitSize : ℕ) (maxContextLength : Option ℕ) (contexts : List LlmRequest) :
    Option (List LlmRequest) :=
  match policy with
  | .kEQUAL_PROGRESS =>
    equalProgressLoop ctxTokensCapacity chunkUnitSize maxContextLength contexts 0
  | .kFIRST_COME_FIRST_SERVED =>
    firstComeFirstServed chunkUnitSize maxContextLength ctxTokensCapacity contexts
  | .kFORCE_CHUNK => forceChunk ctxTokensCapacity chunkUnitSize maxContextLength contexts

/-- `MicroBatchScheduler::setCtxRequestsChunkSize`. -/
def setCtxRequestsChunkSize (contextsToBeChunked : List LlmRequest)
    (ctxChunkPolicy : ContextChunkingPolicy) (ctxTokensCapacity : Option ℤ) (chunkUnitSize : ℕ)
    (maxContextLength : Option ℕ) : Option (List LlmRequest) :=
  (contextsToBeChunked.mapM fun llmReq : LlmRequest => llmReq.setContextChunkSize 0).bind
    fun reset =>
    (chunkByPolicy ctxChunkPolicy ctxTokensCapacity chunkUnitSize maxContextLength reset).bind
      (fitDraftTokens ctxTokensCapacity chunkUnitSize maxContextLength)

end MicroBatchScheduler

/-! ### The scheduler -/

/-- The members of `MicroBatchScheduler`. -/
structure MicroBatchScheduler where
  mMaxContextLength : Option ℕ
  mCtxChunkConfig : Option ContextChunkingConfig
  mNoScheduleUntilState : LlmRequestState
  mNoScheduleAfterState : LlmRequestState

namespace MicroBatchScheduler

/-- The locals of `MicroBatchScheduler::operator()`. -/
structure Selection where
  contextRequests : List LlmRequest
  generationRequests : List LlmRequest
  batchNumTokens : ℕ
  scheduledReqSize : ℕ
  /-- Zero while no generation request is scheduled. -/
  scheduledBeamWidth : ℕ
  contextsToBeChunked : List LlmRequest
  numChunkedComputeTokens : ℤ
  allContextRequestsFit : Bool

/-- How one request of the scan ends: the loop continues, breaks, or the request is taken. -/
inductive Taken where
  | skipped
  | full
  | taken (s : Selection)

section Select

variable (sched : MicroBatchScheduler) (maxNumTokensRuntime : Option ℕ)

/-- The token budget is set and would be exceeded. -/
def overBudget (tokens : ℕ) : Bool := maxNumTokensRuntime.any fun budget => budget < tokens

section

variable (llmReq : LlmRequest)

/-- An encoder request is charged its encoder output length. -/
def selectEncoder (s : Selection) : Option Taken :=
  if overLength sched.mMaxContextLength llmReq.encoderOutputLen then none
  else if overBudget maxNumTokensRuntime (s.batchNumTokens + llmReq.encoderOutputLen) then
    some .full
  else
    some (.taken { s with
      contextRequests := s.contextRequests ++ [llmReq]
      batchNumTokens := s.batchNumTokens + llmReq.encoderOutputLen })

/-- The tokens of a context request that is not chunked. -/
def wholeContextCompute : ℤ :=
  reuseAdjustedCompute llmReq.numTokens llmReq.reusableTokens llmReq.contextRemainingLength
    + llmReq.numDraftTokens

/-- A context request without chunking. -/
def selectWholeContext (s : Selection) : Option Taken :=
  let computeTokens := (max 1 (wholeContextCompute llmReq)).toNat
  if overLength sched.mMaxContextLength computeTokens then none
  else if overBudget maxNumTokensRuntime (s.batchNumTokens + computeTokens) then some .full
  else
    some (.taken { s with
      contextRequests := s.contextRequests ++ [llmReq]
      batchNumTokens := s.batchNumTokens + computeTokens })

/-- The draft tokens that a chunk carries: those of the request if the chunk is the last one. -/
def keptDrafts : ℤ :=
  if llmReq.isLastContextChunk && llmReq.hasDraftTokens then llmReq.numDraftTokens else 0

/-- The tokens of a context request at its chunk size. -/
def chunkTokens : ℤ :=
  reuseAdjustedCompute llmReq.contextChunkSize llmReq.reusableTokens llmReq.contextRemainingLength
    + keptDrafts llmReq

/-- A context request that may be chunked is collected with its whole remaining context. -/
def selectChunkedContext (s : Selection) : Option Taken :=
  (llmReq.setContextChunkSize llmReq.contextRemainingLength).map fun whole =>
    let tooLong := overLength sched.mMaxContextLength (chunkTokens whole)
    .taken { s with
      contextsToBeChunked := s.contextsToBeChunked ++ [whole]
      numChunkedComputeTokens := s.numChunkedComputeTokens
        + if tooLong then ((sched.mMaxContextLength.getD 0 : ℕ) : ℤ) else chunkTokens whole
      allContextRequestsFit := s.allContextRequestsFit && !tooLong }

/-- A generation request is charged its beam width and its draft tokens. -/
def selectGeneration (s : Selection) : Option Taken :=
  let reqNumTokens := llmReq.beamWidth + llmReq.numDraftTokens
  if overBudget maxNumTokensRuntime (s.batchNumTokens + reqNumTokens) then some .full
  else if s.scheduledBeamWidth ≠ 0 ∧ s.scheduledBeamWidth ≠ llmReq.beamWidth then some .skipped
  else
    some (.taken { s with
      generationRequests := s.generationRequests ++ [llmReq]
      batchNumTokens := s.batchNumTokens + reqNumTokens
      scheduledBeamWidth :=
        if s.scheduledBeamWidth = 0 then llmReq.beamWidth else s.scheduledBeamWidth })

def select (s : Selection) : Option Taken :=
  if llmReq.isEncoderInitState then selectEncoder sched maxNumTokensRuntime llmReq s
  else if llmReq.isContextInitState then
    if sched.mCtxChunkConfig.isNone then selectWholeContext sched maxNumTokensRuntime llmReq s
    else selectChunkedContext sched llmReq s
  else selectGeneration maxNumTokensRuntime llmReq s

end

/-- The scan of the active requests. The batch limit is checked after a request is taken. -/
def selectLoop (inflightReqIds : List ℕ) (maxBatchSizeRuntime : ℕ) :
    List LlmRequest → Selection → Option Selection
  | [], s => some s
  | llmReq :: rest, s =>
    if !llmReq.hasReachedState sched.mNoScheduleUntilState
        || llmReq.hasReachedState sched.mNoScheduleAfterState
        || llmReq.mRequestId ∈ inflightReqIds then
      selectLoop inflightReqIds maxBatchSizeRuntime rest s
    else match select sched maxNumTokensRuntime llmReq s with
      | none => none
      | some .skipped => selectLoop inflightReqIds maxBatchSizeRuntime rest s
      | some .full => some s
      | some (.taken t) =>
        let counted := { t with scheduledReqSize := t.scheduledReqSize + 1 }
        if maxBatchSizeRuntime ≤ counted.scheduledReqSize then some counted
        else selectLoop inflightReqIds maxBatchSizeRuntime rest counted

end Select

/-- The order of `std::optional`: requests without an adapter come first. -/
def loraLe (lhs rhs : LlmRequest) : Bool :=
  match lhs.loraTaskId, rhs.loraTaskId with
  | none, _ => true
  | some _, none => false
  | some l, some r => l ≤ r

def sortByLoraId (requests : List LlmRequest) : List LlmRequest := requests.mergeSort loraLe

/-- `sortRequests`. Asking whether a chunk is the last one fails outside the context phase. -/
def sortRequests (contextRequests generationRequests : List LlmRequest) (chunksPresent : Bool) :
    Option (List LlmRequest × List LlmRequest) :=
  if chunksPresent then
    if contextRequests.all LlmRequest.hasContextChunk then
      some (sortByLoraId (contextRequests.filter fun llmReq => !llmReq.isLastContextChunk)
        ++ sortByLoraId (contextRequests.filter fun llmReq => llmReq.isLastContextChunk),
        sortByLoraId generationRequests)
    else none
  else some (sortByLoraId contextRequests, sortByLoraId generationRequests)

section Run

variable (sched : MicroBatchScheduler) (maxNumTokensRuntime : Option ℕ)

/-- Whether the collected contexts run whole. -/
def allFit (s : Selection) : Bool :=
  s.allContextRequestsFit
    && !(maxNumTokensRuntime.any fun budget : ℕ =>
      (budget : ℤ) - s.batchNumTokens < s.numChunkedComputeTokens)
    && !(sched.mCtxChunkConfig.any fun config => config.chunkingPolicy = .kFORCE_CHUNK)

/-- The collected contexts with their final chunk sizes. -/
def chunkContexts (s : Selection) : Option (List LlmRequest) :=
  if allFit sched maxNumTokensRuntime s then some s.contextsToBeChunked
  else sched.mCtxChunkConfig.bind fun config =>
    setCtxRequestsChunkSize s.contextsToBeChunked config.chunkingPolicy
      (maxNumTokensRuntime.map fun budget : ℕ => (budget : ℤ) - s.batchNumTokens)
      config.chunkUnitSize sched.mMaxContextLength

/-- `MicroBatchScheduler::operator()`. -/
def schedule (activeRequests : List LlmRequest) (inflightReqIds : List ℕ)
    (maxBatchSizeRuntime : ℕ) : Option (List LlmRequest × List LlmRequest) :=
  (selectLoop sched maxNumTokensRuntime inflightReqIds maxBatchSizeRuntime activeRequests
    ⟨[], [], 0, 0, 0, [], 0, true⟩).bind fun s =>
      (chunkContexts sched maxNumTokensRuntime s).bind fun chunked =>
        sortRequests
          (s.contextRequests ++ chunked.filter fun llmReq => 0 < llmReq.contextChunkSize)
          s.generationRequests (!allFit sched maxNumTokensRuntime s)

end Run

end MicroBatchScheduler

end TrtLlm
