import Mathlib
import TrtLlm.Scheduler.LlmRequest

/-!
The capacity schedulers: `GuaranteedNoEvictScheduler` (and its static-batch variant) and
`MaxUtilizationScheduler`, each a pass over the active requests that returns the scheduled
and the paused ones.

A KV cache manager enters through what the schedulers ask of it: the prefix summary of a
request, its block demands, and the per-window block accounting on which pausing is
simulated.

`none` stands for an exception thrown out of the pass.
-/

namespace TrtLlm

open List Function

/-- The window sizes under which a manager keeps its blocks. -/
abbrev WindowSize := ℤ

abbrev BlockId := ℕ

/-- `PrefixReuseSummary`: the result of one walk of the radix tree. -/
structure PrefixReuseSummary (Key : Type) where
  reusableBlocksAllocated : ℕ := 0
  reusableBlocksAll : ℕ := 0
  firstNewBlock : Option Key := none

/-- `BaseKVCacheManager`, as far as the capacity schedulers use it. -/
structure KVCacheManager (Key : Type) where
  isEnableBlockReuse : Bool
  isVariableWindow : Bool
  windowSizes : List WindowSize
  windowSizes_nodup : windowSizes.Nodup
  /-- Free primary blocks of each window. -/
  numFreeBlocks : WindowSize → ℕ
  /-- `analyzePrefixReuse` on the unique tokens of the request (of its encoder, for the
  manager of cross attention). -/
  analyzePrefixReuse : LlmRequest → PrefixReuseSummary Key
  getRemainingBlocksToCompletion :
    LlmRequest → WindowSize → Option (PrefixReuseSummary Key) → ℤ
  getNeededBlocksOneStep :
    LlmRequest → Bool → WindowSize → Option (PrefixReuseSummary Key) → ℤ
  /-- `mAllocatedBlocksPerSeq`: the blocks held by a sequence. -/
  allocatedBlocks : WindowSize → ℕ → Option (List BlockId)
  isPlaceholder : WindowSize → BlockId → Bool
  refCount : WindowSize → BlockId → ℕ

/-- `BasePeftCacheManager`: the device pages, and the pages of an adapter. -/
structure PeftCacheManager where
  getMaxDevicePages : ℕ
  numPages : ℕ → ℕ

/-- `determineNumPages`. -/
def PeftCacheManager.determineNumPages (peft : PeftCacheManager) (req : LlmRequest) : ℕ :=
  match req.loraTaskId with
  | some task => peft.numPages task
  | none => 0

/-- The members common to the schedulers. -/
structure SchedulerConfig where
  maxNumRequests : ℕ
  noScheduleUntilState : LlmRequestState
  noScheduleAfterState : LlmRequestState
  enablePrefixAwareScheduling : Bool
  /-- Only read by `MaxUtilizationScheduler`. -/
  twoStepsLookAhead : Bool := false

namespace CapacityScheduler

/-- The request lies in the scheduler's range of states. -/
def inStateWindow (cfg : SchedulerConfig) (req : LlmRequest) : Bool :=
  req.hasReachedState cfg.noScheduleUntilState && !req.hasReachedState cfg.noScheduleAfterState

/-- The requests a pass looks at: those in the range of states, and those of a disaggregated
generation that is being set up or transmitted. -/
def eligible (cfg : SchedulerConfig) (req : LlmRequest) : Bool :=
  req.isDisaggGenerationInitState || req.isDisaggGenerationTransmissionInProgress
    || inStateWindow cfg req

/-- `checkRequiredCrossKvCacheManager`. -/
def checkRequiredCrossKvCacheManager {α : Type} (cfg : SchedulerConfig) (cross : Option α) :
    Option Unit :=
  if cfg.noScheduleUntilState = .kENCODER_INIT ∧ cross.isNone then none else some ()

/-! ### PEFT pages -/

/-- The adapter of the request is not among those seen. -/
def isNewTask (req : LlmRequest) (seen : Finset ℕ) : Bool :=
  match req.loraTaskId with
  | some task => task ∉ seen
  | none => false

/-- The pages that the request adds. -/
def requiredPeftPages (peft : Option PeftCacheManager) (req : LlmRequest) (seen : Finset ℕ) : ℕ :=
  match peft with
  | some peft => if isNewTask req seen then peft.determineNumPages req else 0
  | none => 0

/-- The adapters seen after the request. -/
def seeTask (req : LlmRequest) (seen : Finset ℕ) : Finset ℕ :=
  match req.loraTaskId with
  | some task => insert task seen
  | none => seen

/-! ### Prefix-aware deferral -/

section Prefix

variable {Key : Type} [DecidableEq Key]

/-- The block keys expected from requests of this pass, for the self and the cross pool. -/
structure Contributed (Key : Type) where
  self : List Key := []
  cross : List Key := []

/-- The keys that `prefillWithChunkedContextsAlreadyExecuting` registers for one manager. -/
def prefillKeys (manager : KVCacheManager Key) (applies : LlmRequest → Bool)
    (activeRequests : List LlmRequest) : List Key :=
  if manager.isEnableBlockReuse then
    (activeRequests.filter fun req => req.isStartedContext && applies req).filterMap
      fun req => (manager.analyzePrefixReuse req).firstNewBlock
  else []

/-- `prefillWithChunkedContextsAlreadyExecuting`. -/
def prefillWithChunkedContextsAlreadyExecuting (activeRequests : List LlmRequest)
    (kv : KVCacheManager Key) (cross : Option (KVCacheManager Key)) : Contributed Key where
  self := prefillKeys kv (fun _ => true) activeRequests
  cross :=
    match cross with
    | some cross => prefillKeys cross (·.hasEncoderUniqueTokens) activeRequests
    | none => []

/-- The first new block of a summary, if there is one. -/
def firstNewBlock? (summary : Option (PrefixReuseSummary Key)) : Option Key :=
  summary.bind (·.firstNewBlock)

/-- `oneManagerBeneficialToSkip`. -/
def oneManagerBeneficialToSkip (summary : Option (PrefixReuseSummary Key)) (keys : List Key) :
    Bool :=
  (firstNewBlock? summary).any (· ∈ keys)

/-- `beneficialToSkip`. -/
def beneficialToSkip (summary crossSummary : Option (PrefixReuseSummary Key))
    (contributed : Contributed Key) : Bool :=
  oneManagerBeneficialToSkip summary contributed.self
    || oneManagerBeneficialToSkip crossSummary contributed.cross

/-- `registerContributedBlocks`. -/
def registerContributedBlocks (summary crossSummary : Option (PrefixReuseSummary Key))
    (contributed : Contributed Key) : Contributed Key where
  self := (firstNewBlock? summary).toList ++ contributed.self
  cross := (firstNewBlock? crossSummary).toList ++ contributed.cross

/-! ### Guaranteed no evict -/

/-- The block demands that `enoughAvailableBlocks` caches for `commitBlocks`. -/
def neededBlocks (kv : KVCacheManager Key) (req : LlmRequest)
    (summary : Option (PrefixReuseSummary Key)) : List (WindowSize × ℤ) :=
  kv.windowSizes.map fun w => (w, kv.getRemainingBlocksToCompletion req w summary)

section

variable (available : WindowSize → ℤ) (needed : List (WindowSize × ℤ))

/-- `NoEvictScheduledBlocksManager::enoughAvailableBlocks`. -/
def enoughAvailableBlocks : Bool :=
  needed.all fun p => p.2 ≤ available p.1

/-- `NoEvictScheduledBlocksManager::commitBlocks`. -/
def commitBlocks :
    WindowSize → ℤ :=
  needed.foldl (fun a p => update a p.1 (a p.1 - p.2)) available

end

/-- The locals of `GuaranteedNoEvictScheduler::impl`.  `reservedCrossBlocks` is only used with
a cross manager. -/
structure NoEvictState (Key : Type) where
  scheduledRequests : List LlmRequest := []
  numAdmittedRequests : ℕ := 0
  reservedBlocks : WindowSize → ℤ
  reservedCrossBlocks : WindowSize → ℤ
  claimedPeftPages : ℕ := 0
  availablePeftPages : ℤ := 0
  uniqTaskIds : Finset ℕ := ∅
  pendingRequests : List LlmRequest := []
  pendingDisGenInitRequests : List LlmRequest := []
  contributed : Contributed Key := {}

/-- The arguments of a pass. -/
structure PassContext (Key : Type) where
  cfg : SchedulerConfig
  kv : KVCacheManager Key
  cross : Option (KVCacheManager Key)
  peft : Option PeftCacheManager

namespace PassContext

variable (ctx : PassContext Key)

/-- The demands of a request on the cross pool. -/
def neededCrossBlocks (req : LlmRequest) (summary : Option (PrefixReuseSummary Key)) :
    List (WindowSize × ℤ) :=
  match ctx.cross with
  | some cross => neededBlocks cross req summary
  | none => []

/-- The first loop of `impl`: requests in progress are included and their demands reserved,
the others are put aside. -/
def scanActive : List LlmRequest → NoEvictState Key → NoEvictState Key
  | [], s => s
  | req :: rest, s =>
    if !eligible ctx.cfg req then scanActive rest s
    else if ctx.cfg.maxNumRequests ≤ s.numAdmittedRequests then s
    else if req.isDisaggGenerationTransmissionInProgress || req.isGenerationInProgressState then
      scanActive rest { s with
        numAdmittedRequests := s.numAdmittedRequests + 1
        scheduledRequests :=
          if req.isGenerationInProgressState then s.scheduledRequests ++ [req]
          else s.scheduledRequests
        reservedBlocks := commitBlocks s.reservedBlocks (neededBlocks ctx.kv req none)
        reservedCrossBlocks := commitBlocks s.reservedCrossBlocks (ctx.neededCrossBlocks req none)
        claimedPeftPages := s.claimedPeftPages + requiredPeftPages ctx.peft req s.uniqTaskIds
        uniqTaskIds := seeTask req s.uniqTaskIds }
    else if req.isDisaggGenerationInitState then
      scanActive rest { s with
        pendingDisGenInitRequests := s.pendingDisGenInitRequests ++ [req] }
    else scanActive rest { s with pendingRequests := s.pendingRequests ++ [req] }

/-- The optimization of delaying requests does not work for variable window attention. -/
def noEvictSkippingIsRelevant : Bool :=
  ctx.cfg.enablePrefixAwareScheduling && !ctx.kv.isVariableWindow
    && (match ctx.cross with
        | some cross => !cross.isVariableWindow
        | none => true)

/-- The prefix summary of a pending request for the self pool. -/
def noEvictSummary (req : LlmRequest) : Option (PrefixReuseSummary Key) :=
  if req.isFirstChunkContext then
    if ctx.cfg.enablePrefixAwareScheduling then
      if ctx.kv.isEnableBlockReuse && !ctx.kv.isVariableWindow then
        some (ctx.kv.analyzePrefixReuse req)
      else none
    else some {}
  else none

/-- The prefix summary of a pending request for the cross pool; encoder requests get one for
the ordering only. -/
def noEvictCrossSummary (req : LlmRequest) : Option (PrefixReuseSummary Key) :=
  match ctx.cross with
  | none => none
  | some cross =>
    if ctx.cfg.enablePrefixAwareScheduling then
      if cross.isEnableBlockReuse && !cross.isVariableWindow then
        if req.isFirstChunkContext then
          if req.hasEncoderUniqueTokens then some (cross.analyzePrefixReuse req) else some {}
        else if req.isEncoderInitState && req.hasEncoderUniqueTokens then
          some (cross.analyzePrefixReuse req)
        else none
      else none
    else if req.isFirstChunkContext then some {}
    else none

/-- A request is added to the schedule. -/
def addPending (req : LlmRequest) (tracked : Bool) (s : NoEvictState Key) : NoEvictState Key :=
  { s with
    scheduledRequests := s.scheduledRequests ++ [req]
    numAdmittedRequests := s.numAdmittedRequests + 1
    availablePeftPages := s.availablePeftPages - requiredPeftPages ctx.peft req s.uniqTaskIds
    uniqTaskIds := seeTask req s.uniqTaskIds
    contributed :=
      if tracked then
        registerContributedBlocks (ctx.noEvictSummary req) (ctx.noEvictCrossSummary req)
          s.contributed
      else s.contributed }

/-- The loop of `impl` over one list of pending requests. -/
def schedulePending (staticBatch : Bool) : List LlmRequest → NoEvictState Key → NoEvictState Key
  | [], s => s
  | req :: rest, s =>
    let summary := ctx.noEvictSummary req
    let crossSummary := ctx.noEvictCrossSummary req
    let skipTrackingApplies := !staticBatch && ctx.noEvictSkippingIsRelevant
      && (req.isFirstChunkContext || req.isEncoderInitState)
    let fitsPeft : Bool := requiredPeftPages ctx.peft req s.uniqTaskIds ≤ s.availablePeftPages
    if skipTrackingApplies && beneficialToSkip summary crossSummary s.contributed then
      schedulePending staticBatch rest s
    else if ctx.cfg.maxNumRequests ≤ s.numAdmittedRequests then s
    else if req.isEncoderInitState then
      if fitsPeft then schedulePending staticBatch rest (ctx.addPending req skipTrackingApplies s)
      else schedulePending staticBatch rest s
    else if req.isContextInitState || req.isDisaggGenerationInitState then
      let needed := neededBlocks ctx.kv req summary
      let neededCross := ctx.neededCrossBlocks req crossSummary
      let enoughBlocks := enoughAvailableBlocks s.reservedBlocks needed
      let enoughCrossBlocks := enoughAvailableBlocks s.reservedCrossBlocks neededCross
      if enoughBlocks && enoughCrossBlocks && fitsPeft then
        schedulePending staticBatch rest { ctx.addPending req skipTrackingApplies s with
          reservedBlocks := commitBlocks s.reservedBlocks needed
          reservedCrossBlocks := commitBlocks s.reservedCrossBlocks neededCross }
      else if !enoughBlocks || !enoughCrossBlocks then s
      else schedulePending staticBatch rest s
    else schedulePending staticBatch rest s

/-- The budgets at the start of a pass, and the blocks that running contexts will add. -/
def noEvictInit (staticBatch : Bool) (activeRequests : List LlmRequest) : NoEvictState Key where
  reservedBlocks w := ctx.kv.numFreeBlocks w
  reservedCrossBlocks :=
    match ctx.cross with
    | some cross => fun w => cross.numFreeBlocks w
    | none => fun _ => 0
  contributed :=
    if !staticBatch && ctx.noEvictSkippingIsRelevant then
      prefillWithChunkedContextsAlreadyExecuting activeRequests ctx.kv ctx.cross
    else {}

/-- `peftCacheManager->getMaxDevicePages()`, or the largest 32-bit number. -/
def maxPeftCachePages : ℤ :=
  match ctx.peft with
  | some peft => peft.getMaxDevicePages
  | none => 2 ^ 31 - 1

section

variable (staticBatch : Bool) (activeRequests : List LlmRequest)

/-- The state of a pass after the requests in progress, with the PEFT pages they leave. -/
def noEvictScanned : NoEvictState Key :=
  let s := ctx.scanActive activeRequests (ctx.noEvictInit staticBatch activeRequests)
  { s with availablePeftPages := ctx.maxPeftCachePages - s.claimedPeftPages }

/-- `GuaranteedNoEvictScheduler::impl`. -/
def noEvictImpl :
    Option (NoEvictState Key) := do
  checkRequiredCrossKvCacheManager ctx.cfg ctx.cross
  let s := ctx.noEvictScanned staticBatch activeRequests
  if !staticBatch || s.numAdmittedRequests = 0 then
    let s₁ := ctx.schedulePending staticBatch s.pendingDisGenInitRequests s
    return ctx.schedulePending staticBatch s.pendingRequests s₁
  else return s

end

/-- `GuaranteedNoEvictScheduler::operator()`. -/
def guaranteedNoEvict (activeRequests : List LlmRequest) : Option (NoEvictState Key) :=
  ctx.noEvictImpl false activeRequests

/-- `StaticBatchScheduler::operator()`. -/
def staticBatch (activeRequests : List LlmRequest) : Option (NoEvictState Key) :=
  ctx.noEvictImpl true activeRequests

end PassContext

/-! ### Max utilization -/

/-- The scheduling counters of the blocks of a manager. -/
structure SchedulingBlocks where
  mSchedulingNumFreeBlocks : WindowSize → ℤ
  mSchedulingRefCount : WindowSize → BlockId → ℕ

section

variable (kv : KVCacheManager Key)

/-- `startScheduling`; only the counters of allocated blocks are read afterwards. -/
def startScheduling : SchedulingBlocks :=
  ⟨fun w => kv.numFreeBlocks w, kv.refCount⟩

/-- One block in the loop of `schedulingReleaseBlocks`; a reference that does not exist
cannot be dropped. -/
def schedulingReleaseBlock (w : WindowSize) (s : SchedulingBlocks)
    (b : BlockId) : Option SchedulingBlocks :=
  if kv.isPlaceholder w b then some s
  else if s.mSchedulingRefCount w b = 0 then none
  else
    let refs := s.mSchedulingRefCount w b - 1
    some {
      mSchedulingRefCount :=
        update s.mSchedulingRefCount w (update (s.mSchedulingRefCount w) b refs)
      mSchedulingNumFreeBlocks :=
        if refs = 0 then
          update s.mSchedulingNumFreeBlocks w (s.mSchedulingNumFreeBlocks w + 1)
        else s.mSchedulingNumFreeBlocks }

/-- `WindowBlockManager::schedulingReleaseBlocks`. -/
def schedulingReleaseBlocks (requestId : ℕ) (s : SchedulingBlocks)
    (w : WindowSize) : Option SchedulingBlocks :=
  match kv.allocatedBlocks w requestId with
  | some blocks => blocks.foldlM (schedulingReleaseBlock kv w) s
  | none => none

/-- `schedulingRemoveSequence`. -/
def schedulingRemoveSequence (requestId : ℕ) (s : SchedulingBlocks) :
    Option SchedulingBlocks :=
  kv.windowSizes.foldlM (schedulingReleaseBlocks kv requestId) s

/-- `prepareNewNumberOfBlocksIfWeEndUpScheduling`. -/
def prepareNewNumberOfBlocks (twoStepsLookAhead : Bool)
    (blocks : SchedulingBlocks) (numScheduled : WindowSize → ℤ) (req : LlmRequest)
    (summary : Option (PrefixReuseSummary Key)) : Option (WindowSize → ℤ) :=
  let total := fun w => numScheduled w + kv.getNeededBlocksOneStep req twoStepsLookAhead w summary
  if kv.windowSizes.all fun w => total w ≤ blocks.mSchedulingNumFreeBlocks w then some total
  else none

end

/-- The locals of `MaxUtilizationScheduler::operator()`. -/
structure MaxUtilState (Key : Type) where
  scheduledRequests : List LlmRequest := []
  pausedRequests : List LlmRequest := []
  numAdmittedRequests : ℕ := 0
  blocks : SchedulingBlocks
  crossBlocks : SchedulingBlocks
  mNumScheduledBlocks : WindowSize → ℤ := fun _ => 0
  mNumScheduledCrossBlocks : WindowSize → ℤ := fun _ => 0
  numScheduledPeftPages : ℕ := 0
  seenTaskIds : Finset ℕ := ∅
  contributed : Contributed Key := {}

namespace PassContext

variable (ctx : PassContext Key)

/-- The pages of the request fit beside those already scheduled. -/
def fitsPeft (req : LlmRequest) (s : MaxUtilState Key) : Bool :=
  match ctx.peft with
  | some peft =>
    requiredPeftPages ctx.peft req s.seenTaskIds + s.numScheduledPeftPages
      ≤ peft.getMaxDevicePages
  | none => true

/-- A request takes its place in the schedule, with its PEFT pages. -/
def maxUtilAdmit (req : LlmRequest) (s : MaxUtilState Key) : MaxUtilState Key :=
  { s with
    scheduledRequests := s.scheduledRequests ++ [req]
    numAdmittedRequests := s.numAdmittedRequests + 1
    numScheduledPeftPages := s.numScheduledPeftPages + requiredPeftPages ctx.peft req s.seenTaskIds
    seenTaskIds := seeTask req s.seenTaskIds }

/-- `trySchedulingRequestMaxUtilization`. -/
def trySchedulingRequestMaxUtilization (req : LlmRequest)
    (cachedSummary : Option (PrefixReuseSummary Key)) (s : MaxUtilState Key) :
    Option (MaxUtilState Key) :=
  if ctx.cfg.maxNumRequests ≤ s.numAdmittedRequests then none
  else if req.isEncoderInitState then
    if ctx.fitsPeft req s then some (ctx.maxUtilAdmit req s) else none
  else
    let scheduledBlocks := prepareNewNumberOfBlocks ctx.kv ctx.cfg.twoStepsLookAhead s.blocks
      s.mNumScheduledBlocks req cachedSummary
    let scheduledCrossBlocks :=
      match ctx.cross with
      | some cross => prepareNewNumberOfBlocks cross ctx.cfg.twoStepsLookAhead s.crossBlocks
          s.mNumScheduledCrossBlocks req none
      | none => some s.mNumScheduledCrossBlocks
    match scheduledCrossBlocks, scheduledBlocks with
    | some cross, some self =>
      if ctx.fitsPeft req s then
        some { ctx.maxUtilAdmit req s with
          mNumScheduledBlocks := self
          mNumScheduledCrossBlocks := cross }
      else none
    | _, _ => none

/-- The optimization of delaying requests does not work for variable window attention. -/
def maxUtilSkippingIsRelevant : Bool :=
  ctx.cfg.enablePrefixAwareScheduling && !ctx.kv.isVariableWindow

/-- The prefix summary of a request. -/
def maxUtilSummary (req : LlmRequest) : Option (PrefixReuseSummary Key) :=
  if req.isFirstChunkContext && !ctx.cfg.enablePrefixAwareScheduling then some {}
  else if req.isFirstChunkContext && ctx.kv.isEnableBlockReuse && !ctx.kv.isVariableWindow then
    some (ctx.kv.analyzePrefixReuse req)
  else none

/-- `startedReqLambda`: a started request, which pausing can take blocks from. -/
def started (req : LlmRequest) : Bool :=
  inStateWindow ctx.cfg req && (req.isStartedContext || req.isGenerationInProgressState)

/-- The last started request of a list, with the requests before it. -/
def lastStarted (l : List LlmRequest) : Option (List LlmRequest × LlmRequest) :=
  match l.reverse.dropWhile (!ctx.started ·) with
  | [] => none
  | req :: before => some (before.reverse, req)

omit [DecidableEq Key] in
lemma lastStarted_eq_some {l before : List LlmRequest} {req : LlmRequest}
    (h : ctx.lastStarted l = some (before, req)) :
    ∃ after, l = before ++ req :: after ∧ ctx.started req ∧ ∀ r ∈ after, ctx.started r = false := by
  have hsplit := takeWhile_append_dropWhile (p := (!ctx.started ·)) (l := l.reverse)
  simp only [lastStarted] at h
  split at h
  · simp at h
  · rename_i last rest hdrop
    obtain ⟨rfl, rfl⟩ : rest.reverse = before ∧ last = req := by simpa using h
    rw [hdrop] at hsplit
    refine ⟨(l.reverse.takeWhile (!ctx.started ·)).reverse, ?_, ?_, fun r hr => ?_⟩
    · rw [← reverse_inj, reverse_append, reverse_cons, reverse_reverse,
        reverse_reverse, append_assoc]
      exact hsplit.symm
    · have hne : l.reverse.dropWhile (!ctx.started ·) ≠ [] := by simp [hdrop]
      have hhead := head_dropWhile_not (!ctx.started ·) hne
      simpa [hdrop] using hhead
    · simpa using mem_takeWhile_imp (mem_reverse.mp hr)

omit [DecidableEq Key] in
lemma length_lt_of_lastStarted {l before : List LlmRequest} {req : LlmRequest}
    (h : ctx.lastStarted l = some (before, req)) : before.length < l.length := by
  obtain ⟨after, rfl, -⟩ := ctx.lastStarted_eq_some h
  simp

/-- The eviction of a sequence is mirrored on the cross pool, if there is one. -/
def crossRemoveSequence (requestId : ℕ) (s : SchedulingBlocks) : Option SchedulingBlocks :=
  match ctx.cross with
  | some cross => schedulingRemoveSequence cross requestId s
  | none => some s

/-- A request is paused: the blocks of its sequence are given back in the simulation. -/
def pause (req : LlmRequest) (s : MaxUtilState Key) : Option (MaxUtilState Key) := do
  let blocks ← schedulingRemoveSequence ctx.kv req.mRequestId s.blocks
  let crossBlocks ← ctx.crossRemoveSequence req.mRequestId s.crossBlocks
  return { s with
    blocks := blocks
    crossBlocks := crossBlocks
    pausedRequests := s.pausedRequests ++ [req] }

/-- The loop of `MaxUtilizationScheduler::operator()` over `[reqIt, reqItEnd)`. -/
def maxUtilLoop (l : List LlmRequest) (s : MaxUtilState Key) : Option (MaxUtilState Key) :=
  match l with
  | [] => some s
  | req :: rest =>
    if !eligible ctx.cfg req then maxUtilLoop rest s
    else if req.isDisaggGenerationTransmissionInProgress then
      if ctx.cfg.maxNumRequests ≤ s.numAdmittedRequests then some s
      else
        maxUtilLoop rest { s with
          numScheduledPeftPages :=
            s.numScheduledPeftPages + requiredPeftPages ctx.peft req s.seenTaskIds
          seenTaskIds := seeTask req s.seenTaskIds
          numAdmittedRequests := s.numAdmittedRequests + 1 }
    else
      let summary := ctx.maxUtilSummary req
      let skipTrackingApplies := ctx.maxUtilSkippingIsRelevant && req.isFirstChunkContext
      if skipTrackingApplies && beneficialToSkip summary none s.contributed then
        maxUtilLoop rest s
      else
        match ctx.trySchedulingRequestMaxUtilization req summary s with
        | some s' =>
          maxUtilLoop rest { s' with
            contributed :=
              if skipTrackingApplies then registerContributedBlocks summary none s'.contributed
              else s'.contributed }
        | none =>
          match _h : ctx.lastStarted (req :: rest) with
          | none => some s
          | some (before, last) =>
            match ctx.pause last s with
            | some s' => maxUtilLoop before s'
            | none => none
termination_by l.length
decreasing_by
  all_goals first
    | (simp only [length_cons]; omega)
    | exact ctx.length_lt_of_lastStarted _h

/-- The state at the start of a pass; only the self pool is prefilled. -/
def maxUtilInit (activeRequests : List LlmRequest) : MaxUtilState Key where
  blocks := startScheduling ctx.kv
  crossBlocks :=
    match ctx.cross with
    | some cross => startScheduling cross
    | none => ⟨fun _ => 0, fun _ _ => 0⟩
  contributed :=
    if ctx.maxUtilSkippingIsRelevant then
      prefillWithChunkedContextsAlreadyExecuting activeRequests ctx.kv none
    else {}

/-- `MaxUtilizationScheduler::operator()`. -/
def maxUtilization (activeRequests : List LlmRequest) : Option (MaxUtilState Key) := do
  checkRequiredCrossKvCacheManager ctx.cfg ctx.cross
  ctx.maxUtilLoop activeRequests (ctx.maxUtilInit activeRequests)

end PassContext

end Prefix

end CapacityScheduler

end TrtLlm
