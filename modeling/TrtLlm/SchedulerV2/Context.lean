import TrtLlm.SchedulerV2.ChunkSize
import TrtLlm.SchedulerV2.Generation

/-!
Scheduling a context request (`_try_schedule_context` and what it calls).

A context request prepares its caches, sizes its chunk, and allocates the pages for it. When the
pages do not suffice it has one started request preempted, and runs in a later pass. A request that
fails on its first chunk releases what its admission has claimed.

* `Pass`: the lists and the budget of a pass, which both phases extend;
* `tryScheduleContext`: one attempt, with and without chunking.
-/

namespace TrtLlm.SchedulerV2

/-- A scheduled context request: its chunk, the length it had left, and what the forward pass
processes besides the chunk. -/
structure ContextChunk where
  req : ℕ
  chunkSize : ℕ
  contextRemaining : ℕ
  replayTokens : ℕ
  /-- The draft tokens, which go with the last chunk. -/
  draftTokens : ℕ

/-- The tokens of a context request in the forward pass. -/
def ContextChunk.forwardTokens (k : ContextChunk) : ℕ :=
  k.chunkSize + k.replayTokens + k.draftTokens

/-- The variables of `_schedule_loop`. -/
structure Pass (Ω : Type) where
  victims : Victims Ω
  budget : BudgetTracker := {}
  scheduledBeamWidth : ℕ := 0
  scheduledEncoder : List ℕ := []
  scheduledCtx : List ContextChunk := []
  scheduledGen : List ℕ := []
  disaggCandidates : List ℕ := []
  pendingCtx : List ℕ := []
  preemptedIds : List ℕ := []
  hasChunking : Bool := false
  scheduledRemoteMode : Option RemoteTailMode := none
  contributedBlocks : Option (List ℕ) := none
  deferredBehindContributor : Bool := false
  inforwardSnapshotRowsLeft : ℕ := 0
  /-- The tokens still held for the starved requests to come. -/
  held : ℤ := 0
  ctxStopped : Bool := false

namespace Pass

variable {Ω : Type} (s : Pass Ω)

def world : Ω := s.victims.world

def withWorld (w : Ω) : Pass Ω := { s with victims := { s.victims with world := w } }

@[simp] lemma withWorld_world (w : Ω) : (s.withWorld w).world = w := rfl

@[simp] lemma withWorld_victims_world (w : Ω) : (s.withWorld w).victims.world = w := rfl

@[simp] lemma withWorld_budget (w : Ω) : (s.withWorld w).budget = s.budget := rfl

end Pass

/-- The outcome of an attempt to schedule a context request. -/
inductive ContextAttempt where
  | scheduled (tokens : ℤ) (chunk : ContextChunk) (chunkingFlag : Bool)
  | skip
  | stop

def ContextAttempt.isScheduled : ContextAttempt → Bool
  | scheduled _ _ _ => true
  | skip => false
  | stop => false

/-- What phase 2 fixes before it goes through the context requests. -/
structure ContextOrder where
  arrivalCtx : List ℕ
  /-- The requests in their final order, but for the starved ones. -/
  pendingCtx : List ℕ
  demotedIds : List ℕ
  prefixWaits : ℕ → Option (Option ℕ)
  deferRemoteTailContext : Bool
  exclusiveRemoteMode : Option RemoteTailMode

namespace Iteration

variable {Ω : Type} (t : Iteration Ω)

def requestId (i : ℕ) : ℕ := (t.req i).requestId

/-! ### Preemption for a context request -/

/-- The last started request outside `protectedIds` whose pages can be given up. -/
def preemptionVictim (protectedIds : List ℕ) (requester : ℕ) (v : Victims Ω) : Option ℕ :=
  let first := if t.config.hasCpHelix then requester + 1 else 0
  (List.range' first (t.requests.length - first)).reverse.find? fun i =>
    t.requestId i ∉ protectedIds && t.isRecomputePauseCandidate v i
      && t.managers.isRequestActive v.world i

/-- `_try_preempt_for_pages`. -/
def tryPreemptForPages (protectedIds : List ℕ) (requester : ℕ) (s : Pass Ω) : Bool × Pass Ω :=
  if t.config.hasCacheTierBelowGpu || !t.config.enableRecomputePause then (false, s)
  else
    match t.preemptionVictim protectedIds requester s.victims with
    | none => (false, s)
    | some i =>
      let r := t.preemptOrDefer s.victims i
      if r.1 then
        (true, { s with victims := r.2, preemptedIds := t.requestId i :: s.preemptedIds })
      else (false, { s with victims := r.2 })

/-- The requests a context request must not have preempted: those scheduled, itself, and the
demoted ones that arrived before it. -/
def protectedIds (o : ContextOrder) (req : ℕ) (s : Pass Ω) : List ℕ :=
  s.scheduledGen.map t.requestId ++ s.scheduledCtx.map (fun k => t.requestId k.req)
    ++ [t.requestId req]
    ++ ((o.arrivalCtx.takeWhile (· ≠ req)).map t.requestId).filter (· ∈ o.demotedIds)

/-- `preempt_for_pages`. -/
def preemptForPages (o : ContextOrder) (req : ℕ) (s : Pass Ω) : Bool × Pass Ω :=
  t.tryPreemptForPages (t.protectedIds o req s) req s

/-! ### Pages for a chunk -/

/-- The setter of `context_chunk_size`: the context phase is checked, and the size is cut to the
rest of the prompt. -/
def setContextChunkSize (v : Victims Ω) (req : ℕ) (size : ℤ) : Except Raise ℕ :=
  if t.isContextInitState v req || t.state v req = .kDISAGG_GENERATION_INIT
      || t.state v req = .kDISAGG_GENERATION_TRANS_COMPLETE then
    .ok (min size.toNat
      ((t.req req).promptLen - t.managers.contextCurrentPosition v.world req))
  else .error .chunkSizeOutsideContextPhase

/-- `_try_schedule_cross_context`. -/
def tryScheduleCrossContext (req : ℕ) (s : Pass Ω) : ScheduleAction × Pass Ω :=
  match (t.req req).encoderOutputLen with
  | none => (.scheduled, s)
  | some reqTokens =>
    if (t.req req).skipCrossKvProjection then (.scheduled, s)
    else if !t.config.hasCrossKvCacheManager then (.stop, s)
    else
      let r := t.managers.tryAllocateCrossContext req reqTokens s.world
      (if r.1 then .scheduled else .skip, s.withWorld r.2)

/-- The pages of a sized chunk: in the target and draft pools, and else from a preempted request;
then in the cross pool. -/
def allocateChunk (o : ContextOrder) (req : ℕ) (resizeTokens : ℤ) (s : Pass Ω) :
    ScheduleAction × Pass Ω :=
  let r := t.managers.tryAllocateContext req resizeTokens s.world
  if r.1 then
    let cross := t.tryScheduleCrossContext req (s.withWorld r.2)
    if cross.1 = .scheduled then cross
    else (cross.1, cross.2.withWorld (t.managers.suspendRequest req cross.2.world))
  else
    let freed := t.preemptForPages o req (s.withWorld r.2)
    (if freed.1 then .stop else .skip, freed.2)

/-- An allocation that fails ends the attempt. -/
def ContextAttempt.ofAction (a : ScheduleAction) (success : ContextAttempt) : ContextAttempt :=
  match a with
  | .scheduled => success
  | .skip => .skip
  | .stop => .stop

/-! ### Without chunking -/

/-- The tokens are counted once the context is prepared: with prefix-aware scheduling, and when the
preparation has tokens replayed. -/
def countsPrepared (w : Ω) (req : ℕ) : Bool :=
  t.config.enablePrefixAwareScheduling || (t.managers.contextReplayTokens w req).isSome

/-- The tokens that the budget is charged for a whole context. -/
def wholeContextTokens (prePrepare : ℕ) (w : Ω) (req : ℕ) : ℤ :=
  (if t.countsPrepared w req then t.contextRemainingLength w req + t.replayTokens w req
    else prePrepare : ℕ) + (t.req req).draftTokenLength

/-- The draft tokens go with the last chunk. -/
def lastChunkDraft (w : Ω) (req : ℕ) (chunkSize : ℕ) : ℕ :=
  if t.managers.contextCurrentPosition w req + chunkSize = (t.req req).contextEnd then
    (t.req req).draftTokenLength
  else 0

/-- The part of `_try_schedule_context_full` that follows the preparation. -/
def scheduleWholeContext (o : ContextOrder) (req prePrepare : ℕ) (s : Pass Ω) :
    Except Raise (ContextAttempt × Pass Ω) :=
  let contextTokens := t.contextRemainingLength s.world req
  let replayTokens := t.replayTokens s.world req
  let reqTokens := t.wholeContextTokens prePrepare s.world req
  let late := t.countsPrepared s.world req
  if late && !s.budget.canFitTokens t.config reqTokens then .ok (.stop, s)
  else if late && t.maxContextLength.any (· < contextTokens + replayTokens) then
    .error .contextTokensExceedLimit
  else
    t.setContextChunkSize s.victims req contextTokens >>= fun chunkSize =>
      let r := t.allocateChunk o req (contextTokens + (t.req req).draftTokenLength) s
      .ok (ContextAttempt.ofAction r.1 (.scheduled reqTokens
        ⟨req, chunkSize, contextTokens, replayTokens, t.lastChunkDraft s.world req chunkSize⟩
        false), r.2)

/-- `_try_schedule_context_full`. -/
def tryScheduleContextFull (o : ContextOrder) (req : ℕ) (s : Pass Ω) :
    Except Raise (ContextAttempt × Pass Ω) :=
  let prePrepare := t.contextRemainingLength s.world req
  let early := !t.config.enablePrefixAwareScheduling
  if early && !s.budget.canFitTokens t.config (prePrepare + (t.req req).draftTokenLength) then
    .ok (.stop, s)
  else if early && t.maxContextLength.any (· < prePrepare) then .error .contextTokensExceedLimit
  else
    let prepared := t.managers.prepareContextPair req s.world
    if prepared.1 then t.scheduleWholeContext o req prePrepare (s.withWorld prepared.2)
    else .ok (.stop, s.withWorld prepared.2)

/-! ### With chunking -/

/-- `_has_context_chunk_budget`. -/
def hasContextChunkBudget (b : BudgetTracker) : Bool :=
  (b.remainingTokens t.config).all fun m : ℤ =>
    0 < m && (t.config.forceChunk || (t.config.chunkUnitSize : ℤ) ≤ m)

/-- The part of `_try_schedule_context_chunked` that follows the sizing of the chunk. -/
def scheduleChunk (o : ContextOrder) (req : ℕ) (plan : ChunkPlan) (s : Pass Ω) :
    Except Raise (ContextAttempt × Pass Ω) :=
  let contextRemaining := t.contextRemainingLength s.world req
  let replayTokens := t.replayTokens s.world req
  t.setContextChunkSize s.victims req (min plan.size contextRemaining) >>= fun chunkSize =>
    let draftLen := t.lastChunkDraft s.world req chunkSize
    let r := t.allocateChunk o req (chunkSize + draftLen) s
    let chunkingFlag := chunkSize < t.contextRemainingLength r.2.world req
    let usesRow := plan.inforwardPoint.isSome && chunkSize = contextRemaining && r.1 = .scheduled
    .ok (ContextAttempt.ofAction r.1
        (.scheduled (plan.size + replayTokens + draftLen)
          ⟨req, chunkSize, contextRemaining, replayTokens, draftLen⟩ chunkingFlag),
      { r.2 with inforwardSnapshotRowsLeft :=
          r.2.inforwardSnapshotRowsLeft - if usesRow then 1 else 0 })

/-- `_try_schedule_context_chunked`. -/
def tryScheduleContextChunked (o : ContextOrder) (req : ℕ) (tokenCap : Option ℤ) (s : Pass Ω) :
    Except Raise (ContextAttempt × Pass Ω) :=
  let prePrepare := t.contextRemainingLength s.world req
  if !t.hasContextChunkBudget s.budget then .ok (.skip, s)
  else
    let prepared := t.managers.prepareContextPair req s.world
    if prepared.1 then
      t.chunkPlan prepared.2 req s.budget tokenCap prePrepare s.inforwardSnapshotRowsLeft >>=
        fun plan => plan.elim (.ok (.skip, s.withWorld prepared.2)) fun plan =>
          t.scheduleChunk o req plan (s.withWorld prepared.2)
    else .ok (.skip, s.withWorld prepared.2)

/-! ### An attempt -/

/-- `_uncached_tokens`. -/
def uncachedTokens (w : Ω) (i : ℕ) : ℕ :=
  let remaining := t.contextRemainingLength w i
  if !(t.req i).isFirstContextChunk then remaining
  else (t.managers.probeContextReuse i).elim remaining fun reusable =>
    remaining - min (reusable - t.managers.contextCurrentPosition w i) remaining

/-- `_first_chunk_fits_budget`. -/
def firstChunkFitsBudget (w : Ω) (req : ℕ) (b : BudgetTracker) (tokenCap : Option ℤ) : Bool :=
  match b.remainingTokens t.config with
  | none => true
  | some m =>
    let remaining := tokenCap.elim m (min m ·)
    let r := t.req req
    let pos := t.managers.contextCurrentPosition w req + t.contextRemainingLength w req
      - t.uncachedTokens w req
    let nextPoint := ((r.expectSnapshotPoints.filter (pos < ·)).min?).getD r.promptLen
    if remaining ≤ 0 then false
    else !t.config.forceChunk || t.config.chunkUnitSize ≤ remaining
      || (min nextPoint r.promptLen - pos : ℤ) ≤ remaining

/-- `_try_schedule_context`. -/
def tryScheduleContext (o : ContextOrder) (req : ℕ) (tokenCap : Option ℤ) (s : Pass Ω) :
    Except Raise (ContextAttempt × Pass Ω) :=
  let firstChunk := (t.req req).isFirstContextChunk
  if t.config.chunking.isSome && t.config.ctxShortestFirst && firstChunk
      && !t.managers.holdsContextCache s.world req
      && !t.firstChunkFitsBudget s.world req s.budget tokenCap then .ok (.skip, s)
  else
    (if t.config.chunking.isSome then t.tryScheduleContextChunked o req tokenCap s
      else t.tryScheduleContextFull o req s) >>= fun r =>
        .ok (r.1, if firstChunk && !r.1.isScheduled then
            r.2.withWorld (t.managers.releaseContextAdmission req r.2.world)
          else r.2)

end Iteration

end TrtLlm.SchedulerV2
