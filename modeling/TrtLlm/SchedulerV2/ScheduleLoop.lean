import TrtLlm.SchedulerV2.Context

/-!
One pass of the V2 scheduler (`KVCacheV2Scheduler.schedule_request`).

Phase 1 goes through the requests in order and schedules generation requests and disaggregated
generation starts; it puts the context and encoder requests aside. Phase 2 orders those and
schedules them, the starved ones last, with their first shares held back in the meantime. A pass
that could only have run a remote tail and made no progress is made once more without it.

* `generationStep`: a turn of phase 1;
* `contextStep`: a turn of phase 2;
* `schedulePass`: both phases;
* `scheduleRequest`: a pass over the active requests.
-/

namespace TrtLlm.SchedulerV2

open List

namespace Iteration

variable {Ω : Type} (t : Iteration Ω)

/-! ### Phase 1 -/

/-- The turn of a request that starts generation with a transferred cache. -/
def disaggStep (i : ℕ) (s : Pass Ω) : ForInStep (Pass Ω) :=
  match s.budget.peftPagesNeeded t.config (t.req i) with
  | none => .done s
  | some pages =>
    if t.managers.gateClosed s.disaggCandidates then
      .yield { s with budget := s.budget.chargePeft (t.req i) pages }
    else
      let r := t.managers.prepareDisaggGenInit i s.world
      let s := s.withWorld r.2
      if r.1 then
        .yield { s with
          disaggCandidates := s.disaggCandidates ++ [i]
          budget := s.budget.chargePeft (t.req i) pages }
      else .yield s

/-- The turn of a generation request. -/
def generationTurn (i : ℕ) (s : Pass Ω) : Except Raise (ForInStep (Pass Ω)) :=
  match s.budget.peftPagesNeeded t.config (t.req i) with
  | none => .ok (.done s)
  | some pages =>
    t.tryScheduleGeneration i s.budget s.scheduledBeamWidth s.victims >>= fun a =>
      let s := { s with victims := a.victims, scheduledBeamWidth := a.scheduledBeamWidth }
      match a.action with
      | .stop => .ok (.done s)
      | .skip => .ok (.yield s)
      | .scheduled => .ok (.yield { s with
          scheduledGen := s.scheduledGen ++ [i]
          budget := s.budget.commit (t.req i) a.tokens pages })

/-- A turn of phase 1. -/
def generationStep (exclusive : Option RemoteTailMode) (i : ℕ) (s : Pass Ω) :
    Except Raise (ForInStep (Pass Ω)) :=
  let state := t.state s.victims i
  if s.victims.reqItEnd ≤ i then .ok (.done s)
  else if i ∈ s.victims.victimIndices then .ok (.yield s)
  else if t.isInflight i then .ok (.yield s)
  else if state = .kDISAGG_GENERATION_INIT then .ok (t.disaggStep i s)
  else if s.budget.requestsFull t.config then .ok (.done s)
  else if !t.inScheduleRange state then .ok (.yield s)
  else if state = .kENCODER_INIT ∨ state = .kCONTEXT_INIT then
    .ok (.yield { s with pendingCtx := s.pendingCtx ++ [i] })
  else if exclusive.isSome then .ok (.yield s)
  else t.generationTurn i s

/-- Phase 1. -/
def generationPhase (exclusive : Option RemoteTailMode) (s : Pass Ω) : Except Raise (Pass Ω) :=
  forIn (range t.requests.length) s (t.generationStep exclusive)

/-! ### The order of the context requests -/

/-- `_is_long_context`. -/
def isLongContext (v : Victims Ω) (i : ℕ) : Bool :=
  t.state v i ≠ .kENCODER_INIT
    && (t.req i).uncachedPrefillTokens.any (t.config.demoteUncachedTokens < ·)
    && !(0 < t.managers.contextCurrentPosition v.world i
      && t.contextRemainingLength v.world i ≤ t.config.demoteUncachedTokens)

/-- A long request is demoted unless it has been for the longest allowed time. -/
def isDemoted (v : Victims Ω) (i : ℕ) : Bool :=
  0 < t.config.demoteUncachedTokens && t.isLongContext v i
    && !(0 < t.config.ctxDemoteMaxIters && t.config.ctxDemoteMaxIters ≤ (t.req i).ctxDemoteSkips)

section

variable (v : Victims Ω) (pending : List ℕ)

/-- `_defer_long_context`: the new order. -/
def deferLongContext : List ℕ :=
  pending.filter (fun i => !t.isDemoted v i) ++ pending.filter (t.isDemoted v)

def allContextInit : Bool :=
  pending.all fun i => t.state v i = .kCONTEXT_INIT

/-- `_order_ctx_shortest_first`. -/
def orderCtxShortestFirst : List ℕ :=
  if t.allContextInit v pending then
    pending.insertionSort fun i j => t.uncachedTokens v.world i ≤ t.uncachedTokens v.world j
  else pending

end

/-- The request has been pending beyond the starvation limit. -/
def isStarved (limit : ℕ) (i : ℕ) : Bool :=
  (t.req i).ctxSchedSinceIter.any fun since => limit < t.config.schedIter - since

section

variable (v : Victims Ω)

/-- `_split_starved_ctx`: the others and the starved ones, oldest first. -/
def splitStarvedCtx (limit : ℕ) (pending : List ℕ) : List ℕ × List ℕ :=
  if 2 ≤ pending.length && t.allContextInit v pending then
    (pending.filter fun i => !t.isStarved limit i,
      (pending.filter (t.isStarved limit)).insertionSort fun i j =>
        (t.req i).ctxSchedSinceIter.getD 0 ≤ (t.req j).ctxSchedSinceIter.getD 0)
  else (pending, [])

/-- The requests whose chunk a skipped forward has grown already. -/
def isPregrown (i : ℕ) : Bool :=
  t.state v i = .kCONTEXT_INIT && 0 < t.pregrownContextTokens v.world i

/-- Pre-grown requests go first. -/
def pregrownFirst (pending : List ℕ) : List ℕ :=
  if t.config.swaScratchReuse then
    pending.filter (t.isPregrown v) ++ pending.filter fun i => !t.isPregrown v i
  else pending

/-- The pending requests in the order of phase 2, and the starved ones. -/
def orderContext (pending : List ℕ) : List ℕ × List ℕ :=
  let deferred := t.deferLongContext v pending
  let ordered := if t.config.ctxShortestFirst && 1 < deferred.length then
      t.orderCtxShortestFirst v deferred
    else deferred
  let split := t.config.starvationIterations.elim (ordered, []) fun limit =>
    t.splitStarvedCtx v limit ordered
  (t.pregrownFirst v split.1, t.pregrownFirst v split.2)

end

section

variable (v : Victims Ω)

lemma deferLongContext_perm (l : List ℕ) : (t.deferLongContext v l).Perm l := by
  exact perm_append_comm.trans (filter_append_perm (t.isDemoted v) l)

lemma orderCtxShortestFirst_perm (l : List ℕ) : (t.orderCtxShortestFirst v l).Perm l := by
  unfold orderCtxShortestFirst
  split_ifs
  · exact perm_insertionSort _ l
  · exact .refl l

lemma splitStarvedCtx_perm (limit : ℕ) (l : List ℕ) :
    ((t.splitStarvedCtx v limit l).1 ++ (t.splitStarvedCtx v limit l).2).Perm l := by
  unfold splitStarvedCtx
  split_ifs
  · refine ((Perm.refl _).append (perm_insertionSort _ _)).trans ?_
    exact perm_append_comm.trans (filter_append_perm (t.isStarved limit) l)
  · simp

lemma pregrownFirst_perm (l : List ℕ) : (t.pregrownFirst v l).Perm l := by
  unfold pregrownFirst
  split_ifs
  · exact filter_append_perm (t.isPregrown v) l
  · exact .refl l

/-- The order of phase 2 has the pending requests, each as often as before. -/
lemma orderContext_perm (pending : List ℕ) :
    ((t.orderContext v pending).1 ++ (t.orderContext v pending).2).Perm pending := by
  have hordered : (if t.config.ctxShortestFirst && 1 < (t.deferLongContext v pending).length then
      t.orderCtxShortestFirst v (t.deferLongContext v pending)
      else t.deferLongContext v pending).Perm pending := by
    split_ifs
    · exact (t.orderCtxShortestFirst_perm v _).trans (t.deferLongContext_perm v pending)
    · exact t.deferLongContext_perm v pending
  unfold orderContext
  refine ((t.pregrownFirst_perm v _).append (t.pregrownFirst_perm v _)).trans ?_
  cases t.config.starvationIterations with
  | none => simpa using hordered
  | some limit => exact (t.splitStarvedCtx_perm v limit _).trans hordered

end

/-- The first share of a starved request, of the tokens left. -/
def starvedShare (w : Ω) (left : ℤ) (i : ℕ) : ℤ :=
  let unit : ℤ := t.config.chunkUnitSize
  let cap := max (t.config.starvedCtxTokens / unit * unit) unit
  let uncached : ℤ := t.uncachedTokens w i
  let share := max 0 (min (min uncached cap) left)
  if share < uncached then share / unit * unit else share

/-- `_starved_ctx_shares`. -/
def starvedCtxShares (w : Ω) : ℤ → List ℕ → List ℤ
  | _, [] => []
  | left, i :: starved =>
    t.starvedShare w left i :: starvedCtxShares w (left - t.starvedShare w left i) starved

/-! ### Phase 2 -/

/-- `_is_prefix_skip_candidate`. -/
def isPrefixSkipCandidate (v : Victims Ω) (i : ℕ) : Bool :=
  t.state v i = .kCONTEXT_INIT && (t.req i).isFirstContextChunk

/-- `_collect_contributed_blocks`. -/
def collectContributedBlocks (v : Victims Ω) (pending : List ℕ) : Option (List ℕ) :=
  let candidates := pending.countP (t.isPrefixSkipCandidate v)
  let continued (i : ℕ) : Bool := t.state v i = .kCONTEXT_INIT && !(t.req i).isFirstContextChunk
  let inFlight := (range t.requests.length).filter fun i => continued i && t.isInflight i
  if !t.config.prefixSkipEnabled || candidates = 0 then none
  else if inFlight = [] && candidates < 2 && !pending.any continued then none
  else some (inFlight.filterMap (t.managers.probeFirstNewBlockKey v.world))

/-- `_first_chunk_waits_for_budget`. -/
def firstChunkWaitsForBudget (i : ℕ) (s : Pass Ω) : Bool :=
  (s.budget.remainingTokens t.config).any fun m : ℤ =>
    t.config.forceChunk && t.isPrefixSkipCandidate s.victims i
      && m < (t.config.chunkUnitSize : ℤ)
      && (if t.config.ctxShortestFirst then
          m < (t.uncachedTokens s.world i : ℤ) && !t.managers.holdsContextCache s.world i
        else m < (t.contextRemainingLength s.world i : ℤ))

/-- The request waits for a prefix that another request of this pass or an earlier one fills. -/
def waitsForPrefix (o : ContextOrder) (i : ℕ) (s : Pass Ω) : Bool :=
  (o.prefixWaits (t.requestId i)).any fun owner =>
    owner.all fun id => s.scheduledCtx.any fun k => t.requestId k.req = id

/-- The checks that let a request of phase 2 go by without an attempt. -/
def passesOver (o : ContextOrder) (i : ℕ) (s : Pass Ω) : Bool :=
  let remoteMode := (t.req i).remoteTailMode
  t.waitsForPrefix o i s
    || t.config.chunking.isSome && t.state s.victims i = .kCONTEXT_INIT
      && !t.hasContextChunkBudget s.budget
    || !s.scheduledCtx.isEmpty && t.firstChunkWaitsForBudget i s
    || t.requestId i ∈ s.preemptedIds
    || o.deferRemoteTailContext && remoteMode.isSome
    || o.exclusiveRemoteMode.any (fun m => remoteMode ≠ some m)
    || remoteMode = some .destination
      && !s.budget.canFitTokens t.config (t.contextRemainingLength s.world i)
    || !s.scheduledCtx.isEmpty && remoteMode ≠ s.scheduledRemoteMode

/-- The first new block of a context request, which others may wait for. -/
def firstNewBlock (i : ℕ) (s : Pass Ω) : Option ℕ :=
  if s.contributedBlocks.isSome && t.state s.victims i = .kCONTEXT_INIT then
    t.managers.probeFirstNewBlockKey s.world i
  else none

/-- The request would compute a block that a request of this iteration contributes. -/
def duplicatesPrefix (i : ℕ) (s : Pass Ω) : Bool :=
  (t.req i).isFirstContextChunk
    && (t.firstNewBlock i s).any fun key => s.contributedBlocks.any (key ∈ ·)

/-- `_try_schedule_encoder`: the tokens, none when they do not fit. -/
def tryScheduleEncoder (i : ℕ) (b : BudgetTracker) : Except Raise (Option ℕ) :=
  if !t.config.hasCrossKvCacheManager then .error .noCrossKvCacheManager
  else
    match (t.req i).encoderOutputLen with
    | none => .error .noEncoderOutput
    | some tokens =>
      if !b.canFitTokens t.config tokens then .ok none
      else if t.maxContextLength.any (· < tokens) then .error .encoderTokensExceedLimit
      else .ok (some tokens)

/-- The attempt for a request that phase 2 does not pass over. -/
def contextTurn (o : ContextOrder) (i : ℕ) (tokenCap : Option ℤ) (pages : ℕ) (s : Pass Ω) :
    Except Raise (ForInStep (Pass Ω)) :=
  if t.state s.victims i = .kENCODER_INIT then
    t.tryScheduleEncoder i s.budget >>= fun tokens =>
      tokens.elim (.ok (.done { s with ctxStopped := true })) fun tokens =>
        .ok (.yield { s with
          scheduledEncoder := s.scheduledEncoder ++ [i]
          budget := s.budget.commit (t.req i) tokens pages })
  else
    let block := t.firstNewBlock i s
    t.tryScheduleContext o i tokenCap s >>= fun r =>
      let s := r.2
      match r.1 with
      | .stop => .ok (.done { s with ctxStopped := true })
      | .skip => .ok (.yield s)
      | .scheduled tokens chunk chunkingFlag => .ok (.yield { s with
          hasChunking := s.hasChunking || chunkingFlag
          scheduledCtx := s.scheduledCtx ++ [chunk]
          scheduledRemoteMode := if s.scheduledCtx = [] then (t.req i).remoteTailMode
            else s.scheduledRemoteMode
          budget := s.budget.commit (t.req i) tokens pages
          contributedBlocks := s.contributedBlocks.map (block.toList ++ ·) })

/-- A turn of phase 2. A starved request comes with its share, and its cap is what the budget has
left but for the shares of those after it. -/
def contextStep (o : ContextOrder) (entry : ℕ × Option ℤ) (s : Pass Ω) :
    Except Raise (ForInStep (Pass Ω)) :=
  let i := entry.1
  let s := { s with held := s.held - entry.2.getD 0 }
  let tokenCap := if entry.2.isSome then
      (s.budget.remainingTokens t.config).map (· - s.held)
    else none
  if s.budget.requestsFull t.config then .ok (.done s)
  else if t.passesOver o i s then .ok (.yield s)
  else if t.duplicatesPrefix i s then .ok (.yield { s with deferredBehindContributor := true })
  else
    match s.budget.peftPagesNeeded t.config (t.req i) with
    | none => .ok (.yield s)
    | some pages => t.contextTurn o i tokenCap pages s

/-- What phase 2 fixes for its loops. The waits are planned once in a call. -/
def contextOrder (deferRemote : Bool) (exclusive : Option RemoteTailMode)
    (prefixWaits : Option (ℕ → Option (Option ℕ))) (s : Pass Ω) : ContextOrder :=
  let order := t.orderContext s.victims s.pendingCtx
  { arrivalCtx := s.pendingCtx
    pendingCtx := order.1
    demotedIds := (s.pendingCtx.filter (t.isDemoted s.victims)).map t.requestId
    prefixWaits := prefixWaits.getD fun id => if s.pendingCtx = [] then none
      else t.managers.planPrefixWaits s.world (order.1 ++ order.2) id
    deferRemoteTailContext := deferRemote
    exclusiveRemoteMode := exclusive }

/-- The starved requests of a pass. -/
def starvedCtx (s : Pass Ω) : List ℕ := (t.orderContext s.victims s.pendingCtx).2

/-- The shares of the starved requests of a pass. -/
def starvedShares (s : Pass Ω) : List ℤ :=
  t.starvedCtxShares s.world ((s.budget.remainingTokens t.config).getD 0) (t.starvedCtx s)

/-- The shares and the request slots of the starved requests are held back. -/
def enterContextPhase (s : Pass Ω) : Pass Ω :=
  { s with
    contributedBlocks := t.collectContributedBlocks s.victims
      (t.deferLongContext s.victims s.pendingCtx)
    inforwardSnapshotRowsLeft :=
      if s.scheduledGen = [] then t.config.inforwardSnapshotRows else 0
    budget := s.budget.hold (t.starvedShares s).sum (t.starvedCtx s).length }

/-- What was held back for some starved requests is released. -/
def releaseShares (shares : List ℤ) (starved : List ℕ) (s : Pass Ω) : Pass Ω :=
  { s with budget := s.budget.release shares.sum starved.length, held := shares.sum }

/-- Phase 2. -/
def contextPhase (deferRemote : Bool) (exclusive : Option RemoteTailMode)
    (prefixWaits : Option (ℕ → Option (Option ℕ))) (s : Pass Ω) :
    Except Raise (ContextOrder × Pass Ω) :=
  let o := t.contextOrder deferRemote exclusive prefixWaits s
  let shares := t.starvedShares s
  let starved := t.starvedCtx s
  forIn (o.pendingCtx.map (·, none)) (t.enterContextPhase s) (t.contextStep o) >>= fun s =>
    let s := releaseShares shares starved s
    if s.ctxStopped then .ok (o, s)
    else forIn (starved.zip (shares.map some)) s (t.contextStep o) >>= fun s => .ok (o, s)

/-! ### A pass -/

/-- The remote tail mode a pass is kept to. -/
def exclusiveRemoteMode (deferRemote : Bool) (v : Victims Ω) : Option RemoteTailMode :=
  if deferRemote || t.config.remoteTailPhase = some .decode then none
  else ((range t.requests.length).filter fun i =>
    !t.isInflight i && t.state v i = .kCONTEXT_INIT).findSome? fun i => (t.req i).remoteTailMode

/-- The adapters that requests about to complete still hold on the device are counted first. Such
a request is not preempted, so it is not one of those parked in an earlier try. -/
def preClaimedBudget : BudgetTracker :=
  (t.requests.filter fun r => r.state = .kGENERATION_TO_COMPLETE).foldl
    (fun b r => b.preClaimPeft t.config r) {}

/-- The variables of the loop before phase 1; the parked requests are those of an earlier try. -/
def startPass (w : Ω) (parked : List ℕ) : Pass Ω :=
  { victims :=
      { world := w
        reqItEnd := t.requests.length
        frontier := t.requests.length
        parked := parked }
    budget := t.preClaimedBudget }

/-- Both phases of the loop. -/
def schedulePass (deferRemote : Bool) (prefixWaits : Option (ℕ → Option (Option ℕ))) (w : Ω)
    (parked : List ℕ) : Except Raise (ContextOrder × Pass Ω) :=
  let s := t.startPass w parked
  let exclusive := t.exclusiveRemoteMode deferRemote s.victims
  t.generationPhase exclusive s >>= t.contextPhase deferRemote exclusive prefixWaits

/-- `made_progress`. -/
def madeProgress (s : Pass Ω) : Bool :=
  s.scheduledGen ≠ [] || !s.scheduledCtx.isEmpty || s.scheduledEncoder ≠ []
    || s.disaggCandidates ≠ [] || s.victims.evicted ≠ [] || s.victims.recomputePaused ≠ []
    || s.deferredBehindContributor

/-- `_detect_deadlock` raises. -/
def detectsDeadlock (o : ContextOrder) (s : Pass Ω) : Bool :=
  let v := s.victims
  let all := range t.requests.length
  let generation := all.any fun i =>
    t.isGenerationInProgressState v i && t.state v i ≠ .kGENERATION_TO_COMPLETE
      && !t.isInflight i && !t.managers.hasPendingLoad v.world i
  let context := o.pendingCtx.any fun i => t.requestId i ∉ s.preemptedIds && !t.isInflight i
  !madeProgress s && (generation || context)
    && !all.any (t.managers.hasPendingLoad v.world) && !t.managers.hasPendingPreemption v.world
    && !all.any (fun i => t.state v i ∈ [.kDISAGG_CONTEXT_TRANS_IN_PROGRESS,
      .kDISAGG_CONTEXT_COMPLETE, .kDISAGG_GENERATION_TRANS_IN_PROGRESS])
    && !t.managers.hasInflightTransfers && 1000 ≤ t.config.stalledSchedules + 1

/-- `_schedule_loop`, with its one retry. -/
def scheduleLoop (w : Ω) : Except Raise (Pass Ω) :=
  t.schedulePass false none w [] >>= fun r =>
    let retry := t.config.remoteTailPhase.isNone && r.1.exclusiveRemoteMode.isSome
      && !madeProgress r.2
    (if retry then t.schedulePass true (some r.1.prefixWaits) r.2.world r.2.victims.parked
      else .ok r) >>= fun r =>
        if t.detectsDeadlock r.1 r.2 then .error .deadlock else .ok r.2

end Iteration

/-! ### A call of the scheduler -/

/-- `is_request_in_schedulable_state`. -/
def isRequestInSchedulableState (c : Config) (r : Request) : Bool :=
  r.state ∉ [.kDISAGG_CONTEXT_WAIT_SCHEDULER, .kDISAGG_GENERATION_INIT,
      .kDISAGG_GENERATION_TRANS_IN_PROGRESS]
    && c.noScheduleUntilState.value ≤ r.state.value
    && r.state.value < Config.noScheduleAfterState.value

/-- `_filter_remote_tail_phase_requests`. -/
def isEligible (c : Config) (r : Request) : Bool :=
  c.remoteTailPhase.all fun phase =>
    if r.state = .kCONTEXT_INIT ∨ r.state = .kENCODER_INIT then
      phase = .context && r.requestId ∈ c.remoteTailContextIds
    else if isRequestInSchedulableState c r then
      phase = .decode && r.requestId ∈ c.remoteTailGenerationIds
    else true

/-- `drop_decoder_context_requests_waiting_for_encoder_output`. -/
def awaitsEncoder (r : Request) : Bool :=
  (r.state = .kCONTEXT_INIT || r.state = .kDISAGG_CONTEXT_INIT_AND_TRANS) && r.awaitsEncoderOutput

/-- `requests_list`: the eligible requests, those that wait for their first token first if so
configured. -/
def requestsList (c : Config) (activeRequests : List Request) : List Request :=
  let eligible := activeRequests.filter fun r => !awaitsEncoder r && isEligible c r
  if c.prioritizeFirstTokenGen then
    eligible.filter (·.awaitsFirstToken) ++ eligible.filter (!·.awaitsFirstToken)
  else eligible

/-- `SchedulerOutput`, in indices of `requests_list`. -/
structure SchedulerOutput where
  encoderRequests : List ℕ
  contextRequests : List ContextChunk
  generationRequests : List ℕ
  pausedRequests : List ℕ
  recomputePausedRequests : List ℕ
  fittingDisaggGenInitRequests : List ℕ

namespace Iteration

variable {Ω : Type} (t : Iteration Ω)

/-- The order by adapter; with chunks, those that do not end their context come first. -/
def sortedContext (s : Pass Ω) : List ContextChunk :=
  let le (k k' : ContextChunk) := Request.loraLe (t.req k.req) (t.req k'.req)
  let isLast (k : ContextChunk) : Bool := k.chunkSize = k.contextRemaining
  if s.hasChunking then
    (s.scheduledCtx.filter fun k => !isLast k).insertionSort le
      ++ (s.scheduledCtx.filter isLast).insertionSort le
  else s.scheduledCtx.insertionSort le

/-- The lists a pass returns. -/
def output (s : Pass Ω) : SchedulerOutput :=
  let le (i j : ℕ) := Request.loraLe (t.req i) (t.req j)
  { encoderRequests := s.scheduledEncoder.insertionSort le
    contextRequests := t.sortedContext s
    generationRequests := s.scheduledGen.insertionSort le
    pausedRequests := s.victims.evicted
    recomputePausedRequests := s.victims.recomputePaused
    fittingDisaggGenInitRequests := s.disaggCandidates }

/-- The context requests are sorted, and none is lost or doubled. -/
lemma sortedContext_perm (s : Pass Ω) : (t.sortedContext s).Perm s.scheduledCtx := by
  unfold sortedContext
  dsimp only
  split_ifs
  · refine ((perm_insertionSort _ _).append (perm_insertionSort _ _)).trans ?_
    exact perm_append_comm.trans (filter_append_perm _ _)
  · exact perm_insertionSort _ _

end Iteration

/-- The iteration of a call. -/
def iteration {Ω : Type} (c : Config) (m : Managers Ω) (activeRequests : List Request)
    (inflightRequestIds : List ℕ) : Iteration Ω :=
  ⟨c, m, requestsList c activeRequests, inflightRequestIds⟩

/-- `schedule_request`, with the variables of the loop at its end. -/
def scheduleRequest {Ω : Type} (c : Config) (m : Managers Ω) (activeRequests : List Request)
    (inflightRequestIds : List ℕ) (w : Ω) : Except Raise (SchedulerOutput × Pass Ω) :=
  (iteration c m activeRequests inflightRequestIds).scheduleLoop w >>= fun s =>
    .ok ((iteration c m activeRequests inflightRequestIds).output s, s)

end TrtLlm.SchedulerV2
