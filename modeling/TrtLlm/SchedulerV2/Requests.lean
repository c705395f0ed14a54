import TrtLlm.Scheduler.MicroBatchScheduler

/-!
What the V2 scheduler reads: requests, its configuration, the cache managers and the budget of
one iteration (`scheduler_v2.py`).

A pass works on one list of requests, and a request is its index in that list. The cache managers
are operations on a state of their own, which the scheduler only passes on; nothing is known of
them here, so every allocation may succeed or fail. What they do on behalf of the request with
index `i` takes `i` as an argument.

* `Request`, `Config`, `Managers`, `Iteration`: the inputs of a pass;
* `BudgetTracker`: tokens, requests and adapter pages taken so far;
* `Victims`: the pages given up so far, and the frontiers of the two ladders.
-/

namespace TrtLlm.SchedulerV2

open Option

/-- `py_csa2_remote_tail_mode`. -/
inductive RemoteTailMode where
  | source
  | destination
deriving DecidableEq, Repr

/-- `RemoteTailPhase`. -/
inductive RemoteTailPhase where
  | noForward
  | context
  | decode
deriving DecidableEq, Repr

/-- `LlmRequest`, as far as the scheduler reads it. -/
structure Request where
  requestId : ℕ
  state : LlmRequestState
  isFirstContextChunk : Bool
  promptLen : ℕ
  /-- `get_beam_width_by_iter`. -/
  beamWidth : ℕ := 1
  /-- `get_draft_token_length`. -/
  draftTokenLength : ℕ := 0
  /-- `try_get_encoder_output_len`. -/
  encoderOutputLen : Option ℕ := none
  /-- `py_encoder_output_ready_event` is set and has not completed. -/
  awaitsEncoderOutput : Bool := false
  skipCrossKvProjection : Bool := false
  loraTaskId : Option ℕ := none
  /-- A generation-only request that has not decoded yet. -/
  awaitsFirstToken : Bool := false
  remoteTailMode : Option RemoteTailMode := none
  remoteTailStart : Option ℕ := none
  /-- `py_multimodal_data is not None`. -/
  hasMultimodalData : Bool := false
  mmBidirectionalBlocks : Bool := false
  mmEmbedMaskCumsum : Option (ℕ → ℤ) := none
  expectSnapshotPoints : List ℕ := []
  uncachedPrefillTokens : Option ℕ := none
  /-- `_ctx_demote_skips`, at this request. -/
  ctxDemoteSkips : ℕ := 0
  ctxSchedSinceIter : Option ℕ := none

instance : Inhabited Request :=
  ⟨{ requestId := 0, state := .kUNKNOWN, isFirstContextChunk := true, promptLen := 0 }⟩

namespace Request

variable (r : Request)

/-- Where the context of the request ends on this worker. -/
def contextEnd : ℕ :=
  if r.remoteTailMode = some .source then
    match r.remoteTailStart with
    | some end_ => if end_ = 0 then r.promptLen else end_
    | none => r.promptLen
  else r.promptLen

/-- `_get_lora_task_id`: requests without an adapter come first. -/
def loraKey : ℕ × ℕ := r.loraTaskId.elim (0, 0) fun id => (1, id)

def loraLe (r r' : Request) : Prop :=
  r.loraKey.1 < r'.loraKey.1 ∨ r.loraKey.1 = r'.loraKey.1 ∧ r.loraKey.2 ≤ r'.loraKey.2

instance : DecidableRel loraLe := fun _ _ => inferInstanceAs (Decidable (_ ∨ _))

end Request

/-- `PeftCacheManager`. -/
structure PeftCacheManager where
  maxDevicePages : ℕ
  determineNumPages : Request → ℕ

/-- The fields of `KVCacheV2Scheduler` and the constants of its managers. -/
structure Config where
  maxNumTokens : Option ℕ
  maxNumRequests : ℕ
  chunking : Option ContextChunkingConfig := none
  peftCacheManager : Option PeftCacheManager := none
  noScheduleUntilState : LlmRequestState := .kCONTEXT_INIT
  enablePrefixAwareScheduling : Bool := true
  enableRecomputePause : Bool := true
  hasCpHelix : Bool := false
  /-- `can_evict` and `has_cache_tier_below_gpu` of the cache manager. -/
  canEvict : Bool := false
  hasCacheTierBelowGpu : Bool := false
  hasCrossKvCacheManager : Bool := false
  prefixSkipEnabled : Bool := false
  prioritizeFirstTokenGen : Bool := false
  ctxDemoteUncachedTokens : ℕ := 0
  ctxDemoteMaxIters : ℕ := 0
  ctxShortestFirst : Bool := false
  ctxStarvationIterations : Option ℕ := none
  schedIter : ℕ := 0
  swaScratchReuse : Bool := false
  numExtraKvTokens : ℕ := 0
  inforwardSnapshotRows : ℕ := 0
  inforwardSnapshotMaxTail : ℕ := 0
  inforwardSnapshotMinMain : ℕ := 0
  remoteTailPhase : Option RemoteTailPhase := none
  remoteTailContextIds : List ℕ := []
  remoteTailGenerationIds : List ℕ := []
  stalledSchedules : ℕ := 0

namespace Config

variable (c : Config)

/-- `no_schedule_after_state`, which every construction of the scheduler leaves at its default. -/
def noScheduleAfterState : LlmRequestState := .kGENERATION_TO_COMPLETE

/-- The threshold is in force with chunked contexts only. -/
def demoteUncachedTokens : ℕ := if c.chunking.isSome then c.ctxDemoteUncachedTokens else 0

/-- The starvation limit is ignored without the three settings it needs. -/
def starvationIterations : Option ℕ :=
  if c.ctxShortestFirst && c.chunking.isSome && c.maxNumTokens.isSome then
    c.ctxStarvationIterations
  else none

def forceChunk : Bool := c.chunking.any fun k => k.chunkingPolicy = .kFORCE_CHUNK

def chunkUnitSize : ℕ := c.chunking.elim 0 (·.chunkUnitSize)

/-- `_starved_ctx_tokens`. -/
def starvedCtxTokens : ℕ := c.maxNumTokens.elim 0 (· / 4)

end Config

/-- The cache managers, the connector and the planner, as operations on a state of their own. The
operations act on behalf of a request and report whether they succeeded. -/
structure Managers (Ω : Type) where
  isRequestActive : Ω → ℕ → Bool
  hasPendingLoad : Ω → ℕ → Bool
  contextCurrentPosition : Ω → ℕ → ℕ
  contextReplayTokens : Ω → ℕ → Option ℕ
  /-- The capacity of the cache a request holds in the target pool. -/
  capacity : Ω → ℕ → Option ℕ
  holdsContextCache : Ω → ℕ → Bool
  probeFirstNewBlockKey : Ω → ℕ → Option ℕ
  /-- The reuse probe, which is made once in a pass for each request. -/
  probeContextReuse : ℕ → Option ℕ
  /-- `PrefixWaitPlanner.plan`; no request waits when there is no planner. -/
  planPrefixWaits : Ω → List ℕ → ℕ → Option (Option ℕ)
  /-- Whether the transfer gate is closed after it has seen these candidates. -/
  gateClosed : List ℕ → Bool
  hasPendingPreemption : Ω → Bool
  hasInflightTransfers : Bool
  tryAllocateGeneration : ℕ → Ω → Bool × Ω
  suspendRequest : ℕ → Ω → Ω
  preemptRequest : ℕ → Ω → Bool × Ω
  prepareDisaggGenInit : ℕ → Ω → Bool × Ω
  prepareContextPair : ℕ → Ω → Bool × Ω
  tryAllocateContext : ℕ → ℤ → Ω → Bool × Ω
  tryAllocateCrossContext : ℕ → ℕ → Ω → Bool × Ω
  releaseContextAdmission : ℕ → Ω → Ω

/-- What one pass of the scheduler works on: `requests_list` and what stays fixed. -/
structure Iteration (Ω : Type) where
  config : Config
  managers : Managers Ω
  requests : List Request
  inflightRequestIds : List ℕ

/-- The exceptions of the scheduling loop. -/
inductive Raise where
  | helixWithoutRecomputePause
  | noCrossKvCacheManager
  | noEncoderOutput
  | encoderTokensExceedLimit
  | contextTokensExceedLimit
  | replayCannotProgress
  | multimodalBlockExceedsLimit
  | chunkSizeOutsideContextPhase
  | deadlock
deriving DecidableEq, Repr

/-- Every exception but one reports a configuration that cannot work. The other one is the check
inside `LlmRequest` that a chunk is set in the context phase only. -/
def Raise.IsReport (e : Raise) : Prop := e ≠ .chunkSizeOutsideContextPhase

/-! ### The budget -/

/-- `BudgetTracker`. -/
structure BudgetTracker where
  numTokens : ℤ := 0
  numRequests : ℕ := 0
  claimedPeftPages : ℕ := 0
  seenPeftTaskIds : List ℕ := []

namespace BudgetTracker

variable (b : BudgetTracker) (c : Config)

def requestsFull : Bool := c.maxNumRequests ≤ b.numRequests

def canFitTokens (numTokens : ℤ) : Bool :=
  c.maxNumTokens.all fun m : ℕ => b.numTokens + numTokens ≤ (m : ℤ)

def remainingTokens : Option ℤ := c.maxNumTokens.map fun m : ℕ => (m : ℤ) - b.numTokens

def commitPeft (r : Request) (peftPages : ℕ) : BudgetTracker :=
  { b with
    claimedPeftPages := b.claimedPeftPages + peftPages
    seenPeftTaskIds := r.loraTaskId.toList ++ b.seenPeftTaskIds }

/-- `commit_peft`, which is called with a positive number of pages only. -/
def chargePeft (r : Request) (peftPages : ℕ) : BudgetTracker :=
  if 0 < peftPages then b.commitPeft r peftPages else b

def commit (r : Request) (numTokens : ℤ) (peftPages : ℕ) : BudgetTracker :=
  chargePeft { b with numTokens := b.numTokens + numTokens, numRequests := b.numRequests + 1 }
    r peftPages

def hold (numTokens : ℤ) (numRequests : ℕ) : BudgetTracker :=
  { b with numTokens := b.numTokens + numTokens, numRequests := b.numRequests + numRequests }

def release (numTokens : ℤ) (numRequests : ℕ) : BudgetTracker :=
  { b with numTokens := b.numTokens - numTokens, numRequests := b.numRequests - numRequests }

/-- `peft_pages_needed`: none when the budget is exceeded. -/
def peftPagesNeeded (r : Request) : Option ℕ :=
  match c.peftCacheManager with
  | none => some 0
  | some m =>
    match r.loraTaskId with
    | none => some 0
    | some id =>
      if id ∈ b.seenPeftTaskIds then some 0
      else if m.maxDevicePages < b.claimedPeftPages + m.determineNumPages r then none
      else some (m.determineNumPages r)

/-- `pre_claim_peft`. -/
def preClaimPeft (r : Request) : BudgetTracker :=
  match c.peftCacheManager with
  | none => b
  | some m =>
    match r.loraTaskId with
    | none => b
    | some id =>
      if id ∈ b.seenPeftTaskIds then b else b.commitPeft r (m.determineNumPages r)

section

variable (r : Request)

lemma preClaimPeft_numTokens : (b.preClaimPeft c r).numTokens = b.numTokens := by
  unfold preClaimPeft
  split
  · rfl
  · split
    · rfl
    · split_ifs <;> rfl

lemma preClaimPeft_numRequests : (b.preClaimPeft c r).numRequests = b.numRequests := by
  unfold preClaimPeft
  split
  · rfl
  · split
    · rfl
    · split_ifs <;> rfl

variable (pages : ℕ)

@[simp] lemma chargePeft_numTokens :
    (b.chargePeft r pages).numTokens = b.numTokens := by
  unfold chargePeft
  split_ifs <;> rfl

@[simp] lemma chargePeft_numRequests :
    (b.chargePeft r pages).numRequests = b.numRequests := by
  unfold chargePeft
  split_ifs <;> rfl

@[simp] lemma chargePeft_claimedPeftPages :
    (b.chargePeft r pages).claimedPeftPages = b.claimedPeftPages + pages := by
  unfold chargePeft
  split_ifs with hpages
  · rfl
  · rw [Nat.eq_zero_of_not_pos hpages]
    rfl

@[simp] lemma commit_numTokens (n : ℤ) :
    (b.commit r n pages).numTokens = b.numTokens + n := chargePeft_numTokens _ _ _

@[simp] lemma commit_numRequests (n : ℤ) :
    (b.commit r n pages).numRequests = b.numRequests + 1 := chargePeft_numRequests _ _ _

@[simp] lemma commit_claimedPeftPages (n : ℤ) :
    (b.commit r n pages).claimedPeftPages = b.claimedPeftPages + pages :=
  chargePeft_claimedPeftPages _ _ _

end

/-- The pages needed are none, or they fit the device. -/
lemma peftPagesNeeded_le {c : Config} {r : Request} {pages : ℕ}
    (h : b.peftPagesNeeded c r = some pages) :
    pages = 0 ∨ ∀ m, c.peftCacheManager = some m →
      b.claimedPeftPages + pages ≤ m.maxDevicePages := by
  unfold peftPagesNeeded at h
  split at h
  · exact .inl (some.inj h).symm
  · rename_i m hm
    split at h
    · exact .inl (some.inj h).symm
    · split_ifs at h with hseen hfull
      · exact .inl (some.inj h).symm
      · refine .inr fun m' hm' => ?_
        obtain rfl := some.inj (hm.symm.trans hm')
        rw [← some.inj h]
        omega

end BudgetTracker

/-! ### Pages given up -/

/-- The pages a pass has given up: by suspension (`evicted`), by preemption (`recomputePaused`),
or by a preemption that waits for the connector's saves (`parked`). -/
structure Victims (Ω : Type) where
  world : Ω
  reqItEnd : ℕ
  frontier : ℕ
  victimIndices : List ℕ := []
  evicted : List ℕ := []
  recomputePaused : List ℕ := []
  parked : List ℕ := []

namespace Iteration

variable {Ω : Type} (t : Iteration Ω)

/-- The request with an index. -/
def req (i : ℕ) : Request := t.requests.getD i default

def isInflight (i : ℕ) : Bool := (t.req i).requestId ∈ t.inflightRequestIds

/-- The state of a request: a request parked behind the connector's saves has left the context and
generation phases. -/
def state (v : Victims Ω) (i : ℕ) : LlmRequestState :=
  if i ∈ v.parked then .kDISAGG_CONTEXT_TRANS_IN_PROGRESS else (t.req i).state

variable {t} in
/-- A request in any other state than that of the parked ones is not parked. -/
lemma state_eq {v : Victims Ω} {i : ℕ} {x : LlmRequestState} (h : t.state v i = x)
    (hx : x ≠ .kDISAGG_CONTEXT_TRANS_IN_PROGRESS) : i ∉ v.parked ∧ (t.req i).state = x := by
  unfold state at h
  split_ifs at h with hparked
  · exact absurd h.symm hx
  · exact ⟨hparked, h⟩

section

variable (v : Victims Ω) (i : ℕ)

def isContextInitState : Bool :=
  t.state v i = .kCONTEXT_INIT || t.state v i = .kDISAGG_CONTEXT_INIT_AND_TRANS

def isGenerationInProgressState : Bool :=
  t.state v i = .kGENERATION_IN_PROGRESS || t.state v i = .kGENERATION_TO_COMPLETE
    || t.state v i = .kDISAGG_GENERATION_TRANS_COMPLETE

/-- `_is_started_request`. -/
def isStartedRequest : Bool :=
  t.isContextInitState v i && !(t.req i).isFirstContextChunk || t.isGenerationInProgressState v i

end

/-- The scheduling range of the loop. -/
def inScheduleRange (s : LlmRequestState) : Bool :=
  t.config.noScheduleUntilState.value ≤ s.value && s.value < Config.noScheduleAfterState.value

/-- `context_remaining_length`. -/
def contextRemainingLength (w : Ω) (i : ℕ) : ℕ :=
  (t.req i).contextEnd - t.managers.contextCurrentPosition w i

end Iteration

end TrtLlm.SchedulerV2
