import TrtLlm.Scheduler.MaxUtilizationMoves
import TrtLlm.Scheduler.PausedBlocks

/-!
The schedule of `MaxUtilizationScheduler` is feasible, and it pauses only under a shortage.

* `try_eq_some`: what scheduling a request takes and what it changes;
* `Feasible`: the invariant of the moves, with one `PoolOk` for each pool;
* `maxUtilization_feasible`: a pass over requests whose blocks are accounted for returns; the
  paused requests are the last started ones and follow every scheduled one; the demands of
  the schedule fit the free blocks and those that the paused requests give up; the limits
  hold; and a pass whose requests all fit pauses none.
-/

namespace TrtLlm.CapacityScheduler

open List Option Relation

/-! ### PEFT pages of a set of adapters -/

/-- The adapters of some requests. -/
def tasksOf (reqs : List LlmRequest) : Finset ℕ := (reqs.filterMap (·.loraTaskId)).toFinset

/-- The pages of a set of adapters. -/
def taskPages (peft : Option PeftCacheManager) (tasks : Finset ℕ) : ℕ :=
  match peft with
  | some peft => ∑ t ∈ tasks, peft.numPages t
  | none => 0

lemma taskPages_mono {peft : Option PeftCacheManager} {T T' : Finset ℕ} (h : T ⊆ T') :
    taskPages peft T ≤ taskPages peft T' := by
  cases peft with
  | none => exact le_rfl
  | some peft => exact Finset.sum_le_sum_of_subset h

/-- A request adds the pages of its adapter, once. -/
lemma taskPages_seeTask (peft : Option PeftCacheManager) (req : LlmRequest) (seen : Finset ℕ) :
    taskPages peft (seeTask req seen) = taskPages peft seen + requiredPeftPages peft req seen := by
  cases peft with
  | none => rfl
  | some peft =>
    cases htask : req.loraTaskId with
    | none => simp [taskPages, seeTask, requiredPeftPages, isNewTask, htask]
    | some task =>
      by_cases hmem : task ∈ seen
      · simp [taskPages, seeTask, requiredPeftPages, isNewTask, htask, hmem]
      · simp [taskPages, seeTask, requiredPeftPages, isNewTask, htask, hmem,
          PeftCacheManager.determineNumPages, add_comm]

lemma tasksOf_concat (reqs : List LlmRequest) (req : LlmRequest) :
    tasksOf (reqs ++ [req]) = seeTask req (tasksOf reqs) := by
  ext t
  cases h : req.loraTaskId with
  | none | some => simp [tasksOf, seeTask, h]

lemma seeTask_mono {req : LlmRequest} {T T' : Finset ℕ} (h : T ⊆ T') :
    seeTask req T ⊆ seeTask req T' := by
  simp only [seeTask]
  split
  · exact Finset.insert_subset_insert _ h
  · exact h

lemma subset_seeTask (req : LlmRequest) (T : Finset ℕ) : T ⊆ seeTask req T := by
  simp only [seeTask]
  split
  · exact Finset.subset_insert _ _
  · exact Finset.Subset.refl _

lemma tasksOf_mono {l l' : List LlmRequest} (h : l ⊆ l') : tasksOf l ⊆ tasksOf l' := by
  intro t ht
  rw [tasksOf, List.mem_toFinset, mem_filterMap] at ht ⊢
  obtain ⟨req, hreq, htask⟩ := ht
  exact ⟨req, h hreq, htask⟩

namespace PassContext

variable {Key : Type} [DecidableEq Key] {ctx : PassContext Key} {req : LlmRequest}
  {s s' : MaxUtilState Key}

/-! ### Scheduling one request -/

section

variable (ctx : PassContext Key) (req : LlmRequest)

/-- The blocks of the self pool that a request needs for its step; encoder requests need
none. -/
def selfDemand (w : WindowSize) : ℤ :=
  if req.isEncoderInitState then 0
  else ctx.kv.getNeededBlocksOneStep req ctx.cfg.twoStepsLookAhead w (ctx.maxUtilSummary req)

/-- The blocks of the cross pool that a request needs for its step. -/
def crossDemand (w : WindowSize) : ℤ :=
  match ctx.cross with
  | some cross =>
    if req.isEncoderInitState then 0
    else cross.getNeededBlocksOneStep req ctx.cfg.twoStepsLookAhead w none
  | none => 0

/-- The state with a request scheduled. -/
def placed (s : MaxUtilState Key) : MaxUtilState Key :=
  { ctx.maxUtilAdmit req s with
    mNumScheduledBlocks := fun w => s.mNumScheduledBlocks w + ctx.selfDemand req w
    mNumScheduledCrossBlocks := fun w => s.mNumScheduledCrossBlocks w + ctx.crossDemand req w }

end

/-- The demands of a request fit a pool beside what is scheduled already. -/
def Fits (kv : KVCacheManager Key) (demand : LlmRequest → WindowSize → ℤ) (req : LlmRequest)
    (totals : WindowSize → ℤ) (blocks : SchedulingBlocks) : Prop :=
  ∀ w ∈ kv.windowSizes, totals w + demand req w ≤ blocks.mSchedulingNumFreeBlocks w

/-- What scheduling a request takes. -/
structure CanPlace (ctx : PassContext Key) (req : LlmRequest) (s : MaxUtilState Key) : Prop where
  limit : s.numAdmittedRequests < ctx.cfg.maxNumRequests
  peft : ctx.fitsPeft req s
  self : req.isEncoderInitState ∨ Fits ctx.kv ctx.selfDemand req s.mNumScheduledBlocks s.blocks
  cross : ∀ cross, ctx.cross = some cross →
    req.isEncoderInitState ∨ Fits cross ctx.crossDemand req s.mNumScheduledCrossBlocks s.crossBlocks

omit [DecidableEq Key] in
/-- The totals of a pool with one more request, if they fit. -/
lemma prepareNewNumberOfBlocks_eq_some {kv : KVCacheManager Key} {two : Bool}
    {blocks : SchedulingBlocks} {totals totals' : WindowSize → ℤ}
    {summary : Option (PrefixReuseSummary Key)} {demand : LlmRequest → WindowSize → ℤ}
    (hd : ∀ w, demand req w = kv.getNeededBlocksOneStep req two w summary) :
    prepareNewNumberOfBlocks kv two blocks totals req summary = some totals'
      ↔ Fits kv demand req totals blocks ∧ totals' = fun w => totals w + demand req w := by
  simp only [prepareNewNumberOfBlocks, Fits, hd]
  split_ifs with h
  · have hfits : ∀ w ∈ kv.windowSizes, totals w + kv.getNeededBlocksOneStep req two w summary
        ≤ blocks.mSchedulingNumFreeBlocks w := by simpa using h
    exact ⟨fun heq => ⟨hfits, (some.inj heq).symm⟩, fun heq => by rw [heq.2]⟩
  · have hfits : ¬ ∀ w ∈ kv.windowSizes, totals w + kv.getNeededBlocksOneStep req two w summary
        ≤ blocks.mSchedulingNumFreeBlocks w := by simpa using h
    exact ⟨fun heq => (by cases heq), fun heq => absurd heq.1 hfits⟩

/-- The totals of the cross pool with one more request, if there is such a pool. -/
def crossPrepared (ctx : PassContext Key) (req : LlmRequest) (s : MaxUtilState Key) :
    Option (WindowSize → ℤ) :=
  match ctx.cross with
  | some cross => prepareNewNumberOfBlocks cross ctx.cfg.twoStepsLookAhead s.crossBlocks
      s.mNumScheduledCrossBlocks req none
  | none => some s.mNumScheduledCrossBlocks

omit [DecidableEq Key] in
lemma crossPrepared_eq_some (henc : ¬ req.isEncoderInitState) {totals : WindowSize → ℤ} :
    ctx.crossPrepared req s = some totals
      ↔ (∀ cross, ctx.cross = some cross →
          Fits cross ctx.crossDemand req s.mNumScheduledCrossBlocks s.crossBlocks)
        ∧ totals = fun w => s.mNumScheduledCrossBlocks w + ctx.crossDemand req w := by
  cases hcross : ctx.cross with
  | none => simp [crossPrepared, hcross, crossDemand, eq_comm]
  | some cross =>
    have hd (w : WindowSize) : ctx.crossDemand req w
        = cross.getNeededBlocksOneStep req ctx.cfg.twoStepsLookAhead w none := by
      simp [crossDemand, hcross, henc]
    simp only [crossPrepared, hcross, prepareNewNumberOfBlocks_eq_some hd, some.injEq, forall_eq']

omit [DecidableEq Key] in
lemma try_eq_of_not_encoder (hlt : s.numAdmittedRequests < ctx.cfg.maxNumRequests)
    (henc : ¬ req.isEncoderInitState) :
    ctx.trySchedulingRequestMaxUtilization req (ctx.maxUtilSummary req) s = some s'
      ↔ CanPlace ctx req s ∧ s' = ctx.placed req s := by
  have hd (w : WindowSize) : ctx.selfDemand req w = ctx.kv.getNeededBlocksOneStep req
      ctx.cfg.twoStepsLookAhead w (ctx.maxUtilSummary req) := by
    simp [selfDemand, henc]
  have htry : ctx.trySchedulingRequestMaxUtilization req (ctx.maxUtilSummary req) s
      = (ctx.crossPrepared req s).bind fun cross =>
        (prepareNewNumberOfBlocks ctx.kv ctx.cfg.twoStepsLookAhead s.blocks
          s.mNumScheduledBlocks req (ctx.maxUtilSummary req)).bind fun self =>
          if ctx.fitsPeft req s then
            some { ctx.maxUtilAdmit req s with
              mNumScheduledBlocks := self
              mNumScheduledCrossBlocks := cross }
          else none := by
    rw [trySchedulingRequestMaxUtilization, if_neg (by omega), if_neg henc, crossPrepared]
    dsimp only
    generalize prepareNewNumberOfBlocks ctx.kv _ _ _ _ _ = self
    cases ctx.cross with
    | none => cases self <;> rfl
    | some cross =>
      dsimp only
      generalize prepareNewNumberOfBlocks cross _ _ _ _ _ = totals
      cases totals <;> cases self <;> rfl
  rw [htry, Option.bind_eq_some_iff]
  constructor
  · rintro ⟨cross, hcross, h⟩
    obtain ⟨self, hself, h⟩ := Option.bind_eq_some_iff.mp h
    obtain ⟨hcfits, rfl⟩ := (crossPrepared_eq_some henc).mp hcross
    obtain ⟨hsfits, rfl⟩ := (prepareNewNumberOfBlocks_eq_some hd).mp hself
    split_ifs at h with hpeft
    exact ⟨⟨hlt, hpeft, .inr hsfits, fun c hc => .inr (hcfits c hc)⟩, (some.inj h).symm⟩
  · rintro ⟨hcan, rfl⟩
    refine ⟨_, (crossPrepared_eq_some henc).mpr
      ⟨fun c hc => (hcan.cross c hc).resolve_left henc, rfl⟩, ?_⟩
    rw [(prepareNewNumberOfBlocks_eq_some hd).mpr ⟨hcan.self.resolve_left henc, rfl⟩,
      Option.bind_some]
    simp only [hcan.peft, if_true, placed]

omit [DecidableEq Key] in
/-- **What scheduling a request takes and does.** -/
lemma try_eq : ctx.trySchedulingRequestMaxUtilization req (ctx.maxUtilSummary req) s = some s'
    ↔ CanPlace ctx req s ∧ s' = ctx.placed req s := by
  by_cases hlimit : ctx.cfg.maxNumRequests ≤ s.numAdmittedRequests
  · simp only [trySchedulingRequestMaxUtilization, hlimit, if_true]
    constructor
    · intro h
      cases h
    · intro h
      exact absurd h.1.limit (by omega)
  · have hlt : s.numAdmittedRequests < ctx.cfg.maxNumRequests := by omega
    by_cases henc : req.isEncoderInitState
    · have hplaced : ctx.placed req s = ctx.maxUtilAdmit req s := by
        have hcross : (fun w => ctx.crossDemand req w) = fun _ => 0 := by
          funext w
          simp only [crossDemand, henc, if_true]
          split <;> rfl
        simp [placed, selfDemand, henc, congrFun hcross, maxUtilAdmit]
      rw [trySchedulingRequestMaxUtilization, if_neg hlimit, if_pos henc, hplaced]
      constructor
      · intro h
        split_ifs at h with hpeft
        exact ⟨⟨hlt, hpeft, .inl henc, fun _ _ => .inl henc⟩, (some.inj h).symm⟩
      · rintro ⟨hcan, rfl⟩
        rw [if_pos hcan.peft]
    · exact try_eq_of_not_encoder hlt henc


/-! ### Feasibility -/

/-- The books of one pool: the totals are the demands of the scheduled requests, they fit the
free blocks of the simulation, and these come from the paused requests. -/
structure PoolOk (kv : KVCacheManager Key) (demand : LlmRequest → WindowSize → ℤ)
    (scheduled paused : List LlmRequest) (totals : WindowSize → ℤ) (blocks : SchedulingBlocks) :
    Prop where
  sums : ∀ w, totals w = (scheduled.map (demand · w)).sum
  fits : ∀ w ∈ kv.windowSizes, totals w ≤ blocks.mSchedulingNumFreeBlocks w
  released : Released kv paused blocks

section Pool

omit [DecidableEq Key]

variable {kv : KVCacheManager Key} {demand : LlmRequest → WindowSize → ℤ}
  {scheduled paused : List LlmRequest} {totals : WindowSize → ℤ} {blocks blocks' : SchedulingBlocks}

lemma poolOk_start : PoolOk kv demand [] [] (fun _ => 0) (startScheduling kv) where
  sums _ := rfl
  fits w _ := Int.natCast_nonneg (kv.numFreeBlocks w)
  released := released_start

variable (h : PoolOk kv demand scheduled paused totals blocks)
include h

lemma PoolOk.place (hfits : Fits kv demand req totals blocks ∨ ∀ w, demand req w = 0) :
    PoolOk kv demand (scheduled ++ [req]) paused (fun w => totals w + demand req w) blocks where
  sums w := by simp [h.sums]
  fits w hw := by
    rcases hfits with hfits | hzero
    · exact hfits w hw
    · rw [hzero, add_zero]
      exact h.fits w hw
  released := h.released

lemma PoolOk.pause (hs : schedulingRemoveSequence kv req.mRequestId blocks = some blocks') :
    PoolOk kv demand scheduled (paused ++ [req]) totals blocks' where
  sums := h.sums
  fits w hw := by
    obtain ⟨-, hcounts⟩ := RefCounts.eq_of_dropRefs (removeSequence_counts hs w hw)
    have hfree : blocks'.mSchedulingNumFreeBlocks w = blocks.mSchedulingNumFreeBlocks w + _ :=
      congrArg RefCounts.free hcounts
    have := h.fits w hw
    omega
  released := h.released.remove hs

/-- The demands of the schedule fit the free blocks and those of the paused requests. -/
lemma PoolOk.feasible : ∀ w ∈ kv.windowSizes, (scheduled.map (demand · w)).sum
      ≤ kv.numFreeBlocks w + (blocksOwnedBy kv w paused).card := by
  intro w hw
  rw [← h.sums, ← h.released.free hw]
  exact h.fits w hw

end Pool

/-- **The invariant of a pass**, over the requests done with and those cut off. -/
structure Feasible (ctx : PassContext Key) (d cut : List LlmRequest) (s : MaxUtilState Key) :
    Prop where
  scheduled : s.scheduledRequests.Sublist d
  paused : s.pausedRequests.reverse = cut.filter ctx.started
  self : PoolOk ctx.kv ctx.selfDemand s.scheduledRequests s.pausedRequests s.mNumScheduledBlocks
    s.blocks
  cross : ∀ cross, ctx.cross = some cross → PoolOk cross ctx.crossDemand s.scheduledRequests
    s.pausedRequests s.mNumScheduledCrossBlocks s.crossBlocks
  counted : s.scheduledRequests.length ≤ s.numAdmittedRequests
  limit : s.numAdmittedRequests ≤ ctx.cfg.maxNumRequests
  seen : tasksOf s.scheduledRequests ⊆ s.seenTaskIds
  pages : s.numScheduledPeftPages = taskPages ctx.peft s.seenTaskIds
  peft : ∀ peft, ctx.peft = some peft →
    taskPages ctx.peft (tasksOf s.scheduledRequests) ≤ peft.getMaxDevicePages

variable {activeRequests cut d : List LlmRequest}

omit [DecidableEq Key] in
lemma feasible_init (l : List LlmRequest) : Feasible ctx [] [] (ctx.maxUtilInit l) where
  scheduled := .refl _
  paused := rfl
  self := poolOk_start
  cross cross hcross := by
    simp only [maxUtilInit, hcross]
    exact poolOk_start
  counted := le_rfl
  limit := Nat.zero_le _
  seen := Finset.empty_subset _
  pages := by
    simp only [maxUtilInit, taskPages]
    cases ctx.peft <;> simp
  peft peft hpeft := by
    have hnone : tasksOf (ctx.maxUtilInit l).scheduledRequests = ∅ := rfl
    simp [hnone, taskPages, hpeft]

lemma Feasible.turn (h : Feasible ctx d cut s)
    (ht : Turn ctx req s s') : Feasible ctx (d ++ [req]) cut s' := by
  have hd : s.scheduledRequests.Sublist (d ++ [req]) :=
    h.scheduled.trans (sublist_append_left d [req])
  cases ht with
  | ignored | deferred => exact { h with scheduled := hd }
  | transmitted ht hlimit =>
    exact { h with
      scheduled := hd
      counted := h.counted.trans (Nat.le_succ _)
      limit := hlimit
      seen := h.seen.trans (subset_seeTask _ _)
      pages := by simp only [countTransmission, taskPages_seeTask, h.pages] }
  | scheduled ht htry =>
    obtain ⟨hcan, rfl⟩ := try_eq.mp htry
    have hseen : tasksOf (s.scheduledRequests ++ [req]) ⊆ seeTask req s.seenTaskIds := by
      rw [tasksOf_concat]
      exact seeTask_mono h.seen
    exact {
      scheduled := Sublist.append h.scheduled (.refl _)
      paused := h.paused
      self := h.self.place (hcan.self.symm.imp_right fun henc w => by simp [selfDemand, henc])
      cross := fun cross hc => (h.cross cross hc).place <|
        (hcan.cross cross hc).symm.imp_right fun henc w => by simp [crossDemand, hc, henc]
      counted := by
        simpa [register, placed, maxUtilAdmit] using h.counted
      limit := hcan.limit
      seen := hseen
      pages := by simp only [register, placed, maxUtilAdmit, taskPages_seeTask, h.pages]
      peft := fun peft hpeft => by
        have hfits : requiredPeftPages ctx.peft req s.seenTaskIds + s.numScheduledPeftPages
            ≤ peft.getMaxDevicePages := by
          simpa [fitsPeft, hpeft] using hcan.peft
        calc taskPages ctx.peft (tasksOf (s.scheduledRequests ++ [req]))
            ≤ taskPages ctx.peft (seeTask req s.seenTaskIds) := taskPages_mono hseen
          _ = s.numScheduledPeftPages + requiredPeftPages ctx.peft req s.seenTaskIds := by
              rw [taskPages_seeTask, h.pages]
          _ ≤ peft.getMaxDevicePages := by omega }

omit [DecidableEq Key] in
/-- What pausing a request does. -/
lemma pause_eq_some (h : ctx.pause req s = some s') :
    ∃ blocks crossBlocks, schedulingRemoveSequence ctx.kv req.mRequestId s.blocks = some blocks
      ∧ (∀ cross, ctx.cross = some cross →
          schedulingRemoveSequence cross req.mRequestId s.crossBlocks = some crossBlocks)
      ∧ s' = { s with
          blocks := blocks
          crossBlocks := crossBlocks
          pausedRequests := s.pausedRequests ++ [req] } := by
  simp only [pause, bind_eq_bind, bind_eq_some_iff, Option.pure_def, some.injEq] at h
  obtain ⟨blocks, hblocks, crossBlocks, hcross, rfl⟩ := h
  refine ⟨blocks, crossBlocks, hblocks, fun cross hc => ?_, rfl⟩
  simpa [crossRemoveSequence, hc] using hcross

omit [DecidableEq Key] in
lemma Feasible.pause {after : List LlmRequest} (h : Feasible ctx d cut s)
    (hstarted : ctx.started req) (hafter : ∀ r ∈ after, ctx.started r = false)
    (hp : ctx.pause req s = some s') : Feasible ctx d (req :: after ++ cut) s' := by
  obtain ⟨blocks, crossBlocks, hblocks, hcross, rfl⟩ := pause_eq_some hp
  have hnone : after.filter ctx.started = [] := by
    rw [filter_eq_nil_iff]
    simpa using hafter
  exact { h with
    paused := by simp [hstarted, hnone, h.paused]
    self := h.self.pause hblocks
    cross := fun cross hc => (h.cross cross hc).pause (hcross cross hc) }

/-! ### Termination -/

/-- The references that started requests hold are accounted for: each has a sequence in every
window, and no block has fewer references than these sequences hold. -/
structure Accounted (ctx : PassContext Key) (kv : KVCacheManager Key)
    (activeRequests : List LlmRequest) : Prop where
  allocated : ∀ req ∈ activeRequests, ctx.started req → ∀ w ∈ kv.windowSizes,
    (kv.allocatedBlocks w req.mRequestId).isSome
  refs : ∀ w ∈ kv.windowSizes, ∀ b,
    ((activeRequests.filter ctx.started).flatMap (heldBlocks kv w)).count b ≤ kv.refCount w b

omit [DecidableEq Key] in
/-- A started request that is left can be paused in a pool whose blocks are accounted for. -/
lemma Accounted.removable {kv : KVCacheManager Key} {before after : List LlmRequest}
    (h : Accounted ctx kv activeRequests)
    (hl : activeRequests = d ++ (before ++ req :: after) ++ cut)
    (hreq : ctx.started req) {paused : List LlmRequest}
    (hp : paused.reverse = cut.filter ctx.started)
    {blocks : SchedulingBlocks} (hr : Released kv paused blocks) :
    ∃ blocks', schedulingRemoveSequence kv req.mRequestId blocks = some blocks' := by
  have hmem : req ∈ activeRequests := by simp [hl]
  refine exists_removeSequence (h.allocated req hmem hreq) fun w hw b => ?_
  obtain ⟨-, hcounts⟩ := RefCounts.eq_of_dropRefs (hr w hw)
  have hsub : (req :: paused.reverse).Sublist (activeRequests.filter ctx.started) := by
    rw [hp, hl]
    simp only [filter_append, filter_cons, hreq, if_true, append_assoc, cons_append]
    have htail : (req :: cut.filter ctx.started).Sublist
        (req :: (after.filter ctx.started ++ cut.filter ctx.started)) :=
      (sublist_append_right _ _).cons_cons req
    exact htail.trans ((sublist_append_right _ _).trans (sublist_append_right _ _))
  have hcount : (heldBlocks kv w req).count b + (paused.flatMap (heldBlocks kv w)).count b
      ≤ kv.refCount w b :=
    calc (heldBlocks kv w req).count b + (paused.flatMap (heldBlocks kv w)).count b
        = ((req :: paused.reverse).flatMap (heldBlocks kv w)).count b := by
          rw [flatMap_cons, count_append,
            ((reverse_perm paused).flatMap_right (heldBlocks kv w)).count_eq]
      _ ≤ ((activeRequests.filter ctx.started).flatMap (heldBlocks kv w)).count b :=
          (hsub.flatMap (heldBlocks kv w)).count_le b
      _ ≤ kv.refCount w b := h.refs w hw b
  have hrefs : (blocks.counts w).refs b
      = kv.refCount w b - (paused.flatMap (heldBlocks kv w)).count b :=
    congrFun (congrArg RefCounts.refs hcounts) b
  omega

/-- The split of the active requests and the invariant that the moves keep. -/
def PassInv (ctx : PassContext Key) (activeRequests d l cut : List LlmRequest)
    (s : MaxUtilState Key) : Prop :=
  activeRequests = d ++ l ++ cut ∧ Feasible ctx d cut s

lemma passInv_of_moves {l : List LlmRequest}
    (h : ReflTransGen (Move ctx) (activeRequests, ctx.maxUtilInit activeRequests) (l, s)) :
    ∃ d cut, PassInv ctx activeRequests d l cut s := by
  obtain ⟨d, cut, -, hinv⟩ := moves_induction (I := PassInv ctx activeRequests)
    ⟨by simp, feasible_init activeRequests⟩
    (fun hi ht => ⟨by simpa using hi.1, hi.2.turn ht⟩)
    (fun hi hl _ _ hstarted hafter hp =>
      ⟨by rw [hi.1, hl]; simp, hi.2.pause hstarted hafter hp⟩) h
  exact ⟨d, cut, hinv⟩

/-- A pass that returns is a sequence of moves. -/
lemma moves_of_maxUtilization (h : ctx.maxUtilization activeRequests = some s) :
    ∃ l, ReflTransGen (Move ctx) (activeRequests, ctx.maxUtilInit activeRequests) (l, s) := by
  have hends := @maxUtilLoop_ends _ _ ctx activeRequests (ctx.maxUtilInit activeRequests)
  obtain ⟨-, -, hloop⟩ := bind_eq_some_iff.mp h
  rw [hloop] at hends
  obtain ⟨l, hmoves, -⟩ := hends
  exact ⟨l, hmoves⟩

/-- A pass over requests whose blocks are accounted for does not throw. -/
lemma exists_maxUtilLoop (hself : Accounted ctx ctx.kv activeRequests)
    (hcross : ∀ cross, ctx.cross = some cross → Accounted ctx cross activeRequests) :
    ∃ s, ctx.maxUtilLoop activeRequests (ctx.maxUtilInit activeRequests) = some s := by
  have hends := @maxUtilLoop_ends _ _ ctx activeRequests (ctx.maxUtilInit activeRequests)
  cases hloop : ctx.maxUtilLoop activeRequests (ctx.maxUtilInit activeRequests) with
  | some s => exact ⟨s, rfl⟩
  | none =>
    rw [hloop] at hends
    obtain ⟨⟨l, s⟩, hmoves, before, last, hlast, hpause⟩ := hends
    obtain ⟨d, cut, hl, hinv⟩ := passInv_of_moves hmoves
    obtain ⟨after, hleft, hstarted, -⟩ := ctx.lastStarted_eq_some hlast
    simp only at hleft
    rw [hleft] at hl
    obtain ⟨blocks, hblocks⟩ := hself.removable hl hstarted hinv.paused hinv.self.released
    obtain ⟨crossBlocks, hcrossBlocks⟩ :
        ∃ b, ctx.crossRemoveSequence last.mRequestId s.crossBlocks = some b := by
      cases hc : ctx.cross with
      | none => exact ⟨s.crossBlocks, by simp [crossRemoveSequence, hc]⟩
      | some cross =>
        obtain ⟨b, hb⟩ :=
          (hcross cross hc).removable hl hstarted hinv.paused (hinv.cross cross hc).released
        exact ⟨b, by simpa [crossRemoveSequence, hc] using hb⟩
    simp [PassContext.pause, hblocks, hcrossBlocks] at hpause

/-! ### Passes without a shortage -/

/-- The eligible requests together fit one pool. -/
def PoolFits (ctx : PassContext Key) (kv : KVCacheManager Key)
    (demand : LlmRequest → WindowSize → ℤ) (activeRequests : List LlmRequest) : Prop :=
  ∀ w ∈ kv.windowSizes,
    ((activeRequests.filter (eligible ctx.cfg)).map fun r => max 0 (demand r w)).sum
      ≤ kv.numFreeBlocks w

/-- The eligible requests together fit the free blocks, the PEFT pages and the request
limit. -/
structure AllFit (ctx : PassContext Key) (activeRequests : List LlmRequest) : Prop where
  self : PoolFits ctx ctx.kv ctx.selfDemand activeRequests
  cross : ∀ cross, ctx.cross = some cross → PoolFits ctx cross ctx.crossDemand activeRequests
  peft : ∀ peft, ctx.peft = some peft →
    taskPages ctx.peft (tasksOf (activeRequests.filter (eligible ctx.cfg)))
      ≤ peft.getMaxDevicePages
  limit : (activeRequests.filter (eligible ctx.cfg)).length ≤ ctx.cfg.maxNumRequests

/-- What the requests done with have used when none was paused. -/
structure Unpaused (ctx : PassContext Key) (d : List LlmRequest) (s : MaxUtilState Key) :
    Prop where
  paused : s.pausedRequests = []
  blocks : s.blocks = startScheduling ctx.kv
  crossBlocks : ∀ cross, ctx.cross = some cross → s.crossBlocks = startScheduling cross
  admitted : s.numAdmittedRequests ≤ (d.filter (eligible ctx.cfg)).length
  self : ∀ w, s.mNumScheduledBlocks w
    ≤ ((d.filter (eligible ctx.cfg)).map fun r => max 0 (ctx.selfDemand r w)).sum
  cross : ∀ w, s.mNumScheduledCrossBlocks w
    ≤ ((d.filter (eligible ctx.cfg)).map fun r => max 0 (ctx.crossDemand r w)).sum
  seen : s.seenTaskIds ⊆ tasksOf (d.filter (eligible ctx.cfg))
  pages : s.numScheduledPeftPages = taskPages ctx.peft s.seenTaskIds

lemma Unpaused.turn (h : Unpaused ctx d s) (ht : Turn ctx req s s') :
    Unpaused ctx (d ++ [req]) s' := by
  have hsum (demand : LlmRequest → WindowSize → ℤ) (w : WindowSize) :
      (((d ++ [req]).filter (eligible ctx.cfg)).map fun r => max 0 (demand r w)).sum
        = ((d.filter (eligible ctx.cfg)).map fun r => max 0 (demand r w)).sum
          + if eligible ctx.cfg req then max 0 (demand req w) else 0 := by
    by_cases he : eligible ctx.cfg req <;> simp [filter_append, he]
  have htasks : tasksOf (d.filter (eligible ctx.cfg))
      ⊆ tasksOf ((d ++ [req]).filter (eligible ctx.cfg)) := by
    rw [filter_append]
    exact tasksOf_mono (subset_append_left _ _)
  have hlen : (d.filter (eligible ctx.cfg)).length
      ≤ ((d ++ [req]).filter (eligible ctx.cfg)).length := by
    simp [filter_append]
  have hself (w : WindowSize) : s.mNumScheduledBlocks w
      ≤ (((d ++ [req]).filter (eligible ctx.cfg)).map fun r => max 0 (ctx.selfDemand r w)).sum := by
    have := h.self w
    rw [hsum]
    split_ifs <;> omega
  have hcross (w : WindowSize) : s.mNumScheduledCrossBlocks w
      ≤ (((d ++ [req]).filter (eligible ctx.cfg)).map fun r =>
        max 0 (ctx.crossDemand r w)).sum := by
    have := h.cross w
    rw [hsum]
    split_ifs <;> omega
  -- a request that is counted is eligible, and so is among those done with
  have hcounted (he : eligible ctx.cfg req) :
      s.numAdmittedRequests + 1 ≤ ((d ++ [req]).filter (eligible ctx.cfg)).length
        ∧ seeTask req s.seenTaskIds ⊆ tasksOf ((d ++ [req]).filter (eligible ctx.cfg)) := by
    have happ : (d ++ [req]).filter (eligible ctx.cfg) = d.filter (eligible ctx.cfg) ++ [req] := by
      simp [filter_append, he]
    rw [happ, tasksOf_concat, length_append, length_singleton]
    exact ⟨Nat.succ_le_succ h.admitted, seeTask_mono h.seen⟩
  cases ht with
  | ignored | deferred =>
    exact { h with
      admitted := h.admitted.trans hlen, self := hself, cross := hcross
      seen := h.seen.trans htasks }
  | transmitted ht hlimit =>
    have he : eligible ctx.cfg req := by simp [eligible, ht]
    exact { h with
      admitted := (hcounted he).1, self := hself, cross := hcross
      seen := (hcounted he).2
      pages := by simp only [countTransmission, taskPages_seeTask, h.pages] }
  | scheduled ht htry =>
    obtain ⟨hcan, rfl⟩ := try_eq.mp htry
    have he := ht.eligible
    exact {
      paused := h.paused
      blocks := h.blocks
      crossBlocks := h.crossBlocks
      admitted := (hcounted he).1
      self := fun w => by
        have := h.self w
        rw [hsum, if_pos he]
        exact add_le_add this (le_max_right _ _)
      cross := fun w => by
        have := h.cross w
        rw [hsum, if_pos he]
        exact add_le_add this (le_max_right _ _)
      seen := (hcounted he).2
      pages := by simp only [register, placed, maxUtilAdmit, taskPages_seeTask, h.pages] }

omit [DecidableEq Key] in
/-- Without a shortage every request that is tried is scheduled. -/
lemma Unpaused.canPlace {rest : List LlmRequest} (h : Unpaused ctx d s)
    (hfit : AllFit ctx activeRequests) (hl : activeRequests = d ++ req :: rest)
    (he : eligible ctx.cfg req) : CanPlace ctx req s := by
  have hsplit : activeRequests.filter (eligible ctx.cfg)
      = d.filter (eligible ctx.cfg) ++ req :: rest.filter (eligible ctx.cfg) := by
    simp [hl, filter_append, he]
  have hpool (kv : KVCacheManager Key) (demand : LlmRequest → WindowSize → ℤ)
      (hkv : PoolFits ctx kv demand activeRequests) (totals : WindowSize → ℤ)
      (htotals : ∀ w,
        totals w ≤ ((d.filter (eligible ctx.cfg)).map fun r => max 0 (demand r w)).sum) :
      Fits kv demand req totals (startScheduling kv) := by
    intro w hw
    have hall := hkv w hw
    rw [hsplit, map_append, sum_append, map_cons, sum_cons] at hall
    have hrest : 0 ≤ ((rest.filter (eligible ctx.cfg)).map fun r => max 0 (demand r w)).sum := by
      refine sum_nonneg fun x hx => ?_
      obtain ⟨r, -, rfl⟩ := List.mem_map.mp hx
      exact le_max_left _ _
    have := htotals w
    show totals w + demand req w ≤ kv.numFreeBlocks w
    omega
  refine ⟨?_, ?_, .inr ?_, fun cross hc => .inr ?_⟩
  · have hlimit := hfit.limit
    rw [hsplit, length_append, length_cons] at hlimit
    have := h.admitted
    omega
  · cases hp : ctx.peft with
    | none => simp [fitsPeft, hp]
    | some peft =>
      have hpages : taskPages ctx.peft (seeTask req s.seenTaskIds) ≤ peft.getMaxDevicePages := by
        refine (taskPages_mono ?_).trans (hfit.peft peft hp)
        have hcat : d.filter (eligible ctx.cfg) ++ [req]
            ⊆ activeRequests.filter (eligible ctx.cfg) := by
          rw [hsplit]
          intro r hr
          simp only [mem_append, mem_cons] at hr ⊢
          tauto
        exact ((tasksOf_concat _ req) ▸ seeTask_mono h.seen).trans (tasksOf_mono hcat)
      rw [taskPages_seeTask, ← h.pages, add_comm] at hpages
      simpa [fitsPeft, hp] using hpages
  · rw [h.blocks]
    exact hpool ctx.kv ctx.selfDemand hfit.self _ h.self
  · rw [h.crossBlocks cross hc]
    exact hpool cross ctx.crossDemand (hfit.cross cross hc) _ h.cross

omit [DecidableEq Key] in
lemma unpaused_init (l : List LlmRequest) : Unpaused ctx [] (ctx.maxUtilInit l) where
  paused := rfl
  blocks := rfl
  crossBlocks cross hcross := by simp [maxUtilInit, hcross]
  admitted := le_rfl
  self _ := le_rfl
  cross _ := le_rfl
  seen := Finset.empty_subset _
  pages := by
    simp only [maxUtilInit, taskPages]
    cases ctx.peft <;> simp

/-- A pass whose requests all fit pauses none. -/
lemma unpaused_of_moves {l : List LlmRequest} (hfit : AllFit ctx activeRequests)
    (h : ReflTransGen (Move ctx) (activeRequests, ctx.maxUtilInit activeRequests) (l, s)) :
    s.pausedRequests = [] := by
  obtain ⟨d, cut, -, -, -, hinv⟩ := moves_induction
    (I := fun d l cut s => cut = [] ∧ activeRequests = d ++ l ∧ Unpaused ctx d s)
    ⟨rfl, rfl, unpaused_init activeRequests⟩
    (fun hi ht => ⟨hi.1, by simpa using hi.2.1, hi.2.2.turn ht⟩)
    (fun hi _ htried htry _ _ _ => by
      have hcan := hi.2.2.canPlace hfit hi.2.1 htried.eligible
      have hsome := try_eq.mpr ⟨hcan, rfl⟩
      rw [htry] at hsome
      cases hsome) h
  exact hinv.paused

/-- **The schedule is feasible and pauses only under a shortage.**  Over requests whose blocks
are accounted for the pass returns.  Whenever it does, the scheduled requests come before a
position of the list and the paused ones are the started ones from there on; the demands of
the schedule fit the free blocks and the blocks whose references all belong to paused
requests; the request and PEFT limits hold; and nothing is paused if all eligible requests
fit together. -/
theorem maxUtilization_feasible (ctx : PassContext Key) (activeRequests : List LlmRequest) :
    ((ctx.cfg.noScheduleUntilState = .kENCODER_INIT → ctx.cross.isSome) →
      Accounted ctx ctx.kv activeRequests →
      (∀ cross, ctx.cross = some cross → Accounted ctx cross activeRequests) →
      ∃ s, ctx.maxUtilization activeRequests = some s)
    ∧ ∀ s, ctx.maxUtilization activeRequests = some s →
      (∃ p, s.scheduledRequests.Sublist (activeRequests.take p)
          ∧ s.pausedRequests.reverse = (activeRequests.drop p).filter ctx.started)
      ∧ (activeRequests.Nodup → s.scheduledRequests.Disjoint s.pausedRequests)
      ∧ (∀ w ∈ ctx.kv.windowSizes, (s.scheduledRequests.map (ctx.selfDemand · w)).sum
          ≤ ctx.kv.numFreeBlocks w + (blocksOwnedBy ctx.kv w s.pausedRequests).card)
      ∧ (∀ cross, ctx.cross = some cross → ∀ w ∈ cross.windowSizes,
          (s.scheduledRequests.map (ctx.crossDemand · w)).sum
            ≤ cross.numFreeBlocks w + (blocksOwnedBy cross w s.pausedRequests).card)
      ∧ s.scheduledRequests.length ≤ ctx.cfg.maxNumRequests
      ∧ (∀ peft, ctx.peft = some peft →
          taskPages ctx.peft (tasksOf s.scheduledRequests) ≤ peft.getMaxDevicePages)
      ∧ (AllFit ctx activeRequests → s.pausedRequests = []) := by
  refine ⟨fun hcheck hself hcross => ?_, fun s hs => ?_⟩
  · obtain ⟨s, hloop⟩ := exists_maxUtilLoop hself hcross
    have hok : checkRequiredCrossKvCacheManager ctx.cfg ctx.cross = some () := by
      rw [checkRequiredCrossKvCacheManager, if_neg]
      rintro ⟨huntil, hnone⟩
      have := hcheck huntil
      simp_all
    exact ⟨s, by simp [maxUtilization, hok, hloop]⟩
  · obtain ⟨l, hmoves⟩ := moves_of_maxUtilization hs
    obtain ⟨d, cut, hl, hinv⟩ := passInv_of_moves hmoves
    have hpos : s.scheduledRequests.Sublist (activeRequests.take (d.length + l.length))
        ∧ s.pausedRequests.reverse
          = (activeRequests.drop (d.length + l.length)).filter ctx.started := by
      rw [hl, ← length_append, take_left, drop_left]
      exact ⟨hinv.scheduled.trans (sublist_append_left d l), hinv.paused⟩
    refine ⟨⟨_, hpos⟩, fun hnodup r hr hp => ?_, hinv.self.feasible,
      fun cross hc => (hinv.cross cross hc).feasible, hinv.counted.trans hinv.limit, hinv.peft,
      fun hfit => unpaused_of_moves hfit hmoves⟩
    -- scheduled requests lie before the position, paused ones after it
    rw [← mem_reverse, hpos.2] at hp
    have hdisj := (nodup_append.mp (hl ▸ hnodup : (d ++ l ++ cut).Nodup)).2.2
    rw [hl, ← length_append, drop_left] at hp
    exact hdisj r (mem_append_left l (hinv.scheduled.subset hr)) r
      (mem_of_mem_filter hp) rfl

/-! ### The request limit -/

/-- A request of which one token has been generated. -/
def generating (id : ℕ) : LlmRequest where
  mRequestId := id
  mState := .kGENERATION_IN_PROGRESS
  mPromptLen := 1
  contextCurrentPosition := 1
  prepopulatedPromptLen := 0
  contextChunkSize := 0
  estimatedReusableTokens := 0
  numTokens := 2
  numDraftTokens := 0
  beamWidth := 1
  encoderOutputLen := 0
  expectedSnapshotPoints := []
  loraTaskId := none
  hasEncoderUniqueTokens := false
  position_le := le_rfl

/-- A manager with ten free blocks in one window, in which every request holds the block of
its number and needs one more. -/
def roomyManager : KVCacheManager ℕ where
  isEnableBlockReuse := false
  isVariableWindow := false
  windowSizes := [64]
  windowSizes_nodup := by decide
  numFreeBlocks _ := 10
  analyzePrefixReuse _ := {}
  getRemainingBlocksToCompletion _ _ _ := 1
  getNeededBlocksOneStep _ _ _ _ := 1
  allocatedBlocks _ id := some [id]
  isPlaceholder _ _ := false
  refCount _ _ := 1

/-- A pass that may schedule one request. -/
def oneRequest : PassContext ℕ where
  cfg := ⟨1, .kCONTEXT_INIT, .kGENERATION_COMPLETE, false, false⟩
  kv := roomyManager
  cross := none
  peft := none

/-- Two requests in generation fit the free blocks, and no PEFT pages are asked for, but the
request limit is one: the second request is paused. -/
theorem maxUtilization_pauses_at_limit :
    PoolFits oneRequest roomyManager oneRequest.selfDemand [generating 0, generating 1]
      ∧ oneRequest.peft = none
      ∧ ∃ s, oneRequest.maxUtilization [generating 0, generating 1] = some s
        ∧ s.pausedRequests = [generating 1] := by
  refine ⟨fun w hw => ?_, rfl, ?_⟩
  · rw [mem_singleton.mp hw]
    decide
  · have hrun : (oneRequest.maxUtilization [generating 0, generating 1]).map (·.pausedRequests)
        = some [generating 1] := by decide +kernel
    exact map_eq_some_iff.mp hrun

end PassContext

end TrtLlm.CapacityScheduler
