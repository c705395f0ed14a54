import TrtLlm.Scheduler.MicroBatchChunks

/-!
The budgets of the micro-batch scheduler.

* `SelectionOk`: what the scan keeps of the requests that it has taken;
* `microBatch_budgets`: **what a step schedules is within its limits**.
-/

namespace TrtLlm.MicroBatchScheduler

open List Option

variable {capacity : Option ℤ} {unit : ℕ} {maxLength : Option ℕ} {requests : List LlmRequest}

/-! ### The scan -/

/-- The model tokens of a scheduled context or encoder request. -/
def contextModelTokens (sched : MicroBatchScheduler) (req : LlmRequest) : ℤ :=
  if req.isEncoderInitState then req.encoderOutputLen
  else if sched.mCtxChunkConfig.isNone then wholeContextCompute req
  else chunkTokens req

/-- The model tokens of a scheduled generation request. -/
def generationModelTokens (req : LlmRequest) : ℤ := req.beamWidth + req.numDraftTokens

/-- All requests taken so far. -/
def Selection.all (s : Selection) : List LlmRequest :=
  s.contextRequests ++ s.contextsToBeChunked ++ s.generationRequests

/-- The invariant of the scan: every request but those collected for chunking is charged, the
charge is within the budget, and the collected ones are accounted as long as all of them fit. -/
structure SelectionOk (sched : MicroBatchScheduler) (budget : Option ℕ) (s : Selection) :
    Prop where
  batch : ∀ m, budget = some m → s.batchNumTokens ≤ m
  charged : (s.contextRequests.map (contextModelTokens sched)).sum
    + (s.generationRequests.map generationModelTokens).sum ≤ s.batchNumTokens
  beam : ∀ req ∈ s.generationRequests, 0 < req.beamWidth ∧ req.beamWidth = s.scheduledBeamWidth
  encoder : sched.mCtxChunkConfig.isSome → ∀ req ∈ s.contextRequests, req.isEncoderInitState
  chunkable : ∀ req ∈ s.contextsToBeChunked, sched.mCtxChunkConfig.isSome
    ∧ req.isContextInitState ∧ req.contextChunkSize ≤ req.contextRemainingLength
  fit : s.allContextRequestsFit → s.numChunkedComputeTokens
    = (s.contextsToBeChunked.map chunkTokens).sum

variable {sched : MicroBatchScheduler} {budget : Option ℕ} {s t : Selection} {llmReq : LlmRequest}

/-- A request joins those already taken; only its chunk size may have been set. -/
def Joins (llmReq : LlmRequest) (s t : Selection) : Prop :=
  t.scheduledReqSize = s.scheduledReqSize
    ∧ ∃ req : LlmRequest, req.base = llmReq.base ∧ t.all.Perm (req :: s.all)

lemma not_overBudget {tokens m : ℕ} (hm : budget = some m)
    (h : ¬ overBudget budget tokens = true) : tokens ≤ m := by
  subst hm
  simpa [overBudget] using h

lemma not_encoder_of_context {req : LlmRequest} (h : req.isContextInitState = true) :
    req.isEncoderInitState = false := by
  simp only [LlmRequest.isContextInitState, LlmRequest.isEncoderInitState, Bool.or_eq_true,
    decide_eq_true_eq, decide_eq_false_iff_not] at h ⊢
  rintro hstate
  simp [hstate] at h

section

variable (h : SelectionOk sched budget s)
include h

lemma selectEncoder_ok (hencoder : llmReq.isEncoderInitState)
    (ht : selectEncoder sched budget llmReq s = some (.taken t)) :
    SelectionOk sched budget t ∧ Joins llmReq s t := by
  simp only [selectEncoder] at ht
  split_ifs at ht with hlength hover
  · cases ht
  · cases ht
    refine ⟨{ h with batch := ?_, charged := ?_, encoder := ?_ }, rfl, llmReq, rfl, ?_⟩
    · exact fun m hm => not_overBudget hm hover
    · have := h.charged
      simp only [map_append, map_cons, map_nil, sum_append,
        sum_singleton, contextModelTokens, hencoder, if_true]
      push_cast
      linarith
    · simpa [hencoder, or_imp, forall_and] using h.encoder
    · simp only [Selection.all, append_assoc]
      exact perm_middle

lemma selectWholeContext_ok (hcontext : llmReq.isContextInitState)
    (hwhole : sched.mCtxChunkConfig.isNone)
    (ht : selectWholeContext sched budget llmReq s = some (.taken t)) :
    SelectionOk sched budget t ∧ Joins llmReq s t := by
  simp only [selectWholeContext] at ht
  split_ifs at ht with hlength hover
  · cases ht
  · cases ht
    refine ⟨{ h with batch := ?_, charged := ?_, encoder := ?_ }, rfl, llmReq, rfl, ?_⟩
    · exact fun m hm => not_overBudget hm hover
    · have := h.charged
      simp only [map_append, map_cons, map_nil, sum_append,
        sum_singleton, contextModelTokens, not_encoder_of_context hcontext, hwhole, if_true,
        Bool.false_eq_true, if_false]
      push_cast
      have := le_max_right 1 (wholeContextCompute llmReq)
      have := Int.self_le_toNat (max 1 (wholeContextCompute llmReq))
      linarith
    · intro hsome
      rw [isNone_iff_eq_none.1 hwhole] at hsome
      cases hsome
    · simp only [Selection.all, append_assoc]
      exact perm_middle

lemma selectChunkedContext_ok
    (hcontext : llmReq.isContextInitState) (hchunk : sched.mCtxChunkConfig.isSome)
    (ht : selectChunkedContext sched llmReq s = some (.taken t)) :
    SelectionOk sched budget t ∧ Joins llmReq s t := by
  simp only [selectChunkedContext, map_eq_some_iff] at ht
  obtain ⟨whole, hset, ht⟩ := ht
  obtain ⟨-, hwhole⟩ := LlmRequest.setContextChunkSize_eq_some hset
  cases ht
  refine ⟨{ h with chunkable := ?_, fit := ?_ }, rfl, whole, by simp [hwhole], ?_⟩
  · intro req hreq
    rcases mem_append.1 hreq with hreq | hreq
    · exact h.chunkable req hreq
    · rw [mem_singleton.1 hreq, hwhole]
      exact ⟨hchunk, hcontext, by simp⟩
  · intro hfit
    simp only [Bool.and_eq_true, Bool.not_eq_true'] at hfit
    simp only [hfit.2, Bool.false_eq_true, if_false, h.fit hfit.1, map_append, map_cons,
      map_nil, sum_append, sum_singleton]
  · simp only [Selection.all, append_assoc]
    rw [← append_assoc]
    exact perm_middle.trans (by simp)

lemma selectGeneration_ok (hbeam : 0 < llmReq.beamWidth)
    (ht : selectGeneration budget llmReq s = some (.taken t)) :
    SelectionOk sched budget t ∧ Joins llmReq s t := by
  simp only [selectGeneration] at ht
  split at ht
  · cases ht
  split at ht
  · cases ht
  · rename_i hover hskip
    cases ht
    refine ⟨{ h with batch := ?_, charged := ?_, beam := ?_ }, rfl, llmReq, rfl, ?_⟩
    · exact fun m hm => not_overBudget hm hover
    · have := h.charged
      simp only [map_append, map_cons, map_nil, sum_append, sum_singleton, generationModelTokens]
      push_cast
      linarith
    · intro req hreq
      rcases mem_append.1 hreq with hreq | hreq
      · obtain ⟨hpos, heq⟩ := h.beam req hreq
        rw [if_neg (by omega)]
        exact ⟨hpos, heq⟩
      · rw [mem_singleton.1 hreq]
        refine ⟨hbeam, ?_⟩
        dsimp only
        split_ifs <;> omega
    · simp only [Selection.all]
      rw [← append_assoc]
      exact perm_append_singleton _ _

lemma select_ok (hbeam : 0 < llmReq.beamWidth)
    (ht : select sched budget llmReq s = some (.taken t)) :
    SelectionOk sched budget t ∧ Joins llmReq s t := by
  simp only [select] at ht
  split_ifs at ht with hencoder hcontext hwhole
  · exact selectEncoder_ok h hencoder ht
  · exact selectWholeContext_ok h hcontext hwhole ht
  · exact selectChunkedContext_ok h hcontext (by simpa [isSome_iff_ne_none] using hwhole) ht
  · exact selectGeneration_ok h hbeam ht

end

/-- What a scan of some requests adds to a selection: each of them at most once, none in flight,
up to the batch limit. -/
structure Scanned (inflight : List ℕ) (limit : ℕ) (requests : List LlmRequest)
    (s t : Selection) : Prop where
  subperm : (t.all.map LlmRequest.base).Subperm
    (s.all.map LlmRequest.base ++ requests.map LlmRequest.base)
  idle : (∀ req ∈ s.all, req.mRequestId ∉ inflight) → ∀ req ∈ t.all, req.mRequestId ∉ inflight
  count : s.all.length = s.scheduledReqSize → t.all.length = t.scheduledReqSize
  size : s.scheduledReqSize < max limit 1 → t.scheduledReqSize ≤ max limit 1

section Scan

variable {inflight : List ℕ} {limit : ℕ} {requests others : List LlmRequest} {u : Selection}

lemma Scanned.mono (h : Scanned inflight limit requests s t) (hsub : requests.Sublist others) :
    Scanned inflight limit others s t := by
  refine { h with subperm := h.subperm.trans ?_ }
  exact (subperm_append_left _).2 (hsub.map _).subperm

lemma Scanned.refl (s : Selection) : Scanned inflight limit [] s s :=
  ⟨by simpa using Subperm.refl _, id, id, fun hlt => hlt.le⟩

lemma Scanned.trans (h : Scanned inflight limit requests s t)
    (hlt : t.scheduledReqSize < max limit 1)
    (h' : Scanned inflight limit others t u) : Scanned inflight limit (requests ++ others) s u := by
  refine ⟨h'.subperm.trans ?_, h'.idle ∘ h.idle, h'.count ∘ h.count, fun _ => h'.size hlt⟩
  rw [map_append, ← append_assoc]
  exact (subperm_append_right _).2 h.subperm

lemma Joins.scanned (h : Joins llmReq s t) (hidle : llmReq.mRequestId ∉ inflight) :
    Scanned inflight limit [llmReq] s { t with scheduledReqSize := t.scheduledReqSize + 1 } := by
  obtain ⟨hsize, req, hbase, hperm⟩ := h
  have hall : Selection.all { t with scheduledReqSize := t.scheduledReqSize + 1 } = t.all := rfl
  refine ⟨?_, fun hs r hr => ?_, fun hs => ?_, fun hs => ?_⟩
  · have hmap := hperm.map LlmRequest.base
    rw [map_cons, hbase] at hmap
    rw [hall]
    exact (hmap.trans (perm_append_singleton _ _).symm).subperm
  · rcases mem_cons.1 (hperm.mem_iff.1 hr) with rfl | hr
    · have hid : r.base.mRequestId = llmReq.base.mRequestId := by rw [hbase]
      exact fun hin => hidle (hid ▸ hin)
    · exact hs r hr
  · rw [hall, hperm.length_eq, length_cons, hs, hsize]
  · dsimp only
    omega

/-- The scan keeps the invariant and takes requests of its list only. -/
lemma selectLoop_scanned (hbeam : ∀ req ∈ requests, 0 < req.beamWidth)
    (hok : SelectionOk sched budget s)
    (h : selectLoop sched budget inflight limit requests s = some t) :
    SelectionOk sched budget t ∧ Scanned inflight limit requests s t := by
  induction requests generalizing s with
  | nil =>
    cases h
    exact ⟨hok, .refl _⟩
  | cons llmReq rest ih =>
    have hrest : ∀ req ∈ rest, 0 < req.beamWidth :=
      fun req hreq => hbeam req (mem_cons_of_mem _ hreq)
    have hskipped (h : selectLoop sched budget inflight limit rest s = some t) :
        SelectionOk sched budget t ∧ Scanned inflight limit (llmReq :: rest) s t := by
      obtain ⟨ht, hscan⟩ := ih hrest hok h
      exact ⟨ht, hscan.mono (sublist_cons_self _ _)⟩
    simp only [selectLoop] at h
    split at h
    · exact hskipped h
    · rename_i hskip
      simp only [Bool.or_eq_true, decide_eq_true_eq, not_or] at hskip
      split at h
      · cases h
      · exact hskipped h
      · cases h
        exact ⟨hok, (Scanned.refl _).mono (nil_sublist _)⟩
      · rename_i u hu
        obtain ⟨huok, hjoin⟩ := select_ok hok (hbeam llmReq mem_cons_self) hu
        have hone := @Joins.scanned _ _ _ inflight limit hjoin hskip.2
        have hcounted : SelectionOk sched budget
            { u with scheduledReqSize := u.scheduledReqSize + 1 } := { huok with }
        split at h
        · cases h
          exact ⟨hcounted, hone.mono (by simp)⟩
        · rename_i hlimit
          obtain ⟨ht, hscan⟩ := ih hrest hcounted h
          exact ⟨ht, hone.trans (by dsimp only; omega) hscan⟩

end Scan

/-! ### The schedule -/

/-- The chunked contexts stay those that were collected, and the compute and draft tokens of
their chunks fit into what the budget leaves. -/
lemma chunkContexts_spec {chunked : List LlmRequest} (h : SelectionOk sched budget s)
    (hchunked : chunkContexts sched budget s = some chunked) :
    chunked.map LlmRequest.base = s.contextsToBeChunked.map LlmRequest.base
      ∧ (∀ req ∈ chunked, req.contextChunkSize ≤ req.contextRemainingLength)
      ∧ ∀ m, budget = some m → (chunked.map chunkTokens).sum ≤ m - (s.batchNumTokens : ℤ) := by
  simp only [chunkContexts] at hchunked
  split at hchunked
  · rename_i hfit
    cases hchunked
    simp only [allFit, Bool.and_eq_true, Bool.not_eq_true'] at hfit
    refine ⟨rfl, fun req hreq => (h.chunkable req hreq).2.2, fun m hm => ?_⟩
    have hle := hfit.1.2
    rw [← h.fit hfit.1.1]
    subst hm
    simpa using hle
  · obtain ⟨config, -, hset⟩ := bind_eq_some_iff.1 hchunked
    have hcapacity : ∀ c, budget.map (fun m : ℕ => (m : ℤ) - s.batchNumTokens) = some c →
        0 ≤ c := by
      intro c hc
      obtain ⟨m, hm, rfl⟩ := map_eq_some_iff.1 hc
      have := h.batch m hm
      omega
    obtain ⟨hbase, hwithin, hfits⟩ := setCtxRequestsChunkSize_fits hcapacity hset
    exact ⟨hbase, hwithin, fun m hm => hfits _ (by rw [hm]; rfl)⟩

lemma sortRequests_perm {ctx gen ctx' gen' : List LlmRequest} {chunksPresent : Bool}
    (h : sortRequests ctx gen chunksPresent = some (ctx', gen')) :
    ctx'.Perm ctx ∧ gen'.Perm gen := by
  simp only [sortRequests] at h
  split at h
  · split at h
    · cases h
      refine ⟨?_, mergeSort_perm _ _⟩
      have hsorted := (mergeSort_perm (ctx.filter fun req => !req.isLastContextChunk)
        loraLe).append (mergeSort_perm (ctx.filter fun req => req.isLastContextChunk) loraLe)
      exact hsorted.trans (perm_append_comm.trans (filter_append_perm _ _))
    · cases h
  · cases h
    exact ⟨mergeSort_perm _ _, mergeSort_perm _ _⟩

/-- The model tokens of a schedule. -/
def modelTokens (sched : MicroBatchScheduler)
    (contextRequests generationRequests : List LlmRequest) : ℤ :=
  (contextRequests.map (contextModelTokens sched)).sum
    + (generationRequests.map generationModelTokens).sum

lemma chunkTokens_nonneg (req : LlmRequest) : 0 ≤ chunkTokens req := by
  have hcompute := reuseAdjustedCompute_nonneg (Int.natCast_nonneg req.contextChunkSize)
    req.reusableTokens req.contextRemainingLength
  have hdrafts : 0 ≤ keptDrafts req := by
    simp only [keptDrafts]
    split_ifs <;> omega
  exact add_nonneg hcompute hdrafts

lemma sum_filter_le {l : List LlmRequest} (p : LlmRequest → Bool) :
    ((l.filter p).map chunkTokens).sum ≤ (l.map chunkTokens).sum := by
  refine ((filter_sublist).map chunkTokens).sum_le_sum fun x hx => ?_
  obtain ⟨req, -, rfl⟩ := List.mem_map.1 hx
  exact chunkTokens_nonneg req

/-- The selection before the scan. -/
lemma selectionOk_start : SelectionOk sched budget ⟨[], [], 0, 0, 0, [], 0, true⟩ where
  batch := fun m _ => Nat.zero_le m
  charged := by simp
  beam := by simp
  encoder := by simp
  chunkable := by simp
  fit := by simp

section Schedule

variable {chunked contextRequests generationRequests : List LlmRequest}

section

variable (h : SelectionOk sched budget s)
  (hbase : chunked.map LlmRequest.base = s.contextsToBeChunked.map LlmRequest.base)
include h hbase

/-- A chunked context request is charged its chunk tokens. -/
lemma contextModelTokens_chunked :
    ∀ req ∈ chunked, contextModelTokens sched req = chunkTokens req := by
  intro req hreq
  obtain ⟨old, hold, heq⟩ := List.mem_map.1 (hbase ▸ List.mem_map_of_mem hreq)
  have hstate : old.base.isEncoderInitState = req.base.isEncoderInitState := by rw [heq]
  have hnot : req.isEncoderInitState = false :=
    hstate.symm.trans (not_encoder_of_context (h.chunkable old hold).2.1)
  have hsome := (h.chunkable old hold).1
  rw [← not_isNone, Bool.not_eq_true'] at hsome
  simp [contextModelTokens, hnot, hsome]

/-- What runs: the requests that were charged in the scan and the chunks that are not empty. -/
lemma modelTokens_le {m : ℕ} (hfits : (chunked.map chunkTokens).sum ≤ m - (s.batchNumTokens : ℤ))
    (hctx : contextRequests.Perm
      (s.contextRequests ++ chunked.filter fun req => 0 < req.contextChunkSize))
    (hgen : generationRequests.Perm s.generationRequests) :
    modelTokens sched contextRequests generationRequests ≤ m := by
  have hchunk : ((chunked.filter fun req => 0 < req.contextChunkSize).map
      (contextModelTokens sched)).sum ≤ m - (s.batchNumTokens : ℤ) := by
    rw [map_congr_left fun req hreq =>
      contextModelTokens_chunked h hbase req (mem_of_mem_filter hreq)]
    exact (sum_filter_le _).trans hfits
  have hcharged := h.charged
  have hctxSum := (hctx.map (contextModelTokens sched)).sum_eq
  have hgenSum := (hgen.map generationModelTokens).sum_eq
  rw [map_append, sum_append] at hctxSum
  simp only [modelTokens]
  linarith

end

/-- The scheduled requests are requests that the scan took. -/
lemma scheduled_subperm
    (hbase : chunked.map LlmRequest.base = s.contextsToBeChunked.map LlmRequest.base)
    (hctx : contextRequests.Perm
      (s.contextRequests ++ chunked.filter fun req => 0 < req.contextChunkSize))
    (hgen : generationRequests.Perm s.generationRequests) :
    ((contextRequests ++ generationRequests).map LlmRequest.base).Subperm
      (s.all.map LlmRequest.base) := by
  have hruns : ((chunked.filter fun req => 0 < req.contextChunkSize).map LlmRequest.base).Sublist
      (s.contextsToBeChunked.map LlmRequest.base) := hbase ▸ filter_sublist.map _
  refine ((hctx.append hgen).map LlmRequest.base).subperm.trans ?_
  simp only [Selection.all, map_append]
  exact (((Sublist.refl _).append hruns).append (Sublist.refl _)).subperm

/-- **Micro-batch budgets.** Every schedule takes each active request at most once, none in
flight, at most the batch limit of them (and one under the limit zero), generation requests of
one beam width, chunks between one and the remaining context, and within the token budget. -/
theorem microBatch_budgets {activeRequests : List LlmRequest} {inflightReqIds : List ℕ}
    {maxBatchSizeRuntime : ℕ} (hbeam : ∀ req ∈ activeRequests, 0 < req.beamWidth)
    (h : schedule sched budget activeRequests inflightReqIds maxBatchSizeRuntime
      = some (contextRequests, generationRequests)) :
    ((contextRequests ++ generationRequests).map LlmRequest.base).Subperm
        (activeRequests.map LlmRequest.base)
      ∧ (∀ req ∈ contextRequests ++ generationRequests, req.mRequestId ∉ inflightReqIds)
      ∧ (contextRequests ++ generationRequests).length ≤ max maxBatchSizeRuntime 1
      ∧ (∀ req ∈ generationRequests, ∀ other ∈ generationRequests, req.beamWidth = other.beamWidth)
      ∧ (sched.mCtxChunkConfig.isSome → ∀ req ∈ contextRequests, req.isContextInitState →
        1 ≤ req.contextChunkSize ∧ req.contextChunkSize ≤ req.contextRemainingLength)
      ∧ ∀ m, budget = some m → modelTokens sched contextRequests generationRequests ≤ m := by
  simp only [schedule, bind_eq_some_iff] at h
  obtain ⟨s, hs, chunked, hchunked, hsort⟩ := h
  obtain ⟨hok, hscan⟩ := selectLoop_scanned hbeam selectionOk_start hs
  obtain ⟨hbase, hwithin, hfits⟩ := chunkContexts_spec hok hchunked
  obtain ⟨hctx, hgen⟩ := sortRequests_perm hsort
  have hsub := scheduled_subperm hbase hctx hgen
  refine ⟨hsub.trans hscan.subperm, fun req hreq => ?_, ?_, fun req hreq other hother => ?_,
    fun hconfig req hreq hcontext => ?_, fun m hm =>
      modelTokens_le hok hbase (hfits m hm) hctx hgen⟩
  · obtain ⟨old, hold, heq⟩ := List.mem_map.1 (hsub.subset (List.mem_map_of_mem hreq))
    have hid : old.base.mRequestId = req.base.mRequestId := by rw [heq]
    have hidle := hscan.idle (by simp [Selection.all]) old hold
    exact fun hin => hidle (hid ▸ hin)
  · have hlength := hsub.length_le
    rw [length_map, length_map, hscan.count rfl] at hlength
    exact hlength.trans (hscan.size (by simp))
  · have hfirst := (hok.beam req (hgen.mem_iff.1 hreq)).2
    have hsecond := (hok.beam other (hgen.mem_iff.1 hother)).2
    exact hfirst.trans hsecond.symm
  · rcases mem_append.1 (hctx.mem_iff.1 hreq) with hreq | hreq
    · have := hok.encoder hconfig req hreq
      rw [not_encoder_of_context hcontext] at this
      cases this
    · obtain ⟨hmem, hpos⟩ := mem_filter.1 hreq
      exact ⟨Nat.one_le_iff_ne_zero.2 (by simpa [Nat.pos_iff_ne_zero] using hpos), hwithin req hmem⟩

/-- A request with a prompt of ten tokens, four of them reusable, and three draft tokens. -/
def tenTokens (id : ℕ) (state : LlmRequestState) (beamWidth : ℕ) : LlmRequest where
  mRequestId := id
  mState := state
  mPromptLen := 10
  contextCurrentPosition := 0
  prepopulatedPromptLen := 0
  contextChunkSize := 10
  estimatedReusableTokens := 4
  numTokens := 10
  numDraftTokens := 3
  beamWidth := beamWidth
  encoderOutputLen := 0
  expectedSnapshotPoints := []
  loraTaskId := none
  hasEncoderUniqueTokens := false
  position_le := Nat.zero_le _

/-- Equal progress in units of four tokens. -/
def equalProgressByFour : MicroBatchScheduler where
  mMaxContextLength := some 16
  mCtxChunkConfig := some ⟨.kEQUAL_PROGRESS, 4, by decide⟩
  mNoScheduleUntilState := .kCONTEXT_INIT
  mNoScheduleAfterState := .kGENERATION_COMPLETE

/-- A generation request and two context requests share fifteen tokens: the first context runs
whole with its reusable prefix, the second one is left a single chunk unit. -/
theorem microBatch_budgets_shared : ∃ contextRequests generationRequests,
      schedule equalProgressByFour (some 15) [tenTokens 0 .kGENERATION_IN_PROGRESS 1,
          tenTokens 1 .kCONTEXT_INIT 1, tenTokens 2 .kCONTEXT_INIT 1] [7] 8
        = some (contextRequests, generationRequests)
      ∧ contextRequests.map (·.contextChunkSize) = [4, 10]
      ∧ modelTokens equalProgressByFour contextRequests generationRequests ≤ 15 := by
  have h : schedule equalProgressByFour (some 15) [tenTokens 0 .kGENERATION_IN_PROGRESS 1,
      tenTokens 1 .kCONTEXT_INIT 1, tenTokens 2 .kCONTEXT_INIT 1] [7] 8
      = some ([(tenTokens 2 .kCONTEXT_INIT 1).withChunkSize 4,
        (tenTokens 1 .kCONTEXT_INIT 1).withDraftTokens 1],
          [tenTokens 0 .kGENERATION_IN_PROGRESS 1]) := by
    decide +kernel
  have hbudgets := microBatch_budgets (by decide) h
  exact ⟨_, _, h, rfl, hbudgets.2.2.2.2.2 15 rfl⟩

/-- The batch limit is compared after a request was taken: under the limit zero one request is
still scheduled. -/
theorem microBatch_takes_one_under_zero : ∃ contextRequests generationRequests,
      schedule equalProgressByFour (some 15) [tenTokens 0 .kGENERATION_IN_PROGRESS 1] [] 0
        = some (contextRequests, generationRequests)
      ∧ ¬ (contextRequests ++ generationRequests).length ≤ 0 := by
  have h : schedule equalProgressByFour (some 15) [tenTokens 0 .kGENERATION_IN_PROGRESS 1] [] 0
      = some ([], [tenTokens 0 .kGENERATION_IN_PROGRESS 1]) := by
    decide +kernel
  exact ⟨_, _, h, by decide⟩

end Schedule

end TrtLlm.MicroBatchScheduler
