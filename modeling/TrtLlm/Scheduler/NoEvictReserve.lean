import Mathlib.Tactic
import TrtLlm.Scheduler.CapacityScheduler

/-!
The blocks that `GuaranteedNoEvictScheduler` sets aside: in every window the free blocks less
what the scheduled requests, and those that are being transmitted, need to completion. If the
requests in progress fit, so does the whole schedule.
-/

namespace TrtLlm.CapacityScheduler.PassContext

open List Function Bool

variable {Key : Type} [DecidableEq Key] {ctx : PassContext Key} {w : WindowSize}
  {activeRequests : List LlmRequest}

/-- What a request needs to completion in a window. -/
def needOf (ctx : PassContext Key) (w : WindowSize) (req : LlmRequest) : ℤ :=
  ctx.kv.getRemainingBlocksToCompletion req w (ctx.noEvictSummary req)

omit [DecidableEq Key] in
/-- Reserving the demands of a request lowers the budget of each window by its own. -/
lemma commitBlocks_neededBlocks {kv : KVCacheManager Key} (hw : w ∈ kv.windowSizes)
    (available : WindowSize → ℤ) (req : LlmRequest) (summary : Option (PrefixReuseSummary Key)) :
    commitBlocks available (neededBlocks kv req summary) w
      = available w - kv.getRemainingBlocksToCompletion req w summary := by
  have hfold : ∀ (ws : List WindowSize) (a : WindowSize → ℤ), ws.Nodup →
      commitBlocks a (ws.map fun w => (w, kv.getRemainingBlocksToCompletion req w summary)) w
        = a w - if w ∈ ws then kv.getRemainingBlocksToCompletion req w summary else 0 := by
    intro ws
    induction ws with
    | nil => intro a _; simp [commitBlocks]
    | cons v ws ih =>
      intro a hnodup
      obtain ⟨hv, hrest⟩ := nodup_cons.1 hnodup
      have hstep := ih (update a v (a v - kv.getRemainingBlocksToCompletion req v summary))
        hrest
      rw [commitBlocks] at hstep ⊢
      rw [map_cons, foldl_cons, hstep, update_apply]
      by_cases hwv : w = v
      · subst hwv
        simp [hv]
      · simp [hwv]
  rw [neededBlocks, hfold _ _ kv.windowSizes_nodup, if_pos hw]

/-- The budget of a window: the free blocks less the demands of the requests that are scheduled
for more than their encoder, and of those in transmission. -/
structure Reserved (ctx : PassContext Key) (w : WindowSize) (activeRequests : List LlmRequest)
    (s : NoEvictState Key) (transmitted : List LlmRequest) : Prop where
  budget : s.reservedBlocks w = ctx.kv.numFreeBlocks w
    - ((s.scheduledRequests.filter fun r => !r.isEncoderInitState).map (ctx.needOf w)).sum
    - (transmitted.map (ctx.needOf w)).sum
  state : ∀ r ∈ transmitted,
    r ∈ activeRequests ∧ r.isDisaggGenerationTransmissionInProgress = true

omit [DecidableEq Key] in
/-- Requests in progress have no prefix summary. -/
lemma noEvictSummary_eq_none {req : LlmRequest} (h : req.isContextInitState = false) :
    ctx.noEvictSummary req = none := by
  simp [noEvictSummary, LlmRequest.isFirstChunkContext, h]

omit [DecidableEq Key] in
lemma scanActive_reserved (hw : w ∈ ctx.kv.windowSizes) (l : List LlmRequest) :
    l ⊆ activeRequests → ∀ {s : NoEvictState Key} {t : List LlmRequest},
      Reserved ctx w activeRequests s t →
      ∃ t', Reserved ctx w activeRequests (ctx.scanActive l s) t' := by
  induction l with
  | nil => exact fun _ _ _ h => ⟨_, h⟩
  | cons req l ih =>
    intro hsub s transmitted h
    obtain ⟨hreq, hrest⟩ := cons_subset.1 hsub
    replace ih := @ih hrest
    rw [scanActive]
    split_ifs with heligible hlimit hprogress hgen hdisagg
    · exact ih h
    · exact ⟨_, h⟩
    · -- in generation: scheduled
      have hcontext : req.isContextInitState = false := by
        simp only [LlmRequest.isGenerationInProgressState, or_eq_true, decide_eq_true_eq] at hgen
        simp only [LlmRequest.isContextInitState]
        rcases hgen with (h | h) | h <;> simp [h]
      have hencoder : req.isEncoderInitState = false := by
        simp only [LlmRequest.isGenerationInProgressState, or_eq_true, decide_eq_true_eq] at hgen
        simp only [LlmRequest.isEncoderInitState]
        rcases hgen with (h | h) | h <;> simp [h]
      have hneed : ctx.needOf w req = ctx.kv.getRemainingBlocksToCompletion req w none := by
        rw [needOf, noEvictSummary_eq_none hcontext]
      refine ih (t := transmitted) ⟨?_, h.state⟩
      have hbudget := h.budget
      simp only [commitBlocks_neededBlocks hw, filter_append, map_append,
        sum_append, filter_cons, hencoder, Bool.not_false, if_true, filter_nil,
        map_cons, map_nil, sum_cons, sum_nil, hneed]
      omega
    · -- in transmission: reserved only
      have htransmitted : req.isDisaggGenerationTransmissionInProgress = true := by
        simpa [hgen] using hprogress
      have hcontext : req.isContextInitState = false := by
        simp only [LlmRequest.isDisaggGenerationTransmissionInProgress,
          decide_eq_true_eq] at htransmitted
        simp [LlmRequest.isContextInitState, htransmitted]
      have hneed : ctx.needOf w req = ctx.kv.getRemainingBlocksToCompletion req w none := by
        rw [needOf, noEvictSummary_eq_none hcontext]
      refine ih (t := req :: transmitted) ⟨?_, ?_⟩
      · have hbudget := h.budget
        simp only [commitBlocks_neededBlocks hw, map_cons, sum_cons, hneed]
        omega
      · exact forall_mem_cons.2 ⟨⟨hreq, htransmitted⟩, h.state⟩
    · exact ih ⟨h.budget, h.state⟩
    · exact ih ⟨h.budget, h.state⟩

lemma schedulePending_reserved (staticBatch : Bool) (hw : w ∈ ctx.kv.windowSizes)
    (l : List LlmRequest) : ∀ {s : NoEvictState Key} {transmitted : List LlmRequest},
      Reserved ctx w activeRequests s transmitted → 0 ≤ s.reservedBlocks w →
      Reserved ctx w activeRequests (ctx.schedulePending staticBatch l s) transmitted
        ∧ 0 ≤ (ctx.schedulePending staticBatch l s).reservedBlocks w := by
  induction l with
  | nil => exact fun h hpos => ⟨h, hpos⟩
  | cons req l ih =>
    intro s transmitted h hpos
    simp only [schedulePending]
    split_ifs with hskip hlimit hencoder hpeft hcontext hfits hshort
    · exact ih ⟨h.budget, h.state⟩ hpos
    · exact ⟨h, hpos⟩
    · refine ih ⟨?_, h.state⟩ hpos
      simpa [addPending, filter_append, hencoder] using h.budget
    · exact ih h hpos
    · have henough : ctx.needOf w req ≤ s.reservedBlocks w := by
        simp only [and_eq_true, enoughAvailableBlocks, all_eq_true, decide_eq_true_eq] at hfits
        exact hfits.1.1 _ (mem_map.2 ⟨w, hw, rfl⟩)
      refine ih ⟨?_, h.state⟩ ?_
      · have hbudget := h.budget
        simp only [commitBlocks_neededBlocks hw, addPending, filter_append,
          map_append, sum_append, filter_cons, hencoder, Bool.not_false, if_true,
          filter_nil, map_cons, map_nil, sum_cons, sum_nil, needOf]
        omega
      · simp only [commitBlocks_neededBlocks hw]
        rw [needOf] at henough
        omega
    · exact ⟨h, hpos⟩
    · exact ih h hpos
    · exact ih h hpos

/-- **A schedule fits the free blocks**, if the requests in progress do. -/
lemma guaranteedNoEvict_fits {s : NoEvictState Key}
    (hpass : ctx.guaranteedNoEvict activeRequests = some s) (hw : w ∈ ctx.kv.windowSizes)
    (hprogress : 0 ≤ (ctx.noEvictScanned false activeRequests).reservedBlocks w) :
    ∃ transmitted : List LlmRequest,
      (∀ r ∈ transmitted, r ∈ activeRequests ∧ r.isDisaggGenerationTransmissionInProgress = true)
      ∧ ((s.scheduledRequests.filter fun r => !r.isEncoderInitState).map (ctx.needOf w)).sum
        + (transmitted.map (ctx.needOf w)).sum ≤ ctx.kv.numFreeBlocks w := by
  have hinit : Reserved ctx w activeRequests (ctx.noEvictInit false activeRequests) [] :=
    ⟨by simp [noEvictInit], by simp⟩
  obtain ⟨transmitted, hscan⟩ := scanActive_reserved hw activeRequests (Subset.refl _) hinit
  have hscanned :
      Reserved ctx w activeRequests (ctx.noEvictScanned false activeRequests) transmitted :=
    ⟨hscan.budget, hscan.state⟩
  obtain ⟨-, -, hresult⟩ := Option.bind_eq_some_iff.1 hpass
  cases hresult
  obtain ⟨h1, hpos1⟩ := schedulePending_reserved false hw
    (ctx.noEvictScanned false activeRequests).pendingDisGenInitRequests hscanned hprogress
  obtain ⟨h2, hpos2⟩ := schedulePending_reserved false hw
    (ctx.noEvictScanned false activeRequests).pendingRequests h1 hpos1
  refine ⟨transmitted, h2.state, ?_⟩
  have hbudget := h2.budget
  omega

end TrtLlm.CapacityScheduler.PassContext
