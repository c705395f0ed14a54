import Mathlib.Tactic.Linarith
import TrtLlm.Scheduler.MicroBatchScheduler

/-!
The chunk sizes of the micro-batch scheduler.

A chunking policy is measured by the compute tokens of the chunks it assigns. Each policy keeps
them within its capacity, though the cost of a chunk is neither linear in its size nor monotone:
a chunk that reaches the end of the prompt is charged without the reusable prefix. The draft
tokens are fitted afterwards into what is left.

* `setCtxRequestsChunkSize_fits`: **the chunks of a step and their draft tokens fit its capacity**.
-/

namespace TrtLlm

open List Option

namespace LlmRequest

variable (req : LlmRequest)

/-- A request without the two members that the scheduler writes. -/
def base : LlmRequest := (req.withChunkSize 0).withDraftTokens 0

@[simp] lemma base_withChunkSize (c : ℕ) :
    (req.withChunkSize c).base = req.base := rfl

@[simp] lemma base_withDraftTokens (n : ℕ) :
    (req.withDraftTokens n).base = req.base := rfl

@[simp] lemma withDraftTokens_withDraftTokens (m n : ℕ) :
    (req.withDraftTokens m).withDraftTokens n = req.withDraftTokens n := rfl

/-- The compute tokens of the current chunk. -/
def computeTokens : ℤ := req.chunkCompute req.contextChunkSize

end LlmRequest

/-! ### The cost of a chunk -/

variable {chunkSize : ℤ}

lemma reuseAdjustedCompute_nonneg (h : 0 ≤ chunkSize) (reusable remaining : ℤ) :
    0 ≤ reuseAdjustedCompute chunkSize reusable remaining := by
  simp only [reuseAdjustedCompute]
  split_ifs
  · exact h
  · exact h
  · exact le_max_left 0 _

lemma reuseAdjustedCompute_le (h : 0 ≤ chunkSize) (reusable remaining : ℤ) :
    reuseAdjustedCompute chunkSize reusable remaining ≤ chunkSize := by
  simp only [reuseAdjustedCompute]
  split_ifs <;> omega

/-- Reusable tokens beyond the remaining context change nothing. -/
lemma chunkCompute_eq (req : LlmRequest) (h0 : 0 ≤ chunkSize)
    (hle : chunkSize ≤ req.contextRemainingLength) :
    req.chunkCompute chunkSize
      = reuseAdjustedCompute chunkSize req.reusableTokens req.contextRemainingLength := by
  simp only [LlmRequest.chunkCompute, LlmRequest.reusableRemaining, LlmRequest.reusableTokens,
    reuseAdjustedCompute]
  split_ifs <;> simp_all <;> omega

lemma computeTokens_nonneg (req : LlmRequest) : 0 ≤ req.computeTokens :=
  reuseAdjustedCompute_nonneg (Int.natCast_nonneg _) _ _

lemma computeTokens_le (req : LlmRequest) : req.computeTokens ≤ req.contextChunkSize :=
  reuseAdjustedCompute_le (Int.natCast_nonneg _) _ _

lemma tdiv_mul_nonneg {a : ℤ} (h : 0 ≤ a) (u : ℕ) : 0 ≤ a.tdiv u * u := by
  rw [Int.tdiv_eq_ediv_of_nonneg h]
  positivity

lemma tdiv_mul_le {a : ℤ} (h : 0 ≤ a) (u : ℕ) : a.tdiv u * u ≤ a := by
  rw [Int.tdiv_eq_ediv_of_nonneg h]
  rcases Nat.eq_zero_or_pos u with rfl | hu
  · simpa using h
  · exact Int.ediv_mul_le a (by omega)

namespace MicroBatchScheduler

/-! ### What a chunking policy does -/

/-- The chunks that a policy assigns: nothing else of the requests changes, no chunk exceeds the
remaining context, and a capacity is kept by the compute tokens. -/
structure Chunked (capacity : Option ℤ) (before after : List LlmRequest) : Prop where
  base : after.map LlmRequest.base = before.map LlmRequest.base
  within : ∀ req ∈ after, req.contextChunkSize ≤ req.contextRemainingLength
  fits : ∀ c, capacity = some c → 0 ≤ c → (after.map LlmRequest.computeTokens).sum ≤ c

variable {capacity : Option ℤ} {unit : ℕ} {maxLength : Option ℕ}

section EqualProgress

lemma not_overCapacity {c tokens : ℤ} (hc : capacity = some c)
    (h : overCapacity capacity tokens = false) : tokens ≤ c := by
  subst hc
  simpa [overCapacity] using h

/-- A pass charges exactly the change of the compute tokens, and stays within the capacity. -/
lemma equalProgressPass_spec {requests : List LlmRequest} {num : ℤ} {p : EqualProgress}
    (hwithin : ∀ req ∈ requests, req.contextChunkSize ≤ req.contextRemainingLength)
    (h : equalProgressPass capacity unit maxLength requests num = some p) :
    p.requests.map LlmRequest.base = requests.map LlmRequest.base
      ∧ (∀ req ∈ p.requests, req.contextChunkSize ≤ req.contextRemainingLength)
      ∧ p.numCtxTokens - (p.requests.map LlmRequest.computeTokens).sum
        = num - (requests.map LlmRequest.computeTokens).sum
      ∧ ∀ c, capacity = some c → num ≤ c → p.numCtxTokens ≤ c := by
  induction requests generalizing num p with
  | nil =>
    cases h
    simp
  | cons llmReq rest ih =>
    simp only [equalProgressPass, bind_eq_some_iff, map_eq_some_iff] at h
    obtain ⟨offer, hoffer, q, hq, rfl⟩ := h
    have hhead := hwithin llmReq mem_cons_self
    obtain ⟨hbase, hrest, hnum, hfits⟩ :=
      ih (fun req hreq => hwithin req (mem_cons_of_mem _ hreq)) hq
    -- The offered request: its size, its cost and the capacity.
    have hstep : offer.1.base = llmReq.base
        ∧ offer.1.contextChunkSize ≤ offer.1.contextRemainingLength
        ∧ offer.1.computeTokens = llmReq.computeTokens + offer.2.1
        ∧ ∀ c, capacity = some c → num ≤ c → num + offer.2.1 ≤ c := by
      obtain rfl | ⟨grown, rfl, rfl, hcap, -⟩ := offerChunkUnit_cases hoffer
      · refine ⟨rfl, ?_, ?_, fun c _ hle => by simpa using hle⟩
        · simp
        · simp [LlmRequest.computeTokens, min_eq_left hhead]
      · refine ⟨rfl, ?_, ?_, fun c hc _ => not_overCapacity hc hcap⟩
        · simp
        · simp [LlmRequest.computeTokens]
    obtain ⟨hb, hw, hcost, hle⟩ := hstep
    refine ⟨by simp [hb, hbase], ?_, ?_, fun c hc hnum => hfits c hc (hle c hc hnum)⟩
    · simpa using ⟨hw, hrest⟩
    · simp only [map_cons, sum_cons, hcost]
      omega

lemma equalProgressLoop_chunked {requests after : List LlmRequest} {num : ℤ}
    (hwithin : ∀ req ∈ requests, req.contextChunkSize ≤ req.contextRemainingLength)
    (hnum : num = (requests.map LlmRequest.computeTokens).sum)
    (hle : ∀ c, capacity = some c → 0 ≤ c → num ≤ c)
    (h : equalProgressLoop capacity unit maxLength requests num = some after) :
    Chunked capacity requests after := by
  fun_induction equalProgressLoop capacity unit maxLength requests num with
  | case1 => cases h
  | case2 requests num hguard p hp hdone =>
    cases h
    obtain ⟨hbase, hw, hsum, hfits⟩ := equalProgressPass_spec hwithin hp
    refine ⟨hbase, hw, fun c hc h0 => ?_⟩
    have := hfits c hc (hle c hc h0)
    omega
  | case3 requests num hguard p hp hmore ih =>
    obtain ⟨hbase, hw, hsum, hfits⟩ := equalProgressPass_spec hwithin hp
    have hrest := ih hw (by omega) (fun c hc h0 => hfits c hc (hle c hc h0)) h
    exact ⟨hrest.base.trans hbase, hrest.within, hrest.fits⟩
  | case4 requests num hguard =>
    cases h
    exact ⟨rfl, hwithin, fun c hc h0 => hnum ▸ hle c hc h0⟩

end EqualProgress

section FirstComeFirstServed

variable {llmReq : LlmRequest} {size : ℤ}

lemma reusableRemaining_bounds (llmReq : LlmRequest) : 0 ≤ llmReq.reusableRemaining
      ∧ llmReq.reusableRemaining ≤ llmReq.contextRemainingLength := by
  simp only [LlmRequest.reusableRemaining]
  split_ifs <;> omega

/-- The whole remaining context costs what is not reusable. -/
lemma chunkCompute_whole (llmReq : LlmRequest) : llmReq.chunkCompute llmReq.contextRemainingLength
      = llmReq.contextRemainingLength - llmReq.reusableRemaining := by
  have := reusableRemaining_bounds llmReq
  simp only [LlmRequest.chunkCompute, reuseAdjustedCompute]
  split_ifs <;> omega

/-- A chunk with which the reusable prefix does not reach the end costs its size. -/
lemma chunkCompute_cut (h : size + llmReq.reusableRemaining < llmReq.contextRemainingLength) :
    llmReq.chunkCompute size = size := by
  simp only [LlmRequest.chunkCompute, reuseAdjustedCompute]
  split_ifs <;> omega

/-- A chunk is whole and affordable, or it was cut short of the end at an affordable size. -/
def Affordable (capacity : Option ℤ) (llmReq : LlmRequest) (size : ℤ) : Prop :=
  (size = llmReq.contextRemainingLength
    ∧ ∀ c, capacity = some c → size - llmReq.reusableRemaining ≤ c)
  ∨ (0 ≤ size ∧ size + llmReq.reusableRemaining < llmReq.contextRemainingLength
    ∧ ∀ c, capacity = some c → size ≤ c)

section

variable (h : Affordable capacity llmReq size)
include h

lemma Affordable.cost_le {c : ℤ} (hc : capacity = some c) : llmReq.chunkCompute size ≤ c := by
  obtain ⟨rfl, hle⟩ | ⟨-, hcut, hle⟩ := h
  · exact (chunkCompute_whole llmReq).trans_le (hle c hc)
  · exact (chunkCompute_cut hcut).trans_le (hle c hc)

/-- The limits of the policy cut a chunk to an affordable one. -/
lemma Affordable.cut {limit : ℤ} (h0 : 0 ≤ limit) (hlimit : limit < llmReq.chunkCompute size) :
    limit < llmReq.contextRemainingLength ∧ Affordable capacity llmReq limit := by
  have hu := reusableRemaining_bounds llmReq
  obtain ⟨rfl, hle⟩ | ⟨-, hcut, hle⟩ := h
  · rw [chunkCompute_whole] at hlimit
    refine ⟨by omega, .inr ⟨h0, by omega, fun c hc => ?_⟩⟩
    have := hle c hc
    omega
  · rw [chunkCompute_cut hcut] at hlimit
    refine ⟨by omega, .inr ⟨h0, by omega, fun c hc => ?_⟩⟩
    have := hle c hc
    omega

lemma Affordable.align (hne : size ≠ llmReq.contextRemainingLength) :
    Affordable capacity llmReq (size.tdiv unit * unit) := by
  obtain ⟨rfl, -⟩ | ⟨h0, hcut, hle⟩ := h
  · exact absurd rfl hne
  · have hdown := tdiv_mul_le h0 unit
    exact .inr ⟨tdiv_mul_nonneg h0 unit, by omega, fun c hc => hdown.trans (hle c hc)⟩

end

lemma capacityChunk_affordable (llmReq : LlmRequest) (hcapacity : ∀ c, capacity = some c → 0 ≤ c) :
    Affordable capacity llmReq (capacityChunk capacity llmReq) := by
  cases capacity with
  | none => exact .inl ⟨rfl, fun c hc => (by cases hc)⟩
  | some c =>
    simp only [capacityChunk, chunkCompute_whole]
    split_ifs with hc
    · refine .inr ⟨hcapacity c rfl, by omega, fun d hd => ?_⟩
      cases hd
      exact le_rfl
    · refine .inl ⟨rfl, fun d hd => ?_⟩
      cases hd
      omega

lemma Affordable.lengthChunk (h : Affordable capacity llmReq size) :
    Affordable capacity llmReq (lengthChunk maxLength llmReq size) := by
  cases maxLength with
  | none => exact h
  | some length =>
    simp only [MicroBatchScheduler.lengthChunk]
    split_ifs with hlength
    · obtain ⟨hlt, hcut⟩ := h.cut (Int.natCast_nonneg length) hlength
      rwa [min_eq_left hlt.le]
    · exact h

lemma firstComeChunk_affordable (llmReq : LlmRequest) (hcapacity : ∀ c, capacity = some c → 0 ≤ c) :
    Affordable capacity llmReq (firstComeChunk unit maxLength capacity llmReq) := by
  have hbounded : Affordable capacity llmReq
      (lengthChunk maxLength llmReq (capacityChunk capacity llmReq)) :=
    (capacityChunk_affordable llmReq hcapacity).lengthChunk
  simp only [firstComeChunk]
  split_ifs with hne
  · exact hbounded.align hne
  · exact hbounded

lemma firstComeFirstServed_chunked {requests after : List LlmRequest}
    (hcapacity : ∀ c, capacity = some c → 0 ≤ c)
    (h : firstComeFirstServed unit maxLength capacity requests = some after) :
    Chunked capacity requests after := by
  induction requests generalizing capacity after with
  | nil =>
    cases h
    exact ⟨rfl, by simp, fun c hc h0 => by simpa using h0⟩
  | cons llmReq rest ih =>
    simp only [firstComeFirstServed, bind_eq_some_iff, map_eq_some_iff] at h
    obtain ⟨chunked, hchunked, others, hothers, rfl⟩ := h
    have hafford := @firstComeChunk_affordable capacity unit maxLength llmReq hcapacity
    generalize firstComeChunk unit maxLength capacity llmReq = size at hchunked hothers hafford
    obtain ⟨h0, rfl⟩ := LlmRequest.setContextChunkSize_eq_some hchunked
    have hsize : size ≤ llmReq.contextRemainingLength := by
      have := reusableRemaining_bounds llmReq
      obtain ⟨rfl, -⟩ | ⟨-, hcut, -⟩ := hafford
      · exact le_rfl
      · omega
    have hrest := ih (fun c hc => ?_) hothers
    · refine ⟨by simp [hrest.base], ?_, fun c hc hc0 => ?_⟩
      · simpa using hrest.within
      · have hcost :
          (llmReq.withChunkSize (min size.toNat llmReq.contextRemainingLength)).computeTokens
            = llmReq.chunkCompute size := by
          simp only [LlmRequest.computeTokens, LlmRequest.withChunkSize_chunkCompute,
            LlmRequest.withChunkSize_size]
          congr 1
          omega
        have := hrest.fits (c - llmReq.chunkCompute size) (by simp [hc])
          (by linarith [hafford.cost_le hc])
        simp only [map_cons, sum_cons, hcost]
        linarith
    · obtain ⟨d, hd, rfl⟩ := map_eq_some_iff.1 hc
      linarith [hafford.cost_le hd]

end FirstComeFirstServed

section ForceChunk

lemma snapshotChunk_bounds (llmReq : LlmRequest) :
    0 ≤ snapshotChunk llmReq ∧ snapshotChunk llmReq ≤ llmReq.contextRemainingLength := by
  simp only [snapshotChunk]
  split_ifs
  · omega
  · cases nextSnapshotPoint llmReq.expectedSnapshotPoints llmReq.contextCurrentPosition with
    | none =>
      dsimp only
      omega
    | some point =>
      have := llmReq.position_le
      simp only [LlmRequest.contextRemainingLength]
      omega

lemma boundedSnapshotChunk_nonneg (llmReq : LlmRequest) :
    0 ≤ boundedSnapshotChunk unit maxLength llmReq := by
  have hsnapshot := (snapshotChunk_bounds llmReq).1
  cases maxLength with
  | none => exact hsnapshot
  | some length =>
    simp only [boundedSnapshotChunk]
    split_ifs
    · exact tdiv_mul_nonneg (Int.natCast_nonneg length) unit
    · exact hsnapshot

lemma forcedChunk_le {llmReq : LlmRequest} {total c : ℤ} (hc : capacity = some c) (h : total ≤ c) :
    total + forcedChunk capacity unit maxLength llmReq total ≤ c := by
  have hbounded := @boundedSnapshotChunk_nonneg unit maxLength llmReq
  subst hc
  simp only [forcedChunk]
  split_ifs with hover
  · have := @tdiv_mul_le (min (boundedSnapshotChunk unit maxLength llmReq)
      (max 0 (c - total))) (by omega) unit
    omega
  · omega

lemma forceChunkLoop_spec {requests after : List LlmRequest} {total : ℤ}
    (h : forceChunkLoop capacity unit maxLength requests total = some after) :
    after.map LlmRequest.base = requests.map LlmRequest.base
      ∧ (∀ req ∈ after, req.contextChunkSize ≤ req.contextRemainingLength)
      ∧ ∀ c, capacity = some c → total ≤ c →
        total + (after.map fun req => (req.contextChunkSize : ℤ)).sum ≤ c := by
  induction requests generalizing total after with
  | nil =>
    cases h
    exact ⟨rfl, by simp, fun c _ hle => by simpa using hle⟩
  | cons llmReq rest ih =>
    simp only [forceChunkLoop, bind_eq_some_iff, map_eq_some_iff] at h
    obtain ⟨chunked, hchunked, others, hothers, rfl⟩ := h
    obtain ⟨h0, rfl⟩ := LlmRequest.setContextChunkSize_eq_some hchunked
    obtain ⟨hbase, hwithin, hfits⟩ := ih hothers
    refine ⟨by simp [hbase], by simpa using hwithin, fun c hc hle => ?_⟩
    have hforced := @forcedChunk_le capacity unit maxLength llmReq total c hc hle
    have := hfits c hc (by simp only [LlmRequest.withChunkSize_size]; omega)
    simp only [map_cons, sum_cons]
    omega

lemma forceChunk_chunked {requests after : List LlmRequest}
    (h : forceChunk capacity unit maxLength requests = some after) :
    Chunked capacity requests after := by
  simp only [forceChunk] at h
  split at h
  · cases h
  · obtain ⟨hbase, hwithin, hfits⟩ := forceChunkLoop_spec h
    refine ⟨hbase, hwithin, fun c hc h0 => ?_⟩
    calc (after.map LlmRequest.computeTokens).sum
        ≤ (after.map fun req => (req.contextChunkSize : ℤ)).sum :=
          sum_le_sum fun req _ => computeTokens_le req
      _ ≤ c := by simpa using hfits c hc h0

end ForceChunk

/-! ### Draft tokens -/

section FitDraftTokens

lemma chunkTokens_eq {req : LlmRequest} (h : req.contextChunkSize ≤ req.contextRemainingLength) :
    chunkTokens req = req.computeTokens + keptDrafts req := by
  simp only [chunkTokens, LlmRequest.computeTokens]
  rw [chunkCompute_eq req (by omega) (by omega)]

lemma keepDraftTokens_eq_some {req kept : LlmRequest} {space : ℤ}
    (h : keepDraftTokens req space = some kept) :
    ∃ n : ℕ, kept = req.withDraftTokens n ∧ n ≤ space := by
  simp only [keepDraftTokens] at h
  split at h
  · obtain ⟨hle, rfl⟩ := LlmRequest.discardDraftTokens_eq_some h
    exact ⟨_, rfl, by omega⟩
  · cases h
    exact ⟨req.numDraftTokens, rfl, by omega⟩

lemma spaceForDraftTokens_le {req : LlmRequest} {num c : ℤ} (hc : capacity = some c) :
    spaceForDraftTokens capacity unit maxLength req num ≤ c - num := by
  subst hc
  exact min_le_right _ _

/-- The draft tokens that are kept go into what the compute tokens leave of the capacity. -/
lemma fitDraftLoop_spec {requests after : List LlmRequest} {num : ℤ}
    (h : fitDraftLoop capacity unit maxLength requests num = some after) :
    after.map (·.withDraftTokens 0) = requests.map (·.withDraftTokens 0)
      ∧ ∀ c, capacity = some c → num ≤ c → num + (after.map keptDrafts).sum ≤ c := by
  induction requests generalizing num after with
  | nil =>
    cases h
    exact ⟨rfl, fun c _ hle => by simpa using hle⟩
  | cons llmReq rest ih =>
    simp only [fitDraftLoop] at h
    split at h
    · simp only [bind_eq_some_iff, map_eq_some_iff] at h
      obtain ⟨kept, hkept, others, hothers, rfl⟩ := h
      obtain ⟨n, rfl, hn⟩ := keepDraftTokens_eq_some hkept
      obtain ⟨hsame, hfits⟩ := ih hothers
      refine ⟨by simp [hsame], fun c hc hle => ?_⟩
      have hspace := @spaceForDraftTokens_le capacity unit maxLength llmReq num c hc
      have hdrafts : keptDrafts (llmReq.withDraftTokens n) ≤ n := by
        simp only [keptDrafts]
        split_ifs
        · exact le_rfl
        · exact Int.natCast_nonneg n
      subst hc
      have := hfits c rfl (by simp only [isSome_some, if_true]; omega)
      simp only [isSome_some, if_true] at this
      simp only [map_cons, sum_cons]
      omega
    · rename_i hlast
      obtain ⟨others, hothers, rfl⟩ := map_eq_some_iff.1 h
      obtain ⟨hsame, hfits⟩ := ih hothers
      have hnone : keptDrafts llmReq = 0 := if_neg hlast
      exact ⟨by simp [hsame], fun c hc hle => by simpa [hnone] using hfits c hc hle⟩

/-- What does not depend on the draft tokens is as before. -/
lemma map_congr_drafts {α : Type*} {requests after : List LlmRequest}
    (h : after.map (·.withDraftTokens 0) = requests.map (·.withDraftTokens 0))
    (f : LlmRequest → α) (hf : ∀ req, f (req.withDraftTokens 0) = f req) :
    after.map f = requests.map f := by
  have := congrArg (map f) h
  simpa [Function.comp_def, hf] using this

end FitDraftTokens

/-! ### The chunk sizes of a step -/

variable {requests : List LlmRequest}

lemma chunkByPolicy_chunked {policy : ContextChunkingPolicy} {after : List LlmRequest}
    (hcapacity : ∀ c, capacity = some c → 0 ≤ c)
    (hreset : ∀ req ∈ requests, req.contextChunkSize = 0)
    (h : chunkByPolicy policy capacity unit maxLength requests = some after) :
    Chunked capacity requests after := by
  cases policy with
  | kFIRST_COME_FIRST_SERVED => exact firstComeFirstServed_chunked hcapacity h
  | kFORCE_CHUNK => exact forceChunk_chunked h
  | kEQUAL_PROGRESS =>
    have hzero : ∀ req ∈ requests, req.computeTokens = 0 := fun req hreq => by
      have hle := computeTokens_le req
      rw [hreset req hreq] at hle
      exact le_antisymm hle (computeTokens_nonneg req)
    refine equalProgressLoop_chunked (fun req hreq => ?_) ?_ (fun c _ h0 => h0) h
    · rw [hreset req hreq]
      exact Nat.zero_le _
    · exact (sum_eq_zero fun x hx => by
        obtain ⟨req, hreq, rfl⟩ := List.mem_map.1 hx
        exact hzero req hreq).symm

lemma reset_spec {reset : List LlmRequest}
    (h : (requests.mapM fun req : LlmRequest => req.setContextChunkSize 0) = some reset) :
    reset = requests.map (·.withChunkSize 0) := by
  induction requests generalizing reset with
  | nil => simpa using h.symm
  | cons req rest ih =>
    simp only [mapM_cons, bind_eq_bind, bind_eq_some_iff] at h
    obtain ⟨first, hfirst, others, hothers, hreset⟩ := h
    obtain ⟨-, rfl⟩ := LlmRequest.setContextChunkSize_eq_some hfirst
    cases hreset
    simp [ih hothers]

/-- **The chunked contexts keep the capacity**, draft tokens included. -/
theorem setCtxRequestsChunkSize_fits {policy : ContextChunkingPolicy}
    {after : List LlmRequest} (hcapacity : ∀ c, capacity = some c → 0 ≤ c)
    (h : setCtxRequestsChunkSize requests policy capacity unit maxLength = some after) :
    after.map LlmRequest.base = requests.map LlmRequest.base
      ∧ (∀ req ∈ after, req.contextChunkSize ≤ req.contextRemainingLength)
      ∧ ∀ c, capacity = some c → (after.map chunkTokens).sum ≤ c := by
  simp only [setCtxRequestsChunkSize, bind_eq_some_iff] at h
  obtain ⟨reset, hreset, chunked, hchunked, hfit⟩ := h
  obtain rfl := reset_spec hreset
  have hpolicy := chunkByPolicy_chunked hcapacity (by simp) hchunked
  obtain ⟨hsame, hfits⟩ := fitDraftLoop_spec hfit
  have hcost := map_congr_drafts hsame LlmRequest.computeTokens fun _ => rfl
  have hwithin : ∀ req ∈ after, req.contextChunkSize ≤ req.contextRemainingLength := by
    have hsizes := map_congr_drafts hsame
      (fun req => (req.contextChunkSize, req.contextRemainingLength)) fun _ => rfl
    intro req hreq
    have hmem := hsizes ▸ List.mem_map_of_mem hreq
    obtain ⟨old, hold, heq⟩ := List.mem_map.1 hmem
    obtain ⟨hchunk, hremaining⟩ := Prod.mk.inj heq
    exact hchunk ▸ hremaining ▸ hpolicy.within old hold
  refine ⟨?_, hwithin, fun c hc => ?_⟩
  · rw [map_congr_drafts hsame LlmRequest.base fun _ => rfl, hpolicy.base]
    simp
  · have hsum : (after.map chunkTokens).sum
        = (after.map LlmRequest.computeTokens).sum + (after.map keptDrafts).sum := by
      rw [← sum_map_add]
      exact congrArg _ (map_congr_left fun req hreq => chunkTokens_eq (hwithin req hreq))
    rw [hsum, hcost]
    exact hfits c hc (hpolicy.fits c hc (hcapacity c hc))

end MicroBatchScheduler

end TrtLlm
