import TrtLlm.Util.UMap
import TrtLlm.KvCache.BlockReservation
import TrtLlm.Scheduler.NoEvictReserve

/-!
The free pool of one window under the admissions of `GuaranteedNoEvictScheduler`.

The blocks that a sequence will still take are bounded by its estimate, and they are used up by
its own steps alone. So the sum of what all sequences will still take stays within the free
blocks, whatever the order of their steps, and no step finds the pool empty.
-/

namespace TrtLlm.KvCache

open ManagerConfig List Nat UMap

/-- A sequence in the pool of a window. -/
structure PooledSequence where
  limits : RequestLimits
  promptLen : ℕ
  seq : GenerationRequest

/-- The free primary blocks of a window, and the sequences that hold blocks. -/
structure WindowPool where
  numFreeBlocks : ℕ
  sequences : UMap ℕ PooledSequence

/-- A request of a batch that is inserted. -/
structure Insertion where
  requestId : ℕ
  limits : RequestLimits
  promptLen : ℕ
  claims : List ClaimedBlock

/-- What happens to the pool. -/
inductive PoolStep where
  /-- `addSequenceBatch`. -/
  | insert (batch : List Insertion)
  /-- `addToken`. Of the blocks that are detached, `kept` do not become free: they are held by
  other sequences, or they are placeholders. -/
  | addToken (requestId kept : ℕ)
  /-- `removeSequence`, by which some blocks become free. -/
  | remove (requestId freed : ℕ)

section Steps

variable (cfg : ManagerConfig) (windowSize : ℕ)

/-- The sequences of a batch are added. -/
def addInsertion (sequences : UMap ℕ PooledSequence) (a : Insertion) : UMap ℕ PooledSequence :=
  sequences.set a.requestId
    ⟨a.limits, a.promptLen, cfg.addSequence windowSize a.promptLen a.limits.beamWidth⟩

/-- The free blocks that a batch takes while it is inserted. -/
def takenByBatch (batch : List Insertion) : ℕ :=
  (batch.map fun a => cfg.takenByContext windowSize a.promptLen a.limits.beamWidth a.claims).sum

/-- The free blocks that are claimed as sources of its copies. -/
def pinnedByBatch (batch : List Insertion) : ℕ :=
  (batch.map fun a => cfg.pinnedByContext windowSize a.promptLen a.limits.beamWidth a.claims).sum

/-- The blocks that the next token detaches. -/
def detachedByToken (p : PooledSequence) : ℕ :=
  ((cfg.addToken windowSize p.seq).numFrontBlocksRemoved - p.seq.numFrontBlocksRemoved)
    * p.limits.beamWidth

/-- A step; `none` if `getFreeBlock` finds the pool empty. -/
def WindowPool.step (pool : WindowPool) : PoolStep → Option WindowPool
  | .insert batch =>
    if takenByBatch cfg windowSize batch + pinnedByBatch cfg windowSize batch
        ≤ pool.numFreeBlocks then
      some ⟨pool.numFreeBlocks - takenByBatch cfg windowSize batch,
        batch.foldl (addInsertion cfg windowSize) pool.sequences⟩
    else none
  | .addToken requestId kept =>
    match pool.sequences.find? requestId with
    | none => some pool
    | some p =>
      let available := pool.numFreeBlocks + (detachedByToken cfg windowSize p - kept)
      if cfg.takenByToken p.seq ≤ available then
        some ⟨available - cfg.takenByToken p.seq,
          pool.sequences.set requestId { p with seq := cfg.addToken windowSize p.seq }⟩
      else none
  | .remove requestId freed =>
    some ⟨pool.numFreeBlocks + freed, pool.sequences.erase requestId⟩

end Steps

/-! ### What a sequence will still take -/

section Demand

variable {cfg : ManagerConfig} {windowSize : ℕ}

/-- The most blocks that the sequence of a request holds at a later point. -/
def peakAfter (cfg : ManagerConfig) (windowSize promptLen maxNewTokens j : ℕ) : ℤ :=
  (Finset.Icc j (max j maxNewTokens)).sup' ⟨j, by simp⟩ (cfg.heldAfter windowSize promptLen)

variable {Key : Type} {j : ℕ} {p : PooledSequence} {pool : WindowPool}

lemma heldAfter_le_peak (promptLen : ℕ) {maxNewTokens j j' : ℕ} (hj : j ≤ j')
    (hj' : j' ≤ maxNewTokens) :
    cfg.heldAfter windowSize promptLen j'
      ≤ peakAfter cfg windowSize promptLen maxNewTokens j :=
  Finset.le_sup' _ (Finset.mem_Icc.2 ⟨hj, hj'.trans (le_max_right _ _)⟩)

lemma peak_le {promptLen maxNewTokens : ℕ} {x : ℤ} (hj : j ≤ maxNewTokens)
    (h : ∀ j', j ≤ j' → j' ≤ maxNewTokens → cfg.heldAfter windowSize promptLen j' ≤ x) :
    peakAfter cfg windowSize promptLen maxNewTokens j ≤ x := by
  refine Finset.sup'_le _ _ fun j' hj' => ?_
  rw [max_eq_right hj, Finset.mem_Icc] at hj'
  exact h j' hj'.1 hj'.2

/-- The blocks that a sequence will still take, net of those it detaches. -/
def furtherDemand (cfg : ManagerConfig) (windowSize : ℕ) (p : PooledSequence) : ℕ :=
  p.limits.beamWidth * (peakAfter cfg windowSize p.promptLen p.limits.mMaxNewTokens
    (p.seq.mNumTokens - p.promptLen)
    - cfg.heldAfter windowSize p.promptLen (p.seq.mNumTokens - p.promptLen)).toNat

/-- A sequence of the run: it has got some of its tokens, and its estimate covers it. -/
structure Admissible (cfg : ManagerConfig) (windowSize : ℕ) (limits : RequestLimits)
    (promptLen : ℕ) : Prop where
  length : promptLen + limits.mMaxNewTokens ≤ cfg.maxSequenceLength
  beam : cfg.isSWA windowSize = true → limits.beamWidth = 1
  covers : cfg.Covers windowSize promptLen limits.mMaxNewTokens

/-- The sequence after some of its tokens. -/
def Reached (cfg : ManagerConfig) (windowSize : ℕ) (p : PooledSequence) (j : ℕ) : Prop :=
  j ≤ p.limits.mMaxNewTokens
    ∧ p.seq = cfg.afterTokens windowSize p.promptLen p.limits.beamWidth j

section

variable (h : Reached cfg windowSize p j) (hlen : p.promptLen ≤ cfg.maxSequenceLength)
include h hlen

lemma Reached.numTokens : p.seq.mNumTokens = p.promptLen + j := by
  rw [h.2, afterTokens_eq cfg windowSize hlen]

lemma furtherDemand_eq : (furtherDemand cfg windowSize p : ℤ) = p.limits.beamWidth
      * (peakAfter cfg windowSize p.promptLen p.limits.mMaxNewTokens j
        - cfg.heldAfter windowSize p.promptLen j) := by
  have hle := @heldAfter_le_peak cfg windowSize p.promptLen p.limits.mMaxNewTokens j j le_rfl h.1
  rw [furtherDemand, h.numTokens hlen, Nat.add_sub_cancel_left]
  rw [cast_mul, Int.toNat_of_nonneg (by omega)]

end

/-- **What a sequence will still take is within its estimate.** -/
lemma furtherDemand_le {req : LlmRequest}
    {summary : PrefixReuseSummary Key} (hself : cfg.isCrossKv = false)
    (h : Reached cfg windowSize p j) (hadm : Admissible cfg windowSize p.limits p.promptLen)
    (hreq : req.mPromptLen = p.promptLen) (htokens : req.numTokens = p.promptLen + j
      ∨ req.numTokens = p.promptLen + j + 1 ∧ j < p.limits.mMaxNewTokens)
    (hstate : req.isContextInitState = true → j = 0) :
    (furtherDemand cfg windowSize p : ℤ)
      ≤ cfg.getRemainingBlocksToCompletion windowSize p.limits req (some p.seq) summary := by
  have hlen : p.promptLen ≤ cfg.maxSequenceLength := le_trans (Nat.le_add_right _ _) hadm.length
  have hfits := heldFits_of_covers hadm.length hadm.covers
  rw [furtherDemand_eq h hlen, h.2, remaining_afterTokens hself hlen hadm.beam hreq hstate,
    Int.mul_comm]
  refine mul_le_mul_of_nonneg_right (sub_le_sub_right ?_ _) (by positivity)
  exact peak_le h.1 fun j' hj hj' => hfits j j' _ hj hj' htokens

/-- What a request will take in all is within its estimate. -/
lemma taken_add_furtherDemand_le {a : Insertion} {req : LlmRequest}
    {summary : PrefixReuseSummary Key} (hself : cfg.isCrossKv = false)
    (hadm : Admissible cfg windowSize a.limits a.promptLen)
    (hcredit : cfg.creditedBlocks windowSize a.promptLen summary
      ≤ cfg.reusedByContext windowSize a.promptLen a.limits.beamWidth a.claims)
    (hreq : req.mPromptLen = a.promptLen) (htokens : req.numTokens = a.promptLen) :
    (cfg.takenByContext windowSize a.promptLen a.limits.beamWidth a.claims : ℤ)
        + furtherDemand cfg windowSize ⟨a.limits, a.promptLen,
          cfg.addSequence windowSize a.promptLen a.limits.beamWidth⟩
      ≤ cfg.getRemainingBlocksToCompletion windowSize a.limits req none summary := by
  have hlen : a.promptLen ≤ cfg.maxSequenceLength := le_trans (Nat.le_add_right _ _) hadm.length
  have hsuff := (sufficient_iff hself hadm.length hadm.beam hcredit).2 hadm.covers
  have hreached : Reached cfg windowSize ⟨a.limits, a.promptLen,
      cfg.addSequence windowSize a.promptLen a.limits.beamWidth⟩ 0 := ⟨Nat.zero_le _, rfl⟩
  rw [furtherDemand_eq hreached hlen]
  obtain ⟨j, hj, hpeak⟩ := Finset.exists_mem_eq_sup'
    (s := Finset.Icc 0 (max 0 a.limits.mMaxNewTokens)) ⟨0, by simp⟩
    (cfg.heldAfter windowSize a.promptLen)
  have hjle : j ≤ a.limits.mMaxNewTokens := by simpa using (Finset.mem_Icc.1 hj).2
  have hnet := hsuff.admission req hreq htokens j hjle
  rw [netTaken_eq hlen] at hnet
  rw [peakAfter, hpeak, heldAfter_zero]
  exact hnet

/-! ### Runs -/

/-- The demands of a pool. -/
def WindowPool.demand (cfg : ManagerConfig) (windowSize : ℕ) (pool : WindowPool) : ℕ :=
  pool.sequences.total fun _ p => furtherDemand cfg windowSize p

/-- Every sequence is covered by its estimate, and what they will still take is free. -/
structure PoolOk (cfg : ManagerConfig) (windowSize : ℕ) (pool : WindowPool) : Prop where
  sequence : ∀ id p, pool.sequences.find? id = some p →
    Admissible cfg windowSize p.limits p.promptLen ∧ ∃ j, Reached cfg windowSize p j
  demand : pool.demand cfg windowSize ≤ pool.numFreeBlocks

/-- The request of a sequence: it has the tokens of the sequence, or one that is not yet
added. -/
structure RequestOf (p : PooledSequence) (req : LlmRequest) : Prop where
  prompt : req.mPromptLen = p.promptLen
  tokens : req.numTokens = p.seq.mNumTokens
    ∨ req.numTokens = p.seq.mNumTokens + 1
      ∧ p.seq.mNumTokens < p.promptLen + p.limits.mMaxNewTokens
  context : req.isContextInitState = true → p.seq.mNumTokens = p.promptLen

/-- The estimates of the sequences in a pool, given their requests. -/
def WindowPool.estimates {Key : Type} (cfg : ManagerConfig) (windowSize : ℕ) (pool : WindowPool)
    (request : ℕ → LlmRequest) (summary : ℕ → PrefixReuseSummary Key) : ℤ :=
  (pool.sequences.entries.map fun e => cfg.getRemainingBlocksToCompletion windowSize e.2.limits
    (request e.1) (some e.2.seq) (summary e.1)).sum

/-- The estimates of a batch before it is inserted. -/
def batchEstimates {Key : Type} (cfg : ManagerConfig) (windowSize : ℕ) (batch : List Insertion)
    (request : ℕ → LlmRequest) (summary : ℕ → PrefixReuseSummary Key) : ℤ :=
  (batch.map fun a => cfg.getRemainingBlocksToCompletion windowSize a.limits
    (request a.requestId) none (summary a.requestId)).sum

/-- A pass of the scheduler over a pool schedules the requests in progress and those of a batch.
The manager of the pass answers from the pool, the requests that the pass finds in progress fit,
and no request of the pass has a negative estimate. -/
structure AdmittedBy {Key : Type} [DecidableEq Key] (cfg : ManagerConfig) (windowSize : ℕ)
    (pool : WindowPool) (batch : List Insertion) (request : ℕ → LlmRequest)
    (summary : ℕ → PrefixReuseSummary Key) (ctx : CapacityScheduler.PassContext Key)
    (activeRequests : List LlmRequest) (s : CapacityScheduler.NoEvictState Key) : Prop where
  pass : ctx.guaranteedNoEvict activeRequests = some s
  window : (windowSize : WindowSize) ∈ ctx.kv.windowSizes
  free : ctx.kv.numFreeBlocks windowSize = pool.numFreeBlocks
  sequence : ∀ id p, pool.sequences.find? id = some p → ctx.needOf windowSize (request id)
    = cfg.getRemainingBlocksToCompletion windowSize p.limits (request id) (some p.seq) (summary id)
  new : ∀ a ∈ batch, ctx.needOf windowSize (request a.requestId)
    = cfg.getRemainingBlocksToCompletion windowSize a.limits (request a.requestId) none
      (summary a.requestId)
  scheduled : (pool.sequences.keys.map request
      ++ batch.map fun a => request a.requestId).Subperm
    (s.scheduledRequests.filter fun r => !r.isEncoderInitState)
  fits : 0 ≤ (ctx.noEvictScanned false activeRequests).reservedBlocks windowSize
  nonneg : ∀ r, r ∈ activeRequests ∨ r ∈ s.scheduledRequests → 0 ≤ ctx.needOf windowSize r

/-- The steps of a run: a batch is inserted if the scheduler admits it, its requests are
covered, and it claims no free block as the source of a copy; the blocks that a token detaches
become free. -/
def Allowed (Key : Type) [DecidableEq Key] (cfg : ManagerConfig) (windowSize : ℕ)
    (pool : WindowPool) : PoolStep → Prop
  | .insert batch => ∃ (request : ℕ → LlmRequest) (summary : ℕ → PrefixReuseSummary Key),
      (batch.map Insertion.requestId).Nodup
      ∧ (∀ a ∈ batch, a.requestId ∉ pool.sequences
        ∧ Admissible cfg windowSize a.limits a.promptLen
        ∧ (request a.requestId).mPromptLen = a.promptLen
        ∧ (request a.requestId).numTokens = a.promptLen
        ∧ cfg.creditedBlocks windowSize a.promptLen (summary a.requestId)
          ≤ cfg.reusedByContext windowSize a.promptLen a.limits.beamWidth a.claims
        ∧ cfg.pinnedByContext windowSize a.promptLen a.limits.beamWidth a.claims = 0)
      ∧ (∀ id p, pool.sequences.find? id = some p → RequestOf p (request id))
      ∧ ∃ ctx activeRequests s,
        AdmittedBy cfg windowSize pool batch request summary ctx activeRequests s
  | .addToken requestId kept => kept = 0 ∧ ∀ p, pool.sequences.find? requestId = some p →
      p.seq.mNumTokens < p.promptLen + p.limits.mMaxNewTokens
  | .remove _ _ => True

/-- The estimates of an admitted batch and of the requests in progress fit the pool. -/
lemma AdmittedBy.estimates_le [DecidableEq Key] {batch : List Insertion} {request : ℕ → LlmRequest}
    {summary : ℕ → PrefixReuseSummary Key}
    {ctx : CapacityScheduler.PassContext Key} {activeRequests : List LlmRequest}
    {s : CapacityScheduler.NoEvictState Key}
    (h : AdmittedBy cfg windowSize pool batch request summary ctx activeRequests s) :
    pool.estimates cfg windowSize request summary
      + batchEstimates cfg windowSize batch request summary ≤ pool.numFreeBlocks := by
  obtain ⟨transmitted, htransmitted, hsum⟩ :=
    CapacityScheduler.PassContext.guaranteedNoEvict_fits h.pass h.window h.fits
  have hlive : pool.estimates cfg windowSize request summary
      = ((pool.sequences.keys.map request).map (ctx.needOf windowSize)).sum := by
    rw [WindowPool.estimates, UMap.keys, map_map, map_map]
    refine congrArg sum (map_congr_left fun e he => ?_)
    exact (h.sequence e.1 e.2 (find?_eq_some_iff.2 he)).symm
  have hnew : batchEstimates cfg windowSize batch request summary
      = ((batch.map fun a => request a.requestId).map (ctx.needOf windowSize)).sum := by
    rw [batchEstimates, map_map]
    exact congrArg sum (map_congr_left fun a ha => (h.new a ha).symm)
  -- The other requests of the schedule only add to the sum.
  obtain ⟨l, hperm, hsublist⟩ := h.scheduled
  have hle : ((pool.sequences.keys.map request ++ batch.map fun a => request a.requestId).map
      (ctx.needOf windowSize)).sum
      ≤ ((s.scheduledRequests.filter fun r => !r.isEncoderInitState).map
        (ctx.needOf windowSize)).sum := by
    rw [← (hperm.map _).sum_eq]
    refine (hsublist.map (ctx.needOf windowSize)).sum_le_sum fun n hn => ?_
    obtain ⟨r, hr, rfl⟩ := mem_map.1 hn
    exact h.nonneg r (.inr (mem_of_mem_filter hr))
  have hrest : 0 ≤ (transmitted.map (ctx.needOf windowSize)).sum := by
    refine sum_nonneg fun n hn => ?_
    obtain ⟨r, hr, rfl⟩ := mem_map.1 hn
    exact h.nonneg r (.inl (htransmitted r hr).1)
  have hfree : (ctx.kv.numFreeBlocks windowSize : ℤ) = pool.numFreeBlocks := by rw [h.free]
  rw [map_append, List.sum_append, ← hlive, ← hnew] at hle
  omega

/-- In a pool whose sequences are covered, the demands are within the estimates. -/
lemma demand_le_estimates {Key : Type} {pool : WindowPool} {request : ℕ → LlmRequest}
    {summary : ℕ → PrefixReuseSummary Key} (hself : cfg.isCrossKv = false)
    (hseq : ∀ id p, pool.sequences.find? id = some p →
      Admissible cfg windowSize p.limits p.promptLen ∧ ∃ j, Reached cfg windowSize p j)
    (hreq : ∀ id p, pool.sequences.find? id = some p → RequestOf p (request id)) :
    (pool.demand cfg windowSize : ℤ) ≤ pool.estimates cfg windowSize request summary := by
  rw [WindowPool.demand, WindowPool.estimates, total, cast_list_sum, map_map]
  refine sum_le_sum fun e he => ?_
  have hfind := find?_eq_some_iff.2 he
  obtain ⟨hadm, j, hreached⟩ := hseq e.1 e.2 hfind
  have hr := hreq e.1 e.2 hfind
  have hnum := hreached.numTokens (le_trans (Nat.le_add_right _ _) hadm.length)
  refine furtherDemand_le hself hreached hadm hr.prompt ?_ ?_
  · have htokens := hr.tokens
    rw [hnum] at htokens
    omega
  · intro hstate
    have := hr.context hstate
    omega

section

variable (batch : List Insertion) (sequences : UMap ℕ PooledSequence)

lemma total_foldl_addInsertion (hnodup : (batch.map Insertion.requestId).Nodup)
    (hnew : ∀ a ∈ batch, a.requestId ∉ sequences) :
    (batch.foldl (addInsertion cfg windowSize) sequences).total
        (fun _ p => furtherDemand cfg windowSize p)
      = sequences.total (fun _ p => furtherDemand cfg windowSize p)
        + (batch.map fun a => furtherDemand cfg windowSize ⟨a.limits, a.promptLen,
          cfg.addSequence windowSize a.promptLen a.limits.beamWidth⟩).sum := by
  induction batch generalizing sequences with
  | nil => rfl
  | cons a batch ih =>
    obtain ⟨hfirst, hrest⟩ := nodup_cons.1 hnodup
    have hset := @UMap.total_update _ _ _ sequences (addInsertion cfg windowSize sequences a)
      (fun _ p => furtherDemand cfg windowSize p) (fun _ p => furtherDemand cfg windowSize p)
      a.requestId fun id hid => by rw [addInsertion, weight_set, if_neg hid]
    rw [weight_of_not_mem _ (hnew a mem_cons_self), addInsertion, weight_set, if_pos rfl] at hset
    rw [foldl_cons, ih _ hrest, map_cons, sum_cons, addInsertion]
    · omega
    · intro b hb
      rw [addInsertion, UMap.mem_set]
      rintro (heq | hmem)
      · exact hfirst (heq ▸ mem_map_of_mem hb)
      · exact hnew b (mem_cons_of_mem _ hb) hmem

lemma find?_foldl_addInsertion
    {id : ℕ} (h : (batch.foldl (addInsertion cfg windowSize) sequences).find? id = some p) :
    sequences.find? id = some p ∨ ∃ a ∈ batch, p = ⟨a.limits, a.promptLen,
      cfg.addSequence windowSize a.promptLen a.limits.beamWidth⟩ := by
  induction batch generalizing sequences with
  | nil => exact .inl h
  | cons a batch ih =>
    obtain hold | ⟨b, hb, rfl⟩ := ih _ h
    · rw [addInsertion, find?_set] at hold
      split_ifs at hold
      · cases hold
        exact .inr ⟨a, mem_cons_self, rfl⟩
      · exact .inl hold
    · exact .inr ⟨b, mem_cons_of_mem _ hb, rfl⟩

end

omit cfg windowSize in
lemma sum_add_sum_le {α : Type*} (l : List α) {f g : α → ℕ} {r : α → ℤ}
    (h : ∀ a ∈ l, (f a : ℤ) + g a ≤ r a) :
    ((l.map f).sum : ℤ) + ((l.map g).sum : ℕ) ≤ (l.map r).sum := by
  induction l with
  | nil => simp
  | cons a l ih =>
    have hfirst := h a mem_cons_self
    have hrest := ih fun b hb => h b (mem_cons_of_mem _ hb)
    simp only [map_cons, sum_cons, cast_add]
    omega

/-- A batch that is admitted finds its blocks. -/
lemma insert_ok [DecidableEq Key] {batch : List Insertion}
    (hself : cfg.isCrossKv = false) (h : PoolOk cfg windowSize pool)
    (hallowed : Allowed Key cfg windowSize pool (.insert batch)) :
    ∃ pool', pool.step cfg windowSize (.insert batch) = some pool'
      ∧ PoolOk cfg windowSize pool' := by
  obtain ⟨request, summary, hnodup, hbatch, hreq, ctx, activeRequests, s, hadmitted⟩ := hallowed
  have hfits := hadmitted.estimates_le
  have hlive := @demand_le_estimates cfg windowSize Key pool request summary hself h.sequence hreq
  have hpinned : pinnedByBatch cfg windowSize batch = 0 := by
    refine sum_eq_zero fun n hn => ?_
    obtain ⟨a, ha, rfl⟩ := mem_map.1 hn
    exact (hbatch a ha).2.2.2.2.2
  have hnew : (takenByBatch cfg windowSize batch : ℤ)
      + ((batch.map fun a => furtherDemand cfg windowSize ⟨a.limits, a.promptLen,
          cfg.addSequence windowSize a.promptLen a.limits.beamWidth⟩).sum : ℕ)
      ≤ batchEstimates cfg windowSize batch request summary := by
    refine sum_add_sum_le batch fun a ha => ?_
    obtain ⟨-, hadm, hprompt, htokens, hcredit, -⟩ := hbatch a ha
    exact taken_add_furtherDemand_le hself hadm hcredit hprompt htokens
  have hle : takenByBatch cfg windowSize batch + pinnedByBatch cfg windowSize batch
      ≤ pool.numFreeBlocks := by omega
  refine ⟨_, by rw [WindowPool.step, if_pos hle], ⟨fun id p hp => ?_, ?_⟩⟩
  · obtain hold | ⟨a, ha, rfl⟩ := find?_foldl_addInsertion batch _ hp
    · exact h.sequence id p hold
    · exact ⟨(hbatch a ha).2.1, 0, Nat.zero_le _, rfl⟩
  · have htotal := @total_foldl_addInsertion cfg windowSize batch pool.sequences hnodup
      fun a ha => (hbatch a ha).1
    rw [WindowPool.demand] at hlive ⊢
    rw [htotal]
    dsimp only
    omega

/-- The step of one sequence: what it takes is part of its demand. -/
lemma addToken_ok {requestId : ℕ} (h : PoolOk cfg windowSize pool)
    (hallowed : ∀ p, pool.sequences.find? requestId = some p →
      p.seq.mNumTokens < p.promptLen + p.limits.mMaxNewTokens) :
    ∃ pool', pool.step cfg windowSize (.addToken requestId 0) = some pool'
      ∧ PoolOk cfg windowSize pool' := by
  cases hfind : pool.sequences.find? requestId with
  | none => exact ⟨pool, by rw [WindowPool.step, hfind], h⟩
  | some p =>
    obtain ⟨hadm, j, hreached⟩ := h.sequence requestId p hfind
    have hlen : p.promptLen ≤ cfg.maxSequenceLength := le_trans (Nat.le_add_right _ _) hadm.length
    have hlt := hallowed p hfind
    rw [hreached.numTokens hlen] at hlt
    set p' : PooledSequence := { p with seq := cfg.addToken windowSize p.seq } with hp'
    have hreached' : Reached cfg windowSize p' (j + 1) := by
      refine ⟨show j + 1 ≤ p.limits.mMaxNewTokens by omega, ?_⟩
      rw [hp', hreached.2, afterTokens, afterTokens, Function.iterate_succ_apply']
    -- What is taken and what is detached is the difference of the blocks held.
    have htaken : (cfg.takenByToken p.seq : ℤ) - detachedByToken cfg windowSize p
        = p.limits.beamWidth * (cfg.heldAfter windowSize p.promptLen (j + 1)
          - cfg.heldAfter windowSize p.promptLen j) := by
      have hseq' : cfg.addToken windowSize p.seq
          = cfg.afterTokens windowSize p.promptLen p.limits.beamWidth (j + 1) := hreached'.2
      have hmono : cfg.detachedAfter windowSize p.promptLen j
          ≤ cfg.detachedAfter windowSize p.promptLen (j + 1) := by
        rw [detachedAfter, detachedAfter, if_neg (succ_ne_zero j)]
        split_ifs
        · exact Nat.zero_le _
        · exact cfg.outOfWindow_mono windowSize (by omega)
      have hsucc := @ceilDiv_succ (p.promptLen + j) _ cfg.tokensPerBlock_pos
      rw [detachedByToken, hseq', hreached.2, takenByToken_after cfg windowSize hlen,
        afterTokens_eq cfg windowSize hlen, afterTokens_eq cfg windowSize hlen, heldAfter,
        heldAfter, ← Nat.add_assoc, hsucc]
      push_cast [cast_sub hmono]
      ring
    have hpeak : peakAfter cfg windowSize p.promptLen p.limits.mMaxNewTokens (j + 1)
        ≤ peakAfter cfg windowSize p.promptLen p.limits.mMaxNewTokens j :=
      peak_le (by omega) fun j' hj hj' => heldAfter_le_peak p.promptLen (by omega) hj'
    have hdemand := furtherDemand_eq hreached hlen
    have hdemand' := furtherDemand_eq hreached' hlen
    have hstep : (furtherDemand cfg windowSize p' : ℤ)
        + (cfg.takenByToken p.seq - detachedByToken cfg windowSize p)
        ≤ furtherDemand cfg windowSize p := by
      rw [htaken, hdemand, hdemand']
      have := mul_le_mul_of_nonneg_left hpeak (Int.natCast_nonneg p.limits.beamWidth)
      nlinarith
    have htotal := @UMap.total_update _ _ _ pool.sequences (pool.sequences.set requestId p')
      (fun _ p => furtherDemand cfg windowSize p) (fun _ p => furtherDemand cfg windowSize p)
      requestId fun id hid => by rw [weight_set, if_neg hid]
    rw [weight_of_find? _ hfind, weight_set, if_pos rfl] at htotal
    have hfree := h.demand
    rw [WindowPool.demand] at hfree
    have hle : cfg.takenByToken p.seq
        ≤ pool.numFreeBlocks + (detachedByToken cfg windowSize p - 0) := by omega
    have hresult : pool.step cfg windowSize (.addToken requestId 0)
        = some ⟨pool.numFreeBlocks + (detachedByToken cfg windowSize p - 0)
          - cfg.takenByToken p.seq, pool.sequences.set requestId p'⟩ := by
      rw [WindowPool.step, hfind]
      exact if_pos hle
    refine ⟨_, hresult, fun id q hq => ?_, ?_⟩
    · rw [find?_set] at hq
      split_ifs at hq with hid
      · cases hq
        exact ⟨hadm, j + 1, hreached'⟩
      · exact h.sequence id q hq
    · rw [WindowPool.demand]
      dsimp only
      omega

lemma remove_ok (requestId freed : ℕ) (h : PoolOk cfg windowSize pool) :
    ∃ pool', pool.step cfg windowSize (.remove requestId freed) = some pool'
      ∧ PoolOk cfg windowSize pool' := by
  refine ⟨_, rfl, fun id p hp => ?_, ?_⟩
  · rw [find?_erase] at hp
    split_ifs at hp
    exact h.sequence id p hp
  · have htotal := @UMap.total_update _ _ _ pool.sequences (pool.sequences.erase requestId)
      (fun _ p => furtherDemand cfg windowSize p) (fun _ p => furtherDemand cfg windowSize p)
      requestId fun id hid => by rw [weight_erase, if_neg hid]
    rw [weight_erase, if_pos rfl] at htotal
    have hfree := h.demand
    rw [WindowPool.demand] at hfree ⊢
    dsimp only
    omega

/-- No step of the run finds the pool empty, as long as the steps are allowed. -/
def NeverEmpty (Key : Type) [DecidableEq Key] (cfg : ManagerConfig) (windowSize : ℕ) :
    WindowPool → List PoolStep → Prop
  | _, [] => True
  | pool, step :: steps => Allowed Key cfg windowSize pool step →
      ∃ pool', pool.step cfg windowSize step = some pool'
        ∧ NeverEmpty Key cfg windowSize pool' steps

lemma step_ok [DecidableEq Key] {step : PoolStep}
    (hself : cfg.isCrossKv = false) (h : PoolOk cfg windowSize pool)
    (hallowed : Allowed Key cfg windowSize pool step) :
    ∃ pool', pool.step cfg windowSize step = some pool' ∧ PoolOk cfg windowSize pool' := by
  cases step with
  | insert batch => exact insert_ok hself h hallowed
  | addToken requestId kept =>
    obtain ⟨rfl, hlt⟩ := hallowed
    exact addToken_ok h hlt
  | remove requestId freed => exact remove_ok requestId freed h

lemma PoolOk.neverEmpty (Key : Type) [DecidableEq Key] (hself : cfg.isCrossKv = false)
    (steps : List PoolStep) : ∀ {pool : WindowPool}, PoolOk cfg windowSize pool →
      NeverEmpty Key cfg windowSize pool steps := by
  induction steps with
  | nil => exact fun _ => trivial
  | cons step steps ih =>
    intro pool h hallowed
    obtain ⟨pool', hstep, hok⟩ := step_ok hself h hallowed
    exact ⟨pool', hstep, ih hok⟩

/-- **The reservation of the no-evict scheduler.** The estimate of a request is sufficient, at
its admission and at every later point, exactly if it covers the request. From a pool whose
sequences are covered and whose estimates fit, no run of insertions that the scheduler admits, of
tokens and of removals finds the pool empty, as long as all requests are covered, no free block
is pinned as the source of a copy, and detached blocks become free. -/
theorem noEvict_reservation (Key : Type) [DecidableEq Key] (cfg : ManagerConfig)
    (windowSize : ℕ) (hself : cfg.isCrossKv = false) :
    (∀ (limits : RequestLimits) (promptLen : ℕ) (claims : List ClaimedBlock)
      (summary : PrefixReuseSummary Key),
      promptLen + limits.mMaxNewTokens ≤ cfg.maxSequenceLength →
      (cfg.isSWA windowSize = true → limits.beamWidth = 1) →
      cfg.creditedBlocks windowSize promptLen summary
        ≤ cfg.reusedByContext windowSize promptLen limits.beamWidth claims →
      (Sufficient cfg windowSize limits promptLen claims summary
        ↔ cfg.Covers windowSize promptLen limits.mMaxNewTokens))
    ∧ ∀ (pool : WindowPool) (request : ℕ → LlmRequest) (summary : ℕ → PrefixReuseSummary Key)
      (steps : List PoolStep),
      (∀ id p, pool.sequences.find? id = some p →
        Admissible cfg windowSize p.limits p.promptLen ∧ (∃ j, Reached cfg windowSize p j)
          ∧ RequestOf p (request id)) →
      pool.estimates cfg windowSize request summary ≤ pool.numFreeBlocks →
      NeverEmpty Key cfg windowSize pool steps := by
  refine ⟨fun limits promptLen claims summary hlen hbeam hcredit =>
    sufficient_iff hself hlen hbeam hcredit, ?_⟩
  intro pool request summary steps hseq hfits
  have hdemand := @demand_le_estimates cfg windowSize Key pool request summary hself
    (fun id p hp => ⟨(hseq id p hp).1, (hseq id p hp).2.1⟩) fun id p hp => (hseq id p hp).2.2
  refine PoolOk.neverEmpty Key hself steps ⟨fun id p hp => ⟨(hseq id p hp).1, (hseq id p hp).2.1⟩,
    ?_⟩
  omega

/-- Blocks of two tokens, a chunk of two, and sequences of up to 64 tokens. -/
def smallManager : ManagerConfig where
  mTokensPerBlock := 2
  tokensPerBlock_pos := by decide
  mChunkSize := 2
  maxSequenceLength := 64
  mEnableBlockReuse := false
  isVariableWindow := false
  isCrossKv := false

def oneNewToken : RequestLimits := ⟨1, 1, by decide⟩

/-- A prompt of 20 tokens in a sliding window of 4 takes ten blocks at once, and the estimate
for it is four. -/
theorem slidingPrompt_exceeds_estimate : smallManager.isSWA 4 = true
      ∧ smallManager.netTaken 4 20 1 [] 0 = 10
      ∧ smallManager.getRemainingBlocksToCompletion 4 oneNewToken (generating 20 20) none
        ({} : PrefixReuseSummary Unit) = 4
      ∧ ¬ Sufficient smallManager 4 oneNewToken 20 [] ({} : PrefixReuseSummary Unit) := by
  refine ⟨by decide, by decide, by decide, fun h => ?_⟩
  exact absurd (h.admission (generating 20 20) rfl rfl 0 (Nat.zero_le _)) (by decide)

/-- A prompt of 20 tokens that has not been started. -/
def newPrompt : LlmRequest :=
  { generating 20 20 with
    mState := .kCONTEXT_INIT
    contextCurrentPosition := 0
    position_le := by decide }

lemma oneWindow_nodup : [(64 : WindowSize)].Nodup := nodup_singleton 64

/-- A pass over a pool of eleven free blocks, which the prompt and its one token need. -/
def admittingPass : CapacityScheduler.PassContext Unit where
  cfg := ⟨4, .kCONTEXT_INIT, .kGENERATION_COMPLETE, false, false⟩
  kv := {
    isEnableBlockReuse := false
    isVariableWindow := false
    windowSizes := [64]
    windowSizes_nodup := oneWindow_nodup
    numFreeBlocks := fun _ => 11
    analyzePrefixReuse := fun _ => {}
    getRemainingBlocksToCompletion := fun req w _ =>
      smallManager.getRemainingBlocksToCompletion w.toNat oneNewToken req none
        ({} : PrefixReuseSummary Unit)
    getNeededBlocksOneStep := fun _ _ _ _ => 10
    allocatedBlocks := fun _ _ => none
    isPlaceholder := fun _ _ => false
    refCount := fun _ _ => 0 }
  cross := none
  peft := none

/-- The pool of the pass, without a sequence. -/
def emptyPool : WindowPool := ⟨11, ∅⟩

/-- The pool after the prompt: one free block, for the last token. -/
def lastTokenPool : WindowPool where
  numFreeBlocks := 1
  sequences := (∅ : UMap ℕ PooledSequence).set 0
    ⟨oneNewToken, 20, smallManager.addSequence 64 20 1⟩

/-- The scheduler admits the prompt. -/
lemma allowed_insert_newPrompt :
    Allowed Unit smallManager 64 emptyPool (.insert [⟨0, oneNewToken, 20, []⟩]) := by
  have hpass : (admittingPass.guaranteedNoEvict [newPrompt]).map (·.scheduledRequests)
      = some [newPrompt] := by decide
  obtain ⟨s, hs, hscheduled⟩ := Option.map_eq_some_iff.mp hpass
  have hneed : ∀ r, r ∈ [newPrompt] ∨ r ∈ s.scheduledRequests →
      0 ≤ admittingPass.needOf (64 : ℕ) r := by
    intro r hr
    rw [hscheduled, or_self] at hr
    rw [List.mem_singleton.mp hr]
    decide
  refine ⟨fun _ => newPrompt, fun _ => {}, by decide, fun a ha => ?_, fun id p hp => ?_,
    admittingPass, [newPrompt], s, hs, by decide, rfl, fun id p hp => ?_, fun a ha => ?_, ?_,
    by decide, hneed⟩
  · obtain rfl := List.mem_singleton.mp ha
    exact ⟨not_mem_empty _, ⟨by decide, by decide, by decide⟩, rfl, rfl, by decide, by decide⟩
  · cases hp
  · cases hp
  · obtain rfl := List.mem_singleton.mp ha
    rfl
  · rw [hscheduled]
    exact List.Subperm.refl _

/-- With a window of 64 the estimate is sufficient: the prompt is inserted into the empty pool, and
its last token takes the last block. -/
theorem noEvict_reservation_lastToken : smallManager.isCrossKv = false
      ∧ Sufficient smallManager 64 oneNewToken 20 [] ({} : PrefixReuseSummary Unit)
      ∧ Allowed Unit smallManager 64 emptyPool (.insert [⟨0, oneNewToken, 20, []⟩])
      ∧ Allowed Unit smallManager 64 lastTokenPool (.addToken 0 0)
      ∧ emptyPool.step smallManager 64 (.insert [⟨0, oneNewToken, 20, []⟩]) = some lastTokenPool
      ∧ ∃ pool, lastTokenPool.step smallManager 64 (.addToken 0 0) = some pool := by
  obtain ⟨hsuff, hrun⟩ := noEvict_reservation Unit smallManager 64 rfl
  have hinsert : emptyPool.step smallManager 64 (.insert [⟨0, oneNewToken, 20, []⟩])
      = some lastTokenPool := rfl
  have htoken : Allowed Unit smallManager 64 lastTokenPool (.addToken 0 0) := by
    refine ⟨rfl, fun p hp => ?_⟩
    obtain rfl : ⟨oneNewToken, 20, smallManager.addSequence 64 20 1⟩ = p := Option.some.inj hp
    decide
  refine ⟨rfl, ?_, allowed_insert_newPrompt, htoken, hinsert, ?_⟩
  · exact (hsuff oneNewToken 20 [] {} (by decide) (by decide) (by decide)).2 (by decide)
  · obtain ⟨pool, hpool, hnext⟩ := hrun emptyPool (fun _ => newPrompt) (fun _ => {})
      [.insert [⟨0, oneNewToken, 20, []⟩], .addToken 0 0] (fun id p hp => by cases hp) (by decide)
      allowed_insert_newPrompt
    obtain rfl := Option.some.inj (hinsert.symm.trans hpool)
    obtain ⟨pool', hpool', -⟩ := hnext htoken
    exact ⟨pool', hpool'⟩

end Demand

end TrtLlm.KvCache
