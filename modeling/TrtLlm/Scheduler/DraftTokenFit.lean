import TrtLlm.Scheduler.MicroBatchBudget

/-!
When the chunk assignment asks for an impossible trim of draft tokens.

Every policy returns its chunks.  Draft tokens are then trimmed to the space behind the last chunk
of a prompt, and the trim fails exactly for a chunk that is longer than the maximal context length:
only `kFIRST_COME_FIRST_SERVED` makes such chunks, for a prompt of which so much is reusable that
the rest is within all limits.

* `chunkByPolicy_returns`: no policy raises;
* `fitDraftLoop_trims`, `fitDraftLoop_raises`: the trim, with and without a chunk that is too long;
* `setCtxRequestsChunkSize_trims_iff`: **when the assignment returns**, and what the trim does then.
-/

namespace TrtLlm

open List

/-- The tokens of the remaining context that are not reusable. -/
def LlmRequest.uncachedLength (req : LlmRequest) : ℤ :=
  req.contextRemainingLength - req.reusableRemaining

namespace MicroBatchScheduler

variable {capacity : Option ℤ} {unit : ℕ} {maxLength : Option ℕ}

/-! ### The policies return -/

variable {length : ℕ} {req : LlmRequest} {requests : List LlmRequest}

lemma setContextChunkSize_returns (h : req.hasContextChunk = true) {size : ℤ} (hsize : 0 ≤ size) :
    req.setContextChunkSize size
      = some (req.withChunkSize (min size.toNat req.contextRemainingLength)) := by
  rw [LlmRequest.setContextChunkSize, h, Bool.true_and, if_pos (decide_eq_true hsize)]
  congr 2
  omega

/-- The chunk of the request is no longer than the maximal context length. -/
def ShortChunk (maxLength : Option ℕ) (req : LlmRequest) : Prop :=
  ∀ length, maxLength = some length → req.contextChunkSize ≤ length

lemma offerChunkUnit_returns (capacity : Option ℤ) (unit : ℕ) (h : req.hasContextChunk = true)
    (hshort : ShortChunk maxLength req) (num : ℤ) :
    ∃ offer, offerChunkUnit capacity unit maxLength req num = some offer
      ∧ offer.1.hasContextChunk = true ∧ ShortChunk maxLength offer.1 := by
  rw [offerChunkUnit, setContextChunkSize_returns h (by omega), Option.bind_some]
  dsimp only
  split_ifs with hover
  · have hgrown : (req.withChunkSize (min (req.contextChunkSize + unit : ℤ).toNat
        req.contextRemainingLength)).hasContextChunk = true := h
    rw [setContextChunkSize_returns hgrown (by omega)]
    refine ⟨_, rfl, h, fun length hlength => ?_⟩
    have hle := hshort length hlength
    simp only [LlmRequest.withChunkSize_size]
    omega
  · refine ⟨_, rfl, h, fun length hlength => ?_⟩
    subst hlength
    simp only [overLength, Option.any_some, Bool.or_eq_true, not_or, decide_eq_true_eq] at hover
    simp only [LlmRequest.withChunkSize_size] at hover ⊢
    omega

lemma equalProgressPass_returns (capacity : Option ℤ) (unit : ℕ)
    (h : ∀ req ∈ requests, req.hasContextChunk = true ∧ ShortChunk maxLength req) (num : ℤ) :
    ∃ p, equalProgressPass capacity unit maxLength requests num = some p
      ∧ ∀ req ∈ p.requests, req.hasContextChunk = true ∧ ShortChunk maxLength req := by
  induction requests generalizing num with
  | nil => exact ⟨_, rfl, h⟩
  | cons req rest ih =>
    obtain ⟨hreq, hrest⟩ := forall_mem_cons.mp h
    obtain ⟨offer, hoffer, hkept⟩ := offerChunkUnit_returns capacity unit hreq.1 hreq.2 num
    obtain ⟨p, hp, hall⟩ := ih hrest (num + offer.2.1)
    refine ⟨_, by rw [equalProgressPass, hoffer, Option.bind_some, hp]; rfl, ?_⟩
    exact forall_mem_cons.mpr ⟨hkept, hall⟩

lemma equalProgressLoop_returns (num : ℤ)
    (h : ∀ req ∈ requests, req.hasContextChunk = true ∧ ShortChunk maxLength req) :
    ∃ after, equalProgressLoop capacity unit maxLength requests num = some after
      ∧ ∀ req ∈ after, req.hasContextChunk = true ∧ ShortChunk maxLength req := by
  fun_induction equalProgressLoop capacity unit maxLength requests num with
  | case1 requests num hmore hnone =>
    obtain ⟨p, hp, -⟩ := equalProgressPass_returns capacity unit h num
    rw [hnone] at hp
    cases hp
  | case2 requests num hmore p hp hstop =>
    obtain ⟨q, hq, hall⟩ := equalProgressPass_returns capacity unit h num
    rw [hp] at hq
    obtain rfl := Option.some.inj hq
    exact ⟨_, rfl, hall⟩
  | case3 requests num hmore p hp hgo ih =>
    obtain ⟨q, hq, hall⟩ := equalProgressPass_returns capacity unit h num
    rw [hp] at hq
    obtain rfl := Option.some.inj hq
    exact ih hall
  | case4 requests num hfull => exact ⟨_, rfl, h⟩

lemma forceChunkLoop_returns (total : ℤ) (h : ∀ req ∈ requests, req.hasContextChunk = true) :
    ∃ after, forceChunkLoop capacity unit maxLength requests total = some after
      ∧ ∀ req ∈ after, ShortChunk maxLength req := by
  induction requests generalizing total with
  | nil => exact ⟨_, rfl, fun req hreq => absurd hreq not_mem_nil⟩
  | cons req rest ih =>
    obtain ⟨hreq, hrest⟩ := forall_mem_cons.mp h
    have hbounded := @boundedSnapshotChunk_nonneg unit maxLength req
    set size := forcedChunk capacity unit maxLength req total with hsize
    have hsize₀ : 0 ≤ size ∧ size ≤ boundedSnapshotChunk unit maxLength req := by
      cases capacity with
      | none => exact ⟨hbounded, le_refl _⟩
      | some c =>
        rw [hsize]
        simp only [forcedChunk]
        split_ifs
        · have hmin : 0 ≤ min (boundedSnapshotChunk unit maxLength req) (max 0 (c - total)) := by
            omega
          have hdown := tdiv_mul_le hmin unit
          exact ⟨tdiv_mul_nonneg hmin unit, by omega⟩
        · exact ⟨hbounded, le_refl _⟩
    have hset := setContextChunkSize_returns hreq hsize₀.1
    obtain ⟨after, hafter, hall⟩ := ih
      (total + (req.withChunkSize (min size.toNat req.contextRemainingLength)).contextChunkSize)
        hrest
    refine ⟨_, by rw [forceChunkLoop, ← hsize, hset, Option.bind_some, hafter]; rfl, ?_⟩
    refine forall_mem_cons.mpr ⟨fun length hlength => ?_, hall⟩
    subst hlength
    have hle : boundedSnapshotChunk unit (some length) req ≤ length := by
      rw [boundedSnapshotChunk]
      split_ifs with hlong
      · exact tdiv_mul_le (Int.natCast_nonneg length) unit
      · omega
    rw [LlmRequest.withChunkSize_size]
    omega

lemma firstComeFirstServed_returns (hcapacity : ∀ c, capacity = some c → 0 ≤ c)
    (h : ∀ req ∈ requests, req.hasContextChunk = true) :
    ∃ after, firstComeFirstServed unit maxLength capacity requests = some after := by
  induction requests generalizing capacity with
  | nil => exact ⟨_, rfl⟩
  | cons req rest ih =>
    obtain ⟨hreq, hrest⟩ := forall_mem_cons.mp h
    have hafford : Affordable capacity req (firstComeChunk unit maxLength capacity req) :=
      firstComeChunk_affordable req hcapacity
    have hnonneg : 0 ≤ firstComeChunk unit maxLength capacity req := by
      obtain ⟨heq, -⟩ | ⟨h0, -⟩ := hafford
      · omega
      · exact h0
    have hleft : ∀ c, (capacity.map fun c =>
        c - req.chunkCompute (firstComeChunk unit maxLength capacity req)) = some c → 0 ≤ c := by
      intro c hc
      obtain ⟨c', hc', rfl⟩ := Option.map_eq_some_iff.mp hc
      have := hafford.cost_le hc'
      omega
    obtain ⟨after, hafter⟩ := ih hleft hrest
    refine ⟨req.withChunkSize (min (firstComeChunk unit maxLength capacity req).toNat
      req.contextRemainingLength) :: after, ?_⟩
    rw [firstComeFirstServed, setContextChunkSize_returns hreq hnonneg, Option.bind_some, hafter]
    rfl

/-! ### The chunks of the first come, first served policy -/

/-- What is not reusable of the remaining context is within the maximal context length and the
capacity that is left. -/
def withinLimits (length : ℕ) (capacity : Option ℤ) (req : LlmRequest) : Bool :=
  req.uncachedLength ≤ length && capacity.all fun c => req.uncachedLength ≤ c

/-- What a request takes of the capacity: the tokens that are not reusable if they are within the
limits, else the lower limit in whole chunk units. -/
def firstComeCharge (unit length : ℕ) (capacity : Option ℤ) (req : LlmRequest) : ℤ :=
  if withinLimits length capacity req then req.uncachedLength
  else ((capacity.elim (length : ℤ) fun c => min c length)).tdiv unit * unit

lemma uncachedLength_bounds (req : LlmRequest) :
    0 ≤ req.uncachedLength ∧ req.uncachedLength ≤ req.contextRemainingLength := by
  have := reusableRemaining_bounds req
  rw [LlmRequest.uncachedLength]
  omega

/-- Within the limits a request gets its whole context, else the lower limit in whole units. -/
lemma firstComeChunk_eq (unit length : ℕ) (capacity : Option ℤ) (req : LlmRequest) :
    firstComeChunk unit (some length) capacity req
      = if withinLimits length capacity req then (req.contextRemainingLength : ℤ)
        else ((capacity.elim (length : ℤ) fun c => min c length)).tdiv unit * unit := by
  have hbounds := uncachedLength_bounds req
  have hwhole : req.chunkCompute req.contextRemainingLength = req.uncachedLength :=
    chunkCompute_whole req
  have hcut : ∀ c : ℤ, c < req.uncachedLength → req.chunkCompute c = c := fun c hc =>
    chunkCompute_cut (by rw [LlmRequest.uncachedLength] at hc; omega)
  cases capacity with
  | none =>
    simp only [firstComeChunk, capacityChunk, lengthChunk, hwhole, withinLimits, Option.all_none,
      Bool.and_true, decide_eq_true_eq, Option.elim_none]
    by_cases hlength : (length : ℤ) < req.uncachedLength
    · rw [if_pos hlength, min_eq_left (by omega), if_pos (by omega), if_neg (by omega)]
    · rw [if_neg hlength, if_neg (not_not_intro rfl), if_pos (by omega)]
  | some c =>
    simp only [firstComeChunk, capacityChunk, lengthChunk, hwhole, withinLimits, Option.all_some,
      Bool.and_eq_true, decide_eq_true_eq, Option.elim_some]
    by_cases hc : c < req.uncachedLength
    · rw [if_pos hc, hcut c hc,
        if_neg (show ¬ (req.uncachedLength ≤ length ∧ req.uncachedLength ≤ c) by omega)]
      by_cases hlength : (length : ℤ) < c
      · rw [if_pos hlength, min_eq_left (by omega), if_pos (by omega), min_eq_right (by omega)]
      · rw [if_neg hlength, if_pos (by omega), min_eq_left (by omega)]
    · rw [if_neg hc, hwhole]
      by_cases hlength : (length : ℤ) < req.uncachedLength
      · rw [if_pos hlength, min_eq_left (by omega), if_pos (by omega), if_neg (by omega),
          min_eq_right (by omega)]
      · rw [if_neg hlength, if_neg (not_not_intro rfl), if_pos (by omega)]

/-- The lower limit is not reached by what a request needs. -/
lemma limit_lt (h : withinLimits length capacity req = false) :
    (capacity.elim (length : ℤ) fun c => min c length) < req.uncachedLength := by
  cases capacity with
  | none =>
    simpa [withinLimits] using h
  | some c =>
    simp only [withinLimits, Option.all_some, Bool.and_eq_false_iff, decide_eq_false_iff_not] at h
    rw [Option.elim_some]
    omega

lemma limit_nonneg (length : ℕ) (hcapacity : ∀ c, capacity = some c → 0 ≤ c) :
    0 ≤ capacity.elim (length : ℤ) fun c => min c length := by
  cases capacity with
  | none => exact Int.natCast_nonneg length
  | some c =>
    have := hcapacity c rfl
    rw [Option.elim_some]
    omega

/-- The cost of the chunk is what the request takes of the capacity. -/
lemma chunkCompute_firstComeChunk (unit length : ℕ) (req : LlmRequest)
    (hcapacity : ∀ c, capacity = some c → 0 ≤ c) :
    req.chunkCompute (firstComeChunk unit (some length) capacity req)
      = firstComeCharge unit length capacity req := by
  rw [firstComeChunk_eq, firstComeCharge]
  split_ifs with hin
  · exact chunkCompute_whole req
  · have hlt := limit_lt (Bool.eq_false_iff.mpr hin)
    have hdown := tdiv_mul_le (limit_nonneg length hcapacity) unit
    rw [LlmRequest.uncachedLength] at hlt
    exact chunkCompute_cut (by omega)

/-- The chunk is the last one of a prompt with draft tokens, and it is too long. -/
def Overlong (length : ℕ) (req : LlmRequest) : Prop :=
  req.isLastContextChunk = true ∧ req.hasDraftTokens = true ∧ length < req.contextChunkSize

/-- A prompt with draft tokens that is longer than the maximal context length although what is not
reusable of it is within the limits. -/
def hasLongReuse (length : ℕ) (capacity : Option ℤ) (req : LlmRequest) : Bool :=
  req.hasDraftTokens && length < req.contextRemainingLength && withinLimits length capacity req

lemma overlong_firstCome (unit length : ℕ) (req : LlmRequest)
    (hcapacity : ∀ c, capacity = some c → 0 ≤ c) :
    Overlong length (req.withChunkSize (min (firstComeChunk unit (some length) capacity req).toNat
      req.contextRemainingLength)) ↔ hasLongReuse length capacity req = true := by
  have hposition := req.position_le
  rw [Overlong, LlmRequest.withChunkSize_size, firstComeChunk_eq, hasLongReuse]
  simp only [Bool.and_eq_true, decide_eq_true_eq]
  split_ifs with hin
  · rw [Int.toNat_natCast, min_self]
    have hlast : (req.withChunkSize req.contextRemainingLength).isLastContextChunk = true := by
      have hend : req.contextCurrentPosition + req.contextRemainingLength = req.mPromptLen := by
        rw [LlmRequest.contextRemainingLength]
        omega
      rw [LlmRequest.isLastContextChunk]
      simp only [Bool.or_eq_true, decide_eq_true_eq]
      exact .inr hend
    exact ⟨fun h => ⟨⟨h.2.1, h.2.2⟩, hin⟩, fun h => ⟨hlast, h.1.1, h.1.2⟩⟩
  · refine ⟨fun h => ?_, fun h => absurd h.2 hin⟩
    have hlimit := limit_nonneg length hcapacity
    have hdown := tdiv_mul_le hlimit unit
    have hle : (capacity.elim (length : ℤ) fun c => min c length) ≤ length := by
      cases capacity with
      | none => exact le_refl _
      | some c => exact min_le_right _ _
    omega

/-- No request is one with a long reusable prompt when its turn comes, with the capacity that the
requests before it leave. -/
def trimmable (unit length : ℕ) : Option ℤ → List LlmRequest → Bool
  | _, [] => true
  | capacity, req :: rest =>
    !hasLongReuse length capacity req
      && trimmable unit length (capacity.map fun c => c - firstComeCharge unit length capacity req)
        rest

/-- The old chunk sizes do not matter. -/
lemma trimmable_reset (unit length : ℕ) (capacity : Option ℤ) (requests : List LlmRequest) :
    trimmable unit length capacity (requests.map (·.withChunkSize 0))
      = trimmable unit length capacity requests := by
  induction requests generalizing capacity with
  | nil => rfl
  | cons req rest ih =>
    rw [map_cons, trimmable, ih, trimmable]
    rfl

/-- **The chunks that are too long** are those of prompts with a long reusable part. -/
lemma firstComeFirstServed_overlong {after : List LlmRequest}
    (hcapacity : ∀ c, capacity = some c → 0 ≤ c)
    (h : firstComeFirstServed unit (some length) capacity requests = some after) :
    (∀ req ∈ after, ¬ Overlong length req) ↔ trimmable unit length capacity requests = true := by
  induction requests generalizing capacity after with
  | nil =>
    obtain rfl := Option.some.inj h
    simp [trimmable]
  | cons req rest ih =>
    have hafford : Affordable capacity req (firstComeChunk unit (some length) capacity req) :=
      firstComeChunk_affordable req hcapacity
    simp only [firstComeFirstServed, Option.bind_eq_some_iff, Option.map_eq_some_iff] at h
    obtain ⟨chunked, hset, tail, htail, rfl⟩ := h
    obtain ⟨-, rfl⟩ := LlmRequest.setContextChunkSize_eq_some hset
    have hleft : ∀ c, (capacity.map fun c =>
        c - req.chunkCompute (firstComeChunk unit (some length) capacity req)) = some c →
          0 ≤ c := by
      intro c hc
      obtain ⟨c', hc', rfl⟩ := Option.map_eq_some_iff.mp hc
      have := hafford.cost_le hc'
      omega
    have hrest := ih hleft htail
    rw [chunkCompute_firstComeChunk unit length req hcapacity] at hrest
    rw [forall_mem_cons, overlong_firstCome unit length req hcapacity, hrest, trimmable,
      Bool.and_eq_true, Bool.not_eq_true']
    simp only [Bool.not_eq_true]

/-! ### The trim of the draft tokens -/

/-- The running token totals of the trim, before each request and at the end. -/
def draftTotals (capacity : Option ℤ) (unit : ℕ) (maxLength : Option ℕ) :
    List LlmRequest → ℤ → List ℤ
  | [], numCtxTokens => [numCtxTokens]
  | req :: rest, numCtxTokens =>
    numCtxTokens :: draftTotals capacity unit maxLength rest
      (if req.isLastContextChunk && req.hasDraftTokens && capacity.isSome then
        numCtxTokens + spaceForDraftTokens capacity unit maxLength req numCtxTokens
      else numCtxTokens)

/-- The running totals grow, up to the capacity. -/
structure TotalsOk (capacity : Option ℤ) (totals : List ℤ) : Prop where
  grow : totals.IsChain (· ≤ ·)
  within : ∀ total ∈ totals, ∀ c, capacity = some c → total ≤ c

/-- Some of the draft tokens were discarded, from none to all of them. -/
def Trimmed (before after : LlmRequest) : Prop :=
  ∃ discarded ≤ before.numDraftTokens,
    after = before.withDraftTokens (before.numDraftTokens - discarded)

lemma spaceForDraftTokens_nonneg {num : ℤ} (hunit : 1 ≤ unit)
    (hshort : ShortChunk maxLength req) (hnum : ∀ c, capacity = some c → num ≤ c) :
    0 ≤ spaceForDraftTokens capacity unit maxLength req num := by
  have hmod := Nat.mod_lt req.contextChunkSize (show 0 < unit by omega)
  have hinUnit : (0 : ℤ) ≤ if req.contextChunkSize % unit = 0 then (0 : ℤ)
      else (unit : ℤ) - (req.contextChunkSize % unit : ℕ) := by
    split_ifs <;> omega
  cases maxLength with
  | none =>
    cases capacity with
    | none => exact hinUnit
    | some c =>
      have := hnum c rfl
      exact le_min hinUnit (by omega)
  | some length =>
    have hlength := hshort length rfl
    cases capacity with
    | none => exact le_min hinUnit (by omega)
    | some c =>
      have := hnum c rfl
      exact le_min (le_min hinUnit (by omega)) (by omega)

/-- With space for draft tokens the trim of one request returns. -/
lemma keepDraftTokens_trims (req : LlmRequest) {space : ℤ} (h : 0 ≤ space) :
    ∃ kept, keepDraftTokens req space = some kept ∧ Trimmed req kept := by
  rw [keepDraftTokens]
  split_ifs with hmore
  · rw [LlmRequest.discardDraftTokens, if_pos (by omega)]
    refine ⟨_, rfl, (req.numDraftTokens - space).toNat, by omega, ?_⟩
    congr 1
    omega
  · exact ⟨req, rfl, 0, Nat.zero_le _, rfl⟩

lemma keepDraftTokens_raises {space : ℤ} (h : space < 0) : keepDraftTokens req space = none := by
  rw [keepDraftTokens, if_pos (by omega), LlmRequest.discardDraftTokens, if_neg (by omega)]

/-- **The trim** of chunks that are not too long. -/
lemma fitDraftLoop_trims (hunit : 1 ≤ unit) {num : ℤ}
    (hshort : ∀ length, maxLength = some length → ∀ req ∈ requests, ¬ Overlong length req)
    (hnum : ∀ c, capacity = some c → num ≤ c) :
    ∃ after, fitDraftLoop capacity unit maxLength requests num = some after
      ∧ Forall₂ Trimmed requests after
      ∧ TotalsOk capacity (draftTotals capacity unit maxLength requests num) := by
  induction requests generalizing num with
  | nil =>
    refine ⟨_, rfl, .nil, List.IsChain.singleton _, ?_⟩
    intro total htotal
    rw [draftTotals, mem_singleton] at htotal
    exact htotal ▸ hnum
  | cons req rest ih =>
    have hrest : ∀ length, maxLength = some length → ∀ r ∈ rest, ¬ Overlong length r :=
      fun length hlength r hr => hshort length hlength r (mem_cons_of_mem req hr)
    -- the total after this request, which is at least the total before it
    set next := if req.isLastContextChunk && req.hasDraftTokens && capacity.isSome then
        num + spaceForDraftTokens capacity unit maxLength req num else num with hnext
    have hspace : req.isLastContextChunk = true → req.hasDraftTokens = true →
        0 ≤ spaceForDraftTokens capacity unit maxLength req num := by
      intro hlast hdrafts
      refine spaceForDraftTokens_nonneg hunit
        (fun length hlength => Nat.not_lt.mp fun hlt => ?_) hnum
      exact hshort length hlength req mem_cons_self ⟨hlast, hdrafts, hlt⟩
    have hgrow : num ≤ next := by
      rw [hnext]
      split_ifs with hc
      · simp only [Bool.and_eq_true] at hc
        have := hspace hc.1.1 hc.1.2
        omega
      · exact le_refl _
    have hnext' : ∀ c, capacity = some c → next ≤ c := by
      intro c hc
      rw [hnext]
      split_ifs
      · have hle : spaceForDraftTokens capacity unit maxLength req num ≤ c - num :=
          spaceForDraftTokens_le hc
        omega
      · exact hnum c hc
    obtain ⟨after, hafter, htrim, hok⟩ := ih hrest hnext'
    have hok' : TotalsOk capacity (draftTotals capacity unit maxLength (req :: rest) num) := by
      rw [draftTotals, ← hnext]
      refine ⟨?_, forall_mem_cons.mpr ⟨hnum, hok.within⟩⟩
      have hhead : ∃ totals, draftTotals capacity unit maxLength rest next = next :: totals := by
        cases rest <;> exact ⟨_, rfl⟩
      obtain ⟨totals, htotals⟩ := hhead
      have hchain := hok.grow
      rw [htotals] at hchain ⊢
      exact isChain_cons_cons.mpr ⟨hgrow, hchain⟩
    rw [fitDraftLoop]
    split_ifs with hc hsome
    · simp only [Bool.and_eq_true] at hc
      obtain ⟨kept, hkept, htrimmed⟩ := keepDraftTokens_trims req (hspace hc.1 hc.2)
      have heq : next = num + spaceForDraftTokens capacity unit maxLength req num := by
        rw [hnext, if_pos (by simp [hc.1, hc.2, hsome])]
      dsimp only
      rw [hkept, Option.bind_some, ← heq, hafter]
      exact ⟨_, rfl, .cons htrimmed htrim, hok'⟩
    · simp only [Bool.and_eq_true] at hc
      obtain ⟨kept, hkept, htrimmed⟩ := keepDraftTokens_trims req (hspace hc.1 hc.2)
      have heq : num = next := by
        rw [hnext, if_neg (by simp [hsome])]
      have hloop : fitDraftLoop capacity unit maxLength rest num = some after := by rwa [heq]
      dsimp only
      rw [hkept, Option.bind_some, hloop]
      exact ⟨_, rfl, .cons htrimmed htrim, hok'⟩
    · have heq : num = next := by
        rw [hnext, if_neg (by simp_all)]
      have hloop : fitDraftLoop capacity unit maxLength rest num = some after := by rwa [heq]
      rw [hloop]
      exact ⟨_, rfl, .cons ⟨0, Nat.zero_le _, rfl⟩ htrim, hok'⟩

/-- The trim of a chunk that is too long is impossible. -/
lemma fitDraftLoop_raises (num : ℤ) (hmem : req ∈ requests) (hlong : Overlong length req) :
    fitDraftLoop capacity unit (some length) requests num = none := by
  induction requests generalizing num with
  | nil => exact absurd hmem not_mem_nil
  | cons first rest ih =>
    rw [fitDraftLoop]
    rcases mem_cons.mp hmem with rfl | hmem
    · obtain ⟨hlast, hdrafts, hlt⟩ := hlong
      have hspace : spaceForDraftTokens capacity unit (some length) req num < 0 := by
        cases capacity with
        | none =>
          refine (min_le_right _ _).trans_lt ?_
          omega
        | some c =>
          refine ((min_le_left _ _).trans (min_le_right _ _)).trans_lt ?_
          omega
      rw [if_pos (by rw [hlast, hdrafts]; rfl)]
      dsimp only
      rw [keepDraftTokens_raises hspace, Option.bind_none]
    · split_ifs
      · dsimp only
        rw [ih _ hmem]
        exact Option.bind_fun_none _
      · dsimp only
        rw [ih _ hmem]
        exact Option.bind_fun_none _
      · rw [ih _ hmem]
        rfl

/-! ### The assignment -/

/-- The assignment returns: the policy gives its chunks, and of each request between none and all
draft tokens are discarded, with a running total that grows up to the capacity. -/
def AssignsChunks (requests : List LlmRequest) (policy : ContextChunkingPolicy)
    (capacity : Option ℤ)
    (unit : ℕ) (maxLength : Option ℕ) : Prop :=
  ∃ chunked after,
    chunkByPolicy policy capacity unit maxLength (requests.map (·.withChunkSize 0)) = some chunked
    ∧ setCtxRequestsChunkSize requests policy capacity unit maxLength = some after
    ∧ Forall₂ Trimmed chunked after
    ∧ TotalsOk capacity (draftTotals capacity unit maxLength chunked
      (chunked.map LlmRequest.computeTokens).sum)

lemma reset_returns (h : ∀ req ∈ requests, req.hasContextChunk = true) :
    (requests.mapM fun req : LlmRequest => req.setContextChunkSize 0)
      = some (requests.map (·.withChunkSize 0)) := by
  induction requests with
  | nil => rfl
  | cons req rest ih =>
    obtain ⟨hreq, hrest⟩ := forall_mem_cons.mp h
    rw [mapM_cons, setContextChunkSize_returns hreq (le_refl 0), ih hrest]
    simp

/-- **No policy raises**, and only the first come, first served policy makes chunks that are too
long. -/
lemma chunkByPolicy_returns (policy : ContextChunkingPolicy)
    (hcapacity : ∀ c, capacity = some c → 0 ≤ c)
    (hlength : ∀ length, maxLength = some length → unit ≤ length)
    (h : ∀ req ∈ requests, req.hasContextChunk = true)
    (hreset : ∀ req ∈ requests, req.contextChunkSize = 0) :
    ∃ chunked, chunkByPolicy policy capacity unit maxLength requests = some chunked
      ∧ (policy ≠ .kFIRST_COME_FIRST_SERVED → ∀ req ∈ chunked, ShortChunk maxLength req) := by
  cases policy with
  | kFIRST_COME_FIRST_SERVED =>
    obtain ⟨chunked, hchunked⟩ := firstComeFirstServed_returns hcapacity h
    exact ⟨chunked, hchunked, fun hne => absurd rfl hne⟩
  | kEQUAL_PROGRESS =>
    obtain ⟨chunked, hchunked, hall⟩ := equalProgressLoop_returns 0 fun req hreq =>
      ⟨h req hreq, fun length _ => by rw [hreset req hreq]; exact Nat.zero_le length⟩
    exact ⟨chunked, hchunked, fun _ req hreq => (hall req hreq).2⟩
  | kFORCE_CHUNK =>
    obtain ⟨chunked, hchunked, hall⟩ := forceChunkLoop_returns 0 h
    refine ⟨chunked, ?_, fun _ => hall⟩
    rw [chunkByPolicy, forceChunk, if_neg, hchunked]
    cases maxLength with
    | none => simp
    | some length =>
      have := hlength length rfl
      simp only [Option.any_some, decide_eq_true_eq]
      omega

/-- **When the assignment returns.** It does unless the policy is first come, first served, there is
a maximal context length and, when its turn comes, some prompt with draft tokens is longer than that
length although what is not reusable of it is within the length and the capacity. -/
theorem setCtxRequestsChunkSize_trims_iff (requests : List LlmRequest)
    (policy : ContextChunkingPolicy)
    (ctxTokensCapacity : Option ℕ) {chunkUnitSize : ℕ} {maxContextLength : Option ℕ}
    (hunit : 1 ≤ chunkUnitSize)
    (hlength : ∀ length, maxContextLength = some length → chunkUnitSize ≤ length)
    (hcontext : ∀ req ∈ requests, req.hasContextChunk = true) :
    AssignsChunks requests policy (ctxTokensCapacity.map (↑)) chunkUnitSize maxContextLength
      ↔ (policy = .kFIRST_COME_FIRST_SERVED → ∀ length, maxContextLength = some length →
        trimmable chunkUnitSize length (ctxTokensCapacity.map (↑)) requests = true) := by
  set capacity : Option ℤ := ctxTokensCapacity.map (↑) with hcap
  have hcapacity : ∀ c, capacity = some c → 0 ≤ c := by
    intro c hc
    obtain ⟨n, -, rfl⟩ := Option.map_eq_some_iff.mp hc
    exact Int.natCast_nonneg n
  have hcontext' : ∀ req ∈ requests.map (·.withChunkSize 0), req.hasContextChunk = true := by
    intro req hreq
    obtain ⟨r, hr, rfl⟩ := mem_map.mp hreq
    exact hcontext r hr
  have hreset : ∀ req ∈ requests.map (·.withChunkSize 0), req.contextChunkSize = 0 := by
    intro req hreq
    obtain ⟨r, -, rfl⟩ := mem_map.mp hreq
    rfl
  obtain ⟨chunked, hchunked, hshort⟩ :=
    chunkByPolicy_returns policy hcapacity hlength hcontext' hreset
  have hfits := (chunkByPolicy_chunked hcapacity hreset hchunked).fits
  have hassign : setCtxRequestsChunkSize requests policy capacity chunkUnitSize maxContextLength
      = fitDraftLoop capacity chunkUnitSize maxContextLength chunked
        (chunked.map LlmRequest.computeTokens).sum := by
    rw [setCtxRequestsChunkSize, reset_returns hcontext, Option.bind_some, hchunked,
      Option.bind_some]
    rfl
  -- the chunks that are too long, in terms of the requests
  have hlong : (∀ length, maxContextLength = some length → ∀ req ∈ chunked, ¬ Overlong length req)
      ↔ (policy = .kFIRST_COME_FIRST_SERVED → ∀ length, maxContextLength = some length →
        trimmable chunkUnitSize length capacity requests = true) := by
    by_cases hpolicy : policy = .kFIRST_COME_FIRST_SERVED
    · subst hpolicy
      rw [forall_prop_of_true rfl]
      refine forall_congr' fun length => imp_congr_right fun hlen => ?_
      subst hlen
      rw [← trimmable_reset]
      exact firstComeFirstServed_overlong hcapacity hchunked
    · refine iff_of_true (fun length hlen req hreq hover => ?_) fun hfc => absurd hfc hpolicy
      have := hshort hpolicy req hreq length hlen
      have := hover.2.2
      omega
  rw [← hlong]
  constructor
  · rintro ⟨chunked', after, hchunked', hafter, -⟩ length hlen req hreq hover
    subst hlen
    rw [hassign, fitDraftLoop_raises _ hreq hover] at hafter
    cases hafter
  · intro hok
    obtain ⟨after, hafter, htrim, htotals⟩ := fitDraftLoop_trims hunit hok
      fun c hc => hfits c hc (hcapacity c hc)
    exact ⟨chunked, after, hchunked, hassign.trans hafter, htrim, htotals⟩

/-- A prompt of ten tokens, eight of which are reusable, with one draft token. -/
def reusedPrompt : LlmRequest where
  mRequestId := 0
  mState := .kCONTEXT_INIT
  mPromptLen := 10
  contextCurrentPosition := 0
  prepopulatedPromptLen := 0
  contextChunkSize := 0
  estimatedReusableTokens := 8
  numTokens := 10
  numDraftTokens := 1
  beamWidth := 1
  encoderOutputLen := 0
  expectedSnapshotPoints := []
  loraTaskId := none
  hasEncoderUniqueTokens := false
  position_le := Nat.le_add_left 0 10

/-- With a maximal context length of twelve the assignment returns. -/
theorem setCtxRequestsChunkSize_trims_reusedPrompt :
    AssignsChunks [reusedPrompt] .kFIRST_COME_FIRST_SERVED (some 7) 4 (some 12) :=
  (setCtxRequestsChunkSize_trims_iff [reusedPrompt] .kFIRST_COME_FIRST_SERVED (some 7)
    (by decide) (fun length h => by cases h; decide) (by decide)).mpr
    fun _ length h => by cases h; decide

/-- With a maximal context length of four, the assignment asks to discard seven draft tokens of the
one there is. -/
theorem setCtxRequestsChunkSize_impossible_trim : reusedPrompt.hasContextChunk = true
      ∧ setCtxRequestsChunkSize [reusedPrompt] .kFIRST_COME_FIRST_SERVED none 4 (some 4) = none
      ∧ ¬ AssignsChunks [reusedPrompt] .kFIRST_COME_FIRST_SERVED none 4 (some 4) := by
  have hnone : setCtxRequestsChunkSize [reusedPrompt] .kFIRST_COME_FIRST_SERVED none 4 (some 4)
      = none := by
    decide
  refine ⟨by decide, hnone, ?_⟩
  rintro ⟨chunked, after, -, hafter, -⟩
  rw [hnone] at hafter
  cases hafter

end MicroBatchScheduler

end TrtLlm
