import TrtLlm.SchedulerV2.Requests

/-!
Scheduling a generation request, with the two ladders that make room for it
(`_try_schedule_generation`, `_try_evict_for_gen`, `_try_recompute_pause_for_gen`).

Ordinary eviction goes down from `reqItEnd` and lowers it to each victim. Recompute pause has a
frontier of its own; it can also take a request that eviction has suspended already. Every round
of the recompute ladder lowers its frontier, or takes a request off `evicted`, or both, and what
eviction adds to `evicted` it pays for with `reqItEnd`; hence the ladder comes to an end.
-/

namespace TrtLlm.SchedulerV2

open List

/-- `ScheduleAction`. -/
inductive ScheduleAction where
  | scheduled
  | skip
  | stop
deriving DecidableEq, Repr

namespace Iteration

variable {Ω : Type} (t : Iteration Ω)

/-! ### Eviction -/

/-- `_is_evictable`. -/
def isEvictable (v : Victims Ω) (i : ℕ) : Bool :=
  !t.isInflight i && t.isStartedRequest v i && !t.managers.hasPendingLoad v.world i
    && t.managers.isRequestActive v.world i

/-- `_try_allocate_generation`. -/
def tryAllocateGeneration (req : ℕ) (v : Victims Ω) : Bool × Victims Ω :=
  let r := t.managers.tryAllocateGeneration req v.world
  (r.1, { v with world := r.2 })

/-- A victim is suspended for a generation request. -/
def evict (v : Victims Ω) (victim : ℕ) : Victims Ω :=
  { v with
    world := t.managers.suspendRequest victim v.world
    evicted := v.evicted ++ [victim]
    reqItEnd := victim }

/-- The rounds of eviction among the `k` requests behind `req`. The source looks for the last
evictable request below `req_it_end`; since that is where the next round ends, the search goes down
the list once. -/
def evictBelow (req : ℕ) : ℕ → Victims Ω → Bool × Victims Ω
  | 0, v => (false, v)
  | k + 1, v =>
    if t.isEvictable v (req + 1 + k) then
      let r := t.tryAllocateGeneration req (t.evict v (req + 1 + k))
      if r.1 then r else evictBelow req k r.2
    else evictBelow req k v

/-- `_try_evict_for_gen`. -/
def tryEvictForGen (req : ℕ) (v : Victims Ω) : Bool × Victims Ω :=
  t.evictBelow req (v.reqItEnd - (req + 1)) v

/-! ### Recompute pause -/

/-- `_is_recompute_pause_candidate`. -/
def isRecomputePauseCandidate (v : Victims Ω) (i : ℕ) : Bool :=
  !t.isInflight i && !t.managers.hasPendingLoad v.world i
    && t.state v i ≠ .kGENERATION_TO_COMPLETE
    && !(t.isGenerationInProgressState v i && (t.req i).hasMultimodalData)
    && t.isStartedRequest v i

/-- `_preempt_or_defer`. -/
def preemptOrDefer (v : Victims Ω) (victim : ℕ) : Bool × Victims Ω :=
  let r := t.managers.preemptRequest victim v.world
  if r.1 then
    (true, { v with world := r.2, recomputePaused := v.recomputePaused ++ [victim] })
  else (false, { v with world := r.2, parked := v.parked ++ [victim] })

section

variable (req : ℕ) (v : Victims Ω)

/-- The candidate nearest to the frontier from below, among the requests behind `req`. -/
def candidateBelowFrontier : Option ℕ :=
  (range' (req + 1) (v.frontier - (req + 1))).reverse.find? fun i =>
    i ∉ v.victimIndices && (t.config.canEvict || i ∉ v.evicted) && t.isRecomputePauseCandidate v i

/-- The next victim of the recompute ladder. -/
def recomputeVictim : Option ℕ :=
  match t.candidateBelowFrontier req v with
  | some i => some i
  | none => if t.config.canEvict then v.evicted.find? (t.isRecomputePauseCandidate v) else none

/-- A victim is preempted for a generation request. It leaves `evicted` in any case. -/
def pause (victim : ℕ) : Bool × Victims Ω :=
  let r := t.preemptOrDefer { v with evicted := v.evicted.erase victim } victim
  if r.1 then
    (true, { r.2 with
      victimIndices := r.2.victimIndices ++ [victim]
      frontier := min r.2.frontier victim })
  else r

/-- After a pause the allocation is tried again, and ordinary eviction once more. -/
def retryAfterPause : Bool × Victims Ω :=
  let r := t.tryAllocateGeneration req v
  if !r.1 && t.config.canEvict then t.tryEvictForGen req r.2 else r

end

/-- What the recompute ladder uses up. -/
def ladder (v : Victims Ω) : ℕ := v.frontier + 2 * v.reqItEnd + v.evicted.length

variable {i req : ℕ} {v : Victims Ω}

lemma evictBelow_ladder_le (req k : ℕ) (v : Victims Ω) (hk : 0 < k → req + 1 + k ≤ v.reqItEnd) :
    ladder (t.evictBelow req k v).2 ≤ ladder v := by
  induction k generalizing v with
  | zero => exact le_refl _
  | succ k ih =>
    have hend := hk (Nat.succ_pos k)
    simp only [evictBelow]
    split_ifs with hev halloc
    · simp only [tryAllocateGeneration, evict, ladder, length_append, length_singleton]
      omega
    · refine (ih _ fun _ => by simp [tryAllocateGeneration, evict]).trans ?_
      simp only [tryAllocateGeneration, evict, ladder, length_append, length_singleton]
      omega
    · exact ih v fun _ => by omega

lemma tryEvictForGen_ladder_le (req : ℕ) (v : Victims Ω) :
    ladder (t.tryEvictForGen req v).2 ≤ ladder v :=
  t.evictBelow_ladder_le req _ v fun _ => by omega

lemma retryAfterPause_ladder_le (req : ℕ) (v : Victims Ω) :
    ladder (t.retryAfterPause req v).2 ≤ ladder v := by
  simp only [retryAfterPause]
  split_ifs
  · exact t.tryEvictForGen_ladder_le req _
  · exact le_refl _

lemma candidateBelowFrontier_bounds (h : t.candidateBelowFrontier req v = some i) :
    req < i ∧ i < v.frontier := by
  have hmem := mem_of_find?_eq_some h
  rw [mem_reverse, mem_range'_1] at hmem
  omega

lemma recomputeVictim_cases (h : t.recomputeVictim req v = some i) :
    t.candidateBelowFrontier req v = some i ∨
      t.config.canEvict = true ∧ v.evicted.find? (t.isRecomputePauseCandidate v) = some i := by
  unfold recomputeVictim at h
  split at h
  case h_1 j hj => exact .inl (hj.trans h)
  case h_2 =>
    split_ifs at h with hcan
    exact .inr ⟨hcan, h⟩

/-- A pause takes a step down the ladder. -/
lemma pause_ladder_lt (h : t.recomputeVictim req v = some i)
    (hpause : (t.pause v i).1 = true) : ladder (t.pause v i).2 < ladder v := by
  have hshape : ladder (t.pause v i).2
      = min v.frontier i + 2 * v.reqItEnd + (v.evicted.erase i).length := by
    simp only [pause, preemptOrDefer] at hpause ⊢
    split_ifs at hpause ⊢ <;> simp_all [ladder]
  have herase : (v.evicted.erase i).length ≤ v.evicted.length := length_erase_le
  rw [hshape, ladder]
  obtain hscan | ⟨-, hevicted⟩ := t.recomputeVictim_cases h
  · have := (t.candidateBelowFrontier_bounds hscan).2
    omega
  · have hmem := mem_of_find?_eq_some hevicted
    have hpos := length_pos_of_mem hmem
    rw [length_erase_of_mem hmem]
    omega

/-- The rounds of the recompute ladder. -/
def pauseRounds (req : ℕ) (v : Victims Ω) : Bool × Victims Ω :=
  match _ : t.recomputeVictim req v with
  | none => (false, v)
  | some i =>
    if _ : (t.pause v i).1 then
      if (t.retryAfterPause req (t.pause v i).2).1 then
        t.retryAfterPause req (t.pause v i).2
      else pauseRounds req (t.retryAfterPause req (t.pause v i).2).2
    else t.pause v i
termination_by ladder v
decreasing_by
  exact (t.retryAfterPause_ladder_le req _).trans_lt (t.pause_ladder_lt ‹_› ‹_›)

section

variable (req : ℕ) (v : Victims Ω)

/-- `_try_recompute_pause_for_gen`. -/
def tryRecomputePauseForGen : Bool × Victims Ω :=
  if t.config.enableRecomputePause then t.pauseRounds req v else (false, v)

/-! ### Scheduling a generation request -/

/-- The pages for a generation request, by allocation and else by eviction, which helix leaves
out. -/
def allocateOrEvict : Bool × Victims Ω :=
  let r := t.tryAllocateGeneration req v
  if r.1 || t.config.hasCpHelix then r else t.tryEvictForGen req r.2

/-- The pages for a generation request, with both ladders. -/
def makeRoom : Bool × Victims Ω :=
  let r := t.allocateOrEvict req v
  if r.1 then r else t.tryRecomputePauseForGen req r.2

/-- A request that found no room gives its own pages up, unless it is suspended already. -/
def selfEvict : Victims Ω :=
  if t.config.hasCpHelix then v
  else if t.managers.isRequestActive v.world req && !t.managers.hasPendingLoad v.world req then
    { v with
      world := t.managers.suspendRequest req v.world
      evicted := v.evicted ++ [req] }
  else v

end

/-- What an attempt to schedule a generation request returns. -/
structure GenerationAttempt (Ω : Type) where
  action : ScheduleAction
  tokens : ℤ
  scheduledBeamWidth : ℕ
  victims : Victims Ω

/-- `_try_schedule_generation`. -/
def tryScheduleGeneration (req : ℕ) (b : BudgetTracker) (scheduledBeamWidth : ℕ)
    (v : Victims Ω) : Except Raise (GenerationAttempt Ω) :=
  let r := t.req req
  let reqTokens : ℤ := r.beamWidth + r.draftTokenLength
  if !b.canFitTokens t.config reqTokens then .ok ⟨.stop, 0, scheduledBeamWidth, v⟩
  else if scheduledBeamWidth ≠ 0 ∧ scheduledBeamWidth ≠ r.beamWidth then
    .ok ⟨.skip, 0, scheduledBeamWidth, v⟩
  else if !(t.tryAllocateGeneration req v).1 && t.config.hasCpHelix
      && !t.config.enableRecomputePause then
    .error .helixWithoutRecomputePause
  else
    let room := t.makeRoom req v
    if room.1 then .ok ⟨.scheduled, reqTokens, r.beamWidth, room.2⟩
    else .ok ⟨.stop, 0, r.beamWidth, t.selfEvict req room.2⟩

end Iteration

end TrtLlm.SchedulerV2
