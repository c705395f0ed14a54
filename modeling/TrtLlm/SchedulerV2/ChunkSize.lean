import TrtLlm.SchedulerV2.Requests
import TrtLlm.Util.Outcome

/-!
The size of the next chunk of a context (`_try_schedule_context_chunked`,
`_align_chunk_to_mm_block`, `_inforward_snapshot_point`, `_pregrown_context_tokens`).

The size is taken from the budget, capped, rounded down to a whole number of units unless it ends
the prompt or reaches a snapshot point, replaced by the chunk a skipped forward has grown already,
and at last moved off the inside of a multimodal block. All of these are computed in the integers.

* `alignChunkToMmBlock_le`: alignment lowers the size, or raises it within the budget;
* `chunkPlan_within`: **the chunk and the replayed tokens fit the budget**.
-/

namespace TrtLlm.SchedulerV2

open Outcome Option

/-! ### Multimodal blocks -/

/-- The first position from `pos` on that is not multimodal, among the next `k`. -/
def blockEnd (cumsum : ℕ → ℤ) : ℕ → ℕ → ℕ
  | 0, pos => pos
  | k + 1, pos => if cumsum pos - cumsum (pos - 1) ≠ 1 then pos else blockEnd cumsum k (pos + 1)

/-- The first position of the multimodal run that ends before `pos`, down to position 1. -/
def runStart (cumsum : ℕ → ℤ) : ℕ → ℕ
  | 0 => 0
  | 1 => 1
  | pos + 2 => if cumsum (pos + 1) - cumsum pos ≠ 1 then pos + 2 else runStart cumsum (pos + 1)

section

variable (cumsum : ℕ → ℤ) (pos : ℕ)

/-- The first position of the run, which may be the first of the prompt. -/
def blockStart : ℕ :=
  if runStart cumsum pos = 1 ∧ cumsum 0 = 1 then 0 else runStart cumsum pos

lemma runStart_le : runStart cumsum pos ≤ pos := by
  fun_induction runStart with
  | case1 => exact le_refl _
  | case2 => exact le_refl _
  | case3 => exact le_refl _
  | case4 pos _ ih => omega

lemma blockStart_le : blockStart cumsum pos ≤ pos := by
  have hrun := runStart_le cumsum pos
  unfold blockStart
  split_ifs <;> omega

/-- Positions `pos - 1` and `pos` are both multimodal. -/
def insideBlock : Bool :=
  cumsum pos - cumsum (pos - 1) = 1
    && (if pos = 1 then cumsum 0 = 1 else cumsum (pos - 1) - cumsum (pos - 2) = 1)

end

/-- Round down to a whole number of units; a unit of zero does not round. -/
def unitFloor (unit : ℕ) (x : ℕ) : ℕ := if 0 < unit then x / unit * unit else x

lemma unitFloor_le (unit x : ℕ) : unitFloor unit x ≤ x := by
  unfold unitFloor
  split_ifs
  · exact Nat.div_mul_le_self x unit
  · exact le_refl x

/-- Round up to a whole number of units, up to the end of the prompt. -/
def unitCeil (unit promptEnd x : ℕ) : ℕ :=
  min (if 0 < unit ∧ x < promptEnd then (x + unit - 1) / unit * unit else x) promptEnd

namespace Iteration

variable {Ω : Type} (t : Iteration Ω)

/-- `max_context_length`, which is `max_num_tokens`. -/
def maxContextLength : Option ℕ := t.config.maxNumTokens

section

variable (w : Ω) (i : ℕ)

/-- `_align_chunk_to_mm_block`; zero asks the caller to skip the request. -/
def alignChunkToMmBlock (chunkSize : ℤ) (remainingBudget : Option ℤ)
    (contextRemaining : ℕ) : Except Raise ℤ :=
  let lo := t.managers.contextCurrentPosition w i
  let promptEnd := lo + contextRemaining
  let endAbs := (lo + chunkSize).toNat
  match (t.req i).mmEmbedMaskCumsum with
  | none => .ok chunkSize
  | some cumsum =>
    if !(t.req i).mmBidirectionalBlocks || promptEnd ≤ endAbs || endAbs = 0
        || !insideBlock cumsum endAbs then .ok chunkSize
    else
      let last := blockEnd cumsum (promptEnd - endAbs) endAbs
      let start := blockStart cumsum endAbs
      if t.maxContextLength.any fun m : ℕ => m < last - start then
        .error .multimodalBlockExceedsLimit
      else
        let up : ℤ := unitCeil t.config.chunkUnitSize promptEnd last - lo
        if remainingBudget.all (up ≤ ·) && t.maxContextLength.all (fun m : ℕ => up ≤ (m : ℤ))
            && up ≤ contextRemaining && chunkSize < up then .ok up
        else
          let down := unitFloor t.config.chunkUnitSize start
          if down ≤ lo then .ok 0 else .ok (down - lo)

/-! ### The parts of the size -/

/-- `_get_forced_context_chunk_size`. -/
def forcedContextChunkSize : ℕ :=
  let pos := t.managers.contextCurrentPosition w i
  match ((t.req i).expectSnapshotPoints.filter (pos < ·)).min? with
  | none => t.contextRemainingLength w i
  | some point => min point (t.req i).promptLen - pos

/-- `_is_forced_context_chunk_boundary`. -/
def isForcedContextChunkBoundary (chunkSize : ℤ) : Bool :=
  let next := t.managers.contextCurrentPosition w i + chunkSize
  (t.req i).promptLen ≤ next || (t.req i).expectSnapshotPoints.any fun p => (p : ℤ) = next

/-- `_inforward_snapshot_point`. -/
def inforwardSnapshotPoint (chunkSize : ℕ) (remainingBudget : Option ℤ) :
    Option ℕ :=
  let r := t.req i
  let pos := t.managers.contextCurrentPosition w i
  let point := pos + chunkSize
  if r.expectSnapshotPoints.getLast? = some point && point < r.promptLen
      && pos + t.contextRemainingLength w i = r.promptLen
      && r.promptLen - point ≤ t.config.inforwardSnapshotMaxTail
      && t.config.inforwardSnapshotMinMain ≤ point - pos
      && remainingBudget.all (fun m => (r.promptLen - pos : ℤ) ≤ m)
      && t.maxContextLength.all (fun m : ℕ => r.promptLen - pos ≤ m)
      && !r.mmBidirectionalBlocks then
    some point
  else none

/-- `_pregrown_context_tokens`. -/
def pregrownContextTokens : ℤ :=
  if t.config.swaScratchReuse then
    (t.managers.capacity w i).elim 0 fun cap =>
      max 0 (min ((cap : ℤ) - t.config.numExtraKvTokens - t.managers.contextCurrentPosition w i)
        (t.contextRemainingLength w i))
  else 0

/-- The tokens replayed before the chunk. -/
def replayTokens : ℕ := (t.managers.contextReplayTokens w i).getD 0

/-- The replayed tokens leave no room for the smallest suffix. -/
def replayTooLong : Bool :=
  let unitSuffix := min (t.contextRemainingLength w i) t.config.chunkUnitSize
  let minimumSuffix :=
    if t.config.forceChunk then min unitSuffix (t.forcedContextChunkSize w i) else unitSuffix
  t.replayTokens w i ≠ 0
    && t.maxContextLength.any fun m : ℕ => (m : ℤ) - t.replayTokens w i < minimumSuffix

end

/-- The tokens left for the request: those of the budget, within the request's own cap. -/
def cappedBudget (b : BudgetTracker) (tokenCap : Option ℤ) : Option ℤ :=
  match tokenCap with
  | none => b.remainingTokens t.config
  | some cap => some ((b.remainingTokens t.config).elim cap (min · cap))

/-- The tokens left for the chunk once the replayed ones are taken off. -/
def suffixBudget (w : Ω) (i : ℕ) (b : BudgetTracker) (tokenCap : Option ℤ) : Option ℤ :=
  (t.cappedBudget b tokenCap).map (· - (t.replayTokens w i : ℤ))

/-! ### The plan of a chunk -/

/-- A chunk before it is clipped to the remaining context, with the snapshot point it passes. -/
structure ChunkPlan where
  size : ℤ
  inforwardPoint : Option ℕ

section

variable (w : Ω) (i : ℕ)

/-- The size asked for, the length it is compared with, and the snapshot point. -/
def requestedChunk (prePrepareRemaining : ℕ) (remainingBudget : Option ℤ)
    (rowsLeft : ℕ) : ℤ × ℕ × Option ℕ :=
  let contextRemaining := t.contextRemainingLength w i
  let hasRecovery := (t.managers.contextReplayTokens w i).isSome
  if t.config.forceChunk then
    let forced := t.forcedContextChunkSize w i
    let point := if 0 < rowsLeft && !hasRecovery then
        t.inforwardSnapshotPoint w i forced remainingBudget
      else none
    (if point.isSome then contextRemaining else forced, contextRemaining, point)
  else
    let whole := if t.config.enablePrefixAwareScheduling || hasRecovery then contextRemaining
      else prePrepareRemaining
    (remainingBudget.elim whole (min · whole), whole, none)

/-- The size capped by the limits and rounded down to whole units. -/
def roundedChunk (requested : ℤ) (whole : ℕ) (remainingBudget : Option ℤ) : ℤ :=
  let limited := t.maxContextLength.elim requested fun m : ℕ =>
    min requested ((m : ℤ) - t.replayTokens w i)
  let budgeted := remainingBudget.elim limited (min limited)
  if budgeted < whole
      ∧ ¬ (t.config.forceChunk && t.isForcedContextChunkBoundary w i budgeted) then
    budgeted / t.config.chunkUnitSize * t.config.chunkUnitSize
  else budgeted

/-- The chunk a skipped forward has grown already is run exactly, and otherwise what the size
comes to is moved off a multimodal block. -/
def settledChunk (rounded : ℤ) (remainingBudget : Option ℤ) : Except Raise ℤ :=
  let pregrown := t.pregrownContextTokens w i
  if 0 < pregrown then .ok (if rounded < pregrown then 0 else pregrown)
  else if rounded ≤ 0 then .ok 0
  else t.alignChunkToMmBlock w i rounded remainingBudget (t.contextRemainingLength w i)

/-- The chunk of a prepared context, none when the request is skipped. -/
def chunkPlan (b : BudgetTracker) (tokenCap : Option ℤ)
    (prePrepareRemaining rowsLeft : ℕ) : Except Raise (Option ChunkPlan) :=
  let remainingBudget := t.suffixBudget w i b tokenCap
  let requested := t.requestedChunk w i prePrepareRemaining remainingBudget rowsLeft
  let rounded := t.roundedChunk w i requested.1 requested.2.1 remainingBudget
  if t.replayTooLong w i then .error .replayCannotProgress
  else if remainingBudget.any (· ≤ 0) then .ok none
  else t.settledChunk w i rounded remainingBudget >>= fun size =>
    .ok (if size ≤ 0 then none else some ⟨size, requested.2.2⟩)

end

/-! ### The chunk stays within the budget -/

variable (w : Ω) (i : ℕ)

/-- **Alignment** lowers the size, or raises it within the budget. -/
theorem alignChunkToMmBlock_le {chunkSize : ℤ} (hpos : 0 < chunkSize)
    (remainingBudget : Option ℤ) (contextRemaining : ℕ) :
    Meets Raise.IsReport (fun a => a ≤ chunkSize ∨ ∀ m, remainingBudget = some m → a ≤ m)
      (t.alignChunkToMmBlock w i chunkSize remainingBudget contextRemaining) := by
  unfold alignChunkToMmBlock
  split
  · exact .inl (le_refl _)
  · rename_i cumsum _
    dsimp only
    split_ifs with hkeep hlimit hup hdown
    · exact .inl (le_refl _)
    · simp [Raise.IsReport]
    · refine .inr fun m hm => ?_
      simp only [hm, all_some, Bool.and_eq_true, decide_eq_true_eq] at hup
      exact hup.1.1.1
    · exact .inl hpos.le
    · refine .inl ?_
      have hrun := blockStart_le cumsum
        (t.managers.contextCurrentPosition w i + chunkSize).toNat
      have hfloor := unitFloor_le t.config.chunkUnitSize (blockStart cumsum
        (t.managers.contextCurrentPosition w i + chunkSize).toNat)
      omega

lemma roundedChunk_le (requested : ℤ) (whole : ℕ) {m : ℤ} (hm : 0 < m) :
    t.roundedChunk w i requested whole (some m) ≤ m := by
  unfold roundedChunk
  dsimp only [elim_some]
  have hfloor : ∀ x : ℤ, x ≤ m → x / t.config.chunkUnitSize * t.config.chunkUnitSize ≤ m := by
    intro x hx
    obtain hunit | hunit := Nat.eq_zero_or_pos t.config.chunkUnitSize
    · simpa [hunit] using hm.le
    · exact (Int.ediv_mul_le x (by omega)).trans hx
  split_ifs
  · exact hfloor _ (min_le_right _ _)
  · exact min_le_right _ _

/-- The settled size does not exceed the rounded one or the budget. -/
lemma settledChunk_le (rounded : ℤ) (remainingBudget : Option ℤ) : Meets Raise.IsReport
      (fun size => 0 < size → size ≤ rounded ∨ ∀ m, remainingBudget = some m → size ≤ m)
      (t.settledChunk w i rounded remainingBudget) := by
  unfold settledChunk
  by_cases hgrown : 0 < t.pregrownContextTokens w i
  · rw [if_pos hgrown, meets_ok]
    split_ifs <;> omega
  · rw [if_neg hgrown]
    split_ifs with hrounded
    · simp
    · exact (t.alignChunkToMmBlock_le w i (by omega) _ _).imp fun a ha _ => ha

/-- The request's share lies within the budget. -/
lemma suffixBudget_le {b : BudgetTracker} (tokenCap : Option ℤ) {m : ℤ}
    (h : b.remainingTokens t.config = some m) :
    ∃ m', t.suffixBudget w i b tokenCap = some m' ∧ m' + t.replayTokens w i ≤ m := by
  cases tokenCap with
  | none => exact ⟨m - t.replayTokens w i, by simp [suffixBudget, cappedBudget, h], by omega⟩
  | some cap =>
    exact ⟨min m cap - t.replayTokens w i, by simp [suffixBudget, cappedBudget, h], by omega⟩

/-- **A chunk and the tokens replayed before it fit the budget.** -/
theorem chunkPlan_within (b : BudgetTracker) (tokenCap : Option ℤ)
    (prePrepareRemaining rowsLeft : ℕ) :
    Meets Raise.IsReport
      (fun p => ∀ plan, p = some plan → 0 < plan.size ∧
        ∀ m, b.remainingTokens t.config = some m → plan.size + t.replayTokens w i ≤ m)
      (t.chunkPlan w i b tokenCap prePrepareRemaining rowsLeft) := by
  unfold chunkPlan
  dsimp only
  split_ifs with hreplay hnone
  · simp [Raise.IsReport]
  · simp
  · refine (t.settledChunk_le w i _ _).bind fun size hsize => ?_
    rw [meets_ok]
    intro plan hplan
    split_ifs at hplan with hpos
    obtain rfl := some_injective _ hplan.symm
    refine ⟨by simpa using hpos, fun m hm => ?_⟩
    obtain ⟨m', hm', hle⟩ := t.suffixBudget_le w i tokenCap hm
    simp only [hm', any_some, decide_eq_true_eq, not_le] at hnone
    have hrounded := t.roundedChunk_le w i
      (t.requestedChunk w i prePrepareRemaining (some m') rowsLeft).1
      (t.requestedChunk w i prePrepareRemaining (some m') rowsLeft).2.1 hnone
    obtain hround | hbudget := hsize (by omega)
    · rw [hm'] at hround
      dsimp only
      omega
    · have := hbudget m' hm'
      dsimp only
      omega

end Iteration

end TrtLlm.SchedulerV2
