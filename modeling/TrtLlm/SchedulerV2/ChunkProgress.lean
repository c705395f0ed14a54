import TrtLlm.SchedulerV2.Context
import TrtLlm.SchedulerV2.MmBlocks

/-!
Repeated chunks of one context whose multimodal blocks stay whole
(`_try_schedule_context_chunked`, `_align_chunk_to_mm_block`).

A pass has the whole `max_context_length` for the context. From a unit boundary, a chunk of as many
whole units as the limit has either ends outside the blocks or is cut in front of the block it ends
in. The check that reports a block compares its bare length with the limit, so a block that starts
in the first unit of the chunk and fits the limit, but not behind the tokens before it, is deferred
in every pass.

* `freshPlan_cases`: what the sizing of a chunk comes to;
* `chunkedPasses_progress`: **when a pass goes on, and when passes reach the end of the context**.
-/

namespace TrtLlm.SchedulerV2

namespace Iteration

variable {Ω : Type} (t : Iteration Ω) (w : Ω) (i : ℕ) (k : EmbedMask)

/-! ### A pass with the whole budget -/

/-- `m` tokens in an iteration, none of them replayed, for a chunk that is neither forced nor
grown already. -/
structure WholeBudget (m : ℕ) : Prop where
  limit : t.config.maxNumTokens = some m
  unforced : t.config.forceChunk = false
  unit_pos : 0 < t.config.chunkUnitSize
  noReplay : t.managers.contextReplayTokens w i = none
  ungrown : t.pregrownContextTokens w i = 0

/-- The length the chunk is compared with. -/
def wholeLength (prePrepareRemaining : ℕ) : ℕ :=
  if t.config.enablePrefixAwareScheduling then t.contextRemainingLength w i
  else prePrepareRemaining

/-- The chunk of a pass that nothing else has taken tokens in, none without the budget for one. -/
def freshPlan (prePrepareRemaining rowsLeft : ℕ) : Except Raise (Option ChunkPlan) :=
  if t.hasContextChunkBudget {} then t.chunkPlan w i {} none prePrepareRemaining rowsLeft
  else .ok none

/-- The limit has a unit; and it has the rest of the context, or a block that its last whole unit
ends in starts at least one unit further on or is longer than the limit. -/
def CanAdvance (m : ℕ) : Prop :=
  let lo := t.managers.contextCurrentPosition w i
  let unit := t.config.chunkUnitSize
  unit ≤ m ∧ (t.contextRemainingLength w i ≤ m ∨ ∀ r ∈ k.runs, r.1 < lo + unitFloor unit m →
    lo + unitFloor unit m < r.2 →
      lo + unit ≤ r.1 ∨ m < min r.2 (lo + t.contextRemainingLength w i) - r.1)

/-- The chunk before it is moved off the blocks. -/
def unalignedChunk (prePrepareRemaining m : ℕ) : ℕ :=
  if t.wholeLength w i prePrepareRemaining ≤ m then t.wholeLength w i prePrepareRemaining
  else unitFloor t.config.chunkUnitSize m

variable {t w i k}

namespace WholeBudget

variable {m : ℕ} (hb : t.WholeBudget w i m) (prePrepareRemaining rowsLeft : ℕ)
include hb

lemma replayTokens_eq : t.replayTokens w i = 0 := by
  simp [replayTokens, hb.noReplay]

lemma requestedChunk_eq : t.requestedChunk w i prePrepareRemaining (some m) rowsLeft =
      (min (m : ℤ) (t.wholeLength w i prePrepareRemaining),
        t.wholeLength w i prePrepareRemaining, none) := by
  simp [requestedChunk, wholeLength, hb.unforced, hb.noReplay]

lemma roundedChunk_eq : t.roundedChunk w i (min (m : ℤ) (t.wholeLength w i prePrepareRemaining))
      (t.wholeLength w i prePrepareRemaining) (some m)
        = t.unalignedChunk w i prePrepareRemaining m := by
  unfold roundedChunk unalignedChunk
  simp only [maxContextLength, hb.limit, hb.replayTokens_eq, hb.unforced, Option.elim_some,
    Bool.false_and, Bool.false_eq_true, not_false_eq_true, and_true, Nat.cast_zero, sub_zero]
  generalize t.wholeLength w i prePrepareRemaining = whole
  by_cases hle : whole ≤ m
  · rw [if_pos hle, if_neg (by omega)]
    omega
  · rw [if_neg hle, if_pos (by omega), unitFloor, if_pos hb.unit_pos]
    push_cast
    congr 2
    omega

/-- The budget has room for a chunk exactly when the limit has a unit. -/
lemma hasContextChunkBudget_iff : t.hasContextChunkBudget {} ↔ t.config.chunkUnitSize ≤ m := by
  have hpos := hb.unit_pos
  simp only [hasContextChunkBudget, BudgetTracker.remainingTokens, hb.limit, hb.unforced,
    Option.map_some, Option.all_some, Bool.false_or, Bool.and_eq_true, decide_eq_true_eq, sub_zero,
    Nat.cast_le]
  omega

lemma freshPlan_of_lt (hunit : m < t.config.chunkUnitSize) :
    t.freshPlan w i prePrepareRemaining rowsLeft = .ok none :=
  if_neg fun h => absurd (hb.hasContextChunkBudget_iff.1 h) (by omega)

lemma freshPlan_eq (hunit : t.config.chunkUnitSize ≤ m) :
    t.freshPlan w i prePrepareRemaining rowsLeft =
      if t.unalignedChunk w i prePrepareRemaining m = 0 then .ok none
      else t.alignChunkToMmBlock w i (t.unalignedChunk w i prePrepareRemaining m) (some m)
        (t.contextRemainingLength w i) >>= fun size =>
          .ok (if size ≤ 0 then none else some ⟨size, none⟩) := by
  have hsuffix : t.suffixBudget w i {} none = some (m : ℤ) := by
    simp [suffixBudget, cappedBudget, BudgetTracker.remainingTokens, hb.limit, hb.replayTokens_eq]
  have hreplay : t.replayTooLong w i = false := by
    simp [replayTooLong, hb.replayTokens_eq]
  unfold freshPlan chunkPlan
  rw [if_pos (hb.hasContextChunkBudget_iff.2 hunit)]
  dsimp only
  rw [hsuffix, hb.requestedChunk_eq, hb.roundedChunk_eq, hreplay]
  unfold settledChunk
  rw [hb.ungrown]
  simp only [Bool.false_eq_true, if_false, lt_irrefl, Option.any_some, decide_eq_true_eq]
  by_cases hzero : t.unalignedChunk w i prePrepareRemaining m = 0
  · rw [hzero, if_pos rfl, Nat.cast_zero, if_pos (le_refl 0)]
    split_ifs <;> rfl
  · have hlimit : t.unalignedChunk w i prePrepareRemaining m ≤ m := by
      unfold unalignedChunk
      split_ifs with hle
      · exact hle
      · exact unitFloor_le _ _
    rw [if_neg hzero, if_neg (by omega), if_neg (by omega)]

end WholeBudget

/-! ### What a pass does -/

/-- A chunk up to a unit boundary, or up to the end of the context. -/
def ReachesBoundary (t : Iteration Ω) (w : Ω) (i : ℕ) (size : ℤ) : Prop :=
  (t.config.chunkUnitSize : ℤ) ∣ t.managers.contextCurrentPosition w i + size
    ∨ (t.contextRemainingLength w i : ℤ) ≤ size

variable {unit : ℕ}

lemma unitFloor_dvd (hunit : 0 < unit) (x : ℕ) : unit ∣ unitFloor unit x := by
  rw [unitFloor, if_pos hunit]
  exact Nat.dvd_mul_left unit _

lemma lt_unitFloor_add (hunit : 0 < unit) (x : ℕ) : x < unitFloor unit x + unit := by
  rw [unitFloor, if_pos hunit]
  have hdiv := Nat.div_add_mod x unit
  have hmod := Nat.mod_lt x hunit
  rw [mul_comm] at hdiv
  omega

/-- From a boundary on, the last boundary before a position is not past the first exactly when the
position is within the unit. -/
lemma unitFloor_le_iff {lo : ℕ} (hunit : 0 < unit) (hlo : unit ∣ lo) (x : ℕ) :
    unitFloor unit x ≤ lo ↔ x < lo + unit := by
  obtain ⟨q, rfl⟩ := hlo
  rw [unitFloor, if_pos hunit, mul_comm (x / unit), Nat.mul_le_mul_left_iff hunit,
    ← Nat.lt_succ_iff, Nat.succ_eq_add_one, Nat.div_lt_iff_lt_mul hunit, add_one_mul, mul_comm q]

/-- The boundary after a position that lies past another boundary is a unit further on, unless the
context ends before. -/
lemma unitCeil_eq {e promptEnd x : ℕ} (hunit : 0 < unit) (he : unit ∣ e) (hx : e < x)
    (hxp : x ≤ promptEnd) :
    unitCeil unit promptEnd x = promptEnd ∨
      unit ∣ unitCeil unit promptEnd x ∧ e + unit ≤ unitCeil unit promptEnd x := by
  obtain heq | hlt := hxp.eq_or_lt
  · left
    simp [unitCeil, heq]
  · unfold unitCeil
    rw [if_pos ⟨hunit, hlt⟩]
    obtain hle | hgt := le_total promptEnd ((x + unit - 1) / unit * unit)
    · exact .inl (min_eq_right hle)
    · right
      rw [min_eq_left hgt]
      refine ⟨Nat.dvd_mul_left unit _, ?_⟩
      obtain ⟨q, rfl⟩ := he
      have hdiv : q + 1 ≤ (x + unit - 1) / unit := by
        rw [Nat.le_div_iff_mul_le hunit, add_one_mul, mul_comm q]
        omega
      calc unit * q + unit = (q + 1) * unit := by rw [add_one_mul, mul_comm]
        _ ≤ (x + unit - 1) / unit * unit := Nat.mul_le_mul_right unit hdiv

section Pass

variable {m : ℕ} (hk : t.HasBlocks i k) (hb : t.WholeBudget w i m)
  (hlo : t.config.chunkUnitSize ∣ t.managers.contextCurrentPosition w i)
  {prePrepareRemaining : ℕ} (rowsLeft : ℕ)
include hk hb in
/-- A chunk that alignment leaves as it is gets planned. -/
lemma freshPlan_unmoved (hunit : t.config.chunkUnitSize ≤ m) {chunk : ℕ}
    (hchunk : t.unalignedChunk w i prePrepareRemaining m = chunk)
    (hpos : 0 < chunk)
    (hstay : (t.contextRemainingLength w i : ℤ) ≤ chunk
      ∨ ¬ k.Splits (t.managers.contextCurrentPosition w i + chunk)) :
    t.freshPlan w i prePrepareRemaining rowsLeft = .ok (some ⟨chunk, none⟩) := by
  rw [hb.freshPlan_eq _ _ hunit, hchunk, if_neg hpos.ne', alignChunkToMmBlock_unmoved hk _ hstay]
  exact congrArg Except.ok (if_neg (by omega))

include hb hlo

/-- Behind the run that the last whole unit of the limit ends in, only the end of the context can
be near enough. -/
lemma boundaryAfter_spec {r : ℕ × ℕ}
    (hlast : t.managers.contextCurrentPosition w i + unitFloor t.config.chunkUnitSize m < r.2)
    (hend : unitFloor t.config.chunkUnitSize m < t.contextRemainingLength w i) :
    (t.ChunkFits (some m) (t.contextRemainingLength w i)
        (t.boundaryAfter w i (t.contextRemainingLength w i) r
          - t.managers.contextCurrentPosition w i)
      ↔ t.contextRemainingLength w i ≤ m) ∧
    (t.contextRemainingLength w i ≤ m → t.boundaryAfter w i (t.contextRemainingLength w i) r
      = t.managers.contextCurrentPosition w i + t.contextRemainingLength w i) := by
  have hfloor := lt_unitFloor_add hb.unit_pos m
  have hafter := unitCeil_eq (x := min r.2 (t.managers.contextCurrentPosition w i
      + t.contextRemainingLength w i)) hb.unit_pos
    ((Nat.dvd_add_right hlo).2 (unitFloor_dvd hb.unit_pos m)) (by omega) (min_le_right _ _)
  have hle : t.boundaryAfter w i (t.contextRemainingLength w i) r
      ≤ t.managers.contextCurrentPosition w i + t.contextRemainingLength w i := min_le_right _ _
  change t.boundaryAfter w i (t.contextRemainingLength w i) r = _
    ∨ _ ∧ _ ≤ t.boundaryAfter w i (t.contextRemainingLength w i) r at hafter
  have hfits : t.ChunkFits (some m) (t.contextRemainingLength w i)
      (t.boundaryAfter w i (t.contextRemainingLength w i) r
        - t.managers.contextCurrentPosition w i)
      ↔ t.boundaryAfter w i (t.contextRemainingLength w i) r
          ≤ t.managers.contextCurrentPosition w i + m := by
    simp only [ChunkFits, maxContextLength, hb.limit, Option.mem_def, Option.some.injEq, forall_eq']
    omega
  rw [hfits]
  omega

include hk

/-- The last whole unit of the limit ends strictly inside a run. -/
lemma freshPlan_inside (hwhole : ¬ t.wholeLength w i prePrepareRemaining ≤ m)
    (hunit : t.config.chunkUnitSize ≤ m) {r : ℕ × ℕ} (hr : r ∈ k.runs)
    (hstart : r.1 < t.managers.contextCurrentPosition w i + unitFloor t.config.chunkUnitSize m)
    (hlast : t.managers.contextCurrentPosition w i + unitFloor t.config.chunkUnitSize m < r.2)
    (hend : unitFloor t.config.chunkUnitSize m < t.contextRemainingLength w i) :
    (t.CanAdvance w i k m ∧
      (t.freshPlan w i prePrepareRemaining rowsLeft = .error .multimodalBlockExceedsLimit ∨
        ∃ size, t.freshPlan w i prePrepareRemaining rowsLeft = .ok (some ⟨size, none⟩)
          ∧ 0 < size ∧ t.ReachesBoundary w i size)) ∨
    (¬ t.CanAdvance w i k m
      ∧ t.freshPlan w i prePrepareRemaining rowsLeft = .ok none) := by
  have hpos := hb.unit_pos
  have hfloor := unitFloor_le t.config.chunkUnitSize m
  have hfloor' := lt_unitFloor_add hpos m
  have hchunk : t.unalignedChunk w i prePrepareRemaining m = unitFloor t.config.chunkUnitSize m :=
    if_neg hwhole
  have hplan := hb.freshPlan_eq prePrepareRemaining rowsLeft hunit
  rw [hchunk, if_neg (by omega)] at hplan
  have hadvance : t.CanAdvance w i k m ↔
      t.contextRemainingLength w i ≤ m
        ∨ t.managers.contextCurrentPosition w i + t.config.chunkUnitSize ≤ r.1
        ∨ m < min r.2 (t.managers.contextCurrentPosition w i
          + t.contextRemainingLength w i) - r.1 := by
    unfold CanAdvance
    rw [and_iff_right hunit]
    refine or_congr_right ⟨fun h => h r hr hstart hlast, fun h r' hr' hstart' hlast' => ?_⟩
    obtain rfl := EmbedMask.runs_eq_of_touch hr hr' (by omega) (by omega)
    exact h
  have hmoved : t.alignChunkToMmBlock w i (unitFloor t.config.chunkUnitSize m : ℕ) (some m)
      (t.contextRemainingLength w i) = _ :=
    alignChunkToMmBlock_moved hk (some (m : ℤ)) hr (by exact_mod_cast hstart)
      (by exact_mod_cast hlast) (by exact_mod_cast hend)
  obtain ⟨hfits, hafter⟩ := boundaryAfter_spec hb hlo hlast hend
  rw [hmoved] at hplan
  rw [hadvance]
  by_cases hlimit : m < min r.2 (t.managers.contextCurrentPosition w i
      + t.contextRemainingLength w i) - r.1
  · rw [if_pos (by simpa only [maxContextLength, hb.limit, Option.any_some, decide_eq_true_eq])]
      at hplan
    exact .inl ⟨.inr (.inr hlimit), .inl hplan⟩
  rw [if_neg (by simpa only [maxContextLength, hb.limit, Option.any_some, decide_eq_true_eq])]
    at hplan
  by_cases hrem : t.contextRemainingLength w i ≤ m
  · rw [if_pos (hfits.2 hrem), hafter hrem] at hplan
    refine .inl ⟨.inl hrem, .inr ⟨t.contextRemainingLength w i, ?_, by omega, .inr (le_refl _)⟩⟩
    rw [hplan]
    simp only [Nat.cast_add, add_sub_cancel_left]
    exact congrArg _ (if_neg (by omega))
  rw [if_neg (mt hfits.1 hrem)] at hplan
  have hdown := unitFloor_le_iff hpos hlo r.1
  change t.boundaryBefore r ≤ _ ↔ _ at hdown
  by_cases hbefore : t.boundaryBefore r ≤ t.managers.contextCurrentPosition w i
  · rw [if_pos hbefore] at hplan
    exact .inr ⟨by omega, hplan⟩
  · rw [if_neg hbefore] at hplan
    refine .inl ⟨by omega, .inr ⟨t.boundaryBefore r - t.managers.contextCurrentPosition w i, ?_,
      by omega, .inl ?_⟩⟩
    · rw [hplan]
      exact congrArg _ (if_neg (by omega))
    · rw [add_sub_cancel]
      exact_mod_cast unitFloor_dvd hpos r.1

/-- **What a pass does from a unit boundary**: it plans a chunk up to another boundary, reports a
block, or defers the context. It defers exactly when the context cannot advance. -/
theorem freshPlan_cases (hrem : 0 < t.contextRemainingLength w i)
    (hpre : t.contextRemainingLength w i ≤ prePrepareRemaining) :
    (t.CanAdvance w i k m ∧
      (t.freshPlan w i prePrepareRemaining rowsLeft = .error .multimodalBlockExceedsLimit ∨
        ∃ size, t.freshPlan w i prePrepareRemaining rowsLeft = .ok (some ⟨size, none⟩)
          ∧ 0 < size ∧ t.ReachesBoundary w i size)) ∨
    (¬ t.CanAdvance w i k m
      ∧ t.freshPlan w i prePrepareRemaining rowsLeft = .ok none) := by
  have hle : t.contextRemainingLength w i ≤ t.wholeLength w i prePrepareRemaining := by
    unfold wholeLength
    split_ifs
    · exact le_refl _
    · exact hpre
  by_cases hunit : t.config.chunkUnitSize ≤ m
  swap
  · exact .inr ⟨fun h => hunit h.1, hb.freshPlan_of_lt _ _ (not_le.1 hunit)⟩
  by_cases hwhole : t.wholeLength w i prePrepareRemaining ≤ m
  · -- The limit has the rest of the context.
    have hchunk : t.unalignedChunk w i prePrepareRemaining m
        = t.wholeLength w i prePrepareRemaining := if_pos hwhole
    have hend : (t.contextRemainingLength w i : ℤ) ≤ t.wholeLength w i prePrepareRemaining := by
      exact_mod_cast hle
    exact .inl ⟨⟨hunit, .inl (by omega)⟩, .inr ⟨t.wholeLength w i prePrepareRemaining,
      freshPlan_unmoved hk hb rowsLeft hunit hchunk (by omega) (.inl hend), by omega, .inr hend⟩⟩
  have hchunk : t.unalignedChunk w i prePrepareRemaining m = unitFloor t.config.chunkUnitSize m :=
    if_neg hwhole
  have hfloor := unitFloor_le t.config.chunkUnitSize m
  have hfloor' := lt_unitFloor_add hb.unit_pos m
  have hdvd := unitFloor_dvd hb.unit_pos m
  by_cases hstay : (t.contextRemainingLength w i : ℤ) ≤ unitFloor t.config.chunkUnitSize m
      ∨ ¬ k.Splits (t.managers.contextCurrentPosition w i
        + (unitFloor t.config.chunkUnitSize m : ℕ))
  · refine .inl ⟨⟨hunit, ?_⟩, .inr ⟨unitFloor t.config.chunkUnitSize m,
      freshPlan_unmoved hk hb rowsLeft hunit hchunk (by omega) hstay, by omega,
      .inl (by exact_mod_cast (Nat.dvd_add_right hlo).2 hdvd)⟩⟩
    obtain hend | hout := hstay
    · exact .inl (by omega)
    · refine .inr fun r hr hstart hlast => absurd ⟨r, hr, ?_, ?_⟩ hout
      · exact_mod_cast hstart
      · exact_mod_cast hlast
  · obtain ⟨hend, r, hr, hstart, hlast⟩ := by simpa only [not_or, not_not, not_le] using hstay
    exact freshPlan_inside hk hb hlo rowsLeft hwhole hunit hr (by exact_mod_cast hstart)
      (by exact_mod_cast hlast) (by exact_mod_cast hend)

end Pass

/-! ### A pass -/

variable (t i) in
/-- **A pass over a context with the whole budget**: nothing else has taken tokens, the context is
in its phase and gets prepared into the world `w`, and there are pages for its chunk. -/
structure FreshPass (o : ContextOrder) (m : ℕ) (s : Pass Ω) (w : Ω) : Prop
    extends t.WholeBudget w i m where
  untaken : s.budget = {}
  inContext : t.isContextInitState s.victims i
  endsInPrompt : (t.req i).contextEnd ≤ (t.req i).promptLen
  prepared : t.managers.prepareContextPair i s.world = (true, w)
  shrinks : t.contextRemainingLength w i ≤ t.contextRemainingLength s.world i
  pages : ∀ tokens, (t.allocateChunk o i tokens (s.withWorld w)).1 = .scheduled

variable (t i) in
/-- The pass schedules a chunk of this size. -/
def Schedules (o : ContextOrder) (s : Pass Ω) (size : ℕ) : Prop :=
  ∃ tokens chunk flag s', t.tryScheduleContextChunked o i none s
      = .ok (.scheduled tokens chunk flag, s') ∧ chunk.chunkSize = size

variable (t i) in
/-- The pass reports that it cannot go on. -/
def Reports (o : ContextOrder) (s : Pass Ω) : Prop :=
  ∃ e, t.tryScheduleContextChunked o i none s = .error e

variable (t i) in
/-- The pass puts the context off. -/
def Defers (o : ContextOrder) (s : Pass Ω) : Prop :=
  ∃ s', t.tryScheduleContextChunked o i none s = .ok (.skip, s')

section Attempt

variable {m : ℕ} {o : ContextOrder} {s : Pass Ω} (hf : t.FreshPass i o m s w)
include hf

/-- The attempt is the sized chunk. -/
lemma FreshPass.attempt_eq : t.tryScheduleContextChunked o i none s =
    t.freshPlan w i (t.contextRemainingLength s.world i) s.inforwardSnapshotRowsLeft >>=
      fun plan => plan.elim (.ok (.skip, if t.hasContextChunkBudget {} then s.withWorld w else s))
        fun plan => t.scheduleChunk o i plan (s.withWorld w) := by
  unfold tryScheduleContextChunked freshPlan
  rw [hf.untaken, hf.prepared]
  by_cases hbudget : t.hasContextChunkBudget {} = true
  · simp only [hbudget, Bool.not_true, Bool.false_eq_true, if_false, if_true]
  · rw [Bool.not_eq_true] at hbudget
    simp only [hbudget, Bool.not_false, Bool.false_eq_true, if_false, if_true]
    rfl

/-- A planned chunk is set up to the end of the context, and scheduled. -/
lemma FreshPass.schedules {size : ℤ} (hpos : 0 < size) (point : Option ℕ)
    (hplan : t.freshPlan w i (t.contextRemainingLength s.world i) s.inforwardSnapshotRowsLeft
      = .ok (some ⟨size, point⟩)) :
    t.Schedules i o s (min size.toNat (t.contextRemainingLength w i)) := by
  have hphase : t.isContextInitState (s.withWorld w).victims i = true := hf.inContext
  have hend := hf.endsInPrompt
  have hset : t.setContextChunkSize (s.withWorld w).victims i
      (min size (t.contextRemainingLength w i))
        = .ok (min size.toNat (t.contextRemainingLength w i)) := by
    unfold setContextChunkSize
    rw [hphase, Bool.true_or, Bool.true_or, if_pos rfl]
    refine congrArg Except.ok ?_
    rw [Pass.withWorld_victims_world]
    unfold contextRemainingLength
    omega
  unfold Schedules
  rw [hf.attempt_eq, hplan]
  change ∃ tokens chunk flag s', t.scheduleChunk o i ⟨size, point⟩ (s.withWorld w) = _ ∧ _
  unfold scheduleChunk
  dsimp only
  rw [Pass.withWorld_world, hset]
  dsimp only [bind, Except.bind]
  rw [hf.pages]
  exact ⟨_, _, _, _, rfl, rfl⟩

/-- **What a pass does from a unit boundary**: it schedules a chunk up to another boundary, reports
a block, or puts the context off. It puts it off exactly when the context cannot advance. -/
theorem FreshPass.cases (hk : t.HasBlocks i k)
    (hlo : t.config.chunkUnitSize ∣ t.managers.contextCurrentPosition w i)
    (hrem : 0 < t.contextRemainingLength w i) :
    (t.CanAdvance w i k m ∧ (t.Reports i o s ∨ ∃ size, t.Schedules i o s size ∧ 0 < size
      ∧ size ≤ t.contextRemainingLength w i ∧ t.ReachesBoundary w i size)) ∨
    (¬ t.CanAdvance w i k m ∧ t.Defers i o s) := by
  obtain ⟨hcan, herr | ⟨size, hplan, hpos, hreach⟩⟩ | ⟨hcannot, hplan⟩ := freshPlan_cases hk
    hf.toWholeBudget hlo s.inforwardSnapshotRowsLeft hrem hf.shrinks
  · refine .inl ⟨hcan, .inl ⟨.multimodalBlockExceedsLimit, ?_⟩⟩
    rw [hf.attempt_eq, herr]
    rfl
  · refine .inl ⟨hcan, .inr ⟨_, hf.schedules hpos none hplan, by omega, min_le_right _ _, ?_⟩⟩
    unfold ReachesBoundary at hreach ⊢
    obtain hle | hlt := le_or_gt (t.contextRemainingLength w i : ℤ) size
    · exact .inr (by omega)
    · rw [min_eq_left (by omega), Int.toNat_of_nonneg hpos.le]
      exact hreach
  · refine .inr ⟨hcannot, if t.hasContextChunkBudget {} then s.withWorld w else s, ?_⟩
    rw [hf.attempt_eq, hplan]
    rfl

end Attempt

/-! ### Repeated passes -/

variable (t i) in
/-- The passes over one context, each from the world that the context is prepared into: the position
goes on by the chunk that was scheduled, and stays when the context was put off. -/
structure Passes (o : ContextOrder) (m : ℕ) (s : ℕ → Pass Ω) (w : ℕ → Ω) : Prop where
  fresh : ∀ n, t.FreshPass i o m (s n) (w n)
  advance : ∀ n size, t.Schedules i o (s n) size →
    t.managers.contextCurrentPosition (w (n + 1)) i
      = t.managers.contextCurrentPosition (w n) i + size
  defer : ∀ n, t.Defers i o (s n) →
    t.managers.contextCurrentPosition (w (n + 1)) i = t.managers.contextCurrentPosition (w n) i

section Run

variable {m : ℕ} {o : ContextOrder} (hk : t.HasBlocks i k) {s : ℕ → Pass Ω} {w : ℕ → Ω}
  (hp : t.Passes i o m s w)
include hk hp

/-- A pass that can advance and reports nothing leaves less of the context, from a boundary on. -/
lemma Passes.step {n : ℕ} (hrem : 0 < t.contextRemainingLength (w n) i)
    (hlo : t.config.chunkUnitSize ∣ t.managers.contextCurrentPosition (w n) i)
    (hcan : t.CanAdvance (w n) i k m) (hno : ¬ t.Reports i o (s n)) :
    t.contextRemainingLength (w (n + 1)) i < t.contextRemainingLength (w n) i ∧
      (0 < t.contextRemainingLength (w (n + 1)) i →
        t.config.chunkUnitSize ∣ t.managers.contextCurrentPosition (w (n + 1)) i) := by
  obtain ⟨-, herr | ⟨size, hsched, hpos, hle, hreach⟩⟩ | ⟨hcannot, -⟩ :=
    (hp.fresh n).cases hk hlo hrem
  · exact absurd herr hno
  · have hnext := hp.advance n _ hsched
    unfold ReachesBoundary at hreach
    unfold contextRemainingLength at hrem hle hreach ⊢
    refine ⟨by omega, fun hleft => ?_⟩
    obtain hdvd | hend := hreach
    · rw [hnext]
      exact_mod_cast hdvd
    · omega
  · exact absurd hcan hcannot

/-- **Passes over one context.** From a unit boundary, a pass schedules a chunk or reports a block
exactly when the context can advance. Passes that can all advance reach the end of the context or
report a block, after no more passes than there were tokens left. -/
theorem chunkedPasses_progress
    (hlo : t.config.chunkUnitSize ∣ t.managers.contextCurrentPosition (w 0) i) :
    (∀ n, 0 < t.contextRemainingLength (w n) i →
      t.config.chunkUnitSize ∣ t.managers.contextCurrentPosition (w n) i →
        (t.Reports i o (s n) ∨ (∃ size, 0 < size ∧ t.Schedules i o (s n) size)
          ↔ t.CanAdvance (w n) i k m)) ∧
    ((∀ n, (∀ j < n, ¬ t.Reports i o (s j)) → 0 < t.contextRemainingLength (w n) i →
        t.CanAdvance (w n) i k m) →
      ∃ n ≤ t.contextRemainingLength (w 0) i,
        t.contextRemainingLength (w n) i = 0 ∨ t.Reports i o (s n)) := by
  constructor
  · intro n hrem hdvd
    obtain ⟨hcan, herr | ⟨size, hsched, hpos, -⟩⟩ | ⟨hcannot, s', hskip⟩ :=
      (hp.fresh n).cases hk hdvd hrem
    · exact iff_of_true (.inl herr) hcan
    · exact iff_of_true (.inr ⟨size, hpos, hsched⟩) hcan
    · refine iff_of_false ?_ hcannot
      rintro (⟨e, he⟩ | ⟨size, -, tokens, chunk, flag, s'', hsched, -⟩)
      · exact nomatch hskip.symm.trans he
      · exact nomatch hskip.symm.trans hsched
  · intro hcan
    by_contra hnever
    push Not at hnever
    -- The passes go on for as long as there are tokens left at the start, one token or more each.
    have hrun : ∀ n ≤ t.contextRemainingLength (w 0) i,
        t.contextRemainingLength (w n) i + n ≤ t.contextRemainingLength (w 0) i
          ∧ t.config.chunkUnitSize ∣ t.managers.contextCurrentPosition (w n) i := by
      intro n
      induction n with
      | zero => exact fun _ => ⟨le_refl _, hlo⟩
      | succ n ih =>
        intro hn
        obtain ⟨hle, hdvd⟩ := ih (by omega)
        have hrem := Nat.pos_of_ne_zero (hnever n (by omega)).1
        obtain ⟨hless, hnext⟩ := Passes.step hk hp hrem hdvd
          (hcan n (fun j hj => (hnever j (by omega)).2) hrem) (hnever n (by omega)).2
        exact ⟨by omega, hnext (Nat.pos_of_ne_zero (hnever (n + 1) hn).1)⟩
    have hlast := (hrun _ (le_refl _)).1
    exact (hnever _ (le_refl _)).1 (by omega)

end Run

end Iteration

/-- A pass in which only the context at this position has come. -/
def Pass.atPosition (w : ℕ) : Pass ℕ where
  victims := { world := w, reqItEnd := 1, frontier := 1 }

/-- The order of one context. -/
def ContextOrder.single : ContextOrder where
  arrivalCtx := [0]
  pendingCtx := [0]
  demotedIds := []
  prefixWaits := fun _ => none
  deferRemoteTailContext := false
  exclusiveRemoteMode := none

lemma Iteration.ofMask_freshPass (k : EmbedMask) {limit promptLen w : ℕ} :
    (Iteration.ofMask k limit promptLen).FreshPass 0 .single limit (Pass.atPosition w) w where
  limit := rfl
  unforced := rfl
  unit_pos := Nat.succ_pos 3
  noReplay := rfl
  ungrown := rfl
  untaken := rfl
  inContext := rfl
  endsInPrompt := le_refl _
  prepared := rfl
  shrinks := le_refl _
  pages := fun _ => rfl

/-- The theorem at one image and eight tokens a pass: two passes reach the end. -/
theorem chunkedPasses_progress_oneImage :
    ∃ n ≤ 12, (Iteration.ofMask .oneImage 8 12).contextRemainingLength (min (8 * n) 12) 0 = 0
      ∨ (Iteration.ofMask .oneImage 8 12).Reports 0 .single (Pass.atPosition (min (8 * n) 12)) := by
  have hend : ∀ n, min (8 * (n + 2)) 12 = 12 := fun n => min_eq_right (by omega)
  have hpasses : (Iteration.ofMask .oneImage 8 12).Passes 0 .single 8
      (fun n => Pass.atPosition (min (8 * n) 12)) (fun n => min (8 * n) 12) := by
    refine ⟨fun n => Iteration.ofMask_freshPass _, ?_, ?_⟩
    · rintro n size ⟨tokens, chunk, flag, s', h, rfl⟩
      obtain _ | _ | n := n
      · injection h with h
        injection h with h
        injection h with _ hchunk
        exact hchunk ▸ rfl
      · injection h with h
        injection h with h
        injection h with _ hchunk
        exact hchunk ▸ rfl
      · simp only [hend] at h
        injection h with h
        injection h with h
        cases h
    · rintro n ⟨s', h⟩
      obtain _ | _ | n := n
      · injection h with h
        injection h with h
        cases h
      · injection h with h
        injection h with h
        cases h
      · exact (hend (n + 1)).trans (hend n).symm
  refine (Iteration.chunkedPasses_progress (Iteration.ofMask_hasBlocks .oneImage 8 12) hpasses
    (by decide)).2 fun n _ hrem => ⟨by decide, ?_⟩
  obtain _ | _ | n := n
  · exact .inr (by decide)
  · exact .inl (by decide)
  · have hleft : 0 < 12 - min (8 * (n + 2)) 12 := hrem
    omega

/-- An image of eight tokens behind one other token. -/
def EmbedMask.wideImage : EmbedMask := ⟨[(1, 9)], by decide, by decide⟩

/-- **A block that fits the limit may be deferred in every pass**: eight tokens behind another one
are no longer than eight tokens, but a chunk that starts in front of both does not hold them. -/
theorem chunkedPasses_stuck : (Iteration.ofMask .wideImage 8 16).HasBlocks 0 .wideImage
      ∧ ¬ EmbedMask.wideImage.mask 0
      ∧ (Iteration.ofMask .wideImage 8 16).Passes 0 .single 8 (fun _ => Pass.atPosition 0)
        (fun _ => 0)
      ∧ (Iteration.ofMask .wideImage 8 16).Defers 0 .single (Pass.atPosition 0)
      ∧ ¬ (Iteration.ofMask .wideImage 8 16).Reports 0 .single (Pass.atPosition 0)
      ∧ (Iteration.ofMask .wideImage 8 16).contextRemainingLength 0 0 ≠ 0 := by
  obtain ⟨s, hskip⟩ : ∃ s, (Iteration.ofMask .wideImage 8 16).tryScheduleContextChunked .single 0
      none (Pass.atPosition 0) = .ok (.skip, s) := ⟨_, rfl⟩
  refine ⟨Iteration.ofMask_hasBlocks _ _ _, by decide,
    ⟨fun _ => Iteration.ofMask_freshPass _, ?_, fun _ _ => rfl⟩, ⟨s, hskip⟩, ?_, by decide⟩
  · rintro n size ⟨tokens, chunk, flag, s', h, -⟩
    exact nomatch hskip.symm.trans h
  · rintro ⟨e, he⟩
    exact nomatch hskip.symm.trans he

end TrtLlm.SchedulerV2
