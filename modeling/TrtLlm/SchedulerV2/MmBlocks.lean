import TrtLlm.SchedulerV2.ChunkSize

/-!
Chunks and multimodal blocks (`_align_chunk_to_mm_block`).

The embedding mask of a prompt is given by its longest runs, with at least one ordinary token
between any two. The scheduler sees its inclusive cumulative sum only. Around a boundary strictly
inside a run it finds that run and no other, and the end it moves to is rounded to the chunk unit,
which may reach the inside of a neighbouring run.

* `EmbedMask.insideBlock_iff`: the three-entry test finds the boundaries inside a run;
* `EmbedMask.blockEnd_eq`, `EmbedMask.blockStart_eq`: the two walks find the bounds of the run;
* `alignChunkToMmBlock_keeps_iff`: **when alignment keeps every block whole**.
-/

namespace TrtLlm.SchedulerV2

open List

/-! ### The mask -/

/-- A multimodal embedding mask, as the half-open runs of multimodal positions. -/
structure EmbedMask where
  runs : List (ℕ × ℕ)
  nonempty : ∀ r ∈ runs, r.1 < r.2
  separated : runs.Pairwise fun r r' => r.2 < r'.1

namespace EmbedMask

variable (k : EmbedMask)

/-- The position is multimodal. -/
def mask (p : ℕ) : Bool := k.runs.any fun r => r.1 ≤ p && p < r.2

/-- `multimodal_embed_mask_cumsum`, which includes the position itself. -/
def cumsum (p : ℕ) : ℤ := (range (p + 1)).countP k.mask

/-- A boundary in front of position `p` lies strictly inside a run. -/
def Splits (p : ℤ) : Prop := ∃ r ∈ k.runs, (r.1 : ℤ) < p ∧ p < r.2

instance (p : ℤ) : Decidable (k.Splits p) := inferInstanceAs (Decidable (∃ r ∈ k.runs, _))

variable {k}

lemma mask_iff {p : ℕ} : k.mask p ↔ ∃ r ∈ k.runs, r.1 ≤ p ∧ p < r.2 := by
  simp [mask]

/-- Two runs with no gap between them are one. -/
lemma runs_eq_of_touch {r r' : ℕ × ℕ} (hr : r ∈ k.runs) (hr' : r' ∈ k.runs) (hle : r'.1 ≤ r.2)
    (hle' : r.1 ≤ r'.2) : r = r' := by
  have happart : k.runs.Pairwise fun r r' => r ≠ r' → r.2 < r'.1 ∨ r'.2 < r.1 :=
    k.separated.imp fun h _ => .inl h
  have : Std.Symm fun r r' : ℕ × ℕ => r ≠ r' → r.2 < r'.1 ∨ r'.2 < r.1 :=
    ⟨fun _ _ h hne => (h hne.symm).symm⟩
  by_contra hne
  have := happart.forall hr hr' hne hne
  omega

lemma cumsum_zero : k.cumsum 0 = if k.mask 0 then 1 else 0 := by
  by_cases h : k.mask 0 <;> simp [cumsum, h]

lemma cumsum_succ (p : ℕ) : k.cumsum (p + 1) = k.cumsum p + if k.mask (p + 1) then 1 else 0 := by
  unfold cumsum
  rw [range_succ (n := p + 1), countP_append, countP_singleton]
  push_cast
  rfl

lemma cumsum_diff_eq_one_iff {p : ℕ} (hp : 0 < p) :
    k.cumsum p - k.cumsum (p - 1) = 1 ↔ k.mask p := by
  obtain ⟨p, rfl⟩ := Nat.exists_eq_succ_of_ne_zero hp.ne'
  rw [Nat.succ_eq_add_one, Nat.add_sub_cancel, cumsum_succ]
  by_cases h : k.mask (p + 1) <;> simp [h]

lemma cumsum_zero_eq_one_iff : k.cumsum 0 = 1 ↔ k.mask 0 := by
  rw [cumsum_zero]
  by_cases h : k.mask 0 <;> simp [h]

/-! ### One run -/

section Run

variable {r : ℕ × ℕ} (hr : r ∈ k.runs)
include hr

variable {p : ℕ}

lemma mask_of_mem (hp : r.1 ≤ p) (hp' : p < r.2) : k.mask p := mask_iff.2 ⟨r, hr, hp, hp'⟩

/-- The position after a run is an ordinary one. -/
lemma not_mask_last : ¬ k.mask r.2 := by
  intro h
  obtain ⟨r', hr', hle, hlt⟩ := mask_iff.1 h
  have hrun := k.nonempty r hr
  obtain rfl := runs_eq_of_touch hr hr' hle (by omega)
  omega

/-- The position in front of a run is an ordinary one. -/
lemma not_mask_pred (hpos : 0 < r.1) : ¬ k.mask (r.1 - 1) := by
  intro h
  obtain ⟨r', hr', hle, hlt⟩ := mask_iff.1 h
  have hrun := k.nonempty r hr
  obtain rfl := runs_eq_of_touch hr hr' (by omega) (by omega)
  omega

/-- The forward walk stops at the end of the run, or where the context ends. -/
lemma blockEnd_eq (n : ℕ) (hp : r.1 < p) (hp' : p ≤ r.2) :
    blockEnd k.cumsum n p = min r.2 (p + n) := by
  induction n generalizing p with
  | zero => simp [blockEnd, hp']
  | succ n ih =>
    rw [blockEnd]
    obtain hlt | rfl := hp'.lt_or_eq
    · have hmask := (cumsum_diff_eq_one_iff (by omega)).2 (mask_of_mem hr hp.le hlt)
      rw [if_neg (not_not.2 hmask), ih (by omega) hlt, Nat.succ_add_eq_add_succ]
    · have hmask := mt (cumsum_diff_eq_one_iff (by omega)).1 (not_mask_last hr)
      rw [if_pos hmask, min_eq_left (by omega)]

/-- The backward walk stops at the start of the run, or at position 1. -/
lemma runStart_eq (hpos : 0 < p) (hp : r.1 ≤ p) (hp' : p ≤ r.2) :
    runStart k.cumsum p = max r.1 1 := by
  fun_induction runStart with
  | case1 => omega
  | case2 => omega
  | case3 p hstop =>
    have hmask := mt (cumsum_diff_eq_one_iff (k := k) (p := p + 1) (by omega)).2 hstop
    by_contra hne
    exact hmask (mask_of_mem hr (by omega) (by omega))
  | case4 p hgo ih =>
    have hmask := (cumsum_diff_eq_one_iff (k := k) (p := p + 1) (by omega)).1 (not_not.1 hgo)
    refine ih (by omega) ?_ (by omega)
    by_contra hlt
    obtain heq : r.1 - 1 = p + 1 := by omega
    exact not_mask_pred hr (by omega) (heq ▸ hmask)

lemma blockStart_eq (hp : r.1 < p) (hp' : p ≤ r.2) : blockStart k.cumsum p = r.1 := by
  unfold blockStart
  rw [runStart_eq hr (by omega) hp.le hp']
  obtain hzero | hone | hbig : r.1 = 0 ∨ r.1 = 1 ∨ 1 < r.1 := by omega
  · have hmask := cumsum_zero_eq_one_iff.2 (mask_of_mem hr (p := 0) (by omega) (by omega))
    simp [hzero, hmask]
  · have hmask := not_mask_pred hr (by omega)
    rw [hone, ← cumsum_zero_eq_one_iff] at hmask
    simp [hone, hmask]
  · rw [if_neg (by omega)]
    omega

end Run

/-! ### The test for a boundary inside a run -/

/-- **The three-entry test** finds the boundaries strictly inside a run. -/
lemma insideBlock_iff (p : ℕ) : insideBlock k.cumsum p ↔ k.Splits p := by
  have hpair : insideBlock k.cumsum p ↔ 0 < p ∧ k.mask p ∧ k.mask (p - 1) := by
    obtain rfl | hp := Nat.eq_zero_or_pos p
    · simp [insideBlock]
    · obtain rfl | hone := eq_or_ne p 1
      · simp [insideBlock, ← cumsum_diff_eq_one_iff (k := k) one_pos, cumsum_zero_eq_one_iff]
      · have hdiff := cumsum_diff_eq_one_iff (k := k) (p := p - 1) (by omega)
        rw [Nat.sub_sub] at hdiff
        simp [insideBlock, cumsum_diff_eq_one_iff hp, hdiff, hone, hp]
  rw [hpair]
  constructor
  · rintro ⟨hp, hmask, hmask'⟩
    obtain ⟨r, hr, hle, hlt⟩ := mask_iff.1 hmask
    obtain ⟨r', hr', hle', hlt'⟩ := mask_iff.1 hmask'
    obtain rfl := runs_eq_of_touch hr hr' (by omega) (by omega)
    exact ⟨r, hr, by omega, by omega⟩
  · rintro ⟨r, hr, hlt, hlt'⟩
    exact ⟨by omega, mask_of_mem hr (by omega) (by omega), mask_of_mem hr (by omega) (by omega)⟩

end EmbedMask

namespace Iteration

variable {Ω : Type} (t : Iteration Ω) (w : Ω) (i : ℕ) (k : EmbedMask)

/-! ### What alignment does -/

/-- The request has bidirectional blocks, and `k` is its mask. -/
structure HasBlocks : Prop where
  bidirectional : (t.req i).mmBidirectionalBlocks
  cumsum : (t.req i).mmEmbedMaskCumsum = some k.cumsum

/-- The chunk is within the budget, `max_context_length` and the remaining context. -/
def ChunkFits (remainingBudget : Option ℤ) (contextRemaining : ℕ) (a : ℤ) : Prop :=
  (∀ m ∈ remainingBudget, a ≤ m) ∧ (∀ m ∈ t.maxContextLength, a ≤ (m : ℤ)) ∧ a ≤ contextRemaining

instance (remainingBudget : Option ℤ) (contextRemaining : ℕ) (a : ℤ) :
    Decidable (t.ChunkFits remainingBudget contextRemaining a) :=
  inferInstanceAs (Decidable (_ ∧ _))

/-- The first unit boundary after a run, up to the end of the context. -/
def boundaryAfter (contextRemaining : ℕ) (r : ℕ × ℕ) : ℕ :=
  let promptEnd := t.managers.contextCurrentPosition w i + contextRemaining
  unitCeil t.config.chunkUnitSize promptEnd (min r.2 promptEnd)

/-- The last unit boundary before a run. -/
def boundaryBefore (r : ℕ × ℕ) : ℕ := unitFloor t.config.chunkUnitSize r.1

end Iteration

lemma le_unitCeil (unit : ℕ) {promptEnd x : ℕ} (hx : x ≤ promptEnd) :
    x ≤ unitCeil unit promptEnd x := by
  unfold unitCeil
  refine le_min ?_ hx
  split_ifs with hunit
  · have hdiv := Nat.div_add_mod (x + unit - 1) unit
    have hmod := Nat.mod_lt (x + unit - 1) hunit.1
    rw [mul_comm] at hdiv
    omega
  · exact le_refl x

namespace Iteration

variable {Ω : Type} {t : Iteration Ω} {w : Ω} {i : ℕ} {k : EmbedMask}

/-- An end outside the runs stays, and so does one that reaches the end of the context. -/
lemma alignChunkToMmBlock_unmoved (hb : t.HasBlocks i k) {chunkSize : ℤ}
    (remainingBudget : Option ℤ) {contextRemaining : ℕ}
    (h : (contextRemaining : ℤ) ≤ chunkSize
      ∨ ¬ k.Splits (t.managers.contextCurrentPosition w i + chunkSize)) :
    t.alignChunkToMmBlock w i chunkSize remainingBudget contextRemaining = .ok chunkSize := by
  unfold alignChunkToMmBlock
  rw [hb.cumsum]
  dsimp only
  rw [if_pos]
  simp only [Bool.or_eq_true, Bool.not_eq_true', decide_eq_true_eq]
  obtain hend | hout := h
  · exact .inl (.inl (.inr (by omega)))
  · obtain hzero | hpos := Nat.eq_zero_or_pos
      (t.managers.contextCurrentPosition w i + chunkSize).toNat
    · exact .inl (.inr hzero)
    · refine .inr (Bool.eq_false_iff.2 fun hin => hout ?_)
      have := (EmbedMask.insideBlock_iff _).1 hin
      rwa [Int.toNat_of_nonneg (by omega)] at this

/-- An end strictly inside a run moves to the first unit boundary after the run when that fits, and
otherwise to the last one before it. -/
lemma alignChunkToMmBlock_moved (hb : t.HasBlocks i k) {chunkSize : ℤ}
    (remainingBudget : Option ℤ) {contextRemaining : ℕ} {r : ℕ × ℕ} (hr : r ∈ k.runs)
    (hstart : r.1 < t.managers.contextCurrentPosition w i + chunkSize)
    (hlast : t.managers.contextCurrentPosition w i + chunkSize < r.2)
    (hend : chunkSize < contextRemaining) :
    t.alignChunkToMmBlock w i chunkSize remainingBudget contextRemaining =
      let lo := t.managers.contextCurrentPosition w i
      if t.maxContextLength.any fun m : ℕ => m < min r.2 (lo + contextRemaining) - r.1 then
        .error .multimodalBlockExceedsLimit
      else if t.ChunkFits remainingBudget contextRemaining
          (t.boundaryAfter w i contextRemaining r - lo) then
        .ok (t.boundaryAfter w i contextRemaining r - lo)
      else if t.boundaryBefore r ≤ lo then .ok 0 else .ok (t.boundaryBefore r - lo) := by
  unfold alignChunkToMmBlock boundaryAfter
  rw [hb.cumsum]
  dsimp only
  generalize t.managers.contextCurrentPosition w i = lo at hstart hlast ⊢
  obtain ⟨e, he⟩ : ∃ e : ℕ, lo + chunkSize = e := ⟨(lo + chunkSize).toNat, by omega⟩
  have hafter : blockEnd k.cumsum (lo + contextRemaining - e) e
      = min r.2 (lo + contextRemaining) := by
    rw [EmbedMask.blockEnd_eq hr _ (by omega) (by omega)]
    congr 1
    omega
  have hbefore := EmbedMask.blockStart_eq (k := k) hr (p := e) (by omega) (by omega)
  rw [he, Int.toNat_natCast, if_neg, hafter, hbefore]
  · have hup := le_unitCeil t.config.chunkUnitSize (min_le_right r.2 (lo + contextRemaining))
    have hfits : ∀ up : ℤ, chunkSize < up →
        ((remainingBudget.all (up ≤ ·) && t.maxContextLength.all (fun m : ℕ => up ≤ (m : ℤ))
          && up ≤ contextRemaining && chunkSize < up) = true
            ↔ t.ChunkFits remainingBudget contextRemaining up) := by
      intro up hlt
      simp [ChunkFits, hlt, and_assoc, Option.all_eq_true]
    generalize unitCeil t.config.chunkUnitSize _ _ = last at hup ⊢
    have hiff := hfits (last - lo) (by omega)
    simp only [hiff]
    rfl
  · have hin := (EmbedMask.insideBlock_iff (k := k) e).2 ⟨r, hr, by omega, by omega⟩
    simp only [hb.bidirectional, hin, Bool.not_true, Bool.false_or, Bool.or_false, Bool.or_eq_true,
      decide_eq_true_eq]
    omega

/-! ### When blocks stay whole -/

variable (t w i k) in
/-- A positive size that alignment returns ends strictly inside no run and fits. -/
def KeepsBlocks (chunkSize : ℤ) (remainingBudget : Option ℤ) (contextRemaining : ℕ) : Prop :=
  ∀ a, t.alignChunkToMmBlock w i chunkSize remainingBudget contextRemaining = .ok a → 0 < a →
    ¬ k.Splits (t.managers.contextCurrentPosition w i + a)
      ∧ t.ChunkFits remainingBudget contextRemaining a

variable (t w i k) in
/-- The first unit boundary after the run is not inside another one when the chunk up to there
fits, and otherwise the last unit boundary before the run is not, and a chunk up to it fits. A
boundary that is not past the position does not matter. -/
def MovesClear (remainingBudget : Option ℤ) (contextRemaining : ℕ) (r : ℕ × ℕ) : Prop :=
  let lo := t.managers.contextCurrentPosition w i
  let after := t.boundaryAfter w i contextRemaining r
  let before := t.boundaryBefore r
  if t.ChunkFits remainingBudget contextRemaining (after - lo) then lo < after → ¬ k.Splits after
  else lo < before → ¬ k.Splits before ∧ t.ChunkFits remainingBudget contextRemaining (before - lo)

/-- The run the chunk ends in can be held by a chunk, and then the boundary moved to is clear. -/
lemma keepsBlocks_iff_of_mem (hb : t.HasBlocks i k) {chunkSize : ℤ}
    (remainingBudget : Option ℤ) {contextRemaining : ℕ} {r : ℕ × ℕ} (hr : r ∈ k.runs)
    (hstart : r.1 < t.managers.contextCurrentPosition w i + chunkSize)
    (hlast : t.managers.contextCurrentPosition w i + chunkSize < r.2)
    (hend : chunkSize < contextRemaining) :
    t.KeepsBlocks w i k chunkSize remainingBudget contextRemaining ↔
      ((∀ m ∈ t.maxContextLength,
          min r.2 (t.managers.contextCurrentPosition w i + contextRemaining) - r.1 ≤ m) →
        t.MovesClear w i k remainingBudget contextRemaining r) := by
  unfold KeepsBlocks MovesClear
  rw [alignChunkToMmBlock_moved hb remainingBudget hr hstart hlast hend]
  dsimp only
  generalize t.managers.contextCurrentPosition w i = lo
  have hany : t.maxContextLength.any (fun m : ℕ => m < min r.2 (lo + contextRemaining) - r.1)
      ↔ ¬ ∀ m ∈ t.maxContextLength, min r.2 (lo + contextRemaining) - r.1 ≤ m := by
    simp only [Option.any_eq_true, Option.mem_def, decide_eq_true_eq, not_forall, not_le,
      exists_prop]
  by_cases hlimit : ∀ m ∈ t.maxContextLength, min r.2 (lo + contextRemaining) - r.1 ≤ m
  · rw [if_neg fun h => hany.1 h hlimit, forall_prop_of_true hlimit]
    split_ifs with hup hdown
    · simp only [Except.ok.injEq, forall_eq', Int.sub_pos, Nat.cast_lt, hup, and_true,
        add_sub_cancel]
    · simp [Nat.not_lt.2 hdown]
    · simp only [Except.ok.injEq, forall_eq', Int.sub_pos, Nat.cast_lt, add_sub_cancel]
  · rw [if_pos (hany.2 hlimit)]
    exact ⟨fun _ h => absurd h hlimit, fun _ _ h => nomatch h⟩

variable (t w i k) in
/-- A size whose end is not moved fits and leaves the blocks whole as it is. The unit
boundaries next to a run that the end is strictly inside of are clear, unless the run is longer
than any chunk. -/
def BoundariesClear (chunkSize : ℤ) (remainingBudget : Option ℤ) (contextRemaining : ℕ) : Prop :=
  let lo := t.managers.contextCurrentPosition w i
  (((contextRemaining : ℤ) ≤ chunkSize ∨ ¬ k.Splits (lo + chunkSize)) → 0 < chunkSize →
    ¬ k.Splits (lo + chunkSize) ∧ t.ChunkFits remainingBudget contextRemaining chunkSize) ∧
  ∀ r ∈ k.runs, r.1 < lo + chunkSize → lo + chunkSize < r.2 → chunkSize < contextRemaining →
    (∀ m ∈ t.maxContextLength, min r.2 (lo + contextRemaining) - r.1 ≤ m) →
    t.MovesClear w i k remainingBudget contextRemaining r

/-- **Alignment keeps the blocks whole exactly when** the unit boundaries next to the block that
the chunk ends in are not inside another one. -/
theorem alignChunkToMmBlock_keeps_iff (hb : t.HasBlocks i k) (chunkSize : ℤ)
    (remainingBudget : Option ℤ) (contextRemaining : ℕ) :
    t.KeepsBlocks w i k chunkSize remainingBudget contextRemaining
      ↔ t.BoundariesClear w i k chunkSize remainingBudget contextRemaining := by
  unfold BoundariesClear
  dsimp only
  by_cases hstay : (contextRemaining : ℤ) ≤ chunkSize
      ∨ ¬ k.Splits (t.managers.contextCurrentPosition w i + chunkSize)
  · unfold KeepsBlocks
    rw [alignChunkToMmBlock_unmoved hb remainingBudget hstay]
    constructor
    · intro h
      refine ⟨fun _ => h chunkSize rfl, fun r hr hstart hlast hend => ?_⟩
      exact absurd ⟨r, hr, hstart, hlast⟩ (hstay.resolve_left (by omega))
    · rintro ⟨h, -⟩ a ha
      obtain rfl := Except.ok.inj ha
      exact h hstay
  · obtain ⟨hend, r, hr, hstart, hlast⟩ := by simpa only [not_or, not_not, not_le] using hstay
    rw [keepsBlocks_iff_of_mem hb remainingBudget hr hstart hlast hend]
    constructor
    · intro h
      refine ⟨fun hstay' => absurd hstay' hstay, fun r' hr' hstart' hlast' _ => ?_⟩
      obtain rfl := EmbedMask.runs_eq_of_touch hr hr' (by omega) (by omega)
      exact h
    · rintro ⟨-, h⟩
      exact h r hr hstart hlast hend

end Iteration

/-- Managers whose world is the position of the one context, with room for everything. -/
def Managers.atPosition : Managers ℕ where
  isRequestActive _ _ := true
  hasPendingLoad _ _ := false
  contextCurrentPosition w _ := w
  contextReplayTokens _ _ := none
  capacity _ _ := none
  holdsContextCache _ _ := false
  probeFirstNewBlockKey _ _ := none
  probeContextReuse _ := none
  planPrefixWaits _ _ _ := none
  gateClosed _ := false
  hasPendingPreemption _ := false
  hasInflightTransfers := false
  tryAllocateGeneration _ w := (true, w)
  suspendRequest _ w := w
  preemptRequest _ w := (true, w)
  prepareDisaggGenInit _ w := (true, w)
  prepareContextPair _ w := (true, w)
  tryAllocateContext _ _ w := (true, w)
  tryAllocateCrossContext _ _ w := (true, w)
  releaseContextAdmission _ w := w

/-- One context of `promptLen` tokens with this mask, chunks of whole blocks of four tokens, and
`limit` tokens in an iteration. -/
def Iteration.ofMask (k : EmbedMask) (limit promptLen : ℕ) : Iteration ℕ where
  config :=
    { maxNumTokens := some limit
      maxNumRequests := 4
      chunking := some ⟨.kFIRST_COME_FIRST_SERVED, 4, Nat.le_add_left 1 3⟩ }
  managers := .atPosition
  requests :=
    [{ requestId := 0
       state := .kCONTEXT_INIT
       isFirstContextChunk := true
       promptLen := promptLen
       hasMultimodalData := true
       mmBidirectionalBlocks := true
       mmEmbedMaskCumsum := some k.cumsum }]
  inflightRequestIds := []

lemma Iteration.ofMask_hasBlocks (k : EmbedMask) (limit promptLen : ℕ) :
    (Iteration.ofMask k limit promptLen).HasBlocks 0 k := ⟨rfl, rfl⟩

/-- One image of five tokens. -/
def EmbedMask.oneImage : EmbedMask := ⟨[(1, 6)], by decide, by decide⟩

/-- Two images of five tokens with one token between them. -/
def EmbedMask.twoImages : EmbedMask := ⟨[(1, 6), (7, 12)], by decide, by decide⟩

/-- The theorem at a chunk of four tokens that ends inside the only image, and grows to eight. -/
theorem alignChunkToMmBlock_keeps_oneImage :
    (Iteration.ofMask .oneImage 16 16).KeepsBlocks 0 0 .oneImage 4 (some 16) 16 := by
  rw [Iteration.alignChunkToMmBlock_keeps_iff (Iteration.ofMask_hasBlocks _ _ _)]
  unfold Iteration.BoundariesClear Iteration.MovesClear
  decide

/-- **The chunk that swallows an image ends inside the next one**: the first unit boundary after
the first image is the second token of the second one. -/
theorem alignChunkToMmBlock_splits_next : (Iteration.ofMask .twoImages 16 16).HasBlocks 0 .twoImages
      ∧ ¬ EmbedMask.twoImages.mask 0
      ∧ (Iteration.ofMask .twoImages 16 16).ChunkFits (some 16) 16 4
      ∧ ¬ (Iteration.ofMask .twoImages 16 16).KeepsBlocks 0 0 .twoImages 4 (some 16) 16 := by
  refine ⟨Iteration.ofMask_hasBlocks _ _ _, by decide, by decide, fun h => ?_⟩
  exact (h 8 rfl (by decide)).1 (by decide)

end TrtLlm.SchedulerV2
