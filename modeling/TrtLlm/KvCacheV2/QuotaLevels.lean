import TrtLlm.KvCacheV2.QuotaDivision

/-!
The levels of a division fit its budgets, and so does what they place and what fills their grains.

Every subtraction of the source is of a monotone function of slot counts, so none falls below zero;
the loops over the groups become sums.

* `highestLevelFitting_spec`: the level that is found fits the residue;
* `Division.Lawful.findLevels`: **the levels** fit what the floors left of both budgets;
* `Division.Lawful.place`, `Division.Lawful.closePaidGrains`: what a division places and fills.
-/

namespace TrtLlm.CacheLevelStorage

open List Function Nat

/-! ### Sums and levels -/

section
variable {n : ℕ}

lemma sub_of_le {a b : ℕ} (h : b ≤ a) : sub a b = .ok (a - b) := if_pos h

lemma foldlM_total {f : Fin n → Except SizingError ℕ} {v : Fin n → ℕ} (h : ∀ i, f i = .ok (v i))
    (l : List (Fin n)) (total : ℕ) :
    l.foldlM (fun total i => do
      let d ← f i
      pure (total + d)) total = .ok (total + (l.map v).sum) := by
  induction l generalizing total with
  | nil => rfl
  | cons i l ih =>
    rw [foldlM_cons, h i]
    refine (ih (total + v i)).trans ?_
    rw [map_cons, sum_cons, add_assoc]

/-- A sum over the groups none of whose terms fails. -/
lemma sumGroups_eq {f : Fin n → Except SizingError ℕ} {v : Fin n → ℕ} (h : ∀ i, f i = .ok (v i)) :
    sumGroups f = .ok (∑ i, v i) := by
  rw [sumGroups, foldlM_total h, zero_add, Fin.sum_univ_def]

variable {spend : ℕ → Except SizingError ℕ} {f : ℕ → ℕ} {residue : ℕ}

variable (hs : ∀ level, spend level = .ok (f level))
include hs

/-- The doubling ends at a level that fits, or below one that does not. -/
lemma doubleLevel_spec (residue rounds : ℕ) :
    ∀ lo hi : ℕ, hi * 2 ^ (rounds + 1) = 2 ^ 64 → f lo ≤ residue → lo < hi →
      ∃ lo' hi' exceeded, doubleLevel spend residue (rounds + 1) lo hi = .ok (lo', hi', exceeded)
        ∧ (exceeded = true → f lo' ≤ residue ∧ lo' < hi')
          ∧ (exceeded = false → f hi' ≤ residue) := by
  induction rounds with
  | zero =>
    intro lo hi hpow hlo hlt
    rw [doubleLevel, hs hi]
    by_cases hexceeds : residue < f hi
    · exact ⟨lo, hi, true, if_pos hexceeds, fun _ => ⟨hlo, hlt⟩, fun h => (by cases h)⟩
    · have hmax : (2 ^ 64 - 1) / 2 < hi := by omega
      refine ⟨hi, hi, false, ?_, fun h => (by cases h), fun _ => not_lt.mp hexceeds⟩
      exact (if_neg hexceeds).trans (if_pos hmax)
  | succ rounds ih =>
    intro lo hi hpow hlo hlt
    rw [doubleLevel, hs hi]
    by_cases hexceeds : residue < f hi
    · exact ⟨lo, hi, true, if_pos hexceeds, fun _ => ⟨hlo, hlt⟩, fun h => (by cases h)⟩
    by_cases hmax : (2 ^ 64 - 1) / 2 < hi
    · refine ⟨hi, hi, false, ?_, fun h => (by cases h), fun _ => not_lt.mp hexceeds⟩
      exact (if_neg hexceeds).trans (if_pos hmax)
    · obtain ⟨lo', hi', exceeded, heq, hrest⟩ := ih hi (hi * 2)
        (by rw [← hpow, pow_succ 2 (rounds + 1)]; ring) (not_lt.mp hexceeds) (by omega)
      refine ⟨lo', hi', exceeded, ?_, hrest⟩
      exact ((if_neg hexceeds).trans (if_neg hmax)).trans heq

lemma bisectLevel_spec (lo hi : ℕ) (hlo : f lo ≤ residue) :
    ∃ level, bisectLevel spend residue lo hi = .ok level ∧ f level ≤ residue := by
  induction hk : hi - lo using Nat.strong_induction_on generalizing lo hi with
  | _ k ih =>
    subst hk
    rw [bisectLevel]
    by_cases hlt : lo + 1 < hi
    · rw [if_pos hlt]
      dsimp only
      rw [hs]
      by_cases hfits : f (lo + (hi - lo) / 2) ≤ residue
      · obtain ⟨level, heq, hle⟩ := ih _ (by omega) (lo + (hi - lo) / 2) hi hfits rfl
        exact ⟨level, (if_pos hfits).trans heq, hle⟩
      · obtain ⟨level, heq, hle⟩ := ih _ (by omega) lo (lo + (hi - lo) / 2) hlo rfl
        exact ⟨level, (if_neg hfits).trans heq, hle⟩
    · exact ⟨lo, if_neg hlt, hlo⟩

/-- **The level that is found** fits the residue. -/
lemma highestLevelFitting_spec (residue : ℕ) (h0 : f 0 ≤ residue) :
    ∃ level saturated, highestLevelFitting spend residue = .ok (level, saturated)
      ∧ f level ≤ residue := by
  obtain ⟨lo, hi, exceeded, heq, hlow, hhigh⟩ := doubleLevel_spec hs residue 63 0 1
    (by norm_num) h0 Nat.zero_lt_one
  have hunfold : highestLevelFitting spend residue
      = if exceeded then (bisectLevel spend residue lo hi).bind fun level => pure (level, false)
        else pure (hi, true) := by
    rw [highestLevelFitting, hs 0]
    refine (if_neg (not_lt.mpr h0)).trans ?_
    rw [heq]
    rfl
  rw [hunfold]
  cases exceeded with
  | true =>
    obtain ⟨level, hlevel, hle⟩ := bisectLevel_spec hs lo hi (hlow rfl).1
    refine ⟨level, false, ?_, hle⟩
    rw [hlevel]
    rfl
  | false => exact ⟨hi, true, rfl, hhigh rfl⟩

lemma leastLevel_spec (target lo hi : ℕ) (h : lo ≤ hi) :
    ∃ level, leastLevel spend target lo hi = .ok level ∧ level ≤ hi := by
  induction hk : hi - lo using Nat.strong_induction_on generalizing lo hi with
  | _ k ih =>
    subst hk
    rw [leastLevel]
    by_cases hlt : lo < hi
    · rw [if_pos hlt]
      dsimp only
      rw [hs]
      by_cases hreach : target ≤ f (lo + (hi - lo) / 2)
      · obtain ⟨level, heq, hle⟩ := ih _ (by omega) lo (lo + (hi - lo) / 2) (by omega) rfl
        exact ⟨level, (if_pos hreach).trans heq, by omega⟩
      · obtain ⟨level, heq, hle⟩ := ih _ (by omega) (lo + (hi - lo) / 2 + 1) hi (by omega) rfl
        exact ⟨level, (if_neg hreach).trans heq, hle⟩
    · exact ⟨lo, if_neg hlt, h⟩

end

namespace Division

variable {n : ℕ} {d : Division n} {granularity : ℕ}

/-- What the arguments give: rungs, positive ratios, and floors at the end of their free runs. -/
structure Lawful (d : Division n) (granularity : ℕ) : Prop where
  rungs : ∀ i, (d.rungs i).Lawful granularity
  ratio_pos : ∀ i, 0 < d.ratio i
  floor_closed : ∀ i, (d.rungs i).freeRun (d.floorSlots i) = d.floorSlots i

/-! ### Rungs by level -/

section
variable (h : d.Lawful granularity)
include h

section

variable (i : Fin n)

lemma Lawful.rung_closed (budget : ℕ) :
    (d.rungs i).freeRun ((d.rungs i).rungAtOrBelow budget) = (d.rungs i).rungAtOrBelow budget := by
  have hi := h.rungs i
  refine le_antisymm (hi.le_rung ?_) (hi.le_freeRun _)
  rw [hi.bytes_freeRun]
  exact hi.bytes_rung budget

lemma Lawful.rung_mono : Monotone (d.rungs i).rungAtOrBelow := fun _ _ hle =>
  (h.rungs i).le_rung (((h.rungs i).bytes_rung _).trans hle)

lemma Lawful.le_nearer (share : ℚ) (nLo : ℕ) : nLo ≤ d.nearer i share nLo := by
  rw [nearer]
  split_ifs
  · exact (le_succ nLo).trans ((h.rungs i).le_freeRun _)
  · exact le_rfl

lemma Lawful.nearer_le (share : ℚ) (nLo : ℕ) :
    d.nearer i share nLo ≤ (d.rungs i).freeRun (nLo + 1) := by
  rw [nearer]
  split_ifs
  · exact le_rfl
  · exact (le_succ nLo).trans ((h.rungs i).le_freeRun _)

lemma Lawful.floor_le_nearestRung (level : ℕ) : d.floorSlots i ≤ d.nearestRung i level := by
  rw [nearestRung]
  split_ifs with hlt
  · exact le_rfl
  · exact (not_lt.mp hlt).trans (h.le_nearer i _ _)

lemma Lawful.nearestRung_zero : d.nearestRung i 0 = d.floorSlots i := by
  rw [nearestRung]
  rw [cast_zero, zero_mul, floor_zero, (h.rungs i).rung_zero]
  split_ifs with hpos
  · rfl
  · rw [nearer, mul_zero, if_neg (not_lt.mpr (cast_nonneg _))]
    exact (le_zero.mp (not_lt.mp hpos)).symm

/-- A higher level never takes slots away. -/
lemma Lawful.nearestRung_mono : Monotone (d.nearestRung i) := by
  intro level level' hle
  have hi := h.rungs i
  have htarget : (level : ℚ) * d.ratio i ≤ level' * d.ratio i :=
    mul_le_mul_of_nonneg_right (cast_le.mpr hle) (h.ratio_pos i).le
  have hrung : (d.rungs i).rungAtOrBelow ⌊(level : ℚ) * d.ratio i⌋₊
      ≤ (d.rungs i).rungAtOrBelow ⌊(level' : ℚ) * d.ratio i⌋₊ :=
    h.rung_mono i (floor_le_floor htarget)
  by_cases hfloor : (d.rungs i).rungAtOrBelow ⌊(level : ℚ) * d.ratio i⌋₊ < d.floorSlots i
  · calc d.nearestRung i level = d.floorSlots i := if_pos hfloor
      _ ≤ d.nearestRung i level' := h.floor_le_nearestRung i level'
  have heq : d.nearestRung i level = d.nearer i (level * d.ratio i)
      ((d.rungs i).rungAtOrBelow ⌊(level : ℚ) * d.ratio i⌋₊) := if_neg hfloor
  have heq' : d.nearestRung i level' = d.nearer i (level' * d.ratio i)
      ((d.rungs i).rungAtOrBelow ⌊(level' : ℚ) * d.ratio i⌋₊) :=
    if_neg fun hlt => hfloor (hrung.trans_lt hlt)
  rw [heq, heq']
  rcases hrung.eq_or_lt with hsame | hlt
  · rw [← hsame, nearer, nearer]
    split_ifs with hnear hnear'
    · exact le_rfl
    · exact absurd (hnear.trans_le (mul_le_mul_of_nonneg_left htarget (by norm_num))) hnear'
    · exact (le_succ _).trans (hi.le_freeRun _)
    · exact le_rfl
  · -- the rung above the lower one is no higher than the other
    calc d.nearer i (level * d.ratio i) ((d.rungs i).rungAtOrBelow ⌊(level : ℚ) * d.ratio i⌋₊)
        ≤ (d.rungs i).freeRun ((d.rungs i).rungAtOrBelow ⌊(level : ℚ) * d.ratio i⌋₊ + 1) :=
          h.nearer_le i _ _
      _ ≤ (d.rungs i).freeRun ((d.rungs i).rungAtOrBelow ⌊(level' : ℚ) * d.ratio i⌋₊) :=
          hi.freeRun_mono hlt
      _ = (d.rungs i).rungAtOrBelow ⌊(level' : ℚ) * d.ratio i⌋₊ := h.rung_closed i _
      _ ≤ _ := h.le_nearer i _ _

end

lemma Lawful.placedAt_le (lv : Levels) (i : Fin n) :
    d.placedAt lv i ≤ d.nearestRung i (d.cappedLevel lv.level2 i lv.level1) := by
  rw [placedAt]
  rw [nearestRung]
  split_ifs with hlt
  · exact max_le hlt.le le_rfl
  · rw [max_eq_left (not_lt.mp hlt)]
    exact h.le_nearer i _ _

lemma Lawful.placedAt_closed (lv : Levels) (i : Fin n) :
    (d.rungs i).freeRun (d.placedAt lv i) = d.placedAt lv i := by
  rw [placedAt]
  rcases max_choice ((d.rungs i).rungAtOrBelow
    ⌊(d.cappedLevel lv.level2 i lv.level1 : ℚ) * d.ratio i⌋₊) (d.floorSlots i) with hmax | hmax
  · rw [hmax, h.rung_closed]
  · rw [hmax, h.floor_closed]

/-! ### What the levels spend -/

lemma Lawful.spendSecond_eq (level : ℕ) : d.spendSecond level
    = .ok (∑ i, ((d.rungs i).secondGrains (d.nearestRung i level)
      - (d.rungs i).secondGrains (d.floorSlots i))) := by
  refine sumGroups_eq fun i => ?_
  have hi := h.rungs i
  cases hon : (d.rungs i).onSecond with
  | true =>
    rw [if_pos rfl]
    exact sub_of_le (hi.second_mono (h.floor_le_nearestRung i level))
  | false =>
    rw [if_neg (by simp), hi.second_eq_zero hon, hi.second_eq_zero hon]
    rfl

lemma Lawful.spendPrimary_eq (level2 level : ℕ) : d.spendPrimary level2 level
    = .ok (∑ i, ((d.rungs i).quotaGrains (d.nearestRung i (d.cappedLevel level2 i level))
      - (d.rungs i).quotaGrains (d.floorSlots i))) :=
  sumGroups_eq fun i => sub_of_le ((h.rungs i).quota_mono (h.floor_le_nearestRung i _))

omit h in
lemma cappedLevel_mono (level2 : ℕ) (i : Fin n) : Monotone (d.cappedLevel level2 i) := by
  intro level level' hle
  rw [cappedLevel, cappedLevel]
  split_ifs with hc hc' hc'
  · exact le_rfl
  · exact absurd ⟨hc.1, hc.2.1, hc.2.2.trans_le hle⟩ hc'
  · exact not_lt.mp fun hlt => hc ⟨hc'.1, hc'.2.1, hlt⟩
  · exact hle

omit h in
lemma onSecond_of_any (hany : d.anyOnSecond = false)
    (i : Fin n) : (d.rungs i).onSecond = false := by
  rw [anyOnSecond, any_eq_false] at hany
  simpa using hany i (mem_finRange i)

/-- The level of the second budget fits, and so does every level that it caps. -/
lemma Lawful.findLevel2 : ∃ level2 saturated2, d.findLevel2 = .ok (level2, saturated2)
    ∧ ∀ level1, d.bounded = true → (∑ i, ((d.rungs i).secondGrains
        (d.nearestRung i (d.cappedLevel level2 i level1))
      - (d.rungs i).secondGrains (d.floorSlots i))) ≤ d.remainingSecond := by
  rw [Division.findLevel2]
  cases hhas : d.hasLevel2 with
  | false =>
    refine ⟨0, true, rfl, fun level1 hb => ?_⟩
    have hany : d.anyOnSecond = false := by simpa [hasLevel2, hb] using hhas
    refine (le_of_eq (Finset.sum_eq_zero fun i _ => ?_)).trans (Nat.zero_le _)
    rw [(h.rungs i).second_eq_zero (onSecond_of_any hany i), Nat.zero_sub]
  | true =>
    obtain ⟨level2, saturated2, heq, hle⟩ :=
      highestLevelFitting_spec h.spendSecond_eq d.remainingSecond
        (by simp [h.nearestRung_zero])
    refine ⟨level2, saturated2, heq, fun level1 hb => ?_⟩
    refine (Finset.sum_le_sum fun i _ => ?_).trans hle
    cases hon : (d.rungs i).onSecond with
    | false =>
      rw [(h.rungs i).second_eq_zero hon, Nat.zero_sub]
      exact Nat.zero_le _
    | true =>
      have hcapped : d.cappedLevel level2 i level1 ≤ level2 := by
        rw [cappedLevel]
        split_ifs with hc
        · exact le_rfl
        · exact not_lt.mp fun hlt => hc ⟨hhas, hon, hlt⟩
      exact Nat.sub_le_sub_right ((h.rungs i).second_mono (h.nearestRung_mono i hcapped)) _

/-- The level of the quota fits. -/
lemma Lawful.findLevel1 (level2 : ℕ) : ∃ level1, d.findLevel1 level2 = .ok level1
    ∧ (∑ i, ((d.rungs i).quotaGrains (d.nearestRung i (d.cappedLevel level2 i level1))
      - (d.rungs i).quotaGrains (d.floorSlots i))) ≤ d.remainingQuota := by
  obtain ⟨level1, saturated1, heq, hfit⟩ :=
    highestLevelFitting_spec (h.spendPrimary_eq level2) d.remainingQuota (by
      refine (le_of_eq (Finset.sum_eq_zero fun i _ => ?_)).trans (Nat.zero_le _)
      have hzero : d.cappedLevel level2 i 0 = 0 := by
        rw [cappedLevel, if_neg fun hc => absurd hc.2.2 (Nat.not_lt_zero _)]
      rw [hzero, h.nearestRung_zero, Nat.sub_self])
  rw [Division.findLevel1, heq]
  cases saturated1 with
  | true => exact ⟨level1, rfl, hfit⟩
  | false =>
    obtain ⟨level, hlevel, hle⟩ := leastLevel_spec (h.spendPrimary_eq level2)
      (∑ i, ((d.rungs i).quotaGrains (d.nearestRung i (d.cappedLevel level2 i level1))
        - (d.rungs i).quotaGrains (d.floorSlots i))) 0 level1 (Nat.zero_le _)
    refine ⟨level, ?_, ?_⟩
    · change (d.spendPrimary level2 level1).bind _ = _
      rw [h.spendPrimary_eq]
      exact hlevel
    · refine (Finset.sum_le_sum fun i _ => ?_).trans hfit
      exact Nat.sub_le_sub_right ((h.rungs i).quota_mono (h.nearestRung_mono i
        (cappedLevel_mono level2 i hle))) _

/-- **The levels** fit what the floors left of both budgets. -/
lemma Lawful.findLevels : ∃ lv, d.findLevels = .ok lv
    ∧ (∑ i, ((d.rungs i).quotaGrains (d.nearestRung i (d.cappedLevel lv.level2 i lv.level1))
        - (d.rungs i).quotaGrains (d.floorSlots i))) ≤ d.remainingQuota
    ∧ (d.bounded = true → (∑ i, ((d.rungs i).secondGrains
          (d.nearestRung i (d.cappedLevel lv.level2 i lv.level1))
        - (d.rungs i).secondGrains (d.floorSlots i))) ≤ d.remainingSecond) := by
  obtain ⟨level2, saturated2, heq2, hfit2⟩ := h.findLevel2
  obtain ⟨level1, heq1, hfit1⟩ := h.findLevel1 level2
  refine ⟨⟨level1, level2, saturated2⟩, ?_, hfit1, hfit2 level1⟩
  rw [Division.findLevels, heq2]
  change (d.findLevel1 level2).bind _ = _
  rw [heq1]
  rfl

end

/-! ### Paying -/

section
variable {s : Shares n}

/-- A payment that both budgets allow. -/
lemma pay_eq {i : Fin n} {want : ℕ}
    (hquota : (d.rungs i).quotaGrains (s.slotCnt i) ≤ (d.rungs i).quotaGrains want)
    (hsecond : (d.rungs i).secondGrains (s.slotCnt i) ≤ (d.rungs i).secondGrains want)
    (h₁ : (d.rungs i).quotaGrains want - (d.rungs i).quotaGrains (s.slotCnt i) ≤ s.remainingQuota)
    (h₂ : d.bounded = true → (d.rungs i).secondGrains want - (d.rungs i).secondGrains (s.slotCnt i)
      ≤ s.remainingSecond) :
    d.pay s i want = .ok { s with
      slotCnt := update s.slotCnt i want
      remainingQuota := s.remainingQuota
        - ((d.rungs i).quotaGrains want - (d.rungs i).quotaGrains (s.slotCnt i))
      remainingSecond := if d.bounded then s.remainingSecond
        - ((d.rungs i).secondGrains want - (d.rungs i).secondGrains (s.slotCnt i))
        else s.remainingSecond } := by
  have hpaySecond : d.paySecond s i want = .ok (if d.bounded then s.remainingSecond
      - ((d.rungs i).secondGrains want - (d.rungs i).secondGrains (s.slotCnt i))
      else s.remainingSecond) := by
    rw [paySecond]
    cases hb : d.bounded with
    | false => rfl
    | true =>
      rw [if_pos rfl, sub_of_le hsecond]
      exact sub_of_le (h₂ hb)
  rw [pay, sub_of_le hquota]
  change (sub s.remainingQuota _).bind _ = _
  rw [sub_of_le h₁]
  change (d.paySecond s i want).bind _ = _
  rw [hpaySecond]
  rfl

/-- The payments of a loop over some groups, each for its own slots. -/
lemma foldlM_pay (h : d.Lawful granularity) {want : Fin n → ℕ} (l : List (Fin n)) (hnd : l.Nodup) :
    ∀ {s : Shares n}, (∀ i ∈ l, s.slotCnt i ≤ want i) →
      (l.map fun i => (d.rungs i).quotaGrains (want i) - (d.rungs i).quotaGrains (s.slotCnt i)).sum
        ≤ s.remainingQuota →
      (d.bounded = true → (l.map fun i => (d.rungs i).secondGrains (want i)
        - (d.rungs i).secondGrains (s.slotCnt i)).sum ≤ s.remainingSecond) →
      l.foldlM (fun s i => d.pay s i (want i)) s = .ok { s with
        slotCnt := fun i => if i ∈ l then want i else s.slotCnt i
        remainingQuota := s.remainingQuota - (l.map fun i => (d.rungs i).quotaGrains (want i)
          - (d.rungs i).quotaGrains (s.slotCnt i)).sum
        remainingSecond := if d.bounded then s.remainingSecond
          - (l.map fun i => (d.rungs i).secondGrains (want i)
            - (d.rungs i).secondGrains (s.slotCnt i)).sum
          else s.remainingSecond } := by
  induction l with
  | nil =>
    intro s _ _ _
    simp
    rfl
  | cons i l ih =>
    intro s hle hquota hsecond
    obtain ⟨hi, hnd⟩ := nodup_cons.mp hnd
    simp only [map_cons, sum_cons] at hquota hsecond
    have hwant := hle i (by simp)
    rw [foldlM_cons, pay_eq ((h.rungs i).quota_mono hwant) ((h.rungs i).second_mono hwant)
      (by omega) (fun hb => by have := hsecond hb; omega)]
    -- the slots of the groups that follow are as they were
    have hsame : ∀ j ∈ l, update s.slotCnt i (want i) j = s.slotCnt j := by
      intro j hj
      exact update_of_ne (fun heq : j = i => hi (heq ▸ hj)) _ _
    have hmap : ∀ g : Fin n → ℕ → ℕ,
        (l.map fun j => g j (want j) - g j (update s.slotCnt i (want i) j))
          = l.map fun j => g j (want j) - g j (s.slotCnt j) :=
      fun g => map_congr_left fun j hj => by rw [hsame j hj]
    refine (ih hnd (fun j hj => ?_) ?_ ?_).trans ?_
    · exact (hsame j hj).trans_le (hle j (mem_cons_of_mem i hj))
    · rw [hmap fun j => (d.rungs j).quotaGrains]
      dsimp only
      omega
    · intro hb
      have hsum := hsecond hb
      rw [hmap fun j => (d.rungs j).secondGrains, if_pos hb]
      dsimp only
      omega
    · rw [hmap fun j => (d.rungs j).quotaGrains, hmap fun j => (d.rungs j).secondGrains]
      congr 1
      simp only [map_cons, sum_cons, Shares.mk.injEq, and_true]
      refine ⟨?_, by omega, ?_⟩
      · funext j
        by_cases hj : j ∈ l
        · simp [hj]
        · by_cases heq : j = i
          · subst heq
            simp [hj]
          · simp [hj, heq]
      · cases d.bounded with
        | false => rfl
        | true =>
          simp only [if_true]
          omega

/-- The shares that the levels place. -/
def placed (d : Division n) (lv : Levels) : Shares n where
  slotCnt := d.placedAt lv
  remainingQuota := d.remainingQuota - ∑ i, ((d.rungs i).quotaGrains (d.placedAt lv i)
    - (d.rungs i).quotaGrains (d.floorSlots i))
  remainingSecond := if d.bounded then d.remainingSecond - ∑ i,
    ((d.rungs i).secondGrains (d.placedAt lv i)
    - (d.rungs i).secondGrains (d.floorSlots i)) else d.remainingSecond
  corrections _ := 0

/-- **Every group is placed** at or below the level that was found. -/
lemma Lawful.place (h : d.Lawful granularity) {lv : Levels}
    (hquota : (∑ i, ((d.rungs i).quotaGrains (d.placedAt lv i)
      - (d.rungs i).quotaGrains (d.floorSlots i))) ≤ d.remainingQuota)
    (hsecond : d.bounded = true → (∑ i, ((d.rungs i).secondGrains (d.placedAt lv i)
      - (d.rungs i).secondGrains (d.floorSlots i))) ≤ d.remainingSecond) :
    d.place lv = .ok (d.placed lv) := by
  rw [Division.place, placed]
  simp only [Fin.sum_univ_def] at hquota hsecond ⊢
  refine (foldlM_pay h (finRange n) (nodup_finRange n) (fun i _ => ?_) hquota hsecond).trans ?_
  · exact le_max_right _ _
  · simp

/-- What the levels place fits both budgets. -/
lemma Lawful.placed_fits (h : d.Lawful granularity) : ∃ lv, d.findLevels = .ok lv
    ∧ (∑ i, ((d.rungs i).quotaGrains (d.placedAt lv i) - (d.rungs i).quotaGrains (d.floorSlots i)))
      ≤ d.remainingQuota
    ∧ (d.bounded = true → (∑ i, ((d.rungs i).secondGrains (d.placedAt lv i)
      - (d.rungs i).secondGrains (d.floorSlots i))) ≤ d.remainingSecond) := by
  obtain ⟨lv, hlv, hfit, hfit2⟩ := h.findLevels
  refine ⟨lv, hlv, ?_, fun hb => ?_⟩
  · refine (Finset.sum_le_sum fun i _ => ?_).trans hfit
    exact Nat.sub_le_sub_right ((h.rungs i).quota_mono (h.placedAt_le lv i)) _
  · refine (Finset.sum_le_sum fun i _ => ?_).trans (hfit2 hb)
    exact Nat.sub_le_sub_right ((h.rungs i).second_mono (h.placedAt_le lv i)) _

/-! ### Filling -/

section

variable (d : Division n) (s : Shares n)

/-- The slots of a group after the class of the second budget is moved to a level. -/
def closedTo (level : ℕ) (i : Fin n) : ℕ :=
  if (d.rungs i).onSecond then d.closureTarget (d.tops s) i (s.slotCnt i) level else s.slotCnt i

/-- What it takes of the second budget to have these slots. -/
def fillCost (want : Fin n → ℕ) : ℕ :=
  ∑ i, ((d.rungs i).secondGrains (want i) - (d.rungs i).secondGrains (s.slotCnt i))

/-- The shares with these slots, which the second budget pays. -/
def fill (want : Fin n → ℕ) : Shares n :=
  { s with
    slotCnt := want
    remainingSecond := if d.bounded then s.remainingSecond - d.fillCost s want
      else s.remainingSecond }

/-- The slots of a group when the class of the second budget is filled. -/
def filledTo (i : Fin n) : ℕ :=
  if (d.rungs i).onSecond then d.tops s i else s.slotCnt i

end

variable (h : d.Lawful granularity)
include h

variable {level : ℕ} {tops : Fin n → ℕ}

lemma Lawful.le_tops (i : Fin n) : s.slotCnt i ≤ d.tops s i := (h.rungs i).le_freeRunOnQuota _

omit h in
lemma closureTarget_le (tops : Fin n → ℕ) (i : Fin n) (slots level : ℕ) :
    d.closureTarget tops i slots level ≤ tops i := by
  rw [closureTarget]
  split_ifs
  · exact le_rfl
  · exact min_le_left _ _

omit h in
lemma le_closureTarget {i : Fin n} {slots : ℕ} (hle : slots ≤ tops i) (level : ℕ) :
    slots ≤ d.closureTarget tops i slots level := by
  rw [closureTarget]
  split_ifs
  · exact hle
  · exact le_min hle (le_max_left _ _)

lemma Lawful.le_closedTo (level : ℕ) (i : Fin n) : s.slotCnt i ≤ d.closedTo s level i := by
  rw [closedTo]
  split_ifs
  · exact le_closureTarget (h.le_tops i) level
  · exact le_rfl

lemma Lawful.closedTo_zero (i : Fin n) : d.closedTo s 0 i = s.slotCnt i := by
  rw [closedTo]
  split_ifs
  · have hle : s.slotCnt i ≤ d.tops s i := h.le_tops i
    rw [closureTarget, cast_zero, zero_mul, zero_div, floor_zero, (h.rungs i).rung_zero]
    split_ifs with htop
    · omega
    · have hnear : d.nearer i 0 0 = 0 := by
        rw [nearer, mul_zero, if_neg (not_lt.mpr (cast_nonneg _))]
      rw [hnear, Nat.max_zero, min_eq_right hle]
  · rfl

/-- What the class pays to have such slots, when its other groups keep theirs. -/
lemma Lawful.sumGroups_second {want want' : Fin n → ℕ}
    (hwant : ∀ i, want' i = if (d.rungs i).onSecond then want i else s.slotCnt i)
    (hle : ∀ i, s.slotCnt i ≤ want' i) :
    (sumGroups fun i => if (d.rungs i).onSecond then sub ((d.rungs i).secondGrains (want i))
      ((d.rungs i).secondGrains (s.slotCnt i)) else pure 0) = .ok (d.fillCost s want') := by
  refine sumGroups_eq fun i => ?_
  have hmono := (h.rungs i).second_mono (hle i)
  rw [hwant i] at hmono ⊢
  cases hon : (d.rungs i).onSecond with
  | true =>
    rw [hon, if_pos rfl] at hmono
    rw [if_pos rfl, if_pos rfl]
    exact sub_of_le hmono
  | false =>
    rw [if_neg (by simp), if_neg (by simp), Nat.sub_self]
    rfl

lemma Lawful.closureSpend_eq (level : ℕ) :
    d.closureSpend s level = .ok (d.fillCost s (d.closedTo s level)) :=
  h.sumGroups_second (fun _ => rfl) (h.le_closedTo level)

lemma Lawful.le_filledTo (i : Fin n) : s.slotCnt i ≤ d.filledTo s i := by
  rw [filledTo]
  split_ifs
  · exact h.le_tops i
  · exact le_rfl

lemma Lawful.closureNeed_eq : d.closureNeed s = .ok (d.fillCost s (d.filledTo s)) :=
  h.sumGroups_second (fun _ => rfl) h.le_filledTo

/-- One group is moved to the level; where it stays, it pays nothing. -/
lemma Lawful.closeGroup_eq {want : ℕ} {moved : Bool} {i : Fin n}
    (hwant : want = if (d.rungs i).onSecond then d.closureTarget tops i (s.slotCnt i) level
      else s.slotCnt i) (hle : s.slotCnt i ≤ want)
    (hcost : (d.rungs i).secondGrains want - (d.rungs i).secondGrains (s.slotCnt i)
      ≤ s.remainingSecond) :
    d.closeGroup tops level (s, moved) i = .ok ({ s with
      slotCnt := update s.slotCnt i want
      remainingSecond := s.remainingSecond
        - ((d.rungs i).secondGrains want - (d.rungs i).secondGrains (s.slotCnt i)) },
      moved || decide (s.slotCnt i < want)) := by
  have hstay : s.slotCnt i = want → Except.ok (s, moved) = (.ok ({ s with
      slotCnt := update s.slotCnt i want
      remainingSecond := s.remainingSecond
        - ((d.rungs i).secondGrains want - (d.rungs i).secondGrains (s.slotCnt i)) },
      moved || decide (s.slotCnt i < want)) : Except SizingError (Shares n × Bool)) := by
    rintro rfl
    simp
  rw [closeGroup]
  cases hon : (d.rungs i).onSecond with
  | false =>
    rw [hon, if_neg (by simp)] at hwant
    rw [if_neg (by simp)]
    exact hstay hwant.symm
  | true =>
    rw [hon, if_pos rfl] at hwant
    rw [← hwant]
    by_cases hlt : s.slotCnt i < want
    · rw [if_pos ⟨rfl, hlt⟩, sub_of_le ((h.rungs i).second_mono hle)]
      change (sub s.remainingSecond _).bind _ = _
      rw [sub_of_le hcost]
      simp [hlt]
      rfl
    · rw [if_neg (fun hc => hlt hc.2)]
      exact hstay (le_antisymm hle (not_lt.mp hlt))

/-- The loop that moves the groups to a level that the second budget can pay. -/
lemma Lawful.foldlM_closeGroup {want : Fin n → ℕ}
    (l : List (Fin n)) (hnd : l.Nodup) : ∀ {s : Shares n} {moved : Bool},
      (∀ i ∈ l, want i = if (d.rungs i).onSecond then d.closureTarget tops i (s.slotCnt i) level
        else s.slotCnt i) → (∀ i ∈ l, s.slotCnt i ≤ want i) →
      (l.map fun i => (d.rungs i).secondGrains (want i) - (d.rungs i).secondGrains
        (s.slotCnt i)).sum
        ≤ s.remainingSecond →
      l.foldlM (d.closeGroup tops level) (s, moved) = .ok ({ s with
        slotCnt := fun i => if i ∈ l then want i else s.slotCnt i
        remainingSecond := s.remainingSecond - (l.map fun i => (d.rungs i).secondGrains (want i)
          - (d.rungs i).secondGrains (s.slotCnt i)).sum },
        moved || l.any fun i => decide (s.slotCnt i < want i)) := by
  induction l with
  | nil =>
    intro s moved _ _ _
    simp
    rfl
  | cons i l ih =>
    intro s moved hwant hle hcost
    obtain ⟨hi, hnd⟩ := nodup_cons.mp hnd
    simp only [map_cons, sum_cons] at hcost
    rw [foldlM_cons, h.closeGroup_eq (hwant i (by simp)) (hle i (by simp)) (by omega)]
    have hsame : ∀ j ∈ l, update s.slotCnt i (want i) j = s.slotCnt j := by
      intro j hj
      exact update_of_ne (fun heq : j = i => hi (heq ▸ hj)) _ _
    have hmap : (l.map fun j => (d.rungs j).secondGrains (want j)
        - (d.rungs j).secondGrains (update s.slotCnt i (want i) j))
          = l.map fun j => (d.rungs j).secondGrains (want j) - (d.rungs j).secondGrains
            (s.slotCnt j) :=
      map_congr_left fun j hj => by rw [hsame j hj]
    refine (ih hnd (fun j hj => ?_) (fun j hj => ?_) ?_).trans ?_
    · rw [hwant j (mem_cons_of_mem i hj)]
      dsimp only
      rw [hsame j hj]
    · exact (hsame j hj).trans_le (hle j (mem_cons_of_mem i hj))
    · rw [hmap]
      dsimp only
      omega
    · rw [hmap]
      have hany : (l.any fun j => decide (update s.slotCnt i (want i) j < want j))
          = l.any fun j => decide (s.slotCnt j < want j) := by
        rw [Bool.eq_iff_iff]
        simp only [any_eq_true, decide_eq_true_eq]
        constructor
        · rintro ⟨j, hj, hlt⟩
          exact ⟨j, hj, hsame j hj ▸ hlt⟩
        · rintro ⟨j, hj, hlt⟩
          exact ⟨j, hj, (hsame j hj).symm ▸ hlt⟩
      rw [hany]
      congr 1
      simp only [map_cons, sum_cons, any_cons, Prod.mk.injEq, Shares.mk.injEq, and_true,
        true_and, Bool.or_assoc]
      refine ⟨?_, by omega⟩
      funext j
      by_cases hj : j ∈ l
      · simp [hj]
      · by_cases heq : j = i
        · subst heq
          simp [hj]
        · simp [hj, heq]

omit h in
lemma closeAll_eq (hcost : d.bounded = true → d.fillCost s (d.filledTo s) ≤ s.remainingSecond) :
    d.closeAll s (d.fillCost s (d.filledTo s)) = .ok (some (d.fill s (d.filledTo s))) := by
  rw [closeAll, fill]
  cases hb : d.bounded with
  | false => rfl
  | true =>
    rw [if_pos rfl, if_pos rfl, sub_of_le (hcost hb)]
    rfl

/-- The class is moved to the highest level that the second budget can pay. -/
lemma Lawful.closeByLevel_eq (hb : d.bounded = true) {saturated : Bool}
    (hlevel : highestLevelFitting (d.closureSpend s) s.remainingSecond = .ok (level, saturated))
    (hcost : d.fillCost s (d.closedTo s level) ≤ s.remainingSecond) :
    d.closeByLevel s = .ok (if ∃ i, s.slotCnt i < d.closedTo s level i
      then some (d.fill s (d.closedTo s level)) else none) := by
  rw [closeByLevel, hlevel]
  rw [fillCost, Fin.sum_univ_def] at hcost
  change ((finRange n).foldlM (d.closeGroup (d.tops s) level) (s, false)).bind _ = _
  rw [h.foldlM_closeGroup (finRange n) (nodup_finRange n) (fun i _ => rfl)
    (fun i _ => h.le_closedTo level i) hcost]
  simp only [Except.bind, mem_finRange, if_true, Bool.false_or, any_eq_true,
    decide_eq_true_eq, true_and, fill, hb, fillCost, Fin.sum_univ_def]
  rfl

/-- **Filling**, as the source decides it: nothing to fill, all of it, or by a level. -/
lemma Lawful.closePaidGrains_eq : d.closePaidGrains s =
    if ∃ i, s.slotCnt i < d.tops s i then
      if d.bounded = false ∨ d.fillCost s (d.filledTo s) ≤ s.remainingSecond
      then .ok (some (d.fill s (d.filledTo s))) else d.closeByLevel s
    else .ok none := by
  have hany : ((finRange n).any fun i => decide (s.slotCnt i < d.tops s i)) = true
      ↔ ∃ i, s.slotCnt i < d.tops s i := by simp
  rw [Division.closePaidGrains]
  by_cases hwanted : ∃ i, s.slotCnt i < d.tops s i
  swap
  · rw [if_neg hwanted]
    exact if_neg fun h => hwanted (hany.mp h)
  rw [if_pos hwanted, if_pos (hany.mpr hwanted), h.closureNeed_eq]
  by_cases hall : d.bounded = false ∨ d.fillCost s (d.filledTo s) ≤ s.remainingSecond
  · rw [if_pos hall]
    refine (if_pos hall).trans (closeAll_eq fun hb => ?_)
    exact hall.resolve_left (by simp [hb])
  · rw [if_neg hall]
    exact if_neg hall

/-- The level to which the class is moved fits. -/
lemma Lawful.closureLevel (s : Shares n) : ∃ level saturated,
    highestLevelFitting (d.closureSpend s) s.remainingSecond = .ok (level, saturated)
      ∧ d.fillCost s (d.closedTo s level) ≤ s.remainingSecond := by
  refine highestLevelFitting_spec (h.closureSpend_eq (s := s)) s.remainingSecond ?_
  refine (le_of_eq (Finset.sum_eq_zero fun i _ => ?_)).trans (Nat.zero_le _)
  rw [h.closedTo_zero, Nat.sub_self]

lemma Lawful.closedTo_le_tops (level : ℕ) (i : Fin n) : d.closedTo s level i ≤ d.tops s i := by
  rw [closedTo]
  split_ifs
  · exact closureTarget_le _ i _ level
  · exact h.le_tops i

lemma Lawful.filledTo_le_tops (i : Fin n) : d.filledTo s i ≤ d.tops s i := by
  rw [filledTo]
  split_ifs
  · exact le_rfl
  · exact h.le_tops i

/-- **Filling** moves groups between their slots and their tops, within the second budget; it moves
one at least, or nothing. -/
lemma Lawful.closePaidGrains (hclosed : ∀ i, (d.rungs i).onSecond = false →
    (d.rungs i).freeRun (s.slotCnt i) = s.slotCnt i) :
    d.closePaidGrains s = .ok none ∨ ∃ want : Fin n → ℕ,
      d.closePaidGrains s = .ok (some (d.fill s want))
        ∧ (∀ i, s.slotCnt i ≤ want i) ∧ (∀ i, want i ≤ d.tops s i)
        ∧ (d.bounded = true → d.fillCost s want ≤ s.remainingSecond) ∧ ∃ i,
          s.slotCnt i < want i := by
  rw [h.closePaidGrains_eq]
  by_cases hwanted : ∃ i, s.slotCnt i < d.tops s i
  swap
  · exact .inl (if_neg hwanted)
  rw [if_pos hwanted]
  by_cases hall : d.bounded = false ∨ d.fillCost s (d.filledTo s) ≤ s.remainingSecond
  · obtain ⟨i, hlt⟩ := hwanted
    refine .inr ⟨_, if_pos hall, h.le_filledTo, h.filledTo_le_tops, fun hb => ?_, i, ?_⟩
    · exact hall.resolve_left (by simp [hb])
    · -- the quota alone pays for the other groups, so they are at their tops
      rw [filledTo]
      cases hon : (d.rungs i).onSecond with
      | true => exact hlt
      | false =>
        rw [tops, (h.rungs i).freeRunOnQuota_eq hon, hclosed i hon] at hlt
        exact absurd hlt (lt_irrefl _)
  · rw [if_neg hall]
    obtain ⟨level, saturated, hlevel, hcost⟩ := h.closureLevel s
    rw [h.closeByLevel_eq ((Bool.not_eq_false _).mp (not_or.mp hall).1) hlevel hcost]
    by_cases hmoved : ∃ i, s.slotCnt i < d.closedTo s level i
    · rw [if_pos hmoved]
      exact .inr ⟨_, rfl, h.le_closedTo level, h.closedTo_le_tops level, fun _ => hcost, hmoved⟩
    · exact .inl (congrArg Except.ok (if_neg hmoved))

end

end Division

end TrtLlm.CacheLevelStorage
