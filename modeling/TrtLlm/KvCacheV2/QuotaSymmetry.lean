import TrtLlm.KvCacheV2.QuotaBudgets
import Mathlib.Data.Fin.Tuple.Sort

/-!
The division of a quota does not depend on the order of the pool groups.

A relabelling of the groups relabels everything that the division computes, as long as it keeps the
order of groups that are tied (`Stable`): the index of a group decides only between groups with
equal ratios and identities.  Any reordering agrees on the groups' data with one that keeps this
order (`exists_stable_perm`).

* `Division.Lawful.divide_permute`: **a stable relabelling** relabels the result;
* `quotaDivision_order_independent`: **order independence** of the division.
-/

namespace TrtLlm.CacheLevelStorage

open List Function

/-- A reordering, replaced by one that gives the same values and keeps the order of equal ones. -/
lemma exists_stable_perm {n : ℕ} {α : Type*} [LinearOrder α] (f : Fin n → α)
    (σ : Equiv.Perm (Fin n)) : ∃ τ : Equiv.Perm (Fin n), (∀ i, f (τ i) = f (σ i))
      ∧ ∀ i j, i < j → f (τ i) = f (τ j) → τ i < τ j := by
  obtain ⟨-, hsort⟩ := Tuple.eq_sort_iff.mp (rfl : Tuple.sort f = Tuple.sort f)
  obtain ⟨-, hsort'⟩ := Tuple.eq_sort_iff.mp (rfl : Tuple.sort (f ∘ σ) = Tuple.sort (f ∘ σ))
  have hsame : ∀ i, f (σ (Tuple.sort (f ∘ σ) i)) = f (Tuple.sort f i) :=
    congrFun Tuple.comp_perm_comp_sort_eq_comp_sort
  refine ⟨(Tuple.sort (f ∘ σ)).symm.trans (Tuple.sort f), fun i => ?_, fun i j hlt heq => ?_⟩
  · have hi := hsame ((Tuple.sort (f ∘ σ)).symm i)
    rw [Equiv.apply_symm_apply] at hi
    exact hi.symm
  · -- both sorts keep the order of equal values
    rw [Equiv.trans_apply, Equiv.trans_apply] at heq ⊢
    rcases lt_trichotomy ((Tuple.sort (f ∘ σ)).symm i) ((Tuple.sort (f ∘ σ)).symm j) with h | h | h
    · exact hsort _ _ h heq
    · exact absurd ((Tuple.sort (f ∘ σ)).symm.injective h) hlt.ne
    · have hback := hsort' _ _ h (by
        rw [comp_apply, comp_apply, hsame, hsame]
        exact heq.symm)
      rw [Equiv.apply_symm_apply, Equiv.apply_symm_apply] at hback
      exact absurd hback hlt.not_gt

/-! ### Relabelling -/

/-- The groups in another order. -/
def Division.permute {n : ℕ} (d : Division n) (τ : Equiv.Perm (Fin n)) : Division n :=
  { d with
    rungs := fun i => d.rungs (τ i)
    ratio := fun i => d.ratio (τ i)
    floorSlots := fun i => d.floorSlots (τ i)
    identities := fun i => d.identities (τ i) }

def Shares.permute {n : ℕ} (s : Shares n) (τ : Equiv.Perm (Fin n)) : Shares n :=
  { s with
    slotCnt := fun i => s.slotCnt (τ i)
    corrections := fun i => s.corrections (τ i) }

/-- A candidate under the new place of its group. -/
def Candidate.permute {n : ℕ} (c : Candidate n) (τ : Equiv.Perm (Fin n)) : Candidate n :=
  { c with pgIdx := τ.symm c.pgIdx }

namespace Division

variable {n : ℕ} {d : Division n} {granularity : ℕ} {τ : Equiv.Perm (Fin n)}

/-- The relabelling keeps the order of groups that are tied. -/
def Stable (d : Division n) (τ : Equiv.Perm (Fin n)) : Prop :=
  ∀ i j, i < j → d.ratio (τ i) = d.ratio (τ j) → d.identities (τ i) = d.identities (τ j) → τ i < τ j

@[simp] lemma permute_bounded : (d.permute τ).bounded = d.bounded := rfl

@[simp] lemma permute_rungs (i : Fin n) : (d.permute τ).rungs i = d.rungs (τ i) := rfl

@[simp] lemma permute_ratio (i : Fin n) : (d.permute τ).ratio i = d.ratio (τ i) := rfl

@[simp] lemma permute_floorSlots (i : Fin n) : (d.permute τ).floorSlots i = d.floorSlots (τ i) :=
  rfl

@[simp] lemma permute_remainingQuota : (d.permute τ).remainingQuota = d.remainingQuota := rfl

@[simp] lemma permute_remainingSecond : (d.permute τ).remainingSecond = d.remainingSecond := rfl

/-- A sum over the groups in another order. -/
lemma sum_permute (τ : Equiv.Perm (Fin n)) (f : Fin n → ℕ) : ∑ i, f (τ i) = ∑ i, f i :=
  Equiv.sum_comp τ f

lemma exists_permute {p : Fin n → Prop} : (∃ i, p (τ i)) ↔ ∃ i, p i := τ.surjective.exists.symm

lemma anyOnSecond_permute : (d.permute τ).anyOnSecond = d.anyOnSecond := by
  rw [Bool.eq_iff_iff, anyOnSecond, anyOnSecond, any_eq_true, any_eq_true]
  simpa only [mem_finRange, true_and, permute_rungs] using
    exists_permute (p := fun i => (d.rungs i).onSecond = true)

lemma hasLevel2_permute : (d.permute τ).hasLevel2 = d.hasLevel2 := by
  rw [hasLevel2, hasLevel2, anyOnSecond_permute]
  rfl

lemma secondaryBinds_permute (lv : Levels) :
    (d.permute τ).secondaryBinds lv = d.secondaryBinds lv := by
  rw [secondaryBinds, secondaryBinds, hasLevel2_permute]

lemma cappedLevel_permute (level2 : ℕ) (i : Fin n) (level : ℕ) :
    (d.permute τ).cappedLevel level2 i level = d.cappedLevel level2 (τ i) level := by
  rw [cappedLevel, cappedLevel, hasLevel2_permute]
  rfl

lemma placedAt_permute (lv : Levels) (i : Fin n) :
    (d.permute τ).placedAt lv i = d.placedAt lv (τ i) := by
  rw [placedAt, placedAt, cappedLevel_permute]
  rfl

lemma classShare_permute : (d.permute τ).classShare = d.classShare :=
  Equiv.sum_comp τ fun i => if (d.rungs i).onSecond then d.ratio i else 0

section
variable (h : d.Lawful granularity)
include h

lemma Lawful.permute (τ : Equiv.Perm (Fin n)) : (d.permute τ).Lawful granularity :=
  ⟨fun i => h.rungs (τ i), fun i => h.ratio_pos (τ i), fun i => h.floor_closed (τ i)⟩

/-! ### Levels -/

lemma Lawful.spendSecond_permute : (d.permute τ).spendSecond = d.spendSecond := by
  funext level
  rw [(h.permute τ).spendSecond_eq, h.spendSecond_eq]
  exact congrArg Except.ok (sum_permute τ fun i => (d.rungs i).secondGrains (d.nearestRung i level)
    - (d.rungs i).secondGrains (d.floorSlots i))

lemma Lawful.spendPrimary_permute (level2 : ℕ) :
    (d.permute τ).spendPrimary level2 = d.spendPrimary level2 := by
  funext level
  rw [(h.permute τ).spendPrimary_eq, h.spendPrimary_eq]
  simp only [cappedLevel_permute]
  exact congrArg Except.ok (sum_permute τ fun i =>
    (d.rungs i).quotaGrains (d.nearestRung i (d.cappedLevel level2 i level))
      - (d.rungs i).quotaGrains (d.floorSlots i))

/-- The levels are those of the groups in any order. -/
lemma Lawful.findLevels_permute : (d.permute τ).findLevels = d.findLevels := by
  have h2 : (d.permute τ).findLevel2 = d.findLevel2 := by
    rw [Division.findLevel2, Division.findLevel2, hasLevel2_permute, h.spendSecond_permute]
    rfl
  have h1 : (d.permute τ).findLevel1 = d.findLevel1 := by
    funext level2
    rw [Division.findLevel1, Division.findLevel1, h.spendPrimary_permute]
    rfl
  rw [Division.findLevels, Division.findLevels, h2, h1]

omit h in
lemma placed_permute (lv : Levels) : (d.permute τ).placed lv = (d.placed lv).permute τ := by
  have hquota := sum_permute τ fun i =>
    (d.rungs i).quotaGrains (d.placedAt lv i) - (d.rungs i).quotaGrains (d.floorSlots i)
  have hsecond := sum_permute τ fun i =>
    (d.rungs i).secondGrains (d.placedAt lv i) - (d.rungs i).secondGrains (d.floorSlots i)
  simp only [placed, Shares.permute, placedAt_permute, permute_bounded, permute_rungs,
    permute_floorSlots, permute_remainingQuota, permute_remainingSecond, hquota, hsecond]
  congr 1
  exact funext (placedAt_permute lv)

/-! ### Filling -/

omit h in
lemma closureTarget_permute (tops : Fin n → ℕ) (i : Fin n) (slots level : ℕ) :
    (d.permute τ).closureTarget (fun i => tops (τ i)) i slots level
      = d.closureTarget tops (τ i) slots level := by
  rw [closureTarget, closureTarget, classShare_permute]
  rfl

variable {s : Shares n}

omit h in
lemma closedTo_permute (level : ℕ) (i : Fin n) :
    (d.permute τ).closedTo (s.permute τ) level i = d.closedTo s level (τ i) := by
  rw [closedTo, closedTo]
  congr 1
  exact closureTarget_permute (d.tops s) i _ level

omit h in
lemma fillCost_permute (want : Fin n → ℕ) :
    (d.permute τ).fillCost (s.permute τ) (fun i => want (τ i)) = d.fillCost s want :=
  sum_permute τ fun i => (d.rungs i).secondGrains (want i) - (d.rungs i).secondGrains (s.slotCnt i)

omit h in
lemma fill_permute (want : Fin n → ℕ) :
    (d.permute τ).fill (s.permute τ) (fun i => want (τ i)) = (d.fill s want).permute τ := by
  rw [fill, fill, fillCost_permute]
  rfl

lemma Lawful.closureSpend_permute : (d.permute τ).closureSpend (s.permute τ)
    = d.closureSpend s := by
  funext level
  rw [(h.permute τ).closureSpend_eq, h.closureSpend_eq,
    show (d.permute τ).closedTo (s.permute τ) level = fun i => d.closedTo s level (τ i) from
      funext (closedTo_permute level), fillCost_permute]

lemma Lawful.closeByLevel_permute (hb : d.bounded = true) : (d.permute τ).closeByLevel (s.permute τ)
      = (d.closeByLevel s).map (Option.map fun s => s.permute τ) := by
  obtain ⟨level, saturated, hlevel, hcost⟩ := h.closureLevel s
  have hclosed : (d.permute τ).closedTo (s.permute τ) level = fun i => d.closedTo s level (τ i) :=
    funext (closedTo_permute level)
  have hmoved : (∃ i, (s.permute τ).slotCnt i < (d.permute τ).closedTo (s.permute τ) level i)
      ↔ ∃ i, s.slotCnt i < d.closedTo s level i := by
    rw [hclosed]
    exact exists_permute (p := fun i => s.slotCnt i < d.closedTo s level i)
  rw [h.closeByLevel_eq hb hlevel hcost, (h.permute τ).closeByLevel_eq hb
    ((congrArg (highestLevelFitting · s.remainingSecond) h.closureSpend_permute).trans hlevel)
    (by rw [hclosed, fillCost_permute]; exact hcost)]
  by_cases hm : ∃ i, s.slotCnt i < d.closedTo s level i
  · rw [if_pos hm, if_pos (hmoved.mpr hm), hclosed, fill_permute]
    rfl
  · rw [if_neg hm, if_neg (fun hm' => hm (hmoved.mp hm'))]
    rfl

/-- The paid grains of the groups in another order. -/
lemma Lawful.closePaidGrains_permute : (d.permute τ).closePaidGrains (s.permute τ)
    = (d.closePaidGrains s).map (Option.map fun s => s.permute τ) := by
  rw [h.closePaidGrains_eq, (h.permute τ).closePaidGrains_eq]
  have hwanted : (∃ i, (s.permute τ).slotCnt i < (d.permute τ).tops (s.permute τ) i)
      ↔ ∃ i, s.slotCnt i < d.tops s i :=
    exists_permute (p := fun i => s.slotCnt i < d.tops s i)
  have hfilled : (d.permute τ).filledTo (s.permute τ) = fun i => d.filledTo s (τ i) := rfl
  rw [hfilled, fillCost_permute, fill_permute]
  by_cases hw : ∃ i, s.slotCnt i < d.tops s i
  swap
  · rw [if_neg hw, if_neg (fun hw' => hw (hwanted.mp hw'))]
    rfl
  rw [if_pos hw, if_pos (hwanted.mpr hw)]
  by_cases hall : d.bounded = false ∨ d.fillCost s (d.filledTo s) ≤ s.remainingSecond
  · rw [if_pos hall]
    exact if_pos hall
  · rw [if_neg hall]
    refine (if_neg hall).trans ?_
    exact h.closeByLevel_permute ((Bool.not_eq_false _).mp (not_or.mp hall).1)

end

/-! ### Steps -/

variable {s : Shares n}

lemma offer_permute (lv : Levels) (i : Fin n) (next d1 d2 rest : ℕ) :
    (d.permute τ).offer lv (s.permute τ) i next d1 d2 rest
      = (d.offer lv s (τ i) next d1 d2 rest).map fun c => c.permute τ := by
  have hcap : (d.permute τ).cap lv i rest = d.cap lv (τ i) rest := by
    rw [cap, cap, secondaryBinds_permute]
    rfl
  rw [offer, offer, hcap, secondaryBinds_permute]
  simp only [apply_ite (Option.map _), Option.map_none, Option.map_some, Candidate.permute,
    Equiv.symm_apply_apply]
  rfl

lemma candidate_permute (lv : Levels) (placed : ℕ) (i : Fin n) :
    (d.permute τ).candidate lv (s.permute τ) placed i
      = (d.candidate lv s placed (τ i)).map (Option.map fun c => c.permute τ) := by
  change _ = (Option.map fun c => c.permute τ) <$> d.candidate lv s placed (τ i)
  rw [Division.candidate, Division.candidate, map_bind]
  refine bind_congr fun d1 => ?_
  rw [map_bind]
  refine bind_congr fun d2 => ?_
  by_cases hpoor : s.remainingQuota < d1 ∨ (d.bounded ∧ s.remainingSecond < d2)
  · rw [if_pos hpoor]
    exact if_pos hpoor
  rw [if_neg hpoor, map_bind]
  refine (if_neg hpoor).trans (bind_congr fun rest => ?_)
  rw [offer_permute]
  rfl

/-- The place of a group decides only between groups that are tied, and it decides as before. -/
lemma Stable.stepKey_lt (hτ : d.Stable τ) (c c' : Candidate n) :
    (d.permute τ).stepKey (c.permute τ) < (d.permute τ).stepKey (c'.permute τ)
      ↔ d.stepKey c < d.stepKey c' := by
  have hplace : d.ratio c.pgIdx = d.ratio c'.pgIdx → d.identities c.pgIdx = d.identities c'.pgIdx →
      (τ.symm c.pgIdx < τ.symm c'.pgIdx ↔ c.pgIdx < c'.pgIdx) := by
    intro hratio hident
    have hback := hτ (τ.symm c.pgIdx) (τ.symm c'.pgIdx)
    have hforth := hτ (τ.symm c'.pgIdx) (τ.symm c.pgIdx)
    rw [Equiv.apply_symm_apply, Equiv.apply_symm_apply] at hback hforth
    refine ⟨fun hlt => hback hlt hratio hident, fun hlt => ?_⟩
    rcases lt_trichotomy (τ.symm c.pgIdx) (τ.symm c'.pgIdx) with h | h | h
    · exact h
    · exact absurd (τ.symm.injective h) hlt.ne
    · exact absurd (hforth h hratio.symm hident.symm) hlt.not_gt
  simp only [stepKey, Candidate.permute, Division.permute, Equiv.apply_symm_apply,
    Prod.Lex.toLex_lt_toLex, OrderDual.toDual_lt_toDual, OrderDual.toDual_inj]
  refine or_congr_right (and_congr_right fun _ => or_congr_right (and_congr_right fun _ =>
    or_congr_right (and_congr_right fun hratio =>
      or_congr_right (and_congr_right fun hident => ?_))))
  exact hplace hratio hident

/-- The lowest crossing of the same candidates in another order. -/
lemma lowestCrossing_permute {c c' : Candidate n} {cands cands' : List (Candidate n)}
    (hperm : (c' :: cands').Perm ((c :: cands).map fun c => c.permute τ)) :
    lowestCrossing c' cands' = lowestCrossing c cands := by
  obtain ⟨hle, low, hlow, heq⟩ := lowestCrossing_spec c cands
  obtain ⟨hle', low', hlow', heq'⟩ := lowestCrossing_spec c' cands'
  apply le_antisymm
  · exact (hle' _ (hperm.mem_iff.mpr (mem_map_of_mem hlow))).trans_eq heq
  · obtain ⟨x, hx, rfl⟩ := mem_map.mp (hperm.mem_iff.mp hlow')
    exact (hle x hx).trans_eq heq'

/-- The same step is chosen, if every group offers one at most. -/
lemma Stable.choose_permute (hτ : d.Stable τ) {c c' : Candidate n}
    {cands cands' : List (Candidate n)}
    (hperm : (c' :: cands').Perm ((c :: cands).map fun c => c.permute τ))
    (hcross : ∀ cand ∈ c :: cands, 0 ≤ cand.crossing)
    (hone : ∀ x ∈ c :: cands, ∀ y ∈ c :: cands, x.pgIdx = y.pgIdx → x = y) :
    (d.permute τ).choose (lowestCrossing c' cands') (c' :: cands')
      = (d.choose (lowestCrossing c cands) (c :: cands)).map fun c => c.permute τ := by
  have hcross' : ∀ cand ∈ c' :: cands', 0 ≤ cand.crossing := by
    intro cand hcand
    obtain ⟨x, hx, rfl⟩ := mem_map.mp (hperm.mem_iff.mp hcand)
    exact hcross x hx
  obtain ⟨best, heq, hin, hnear, hleast⟩ := choose_spec (d := d) hcross
  obtain ⟨best', heq', hin', hnear', hleast'⟩ := choose_spec (d := d.permute τ) hcross'
  rw [heq, heq', Option.map_some]
  congr 1
  rw [lowestCrossing_permute hperm] at hnear' hleast'
  obtain ⟨x, hx, rfl⟩ := mem_map.mp (hperm.mem_iff.mp hin')
  -- each of the two is no dearer than the other
  have hle : d.stepKey best ≤ d.stepKey x := hleast x hx hnear'
  have hge : d.stepKey x ≤ d.stepKey best := by
    have h := hleast' (best.permute τ) (hperm.mem_iff.mpr (mem_map_of_mem hin)) hnear
    exact not_lt.mp fun hlt => h.not_gt ((hτ.stepKey_lt best x).mpr hlt)
  have hkey := hge.antisymm hle
  have hplace : x.pgIdx = best.pgIdx := by
    simp only [stepKey, EmbeddingLike.apply_eq_iff_eq, Prod.mk.injEq] at hkey
    exact hkey.2.2.2.2
  rw [hone x hx best hin hplace]

lemma taken_permute (c : Candidate n) :
    (d.permute τ).taken (s.permute τ) (c.permute τ) = (d.taken s c).permute τ := by
  have hupdate : ∀ (f : Fin n → ℕ) (v : ℕ),
      update (fun i => f (τ i)) (τ.symm c.pgIdx) v
        = fun i => update f c.pgIdx v (τ i) :=
    fun f v => (update_comp_equiv f τ c.pgIdx v).symm
  simp only [taken, Shares.permute, Candidate.permute, permute_rungs, permute_bounded,
    Equiv.apply_symm_apply, hupdate]
  congr 1
  split_ifs
  · rfl
  · rfl

variable (h : d.Lawful granularity) (hτ : d.Stable τ)
include h hτ

/-- A round for the groups in another order. -/
lemma Lawful.promote_permute (lv : Levels) : (d.permute τ).promote lv (s.permute τ)
      = (d.promote lv s).map (Option.map fun s => s.permute τ) := by
  obtain ⟨offers, hcand, hoffers, heq⟩ := h.promote_eq lv s
  obtain ⟨offers', hcand', -, heq'⟩ := (h.permute τ).promote_eq lv (s.permute τ)
  have hmap : offers' = fun i => (offers (τ i)).map fun c => c.permute τ := by
    funext i
    have hi := hcand' i
    rw [show ∑ j, ((d.permute τ).rungs j).allBytes ((s.permute τ).slotCnt j)
        = ∑ j, (d.rungs j).allBytes (s.slotCnt j) from
      sum_permute τ fun j => (d.rungs j).allBytes (s.slotCnt j), candidate_permute, hcand] at hi
    exact (Except.ok.inj hi).symm
  have hperm : ((finRange n).filterMap offers').Perm
      (((finRange n).filterMap offers).map fun c => c.permute τ) := by
    rw [hmap, map_filterMap]
    have hfin : ((finRange n).map τ).Perm (finRange n) :=
      (perm_ext_iff_of_nodup ((nodup_finRange n).map τ.injective)
        (nodup_finRange n)).mpr fun i => by
          simp only [mem_map, mem_finRange, true_and, iff_true]
          exact τ.surjective i
    have hcomp := hfin.filterMap fun i => (offers i).map fun c => c.permute τ
    rwa [filterMap_map] at hcomp
  have hmem : ∀ c ∈ (finRange n).filterMap offers, offers c.pgIdx = some c
      ∧ d.Offers s c.pgIdx c := by
    intro c hc
    obtain ⟨i, -, hi⟩ := mem_filterMap.mp hc
    have hoffer := hoffers i c hi
    rw [hoffer.pgIdx]
    exact ⟨hi, hoffer⟩
  rw [heq, heq']
  cases hc : (finRange n).filterMap offers with
  | nil =>
    rw [hc] at hperm
    rw [Perm.eq_nil hperm]
    exact h.closePaidGrains_permute
  | cons c cands =>
    rw [hc] at hperm hmem
    cases hc' : (finRange n).filterMap offers' with
    | nil =>
      rw [hc'] at hperm
      exact absurd hperm.symm.eq_nil (cons_ne_nil _ _)
    | cons c' cands' =>
      rw [hc'] at hperm
      have hcross : ∀ cand ∈ c :: cands, 0 ≤ cand.crossing := fun cand hcand =>
        (hmem cand hcand).2.crossing
      have hone : ∀ x ∈ c :: cands, ∀ y ∈ c :: cands, x.pgIdx = y.pgIdx → x = y := by
        intro x hx y hy hsame
        exact Option.some.inj
          ((hmem x hx).1.symm.trans ((congrArg offers hsame).trans (hmem y hy).1))
      obtain ⟨best, hbest, hin, -⟩ := choose_spec (d := d) hcross
      have hoffer := (hmem best hin).2
      have hoffer' : (d.permute τ).Offers (s.permute τ) (best.permute τ).pgIdx
          (best.permute τ) := by
        refine ⟨rfl, ?_, hoffer.crossing, ?_, ?_⟩
        all_goals
          simp only [Candidate.permute, Shares.permute, permute_rungs, permute_bounded,
            Equiv.apply_symm_apply]
        · exact hoffer.next
        · exact hoffer.quota
        · exact hoffer.second
      rw [takeCheapest, takeCheapest, hτ.choose_permute hperm hcross hone, hbest, Option.map_some]
      dsimp only
      rw [hoffer.takeStep h, hoffer'.takeStep (h.permute τ), taken_permute]
      rfl

/-- The loop for the groups in another order. -/
lemma Lawful.promoteAll_permute (lv : Levels) (fuel : ℕ) :
    ∀ s : Shares n, (d.permute τ).promoteAll lv fuel (s.permute τ)
      = (d.promoteAll lv fuel s).map fun s => s.permute τ := by
  induction fuel with
  | zero => exact fun s => rfl
  | succ fuel ih =>
    intro s
    rw [promoteAll, promoteAll, h.promote_permute hτ]
    cases d.promote lv s with
    | error e => rfl
    | ok found =>
      cases found with
      | none => rfl
      | some next => exact ih next

/-- **A stable relabelling** relabels the result. -/
lemma Lawful.divide_permute (fuel : ℕ) :
    (d.permute τ).divide fuel = (d.divide fuel).map fun counts i => counts (τ i) := by
  obtain ⟨lv, hlv, hpay, hpay2⟩ := h.placed_fits
  have hplace' : (d.permute τ).place lv = .ok ((d.placed lv).permute τ) := by
    rw [(h.permute τ).place ?_ ?_, placed_permute]
    · simp only [placedAt_permute]
      exact (sum_permute τ fun i => (d.rungs i).quotaGrains (d.placedAt lv i)
        - (d.rungs i).quotaGrains (d.floorSlots i)).trans_le hpay
    · intro hb
      simp only [placedAt_permute]
      exact (sum_permute τ fun i => (d.rungs i).secondGrains (d.placedAt lv i)
        - (d.rungs i).secondGrains (d.floorSlots i)).trans_le (hpay2 hb)
  rw [Division.divide, Division.divide, h.findLevels_permute, hlv]
  change ((d.permute τ).place lv).bind _ = Except.map _ ((d.place lv).bind _)
  rw [hplace', h.place hpay hpay2]
  change ((d.permute τ).promoteAll lv fuel _).bind _
    = Except.map _ ((d.promoteAll lv fuel _).bind _)
  rw [h.promoteAll_permute hτ]
  cases d.promoteAll lv fuel (d.placed lv) with
  | error | ok => rfl

end Division

/-! ### The arguments in another order -/

/-- The order in which a second budget names the pools of a group does not matter. -/
lemma rungsOf_perm {sizes pools pools' : List ℕ} {granularity grain2 : ℕ} (h : pools.Perm pools') :
    rungsOf sizes pools granularity grain2 = rungsOf sizes pools' granularity grain2 := by
  have hpaid : poolsPaidByQuota sizes.length pools = poolsPaidByQuota sizes.length pools' :=
    filter_congr fun poolIdx _ => by simp only [h.mem_iff]
  have hgrains : grainsOf sizes.length pools granularity grain2
      = grainsOf sizes.length pools' granularity grain2 :=
    map_congr_left fun poolIdx _ => by simp only [h.mem_iff]
  have hsecond : (fun slots => grainsForSlots slots sizes pools grain2)
      = fun slots => grainsForSlots slots sizes pools' grain2 :=
    funext fun slots => (h.map _).sum_eq
  simp only [rungsOf, hpaid, hgrains, hsecond, h.isEmpty_eq]

/-- What is said of a group; the order in which its second pools are named is no part of it. -/
structure GroupData where
  slotSizes : List ℕ
  secondPools : Multiset ℕ
  ratio : ℚ
  minSlots : ℤ

namespace Arguments

variable {n : ℕ} {a : Arguments n} {σ : Equiv.Perm (Fin n)}

def groupData (a : Arguments n) (i : Fin n) : GroupData :=
  ⟨a.slotSizeLists i, a.secondPools i, a.ratioList i, a.minSlots i⟩

/-- The pool groups in another order. -/
def permute (a : Arguments n) (σ : Equiv.Perm (Fin n)) : Arguments n where
  quota := a.quota
  slotSizeLists i := a.slotSizeLists (σ i)
  slotSize_pos i := a.slotSize_pos (σ i)
  ratioList i := a.ratioList (σ i)
  granularity := a.granularity
  minSlots i := a.minSlots (σ i)
  secondBudget := a.secondBudget.map fun b => { b with pools := fun i => b.pools (σ i) }

lemma secondPools_permute (i : Fin n) : (a.permute σ).secondPools i = a.secondPools (σ i) := by
  rw [secondPools, secondPools, permute, Option.map_map]
  rfl

lemma grain2_permute : (a.permute σ).grain2 = a.grain2 := by
  rw [grain2, grain2, permute, Option.map_map]
  rfl

lemma secondQuota_permute : (a.permute σ).secondQuota = a.secondQuota := by
  rw [secondQuota, secondQuota, permute, Option.bind_map]
  rfl

lemma budget2Grains_permute : (a.permute σ).budget2Grains = a.budget2Grains := by
  rw [budget2Grains, budget2Grains, secondQuota_permute, grain2_permute]

lemma rungs_permute (i : Fin n) : (a.permute σ).rungs i = a.rungs (σ i) := by
  rw [rungs, rungs, secondPools_permute, grain2_permute]
  rfl

lemma floorSlots_permute (i : Fin n) : (a.permute σ).floorSlots i = a.floorSlots (σ i) := by
  rw [floorSlots, floorSlots, rungs_permute]
  rfl

lemma identity_permute (i : Fin n) : (a.permute σ).identity i = a.identity (σ i) := by
  simp only [identity, secondPools_permute]
  rfl

lemma floorQuota_permute : (a.permute σ).floorQuota = a.floorQuota := by
  simp only [floorQuota, rungs_permute, floorSlots_permute]
  exact Equiv.sum_comp σ fun i => (a.rungs i).quotaGrains (a.floorSlots i)

lemma floorSecond_permute : (a.permute σ).floorSecond = a.floorSecond := by
  simp only [floorSecond, rungs_permute, floorSlots_permute]
  exact Equiv.sum_comp σ fun i => (a.rungs i).secondGrains (a.floorSlots i)

lemma division_permute : (a.permute σ).division = a.division.permute σ := by
  have htotal : ∑ j, (a.permute σ).ratioList j = ∑ j, a.ratioList j := Equiv.sum_comp σ a.ratioList
  simp only [division, Division.permute, funext rungs_permute, funext floorSlots_permute,
    funext identity_permute, secondQuota_permute, budget2Grains_permute, floorQuota_permute,
    floorSecond_permute, htotal]
  rfl

lemma groupData_permute (i : Fin n) : (a.permute σ).groupData i = a.groupData (σ i) := by
  rw [groupData, groupData, secondPools_permute]
  rfl

/-- The checks do not see the order. -/
lemma Accepted.permute (h : a.Accepted) (σ : Equiv.Perm (Fin n)) : (a.permute σ).Accepted where
  granularity := h.granularity
  grain2 := grain2_permute (a := a) ▸ h.grain2
  pools i := by
    rw [secondPools_permute]
    exact h.pools (σ i)
  group i := by
    rw [secondPools_permute]
    exact h.group (σ i)
  floorSecond hb := by
    rw [floorSecond_permute, budget2Grains_permute]
    exact h.floorSecond (secondQuota_permute (a := a) ▸ hb)
  floorQuota := by
    rw [floorQuota_permute]
    exact h.floorQuota

/-- What settles a tie, the place of a group apart. -/
def tieKey (a : Arguments n) (i : Fin n) : ℚ ×ₗ Identity := toLex (a.ratioList i, a.identity i)

/-- Groups that are tied have the same data. -/
lemma groupData_eq_of_tieKey {i j : Fin n} (h : a.tieKey i = a.tieKey j) :
    a.groupData i = a.groupData j := by
  simp only [tieKey, identity, EmbeddingLike.apply_eq_iff_eq, Prod.mk.injEq] at h
  obtain ⟨hratio, -, -, hsizes, hpools, hmin⟩ := h
  have hperm : (a.secondPools i).Perm (a.secondPools j) :=
    ((a.secondPools i).mergeSort_perm _).symm.trans
      ((Perm.of_eq hpools).trans ((a.secondPools j).mergeSort_perm _))
  rw [groupData, groupData, hsizes, hratio, hmin, Multiset.coe_eq_coe.mpr hperm]

lemma rungs_eq_of_groupData {i j : Fin n} (h : a.groupData i = a.groupData j) :
    a.rungs i = a.rungs j := by
  simp only [groupData, GroupData.mk.injEq, Multiset.coe_eq_coe] at h
  rw [rungs, rungs, h.1, rungsOf_perm h.2.1]

/-- Two orders that agree on the data of the groups give the same division. -/
lemma division_permute_congr {τ : Equiv.Perm (Fin n)} (h : ∀ i, a.tieKey (τ i) = a.tieKey (σ i)) :
    a.division.permute σ = a.division.permute τ := by
  have hdata : ∀ i, a.groupData (σ i) = a.groupData (τ i) := fun i =>
    groupData_eq_of_tieKey (h i).symm
  have hrungs : ∀ i, a.rungs (σ i) = a.rungs (τ i) := fun i => rungs_eq_of_groupData (hdata i)
  have hratio : ∀ i, a.ratioList (σ i) = a.ratioList (τ i) := fun i =>
    congrArg GroupData.ratio (hdata i)
  have hfloor : ∀ i, a.floorSlots (σ i) = a.floorSlots (τ i) := by
    intro i
    have hmin : a.minSlots (σ i) = a.minSlots (τ i) := congrArg GroupData.minSlots (hdata i)
    rw [floorSlots, floorSlots, hrungs, hmin]
  have hident : ∀ i, a.identity (σ i) = a.identity (τ i) := fun i =>
    (congrArg (fun key => (ofLex key).2) (h i)).symm
  simp only [division, Division.permute, hrungs, hratio, hfloor, hident]

/-- **Order independence**: the pool groups in another order are accepted too, and each group gets
the same slots, up to groups with the same data. -/
theorem quotaDivision_order_independent (a : Arguments n) (σ : Equiv.Perm (Fin n))
    {counts : Fin n → ℕ} (h : a.ratioToSlotCountList = .ok counts) :
    ∃ counts', (a.permute σ).ratioToSlotCountList = .ok counts'
      ∧ Finset.univ.val.map (fun i => ((a.permute σ).groupData i, counts' i))
        = Finset.univ.val.map fun i => (a.groupData i, counts i) := by
  rcases a.ratioToSlotCountList_cases with ⟨hacc, hdivide⟩ | ⟨-, e, herr, -⟩
  swap
  · rw [herr] at h
    exact nomatch h
  obtain ⟨τ, hsame, hstable⟩ := exists_stable_perm a.tieKey σ
  have hτ : a.division.Stable τ := by
    intro i j hlt hratio hident
    refine hstable i j hlt ?_
    have htotal : ∑ k, a.ratioList k ≠ 0 :=
      (Finset.sum_pos (fun k _ => (hacc.group k).1) ⟨i, Finset.mem_univ i⟩).ne'
    have hratio' : a.ratioList (τ i) = a.ratioList (τ j) := (div_left_inj' htotal).mp hratio
    have hident' : a.identity (τ i) = a.identity (τ j) := hident
    rw [tieKey, tieKey, hratio', hident']
  have hresult : (a.permute σ).ratioToSlotCountList = .ok fun i => counts (τ i) := by
    rcases (a.permute σ).ratioToSlotCountList_cases with ⟨-, heq⟩ | ⟨hnot, -⟩
    · rw [heq, division_permute, division_permute_congr hsame, hacc.lawful.divide_permute hτ]
      change Except.map _ (a.division.divide (n * a.quota + 1)) = _
      rw [← hdivide, h]
      rfl
    · exact absurd (hacc.permute σ) hnot
  refine ⟨_, hresult, ?_⟩
  have hdata : ∀ i, (a.permute σ).groupData i = a.groupData (τ i) := fun i =>
    (groupData_permute i).trans (groupData_eq_of_tieKey (hsame i)).symm
  simp only [hdata]
  have hτuniv : Finset.univ.val.map τ = (Finset.univ : Finset (Fin n)).val := by simp
  conv_rhs => rw [← hτuniv, Multiset.map_map]
  rfl

/-- Two groups, the second with a pool on the second medium. -/
def sampleArguments : Arguments 2 where
  quota := 64
  slotSizeLists := ![[4], [4, 8]]
  slotSize_pos := by decide
  ratioList := ![1 / 4, 3 / 4]
  granularity := 8
  minSlots := ![1, -1]
  secondBudget := some ⟨some 64, 16, ![[], [1]]⟩

lemma sampleArguments_accepted : sampleArguments.Accepted where
  granularity := by decide
  grain2 := by decide
  pools := by decide
  group i := by
    refine ⟨?_, ?_⟩
    · fin_cases i
      · norm_num [sampleArguments]
      · norm_num [sampleArguments]
    · revert i
      decide
  floorSecond := by decide
  floorQuota := by decide

theorem quotaDivision_swapped : ∃ counts, sampleArguments.ratioToSlotCountList = .ok counts
    ∧ ∃ counts', (sampleArguments.permute (Equiv.swap 0 1)).ratioToSlotCountList = .ok counts'
      ∧ Finset.univ.val.map
        (fun i => ((sampleArguments.permute (Equiv.swap 0 1)).groupData i, counts' i))
        = Finset.univ.val.map fun i => (sampleArguments.groupData i, counts i) := by
  obtain ⟨counts, heq, -⟩ := sampleArguments_accepted.result
  exact ⟨counts, heq, quotaDivision_order_independent sampleArguments (Equiv.swap 0 1) heq⟩

end Arguments

end TrtLlm.CacheLevelStorage
