import TrtLlm.KvCacheV2.QuotaLevels

/-!
The division of a quota keeps the floors and both budgets, and it ends.

What the groups hold of a budget and what is left of it add up to the budget (`Inv`).  Every round
of the loop adds a slot somewhere, and no group has more slots than the quota has bytes.

* `choose_spec`: **the step that is chosen** is the cheapest near the lowest crossing;
* `Inv.promote`: a round keeps the invariant and adds a slot, or it is the last;
* `quotaDivision_budgets`: **floors and budgets** of every division, which fails by a check only.
-/

namespace TrtLlm.CacheLevelStorage

open List Function Option

namespace Division

variable {n : ℕ} {d : Division n} {granularity : ℕ} {s : Shares n}

/-! ### The choice of a step -/

/-- What `cheaperStep` compares, from the first member on. -/
def stepKey (d : Division n) (c : Candidate n) : ℕ ×ₗ ℕ ×ₗ ℚᵒᵈ ×ₗ Identity ×ₗ Fin n :=
  toLex (c.d1, toLex (c.d2, toLex (OrderDual.toDual (d.ratio c.pgIdx),
    toLex (d.identities c.pgIdx, c.pgIdx))))

lemma cheaperStep_iff (lhs rhs : Candidate n) :
    d.cheaperStep lhs rhs = true ↔ d.stepKey lhs < d.stepKey rhs := by
  simp only [stepKey, Prod.Lex.toLex_lt_toLex, OrderDual.toDual_lt_toDual, OrderDual.toDual_inj]
  rw [cheaperStep]
  split_ifs with h₁ h₂ h₃ h₄ h₅
  · simp [h₁]
  · simp [not_not.mp h₁, h₂]
  · simp [not_not.mp h₁, not_not.mp h₂, h₃]
  · simp [not_not.mp h₁, not_not.mp h₂, not_not.mp h₃, h₄]
  · simp [not_not.mp h₁, not_not.mp h₂, not_not.mp h₃, h₅.not_gt, h₅.ne']
  · have heq := le_antisymm (not_lt.mp h₅) (not_lt.mp h₄)
    simp [not_not.mp h₁, not_not.mp h₂, not_not.mp h₃, heq]

lemma chooseCheaper_spec (d : Division n) (cand : Candidate n) (chosen : Option (Candidate n)) :
    ∃ next, d.chooseCheaper cand chosen = some next ∧ (next = cand ∨ chosen = some next)
      ∧ d.stepKey next ≤ d.stepKey cand ∧ ∀ c, chosen = some c → d.stepKey next ≤ d.stepKey c := by
  cases chosen with
  | none => exact ⟨cand, rfl, .inl rfl, le_rfl, fun c hc => (by cases hc)⟩
  | some best =>
    by_cases hcheap : d.cheaperStep cand best = true
    · refine ⟨cand, if_pos hcheap, .inl rfl, le_rfl, ?_⟩
      rintro c ⟨⟩
      exact ((cheaperStep_iff _ _).mp hcheap).le
    · refine ⟨best, if_neg hcheap, .inr rfl, ?_, ?_⟩
      · exact not_lt.mp fun hlt => hcheap ((cheaperStep_iff _ _).mpr hlt)
      · rintro c ⟨⟩
        exact le_rfl

/-- A candidate is near the lowest crossing. -/
def Near (lowest : ℚ) (c : Candidate n) : Prop := c.crossing ≤ lowest * (1 + kRatioEps)

/-- The choice keeps the cheapest of what it has seen. -/
lemma choose_foldl (lowest : ℚ) (cands : List (Candidate n)) : ∀ chosen : Option (Candidate n),
    let found := cands.foldl (fun chosen cand =>
      if lowest * (1 + kRatioEps) < cand.crossing then chosen
        else d.chooseCheaper cand chosen) chosen
    (∀ c, found = some c → chosen = some c ∨ (c ∈ cands ∧ Near lowest c))
      ∧ ∀ c, (chosen = some c ∨ (c ∈ cands ∧ Near lowest c)) →
        ∃ best, found = some best ∧ d.stepKey best ≤ d.stepKey c := by
  induction cands with
  | nil =>
    intro chosen
    exact ⟨fun c hc => .inl hc, fun c hc => ⟨c, by simpa using hc, le_rfl⟩⟩
  | cons cand cands ih =>
    intro chosen
    rw [foldl_cons]
    by_cases hfar : lowest * (1 + kRatioEps) < cand.crossing
    · rw [if_pos hfar]
      obtain ⟨hmem, hleast⟩ := ih chosen
      refine ⟨fun c hc => (hmem c hc).imp_right fun h => ⟨mem_cons_of_mem cand h.1, h.2⟩, ?_⟩
      rintro c (hc | ⟨hc, hnear⟩)
      · exact hleast c (.inl hc)
      · rcases mem_cons.mp hc with rfl | hc
        · exact absurd hnear (not_le.mpr hfar)
        · exact hleast c (.inr ⟨hc, hnear⟩)
    rw [if_neg hfar]
    have hnearCand : Near lowest cand := not_lt.mp hfar
    obtain ⟨next, heq, hfrom, hcand, hchosen⟩ := chooseCheaper_spec d cand chosen
    rw [heq]
    obtain ⟨hmem, hleast⟩ := ih (some next)
    obtain ⟨best, hbest, hle⟩ := hleast next (.inl rfl)
    constructor
    · intro c hc
      rcases hmem c hc with h | ⟨hc, hnear⟩
      · obtain rfl := some.inj h
        rcases hfrom with rfl | h
        · exact .inr ⟨mem_cons_self, hnearCand⟩
        · exact .inl h
      · exact .inr ⟨mem_cons_of_mem cand hc, hnear⟩
    · rintro c (hc | ⟨hc, hnear⟩)
      · exact ⟨best, hbest, hle.trans (hchosen c hc)⟩
      · rcases mem_cons.mp hc with rfl | hc
        · exact ⟨best, hbest, hle.trans hcand⟩
        · exact hleast c (.inr ⟨hc, hnear⟩)

lemma lowestCrossing_spec (c : Candidate n) (cands : List (Candidate n)) :
    (∀ cand ∈ c :: cands, lowestCrossing c cands ≤ cand.crossing)
      ∧ ∃ cand ∈ c :: cands, cand.crossing = lowestCrossing c cands := by
  rw [lowestCrossing]
  induction cands using reverseRecOn with
  | nil => simp
  | append_singleton cands last ih =>
    obtain ⟨hle, cand, hmem, heq⟩ := ih
    rw [foldl_append, foldl_cons, foldl_nil]
    rw [← cons_append]
    constructor
    · intro x hx
      rcases mem_append.mp hx with hx | hx
      · exact (min_le_left _ _).trans (hle x hx)
      · obtain rfl := mem_singleton.mp hx
        exact min_le_right _ _
    · rcases min_choice (cands.foldl (fun lowest cand => min lowest cand.crossing) c.crossing)
          last.crossing with hmin | hmin
      · exact ⟨cand, mem_append_left _ hmem, heq.trans hmin.symm⟩
      · exact ⟨last, mem_append_right _ (mem_singleton_self last), hmin.symm⟩

/-- **The step that is chosen**, among candidates with crossings that are not negative: one of
those near the lowest crossing, and none of these is cheaper. -/
lemma choose_spec {c : Candidate n} {cands : List (Candidate n)}
    (hcross : ∀ cand ∈ c :: cands, 0 ≤ cand.crossing) :
    ∃ best, d.choose (lowestCrossing c cands) (c :: cands) = some best
      ∧ best ∈ c :: cands ∧ Near (lowestCrossing c cands) best
      ∧ ∀ cand ∈ c :: cands, Near (lowestCrossing c cands) cand →
        d.stepKey best ≤ d.stepKey cand := by
  obtain ⟨hmem, hleast⟩ := choose_foldl (d := d) (lowestCrossing c cands) (c :: cands) none
  obtain ⟨-, low, hlow, heq⟩ := lowestCrossing_spec c cands
  have hnear : Near (lowestCrossing c cands) low := by
    have hnonneg : 0 ≤ lowestCrossing c cands := heq ▸ hcross low hlow
    rw [Near, heq]
    exact le_mul_of_one_le_right hnonneg (by norm_num [kRatioEps])
  obtain ⟨best, hbest, -⟩ := hleast low (.inr ⟨hlow, hnear⟩)
  refine ⟨best, hbest, ?_⟩
  obtain ⟨hin, hnear⟩ := (hmem best hbest).resolve_left (by simp)
  refine ⟨hin, hnear, fun cand hcand hnear => ?_⟩
  obtain ⟨best', hbest', hle⟩ := hleast cand (.inr ⟨hcand, hnear⟩)
  obtain rfl := some.inj (hbest.symm.trans hbest')
  exact hle

/-! ### The steps of a round -/

/-- A step that both budgets can pay. -/
structure Offers (d : Division n) (s : Shares n) (i : Fin n) (c : Candidate n) : Prop where
  pgIdx : c.pgIdx = i
  next : c.next = (d.rungs i).freeRun (s.slotCnt i + 1)
  crossing : 0 ≤ c.crossing
  quota : (d.rungs i).quotaGrains c.next - (d.rungs i).quotaGrains (s.slotCnt i) ≤ s.remainingQuota
  second : d.bounded = true →
    (d.rungs i).secondGrains c.next - (d.rungs i).secondGrains (s.slotCnt i) ≤ s.remainingSecond

lemma offer_cases {lv : Levels} {i : Fin n} {next d1 d2 rest : ℕ} {c : Candidate n}
    (hc : d.offer lv s i next d1 d2 rest = some c) : ∃ correcting, c =
      ⟨(((d.rungs i).allBytes (s.slotCnt i) + (d.rungs i).allBytes next : ℕ) : ℚ) / (2 * d.ratio i),
        i, next, correcting, d1, d2⟩ := by
  rw [offer] at hc
  dsimp only at hc
  split_ifs at hc
  all_goals exact ⟨_, (some.inj hc).symm⟩

lemma Lawful.lt_next (h : d.Lawful granularity) (i : Fin n) (slots : ℕ) :
    slots < (d.rungs i).freeRun (slots + 1) := (h.rungs i).le_freeRun (slots + 1)

/-- No subtraction for a candidate falls below zero. -/
lemma Lawful.candidate (h : d.Lawful granularity) (lv : Levels) {placed : ℕ} {i : Fin n}
    (hplaced : (d.rungs i).allBytes (s.slotCnt i) ≤ placed) :
    ∃ found, d.candidate lv s placed i = .ok found ∧ ∀ c, found = some c → d.Offers s i c := by
  have hi := h.rungs i
  have hlt := h.lt_next i (s.slotCnt i)
  rw [Division.candidate]
  rw [sub_of_le (hi.quota_mono hlt.le)]
  change ∃ found, (sub _ _).bind _ = _ ∧ _
  rw [sub_of_le (hi.second_mono hlt.le)]
  dsimp only [Except.bind]
  split_ifs with hpoor
  · exact ⟨none, rfl, fun c hc => (by cases hc)⟩
  rw [not_or, not_lt, not_and, not_lt] at hpoor
  rw [sub_of_le hplaced]
  refine ⟨_, rfl, fun c hc => ?_⟩
  obtain ⟨correcting, rfl⟩ := offer_cases hc
  refine ⟨rfl, rfl, ?_, hpoor.1, hpoor.2⟩
  exact div_nonneg (Nat.cast_nonneg _) (mul_nonneg (by norm_num) (h.ratio_pos i).le)

/-- The steps of a round are those of the groups that offer one. -/
lemma Lawful.promote_eq (h : d.Lawful granularity) (lv : Levels)
    (s : Shares n) : ∃ offers : Fin n → Option (Candidate n),
    (∀ i, d.candidate lv s (∑ j, (d.rungs j).allBytes (s.slotCnt j)) i = .ok (offers i))
      ∧ (∀ i c, offers i = some c → d.Offers s i c)
      ∧ d.promote lv s = d.takeCheapest s ((finRange n).filterMap offers) := by
  have hplaced : ∀ i, (d.rungs i).allBytes (s.slotCnt i) ≤ ∑ j,
      (d.rungs j).allBytes (s.slotCnt j) :=
    fun i => Finset.single_le_sum (f := fun j => (d.rungs j).allBytes (s.slotCnt j))
      (fun j _ => Nat.zero_le _) (Finset.mem_univ i)
  choose offers heq hoffers using fun i => h.candidate lv (hplaced i)
  refine ⟨offers, heq, hoffers, ?_⟩
  have hmap : (finRange n).mapM (d.candidate lv s (∑ j, (d.rungs j).allBytes (s.slotCnt j)))
      = .ok ((finRange n).map offers) := by
    rw [show d.candidate lv s (∑ j, (d.rungs j).allBytes (s.slotCnt j))
      = fun i => pure (offers i) from funext heq]
    exact mapM_pure
  have hreduce : ((finRange n).map offers).reduceOption = (finRange n).filterMap offers := by
    rw [reduceOption, filterMap_map]
    rfl
  rw [promote, hmap, ← hreduce]
  rfl

/-! ### The invariant -/

/-- **The invariant**: floors are kept, and what the groups hold of a budget and what is left of it
are the budget; a group that the quota alone pays is at the end of its free run. -/
structure Inv (d : Division n) (budget budget2 : ℕ) (s : Shares n) : Prop where
  floor : ∀ i, d.floorSlots i ≤ s.slotCnt i
  quota : ∑ i, (d.rungs i).quotaGrains (s.slotCnt i) + s.remainingQuota = budget
  second : d.bounded = true →
    ∑ i, (d.rungs i).secondGrains (s.slotCnt i) + s.remainingSecond = budget2
  closed : ∀ i, (d.rungs i).onSecond = false → (d.rungs i).freeRun (s.slotCnt i) = s.slotCnt i

variable {budget budget2 : ℕ}

variable {c : Candidate n}

/-- What is paid moves from what is left to what is held. -/
lemma sum_add_sub {f g : Fin n → ℕ} {left total : ℕ} (hle : ∀ i, f i ≤ g i)
    (htotal : ∑ i, f i + left = total) (hcost : ∑ i, (g i - f i) ≤ left) :
    ∑ i, g i + (left - ∑ i, (g i - f i)) = total := by
  have hsum : ∑ i, (g i - f i) + ∑ i, f i = ∑ i, g i := by
    rw [← Finset.sum_add_distrib]
    exact Finset.sum_congr rfl fun i _ => Nat.sub_add_cancel (hle i)
  omega

/-- The shares with more slots, which both budgets pay. -/
lemma Inv.moved (h : d.Lawful granularity) (hs : d.Inv budget budget2 s) {s' : Shares n}
    (hle : ∀ i, s.slotCnt i ≤ s'.slotCnt i)
    (hquota : ∑ i, ((d.rungs i).quotaGrains (s'.slotCnt i) - (d.rungs i).quotaGrains (s.slotCnt i))
      ≤ s.remainingQuota)
    (hquota' : s'.remainingQuota = s.remainingQuota - ∑ i, ((d.rungs i).quotaGrains (s'.slotCnt i)
      - (d.rungs i).quotaGrains (s.slotCnt i)))
    (hsecond : d.bounded = true → d.fillCost s s'.slotCnt ≤ s.remainingSecond)
    (hsecond' : d.bounded = true → s'.remainingSecond = s.remainingSecond - d.fillCost s s'.slotCnt)
    (hclosed : ∀ i, (d.rungs i).onSecond = false →
      (d.rungs i).freeRun (s'.slotCnt i) = s'.slotCnt i) : d.Inv budget budget2 s' where
  floor i := (hs.floor i).trans (hle i)
  quota := by
    rw [hquota']
    exact sum_add_sub (fun i => (h.rungs i).quota_mono (hle i)) hs.quota hquota
  second hb := by
    rw [hsecond' hb]
    exact sum_add_sub (fun i => (h.rungs i).second_mono (hle i)) (hs.second hb) (hsecond hb)
  closed := hclosed

/-- Filling leaves the quota as it is. -/
lemma Inv.fill (h : d.Lawful granularity) (hs : d.Inv budget budget2 s) {want : Fin n → ℕ}
    (hle : ∀ i, s.slotCnt i ≤ want i) (htops : ∀ i, want i ≤ d.tops s i)
    (hcost : d.bounded = true → d.fillCost s want ≤ s.remainingSecond) :
    d.Inv budget budget2 (d.fill s want) := by
  have hflat : ∀ i, (d.rungs i).quotaGrains (want i) = (d.rungs i).quotaGrains (s.slotCnt i) := by
    intro i
    refine le_antisymm ?_ ((h.rungs i).quota_mono (hle i))
    calc (d.rungs i).quotaGrains (want i) ≤ (d.rungs i).quotaGrains (d.tops s i) :=
          (h.rungs i).quota_mono (htops i)
      _ = (d.rungs i).quotaGrains (s.slotCnt i) := (h.rungs i).quota_freeRunOnQuota _
  have hfree : ∑ i, ((d.rungs i).quotaGrains (want i) - (d.rungs i).quotaGrains (s.slotCnt i))
      = 0 :=
    Finset.sum_eq_zero fun i _ => by rw [hflat i, Nat.sub_self]
  refine hs.moved h hle (hfree.trans_le (Nat.zero_le _)) ?_ hcost (fun hb => if_pos hb) fun i hon =>
    ?_
  · change s.remainingQuota = _
    rw [show (d.fill s want).slotCnt = want from rfl, hfree, Nat.sub_zero]
  · have hsame : want i = s.slotCnt i := by
      refine le_antisymm ((htops i).trans_eq ?_) (hle i)
      rw [tops, (h.rungs i).freeRunOnQuota_eq hon, hs.closed i hon]
    change (d.rungs i).freeRun (want i) = want i
    rw [hsame, hs.closed i hon]

/-- A group alone changes its slots. -/
lemma sum_update_sub (f : Fin n → ℕ → ℕ) (cnt : Fin n → ℕ) (i : Fin n) (want : ℕ) :
    ∑ j, (f j (update cnt i want j) - f j (cnt j)) = f i want - f i (cnt i) := by
  rw [Finset.sum_eq_single i]
  · rw [update_self]
  · intro j _ hne
    rw [update_of_ne hne, Nat.sub_self]
  · exact fun hi => absurd (Finset.mem_univ i) hi

/-- The shares after a step that both budgets pay. -/
def taken (d : Division n) (s : Shares n) (c : Candidate n) : Shares n where
  slotCnt := update s.slotCnt c.pgIdx c.next
  remainingQuota := s.remainingQuota - ((d.rungs c.pgIdx).quotaGrains c.next
    - (d.rungs c.pgIdx).quotaGrains (s.slotCnt c.pgIdx))
  remainingSecond := if d.bounded then s.remainingSecond - ((d.rungs c.pgIdx).secondGrains c.next
    - (d.rungs c.pgIdx).secondGrains (s.slotCnt c.pgIdx)) else s.remainingSecond
  corrections := if c.correcting then
    update s.corrections c.pgIdx (s.corrections c.pgIdx + 1) else s.corrections

lemma taken_slotCnt_self (c : Candidate n) : (d.taken s c).slotCnt c.pgIdx = c.next :=
  update_self ..

lemma taken_slotCnt_of_ne {i : Fin n} (hne : i ≠ c.pgIdx) :
    (d.taken s c).slotCnt i = s.slotCnt i := update_of_ne hne ..

section

variable (h : d.Lawful granularity) (hc : d.Offers s c.pgIdx c)
include h hc

lemma Offers.lt_next : s.slotCnt c.pgIdx < c.next := hc.next ▸ h.lt_next c.pgIdx _

lemma Offers.le_taken (i : Fin n) : s.slotCnt i ≤ (d.taken s c).slotCnt i := by
  rcases eq_or_ne i c.pgIdx with rfl | hne
  · rw [taken_slotCnt_self]
    exact (hc.lt_next h).le
  · rw [taken_slotCnt_of_ne hne]

lemma Offers.takeStep : d.takeStep s c = .ok (d.taken s c) := by
  have hle := (hc.lt_next h).le
  rw [Division.takeStep, pay_eq ((h.rungs _).quota_mono hle) ((h.rungs _).second_mono hle)
    hc.quota hc.second]
  rfl

end

/-- A step keeps the invariant. -/
lemma Inv.taken (h : d.Lawful granularity) (hs : d.Inv budget budget2 s)
    (hc : d.Offers s c.pgIdx c) : d.Inv budget budget2 (d.taken s c) := by
  have hquota := sum_update_sub (fun j => (d.rungs j).quotaGrains) s.slotCnt c.pgIdx c.next
  have hsecond : d.fillCost s (d.taken s c).slotCnt = _ :=
    sum_update_sub (fun j => (d.rungs j).secondGrains) s.slotCnt c.pgIdx c.next
  refine hs.moved h (hc.le_taken h) (hquota.trans_le hc.quota) ?_
    (fun hb => hsecond.trans_le (hc.second hb)) (fun hb => ?_) fun i hon => ?_
  · exact congrArg (s.remainingQuota - ·) hquota.symm
  · rw [hsecond]
    exact if_pos hb
  · rcases eq_or_ne i c.pgIdx with rfl | hne
    · rw [taken_slotCnt_self, hc.next, (h.rungs _).freeRun_freeRun]
    · rw [taken_slotCnt_of_ne hne, hs.closed i hon]

/-- The slots of all groups. -/
def total (s : Shares n) : ℕ := ∑ i, s.slotCnt i

lemma total_lt {s s' : Shares n} (hle : ∀ i, s.slotCnt i ≤ s'.slotCnt i)
    (hlt : ∃ i, s.slotCnt i < s'.slotCnt i) : total s < total s' := by
  obtain ⟨i, hi⟩ := hlt
  exact Finset.sum_lt_sum (fun j _ => hle j) ⟨i, Finset.mem_univ i, hi⟩

variable (h : d.Lawful granularity)
include h

/-- **A round** keeps the invariant and adds a slot, or it is the last. -/
lemma Inv.promote (hs : d.Inv budget budget2 s) (lv : Levels) : ∃ found, d.promote lv s = .ok found
      ∧ ∀ s', found = some s' → d.Inv budget budget2 s' ∧ total s < total s' := by
  obtain ⟨offers, -, hoffers, heq⟩ := h.promote_eq lv s
  rw [heq]
  have hmem : ∀ c ∈ (finRange n).filterMap offers, d.Offers s c.pgIdx c := by
    intro c hc
    obtain ⟨i, -, hi⟩ := mem_filterMap.mp hc
    have hoffer := hoffers i c hi
    rwa [← hoffer.pgIdx] at hoffer
  cases hcands : (finRange n).filterMap offers with
  | nil =>
    rcases h.closePaidGrains hs.closed with hnone | ⟨want, hsome, hle, htops, hcost, hlt⟩
    · exact ⟨none, hnone, fun s' hs' => (by cases hs')⟩
    · refine ⟨_, hsome, ?_⟩
      rintro s' ⟨⟩
      exact ⟨hs.fill h hle htops hcost, total_lt hle hlt⟩
  | cons c cands =>
    rw [hcands] at hmem
    obtain ⟨best, hbest, hin, -⟩ := choose_spec (d := d) fun cand hcand =>
      (hmem cand hcand).crossing
    have hoffer := hmem best hin
    refine ⟨some (d.taken s best), ?_, ?_⟩
    · rw [takeCheapest, hbest]
      dsimp only
      rw [hoffer.takeStep h]
      rfl
    · rintro s' ⟨⟩
      refine ⟨hs.taken h hoffer, total_lt (hoffer.le_taken h) ⟨best.pgIdx, ?_⟩⟩
      rw [taken_slotCnt_self]
      exact hoffer.lt_next h

/-- No group has more slots than the quota has bytes. -/
lemma Inv.total_le (hs : d.Inv budget budget2 s) : total s ≤ n * (budget * granularity) := by
  calc total s ≤ ∑ _i : Fin n, budget * granularity := by
        refine Finset.sum_le_sum fun i _ => ((h.rungs i).le_quota _).trans ?_
        refine Nat.mul_le_mul_right granularity ?_
        have hone : (d.rungs i).quotaGrains (s.slotCnt i)
            ≤ ∑ j, (d.rungs j).quotaGrains (s.slotCnt j) :=
          Finset.single_le_sum (f := fun j => (d.rungs j).quotaGrains (s.slotCnt j))
            (fun j _ => Nat.zero_le _) (Finset.mem_univ i)
        have hquota := hs.quota
        omega
    _ = n * (budget * granularity) := by simp

/-- **The loop ends**: every round adds a slot, so as many rounds as there can be slots suffice. -/
lemma Inv.promoteAll (lv : Levels) (fuel : ℕ) : ∀ {s : Shares n},
    d.Inv budget budget2 s → n * (budget * granularity) < fuel + total s →
      ∃ s', d.promoteAll lv fuel s = .ok s' ∧ d.Inv budget budget2 s' := by
  induction fuel with
  | zero =>
    intro s hs hfuel
    have hle := hs.total_le h
    omega
  | succ fuel ih =>
    intro s hs hfuel
    obtain ⟨found, heq, hfound⟩ := hs.promote h lv
    rw [Division.promoteAll, heq]
    cases found with
    | none => exact ⟨s, rfl, hs⟩
    | some next =>
      obtain ⟨hnext, hlt⟩ := hfound next rfl
      exact ih hnext (by omega)

/-- **The division** of what the floors leave. -/
lemma Lawful.divide (fuel : ℕ)
    (hquota : ∑ i, (d.rungs i).quotaGrains (d.floorSlots i) + d.remainingQuota = budget)
    (hsecond : d.bounded = true →
      ∑ i, (d.rungs i).secondGrains (d.floorSlots i) + d.remainingSecond = budget2)
    (hfuel : n * (budget * granularity) < fuel) :
    ∃ counts, d.divide fuel = .ok counts ∧ (∀ i, d.floorSlots i ≤ counts i)
      ∧ ∑ i, (d.rungs i).quotaGrains (counts i) ≤ budget
      ∧ (d.bounded = true → ∑ i, (d.rungs i).secondGrains (counts i) ≤ budget2) := by
  obtain ⟨lv, hlv, hpay, hpay2⟩ := h.placed_fits
  have hstart : d.Inv budget budget2 ⟨d.floorSlots, d.remainingQuota, d.remainingSecond,
    fun _ => 0⟩ :=
    ⟨fun i => le_rfl, hquota, hsecond, fun i _ => h.floor_closed i⟩
  have hs : d.Inv budget budget2 (d.placed lv) :=
    hstart.moved h (fun i => le_max_right _ _) hpay rfl hpay2 (fun hb => if_pos hb)
      (fun i _ => h.placedAt_closed lv i)
  obtain ⟨s', heq, hs'⟩ := Inv.promoteAll h lv fuel hs (by omega)
  refine ⟨s'.slotCnt, ?_, hs'.floor, by have := hs'.quota; omega, fun hb => ?_⟩
  · rw [Division.divide, hlv]
    change (d.place lv).bind _ = _
    rw [h.place hpay hpay2]
    change (d.promoteAll lv fuel _).bind _ = _
    rw [heq]
    rfl
  · have hleft := hs'.second hb
    omega

end Division

/-! ### The checks -/

section
variable {α ε : Type*} {f : α → Except ε PUnit} {l : List α}

lemma forM_eq_ok : l.forM f = .ok ⟨⟩ ↔ ∀ x ∈ l, f x = .ok ⟨⟩ := by
  induction l with
  | nil => exact ⟨fun _ x hx => absurd hx not_mem_nil, fun _ => rfl⟩
  | cons x l ih =>
    rw [forall_mem_cons, ← ih]
    change (f x).bind (fun _ => l.forM f) = _ ↔ _
    cases f x with
    | ok u => exact ⟨fun h => ⟨rfl, h⟩, fun h => h.2⟩
    | error e => exact ⟨fun h => (nomatch h), fun h => (nomatch h.1)⟩

lemma exists_of_forM_eq_error {e : ε} (h : l.forM f = .error e) : ∃ x ∈ l, f x = .error e := by
  induction l with
  | nil => exact nomatch h
  | cons x l ih =>
    change (f x).bind (fun _ => l.forM f) = _ at h
    cases hx : f x with
    | ok u =>
      rw [hx] at h
      obtain ⟨y, hy, heq⟩ := ih h
      exact ⟨y, mem_cons_of_mem x hy, heq⟩
    | error e' =>
      rw [hx] at h
      exact ⟨x, mem_cons_self, hx.trans h⟩

end

/-- The failures that are checks of the source. -/
def SizingError.IsCheck (e : SizingError) : Prop :=
  e ≠ .underflow ∧ e ≠ .noStep ∧ e ≠ .unfinished

namespace Arguments

variable {n : ℕ} {a : Arguments n}

/-- What the checks of the source ask of the arguments. -/
structure Accepted (a : Arguments n) : Prop where
  granularity : 0 < a.granularity
  grain2 : 0 < a.grain2
  pools : ∀ i, (∀ poolIdx ∈ a.secondPools i, poolIdx < (a.slotSizeLists i).length)
    ∧ (a.secondPools i).Nodup
  group : ∀ i, 0 < a.ratioList i
    ∧ poolsPaidByQuota (a.slotSizeLists i).length (a.secondPools i) ≠ []
  floorSecond : a.secondQuota.isSome = true → a.floorSecond ≤ a.budget2Grains
  floorQuota : a.floorQuota ≤ a.quota / a.granularity

lemma checkPools_eq_ok {numPools : ℕ} {taken pools : List ℕ} :
    checkPools numPools taken pools = .ok ⟨⟩
      ↔ (∀ poolIdx ∈ pools, poolIdx < numPools ∧ poolIdx ∉ taken) ∧ pools.Nodup := by
  induction pools generalizing taken with
  | nil => exact ⟨fun _ => ⟨fun x hx => absurd hx not_mem_nil, nodup_nil⟩, fun _ => rfl⟩
  | cons poolIdx pools ih =>
    rw [checkPools]
    by_cases hrange : poolIdx < numPools
    swap
    · rw [if_pos hrange]
      exact ⟨fun h => (nomatch h), fun h => absurd (h.1 poolIdx mem_cons_self).1 hrange⟩
    by_cases htaken : poolIdx ∈ taken
    · rw [if_neg (not_not.mpr hrange), if_pos htaken]
      exact ⟨fun h => (nomatch h), fun h => absurd htaken (h.1 poolIdx mem_cons_self).2⟩
    · rw [if_neg (not_not.mpr hrange), if_neg htaken, ih, nodup_cons, forall_mem_cons]
      constructor
      · rintro ⟨hall, hnd⟩
        refine ⟨⟨⟨hrange, htaken⟩, fun x hx => ?_⟩, fun hmem => ?_, hnd⟩
        · exact ⟨(hall x hx).1, fun hin => (hall x hx).2 (mem_cons_of_mem _ hin)⟩
        · exact (hall poolIdx hmem).2 mem_cons_self
      · rintro ⟨⟨-, hall⟩, hnot, hnd⟩
        refine ⟨fun x hx => ⟨(hall x hx).1, fun hin => ?_⟩, hnd⟩
        rcases mem_cons.mp hin with rfl | hin
        · exact hnot hx
        · exact (hall x hx).2 hin

lemma checkPools_isCheck {numPools : ℕ} {taken pools : List ℕ} {e : SizingError}
    (h : checkPools numPools taken pools = .error e) : e.IsCheck := by
  induction pools generalizing taken with
  | nil => exact nomatch h
  | cons poolIdx pools ih =>
    rw [checkPools] at h
    split_ifs at h
    · exact Except.error.inj h ▸ ⟨nofun, nofun, nofun⟩
    · exact ih h
    · exact Except.error.inj h ▸ ⟨nofun, nofun, nofun⟩

lemma checkGroup_eq_ok {i : Fin n} : a.checkGroup i = .ok ⟨⟩ ↔ 0 < a.ratioList i
    ∧ poolsPaidByQuota (a.slotSizeLists i).length (a.secondPools i) ≠ [] := by
  rw [checkGroup]
  by_cases hratio : 0 < a.ratioList i
  swap
  · rw [if_pos hratio]
    exact ⟨fun h => (nomatch h), fun h => absurd h.1 hratio⟩
  rw [if_neg (not_not.mpr hratio)]
  by_cases hpaid : poolsPaidByQuota (a.slotSizeLists i).length (a.secondPools i) = []
  · rw [if_pos hpaid]
    exact ⟨fun h => (nomatch h), fun h => absurd hpaid h.2⟩
  · rw [if_neg hpaid]
    exact ⟨fun _ => ⟨hratio, hpaid⟩, fun _ => rfl⟩

lemma checkGroup_isCheck {i : Fin n} {e : SizingError} (h : a.checkGroup i = .error e) :
    e.IsCheck := by
  rw [checkGroup] at h
  split_ifs at h
  · exact Except.error.inj h ▸ ⟨nofun, nofun, nofun⟩
  · exact nomatch h
  · exact Except.error.inj h ▸ ⟨nofun, nofun, nofun⟩

/-- **The checks** pass as the arguments are accepted, and each has a failure of its own. -/
lemma ratioToSlotCountList_cases (a : Arguments n) :
    (a.Accepted ∧ a.ratioToSlotCountList = a.division.divide (n * a.quota + 1))
      ∨ (¬ a.Accepted ∧ ∃ e, a.ratioToSlotCountList = .error e ∧ e.IsCheck) := by
  rw [ratioToSlotCountList]
  by_cases hgran : 0 < a.granularity
  swap
  · exact .inr ⟨fun h => hgran h.granularity, _, if_pos hgran, nofun, nofun, nofun⟩
  rw [if_neg (not_not.mpr hgran)]
  by_cases hgrain : 0 < a.grain2
  swap
  · exact .inr ⟨fun h => hgrain h.grain2, _, if_pos hgrain, nofun, nofun, nofun⟩
  rw [if_neg (not_not.mpr hgrain)]
  cases hpools : (finRange n).forM fun i =>
      checkPools (a.slotSizeLists i).length [] (a.secondPools i) with
  | error e =>
    obtain ⟨i, -, hi⟩ := exists_of_forM_eq_error hpools
    refine .inr ⟨fun h => ?_, e, rfl, checkPools_isCheck hi⟩
    rw [checkPools_eq_ok.mpr ⟨fun x hx => ⟨(h.pools i).1 x hx, not_mem_nil⟩, (h.pools i).2⟩] at hi
    exact nomatch hi
  | ok u =>
  cases hgroup : (finRange n).forM a.checkGroup with
  | error e =>
    obtain ⟨i, -, hi⟩ := exists_of_forM_eq_error hgroup
    refine .inr ⟨fun h => ?_, e, rfl, checkGroup_isCheck hi⟩
    rw [checkGroup_eq_ok.mpr (h.group i)] at hi
    exact nomatch hi
  | ok v =>
  by_cases hsecond : a.secondQuota.isSome ∧ ¬ a.floorSecond ≤ a.budget2Grains
  · exact .inr ⟨fun h => hsecond.2 (h.floorSecond hsecond.1), _, if_pos hsecond, nofun, nofun,
      nofun⟩
  by_cases hquota : a.floorQuota ≤ a.quota / a.granularity
  swap
  · exact .inr ⟨fun h => hquota h.floorQuota, _, (if_neg hsecond).trans (if_pos hquota),
      nofun, nofun, nofun⟩
  refine .inl ⟨⟨hgran, hgrain, fun i => ?_, fun i => ?_, fun hb => ?_, hquota⟩, ?_⟩
  · obtain ⟨hall, hnd⟩ := checkPools_eq_ok.mp (forM_eq_ok.mp hpools i (mem_finRange i))
    exact ⟨fun x hx => (hall x hx).1, hnd⟩
  · exact checkGroup_eq_ok.mp (forM_eq_ok.mp hgroup i (mem_finRange i))
  · exact not_not.mp fun hlt => hsecond ⟨hb, hlt⟩
  · exact (if_neg hsecond).trans (if_neg (not_not.mpr hquota))

/-- What the checks ask makes the division lawful. -/
lemma Accepted.lawful (h : a.Accepted) : a.division.Lawful a.granularity := by
  have hrungs : ∀ i, (a.rungs i).Lawful a.granularity := fun i =>
    rungsOf_lawful (a.slotSize_pos i) h.granularity h.grain2 (h.pools i).1 (h.group i).2
  refine ⟨hrungs, fun i => ?_, fun i => (hrungs i).freeRun_freeRun _⟩
  exact div_pos (h.group i).1 (Finset.sum_pos (fun j _ => (h.group j).1) ⟨i, Finset.mem_univ i⟩)

/-- **An accepted division** has a result, which keeps the floors and both budgets. -/
lemma Accepted.result (h : a.Accepted) : ∃ counts, a.ratioToSlotCountList = .ok counts
    ∧ (∀ i, a.floorSlots i ≤ counts i)
    ∧ ∑ i, (a.rungs i).quotaGrains (counts i) ≤ a.quota / a.granularity
    ∧ (a.secondQuota.isSome = true → ∑ i, (a.rungs i).secondGrains (counts i)
      ≤ a.budget2Grains) := by
  have hquota : ∑ i, (a.rungs i).quotaGrains (a.floorSlots i)
      + (a.quota / a.granularity - a.floorQuota) = a.quota / a.granularity :=
    Nat.add_sub_cancel' h.floorQuota
  have hsecond : a.secondQuota.isSome = true → ∑ i, (a.rungs i).secondGrains (a.floorSlots i)
      + (if a.secondQuota.isSome then a.budget2Grains - a.floorSecond else 0)
        = a.budget2Grains := by
    intro hb
    rw [if_pos hb]
    exact Nat.add_sub_cancel' (h.floorSecond hb)
  obtain ⟨counts, heq, hfloor, hle, hle2⟩ := h.lawful.divide (n * a.quota + 1) hquota hsecond
    (Nat.lt_succ_of_le (Nat.mul_le_mul_left n (Nat.div_mul_le_self _ _)))
  refine ⟨counts, ?_, hfloor, hle, hle2⟩
  rcases a.ratioToSlotCountList_cases with ⟨-, hdivide⟩ | ⟨hnot, -⟩
  · exact hdivide.trans heq
  · exact absurd h hnot

/-- **Floors and budgets**: every call returns or fails by a check of the source; the loops end, and
no subtraction falls below zero.  What is returned keeps every minimum, the grains that the quota
pays are within the quota, and those of the second medium are within its quota, if it has one. -/
theorem quotaDivision_budgets (a : Arguments n) : match a.ratioToSlotCountList with
    | .ok counts =>
      (∀ i, a.minSlots i ≤ counts i)
        ∧ ∑ i, grainsForSlots (counts i) (a.slotSizeLists i)
            (poolsPaidByQuota (a.slotSizeLists i).length (a.secondPools i)) a.granularity
          ≤ a.quota / a.granularity
        ∧ ∀ quota2, a.secondQuota = some quota2 →
          ∑ i, grainsForSlots (counts i) (a.slotSizeLists i) (a.secondPools i) a.grain2
            ≤ quota2 / a.grain2
    | .error e => e.IsCheck := by
  rcases a.ratioToSlotCountList_cases with ⟨hacc, -⟩ | ⟨-, e, heq, hcheck⟩
  · obtain ⟨counts, heq, hfloor, hle, hle2⟩ := hacc.result
    rw [heq]
    refine ⟨fun i => ?_, hle, fun quota2 hquota2 => ?_⟩
    · have hrun : (a.minSlots i).toNat ≤ a.floorSlots i := (hacc.lawful.rungs i).le_freeRun _
      have hcount := hfloor i
      omega
    · have hsum := hle2 (by rw [hquota2]; rfl)
      rwa [budget2Grains, hquota2] at hsum
  · rw [heq]
    exact hcheck

end Arguments

end TrtLlm.CacheLevelStorage
