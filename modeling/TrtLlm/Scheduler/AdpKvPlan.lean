import TrtLlm.Util.PyDict
import TrtLlm.Scheduler.AdpDefault

/-!
`plan_kv_balanced_admission`: which requests of the window are admitted and on which rank, for ranks
that may be above the limit from the start.

Whole groups come first, then the candidates of the first group that does not fit. The choice of a
rank when every rank is full raises (`none`). All three rules look at the rise of the largest
request count first. As long as not all requests of the round are placed, some rank below the limit
takes one more without a rise: else all ranks would be at the fair share, and the round would be
over.

* `planKvBalancedAdmission`: the plan;
* `Fair`: the ranks after a part of the plan, and `exists_good`: the rank without a rise;
* `plan_fair`: **the plan fills the budget, overfills no rank, keeps the groups in order and takes
  forced candidates first, in the order of the queue**.
-/

namespace TrtLlm.Scheduler

open List Function Prod

variable {n m : ℕ}

/-! ### `plan_kv_balanced_admission` -/

/-- The candidates of a round, in queue order. -/
structure Candidates (m : ℕ) where
  tokens : Fin m → ℕ
  forced : Fin m → Bool
  groups : Fin m → ℕ

/-- The plan so far, with the KV tokens and the requests of each rank. -/
structure AdmissionPlan (n m : ℕ) where
  loads : Fin (n + 1) → ℕ
  counts : Fin (n + 1) → ℕ
  plan : List (Fin m × Fin (n + 1))

namespace AdmissionPlan

section

variable (p : AdmissionPlan n m)

/-- `count_rise`. -/
def countRise (countCap : ℕ) (rank : Fin (n + 1)) : ℕ :=
  p.counts rank + 1 - countCap

/-- `open_ranks`. -/
def openRanks (cap : ℕ) : List (Fin (n + 1)) :=
  (finRange (n + 1)).filter fun r => p.counts r < cap

/-- The key of `best_fit_rank`. -/
def bestFitKey (countCap tokens : ℕ) (rank : Fin (n + 1)) :
    ℕ ×ₗ ℕ ×ₗ ℕ ×ₗ Fin (n + 1) :=
  let loadRise := p.loads rank + tokens - maxLoad p.loads
  if p.countRise countCap rank = 0 ∧ loadRise = 0 then
    toLex (0, toLex (0, toLex (maxLoad p.loads - p.loads rank - tokens, rank)))
  else toLex (p.countRise countCap rank, toLex (loadRise, toLex (p.loads rank, rank)))

/-- `best_fit_rank`. -/
def bestFitRank (cap countCap tokens : ℕ) : Option (Fin (n + 1)) :=
  (p.openRanks cap).argmin (p.bestFitKey countCap tokens)

/-- `least_loaded_rank`. -/
def leastLoadedRank (cap countCap : ℕ) : Option (Fin (n + 1)) :=
  (p.openRanks cap).argmin fun r =>
    (toLex (p.countRise countCap r, toLex (p.loads r, toLex (p.counts r, r))) :
      ℕ ×ₗ ℕ ×ₗ ℕ ×ₗ Fin (n + 1))

/-- `admit`. -/
def admitOne (tokens : Fin m → ℕ) (idx : Fin m) (rank : Fin (n + 1)) :
    AdmissionPlan n m where
  loads := update p.loads rank (p.loads rank + tokens idx)
  counts := update p.counts rank (p.counts rank + 1)
  plan := p.plan ++ [(idx, rank)]

end

/-- The loop over the candidates of whole groups. -/
def admitWhole (tokens : Fin m → ℕ) (choose : AdmissionPlan n m → Fin m → Option (Fin (n + 1))) :
    List (Fin m) → AdmissionPlan n m → Option (AdmissionPlan n m)
  | [], p => some p
  | idx :: whole, p =>
    (choose p idx).bind fun rank => admitWhole tokens choose whole (p.admitOne tokens idx rank)

/-- One choice among the candidates of the group that does not fit: the first forced one, or the
one that brings a rank closest to the mean load. -/
def choosePartial (c : Candidates m) (cap countCap : ℕ) (target : ℚ) (p : AdmissionPlan n m)
    (remaining : List (Fin m)) : Option (Fin m × Fin (n + 1)) :=
  match remaining.filter fun idx => c.forced idx with
  | idx :: _ => (p.bestFitRank cap countCap (c.tokens idx)).map fun rank => (idx, rank)
  | [] =>
    ((p.openRanks cap).flatMap fun r => remaining.map fun i => (i, r)).argmin fun e =>
      (toLex (p.countRise countCap e.2,
        toLex (|(c.tokens e.1 : ℚ) - (target - p.loads e.2)|, toLex (e.1, e.2))) :
        ℕ ×ₗ ℚ ×ₗ Fin m ×ₗ Fin (n + 1))

/-- The loop over the budget that is left for this group. -/
def admitPartial (c : Candidates m) (cap countCap : ℕ) (target : ℚ) :
    ℕ → List (Fin m) → AdmissionPlan n m → Option (AdmissionPlan n m)
  | 0, _, p => some p
  | budget + 1, remaining, p =>
    (choosePartial c cap countCap target p remaining).bind fun e =>
      admitPartial c cap countCap target budget (remaining.erase e.1) (p.admitOne c.tokens e.1 e.2)

end AdmissionPlan

/-- The candidates of a group. -/
def groupMembers (groups : Fin m → ℕ) (group : ℕ) : List (Fin m) :=
  (finRange m).filter fun i => groups i = group

/-- The loop over the groups: the candidates of whole groups, those of the first group that does
not fit, and the budget that is left. -/
def splitGroups (groups : Fin m → ℕ) : List ℕ → ℕ → (List (Fin m) × List (Fin m)) × ℕ
  | [], budget => (([], []), budget)
  | group :: rest, budget =>
    if budget < (groupMembers groups group).length then (([], groupMembers groups group), budget)
    else if budget - (groupMembers groups group).length = 0 then
      ((groupMembers groups group, []), 0)
    else
      let r := splitGroups groups rest (budget - (groupMembers groups group).length)
      ((groupMembers groups group ++ r.1.1, r.1.2), r.2)

/-- `plan_kv_balanced_admission`. -/
def planKvBalancedAdmission (c : Candidates m) (rankTokens rankNumRequests : Fin (n + 1) → ℕ)
    (maxRequestsPerRank : ℕ) (maxNewRequests : ℤ) : Option (List (Fin m × Fin (n + 1))) :=
  let freeSlots := Bins.room maxRequestsPerRank rankNumRequests
  let budget := (min maxNewRequests (min freeSlots m)).toNat
  if budget = 0 then some []
  else
    let countCap := max (maxLoad rankNumRequests)
      ⌈((∑ r, rankNumRequests r + budget : ℕ) : ℚ) / (n + 1)⌉.toNat
    let split := splitGroups c.groups ((finRange m).map c.groups).eraseDups budget
    let windowAdmitted := split.1.1.length = m
    let sorted := split.1.1.insertionSort fun i j =>
      c.tokens j < c.tokens i ∨ c.tokens i = c.tokens j ∧ i ≤ j
    (AdmissionPlan.admitWhole c.tokens (fun p idx =>
        if windowAdmitted then p.bestFitRank maxRequestsPerRank countCap (c.tokens idx)
        else p.leastLoadedRank maxRequestsPerRank countCap)
      sorted ⟨rankTokens, rankNumRequests, []⟩).bind fun p =>
    if split.1.2 = [] ∨ split.2 = 0 then some p.plan
    else
      let avgCandidateTokens : ℚ := ((split.1.2.map c.tokens).sum : ℚ) / split.1.2.length
      let target : ℚ := (∑ r, (p.loads r : ℚ) + avgCandidateTokens * split.2) / (n + 1)
      (AdmissionPlan.admitPartial c maxRequestsPerRank countCap target split.2 split.1.2
        p).map AdmissionPlan.plan

/-! ### Ranks without a rise -/

namespace AdmissionPlan

/-- A rank that can take one more request, without a rise of the largest request count. -/
def Good (cap countCap : ℕ) (p : AdmissionPlan n m) (rank : Fin (n + 1)) : Prop :=
  p.counts rank < cap ∧ p.counts rank + 1 ≤ countCap

/-- The ranks after a part of the plan. -/
structure Fair (cap countCap : ℕ) (start : Fin (n + 1) → ℕ) (p : AdmissionPlan n m) : Prop where
  counts : ∀ r, p.counts r = start r + p.plan.countP fun e => e.2 = r
  counts_le : ∀ r, p.counts r ≤ max (start r) cap
  share : ∀ r, p.counts r ≤ countCap
  room : Bins.room cap p.counts + p.plan.length = Bins.room cap start
  sum : ∑ r, p.counts r = ∑ r, start r + p.plan.length

variable {cap countCap : ℕ} {start : Fin (n + 1) → ℕ} {p : AdmissionPlan n m}

lemma countRise_eq_zero_iff {rank : Fin (n + 1)} :
    p.countRise countCap rank = 0 ↔ p.counts rank + 1 ≤ countCap := by
  rw [countRise]
  omega

/-- **Some rank takes one more without a rise**, while there is room and the fair share is not
reached. -/
lemma Fair.exists_good (h : Fair cap countCap start p) {budget : ℕ}
    (hbudget : p.plan.length < budget)
    (hroom : budget ≤ Bins.room cap start) (hcap : ∑ r, start r + budget ≤ (n + 1) * countCap) :
    ∃ r, Good cap countCap p r := by
  have hpos : 0 < Bins.room cap p.counts := by
    have := h.room
    omega
  obtain ⟨r₀, hr₀⟩ := Bins.room_pos_iff.mp hpos
  by_contra hnone
  push Not at hnone
  have hfull : ∀ r, p.counts r < cap → p.counts r = countCap := fun r hr => by
    have hnot : ¬ Good cap countCap p r := hnone r
    have hle := h.share r
    rw [Good] at hnot
    omega
  -- a rank at the limit has more than the open one, so there is none
  have hall : ∀ r, p.counts r = countCap := fun r => by
    have h₀ := hfull r₀ hr₀
    have hle := h.share r
    by_contra hne
    have hge : ¬ p.counts r < cap := fun hlt => hne (hfull r hlt)
    omega
  have hsum : ∑ r, p.counts r = (n + 1) * countCap := by
    rw [Finset.sum_congr rfl fun r _ => hall r, Finset.sum_const, Finset.card_univ,
      Fintype.card_fin, smul_eq_mul]
  have := h.sum
  omega

lemma Fair.admitOne (h : Fair cap countCap start p) (tokens : Fin m → ℕ) (idx : Fin m)
    {rank : Fin (n + 1)}
    (hgood : Good cap countCap p rank) : Fair cap countCap start (p.admitOne tokens idx rank) := by
  have hroom : Bins.room cap (p.admitOne tokens idx rank).counts + 1 = Bins.room cap p.counts :=
    Bins.room_put (p := Bins.ofLoads p.counts) idx hgood.1
  have hlen : (p.admitOne tokens idx rank).plan.length = p.plan.length + 1 := length_append
  have hcounts : ∀ r, (p.admitOne tokens idx rank).counts r = p.counts r + if r = rank then 1
      else 0 := by
    intro r
    show update p.counts rank (p.counts rank + 1) r = _
    rw [update_apply]
    split_ifs with he
    · rw [he]
    · rfl
  refine ⟨fun r => ?_, fun r => ?_, fun r => ?_, ?_, ?_⟩
  · show _ = start r + (p.plan ++ [(idx, rank)]).countP fun e => e.2 = r
    rw [hcounts, h.counts, countP_append, countP_singleton, add_assoc]
    congr 2
    simp [eq_comm]
  · have hle := h.counts_le r
    have hlt := hgood.1
    rw [hcounts]
    split_ifs with he
    · subst he
      omega
    · exact hle
  · have hle := h.share r
    have hlt := hgood.2
    rw [hcounts]
    split_ifs with he
    · subst he
      exact hlt
    · exact hle
  · have := h.room
    omega
  · rw [hlen, Finset.sum_congr rfl fun r _ => hcounts r, Finset.sum_add_distrib, h.sum,
      Finset.sum_ite_eq' Finset.univ rank, if_pos (Finset.mem_univ rank)]
    omega

/-! ### The three rules -/

/-- A rule that looks at the rise first finds a rank without one. -/
lemma argmin_good {κ : Type*} [LinearOrder κ] (key : Fin (n + 1) → κ)
    (hkey : ∀ r r', key r ≤ key r' → p.countRise countCap r ≤ p.countRise countCap r')
    (hgood : ∃ r, Good cap countCap p r) :
    ∃ rank, (p.openRanks cap).argmin key = some rank ∧ Good cap countCap p rank := by
  obtain ⟨r, hr⟩ := hgood
  have hmem : r ∈ p.openRanks cap := by simpa [openRanks] using hr.1
  cases harg : (p.openRanks cap).argmin key with
  | none =>
    rw [argmin_eq_none] at harg
    simp [harg] at hmem
  | some rank =>
    have hopen : p.counts rank < cap := by simpa [openRanks] using argmin_mem harg
    have hle := hkey rank r (le_of_mem_argmin hmem harg)
    have hzero := countRise_eq_zero_iff.mpr hr.2
    exact ⟨rank, rfl, hopen, countRise_eq_zero_iff.mp (by omega)⟩

lemma bestFitRank_good (tokens : ℕ) (hgood : ∃ r, Good cap countCap p r) :
    ∃ rank, p.bestFitRank cap countCap tokens = some rank ∧ Good cap countCap p rank := by
  refine argmin_good _ (fun r r' hle => ?_) hgood
  have hfst : ∀ r, (ofLex (p.bestFitKey countCap tokens r)).1 = p.countRise countCap r := by
    intro r
    rw [bestFitKey]
    split_ifs with h
    · exact h.1.symm
    · rfl
  rw [← hfst r, ← hfst r']
  exact Prod.Lex.monotone_fst_ofLex hle

lemma leastLoadedRank_good (hgood : ∃ r, Good cap countCap p r) :
    ∃ rank, p.leastLoadedRank cap countCap = some rank ∧ Good cap countCap p rank :=
  argmin_good _ (fun _ _ hle => Prod.Lex.monotone_fst_ofLex hle) hgood

/-- A choice among candidates in queue order: forced ones come first, in that order. -/
lemma choosePartial_good (c : Candidates m) (target : ℚ) {remaining : List (Fin m)}
    (hsorted : remaining.Pairwise (· < ·)) (hne : remaining ≠ [])
    (hgood : ∃ r, Good cap countCap p r) :
    ∃ e, choosePartial c cap countCap target p remaining = some e ∧ e.1 ∈ remaining
      ∧ Good cap countCap p e.2 ∧ ∀ i ∈ remaining,
        c.forced i = true → c.forced e.1 = true ∧ e.1 ≤ i := by
  rw [choosePartial]
  cases hforced : remaining.filter fun idx => c.forced idx with
  | cons idx rest =>
    have hidx : idx ∈ remaining.filter fun idx => c.forced idx := hforced ▸ mem_cons_self
    obtain ⟨rank, hrank, hok⟩ := bestFitRank_good (c.tokens idx) hgood
    refine ⟨(idx, rank), ?_, mem_of_mem_filter hidx, hok, fun i hi hif => ?_⟩
    · dsimp only
      rw [hrank]
      rfl
    · refine ⟨(mem_filter.mp hidx).2, ?_⟩
      have hmem : i ∈ idx :: rest := hforced ▸ mem_filter.mpr ⟨hi, hif⟩
      have hpair := hsorted.filter fun idx => c.forced idx
      rw [hforced] at hpair
      rcases mem_cons.mp hmem with rfl | hrest
      · exact le_refl _
      · exact ((pairwise_cons.mp hpair).1 i hrest).le
  | nil =>
    obtain ⟨r, hr⟩ := hgood
    obtain ⟨i, hi⟩ := exists_mem_of_ne_nil _ hne
    generalize hpairs : ((p.openRanks cap).flatMap fun r => remaining.map fun i => (i, r)) = pairs
    have hiff : ∀ e, e ∈ pairs ↔ p.counts e.2 < cap ∧ e.1 ∈ remaining := by
      rintro ⟨i, r⟩
      rw [← hpairs]
      simp [openRanks]
    have hmem : (i, r) ∈ pairs := (hiff (i, r)).mpr ⟨hr.1, hi⟩
    cases harg : pairs.argmin fun e : Fin m × Fin (n + 1) =>
        (toLex (p.countRise countCap e.2,
          toLex (|(c.tokens e.1 : ℚ) - (target - p.loads e.2)|, toLex (e.1, e.2))) :
          ℕ ×ₗ ℚ ×ₗ Fin m ×ₗ Fin (n + 1)) with
    | none =>
      rw [argmin_eq_none] at harg
      simp [harg] at hmem
    | some e =>
      obtain ⟨hopen, hin⟩ := (hiff e).mp (argmin_mem harg)
      have hle : p.countRise countCap e.2 ≤ p.countRise countCap r :=
        Prod.Lex.monotone_fst_ofLex (le_of_mem_argmin hmem harg)
      have hzero := countRise_eq_zero_iff.mpr hr.2
      refine ⟨e, rfl, hin, ⟨hopen, countRise_eq_zero_iff.mp (by omega)⟩, fun i hi hif => ?_⟩
      have hnone : i ∈ remaining.filter fun idx => c.forced idx := mem_filter.mpr ⟨hi, hif⟩
      rw [hforced] at hnone
      cases hnone

/-! ### The loops -/

lemma admitWhole_fair (tokens : Fin m → ℕ)
    (choose : AdmissionPlan n m → Fin m → Option (Fin (n + 1)))
    (hchoose : ∀ (p : AdmissionPlan n m) idx, (∃ r, Good cap countCap p r) →
      ∃ rank, choose p idx = some rank ∧ Good cap countCap p rank)
    {budget : ℕ} (hroom : budget ≤ Bins.room cap start) (hcap : ∑ r,
      start r + budget ≤ (n + 1) * countCap)
    (whole : List (Fin m)) (h : Fair cap countCap start p)
      (hlen : p.plan.length + whole.length ≤ budget) :
    ∃ p', admitWhole tokens choose whole p = some p' ∧ Fair cap countCap start p'
      ∧ p'.plan.map fst = p.plan.map fst ++ whole := by
  induction whole generalizing p with
  | nil => exact ⟨p, rfl, h, (append_nil _).symm⟩
  | cons idx whole ih =>
    rw [length_cons] at hlen
    obtain ⟨rank, hrank, hgood⟩ := hchoose p idx (h.exists_good (by omega) hroom hcap)
    have hlen' : (p.admitOne tokens idx rank).plan.length = p.plan.length + 1 := length_append
    obtain ⟨p', hp', hfair, hfst⟩ := ih (h.admitOne tokens idx hgood) (by omega)
    refine ⟨p', ?_, hfair, ?_⟩
    · rw [admitWhole, hrank]
      exact hp'
    · rw [hfst]
      simp [AdmissionPlan.admitOne]

lemma admitPartial_fair (c : Candidates m) (target : ℚ) {total : ℕ}
    (hroom : total ≤ Bins.room cap start)
    (hcap : ∑ r, start r + total ≤ (n + 1) * countCap) (budget : ℕ) {remaining : List (Fin m)}
    (h : Fair cap countCap start p) (htotal : p.plan.length + budget ≤ total)
    (hlen : budget ≤ remaining.length) (hsorted : remaining.Pairwise (· < ·)) :
    ∃ p' added, admitPartial c cap countCap target budget remaining p = some p'
      ∧ Fair cap countCap start p'
      ∧ p'.plan.map fst = p.plan.map fst ++ added ∧ added.length = budget ∧ added.Nodup
      ∧ added ⊆ remaining
      ∧ ∀ i ∈ remaining, i ∉ added → c.forced i = true → ∀ j ∈ added,
        c.forced j = true ∧ j < i := by
  induction budget generalizing p remaining with
  | zero =>
    exact ⟨p, [], rfl, h, (append_nil _).symm, rfl, nodup_nil, nil_subset _,
      fun _ _ _ _ j hj => (not_mem_nil hj).elim⟩
  | succ budget ih =>
    have hne : remaining ≠ [] := by
      rintro rfl
      simp at hlen
    obtain ⟨e, he, hmem, hgood, hfirst⟩ := choosePartial_good c target hsorted hne
      (h.exists_good (by omega) hroom hcap)
    have hnodup : remaining.Nodup := hsorted.imp fun hlt => hlt.ne
    have herase : (remaining.erase e.1).length = remaining.length - 1 := length_erase_of_mem hmem
    have hlen' : (p.admitOne c.tokens e.1 e.2).plan.length = p.plan.length + 1 := length_append
    have hleft : budget ≤ (remaining.erase e.1).length := by omega
    obtain ⟨p', added, hp', hfair, hfst, haddedLen, hadded, hsub, hforced⟩ :=
      ih (h.admitOne c.tokens e.1 hgood)
      (by omega) hleft (hsorted.sublist erase_sublist)
    have hsub' : ∀ x ∈ added, x ∈ remaining ∧ x ≠ e.1 := fun x hx =>
      ⟨mem_of_mem_erase (hsub hx), (hnodup.mem_erase_iff.mp (hsub hx)).1⟩
    refine ⟨p', e.1 :: added, ?_, hfair, ?_, ?_, ?_, ?_, fun i hi hnot hif j hj => ?_⟩
    · rw [admitPartial, he]
      exact hp'
    · rw [hfst]
      simp [AdmissionPlan.admitOne]
    · rw [length_cons, haddedLen]
    · exact nodup_cons.mpr ⟨fun hin => (hsub' e.1 hin).2 rfl, hadded⟩
    · exact cons_subset.mpr ⟨hmem, fun x hx => (hsub' x hx).1⟩
    · have hne : i ≠ e.1 := fun heq => hnot (heq ▸ mem_cons_self)
      rcases mem_cons.mp hj with rfl | hj
      · obtain ⟨hf, hle⟩ := hfirst i hi hif
        exact ⟨hf, lt_of_le_of_ne hle hne.symm⟩
      · exact hforced i (hnodup.mem_erase_iff.mpr ⟨hne, hi⟩)
          (fun hin => hnot (mem_cons_of_mem _ hin)) hif j hj

end AdmissionPlan

/-! ### The groups -/

variable {groups : Fin m → ℕ}

lemma nodup_eraseDups (groups : List ℕ) : groups.eraseDups.Nodup := by
  induction hlen : groups.length using Nat.strong_induction_on generalizing groups with
  | _ len ih =>
    cases groups with
    | nil => simp
    | cons group groups =>
      rw [eraseDups_cons, nodup_cons]
      have hlt : (groups.filter fun g => !g == group).length < len := by
        have := length_filter_le (fun g => !g == group) groups
        rw [length_cons] at hlen
        omega
      refine ⟨fun hmem => ?_, ih _ hlt _ rfl⟩
      rw [mem_eraseDups, mem_filter] at hmem
      simp at hmem

/-- The candidates of whole groups and of the group that does not fit are different ones, and as
many are left to choose from as the budget that is left. -/
lemma splitGroups_spec (groups : Fin m → ℕ) (gs : List ℕ) (hgs : gs.Nodup) (budget : ℕ) :
    ((splitGroups groups gs budget).1.1 ++ (splitGroups groups gs budget).1.2).Nodup
    ∧ (∀ i ∈ (splitGroups groups gs budget).1.1 ++ (splitGroups groups gs budget).1.2,
        groups i ∈ gs)
    ∧ (splitGroups groups gs budget).1.1.length + (splitGroups groups gs budget).2 = budget
    ∧ ((splitGroups groups gs budget).1.2 ≠ [] →
        (splitGroups groups gs budget).2 ≤ (splitGroups groups gs budget).1.2.length) := by
  have hmembers : ∀ group, (groupMembers groups group).Nodup := fun group =>
    (nodup_finRange m).filter _
  have hgroup : ∀ group, ∀ i ∈ groupMembers groups group, groups i = group := by
    intro group i hi
    simpa [groupMembers] using hi
  induction gs generalizing budget with
  | nil => simp [splitGroups]
  | cons group gs ih =>
    rw [nodup_cons] at hgs
    rw [splitGroups]
    split_ifs with hlarge hexact
    · simp only [nil_append, length_nil, Nat.zero_add]
      refine ⟨hmembers group, fun i hi => ?_, trivial, fun _ => hlarge.le⟩
      exact mem_cons.mpr (.inl (hgroup group i hi))
    · simp only [append_nil]
      refine ⟨hmembers group, fun i hi => ?_, by omega, fun h => absurd rfl h⟩
      exact mem_cons.mpr (.inl (hgroup group i hi))
    · obtain ⟨hnodup, hin, hlen, hleft⟩ := ih hgs.2 (budget - (groupMembers groups group).length)
      dsimp only
      refine ⟨?_, fun i hi => ?_, ?_, hleft⟩
      · rw [append_assoc, nodup_append]
        refine ⟨hmembers group, hnodup, fun a ha b hb hab => hgs.1 ?_⟩
        rw [← hgroup group a ha, hab]
        exact hin b hb
      · rw [append_assoc, mem_append] at hi
        obtain hi | hi := hi
        · exact mem_cons.mpr (.inl (hgroup group i hi))
        · exact mem_cons_of_mem _ (hin i hi)
      · rw [length_append]
        omega

lemma eraseDups_sublist (l : List ℕ) : l.eraseDups.Sublist l := by
  induction hlen : l.length using Nat.strong_induction_on generalizing l with
  | _ len ih =>
    cases l with
    | nil => simp
    | cons a l =>
      rw [eraseDups_cons]
      have hle := length_filter_le (fun b => !b == a) l
      rw [length_cons] at hlen
      exact ((ih _ (by omega) _ rfl).trans filter_sublist).cons_cons a

/-- The whole groups are the first ones, and the next one is the group that does not fit. -/
lemma splitGroups_split (groups : Fin m → ℕ) (gs : List ℕ) (budget : ℕ) :
    ∃ before after, gs = before ++ after
      ∧ (splitGroups groups gs budget).1.1 = before.flatMap (groupMembers groups)
      ∧ (((splitGroups groups gs budget).1.2 = []
        ∧ (after = [] ∨ (splitGroups groups gs budget).2 = 0))
        ∨ ∃ g rest, after = g :: rest ∧ (splitGroups groups gs budget).1.2
          = groupMembers groups g) := by
  induction gs generalizing budget with
  | nil => exact ⟨[], [], rfl, rfl, .inl ⟨rfl, .inl rfl⟩⟩
  | cons group gs ih =>
    rw [splitGroups]
    split_ifs with hlarge hexact
    · exact ⟨[], group :: gs, rfl, rfl, .inr ⟨group, gs, rfl, rfl⟩⟩
    · exact ⟨[group], gs, rfl, by simp, .inl ⟨rfl, .inr rfl⟩⟩
    · obtain ⟨before, after, hgs, hwhole, hrest⟩ := ih (budget - (groupMembers groups group).length)
      refine ⟨group :: before, after, by rw [hgs, cons_append], ?_, hrest⟩
      dsimp only
      rw [hwhole, flatMap_cons]

/-- In contiguous groups, one of two groups is before the other as a whole. -/
lemma lt_of_group_before
    (hgroups : ∀ i j k, i ≤ j → j ≤ k → groups i = groups k → groups j = groups i) {xs ys : List ℕ}
    (hgs : ((finRange m).map groups).eraseDups = xs ++ ys) {i j : Fin m} (hi : groups i ∈ xs)
    (hj : groups j ∈ ys) (hne : groups i ≠ groups j) : i < j := by
  have hsub : [groups i, groups j].Sublist ((finRange m).map groups) := by
    refine Sublist.trans ?_ (eraseDups_sublist _)
    rw [hgs]
    exact (singleton_sublist.mpr hi).append (singleton_sublist.mpr hj)
  obtain ⟨l, hl, hmap⟩ := sublist_map_iff.mp hsub
  obtain ⟨i', j', rfl⟩ : ∃ i' j', l = [i', j'] := by
    refine length_eq_two.mp ?_
    rw [← length_map (f := groups), ← hmap]
    rfl
  simp only [map_cons, map_nil, cons.injEq, and_true] at hmap
  have hlt : i' < j' := by
    have hpair := (pairwise_lt_finRange m).sublist hl
    exact (pairwise_cons.mp hpair).1 j' mem_cons_self
  rcases lt_trichotomy i j with h | h | h
  · exact h
  · exact absurd (congrArg groups h) hne
  · exfalso
    rcases le_or_gt i' j with h' | h'
    · exact hne.symm ((hgroups i' j i h' h.le hmap.1.symm).trans hmap.1.symm)
    · exact hne (hmap.1.trans (hgroups j i' j' h'.le hlt.le hmap.2))

/-! ### The plan -/

/-- **What a plan promises**: as many candidates as the limits allow, each once; no rank is raised
above its limit, or above the largest count before and the fair share after; the groups are admitted
in order, and forced candidates of a group before the others. -/
structure PlanFair (c : Candidates m) (start : Fin (n + 1) → ℕ) (cap : ℕ) (maxNewRequests : ℤ)
    (plan : List (Fin m × Fin (n + 1))) : Prop where
  length : (plan.length : ℤ) = max 0 (min maxNewRequests (min (Bins.room cap start) m))
  nodup : (plan.map fst).Nodup
  limit : ∀ r, start r + plan.countP (fun e => e.2 = r) ≤ max (start r) cap
  share : ∀ r, start r + plan.countP (fun e => e.2 = r)
    ≤ max (maxLoad start) ⌈((∑ r, start r + plan.length : ℕ) : ℚ) / (n + 1)⌉.toNat
  groups : (∀ i j k, i ≤ j → j ≤ k → c.groups i = c.groups k → c.groups j = c.groups i) →
    ∀ i ∈ plan.map fst, ∀ j ∉ plan.map fst, c.groups i ≠ c.groups j → i < j
  forced : ∀ i ∈ plan.map fst, ∀ j ∉ plan.map fst, c.groups i = c.groups j → c.forced j = true →
    c.forced i = true ∧ i < j

lemma mem_groupMembers {g : ℕ} {i : Fin m} : i ∈ groupMembers groups g ↔ groups i = g := by
  simp [groupMembers]

/-- The fair share covers the requests of the round. -/
lemma sum_le_mul_ceil (total cap : ℕ) :
    total ≤ (n + 1) * max cap ⌈(total : ℚ) / (n + 1)⌉.toNat := by
  have hceil : (total : ℚ) / (n + 1) ≤ (⌈(total : ℚ) / (n + 1)⌉.toNat : ℚ) := by
    have hle := Int.le_ceil ((total : ℚ) / (n + 1))
    have hnat : (⌈(total : ℚ) / (n + 1)⌉ : ℚ) ≤ (⌈(total : ℚ) / (n + 1)⌉.toNat : ℚ) := by
      exact_mod_cast Int.self_le_toNat _
    exact hle.trans hnat
  have hmul : (total : ℚ) ≤ (n + 1) * (⌈(total : ℚ) / (n + 1)⌉.toNat : ℚ) := by
    rwa [div_le_iff₀ (by positivity), mul_comm] at hceil
  have hle : total ≤ (n + 1) * ⌈(total : ℚ) / (n + 1)⌉.toNat := by exact_mod_cast hmul
  exact hle.trans (Nat.mul_le_mul_left _ (le_max_right _ _))

/-- **The plan**, from what the two loops leave. -/
lemma PlanFair.of_loops {c : Candidates m} {start : Fin (n + 1) → ℕ} {cap countCap : ℕ}
    {maxNewRequests : ℤ}
    {p : AdmissionPlan n m} (whole added : List (Fin m)) {before after : List ℕ}
    (hfair : AdmissionPlan.Fair cap countCap start p)
    (hlength : (p.plan.length : ℤ) = max 0 (min maxNewRequests (min (Bins.room cap start) m)))
    (hcountCap : countCap
      = max (maxLoad start) ⌈((∑ r, start r + p.plan.length : ℕ) : ℚ) / (n + 1)⌉.toNat)
    (hplan : (p.plan.map fst).Perm (whole ++ added)) (hnodup : (whole ++ added).Nodup)
    (hgs : ((finRange m).map c.groups).eraseDups = before ++ after)
    (hwhole : ∀ i, i ∈ whole ↔ c.groups i ∈ before)
    (hadded : added = [] ∨ ∃ g rest, after = g :: rest ∧ ∀ i ∈ added, c.groups i = g)
    (hforced : ∀ i ∈ added, ∀ j, c.groups j = c.groups i → j ∉ added → c.forced j = true →
      c.forced i = true ∧ i < j) :
    PlanFair c start cap maxNewRequests p.plan := by
  have hmem : ∀ i, i ∈ p.plan.map fst ↔ i ∈ whole ∨ i ∈ added := fun i => by
    rw [hplan.mem_iff, mem_append]
  have hall : ∀ j, c.groups j ∈ before ++ after := fun j => by
    rw [← hgs, mem_eraseDups]
    exact mem_map_of_mem (mem_finRange j)
  refine ⟨hlength, hplan.nodup_iff.mpr hnodup, fun r => ?_, fun r => ?_,
    fun hgroups i hi j hj hne => ?_, fun i hi j hj heq hf => ?_⟩
  · rw [← hfair.counts r]
    exact hfair.counts_le r
  · rw [← hfair.counts r, ← hcountCap]
    exact hfair.share r
  · rw [hmem, not_or, hwhole] at hj
    have hafter : c.groups j ∈ after := (mem_append.mp (hall j)).resolve_left hj.1
    rcases (hmem i).mp hi with hi | hi
    · exact lt_of_group_before hgroups hgs ((hwhole i).mp hi) hafter hne
    · rcases hadded with rfl | ⟨g, rest, rfl, hg⟩
      · cases hi
      · have hrest : c.groups j ∈ rest := by
          rcases mem_cons.mp hafter with h | h
          · exact absurd ((hg i hi).trans h.symm) hne
          · exact h
        have hgs' : ((finRange m).map c.groups).eraseDups = (before ++ [g]) ++ rest := by
          rw [hgs, append_assoc]
          rfl
        refine lt_of_group_before hgroups hgs' ?_ hrest hne
        rw [hg i hi]
        exact mem_append_right _ (mem_singleton_self g)
  · rw [hmem, not_or] at hj
    rcases (hmem i).mp hi with hi | hi
    · exact absurd ((hwhole j).mpr (heq ▸ (hwhole i).mp hi)) hj.1
    · exact hforced i hi j heq.symm hj.2 hf

lemma planFair_nil (c : Candidates m) {start : Fin (n + 1) → ℕ} {cap : ℕ} {maxNewRequests : ℤ}
    (hzero : min maxNewRequests (min (Bins.room cap start) m) ≤ 0) :
    PlanFair c start cap maxNewRequests [] where
  length := (max_eq_left hzero).symm
  nodup := nodup_nil
  limit _ := le_max_left _ _
  share r := (load_le_maxLoad start r).trans (le_max_left _ _)
  groups _ _ hi := (not_mem_nil hi).elim
  forced _ hi := (not_mem_nil hi).elim

/-- When no group is left over, the budget is used up. -/
lemma splitGroups_left {gs before after : List ℕ} {budget : ℕ} (hbudget : budget ≤ m)
    (hall : ∀ i, groups i ∈ gs) (hgs : gs = before ++ after)
    (hwhole : (splitGroups groups gs budget).1.1 = before.flatMap (groupMembers groups))
    (hlen : (splitGroups groups gs budget).1.1.length + (splitGroups groups gs budget).2 = budget)
    (hafter : after = [] ∨ (splitGroups groups gs budget).2 = 0) :
    (splitGroups groups gs budget).2 = 0 := by
  rcases hafter with rfl | hzero
  · have hsub : finRange m ⊆ (splitGroups groups gs budget).1.1 := fun i _ => by
      rw [hwhole, mem_flatMap]
      refine ⟨groups i, ?_, mem_groupMembers.mpr rfl⟩
      rw [append_nil] at hgs
      exact hgs ▸ hall i
    have hle := ((nodup_finRange m).subperm hsub).length_le
    rw [length_finRange] at hle
    omega
  · exact hzero

/-- **The plan exists and is fair.** -/
lemma plan_fair (c : Candidates m) (rankTokens start : Fin (n + 1) → ℕ) (cap : ℕ)
    (maxNewRequests : ℤ) :
    ∃ plan, planKvBalancedAdmission c rankTokens start cap maxNewRequests = some plan
      ∧ PlanFair c start cap maxNewRequests plan := by
  rw [planKvBalancedAdmission]
  set budget := (min maxNewRequests (min ((Bins.room cap start : ℕ) : ℤ) m)).toNat with hbudget
  by_cases hzero : budget = 0
  · rw [if_pos hzero]
    exact ⟨[], rfl, planFair_nil c (by omega)⟩
  rw [if_neg hzero]
  have hroom : budget ≤ Bins.room cap start := by omega
  set countCap := max (maxLoad start) ⌈((∑ r, start r + budget : ℕ) : ℚ) / (n + 1)⌉.toNat
      with hcountCap
  have hcap : ∑ r, start r + budget ≤ (n + 1) * countCap := sum_le_mul_ceil _ _
  set gs := ((finRange m).map c.groups).eraseDups with hgsdef
  have hall : ∀ i, c.groups i ∈ gs := fun i => by
    rw [hgsdef, mem_eraseDups]
    exact mem_map_of_mem (mem_finRange i)
  obtain ⟨before, after, hgs, hwhole, hrest⟩ := splitGroups_split c.groups gs budget
  obtain ⟨hnodup, -, hlen, hleft⟩ := splitGroups_spec c.groups gs (nodup_eraseDups _) budget
  have hused := splitGroups_left (show budget ≤ m by omega) hall hgs hwhole hlen
  set split := splitGroups c.groups gs budget
  set sorted := split.1.1.insertionSort fun i j => c.tokens j < c.tokens i ∨ c.tokens i = c.tokens j
      ∧ i ≤ j
  have hperm : sorted.Perm split.1.1 := perm_insertionSort _ _
  have hwholeIff : ∀ i, i ∈ split.1.1 ↔ c.groups i ∈ before := fun i => by
    rw [hwhole, mem_flatMap]
    simp [mem_groupMembers]
  have hempty : AdmissionPlan.Fair cap countCap start
      (⟨rankTokens, start, []⟩ : AdmissionPlan n m) :=
    ⟨fun r => by
      simp, fun r => le_max_left _ _, fun r => (load_le_maxLoad start r).trans (le_max_left _ _),
        by simp, by simp⟩
  obtain ⟨p, hadm, hfair, hfst⟩ := AdmissionPlan.admitWhole_fair c.tokens
    (fun p idx => if split.1.1.length = m then p.bestFitRank cap countCap (c.tokens idx)
      else p.leastLoadedRank cap countCap)
    (fun p idx hgood => by
      split_ifs
      · exact AdmissionPlan.bestFitRank_good _ hgood
      · exact AdmissionPlan.leastLoadedRank_good hgood)
    hroom hcap sorted hempty (by rw [hperm.length_eq]; simp; omega)
  rw [map_nil, nil_append] at hfst
  have hplen : p.plan.length = split.1.1.length := by
    rw [← length_map (f := fst), hfst, hperm.length_eq]
  dsimp only
  rw [hadm, Option.bind_some]
  split_ifs with hdone
  · have hzero' : split.2 = 0 := by
      rcases hdone with hnone | hzero
      · rcases hrest with ⟨-, hafter⟩ | ⟨g, rest, rfl, hg⟩
        · exact hused hafter
        · rw [hnone] at hg
          -- a group of the list has a member
          have hmem : g ∈ gs := hgs ▸ mem_append_right _ mem_cons_self
          obtain ⟨i, -, hi⟩ := mem_map.mp (mem_eraseDups.mp hmem)
          have hin := mem_groupMembers.mpr hi
          rw [← hg] at hin
          cases hin
      · exact hzero
    refine ⟨p.plan, rfl, ?_⟩
    have hbudget' : p.plan.length = budget := by omega
    refine PlanFair.of_loops split.1.1 [] hfair (by omega) (by rw [hbudget']) ?_ ?_ hgs hwholeIff
      (.inl rfl)
      fun i hi => (not_mem_nil hi).elim
    · rw [hfst, append_nil]
      exact hperm
    · rw [append_nil]
      exact (nodup_append.mp hnodup).1
  · rw [not_or] at hdone
    obtain ⟨g, rest, hafter, hg⟩ := hrest.resolve_left fun h => hdone.1 h.1
    have hsorted : split.1.2.Pairwise (· < ·) := by
      rw [hg]
      exact (pairwise_lt_finRange m).filter _
    obtain ⟨p', added, hsome, hfair', hfst', hlen', hadded, hsub, hforced⟩ :=
      AdmissionPlan.admitPartial_fair c ((∑ r, (p.loads r : ℚ)
        + ((split.1.2.map c.tokens).sum : ℚ) / split.1.2.length * split.2) / (n + 1))
        hroom hcap split.2 hfair (by omega) (hleft hdone.1) hsorted
    refine ⟨p'.plan, by rw [hsome, Option.map_some], ?_⟩
    have hbudget' : p'.plan.length = budget := by
      rw [← length_map (f := fst), hfst', hfst, length_append, hperm.length_eq]
      omega
    refine PlanFair.of_loops split.1.1 added hfair' (by omega)
      (by rw [hbudget']) ?_ ?_ hgs hwholeIff
      (.inr ⟨g, rest, hafter, fun i hi => ?_⟩) fun i hi j heq hj hf => ?_
    · rw [hfst', hfst]
      exact hperm.append_right added
    · rw [nodup_append]
      exact ⟨(nodup_append.mp hnodup).1, hadded,
        fun a ha b hb => (nodup_append.mp hnodup).2.2 a ha b (hsub hb)⟩
    · have hi' := hsub hi
      rw [hg] at hi'
      exact mem_groupMembers.mp hi'
    · refine hforced j ?_ hj hf i hi
      have hi' := hsub hi
      rw [hg, mem_groupMembers] at hi' ⊢
      exact heq.trans hi'

end TrtLlm.Scheduler
