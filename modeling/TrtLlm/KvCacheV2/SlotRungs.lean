import TrtLlm.Util.Bisect
import TrtLlm.Util.Rounding

/-!
What the slots of one pool group cost (`storage/core.cpp`): the grains of the two budgets, the
bytes, and the slot counts between which nothing more is paid.

A slot spans every pool of the group.  A pool takes whole grains, so its cost is flat over a
range of slot counts; the last count of such a range is a rung.

* `Rungs`: the functions of a group that the division of a quota uses;
* `rungsOf_lawful`: **the rungs of a group** are the counts that its grains allow.
-/

namespace TrtLlm.CacheLevelStorage

open List

/-- `grainsForSlots`. -/
def grainsForSlots (numSlots : ℕ) (slotSizeList which : List ℕ) (granularity : ℕ) : ℕ :=
  (which.map fun poolIdx => divUp (numSlots * slotSizeList.getD poolIdx 0) granularity).sum

/-- `allBytesForSlots`. -/
def allBytesForSlots (sizes grains : List ℕ) (slots : ℕ) : ℕ :=
  (zipWith (fun size grain => roundUp (slots * size) grain) sizes grains).sum

/-- The least of some slot counts; of none, the greatest slot count there is. -/
def leastSlots : List ℕ → ℕ
  | [] => 2 ^ 63 - 1
  | count :: counts => counts.foldl min count

/-- `rungAtOrBelow`, for slot sizes that are positive. -/
def rungAtOrBelow (sizes grains : List ℕ) (budget : ℕ) : ℕ :=
  let hi := budget / sizes.sum + 1
  if allBytesForSlots sizes grains hi ≤ budget then hi
  else bisect (fun slots => allBytesForSlots sizes grains slots ≤ budget) 0 hi

/-- The slots that the grains of one pool hold when they hold so many. -/
def slotsOfGrains (slots size grain : ℕ) : ℕ := divUp (slots * size) grain * grain / size

def freeRun (sizes grains : List ℕ) (slots : ℕ) : ℕ :=
  leastSlots (zipWith (fun size grain => slotsOfGrains slots size grain) sizes grains)

def freeRunOnQuota (sizes paid : List ℕ) (granularity slots : ℕ) : ℕ :=
  leastSlots (paid.map fun poolIdx => slotsOfGrains slots (sizes.getD poolIdx 0) granularity)

/-- The pools of a group that the second budget does not name. -/
def poolsPaidByQuota (numPools : ℕ) (secondPools : List ℕ) : List ℕ :=
  (range numPools).filter fun poolIdx => poolIdx ∉ secondPools

/-- One grain for each pool of a group. -/
def grainsOf (numPools : ℕ) (secondPools : List ℕ) (granularity grain2 : ℕ) : List ℕ :=
  (range numPools).map fun poolIdx => if poolIdx ∈ secondPools then grain2 else granularity

/-- A pool group as the division of a quota sees it. -/
structure Rungs where
  quotaGrains : ℕ → ℕ
  secondGrains : ℕ → ℕ
  allBytes : ℕ → ℕ
  freeRun : ℕ → ℕ
  freeRunOnQuota : ℕ → ℕ
  rungAtOrBelow : ℕ → ℕ
  onSecond : Bool

/-- The rungs of a group with these slot sizes, of which a second budget pays for some pools. -/
def rungsOf (sizes secondPools : List ℕ) (granularity grain2 : ℕ) : Rungs :=
  let paid := poolsPaidByQuota sizes.length secondPools
  let grains := grainsOf sizes.length secondPools granularity grain2
  { quotaGrains := fun slots => grainsForSlots slots sizes paid granularity
    secondGrains := fun slots => grainsForSlots slots sizes secondPools grain2
    allBytes := allBytesForSlots sizes grains
    freeRun := CacheLevelStorage.freeRun sizes grains
    freeRunOnQuota := CacheLevelStorage.freeRunOnQuota sizes paid granularity
    rungAtOrBelow := CacheLevelStorage.rungAtOrBelow sizes grains
    onSecond := !secondPools.isEmpty }

/-- What the division relies on. -/
structure Rungs.Lawful (r : Rungs) (granularity : ℕ) : Prop where
  quota_mono : Monotone r.quotaGrains
  second_mono : Monotone r.secondGrains
  bytes_mono : Monotone r.allBytes
  freeRun_mono : Monotone r.freeRun
  le_freeRun : ∀ n, n ≤ r.freeRun n
  freeRun_freeRun : ∀ n, r.freeRun (r.freeRun n) = r.freeRun n
  bytes_freeRun : ∀ n, r.allBytes (r.freeRun n) = r.allBytes n
  le_freeRunOnQuota : ∀ n, n ≤ r.freeRunOnQuota n
  quota_freeRunOnQuota : ∀ n, r.quotaGrains (r.freeRunOnQuota n) = r.quotaGrains n
  freeRunOnQuota_eq : r.onSecond = false → r.freeRunOnQuota = r.freeRun
  second_eq_zero : r.onSecond = false → ∀ n, r.secondGrains n = 0
  bytes_rung : ∀ budget, r.allBytes (r.rungAtOrBelow budget) ≤ budget
  le_rung : ∀ {n budget}, r.allBytes n ≤ budget → n ≤ r.rungAtOrBelow budget
  rung_zero : r.rungAtOrBelow 0 = 0
  /-- A slot takes at least a byte of what the quota pays. -/
  le_quota : ∀ n, n ≤ r.quotaGrains n * granularity

/-! ### One pool -/

section
variable {size grain n m : ℕ}

lemma le_slotsOfGrains (hs : 0 < size) (hg : 0 < grain) : n ≤ slotsOfGrains n size grain :=
  (Nat.le_div_iff_mul_le hs).mpr (le_divUp_mul hg)

lemma slotsOfGrains_mono (hg : 0 < grain) (h : n ≤ m) :
    slotsOfGrains n size grain ≤ slotsOfGrains m size grain :=
  Nat.div_le_div_right (Nat.mul_le_mul_right grain (divUp_mono hg (Nat.mul_le_mul_right size h)))

/-- Up to the slots that its grains hold, a pool takes the same grains. -/
lemma divUp_eq_of_le_slots (hg : 0 < grain) (h : n ≤ m) (hm : m ≤ slotsOfGrains n size grain) :
    divUp (m * size) grain = divUp (n * size) grain := by
  refine le_antisymm ((divUp_le_iff hg).mpr ?_) (divUp_mono hg (Nat.mul_le_mul_right size h))
  exact (Nat.mul_le_mul_right size hm).trans (Nat.div_mul_le_self _ _)

end

/-! ### The least of some counts -/

lemma le_foldl_min_iff {k c : ℕ} {l : List ℕ} : k ≤ l.foldl min c ↔ k ≤ c ∧ ∀ x ∈ l, k ≤ x := by
  induction l generalizing c with
  | nil => simp
  | cons x l ih => simp [ih, and_assoc]

lemma le_leastSlots_iff {k : ℕ} {l : List ℕ} (hl : l ≠ []) : k ≤ leastSlots l ↔ ∀ x ∈ l, k ≤ x := by
  cases l with
  | nil => exact absurd rfl hl
  | cons c l => simp [leastSlots, le_foldl_min_iff]

/-! ### Pools with their grains -/

section
variable {pools : List (ℕ × ℕ)} {n m : ℕ}

section

variable (pools : List (ℕ × ℕ)) (slots : ℕ)

/-- The grains of some pools, each a slot size and a grain. -/
def poolGrains : ℕ :=
  (pools.map fun p => divUp (slots * p.1) p.2).sum

/-- The bytes of some pools. -/
def poolBytes : ℕ :=
  (pools.map fun p => roundUp (slots * p.1) p.2).sum

/-- The slots that the grains of some pools hold. -/
def poolRun : ℕ :=
  leastSlots (pools.map fun p => slotsOfGrains slots p.1 p.2)

end

/-- Slot sizes and grains are positive. -/
def Positive (pools : List (ℕ × ℕ)) : Prop := ∀ p ∈ pools, 0 < p.1 ∧ 0 < p.2

lemma poolGrains_mono (h : Positive pools) : Monotone (poolGrains pools) := by
  intro n m hnm
  refine sum_le_sum fun p hp => ?_
  exact divUp_mono (h p hp).2 (Nat.mul_le_mul_right _ hnm)

lemma poolBytes_mono (h : Positive pools) : Monotone (poolBytes pools) := by
  intro n m hnm
  refine sum_le_sum fun p hp => ?_
  exact roundUp_mono (h p hp).2 (Nat.mul_le_mul_right _ hnm)

lemma le_poolRun_iff (hne : pools ≠ []) {k : ℕ} :
    k ≤ poolRun pools n ↔ ∀ p ∈ pools, k ≤ slotsOfGrains n p.1 p.2 := by
  rw [poolRun, le_leastSlots_iff (by simpa using hne), forall_mem_map]

variable (h : Positive pools)
include h

lemma le_poolRun (hne : pools ≠ []) : n ≤ poolRun pools n :=
  (le_poolRun_iff hne).mpr fun p hp => le_slotsOfGrains (h p hp).1 (h p hp).2

lemma poolRun_mono (hne : pools ≠ []) : Monotone (poolRun pools) := by
  intro n m hnm
  refine (le_poolRun_iff hne).mpr fun p hp => ?_
  exact ((le_poolRun_iff hne).mp le_rfl p hp).trans (slotsOfGrains_mono (h p hp).2 hnm)

/-- Within a run no pool takes another grain. -/
lemma divUp_eq_of_le_poolRun (hnm : n ≤ m) (hm : m ≤ poolRun pools n)
    {p : ℕ × ℕ} (hp : p ∈ pools) : divUp (m * p.1) p.2 = divUp (n * p.1) p.2 :=
  divUp_eq_of_le_slots (h p hp).2 hnm ((le_poolRun_iff (ne_nil_of_mem hp)).mp hm p hp)

lemma poolGrains_poolRun (hne : pools ≠ []) :
    poolGrains pools (poolRun pools n) = poolGrains pools n := by
  rw [poolGrains, poolGrains]
  congr 1
  refine map_congr_left fun p hp => ?_
  exact divUp_eq_of_le_poolRun h (le_poolRun h hne) le_rfl hp

lemma poolBytes_poolRun (hne : pools ≠ []) :
    poolBytes pools (poolRun pools n) = poolBytes pools n := by
  rw [poolBytes, poolBytes]
  congr 1
  refine map_congr_left fun p hp => ?_
  rw [roundUp, roundUp, divUp_eq_of_le_poolRun h (le_poolRun h hne) le_rfl hp]

lemma poolRun_poolRun (hne : pools ≠ []) : poolRun pools (poolRun pools n) = poolRun pools n := by
  conv_lhs => rw [poolRun]
  conv_rhs => rw [poolRun]
  congr 1
  refine map_congr_left fun p hp => ?_
  rw [slotsOfGrains, divUp_eq_of_le_poolRun h (le_poolRun h hne) le_rfl hp, slotsOfGrains]

lemma mul_sum_le_poolBytes (n : ℕ) : n * (pools.map Prod.fst).sum ≤ poolBytes pools n := by
  rw [← sum_map_mul_left, poolBytes]
  exact sum_le_sum fun p hp => le_roundUp (h p hp).2

/-- Every slot takes a byte in the first pool. -/
lemma le_poolGrains_mul (hne : pools ≠ []) {granularity : ℕ}
    (hg : ∀ p ∈ pools, p.2 = granularity) (n : ℕ) : n ≤ poolGrains pools n * granularity := by
  cases pools with
  | nil => exact absurd rfl hne
  | cons p pools =>
    obtain ⟨hsize, hgrain⟩ := h p (by simp)
    rw [poolGrains, map_cons, sum_cons, Nat.add_mul, ← hg p (by simp)]
    calc n ≤ n * p.1 := Nat.le_mul_of_pos_right n hsize
      _ ≤ divUp (n * p.1) p.2 * p.2 := le_divUp_mul hgrain
      _ ≤ _ := Nat.le_add_right _ _

end

/-! ### The rungs of a group -/

section
variable {sizes secondPools : List ℕ} {granularity grain2 : ℕ}

lemma grainsForSlots_eq (slots : ℕ) (which : List ℕ) : grainsForSlots slots sizes which granularity
    = poolGrains (which.map fun poolIdx => (sizes.getD poolIdx 0, granularity)) slots := by
  rw [grainsForSlots, poolGrains, map_map]
  rfl

lemma allBytesForSlots_eq (grains : List ℕ) :
    allBytesForSlots sizes grains = poolBytes (sizes.zip grains) := by
  funext slots
  rw [allBytesForSlots, poolBytes, ← map_uncurry_zip_eq_zipWith]
  rfl

lemma freeRun_eq (grains : List ℕ) : freeRun sizes grains = poolRun (sizes.zip grains) := by
  funext slots
  rw [freeRun, poolRun, ← map_uncurry_zip_eq_zipWith]
  rfl

lemma freeRunOnQuota_eq (paid : List ℕ) : freeRunOnQuota sizes paid granularity
    = poolRun (paid.map fun poolIdx => (sizes.getD poolIdx 0, granularity)) := by
  funext slots
  rw [freeRunOnQuota, poolRun, map_map]
  rfl

/-- **The rung** of a budget is the greatest count whose bytes it holds. -/
lemma rungAtOrBelow_spec {grains : List ℕ} (h : Positive (sizes.zip grains)) (hpos : 0 < sizes.sum)
    (hlen : grains.length = sizes.length) (budget : ℕ) :
    allBytesForSlots sizes grains (rungAtOrBelow sizes grains budget) ≤ budget
      ∧ ∀ n, allBytesForSlots sizes grains n ≤ budget → n ≤ rungAtOrBelow sizes grains budget := by
  have hmono : Monotone (allBytesForSlots sizes grains) := by
    rw [allBytesForSlots_eq]
    exact poolBytes_mono h
  have hfst : (sizes.zip grains).map Prod.fst = sizes := map_fst_zip (by omega)
  have hlarge : ¬ allBytesForSlots sizes grains (budget / sizes.sum + 1) ≤ budget := by
    rw [not_le, allBytesForSlots_eq]
    calc budget < (budget / sizes.sum + 1) * sizes.sum := by
            rw [mul_comm]
            exact Nat.lt_mul_div_succ budget hpos
      _ ≤ poolBytes (sizes.zip grains) (budget / sizes.sum + 1) := by
            have hle := mul_sum_le_poolBytes h (budget / sizes.sum + 1)
            rwa [hfst] at hle
  have hzero : allBytesForSlots sizes grains 0 ≤ budget := by
    have hsum : allBytesForSlots sizes grains 0 = 0 := by
      rw [allBytesForSlots_eq, poolBytes]
      refine sum_eq_zero fun x hx => ?_
      obtain ⟨p, hp, rfl⟩ := mem_map.mp hx
      rw [zero_mul, roundUp, divUp_zero (h p hp).2, zero_mul]
    omega
  rw [rungAtOrBelow, if_neg hlarge]
  obtain ⟨-, -, hp, hnext⟩ :=
    bisect_spec (p := fun slots => allBytesForSlots sizes grains slots ≤ budget)
    (Nat.succ_pos (budget / sizes.sum)) hzero
  refine ⟨hp, fun n hn => ?_⟩
  by_contra hlt
  exact hnext hlarge ((hmono (Nat.succ_le_of_lt (not_le.mp hlt))).trans hn)

lemma positive_pools (hsizes : ∀ size ∈ sizes, 0 < size) {which : List ℕ} {grain : ℕ}
    (hgrain : 0 < grain) (hwhich : ∀ poolIdx ∈ which, poolIdx < sizes.length) :
    Positive (which.map fun poolIdx => (sizes.getD poolIdx 0, grain)) := by
  intro p hp
  obtain ⟨poolIdx, hmem, rfl⟩ := mem_map.mp hp
  have hlt := hwhich poolIdx hmem
  refine ⟨?_, hgrain⟩
  rw [getD_eq_getElem?_getD, getElem?_eq_getElem hlt, Option.getD_some]
  exact hsizes _ (getElem_mem hlt)

/-- Without second pools the quota pays for all of them. -/
lemma paidPools_eq_zip (sizes : List ℕ) (granularity grain2 : ℕ) :
    (poolsPaidByQuota sizes.length []).map (fun poolIdx => (sizes.getD poolIdx 0, granularity))
      = sizes.zip (grainsOf sizes.length [] granularity grain2) := by
  refine ext_getElem ?_ fun i h₁ h₂ => ?_
  · simp [poolsPaidByQuota, grainsOf]
  · have hi : i < sizes.length := by
      rw [length_zip] at h₂
      omega
    simp [poolsPaidByQuota, grainsOf, getElem?_eq_getElem hi]

/-- **The rungs of a group** whose second pools exist and leave a pool to the quota. -/
theorem rungsOf_lawful (hsizes : ∀ size ∈ sizes, 0 < size) (hg : 0 < granularity) (hg2 : 0 < grain2)
    (hrange : ∀ poolIdx ∈ secondPools, poolIdx < sizes.length)
    (hpaid : poolsPaidByQuota sizes.length secondPools ≠ []) :
    (rungsOf sizes secondPools granularity grain2).Lawful granularity := by
  set paid := poolsPaidByQuota sizes.length secondPools with hpaidDef
  set grains := grainsOf sizes.length secondPools granularity grain2 with hgrains
  have hlen : grains.length = sizes.length := by simp [hgrains, grainsOf]
  have hposPaid : Positive (paid.map fun poolIdx => (sizes.getD poolIdx 0, granularity)) :=
    positive_pools hsizes hg fun poolIdx hp => mem_range.mp (mem_of_mem_filter hp)
  have hposSecond := positive_pools hsizes hg2 hrange
  have hposAll : Positive (sizes.zip grains) := by
    rintro ⟨size, grain⟩ hp
    obtain ⟨hs, hgr⟩ := of_mem_zip hp
    refine ⟨hsizes size hs, ?_⟩
    obtain ⟨poolIdx, -, rfl⟩ := mem_map.mp hgr
    split_ifs
    · exact hg2
    · exact hg
  have hsizesNe : sizes ≠ [] := by
    rintro rfl
    exact hpaid rfl
  have hzipNe : sizes.zip grains ≠ [] := by
    intro hnil
    have hlength := congrArg length hnil
    rw [length_zip, hlen, min_self] at hlength
    exact hsizesNe (length_eq_zero_iff.mp hlength)
  have hpaidNe : (paid.map fun poolIdx => (sizes.getD poolIdx 0, granularity)) ≠ [] := by
    simpa using hpaid
  have hsum : 0 < sizes.sum := by
    obtain ⟨size, hmem⟩ := exists_mem_of_ne_nil _ hsizesNe
    exact (hsizes size hmem).trans_le (single_le_sum (fun _ _ => Nat.zero_le _) _ hmem)
  have hrung := rungAtOrBelow_spec hposAll hsum hlen
  have hquota : (rungsOf sizes secondPools granularity grain2).quotaGrains
      = poolGrains (paid.map fun poolIdx => (sizes.getD poolIdx 0, granularity)) :=
    funext fun slots => grainsForSlots_eq slots paid
  have hsecond : (rungsOf sizes secondPools granularity grain2).secondGrains
      = poolGrains (secondPools.map fun poolIdx => (sizes.getD poolIdx 0, grain2)) :=
    funext fun slots => grainsForSlots_eq slots secondPools
  have hbytes : (rungsOf sizes secondPools granularity grain2).allBytes
      = poolBytes (sizes.zip grains) :=
    allBytesForSlots_eq grains
  have hrun : (rungsOf sizes secondPools granularity grain2).freeRun = poolRun (sizes.zip grains) :=
    freeRun_eq grains
  have htop : (rungsOf sizes secondPools granularity grain2).freeRunOnQuota
      = poolRun (paid.map fun poolIdx => (sizes.getD poolIdx 0, granularity)) :=
    freeRunOnQuota_eq paid
  have hon : (rungsOf sizes secondPools granularity grain2).onSecond = false →
      secondPools = [] := by
    intro hoff
    simpa [rungsOf] using hoff
  constructor
  · exact hquota ▸ poolGrains_mono hposPaid
  · exact hsecond ▸ poolGrains_mono hposSecond
  · exact hbytes ▸ poolBytes_mono hposAll
  · exact hrun ▸ poolRun_mono hposAll hzipNe
  · exact fun n => hrun ▸ le_poolRun hposAll hzipNe
  · exact fun n => hrun ▸ poolRun_poolRun hposAll hzipNe
  · intro n
    rw [hbytes, hrun]
    exact poolBytes_poolRun hposAll hzipNe
  · exact fun n => htop ▸ le_poolRun hposPaid hpaidNe
  · intro n
    rw [hquota, htop]
    exact poolGrains_poolRun hposPaid hpaidNe
  · intro hoff
    rw [htop, hrun, hpaidDef, hgrains, hon hoff, paidPools_eq_zip]
  · intro hoff n
    rw [hsecond, hon hoff]
    rfl
  · exact fun budget => (hrung budget).1
  · exact fun {n budget} hn => (hrung budget).2 n hn
  · have hle : (rungsOf sizes secondPools granularity grain2).allBytes
        ((rungsOf sizes secondPools granularity grain2).rungAtOrBelow 0) ≤ 0 := (hrung 0).1
    have hmul := mul_sum_le_poolBytes hposAll
      ((rungsOf sizes secondPools granularity grain2).rungAtOrBelow 0)
    rw [map_fst_zip (by omega), ← hbytes] at hmul
    rcases Nat.mul_eq_zero.mp (Nat.le_zero.mp (hmul.trans hle)) with hzero | hzero
    · exact hzero
    · exact absurd hzero hsum.ne'
  · intro n
    rw [hquota]
    refine le_poolGrains_mul hposPaid hpaidNe (fun p hp => ?_) n
    obtain ⟨poolIdx, -, rfl⟩ := mem_map.mp hp
    rfl

end

end TrtLlm.CacheLevelStorage
