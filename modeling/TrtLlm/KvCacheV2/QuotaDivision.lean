import Mathlib
import TrtLlm.KvCacheV2.SlotRungs

/-!
`ratioToSlotCountList`: a quota, and the quota of a second medium, are divided between the pool
groups of a cache level by a ratio (`storage/core.cpp`).

Ratios are exact, and so are the levels, shares and crossings that are computed from them; sizes
and counts are natural numbers without a bound.  A subtraction of unsigned numbers fails when it
would fall below zero.

The floors of the groups come first.  Two levels, one for each budget, place every group on a rung
(`place`); then the groups take further steps one by one (`promote`), and when none can, the
grains that the quota has paid for already are filled (`closePaidGrains`).
-/

namespace TrtLlm.CacheLevelStorage

open List Function

/-- Why the division fails: the checks of the source in order, a subtraction below zero, a choice
among no steps, and steps without an end. -/
inductive SizingError where
  | granularity
  | secondGranularity
  | poolOutOfRange
  | poolTwice
  | ratio
  | noPool
  | floorSecond
  | floorQuota
  | underflow
  | noStep
  | unfinished
deriving DecidableEq

/-- A subtraction of unsigned numbers. -/
def sub (a b : ℕ) : Except SizingError ℕ := if b ≤ a then .ok (a - b) else .error .underflow

/-- A sum over the pool groups, in their order. -/
def sumGroups {n : ℕ} (f : Fin n → Except SizingError ℕ) : Except SizingError ℕ :=
  (finRange n).foldlM (fun total i => do
    let d ← f i
    pure (total + d)) 0

/-! ### Levels -/

/-- The doubling of `highestLevelFitting`, for so many rounds: the bounds it reaches, and whether
the residue was exceeded. -/
def doubleLevel (spend : ℕ → Except SizingError ℕ) (residue : ℕ) :
    ℕ → ℕ → ℕ → Except SizingError (ℕ × ℕ × Bool)
  | 0, lo, hi => pure (lo, hi, false)
  | rounds + 1, lo, hi => do
    let total ← spend hi
    if residue < total then pure (lo, hi, true)
    else if (2 ^ 64 - 1) / 2 < hi then pure (hi, hi, false)
    else doubleLevel spend residue rounds hi (hi * 2)

/-- The bisection of `highestLevelFitting`. -/
def bisectLevel (spend : ℕ → Except SizingError ℕ) (residue lo hi : ℕ) : Except SizingError ℕ :=
  if lo + 1 < hi then do
    let mid := lo + (hi - lo) / 2
    let total ← spend mid
    if total ≤ residue then bisectLevel spend residue mid hi else bisectLevel spend residue lo mid
  else pure lo
termination_by hi - lo
decreasing_by all_goals omega

/-- The highest level whose spend fits, and whether none exceeds the residue. -/
def highestLevelFitting (spend : ℕ → Except SizingError ℕ) (residue : ℕ) :
    Except SizingError (ℕ × Bool) := do
  let none ← spend 0
  if residue < none then pure (0, false)
  else
    let (lo, hi, exceeded) ← doubleLevel spend residue 64 0 1
    if exceeded then
      let level ← bisectLevel spend residue lo hi
      pure (level, false)
    else pure (hi, true)

/-- The bisection of `leastLevelReaching`. -/
def leastLevel (spend : ℕ → Except SizingError ℕ) (target lo hi : ℕ) : Except SizingError ℕ :=
  if lo < hi then do
    let mid := lo + (hi - lo) / 2
    let total ← spend mid
    if target ≤ total then leastLevel spend target lo mid else leastLevel spend target (mid + 1) hi
  else pure lo
termination_by hi - lo
decreasing_by all_goals omega

def leastLevelReaching (spend : ℕ → Except SizingError ℕ) (target upper : ℕ) :
    Except SizingError ℕ :=
  leastLevel spend target 0 upper

/-! ### The division -/

/-- `Identity`, compared from the first member on: what a slot costs each budget, the slot sizes,
the second pools in order, and the floor. -/
abbrev Identity := ℕ ×ₗ ℕ ×ₗ List ℕ ×ₗ List ℕ ×ₗ ℤ

/-- The groups, with normalised ratios and their floors, and what the floors leave. -/
structure Division (n : ℕ) where
  bounded : Bool
  rungs : Fin n → Rungs
  ratio : Fin n → ℚ
  floorSlots : Fin n → ℕ
  identities : Fin n → Identity
  remainingQuota : ℕ
  remainingSecond : ℕ

/-- The two levels; the second one counts only if the second budget bounds a group. -/
structure Levels where
  level1 : ℕ
  level2 : ℕ
  saturated2 : Bool

/-- What is divided so far. -/
structure Shares (n : ℕ) where
  slotCnt : Fin n → ℕ
  remainingQuota : ℕ
  remainingSecond : ℕ
  corrections : Fin n → ℕ

/-- One step a group could take. -/
structure Candidate (n : ℕ) where
  crossing : ℚ
  pgIdx : Fin n
  next : ℕ
  correcting : Bool
  d1 : ℕ
  d2 : ℕ

def kSelfCorrectionLimit : ℕ := 8

def kRatioEps : ℚ := 1 / 16777216

namespace Division

variable {n : ℕ} (d : Division n)

/-- Of the two rungs around a share the nearer one; a midpoint stays low. -/
def nearer (i : Fin n) (share : ℚ) (nLo : ℕ) : ℕ :=
  let nHi := (d.rungs i).freeRun (nLo + 1)
  if (((d.rungs i).allBytes nLo + (d.rungs i).allBytes nHi : ℕ) : ℚ) < 2 * share then nHi else nLo

def nearestRung (i : Fin n) (level : ℕ) : ℕ :=
  let target := level * d.ratio i
  let nLo := (d.rungs i).rungAtOrBelow ⌊target⌋₊
  if nLo < d.floorSlots i then d.floorSlots i else d.nearer i target nLo

def spendSecond (level : ℕ) : Except SizingError ℕ :=
  sumGroups fun i =>
    if (d.rungs i).onSecond then
      sub ((d.rungs i).secondGrains (d.nearestRung i level))
        ((d.rungs i).secondGrains (d.floorSlots i))
    else pure 0

def anyOnSecond : Bool := (finRange n).any fun i => (d.rungs i).onSecond

/-- There is a level for the second budget. -/
def hasLevel2 : Bool := d.bounded && d.anyOnSecond

/-- The level of a group: that of the second budget, if the group is on it and it is lower. -/
def cappedLevel (level2 : ℕ) (i : Fin n) (level : ℕ) : ℕ :=
  if d.hasLevel2 ∧ (d.rungs i).onSecond ∧ level2 < level then level2 else level

def spendPrimary (level2 level : ℕ) : Except SizingError ℕ :=
  sumGroups fun i =>
    sub ((d.rungs i).quotaGrains (d.nearestRung i (d.cappedLevel level2 i level)))
      ((d.rungs i).quotaGrains (d.floorSlots i))

/-- The level of the second budget, and whether it cannot bind. -/
def findLevel2 : Except SizingError (ℕ × Bool) :=
  if d.hasLevel2 then highestLevelFitting d.spendSecond d.remainingSecond else pure (0, true)

/-- The level of the quota: among those that pay for as much, the least. -/
def findLevel1 (level2 : ℕ) : Except SizingError ℕ := do
  let (level1, saturated1) ← highestLevelFitting (d.spendPrimary level2) d.remainingQuota
  if saturated1 then pure level1
  else
    let target ← d.spendPrimary level2 level1
    leastLevelReaching (d.spendPrimary level2) target level1

def findLevels : Except SizingError Levels := do
  let (level2, saturated2) ← d.findLevel2
  let level1 ← d.findLevel1 level2
  pure ⟨level1, level2, saturated2⟩

/-- The second budget binds only where the quota would have carried its groups higher. -/
def secondaryBinds (lv : Levels) : Bool :=
  d.hasLevel2 && !lv.saturated2 && lv.level2 < lv.level1

/-- What a second budget with a bound has left after the slots of a group change. -/
def paySecond (s : Shares n) (i : Fin n) (want : ℕ) : Except SizingError ℕ :=
  if d.bounded then do
    let cost ← sub ((d.rungs i).secondGrains want) ((d.rungs i).secondGrains (s.slotCnt i))
    sub s.remainingSecond cost
  else pure s.remainingSecond

/-- The slots of a group change, and both budgets pay for them. -/
def pay (s : Shares n) (i : Fin n) (want : ℕ) : Except SizingError (Shares n) := do
  let cost ← sub ((d.rungs i).quotaGrains want) ((d.rungs i).quotaGrains (s.slotCnt i))
  let remainingQuota ← sub s.remainingQuota cost
  let remainingSecond ← d.paySecond s i want
  pure { s with
    slotCnt := update s.slotCnt i want
    remainingQuota := remainingQuota
    remainingSecond := remainingSecond }

/-- The rung at or below the level of a group, or its floor. -/
def placedAt (lv : Levels) (i : Fin n) : ℕ :=
  let target := (d.cappedLevel lv.level2 i lv.level1 : ℚ) * d.ratio i
  max ((d.rungs i).rungAtOrBelow ⌊target⌋₊) (d.floorSlots i)

/-- Every group is placed by its level. -/
def place (lv : Levels) : Except SizingError (Shares n) :=
  (finRange n).foldlM (fun s i => d.pay s i (d.placedAt lv i))
    ⟨d.floorSlots, d.remainingQuota, d.remainingSecond, fun _ => 0⟩

/-! ### Filling the grains that are paid for -/

/-- The sum of the ratios of the groups on the second budget. -/
def classShare : ℚ := ∑ i, if (d.rungs i).onSecond then d.ratio i else 0

def tops (s : Shares n) (i : Fin n) : ℕ := (d.rungs i).freeRunOnQuota (s.slotCnt i)

/-- `closureTarget`, for a group with so many slots. -/
def closureTarget (tops : Fin n → ℕ) (i : Fin n) (slots level : ℕ) : ℕ :=
  let share := level * d.ratio i / d.classShare
  let nLo := (d.rungs i).rungAtOrBelow ⌊share⌋₊
  if tops i ≤ nLo then tops i else min (tops i) (max slots (d.nearer i share nLo))

def closureSpend (s : Shares n) (level : ℕ) : Except SizingError ℕ :=
  sumGroups fun i =>
    if (d.rungs i).onSecond then
      sub ((d.rungs i).secondGrains (d.closureTarget (d.tops s) i (s.slotCnt i) level))
        ((d.rungs i).secondGrains (s.slotCnt i))
    else pure 0

/-- A group on the second budget is moved to its target, if that is higher. -/
def closeGroup (tops : Fin n → ℕ) (level : ℕ) (s : Shares n × Bool) (i : Fin n) :
    Except SizingError (Shares n × Bool) :=
  let r := d.rungs i
  let want := d.closureTarget tops i (s.1.slotCnt i) level
  if r.onSecond ∧ s.1.slotCnt i < want then do
    let cost ← sub (r.secondGrains want) (r.secondGrains (s.1.slotCnt i))
    let remainingSecond ← sub s.1.remainingSecond cost
    pure ({ s.1 with
      slotCnt := update s.1.slotCnt i want
      remainingSecond := remainingSecond }, true)
  else pure s

/-- Every group on the second budget is filled. -/
def closeAll (s : Shares n) (need : ℕ) : Except SizingError (Option (Shares n)) :=
  (if d.bounded then sub s.remainingSecond need else pure s.remainingSecond).map
    fun remainingSecond => some { s with
      slotCnt := fun i => if (d.rungs i).onSecond then d.tops s i else s.slotCnt i
      remainingSecond := remainingSecond }

/-- What is left of the second budget is divided by a level of its own. -/
def closeByLevel (s : Shares n) : Except SizingError (Option (Shares n)) := do
  let (level3, _) ← highestLevelFitting (d.closureSpend s) s.remainingSecond
  let (s', moved) ← (finRange n).foldlM (d.closeGroup (d.tops s) level3) (s, false)
  pure (if moved then some s' else none)

/-- What it takes of the second budget to fill every group on it. -/
def closureNeed (s : Shares n) : Except SizingError ℕ :=
  sumGroups fun i =>
    if (d.rungs i).onSecond then
      sub ((d.rungs i).secondGrains (d.tops s i)) ((d.rungs i).secondGrains (s.slotCnt i))
    else pure 0

/-- `closePaidGrains`; without a result nothing moved. -/
def closePaidGrains (s : Shares n) : Except SizingError (Option (Shares n)) :=
  if (finRange n).any fun i => s.slotCnt i < d.tops s i then do
    let need ← d.closureNeed s
    if d.bounded = false ∨ need ≤ s.remainingSecond then d.closeAll s need else d.closeByLevel s
  else pure none

/-! ### Steps -/

/-- The level at which the rest of the allocation is a group's share, at most the one of its
class. -/
def cap (lv : Levels) (i : Fin n) (rest : ℕ) : ℚ :=
  let share : ℚ := if d.ratio i < 1 then rest / (1 - d.ratio i) else 0
  if d.secondaryBinds lv ∧ (d.rungs i).onSecond then min share lv.level2 else share

/-- A step that both budgets can pay; past its share, only the budget of its level carries a group
further. -/
def offer (lv : Levels) (s : Shares n) (i : Fin n) (next d1 d2 rest : ℕ) : Option (Candidate n) :=
  let crossing : ℚ := (((d.rungs i).allBytes (s.slotCnt i) + (d.rungs i).allBytes next : ℕ) : ℚ)
    / (2 * d.ratio i)
  if kSelfCorrectionLimit ≤ s.corrections i ∨ d.cap lv i rest ≤ crossing * (1 + kRatioEps) then
    let paid := if d.secondaryBinds lv ∧ (d.rungs i).onSecond then d2 else d1
    if paid < 1 then none else some ⟨crossing, i, next, false, d1, d2⟩
  else some ⟨crossing, i, next, true, d1, d2⟩

/-- The next step of a group, if there is one that it may take. -/
def candidate (lv : Levels) (s : Shares n) (placed : ℕ) (i : Fin n) :
    Except SizingError (Option (Candidate n)) := do
  let r := d.rungs i
  let slots := s.slotCnt i
  let next := r.freeRun (slots + 1)
  let d1 ← sub (r.quotaGrains next) (r.quotaGrains slots)
  let d2 ← sub (r.secondGrains next) (r.secondGrains slots)
  if s.remainingQuota < d1 ∨ (d.bounded ∧ s.remainingSecond < d2) then pure none
  else
    let rest ← sub placed (r.allBytes slots)
    pure (d.offer lv s i next d1 d2 rest)

def cheaperStep (lhs rhs : Candidate n) : Bool :=
  if lhs.d1 ≠ rhs.d1 then lhs.d1 < rhs.d1
  else if lhs.d2 ≠ rhs.d2 then lhs.d2 < rhs.d2
  else if d.ratio lhs.pgIdx ≠ d.ratio rhs.pgIdx then d.ratio rhs.pgIdx < d.ratio lhs.pgIdx
  else if d.identities lhs.pgIdx < d.identities rhs.pgIdx then true
  else if d.identities rhs.pgIdx < d.identities lhs.pgIdx then false
  else lhs.pgIdx < rhs.pgIdx

/-- The lowest crossing. -/
def lowestCrossing (c : Candidate n) (cands : List (Candidate n)) : ℚ :=
  cands.foldl (fun lowest cand => min lowest cand.crossing) c.crossing

/-- A candidate is chosen if there is none yet, or if it is cheaper. -/
def chooseCheaper (cand : Candidate n) : Option (Candidate n) → Option (Candidate n)
  | none => some cand
  | some chosen => if d.cheaperStep cand chosen then some cand else some chosen

/-- Of the candidates within the precision of the lowest crossing, the cheapest. -/
def choose (lowest : ℚ) (cands : List (Candidate n)) : Option (Candidate n) :=
  cands.foldl (fun chosen cand =>
    if lowest * (1 + kRatioEps) < cand.crossing then chosen else d.chooseCheaper cand chosen) none

/-- The chosen step is taken and counted. -/
def takeStep (s : Shares n) (chosen : Candidate n) : Except SizingError (Shares n) :=
  (d.pay s chosen.pgIdx chosen.next).map fun s' => { s' with
    corrections := if chosen.correcting then
      update s.corrections chosen.pgIdx (s.corrections chosen.pgIdx + 1)
    else s.corrections }

/-- The rest of a round: a step is taken, or if there is none, the paid grains are filled. -/
def takeCheapest (s : Shares n) : List (Candidate n) → Except SizingError (Option (Shares n))
  | [] => d.closePaidGrains s
  | c :: cands =>
    match d.choose (lowestCrossing c cands) (c :: cands) with
    | none => .error .noStep
    | some chosen => (d.takeStep s chosen).map some

/-- One round of the loop; without a result it ends. -/
def promote (lv : Levels) (s : Shares n) : Except SizingError (Option (Shares n)) := do
  let placed := ∑ i, (d.rungs i).allBytes (s.slotCnt i)
  let found ← (finRange n).mapM (d.candidate lv s placed)
  d.takeCheapest s found.reduceOption

/-- The loop, for at most so many rounds. -/
def promoteAll (lv : Levels) : ℕ → Shares n → Except SizingError (Shares n)
  | 0, _ => .error .unfinished
  | fuel + 1, s => do
    match ← d.promote lv s with
    | none => pure s
    | some s' => promoteAll lv fuel s'

/-- The slot counts for the floors, the two levels and the steps; every round adds a slot. -/
def divide (fuel : ℕ) : Except SizingError (Fin n → ℕ) := do
  let lv ← d.findLevels
  let s ← d.place lv
  let s ← d.promoteAll lv fuel s
  pure s.slotCnt

end Division

/-! ### The arguments -/

/-- `SecondaryPoolBudget`. -/
structure SecondaryPoolBudget (n : ℕ) where
  quota : Option ℕ
  granularity : ℕ
  pools : Fin n → List ℕ

/-- The arguments of `ratioToSlotCountList`; slot sizes are positive. -/
structure Arguments (n : ℕ) where
  quota : ℕ
  slotSizeLists : Fin n → List ℕ
  slotSize_pos : ∀ i, ∀ size ∈ slotSizeLists i, 0 < size
  ratioList : Fin n → ℚ
  granularity : ℕ
  minSlots : Fin n → ℤ
  secondBudget : Option (SecondaryPoolBudget n)

namespace Arguments

variable {n : ℕ} (a : Arguments n)

/-- The pools of a group that the second budget pays for. -/
def secondPools (i : Fin n) : List ℕ := (a.secondBudget.map fun b => b.pools i).getD []

/-- The grain of the second medium. -/
def grain2 : ℕ := (a.secondBudget.map fun b => b.granularity).getD a.granularity

/-- The quota of the second medium, if there is one. -/
def secondQuota : Option ℕ := a.secondBudget.bind fun b => b.quota

def rungs (i : Fin n) : Rungs :=
  rungsOf (a.slotSizeLists i) (a.secondPools i) a.granularity a.grain2

/-- The checks of `poolsPaidByQuota` for one group, after the pools that are taken. -/
def checkPools (numPools : ℕ) : List ℕ → List ℕ → Except SizingError Unit
  | _, [] => pure ()
  | taken, poolIdx :: pools =>
    if ¬ poolIdx < numPools then .error .poolOutOfRange
    else if poolIdx ∈ taken then .error .poolTwice
    else checkPools numPools (poolIdx :: taken) pools

/-- The checks of one group before its floor is computed. -/
def checkGroup (i : Fin n) : Except SizingError Unit :=
  if ¬ 0 < a.ratioList i then .error .ratio
  else if poolsPaidByQuota (a.slotSizeLists i).length (a.secondPools i) = [] then .error .noPool
  else pure ()

/-- The floor of a group, at the end of its free run. -/
def floorSlots (i : Fin n) : ℕ := (a.rungs i).freeRun (a.minSlots i).toNat

def identity (i : Fin n) : Identity :=
  let sizes := a.slotSizeLists i
  let paid := poolsPaidByQuota sizes.length (a.secondPools i)
  toLex ((paid.map fun poolIdx => sizes.getD poolIdx 0).sum,
    toLex (((a.secondPools i).map fun poolIdx => sizes.getD poolIdx 0).sum,
      toLex (sizes, toLex ((a.secondPools i).mergeSort, a.minSlots i))))

def floorQuota : ℕ := ∑ i, (a.rungs i).quotaGrains (a.floorSlots i)

def floorSecond : ℕ := ∑ i, (a.rungs i).secondGrains (a.floorSlots i)

/-- The second quota in its grains. -/
def budget2Grains : ℕ := (a.secondQuota.map fun quota => quota / a.grain2).getD 0

/-- The division of what the floors leave. -/
def division : Division n where
  bounded := a.secondQuota.isSome
  rungs := a.rungs
  ratio i := a.ratioList i / ∑ j, a.ratioList j
  floorSlots := a.floorSlots
  identities := a.identity
  remainingQuota := a.quota / a.granularity - a.floorQuota
  remainingSecond := if a.secondQuota.isSome then a.budget2Grains - a.floorSecond else 0

/-- `ratioToSlotCountList`. -/
def ratioToSlotCountList : Except SizingError (Fin n → ℕ) := do
  if ¬ 0 < a.granularity then .error .granularity
  else if ¬ 0 < a.grain2 then .error .secondGranularity
  else
    (finRange n).forM fun i => checkPools (a.slotSizeLists i).length [] (a.secondPools i)
    (finRange n).forM a.checkGroup
    if a.secondQuota.isSome ∧ ¬ a.floorSecond ≤ a.budget2Grains then .error .floorSecond
    else if ¬ a.floorQuota ≤ a.quota / a.granularity then .error .floorQuota
    -- a group has no more slots than the quota has bytes
    else a.division.divide (n * a.quota + 1)

end Arguments

end TrtLlm.CacheLevelStorage
