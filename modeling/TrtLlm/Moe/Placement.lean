import TrtLlm.Util.Scatter

/-!
The placement of experts on ranks in the load balancer for mixture-of-experts layers.

* `doReplication`: how many slots every expert gets, from the loads;
* `doPlacement`: which slots they are;
* `prepareGpuPlacementInfo`: the tables that the kernels read.

Load factors are rational numbers. A rank's slot holds the id of an expert or `-1`. Reading the top
of an empty queue is an error as well (`Check.emptyQueue`).
-/

namespace TrtLlm.Moe

open List Function

/-- The checks that a call can fail. -/
inductive Check
  | fewerActiveSlots
  | emptyQueue
  | replicaCountPositive
  | replicaCountSum
  | noActiveRank
  | localSlotId
  | expertId
  | moreReplicasThanCount
  | placedSlotCount
  | oldExpertId
  | newExpertId
  | noSurvivingReplica
  | deadRankRange
  | localRankMasked
  deriving DecidableEq

/-- `MoeLoadBalanceMetaInfo`, for a number of ranks. -/
structure MetaInfo (epSize : ℕ) where
  expertCount : ℕ
  slotCountPerRank : ℕ
  epRank : Fin epSize

variable {R : ℕ}

/-- The expert in every slot of every rank, or `-1`. -/
abbrev RankExpertIds (m : MetaInfo R) := Fin R → Fin m.slotCountPerRank → ℤ

/-- `MoePlacementInfo`: the tables for the GPU. -/
structure PlacementInfo (m : MetaInfo R) where
  expertReplicaCount : Fin m.expertCount → ℕ
  expertReplicaStartOffset : Fin m.expertCount → ℕ
  globalSlotIds : ℕ → ℕ

variable (m : MetaInfo R)

/-- `getActiveSlotCount`. -/
def getActiveSlotCount (deadRankMask : Fin R → Bool) : ℕ :=
  (finRange R).countP (fun rank => !deadRankMask rank) * m.slotCountPerRank

/-! ### `doReplication` -/

variable {m} in
/-- The loop that gives the remaining slots away, one at a time, to the expert with the largest
slot size. -/
def replicateLoop (expertLoadFactor : Fin m.expertCount → ℚ) :
    ℕ → List (ℚ × Fin m.expertCount) → (Fin m.expertCount → ℕ) →
      Except Check (Fin m.expertCount → ℕ)
  | 0, _, replicaCount => .ok replicaCount
  | left + 1, pq, replicaCount =>
    match pq.argmax toLex with
    | none => .error .emptyQueue
    | some top =>
      let count := replicaCount top.2 + 1
      replicateLoop expertLoadFactor left
        ((expertLoadFactor top.2 / count, top.2) :: pq.erase top)
        (update replicaCount top.2 count)

/-- `doReplication`. -/
def doReplication (expertLoadFactor : Fin m.expertCount → ℚ) (deadRankMask : Fin R → Bool) :
    Except Check (Fin m.expertCount → ℕ) :=
  let totalSlotCount := getActiveSlotCount m deadRankMask
  if totalSlotCount < m.expertCount then .error .fewerActiveSlots
  else if totalSlotCount = m.expertCount then .ok fun _ => 1
  else if ((finRange m.expertCount).map expertLoadFactor).sum = 0 then
    .ok fun i => totalSlotCount / m.expertCount
      + if i < totalSlotCount % m.expertCount then 1 else 0
  else
    replicateLoop expertLoadFactor (totalSlotCount - m.expertCount)
      ((finRange m.expertCount).map fun i => (expertLoadFactor i, i)) fun _ => 1

/-! ### `doPlacement` -/

/-- `ReplicaInfo`: the slot size and the expert. -/
abbrev ReplicaInfo (m : MetaInfo R) := ℚ × Fin m.expertCount

/-- The order of the replicas: by slot size, the largest first, and then by expert. -/
def ReplicaInfo.le (a b : ReplicaInfo m) : Prop := b.1 < a.1 ∨ (a.1 = b.1 ∧ a.2 ≤ b.2)

instance : DecidableRel (ReplicaInfo.le m) := fun _ _ => inferInstanceAs (Decidable (_ ∨ _))

variable {m} in
/-- A slot gets an expert. -/
def setSlot (rankExpertIds : RankExpertIds m) (rank : Fin R) (slot : Fin m.slotCountPerRank)
    (expertId : ℤ) : RankExpertIds m :=
  update rankExpertIds rank (update (rankExpertIds rank) slot expertId)

/-- The replicas of all experts. -/
def allReplicas (expertLoadFactor : Fin m.expertCount → ℚ) (replicaCount : Fin m.expertCount → ℕ) :
    List (ReplicaInfo m) :=
  (finRange m.expertCount).flatMap fun expertId =>
    replicate (replicaCount expertId)
      (expertLoadFactor expertId / replicaCount expertId, expertId)

variable {m} in
/-- The loop that puts every replica on the rank with the smallest load. A rank that is full leaves
the queue. -/
def placeLoop : List (ReplicaInfo m) → List (ℚ × Fin R) → (Fin R → ℕ) → RankExpertIds m →
    Except Check (RankExpertIds m)
  | [], _, _, rankExpertIds => .ok rankExpertIds
  | replica :: replicas, pq, currentRankSlots, rankExpertIds =>
    match pq.argmin toLex with
    | none => .error .emptyQueue
    | some top =>
      if h : currentRankSlots top.2 < m.slotCountPerRank then
        placeLoop replicas
          (if currentRankSlots top.2 + 1 < m.slotCountPerRank then
            (top.1 + replica.1, top.2) :: pq.erase top else pq.erase top)
          (update currentRankSlots top.2 (currentRankSlots top.2 + 1))
          (setSlot rankExpertIds top.2 ⟨currentRankSlots top.2, h⟩ (replica.2 : ℕ))
      else .error .localSlotId

/-- `doPlacement`. -/
def doPlacement (expertLoadFactor : Fin m.expertCount → ℚ) (replicaCount : Fin m.expertCount → ℕ)
    (deadRankMask : Fin R → Bool) : Except Check (RankExpertIds m) :=
  if ∃ expertId, replicaCount expertId = 0 then .error .replicaCountPositive
  else if (allReplicas m expertLoadFactor replicaCount).length
      ≠ getActiveSlotCount m deadRankMask then .error .replicaCountSum
  else
    let pq := ((finRange R).filter fun rank => !deadRankMask rank).map fun rank =>
      ((0 : ℚ), rank)
    if pq.isEmpty then .error .noActiveRank
    else
      placeLoop ((allReplicas m expertLoadFactor replicaCount).insertionSort (ReplicaInfo.le m)) pq
        (fun _ => 0) fun _ _ => -1

/-! ### `prepareGpuPlacementInfo` -/

/-- The slots of all ranks in order. -/
def allSlots : List (Fin R × Fin m.slotCountPerRank) :=
  (finRange R).flatMap fun rank =>
    (finRange m.slotCountPerRank).map fun slotId => (rank, slotId)

variable {m} in
def globalSlotId (slot : Fin R × Fin m.slotCountPerRank) : ℕ :=
  slot.1 * m.slotCountPerRank + slot.2

variable {m} in
/-- The loop over the slots. The state has the slots of every expert so far and the table, and the
number of slots that hold an expert. -/
def prepareLoop (rankExpertIds : RankExpertIds m)
    (replicaCount startOffset : Fin m.expertCount → ℕ) :
    List (Fin R × Fin m.slotCountPerRank) → Scatter (Fin m.expertCount) ℕ → ℕ →
      Except Check (Scatter (Fin m.expertCount) ℕ × ℕ)
  | [], ids, assignedSlotCount => .ok (ids, assignedSlotCount)
  | slot :: slots, ids, assignedSlotCount =>
    let expertId := rankExpertIds slot.1 slot.2
    if expertId < 0 then
      prepareLoop rankExpertIds replicaCount startOffset slots ids assignedSlotCount
    else if h : expertId.toNat < m.expertCount then
      if (ids.lists ⟨expertId.toNat, h⟩).length < replicaCount ⟨expertId.toNat, h⟩ then
        prepareLoop rankExpertIds replicaCount startOffset slots
          (ids.push startOffset ⟨expertId.toNat, h⟩ (globalSlotId slot)) (assignedSlotCount + 1)
      else .error .moreReplicasThanCount
    else .error .expertId

/-- `prepareGpuPlacementInfo`. -/
def prepareGpuPlacementInfo (replicaCount : Fin m.expertCount → ℕ)
    (rankExpertIds : RankExpertIds m) : Except Check (PlacementInfo m) :=
  let startOffset := Scatter.runningSum replicaCount
  let invalidSlotId := R * m.slotCountPerRank
  (prepareLoop rankExpertIds replicaCount startOffset.1 (allSlots m) (.blank invalidSlotId) 0).bind
    fun r => if r.2 = startOffset.2 then .ok ⟨replicaCount, startOffset.1, r.1.table⟩
      else .error .placedSlotCount

end TrtLlm.Moe
