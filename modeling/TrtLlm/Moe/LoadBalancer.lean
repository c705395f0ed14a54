import TrtLlm.Moe.PlacementSpec

/-!
`MoeLoadBalancer`: the layers, their updates, and the ranks that are masked.

* `Layer.updateWeightsRoutine`: a new placement is computed from the loads, the weights of this
  rank's slots are copied, and the placement is installed;
* `MoeLoadBalancer.reconfigureMaskOnly`: ranks are declared dead, and all layers drop their slots;
* `MoeLoadBalancer.Reachable`: the runs of these calls, one after another.

The installed placement is `oldRankExpertIds`: installing swaps the two vectors.
-/

namespace TrtLlm.Moe

variable {R : ℕ}

/-- The state of a `SingleLayerMoeLoadBalancer`: its `MoePlacementCpuInfo`, the tables on the GPU,
the load factors, and the weights in the slots of this rank, by name. -/
structure Layer (m : MetaInfo R) (Name Weight : Type*) where
  expertReplicaCount : Fin m.expertCount → ℕ
  rankExpertIds : RankExpertIds m
  oldRankExpertIds : RankExpertIds m
  placementInfoForGPU : PlacementInfo m
  gpuPlacement : PlacementInfo m
  expertLoadFactor : Fin m.expertCount → ℚ
  weightSlots : Name → Fin m.slotCountPerRank → Weight

variable {m : MetaInfo R} {Name Weight : Type*}

/-! ### One layer -/

section

variable (hostWeights : Name → Fin m.expertCount → Weight)
  (oldRankExpertIds rankExpertIds : RankExpertIds m)
  (weightSlots : Name → Fin m.slotCountPerRank → Weight)
include hostWeights

/-- One slot in the loop of `updateWeights`. -/
def updateSlot (slotId : Fin m.slotCountPerRank) :
    Except Check (Name → Fin m.slotCountPerRank → Weight) :=
  let oldExpertId := oldRankExpertIds m.epRank slotId
  let newExpertId := rankExpertIds m.epRank slotId
  if ¬(0 ≤ oldExpertId ∧ oldExpertId < m.expertCount) then .error .oldExpertId
  else if h : 0 ≤ newExpertId ∧ newExpertId < m.expertCount then
    if oldExpertId = newExpertId then .ok weightSlots
    else .ok fun name => Function.update (weightSlots name) slotId
      (hostWeights name ⟨newExpertId.toNat, by omega⟩)
  else .error .newExpertId

/-- `HostMemoryMoeWeightUpdater::updateWeights`. -/
def updateWeights :
    Except Check (Name → Fin m.slotCountPerRank → Weight) :=
  (List.finRange m.slotCountPerRank).foldlM
    (updateSlot hostWeights oldRankExpertIds rankExpertIds) weightSlots

end

/-- `computeMaskOnlyReplicaCounts`. -/
def computeMaskOnlyReplicaCounts (oldRankExpertIds : RankExpertIds m)
    (deadRankMask : Fin R → Bool) : Except Check (Fin m.expertCount → ℕ) :=
  let replicaCount : Fin m.expertCount → ℕ := fun expertId =>
    (allSlots m).countP fun slot =>
      !deadRankMask slot.1 && oldRankExpertIds slot.1 slot.2 = (expertId : ℕ)
  if ∃ slot ∈ allSlots m, ¬(oldRankExpertIds slot.1 slot.2 = -1
      ∨ (0 ≤ oldRankExpertIds slot.1 slot.2 ∧ oldRankExpertIds slot.1 slot.2 < m.expertCount)) then
    .error .expertId
  else if ∃ expertId, replicaCount expertId = 0 then .error .noSurvivingReplica
  else .ok replicaCount

namespace Layer

/-- `copyPlacementInfoToGpu`. -/
def copyPlacementInfoToGpu (l : Layer m Name Weight) : Layer m Name Weight :=
  { l with
    gpuPlacement := l.placementInfoForGPU
    oldRankExpertIds := l.rankExpertIds
    rankExpertIds := fun _ _ => -1
    expertLoadFactor := fun _ => 0 }

/-- `setInitialWeightAssignments`. -/
def setInitialWeightAssignments (initialWeightAssignments : RankExpertIds m)
    (l : Layer m Name Weight) : Except Check (Layer m Name Weight) :=
  if ∃ slot ∈ allSlots m, ¬(0 ≤ initialWeightAssignments slot.1 slot.2
      ∧ initialWeightAssignments slot.1 slot.2 < m.expertCount) then .error .expertId
  else
    let replicaCount : Fin m.expertCount → ℕ := fun expertId =>
      (allSlots m).countP fun slot => initialWeightAssignments slot.1 slot.2 = (expertId : ℕ)
    (prepareGpuPlacementInfo m replicaCount initialWeightAssignments).map fun info =>
      { l with
        expertReplicaCount := replicaCount
        rankExpertIds := initialWeightAssignments
        placementInfoForGPU := info }.copyPlacementInfoToGpu

/-- The first part of `updateWeightsRoutine`: the new placement is computed. -/
def place (deadRankMask : Fin R → Bool) (l : Layer m Name Weight) :
    Except Check (Layer m Name Weight) :=
  (doReplication m l.expertLoadFactor deadRankMask).bind fun replicaCount =>
    (doPlacement m l.expertLoadFactor replicaCount deadRankMask).bind fun ids =>
      (prepareGpuPlacementInfo m replicaCount ids).map fun info =>
        { l with
          expertReplicaCount := replicaCount
          rankExpertIds := ids
          placementInfoForGPU := info }

/-- The second part: the weights are copied and the placement is installed. -/
def install (hostWeights : Name → Fin m.expertCount → Weight) (l : Layer m Name Weight) :
    Except Check (Layer m Name Weight) :=
  (updateWeights hostWeights l.oldRankExpertIds l.rankExpertIds l.weightSlots).map fun weights =>
    { l with weightSlots := weights }.copyPlacementInfoToGpu

/-- `updateWeightsRoutine`. -/
def updateWeightsRoutine (hostWeights : Name → Fin m.expertCount → Weight)
    (deadRankMask : Fin R → Bool) (l : Layer m Name Weight) : Except Check (Layer m Name Weight) :=
  (l.place deadRankMask).bind fun l => l.install hostWeights

/-- `SingleLayerMoeLoadBalancer::reconfigureMaskOnly`. -/
def reconfigureMaskOnly (deadRankMask : Fin R → Bool) (l : Layer m Name Weight) :
    Except Check (Layer m Name Weight) :=
  (computeMaskOnlyReplicaCounts l.oldRankExpertIds deadRankMask).bind fun replicaCount =>
    let ids : RankExpertIds m := fun rank slot =>
      if deadRankMask rank then -1 else l.oldRankExpertIds rank slot
    (prepareGpuPlacementInfo m replicaCount ids).map fun info =>
      { l with
        expertReplicaCount := replicaCount
        rankExpertIds := ids
        placementInfoForGPU := info }.copyPlacementInfoToGpu

end Layer

/-! ### All layers -/

/-- The checks that reject a mask-only reconfiguration. -/
def Check.rejects : Check → Bool
  | .deadRankRange | .localRankMasked | .noSurvivingReplica => true
  | _ => false

/-- The meta info of a layer that `AddLayer` creates, from its numbers of experts and slots. -/
def addLayer (epRank : Fin R) (shape : ℕ × ℕ) : MetaInfo R := ⟨shape.1, shape.2, epRank⟩

variable {L : ℕ}

/-- The ranks that are masked, and the layers. -/
structure MoeLoadBalancer (epRank : Fin R) (shape : Fin L → ℕ × ℕ) (Name Weight : Type*) where
  deadRankMask : Fin R → Bool
  layers : (i : Fin L) → Layer (addLayer epRank (shape i)) Name Weight

variable {epRank : Fin R} {shape : Fin L → ℕ × ℕ}

/-- A rank is masked in the candidate mask. -/
def maskRank (deadRankMask : Fin R → Bool) (deadRank : ℤ) : Except Check (Fin R → Bool) :=
  if h : 0 ≤ deadRank ∧ deadRank < R then
    .ok (Function.update deadRankMask ⟨deadRank.toNat, by omega⟩ true)
  else .error .deadRankRange

/-- The candidate mask of `reconfigureMaskOnly`. -/
def candidateDeadRankMask (epRank : Fin R) (deadRankMask : Fin R → Bool) (deadRanks : List ℤ) :
    Except Check (Fin R → Bool) :=
  (deadRanks.foldlM maskRank deadRankMask).bind fun candidate =>
    if candidate epRank then .error .localRankMasked else .ok candidate

namespace MoeLoadBalancer

/-- The loop over the layers in `reconfigureMaskOnly`. If a layer fails, the layers before it stay
changed. -/
def reconfigureLayers (candidate : Fin R → Bool) :
    List (Fin L) → MoeLoadBalancer epRank shape Name Weight →
      MoeLoadBalancer epRank shape Name Weight × Except Check Unit
  | [], b => (b, .ok ())
  | i :: is, b =>
    match (b.layers i).reconfigureMaskOnly candidate with
    | .error e => (b, .error e)
    | .ok l => reconfigureLayers candidate is { b with layers := Function.update b.layers i l }

/-- `MoeLoadBalancer::reconfigureMaskOnly`. -/
def reconfigureMaskOnly (deadRanks : List ℤ) (b : MoeLoadBalancer epRank shape Name Weight) :
    MoeLoadBalancer epRank shape Name Weight × Except Check Unit :=
  match candidateDeadRankMask epRank b.deadRankMask deadRanks with
  | .error e => (b, .error e)
  | .ok candidate =>
    match forM (List.finRange L) fun i =>
        (computeMaskOnlyReplicaCounts (b.layers i).oldRankExpertIds candidate).map fun _ => () with
    | .error e => (b, .error e)
    | .ok _ =>
      match reconfigureLayers candidate (List.finRange L) b with
      | (b, .error e) => (b, .error e)
      | (b, .ok _) => ({ b with deadRankMask := candidate }, .ok ())

variable (hostWeights : (i : Fin L) → Name → Fin (shape i).1 → Weight)

/-- A weight update of a layer, with the load factors that the statistics have left. -/
def update (i : Fin L) (expertLoadFactor : Fin (shape i).1 → ℚ)
    (b : MoeLoadBalancer epRank shape Name Weight) :
    Except Check (MoeLoadBalancer epRank shape Name Weight) :=
  ({ b.layers i with expertLoadFactor := expertLoadFactor }.updateWeightsRoutine (hostWeights i)
    b.deadRankMask).map fun l => { b with layers := Function.update b.layers i l }

/-- All ranks are alive, every layer has its initial assignment, which gives every expert a slot,
and the slots of this rank have the weights of their experts. -/
structure Initial (b : MoeLoadBalancer epRank shape Name Weight) : Prop where
  alive : ∀ rank, b.deadRankMask rank = false
  assigned : ∀ i, ∃ (assignments : RankExpertIds (addLayer epRank (shape i)))
    (created : Layer (addLayer epRank (shape i)) Name Weight),
    created.setInitialWeightAssignments assignments = .ok (b.layers i)
    ∧ (∀ e : Fin (shape i).1, ∃ rank slot, assignments rank slot = (e : ℕ))
    ∧ ∀ name slot (e : Fin (shape i).1), assignments epRank slot = (e : ℕ) →
      created.weightSlots name slot = hostWeights i name e

/-- Weight updates and mask-only reconfigurations, one after another. -/
inductive Reachable : MoeLoadBalancer epRank shape Name Weight → Prop
  | initial {b : MoeLoadBalancer epRank shape Name Weight} (h : b.Initial hostWeights) :
      Reachable b
  | update {b b' : MoeLoadBalancer epRank shape Name Weight} (i : Fin L)
      (expertLoadFactor : Fin (shape i).1 → ℚ) (h : Reachable b)
      (hupdate : b.update hostWeights i expertLoadFactor = .ok b') : Reachable b'
  | reconfigure {b : MoeLoadBalancer epRank shape Name Weight} (deadRanks : List ℤ)
      (h : Reachable b) : Reachable (b.reconfigureMaskOnly deadRanks).1

end MoeLoadBalancer

end TrtLlm.Moe
