import TrtLlm.Moe.Consistency

/-!
The threads of `MoeLoadBalancer`.

The caller runs `startIter`, `endIter` and `reconfigureMaskOnly`. The worker takes the iterations
from a queue and walks the layers of each, and hands the updates of layers to the update thread.
Every section under a mutex and every call on a layer is one step. `reconfigureMaskOnly` holds the
worker's mutex from its start to its end, so that the worker takes no iteration meanwhile.

A failed check is an exception: the caller's call ends, and in the other threads the process does,
so that there is no next state.
-/

namespace TrtLlm.Moe

open List Function

variable {R L : ℕ}

/-- `IterInfo`. -/
structure IterInfo where
  iterId : ℤ
  updateWeightsEnabled : Bool

/-- The fields of a layer that the threads synchronise on. -/
structure LayerSync where
  iterId : ℤ
  updateWeightsEnabled : Bool
  updateWeightsDone : Bool

/-- The condition that `waitLastUpdateDone` waits for. -/
def LayerSync.lastUpdateDone (y : LayerSync) : Bool :=
  !(decide (0 ≤ y.iterId) && y.updateWeightsEnabled) || y.updateWeightsDone

/-- The calls of the worker on a layer. -/
inductive WorkerStage
  | waitLastUpdateDone
  | startCpuNewIter
  | setGpuStage
  | waitCpuStage
  | maybeStartUpdateWeights
  deriving DecidableEq

inductive WorkerThread
  | waiting
  /-- The worker has taken an iteration and is at a layer, or after the last one. -/
  | walking (iterUpdateWeightsEnabled : Bool) (layerId : ℕ) (stage : WorkerStage)

inductive UpdateThread (R L : ℕ)
  | waiting
  | started (i : Fin L)
  | snapshot (i : Fin L) (deadRankMask : Fin R → Bool)
  | placed (i : Fin L)
  | installed (i : Fin L)

/-- The layer that the update thread works on. -/
def UpdateThread.layer : UpdateThread R L → Option (Fin L)
  | .waiting => none
  | .started i | .snapshot i _ | .placed i | .installed i => some i

/-- The caller is outside of `reconfigureMaskOnly`, or in one of its loops with the layers that are
left. -/
inductive CallerThread (R L : ℕ)
  | outside
  | waiting (candidate : Fin R → Bool) (todo : List (Fin L))
  | validating (candidate : Fin R → Bool) (todo : List (Fin L))
  | reconfiguring (candidate : Fin R → Bool) (todo : List (Fin L))

/-- The mask that the caller is about to install. -/
def CallerThread.candidate : CallerThread R L → Option (Fin R → Bool)
  | .outside => none
  | .waiting candidate _ | .validating candidate _ | .reconfiguring candidate _ => some candidate

/-- The load balancer with its threads. -/
structure Threads (epRank : Fin R) (shape : Fin L → ℕ × ℕ) (Name Weight : Type*) where
  balancer : MoeLoadBalancer epRank shape Name Weight
  sync : Fin L → LayerSync
  iterId : ℤ
  iterActive : Bool
  warmUpUntilIter : ℤ
  iterInfoQueue : List IterInfo
  updateLayerQueue : List (Finset (Fin L))
  updateTaskQueue : List (Fin L)
  workerIterId : ℤ
  caller : CallerThread R L
  worker : WorkerThread
  updater : UpdateThread R L

namespace Threads

variable {epRank : Fin R} {shape : Fin L → ℕ × ℕ} {Name Weight : Type*}

section

variable (s : Threads epRank shape Name Weight)

/-- Whether the worker enables the update of a layer. -/
def enableLayerUpdate (iterUpdateWeightsEnabled : Bool)
    (i : Fin L) : Bool :=
  iterUpdateWeightsEnabled && decide (i ∈ s.updateLayerQueue.headD ∅)

/-- The placement that a layer has installed. -/
def installed (i : Fin L) :
    RankExpertIds (addLayer epRank (shape i)) :=
  (s.balancer.layers i).oldRankExpertIds

/-- A layer changes. -/
def setLayer (i : Fin L)
    (l : Layer (addLayer epRank (shape i)) Name Weight) :
    MoeLoadBalancer epRank shape Name Weight :=
  { s.balancer with layers := update s.balancer.layers i l }

end

/-- `startIter`. -/
def startIter (iterId : ℤ) (enableUpdateWeights : Bool) (s : Threads epRank shape Name Weight) :
    Threads epRank shape Name Weight :=
  if s.iterActive ∨ s.iterId + 1 ≠ iterId then s
  else { s with
    iterId := iterId
    iterActive := true
    iterInfoQueue := s.iterInfoQueue
      ++ [⟨iterId, enableUpdateWeights && !decide (iterId ≤ s.warmUpUntilIter)⟩] }

/-- `endIter`. -/
def endIter (iterId : ℤ) (s : Threads epRank shape Name Weight) :
    Threads epRank shape Name Weight :=
  if s.iterActive ∧ s.iterId = iterId then { s with iterActive := false } else s

/-- The start of `reconfigureMaskOnly`: the guards and the candidate mask. -/
def reconfigureMaskOnly (deadRanks : List ℤ) (s : Threads epRank shape Name Weight) :
    Threads epRank shape Name Weight :=
  if s.iterActive ∨ s.iterInfoQueue ≠ [] then s
  else
    match candidateDeadRankMask epRank s.balancer.deadRankMask deadRanks with
    | .error _ => s
    | .ok candidate => { s with caller := .waiting candidate (finRange L) }

section

variable (s : Threads epRank shape Name Weight)

/-- The next step of `reconfigureMaskOnly`. -/
def callerStep : Option (Threads epRank shape Name Weight) :=
  match s.caller with
  | .outside => none
  | .waiting candidate [] => some { s with caller := .validating candidate (finRange L) }
  | .waiting candidate (i :: todo) =>
    if (s.sync i).lastUpdateDone then some { s with caller := .waiting candidate todo } else none
  | .validating candidate [] => some { s with caller := .reconfiguring candidate (finRange L) }
  | .validating candidate (i :: todo) =>
    match computeMaskOnlyReplicaCounts (s.installed i) candidate with
    | .error _ => some { s with caller := .outside }
    | .ok _ => some { s with caller := .validating candidate todo }
  | .reconfiguring candidate [] =>
    some { s with
      balancer := { s.balancer with deadRankMask := candidate }
      caller := .outside }
  | .reconfiguring candidate (i :: todo) =>
    match (s.balancer.layers i).reconfigureMaskOnly candidate with
    | .error _ => some { s with caller := .outside }
    | .ok l => some { s with balancer := s.setLayer i l, caller := .reconfiguring candidate todo }

/-- The worker takes an iteration, under its mutex. -/
def workerTake : Option (Threads epRank shape Name Weight) :=
  match s.caller, s.iterInfoQueue with
  | .outside, info :: queue =>
    if info.iterId = s.workerIterId + 1 then
      some { s with
        iterInfoQueue := queue
        workerIterId := info.iterId
        worker := .walking info.updateWeightsEnabled 0 .waitLastUpdateDone }
    else none
  | _, _ => none

/-- The worker's call on a layer. -/
def workerCall (iterUpdateWeightsEnabled : Bool)
    (i : Fin L) : WorkerStage → Option (Threads epRank shape Name Weight)
  | .waitLastUpdateDone =>
    if (s.sync i).lastUpdateDone then
      some { s with worker := .walking iterUpdateWeightsEnabled i .startCpuNewIter }
    else none
  | .startCpuNewIter =>
    if (s.sync i).iterId + 1 = s.workerIterId then
      some { s with
        sync := update s.sync i
          ⟨s.workerIterId, s.enableLayerUpdate iterUpdateWeightsEnabled i, false⟩
        worker := .walking iterUpdateWeightsEnabled i .setGpuStage }
    else none
  | .setGpuStage => some { s with worker := .walking iterUpdateWeightsEnabled i .waitCpuStage }
  | .waitCpuStage =>
    some { s with worker := .walking iterUpdateWeightsEnabled i .maybeStartUpdateWeights }
  | .maybeStartUpdateWeights =>
    some { s with
      updateTaskQueue := if 0 ≤ (s.sync i).iterId ∧ (s.sync i).updateWeightsEnabled then
        s.updateTaskQueue ++ [i] else s.updateTaskQueue
      worker := .walking iterUpdateWeightsEnabled (i + 1) .waitLastUpdateDone }

/-- The next step of `workerThread`. -/
def workerStep : Option (Threads epRank shape Name Weight) :=
  match s.worker with
  | .waiting => s.workerTake
  | .walking iterUpdateWeightsEnabled layerId stage =>
    if h : layerId < L then s.workerCall iterUpdateWeightsEnabled ⟨layerId, h⟩ stage
    else some { s with
      updateLayerQueue := if iterUpdateWeightsEnabled then s.updateLayerQueue.rotate 1
        else s.updateLayerQueue
      worker := .waiting }

end

variable (hostWeights : (i : Fin L) → Name → Fin (shape i).1 → Weight)

/-- The next step of `computeAndUpdateThread`; the statistics have left some load factors. -/
def updateStep (expertLoadFactor : (i : Fin L) → Fin (shape i).1 → ℚ)
    (s : Threads epRank shape Name Weight) : Option (Threads epRank shape Name Weight) :=
  match s.updater with
  | .waiting =>
    match s.updateTaskQueue with
    | [] => none
    | i :: queue => some { s with updateTaskQueue := queue, updater := .started i }
  | .started i => some { s with updater := .snapshot i s.balancer.deadRankMask }
  | .snapshot i deadRankMask =>
    match { s.balancer.layers i with expertLoadFactor := expertLoadFactor i }.place deadRankMask
      with
    | .error _ => none
    | .ok l => some { s with balancer := s.setLayer i l, updater := .placed i }
  | .placed i =>
    match (s.balancer.layers i).install (hostWeights i) with
    | .error _ => none
    | .ok l => some { s with balancer := s.setLayer i l, updater := .installed i }
  | .installed i =>
    some { s with
      sync := update s.sync i { s.sync i with updateWeightsDone := true }
      updater := .waiting }

/-- What can happen next. -/
inductive Action (shape : Fin L → ℕ × ℕ)
  | startIter (iterId : ℤ) (enableUpdateWeights : Bool)
  | endIter (iterId : ℤ)
  | reconfigureMaskOnly (deadRanks : List ℤ)
  | caller
  | worker
  | update (expertLoadFactor : (i : Fin L) → Fin (shape i).1 → ℚ)

/-- A new call of the caller, if it is in none. -/
def call (s : Threads epRank shape Name Weight)
    (f : Threads epRank shape Name Weight → Threads epRank shape Name Weight) :
    Option (Threads epRank shape Name Weight) :=
  match s.caller with
  | .outside => some (f s)
  | _ => none

def step (s : Threads epRank shape Name Weight) :
    Action shape → Option (Threads epRank shape Name Weight)
  | .startIter iterId enableUpdateWeights => s.call (startIter iterId enableUpdateWeights)
  | .endIter iterId => s.call (endIter iterId)
  | .reconfigureMaskOnly deadRanks => s.call (reconfigureMaskOnly deadRanks)
  | .caller => s.callerStep
  | .worker => s.workerStep
  | .update expertLoadFactor => s.updateStep hostWeights expertLoadFactor

/-- The model is finalized, and nothing has been started. -/
structure Initial (s : Threads epRank shape Name Weight) : Prop where
  balancer : s.balancer.Initial hostWeights
  sync : ∀ i, s.sync i = ⟨-1, true, false⟩
  iterId : s.iterId = -1
  iterActive : s.iterActive = false
  iterInfoQueue : s.iterInfoQueue = []
  updateTaskQueue : s.updateTaskQueue = []
  workerIterId : s.workerIterId = -1
  caller : s.caller = .outside
  worker : s.worker = .waiting
  updater : s.updater = .waiting

/-- All runs whose steps meet a condition. -/
inductive Run (condition : Threads epRank shape Name Weight → Action shape → Prop) :
    Threads epRank shape Name Weight → Prop
  | initial {s : Threads epRank shape Name Weight} (h : s.Initial hostWeights) : Run condition s
  | step {s s' : Threads epRank shape Name Weight} (a : Action shape) (h : Run condition s)
      (hc : condition s a) (hstep : s.step hostWeights a = some s') : Run condition s'

/-! ### What the masks and the updates are expected to do -/

section

variable (s : Threads epRank shape Name Weight) (i : Fin L)

/-- The update of a layer is in the hands of the update thread. -/
def Running : Prop :=
  i ∈ s.updateTaskQueue ∨ s.updater.layer = some i

/-- The update of a layer is still to be started in the iteration that the worker has taken. -/
def ToStart : Prop :=
  match s.worker with
  | .waiting => False
  | .walking enabled layerId _ => s.enableLayerUpdate enabled i = true ∧ layerId ≤ i

/-- The worker has not told the layer about the iteration yet. -/
def Ahead : Prop :=
  match s.worker with
  | .waiting => False
  | .walking enabled layerId stage => s.enableLayerUpdate enabled i = true
    ∧ (layerId < i ∨ (layerId = i ∧ (stage = .waitLastUpdateDone ∨ stage = .startCpuNewIter)))

end

/-- After a step no placement has an expert on a rank that was masked before it. -/
def NoRevival (s s' : Threads epRank shape Name Weight) : Prop :=
  ∀ i rank slot, s.balancer.deadRankMask rank = true → s'.installed i rank slot = -1

/-- A step of `reconfigureMaskOnly` that changes a placement meets no update of the layer. -/
def Undisturbed (s : Threads epRank shape Name Weight) (a : Action shape)
    (s' : Threads epRank shape Name Weight) : Prop :=
  a = .caller → ∀ i, s'.installed i ≠ s.installed i → ¬s.Running i ∧ ¬s.ToStart i

end Threads

end TrtLlm.Moe
