import TrtLlm.Moe.Threads

/-!
The invariant under which masked ranks stay out, and the caller.

`reconfigureMaskOnly` looks at the iteration queue and the active flag, and it waits for the updates
that the layers know of. An update that the worker has not told its layer about yet is not among
them (`Threads.Ahead`).

* `Threads.Safe`: the invariant of the runs in which no such update is ahead when
  `reconfigureMaskOnly` starts;
* `Threads.Safe.callerStep`: the caller keeps it, and changes only layers at rest.
-/

namespace TrtLlm.Moe

open List Function Option

variable {R L : ℕ}

/-! ### What a layer's calls do to its placement -/

section Layer

variable {m : MetaInfo R} {Name Weight : Type*} {deadRankMask : Fin R → Bool}

variable {l l' : Layer m Name Weight}

/-- The loop of `doPlacement` leaves dead ranks alone. -/
lemma placeLoop_dead {replicas : List (ReplicaInfo m)} {pq : List (ℚ × Fin R)}
    {currentRankSlots : Fin R → ℕ} {rankExpertIds ids : RankExpertIds m}
    (h : placeLoop replicas pq currentRankSlots rankExpertIds = .ok ids)
    (hpq : ∀ p ∈ pq, deadRankMask p.2 = false)
    (hdead : ∀ rank slot, deadRankMask rank = true → rankExpertIds rank slot = -1)
    (rank : Fin R) (slot : Fin m.slotCountPerRank) (hrank : deadRankMask rank = true) :
    ids rank slot = -1 := by
  induction replicas generalizing pq currentRankSlots rankExpertIds with
  | nil =>
    obtain rfl := Except.ok.inj h
    exact hdead rank slot hrank
  | cons replica replicas ih =>
    rw [placeLoop] at h
    cases htop : pq.argmin toLex with
    | none => simp [htop] at h
    | some top =>
      rw [htop] at h
      dsimp only at h
      split_ifs at h with hslot
      all_goals
        have hlive := hpq top (argmin_mem htop)
        refine ih h (fun p hp => ?_) fun rank' slot' hrank' => ?_
      · obtain rfl | hp := mem_cons.mp hp
        · exact hlive
        · exact hpq p (mem_of_mem_erase hp)
      · rw [setSlot_apply, if_neg fun hand => by simp [hand.1, hlive] at hrank']
        exact hdead rank' slot' hrank'
      · exact hpq p (mem_of_mem_erase hp)
      · rw [setSlot_apply, if_neg fun hand => by simp [hand.1, hlive] at hrank']
        exact hdead rank' slot' hrank'

lemma doPlacement_dead {expertLoadFactor : Fin m.expertCount → ℚ}
    {replicaCount : Fin m.expertCount → ℕ} {ids : RankExpertIds m}
    (h : doPlacement m expertLoadFactor replicaCount deadRankMask = .ok ids) (rank : Fin R)
    (slot : Fin m.slotCountPerRank) (hrank : deadRankMask rank = true) : ids rank slot = -1 := by
  rw [doPlacement] at h
  split_ifs at h
  dsimp only at h
  split_ifs at h
  refine placeLoop_dead h (fun p hp => ?_) (fun _ _ _ => rfl) rank slot hrank
  obtain ⟨r, hr, rfl⟩ := List.mem_map.mp hp
  simpa using (mem_filter.mp hr).2

lemma Layer.place_ok (h : l.place deadRankMask = .ok l') : l'.oldRankExpertIds = l.oldRankExpertIds
    ∧ ∀ rank slot, deadRankMask rank = true → l'.rankExpertIds rank slot = -1 := by
  rw [Layer.place] at h
  cases hcount : doReplication m l.expertLoadFactor deadRankMask with
  | error e => simp [hcount, Except.bind] at h
  | ok count =>
    rw [hcount] at h
    cases hids : doPlacement m l.expertLoadFactor count deadRankMask with
    | error e => simp [hids, Except.bind] at h
    | ok ids =>
      simp only [Except.bind, hids] at h
      cases hinfo : prepareGpuPlacementInfo m count ids with
      | error e => simp [hinfo, Except.map] at h
      | ok info =>
        rw [hinfo] at h
        obtain rfl := Except.ok.inj h
        exact ⟨rfl, fun rank slot => doPlacement_dead hids rank slot⟩

lemma Layer.install_ok {hostWeights : Name → Fin m.expertCount → Weight}
    (h : l.install hostWeights = .ok l') :
    l'.oldRankExpertIds = l.rankExpertIds := by
  rw [Layer.install] at h
  cases hw : updateWeights hostWeights l.oldRankExpertIds l.rankExpertIds l.weightSlots with
  | error e => simp [hw, Except.map] at h
  | ok weights =>
    rw [hw] at h
    obtain rfl := Except.ok.inj h
    rfl

lemma Layer.reconfigureMaskOnly_ok (h : l.reconfigureMaskOnly deadRankMask = .ok l') (rank : Fin R)
    (slot : Fin m.slotCountPerRank) : l'.oldRankExpertIds rank slot
      = if deadRankMask rank then -1 else l.oldRankExpertIds rank slot := by
  rw [Layer.reconfigureMaskOnly] at h
  cases hcount : computeMaskOnlyReplicaCounts l.oldRankExpertIds deadRankMask with
  | error e => simp [hcount, Except.bind] at h
  | ok count =>
    simp only [hcount, Except.bind] at h
    cases hinfo : prepareGpuPlacementInfo m count (fun rank slot =>
        if deadRankMask rank then -1 else l.oldRankExpertIds rank slot) with
    | error e => simp [hinfo, Except.map] at h
    | ok info =>
      rw [hinfo] at h
      obtain rfl := Except.ok.inj h
      rfl

end Layer

namespace Threads

variable {epRank : Fin R} {shape : Fin L → ℕ × ℕ} {Name Weight : Type*}
  {s : Threads epRank shape Name Weight}

/-! ### The invariant -/

/-- No update is ahead of a reconfiguration. -/
def NoneAhead (s : Threads epRank shape Name Weight) (a : Action shape) : Prop :=
  (∃ deadRanks, a = .reconfigureMaskOnly deadRanks) → ∀ i, ¬s.Ahead i

/-- What the worker has told the layer that it is at. -/
structure Told (s : Threads epRank shape Name Weight) (enabled : Bool) (i : Fin L)
    (stage : WorkerStage) : Prop where
  notRunning : stage ≠ .waitLastUpdateDone → ¬s.Running i
  sync : stage ≠ .waitLastUpdateDone → stage ≠ .startCpuNewIter →
    s.sync i = ⟨s.workerIterId, s.enableLayerUpdate enabled i, false⟩

/-- A running update is known to its layer, and none runs twice. -/
structure Tasks (s : Threads epRank shape Name Weight) : Prop where
  pending : ∀ i, s.Running i → (s.sync i).lastUpdateDone = false
  nodup : s.updateTaskQueue.Nodup
  apart : ∀ i, s.updater.layer = some i → i ∉ s.updateTaskQueue
  iter : -1 ≤ s.workerIterId
  walking : ∀ enabled layerId stage, s.worker = .walking enabled layerId stage →
    0 ≤ s.workerIterId ∧ ∀ h : layerId < L, s.Told enabled ⟨layerId, h⟩ stage

/-- The caller has waited for the updates of the layers that it has passed. -/
structure Waited (s : Threads epRank shape Name Weight) : Prop where
  quiet : s.caller ≠ .outside → ∀ i, ¬s.Ahead i
  passed : ∀ candidate todo, s.caller = .waiting candidate todo →
    ∀ i ∉ todo, ¬s.Running i ∧ ¬s.ToStart i
  all : ∀ candidate todo,
    s.caller = .validating candidate todo ∨ s.caller = .reconfiguring candidate todo →
    ∀ i, ¬s.Running i ∧ ¬s.ToStart i

/-- Masked ranks have no expert, and get none. -/
structure Masked (s : Threads epRank shape Name Weight) : Prop where
  installed : ∀ i rank slot, s.balancer.deadRankMask rank = true → s.installed i rank slot = -1
  snapshot : ∀ i mask, s.updater = .snapshot i mask → mask = s.balancer.deadRankMask
  placed : ∀ i, s.updater = .placed i → ∀ rank slot, s.balancer.deadRankMask rank = true →
    (s.balancer.layers i).rankExpertIds rank slot = -1
  grows : ∀ candidate, s.caller.candidate = some candidate →
    ∀ rank, s.balancer.deadRankMask rank = true → candidate rank = true
  reconfigured : ∀ candidate todo, s.caller = .reconfiguring candidate todo →
    ∀ i ∉ todo, ∀ rank slot, candidate rank = true → s.installed i rank slot = -1

/-- The invariant. -/
structure Safe (s : Threads epRank shape Name Weight) : Prop where
  tasks : s.Tasks
  waited : s.Waited
  masked : s.Masked

/-- An update that its layer has been told about and that is not done keeps a waiting caller. -/
lemma Tasks.passed (h : s.Tasks) {i : Fin L} (hdone : (s.sync i).lastUpdateDone = true)
    (hahead : ¬s.Ahead i) : ¬s.Running i ∧ ¬s.ToStart i := by
  refine ⟨fun hrunning => by simp [h.pending i hrunning] at hdone, fun hstart => ?_⟩
  rw [ToStart] at hstart
  rw [Ahead] at hahead
  cases hworker : s.worker with
  | waiting => simp [hworker] at hstart
  | walking enabled layerId stage =>
    rw [hworker] at hstart hahead
    -- the worker is at this layer and has told it
    have hrest : ¬(layerId < i.val
        ∨ layerId = i.val ∧ (stage = .waitLastUpdateDone ∨ stage = .startCpuNewIter)) :=
      fun hr => hahead ⟨hstart.1, hr⟩
    push Not at hrest
    have heq : layerId = i.val := by omega
    obtain ⟨h1, h2⟩ := hrest.2 heq
    obtain ⟨hiter, htold⟩ := h.walking enabled layerId stage hworker
    have hsync := (htold (heq ▸ i.isLt)).sync h1 h2
    have hi : (⟨layerId, heq ▸ i.isLt⟩ : Fin L) = i := Fin.ext heq
    rw [hi, hstart.1] at hsync
    rw [hsync] at hdone
    simp [LayerSync.lastUpdateDone, hiter] at hdone

/-! ### The caller -/

/-- Steps that leave the worker, the tasks and what the layers know alone. -/
structure SameWork (s s' : Threads epRank shape Name Weight) : Prop where
  sync : s'.sync = s.sync
  updateTaskQueue : s'.updateTaskQueue = s.updateTaskQueue
  updater : s'.updater.layer = s.updater.layer
  workerIterId : s'.workerIterId = s.workerIterId
  worker : s'.worker = s.worker
  updateLayerQueue : s'.updateLayerQueue = s.updateLayerQueue

namespace SameWork

variable {s' : Threads epRank shape Name Weight}

variable (h : SameWork s s')
include h

lemma running (i : Fin L) : s'.Running i ↔ s.Running i := by
  rw [Running, Running, h.updateTaskQueue, h.updater]

lemma enable (enabled : Bool) (i : Fin L) :
    s'.enableLayerUpdate enabled i = s.enableLayerUpdate enabled i := by
  rw [enableLayerUpdate, enableLayerUpdate, h.updateLayerQueue]

lemma ahead (i : Fin L) : s'.Ahead i ↔ s.Ahead i := by
  rw [Ahead, Ahead, h.worker]
  cases s.worker with
  | waiting => rfl
  | walking enabled layerId stage => simp only [h.enable]

lemma tasks (htasks : s.Tasks) : s'.Tasks where
  pending i hi := by
    rw [h.sync]
    exact htasks.pending i ((h.running i).mp hi)
  nodup := h.updateTaskQueue ▸ htasks.nodup
  apart i hi := by
    rw [h.updateTaskQueue]
    exact htasks.apart i (h.updater ▸ hi)
  iter := h.workerIterId ▸ htasks.iter
  walking enabled layerId stage hworker := by
    rw [h.worker] at hworker
    obtain ⟨hiter, htold⟩ := htasks.walking enabled layerId stage hworker
    refine ⟨h.workerIterId ▸ hiter, fun hl => ⟨fun h1 => ?_, fun h1 h2 => ?_⟩⟩
    · rw [h.running]
      exact (htold hl).notRunning h1
    · rw [h.sync, h.workerIterId, h.enable]
      exact (htold hl).sync h1 h2

end SameWork

variable {s' : Threads epRank shape Name Weight}

/-- The caller goes on and changes nothing else. -/
lemma Safe.setCaller (h : s.Safe) (c : CallerThread R L) (hquiet : c ≠ .outside → ∀ i, ¬s.Ahead i)
    (hpassed : ∀ candidate todo, c = .waiting candidate todo →
      ∀ i ∉ todo, ¬s.Running i ∧ ¬s.ToStart i)
    (hall : ∀ candidate todo, c = .validating candidate todo ∨ c = .reconfiguring candidate todo →
      ∀ i, ¬s.Running i ∧ ¬s.ToStart i)
    (hgrows : ∀ candidate, c.candidate = some candidate →
      ∀ rank, s.balancer.deadRankMask rank = true → candidate rank = true)
    (hreconfigured : ∀ candidate todo, c = .reconfiguring candidate todo → ∀ i, i ∈ todo) :
    ({ s with caller := c } : Threads epRank shape Name Weight).Safe := by
  have hsame : SameWork s { s with caller := c } := ⟨rfl, rfl, rfl, rfl, rfl, rfl⟩
  refine ⟨hsame.tasks h.tasks, ⟨fun hc i => ?_, hpassed, hall⟩, h.masked.installed,
    h.masked.snapshot, h.masked.placed, hgrows, fun candidate todo hc i hi => ?_⟩
  · exact (hsame.ahead i).not.mpr (hquiet hc i)
  · exact absurd (hreconfigured candidate todo hc i) hi

/-- A layer changes. -/
lemma setLayer_layers (i j : Fin L) (l : Layer (addLayer epRank (shape i)) Name Weight) :
    (s.setLayer i l).layers j = Function.update s.balancer.layers i l j := rfl

section CallerStep

variable {candidate : Fin R → Bool} {todo : List (Fin L)}

lemma Safe.callerStep_waiting (h : s.Safe) (hcaller : s.caller = .waiting candidate todo)
    (hstep : s.callerStep = some s') : s'.Safe ∧ s.NoRevival s' ∧
      ∀ i, s'.installed i ≠ s.installed i → ¬s.Running i ∧ ¬s.ToStart i := by
  have hgrows := h.masked.grows
  have hinstalled := h.masked.installed
  rw [Threads.callerStep] at hstep
  have hquiet := h.waited.quiet (by simp [hcaller])
  have hpassed := h.waited.passed candidate todo hcaller
  rw [hcaller] at hstep hgrows
  cases todo with
  | nil =>
    obtain rfl := some.inj hstep
    exact ⟨h.setCaller _ (fun _ => hquiet) (by simp) (fun _ _ _ i => hpassed i (by simp))
      hgrows (by simp), hinstalled, fun i hi => absurd rfl hi⟩
  | cons i todo =>
    dsimp only at hstep
    split_ifs at hstep with hdone
    obtain rfl := some.inj hstep
    refine ⟨h.setCaller _ (fun _ => hquiet) (fun c todo' hc j hj => ?_) (by simp) hgrows
      (by simp), hinstalled, fun i hi => absurd rfl hi⟩
    obtain ⟨rfl, rfl⟩ := CallerThread.waiting.inj hc
    by_cases hji : j = i
    · subst hji
      exact h.tasks.passed hdone (hquiet j)
    · exact hpassed j (by simp [hji, hj])

lemma Safe.callerStep_validating (h : s.Safe) (hcaller : s.caller = .validating candidate todo)
    (hstep : s.callerStep = some s') : s'.Safe ∧ s.NoRevival s' ∧
      ∀ i, s'.installed i ≠ s.installed i → ¬s.Running i ∧ ¬s.ToStart i := by
  have hgrows := h.masked.grows
  have hinstalled := h.masked.installed
  rw [Threads.callerStep] at hstep
  have hquiet := h.waited.quiet (by simp [hcaller])
  have hall := h.waited.all candidate todo (.inl hcaller)
  rw [hcaller] at hstep hgrows
  cases todo with
  | nil =>
    obtain rfl := some.inj hstep
    refine ⟨h.setCaller _ (fun _ => hquiet) (by simp) (fun _ _ _ => hall) hgrows
      (fun c todo' hc i => ?_), hinstalled, fun i hi => absurd rfl hi⟩
    obtain ⟨rfl, rfl⟩ := CallerThread.reconfiguring.inj hc
    exact mem_finRange i
  | cons i todo =>
    dsimp only at hstep
    cases hcount : computeMaskOnlyReplicaCounts (s.installed i) candidate with
    | error e =>
      rw [hcount] at hstep
      obtain rfl := some.inj hstep
      exact ⟨h.setCaller _ (by simp) (by simp) (by simp) (by simp [CallerThread.candidate])
        (by simp), hinstalled, fun i hi => absurd rfl hi⟩
    | ok count =>
      rw [hcount] at hstep
      obtain rfl := some.inj hstep
      exact ⟨h.setCaller _ (fun _ => hquiet) (by simp) (fun _ _ _ => hall) hgrows (by simp),
        hinstalled, fun i hi => absurd rfl hi⟩

/-- No update runs during a reconfiguration. -/
lemma Safe.updater_waiting (h : s.Safe) (hcaller : s.caller = .reconfiguring candidate todo) :
    s.updater = .waiting := by
  cases hu : s.updater with
  | waiting => rfl
  | _ =>
    exact absurd (.inr (by rw [hu]; rfl)) (h.waited.all candidate todo (.inr hcaller) _).1

/-- A layer is reconfigured: the ranks of the candidate are out of it, and it was at rest. -/
lemma Safe.reconfigureLayer (h : s.Safe) {i : Fin L}
    (hcaller : s.caller = .reconfiguring candidate (i :: todo))
    {l : Layer (addLayer epRank (shape i)) Name Weight}
    (hl : (s.balancer.layers i).reconfigureMaskOnly candidate = .ok l) :
    let s' : Threads epRank shape Name Weight := { s with
      balancer := s.setLayer i l
      caller := .reconfiguring candidate todo }
    s'.Safe ∧ s.NoRevival s' ∧
      ∀ i, s'.installed i ≠ s.installed i → ¬s.Running i ∧ ¬s.ToStart i := by
  have hgrows := h.masked.grows
  have hinstalled := h.masked.installed
  have hquiet := h.waited.quiet (by simp [hcaller])
  have hall := h.waited.all candidate _ (.inr hcaller)
  have hmore := hgrows candidate (by rw [hcaller]; rfl)
  have hdone := h.masked.reconfigured candidate _ hcaller
  have hwaiting := h.updater_waiting hcaller
  rw [hcaller] at hgrows
  intro s'
  have hsame : SameWork s s' := ⟨rfl, rfl, rfl, rfl, rfl, rfl⟩
  have hhere : ∀ rank slot, s'.installed i rank slot
      = if candidate rank then -1 else s.installed i rank slot := by
    intro rank slot
    rw [show s' = _ from rfl, installed, setLayer_layers, update_self]
    exact Layer.reconfigureMaskOnly_ok hl rank slot
  have hother : ∀ j ≠ i, s'.installed j = s.installed j := by
    intro j hj
    rw [show s' = _ from rfl, installed, setLayer_layers, update_of_ne hj]
    rfl
  have hkept : ∀ j rank slot, s.balancer.deadRankMask rank = true →
      s'.installed j rank slot = -1 := by
    intro j rank slot hr
    by_cases hj : j = i
    · subst hj
      rw [hhere, if_pos (hmore rank hr)]
    · rw [hother j hj]
      exact hinstalled j rank slot hr
  refine ⟨⟨hsame.tasks h.tasks, ⟨fun _ j => (hsame.ahead j).not.mpr (hquiet j), by simp,
    fun _ _ _ => hall⟩, ⟨hkept, by simp [s', hwaiting], by simp [s', hwaiting], hgrows,
    fun c todo' hc j hj rank slot hr => ?_⟩⟩, hkept, fun j _ => hall j⟩
  obtain ⟨rfl, rfl⟩ := CallerThread.reconfiguring.inj hc
  by_cases hji : j = i
  · subst hji
    rw [hhere, if_pos hr]
  · rw [hother j hji]
    exact hdone j (by simp [hji, hj]) rank slot hr

lemma Safe.callerStep_reconfiguring (h : s.Safe)
    (hcaller : s.caller = .reconfiguring candidate todo) (hstep : s.callerStep = some s') :
    s'.Safe ∧ s.NoRevival s' ∧
      ∀ i, s'.installed i ≠ s.installed i → ¬s.Running i ∧ ¬s.ToStart i := by
  have hgrows := h.masked.grows
  have hinstalled := h.masked.installed
  rw [Threads.callerStep] at hstep
  have hquiet := h.waited.quiet (by simp [hcaller])
  have hall := h.waited.all candidate todo (.inr hcaller)
  have hmore := hgrows candidate (by rw [hcaller]; rfl)
  have hdone := h.masked.reconfigured candidate todo hcaller
  -- the update thread waits
  have hwaiting : s.updater = .waiting := by
    cases hu : s.updater with
    | waiting => rfl
    | _ => exact absurd (.inr (by rw [hu]; rfl)) (hall _).1
  rw [hcaller] at hstep hgrows
  cases todo with
  | nil =>
    obtain rfl := some.inj hstep
    have hsame : SameWork s { s with
        balancer := { s.balancer with deadRankMask := candidate }
        caller := .outside } := ⟨rfl, rfl, rfl, rfl, rfl, rfl⟩
    refine ⟨⟨hsame.tasks h.tasks, ⟨by simp, by simp, by simp⟩, ⟨fun i rank slot hr => ?_,
      by simp [hwaiting], by simp [hwaiting], by simp [CallerThread.candidate], by simp⟩⟩,
      hinstalled, fun i hi => absurd rfl hi⟩
    exact hdone i (by simp) rank slot hr
  | cons i todo =>
    dsimp only at hstep
    cases hl : (s.balancer.layers i).reconfigureMaskOnly candidate with
    | error e =>
      rw [hl] at hstep
      obtain rfl := some.inj hstep
      exact ⟨h.setCaller _ (by simp) (by simp) (by simp) (by simp [CallerThread.candidate])
        (by simp), hinstalled, fun i hi => absurd rfl hi⟩
    | ok l =>
      rw [hl] at hstep
      obtain rfl := some.inj hstep
      exact h.reconfigureLayer hcaller hl

lemma Safe.callerStep (h : s.Safe) (hstep : s.callerStep = some s') : s'.Safe ∧ s.NoRevival s' ∧
      ∀ i, s'.installed i ≠ s.installed i → ¬s.Running i ∧ ¬s.ToStart i := by
  cases hcaller : s.caller with
  | outside => simp [Threads.callerStep, hcaller] at hstep
  | waiting candidate todo => exact h.callerStep_waiting hcaller hstep
  | validating candidate todo => exact h.callerStep_validating hcaller hstep
  | reconfiguring candidate todo => exact h.callerStep_reconfiguring hcaller hstep

end CallerStep

end Threads

end TrtLlm.Moe
