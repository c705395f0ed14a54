import TrtLlm.Moe.ThreadInvariant

/-!
When masked ranks stay out.

* `Threads.Safe.workerStep`, `Threads.Safe.updateStep`: the worker and the update thread keep the
  invariant;
* `maskedRanks_stay_out`: **in these runs no masked rank gets an expert**, and no reconfiguration
  meets an update;
* `maskedRank_comes_back`: otherwise a masked rank can get its expert back.
-/

namespace TrtLlm.Moe

open List Function Option

variable {R L : ℕ}

namespace Threads

variable {epRank : Fin R} {shape : Fin L → ℕ × ℕ} {Name Weight : Type*}
  {s s' : Threads epRank shape Name Weight}

/-! ### The worker -/

/-- The worker goes on. It starts only updates that were still to be started. -/
lemma Safe.work (h : s.Safe) (hbalancer : s'.balancer = s.balancer) (hcaller : s'.caller = s.caller)
    (hupdater : s'.updater = s.updater) (htasks : s'.Tasks)
    (hrunning : ∀ i, s'.Running i → ¬s.ToStart i → s.Running i)
    (hstart : s.caller ≠ .outside → ∀ i, s'.ToStart i → s.ToStart i)
    (hahead : s.caller ≠ .outside → ∀ i, s'.Ahead i → s.Ahead i) :
    s'.Safe ∧ s.NoRevival s' := by
  have hkept : s.caller ≠ .outside → ∀ i, ¬s.Running i ∧ ¬s.ToStart i →
      ¬s'.Running i ∧ ¬s'.ToStart i := fun hc i hi =>
    ⟨fun hr => hi.1 (hrunning i hr hi.2), fun ht => hi.2 (hstart hc i ht)⟩
  have hinst : ∀ i, s'.installed i = s.installed i := fun i => by
    rw [installed, hbalancer]
    rfl
  obtain ⟨m1, m2, m3, m4, m5⟩ := h.masked
  refine ⟨⟨htasks, ⟨fun hc i hi => ?_, fun candidate todo hc i hi => ?_,
    fun candidate todo hc i => ?_⟩, ?_⟩, fun i rank slot hr => hinst i ▸ m1 i rank slot hr⟩
  · rw [hcaller] at hc
    exact h.waited.quiet hc i (hahead hc i hi)
  · rw [hcaller] at hc
    exact hkept (by simp [hc]) i (h.waited.passed candidate todo hc i hi)
  · rw [hcaller] at hc
    refine hkept ?_ i (h.waited.all candidate todo hc i)
    obtain hc | hc := hc <;> simp [hc]
  · refine ⟨fun i rank slot hr => ?_, fun i mask hu => ?_, fun i hu => ?_, fun c hc => ?_,
      fun c todo hc i hi rank slot hr => ?_⟩
    · rw [hinst]
      exact m1 i rank slot (hbalancer ▸ hr)
    · rw [hbalancer]
      exact m2 i mask (hupdater ▸ hu)
    · rw [hbalancer]
      exact m3 i (hupdater ▸ hu)
    · rw [hbalancer]
      exact m4 c (hcaller ▸ hc)
    · rw [hinst]
      exact m5 c todo (hcaller ▸ hc) i hi rank slot hr

/-- The worker is told to go on at the same layer, with nothing else changed. -/
lemma Tasks.setStage (h : s.Tasks) {enabled : Bool} {i : Fin L} {stage : WorkerStage}
    (hworker : ∃ stage', s.worker = .walking enabled i stage')
    (htold : s.Told enabled i stage) :
    ({ s with worker := .walking enabled i stage } : Threads epRank shape Name Weight).Tasks := by
  obtain ⟨stage', hworker⟩ := hworker
  refine ⟨h.pending, h.nodup, h.apart, h.iter, fun en layerId st hw => ?_⟩
  obtain ⟨rfl, rfl, rfl⟩ := WorkerThread.walking.inj hw
  exact ⟨(h.walking _ _ _ hworker).1, fun _ => ⟨htold.notRunning, htold.sync⟩⟩

lemma Safe.workerCall (h : s.Safe) {enabled : Bool} {i : Fin L} {stage : WorkerStage}
    (hworker : s.worker = .walking enabled i stage)
    (hstep : s.workerCall enabled i stage = some s') : s'.Safe ∧ s.NoRevival s' := by
  obtain ⟨hiter, htold⟩ := h.tasks.walking enabled i stage hworker
  have htold : s.Told enabled i stage := htold i.isLt
  have hto : ∀ j, s.ToStart j ↔ s.enableLayerUpdate enabled j = true ∧ i.val ≤ j.val := fun j => by
    rw [ToStart, hworker]
  have hah : ∀ j, s.Ahead j ↔ s.enableLayerUpdate enabled j = true ∧ (i.val < j.val ∨ (i.val = j.val
      ∧ (stage = .waitLastUpdateDone ∨ stage = .startCpuNewIter))) := fun j => by
    rw [Ahead, hworker]
  cases stage with
  | waitLastUpdateDone =>
    rw [Threads.workerCall] at hstep
    split_ifs at hstep with hdone
    obtain rfl := some.inj hstep
    refine h.work rfl rfl rfl (h.tasks.setStage ⟨_, hworker⟩ ⟨fun _ hr => ?_, by simp⟩)
      (fun _ hr _ => hr) (fun _ j hj => (hto j).mpr hj) fun _ j hj => (hah j).mpr ?_
    · simp [h.tasks.pending i hr] at hdone
    · exact ⟨hj.1, hj.2.imp id fun hand => ⟨hand.1, .inl rfl⟩⟩
  | startCpuNewIter =>
    rw [Threads.workerCall] at hstep
    split_ifs at hstep with hnext
    obtain rfl := some.inj hstep
    have hnot := htold.notRunning (by simp)
    refine h.work rfl rfl rfl ?_ (fun _ hr _ => hr) (fun _ j hj => (hto j).mpr hj)
      fun _ j hj => (hah j).mpr ⟨hj.1, hj.2.imp id fun hand => ⟨hand.1, .inr rfl⟩⟩
    refine ⟨fun j hj => ?_, h.tasks.nodup, h.tasks.apart, h.tasks.iter, fun en layerId st hw => ?_⟩
    · have hne : j ≠ i := fun he => hnot (he ▸ hj)
      simp only [update_of_ne hne]
      exact h.tasks.pending j hj
    · obtain ⟨rfl, rfl, rfl⟩ := WorkerThread.walking.inj hw
      exact ⟨hiter, fun _ => ⟨fun _ => hnot, fun _ _ => update_self ..⟩⟩
  | setGpuStage | waitCpuStage =>
    obtain rfl := some.inj hstep
    refine h.work rfl rfl rfl (h.tasks.setStage ⟨_, hworker⟩ ⟨fun _ => htold.notRunning (by simp),
      fun _ _ => htold.sync (by simp) (by simp)⟩) (fun _ hr _ => hr)
      (fun _ j hj => (hto j).mpr hj) fun _ j hj => (hah j).mpr ⟨hj.1, ?_⟩
    exact hj.2.imp id fun hand => by simp at hand
  | maybeStartUpdateWeights =>
    obtain rfl := some.inj hstep
    have hnot := htold.notRunning (by simp)
    have hsync := htold.sync (by simp) (by simp)
    rw [hsync]
    -- the layer is handed to the update thread if its update is enabled
    have hmem : ∀ j, j ∈ (if 0 ≤ s.workerIterId ∧ s.enableLayerUpdate enabled i = true then
        s.updateTaskQueue ++ [i] else s.updateTaskQueue) ↔
        j ∈ s.updateTaskQueue ∨ (j = i ∧ s.enableLayerUpdate enabled i = true) := by
      intro j
      split_ifs with hpush
      · simp [hpush.2]
      · have hno : ¬s.enableLayerUpdate enabled i = true := fun he => hpush ⟨hiter, he⟩
        simp [hno]
    refine h.work rfl rfl rfl ⟨fun j hj => ?_, ?_, fun j hj hin => ?_, h.tasks.iter,
      fun en layerId st hw => ?_⟩ (fun j hj hno => ?_) (fun _ j hj => ?_) fun _ j hj => ?_
    · rw [Running, hmem] at hj
      obtain (hj | ⟨rfl, henable⟩) | hj := hj
      · exact h.tasks.pending j (.inl hj)
      · show (s.sync j).lastUpdateDone = false
        rw [hsync]
        simp [LayerSync.lastUpdateDone, hiter, henable]
      · exact h.tasks.pending j (.inr hj)
    · dsimp only
      split_ifs
      · rw [nodup_append]
        refine ⟨h.tasks.nodup, nodup_singleton i, fun a ha b hb he => ?_⟩
        rw [mem_singleton.mp hb] at he
        exact hnot (.inl (he ▸ ha))
      · exact h.tasks.nodup
    · obtain hin | ⟨rfl, -⟩ := (hmem j).mp hin
      · exact h.tasks.apart j hj hin
      · exact hnot (.inr hj)
    · obtain ⟨rfl, rfl, rfl⟩ := WorkerThread.walking.inj hw
      exact ⟨hiter, fun _ => ⟨by simp, by simp⟩⟩
    · rw [Running, hmem] at hj
      obtain (hj | ⟨rfl, henable⟩) | hj := hj
      · exact .inl hj
      · exact absurd ((hto j).mpr ⟨henable, le_rfl⟩) hno
      · exact .inr hj
    · exact (hto j).mpr ⟨hj.1, le_trans (Nat.le_succ _) hj.2⟩
    · refine (hah j).mpr ⟨hj.1, .inl ?_⟩
      obtain hlt | ⟨heq, -⟩ := hj.2
      · exact lt_trans (Nat.lt_succ_self _) hlt
      · exact heq ▸ Nat.lt_succ_self _

lemma Safe.workerStep (h : s.Safe) (hstep : s.workerStep = some s') : s'.Safe ∧ s.NoRevival s' := by
  rw [Threads.workerStep] at hstep
  cases hworker : s.worker with
  | waiting =>
    rw [hworker] at hstep
    dsimp only at hstep
    rw [workerTake] at hstep
    -- the worker takes an iteration only while the caller is outside
    split at hstep
    · rename_i info queue hcaller hqueue
      split_ifs at hstep with hnext
      obtain rfl := some.inj hstep
      have hiter := h.tasks.iter
      refine h.work rfl rfl rfl ⟨h.tasks.pending, h.tasks.nodup, h.tasks.apart, ?_,
        fun en layerId st hw => ?_⟩ (fun _ hr _ => hr) (fun hc => absurd hcaller hc)
        fun hc => absurd hcaller hc
      · show -1 ≤ info.iterId
        omega
      · obtain ⟨rfl, rfl, rfl⟩ := WorkerThread.walking.inj hw
        refine ⟨?_, fun _ => ⟨by simp, by simp⟩⟩
        show 0 ≤ info.iterId
        omega
    · cases hstep
  | walking enabled layerId stage =>
    rw [hworker] at hstep
    dsimp only at hstep
    split_ifs at hstep with hl
    · exact h.workerCall (i := ⟨layerId, hl⟩) hworker hstep
    all_goals
      obtain rfl := some.inj hstep
      exact h.work rfl rfl rfl ⟨h.tasks.pending, h.tasks.nodup, h.tasks.apart, h.tasks.iter,
        by simp⟩ (fun _ hr _ => hr) (fun _ _ hj => hj.elim) fun _ _ hj => hj.elim

/-! ### The update thread -/

/-- The update thread goes on. It starts no update by itself. -/
lemma Safe.update (h : s.Safe) (hcaller : s'.caller = s.caller) (hworker : s'.worker = s.worker)
    (hqueue : s'.updateLayerQueue = s.updateLayerQueue) (htasks : s'.Tasks)
    (hrunning : ∀ i, s'.Running i → s.Running i) (hmasked : s'.Masked) : s'.Safe := by
  have henable : ∀ enabled i, s'.enableLayerUpdate enabled i = s.enableLayerUpdate enabled i :=
    fun enabled i => by rw [enableLayerUpdate, enableLayerUpdate, hqueue]
  have hstart : ∀ i, s'.ToStart i ↔ s.ToStart i := fun i => by
    simp only [ToStart, hworker, henable]
  have hahead : ∀ i, s'.Ahead i ↔ s.Ahead i := fun i => by simp only [Ahead, hworker, henable]
  refine ⟨htasks, ⟨fun hc i => ?_, fun c todo hc i hi => ?_, fun c todo hc i => ?_⟩, hmasked⟩
  · rw [hahead]
    exact h.waited.quiet (hcaller ▸ hc) i
  · rw [hstart]
    exact (h.waited.passed c todo (hcaller ▸ hc) i hi).imp (mt (hrunning i)) id
  · rw [hstart]
    exact (h.waited.all c todo (hcaller ▸ hc) i).imp (mt (hrunning i)) id

variable {hostWeights : (i : Fin L) → Name → Fin (shape i).1 → Weight}

section UpdateStep

variable {expertLoadFactor : (i : Fin L) → Fin (shape i).1 → ℚ} {i : Fin L}

/-- The update thread takes the next layer. -/
lemma Safe.updateStep_waiting (h : s.Safe) (hupdater : s.updater = .waiting)
    (hstep : s.updateStep hostWeights expertLoadFactor = some s') : s'.Safe ∧ s.NoRevival s' := by
  obtain ⟨m1, m2, m3, m4, m5⟩ := h.masked
  obtain ⟨t1, t2, t3, t4, t5⟩ := h.tasks
  rw [Threads.updateStep] at hstep
  rw [hupdater] at hstep
  cases hqueue : s.updateTaskQueue with
  | nil => simp [hqueue] at hstep
  | cons i queue =>
    rw [hqueue] at hstep t2
    obtain rfl := some.inj hstep
    set s' : Threads epRank shape Name Weight := { s with
      updateTaskQueue := queue
      updater := .started i } with hs'
    have hrunning : ∀ j, s'.Running j ↔ s.Running j := by
      intro j
      rw [Running, Running, hqueue, hupdater]
      simp [hs', UpdateThread.layer, or_comm, eq_comm]
    rw [nodup_cons] at t2
    refine ⟨h.update rfl rfl rfl ⟨fun j hj => t1 j ((hrunning j).mp hj), t2.2,
      fun j hj => ?_, t4, fun en layerId st hw => ?_⟩ (fun j => (hrunning j).mp)
      ⟨m1, by simp [hs'], by simp [hs'], m4, m5⟩, m1⟩
    · obtain rfl := some.inj hj
      exact t2.1
    · obtain ⟨hiter, htold⟩ := t5 en layerId st hw
      refine ⟨hiter, fun hl => ⟨fun h1 => ?_, (htold hl).sync⟩⟩
      rw [hrunning]
      exact (htold hl).notRunning h1

lemma Safe.updateStep_started (h : s.Safe) (hupdater : s.updater = .started i)
    (hstep : s.updateStep hostWeights expertLoadFactor = some s') : s'.Safe ∧ s.NoRevival s' := by
  obtain ⟨m1, m2, m3, m4, m5⟩ := h.masked
  rw [Threads.updateStep] at hstep
  rw [hupdater] at hstep
  obtain rfl := some.inj hstep
  have hsame : SameWork s { s with updater := .snapshot i s.balancer.deadRankMask } :=
    ⟨rfl, rfl, by rw [hupdater]; rfl, rfl, rfl, rfl⟩
  refine ⟨h.update rfl rfl rfl (hsame.tasks h.tasks) (fun j => (hsame.running j).mp)
    ⟨m1, fun j mask hu => ?_, by simp, m4, m5⟩, m1⟩
  exact (UpdateThread.snapshot.inj hu).2.symm

/-- A new placement leaves the installed one, and keeps to the mask. -/
lemma Safe.updateStep_snapshot (h : s.Safe) {mask : Fin R → Bool}
    (hupdater : s.updater = .snapshot i mask)
    (hstep : s.updateStep hostWeights expertLoadFactor = some s') : s'.Safe ∧ s.NoRevival s' := by
  obtain ⟨m1, m2, m3, m4, m5⟩ := h.masked
  rw [Threads.updateStep] at hstep
  obtain rfl := m2 i mask hupdater
  rw [hupdater] at hstep
  dsimp only at hstep
  cases hl : { s.balancer.layers i with
      expertLoadFactor := expertLoadFactor i }.place s.balancer.deadRankMask with
  | error e => simp [hl] at hstep
  | ok l =>
    rw [hl] at hstep
    obtain rfl := some.inj hstep
    obtain ⟨hold, hdead⟩ := Layer.place_ok hl
    set s' : Threads epRank shape Name Weight := { s with
      balancer := s.setLayer i l
      updater := .placed i } with hs'
    have hsame : SameWork s s' := ⟨rfl, rfl, by rw [hs', hupdater]; rfl, rfl, rfl, rfl⟩
    have hinst : ∀ j, s'.installed j = s.installed j := by
      intro j
      rw [hs', installed, setLayer_layers]
      by_cases hj : j = i
      · subst hj
        rw [update_self]
        exact hold
      · rw [update_of_ne hj]
        rfl
    have hkept : ∀ j rank slot, s.balancer.deadRankMask rank = true →
        s'.installed j rank slot = -1 := fun j rank slot hr => by
      rw [hinst]
      exact m1 j rank slot hr
    refine ⟨h.update rfl rfl rfl (hsame.tasks h.tasks) (fun j => (hsame.running j).mp)
      ⟨hkept, by simp [hs'], fun j hu rank slot hr => ?_, m4,
        fun c todo hc j hj rank slot hr => ?_⟩, hkept⟩
    · obtain rfl := UpdateThread.placed.inj hu
      rw [hs', setLayer_layers, update_self]
      exact hdead rank slot hr
    · rw [hinst]
      exact m5 c todo hc j hj rank slot hr

/-- The placement of a layer is installed. -/
lemma Safe.updateStep_placed (h : s.Safe) (hupdater : s.updater = .placed i)
    (hstep : s.updateStep hostWeights expertLoadFactor = some s') : s'.Safe ∧ s.NoRevival s' := by
  obtain ⟨m1, m2, m3, m4, m5⟩ := h.masked
  rw [Threads.updateStep] at hstep
  rw [hupdater] at hstep
  dsimp only at hstep
  cases hl : (s.balancer.layers i).install (hostWeights i) with
  | error e => simp [hl] at hstep
  | ok l =>
    rw [hl] at hstep
    obtain rfl := some.inj hstep
    have hold := Layer.install_ok hl
    set s' : Threads epRank shape Name Weight := { s with
      balancer := s.setLayer i l
      updater := .installed i } with hs'
    have hsame : SameWork s s' := ⟨rfl, rfl, by rw [hs', hupdater]; rfl, rfl, rfl, rfl⟩
    have hkept : ∀ j rank slot, s.balancer.deadRankMask rank = true →
        s'.installed j rank slot = -1 := by
      intro j rank slot hr
      rw [hs', installed, setLayer_layers]
      by_cases hj : j = i
      · subst hj
        rw [update_self, hold]
        exact m3 j hupdater rank slot hr
      · rw [update_of_ne hj]
        exact m1 j rank slot hr
    refine ⟨h.update rfl rfl rfl (hsame.tasks h.tasks) (fun j => (hsame.running j).mp)
      ⟨hkept, by simp [hs'], by simp [hs'], m4, fun c todo hc => ?_⟩, hkept⟩
    -- a reconfiguration has waited for this update
    have hnot := (h.waited.all c todo (.inr hc) i).1
    exact absurd (.inr (by rw [hupdater]; rfl)) hnot

/-- The update of a layer ends. -/
lemma Safe.updateStep_installed (h : s.Safe) (hupdater : s.updater = .installed i)
    (hstep : s.updateStep hostWeights expertLoadFactor = some s') : s'.Safe ∧ s.NoRevival s' := by
  obtain ⟨m1, m2, m3, m4, m5⟩ := h.masked
  obtain ⟨t1, t2, t3, t4, t5⟩ := h.tasks
  rw [Threads.updateStep] at hstep
  rw [hupdater] at hstep t3
  obtain rfl := some.inj hstep
  have hrunning : s.Running i := .inr (by rw [hupdater]; rfl)
  have hless : ∀ j, (j ∈ s.updateTaskQueue ∨ (UpdateThread.waiting : UpdateThread R L).layer
      = some j) → j ≠ i ∧ s.Running j := by
    rintro j (hj | hj)
    · exact ⟨fun he => t3 i rfl (he ▸ hj), .inl hj⟩
    · simp [UpdateThread.layer] at hj
  refine ⟨h.update rfl rfl rfl ⟨fun j hj => ?_, t2, by simp [UpdateThread.layer], t4,
    fun en layerId st hw => ?_⟩ (fun j hj => (hless j hj).2) ⟨m1, by simp, by simp, m4, m5⟩, m1⟩
  · simp only [update_of_ne (hless j hj).1]
    exact t1 j (hless j hj).2
  · obtain ⟨hiter, htold⟩ := t5 en layerId st hw
    refine ⟨hiter, fun hl => ⟨fun h1 hr => ?_, fun h1 h2 => ?_⟩⟩
    · exact (htold hl).notRunning h1 (hless _ hr).2
    · have hne : (⟨layerId, hl⟩ : Fin L) ≠ i := fun he =>
        (htold hl).notRunning h1 (he ▸ hrunning)
      simp only [update_of_ne hne]
      exact (htold hl).sync h1 h2

lemma Safe.updateStep (h : s.Safe)
    (hstep : s.updateStep hostWeights expertLoadFactor = some s') : s'.Safe ∧ s.NoRevival s' := by
  cases hupdater : s.updater with
  | waiting => exact h.updateStep_waiting hupdater hstep
  | started i => exact h.updateStep_started hupdater hstep
  | snapshot i mask => exact h.updateStep_snapshot hupdater hstep
  | placed i => exact h.updateStep_placed hupdater hstep
  | installed i => exact h.updateStep_installed hupdater hstep

end UpdateStep

/-! ### All runs -/

lemma Safe.of_initial (h : s.Initial hostWeights) : s.Safe := by
  have hnone : ∀ i, ¬s.Running i := fun i => by
    rw [Running, h.updateTaskQueue, h.updater]
    simp [UpdateThread.layer]
  refine ⟨⟨fun i hi => absurd hi (hnone i), by simp [h.updateTaskQueue], by
    simp [h.updateTaskQueue], h.workerIterId.ge, by simp [h.worker]⟩,
      ⟨by simp [h.caller], by simp [h.caller],
    by simp [h.caller]⟩, ⟨fun i rank slot hr => ?_, by simp [h.updater], by simp [h.updater],
    by simp [h.caller, CallerThread.candidate], by simp [h.caller]⟩⟩
  simp [h.balancer.alive rank] at hr

/-- A new call of the caller. -/
lemma Safe.call (h : s.Safe)
    {f : Threads epRank shape Name Weight → Threads epRank shape Name Weight}
    (hstep : s.call f = some s')
    (hf : (f s).Safe ∧ (f s).balancer = s.balancer) : s'.Safe ∧ s.NoRevival s' := by
  rw [Threads.call] at hstep
  cases hcaller : s.caller with
  | outside =>
    rw [hcaller] at hstep
    obtain rfl := some.inj hstep
    obtain ⟨hsafe, hbalancer⟩ := hf
    refine ⟨hsafe, fun i rank slot hr => ?_⟩
    rw [installed, hbalancer]
    exact h.masked.installed i rank slot hr
  | _ => simp [hcaller] at hstep

/-- The queue of iterations is of no matter here. -/
lemma Safe.setIter (h : s.Safe) (iterId : ℤ) (iterActive : Bool) (iterInfoQueue : List IterInfo) :
    ({ s with
      iterId := iterId
      iterActive := iterActive
      iterInfoQueue := iterInfoQueue } : Threads epRank shape Name Weight).Safe := by
  have hsame : SameWork s { s with
      iterId := iterId
      iterActive := iterActive
      iterInfoQueue := iterInfoQueue } := ⟨rfl, rfl, rfl, rfl, rfl, rfl⟩
  exact h.update rfl rfl rfl (hsame.tasks h.tasks) (fun i => (hsame.running i).mp)
    ⟨h.masked.installed, h.masked.snapshot, h.masked.placed, h.masked.grows, h.masked.reconfigured⟩

lemma Safe.reconfigureMaskOnly (h : s.Safe) (deadRanks : List ℤ)
    (hahead : ∀ i, ¬s.Ahead i) : (s.reconfigureMaskOnly deadRanks).Safe
      ∧ (s.reconfigureMaskOnly deadRanks).balancer = s.balancer := by
  rw [Threads.reconfigureMaskOnly]
  split_ifs with hguard
  · exact ⟨h, rfl⟩
  · obtain ⟨e, he, -⟩ | ⟨candidate, hcandidate, -, hmore⟩ :=
      candidateDeadRankMask_cases epRank s.balancer.deadRankMask deadRanks
    · rw [he]
      exact ⟨h, rfl⟩
    · rw [hcandidate]
      refine ⟨h.setCaller _ (fun _ => hahead) (fun c todo hc i hi => ?_) (by simp) (fun c hc => ?_)
        (by simp), rfl⟩
      · obtain ⟨rfl, rfl⟩ := CallerThread.waiting.inj hc
        exact absurd (mem_finRange i) hi
      · obtain rfl := some.inj hc
        exact hmore

/-- **Every step.** -/
lemma Safe.step (h : s.Safe) {a : Action shape} (hc : s.NoneAhead a)
    (hstep : s.step hostWeights a = some s') :
    s'.Safe ∧ s.NoRevival s' ∧ s.Undisturbed a s' := by
  cases a with
  | startIter iterId enableUpdateWeights =>
    obtain ⟨hsafe, hno⟩ := h.call hstep <| by
      rw [startIter]
      split_ifs
      · exact ⟨h, rfl⟩
      · exact ⟨h.setIter _ _ _, rfl⟩
    exact ⟨hsafe, hno, fun ha => by cases ha⟩
  | endIter iterId =>
    obtain ⟨hsafe, hno⟩ := h.call hstep <| by
      rw [endIter]
      split_ifs
      · exact ⟨h.setIter _ _ _, rfl⟩
      · exact ⟨h, rfl⟩
    exact ⟨hsafe, hno, fun ha => by cases ha⟩
  | reconfigureMaskOnly deadRanks =>
    obtain ⟨hsafe, hno⟩ := h.call hstep (h.reconfigureMaskOnly deadRanks (hc ⟨deadRanks, rfl⟩))
    exact ⟨hsafe, hno, fun ha => by cases ha⟩
  | caller =>
    obtain ⟨hsafe, hno, hquiet⟩ := h.callerStep hstep
    exact ⟨hsafe, hno, fun _ => hquiet⟩
  | worker =>
    obtain ⟨hsafe, hno⟩ := h.workerStep hstep
    exact ⟨hsafe, hno, fun ha => by cases ha⟩
  | update expertLoadFactor =>
    obtain ⟨hsafe, hno⟩ := h.updateStep hstep
    exact ⟨hsafe, hno, fun ha => by cases ha⟩

lemma Run.safe (h : Run hostWeights NoneAhead s) : s.Safe := by
  induction h with
  | initial h => exact .of_initial h
  | step a h hc hstep ih => exact (ih.step hc hstep).1

end Threads

/-- **Masked ranks stay out**, in every run in which no update is ahead of a layer when
`reconfigureMaskOnly` starts: no placement has an expert on a masked rank, no step installs one
there, and no reconfiguration of a layer meets an update of it. -/
theorem maskedRanks_stay_out {epRank : Fin R} {shape : Fin L → ℕ × ℕ} {Name Weight : Type*}
    {hostWeights : (i : Fin L) → Name → Fin (shape i).1 → Weight}
    {s : Threads epRank shape Name Weight} (h : s.Run hostWeights Threads.NoneAhead) :
    (∀ i rank slot, s.balancer.deadRankMask rank = true → s.installed i rank slot = -1)
    ∧ ∀ a s', s.NoneAhead a → s.step hostWeights a = some s' →
      s.NoRevival s' ∧ s.Undisturbed a s' :=
  ⟨h.safe.masked.installed, fun _ _ hc hstep => (h.safe.step hc hstep).2⟩

/-! ### A masked rank comes back -/

/-- The state after an action, if it is possible. -/
def Threads.after {epRank : Fin R} {shape : Fin L → ℕ × ℕ} {Name Weight : Type*}
    (hostWeights : (i : Fin L) → Name → Fin (shape i).1 → Weight)
    (s : Threads epRank shape Name Weight) (a : Threads.Action shape) :
    Threads epRank shape Name Weight :=
  (s.step hostWeights a).getD s

lemma Threads.Run.after {epRank : Fin R} {shape : Fin L → ℕ × ℕ} {Name Weight : Type*}
    {hostWeights : (i : Fin L) → Name → Fin (shape i).1 → Weight}
    {condition : Threads epRank shape Name Weight → Threads.Action shape → Prop}
    {s : Threads epRank shape Name Weight} (h : s.Run hostWeights condition)
    {a : Threads.Action shape} (hc : condition s a) :
    (s.after hostWeights a).Run hostWeights condition := by
  rw [Threads.after]
  cases hstep : s.step hostWeights a with
  | none => exact h
  | some s' => exact h.step a hc hstep

lemma Threads.Run.foldl {epRank : Fin R} {shape : Fin L → ℕ × ℕ} {Name Weight : Type*}
    {hostWeights : (i : Fin L) → Name → Fin (shape i).1 → Weight}
    {condition : Threads epRank shape Name Weight → Threads.Action shape → Prop}
    {s : Threads epRank shape Name Weight} (h : s.Run hostWeights condition)
    (as : List (Threads.Action shape)) (hc : ∀ a ∈ as, ∀ s, condition s a) :
    (as.foldl (Threads.after hostWeights) s).Run hostWeights condition := by
  induction as generalizing s with
  | nil => exact h
  | cons a as ih =>
    exact ih (h.after (hc a mem_cons_self s)) fun b hb => hc b (mem_cons_of_mem _ hb)

/-- One expert on two ranks with one slot each, before its assignment. -/
def createdPair : Layer (addLayer (0 : Fin 2) (1, 1)) Unit ℕ :=
  ⟨fun _ => 0, fun _ _ => -1, fun _ _ => -1, ⟨fun _ => 0, fun _ => 0, fun _ => 0⟩,
    ⟨fun _ => 0, fun _ => 0, fun _ => 0⟩, fun _ => 0, fun _ _ => 5⟩

/-- Both ranks have the expert. -/
def pair : MoeLoadBalancer (0 : Fin 2) (fun _ : Fin 1 => (1, 1)) Unit ℕ :=
  ⟨fun _ => false, fun _ => match createdPair.setInitialWeightAssignments fun _ _ => 0 with
    | .ok l => l
    | .error _ => createdPair⟩

local instance (priority := 2000) twoRanks_ne : NeZero (1 + 1) := ⟨Nat.succ_ne_zero 1⟩

/-- One layer with one expert on both of two ranks. -/
def pairThreads : Threads (0 : Fin 2) (fun _ : Fin 1 => (1, 1)) Unit ℕ where
  balancer := pair
  sync _ := ⟨-1, true, false⟩
  iterId := -1
  iterActive := false
  warmUpUntilIter := -1
  iterInfoQueue := []
  updateLayerQueue := [{0}, ∅]
  updateTaskQueue := []
  workerIterId := -1
  caller := .outside
  worker := .waiting
  updater := .waiting

lemma pairThreads_initial : pairThreads.Initial fun _ _ _ => 5 where
  balancer := by
    refine ⟨fun _ => rfl, fun i => ⟨fun _ _ => 0, createdPair, rfl, ?_, fun _ _ _ _ => rfl⟩⟩
    exact fun e => ⟨0, ⟨0, Nat.one_pos⟩, by simp⟩
  sync _ := rfl
  iterId := rfl
  iterActive := rfl
  iterInfoQueue := rfl
  updateTaskQueue := rfl
  workerIterId := rfl
  caller := rfl
  worker := rfl
  updater := rfl

/-- The rest of the call that masks rank 1, and an iteration after which the weights of the layer
are updated. -/
def pairMaskedRun : List (Threads.Action fun _ : Fin 1 => (1, 1)) :=
  replicate 6 .caller ++ [.startIter 0 true, .worker, .endIter 0] ++ replicate 5 .worker
    ++ replicate 5 (.update fun _ _ => 3)

def pairMasked : Threads (0 : Fin 2) (fun _ : Fin 1 => (1, 1)) Unit ℕ :=
  pairMaskedRun.foldl (Threads.after fun _ _ _ => 5)
    (pairThreads.after (fun _ _ _ => 5) (.reconfigureMaskOnly [1]))

/-- The update of the first iteration is over, and the masked rank is still out. -/
theorem maskedRanks_stay_out_pair : pairMasked.Run (fun _ _ _ => 5) Threads.NoneAhead
    ∧ pairMasked.balancer.deadRankMask 1 = true
    ∧ ((pairMasked.sync 0).iterId = 0 ∧ (pairMasked.sync 0).updateWeightsDone = true)
    ∧ ∀ slot, pairMasked.installed 0 1 slot = -1 := by
  have hstart : pairThreads.Run (fun _ _ _ => 5) Threads.NoneAhead := .initial pairThreads_initial
  have hmask : pairMasked.balancer.deadRankMask 1 = true := by decide +kernel
  have hrun : pairMasked.Run (fun _ _ _ => 5) Threads.NoneAhead := by
    refine (hstart.after fun _ i hi => hi).foldl _ fun a ha s hc => ?_
    obtain ⟨deadRanks, rfl⟩ := hc
    simp [pairMaskedRun] at ha
  exact ⟨hrun, hmask, by decide +kernel,
    fun slot => (maskedRanks_stay_out hrun).1 0 1 slot hmask⟩

/-- The worker takes an iteration, the caller ends it and masks rank 1. While it does, the worker
starts the update of the layer, which reads the old mask. -/
def pairRace : List (Threads.Action fun _ : Fin 1 => (1, 1)) :=
  [.startIter 0 true, .worker, .endIter 0, .reconfigureMaskOnly [1], .caller,
    .worker, .worker, .worker, .worker, .worker, .update fun _ _ => 0, .update fun _ _ => 0,
    .caller, .caller, .caller, .caller, .caller, .update fun _ _ => 0]

theorem maskedRank_comes_back : ∃ s s' : Threads (0 : Fin 2) (fun _ : Fin 1 => (1, 1)) Unit ℕ,
      s.Run (fun _ _ _ => 5) (fun _ _ => True)
      ∧ s.step (fun _ _ _ => 5) (.update fun _ _ => 0) = some s' ∧ ¬s.NoRevival s' := by
  set s := pairRace.foldl (Threads.after fun _ _ _ => 5) pairThreads with hs
  have hmask : s.balancer.deadRankMask 1 = true := by rw [hs]; decide +kernel
  have hsome : (s.step (fun _ _ _ => 5) (.update fun _ _ => 0)).isSome = true := by
    rw [hs]
    decide +kernel
  obtain ⟨s', hs'⟩ := isSome_iff_exists.mp hsome
  refine ⟨s, s', (Threads.Run.initial pairThreads_initial).foldl _ fun _ _ _ => trivial, hs',
    fun hno => ?_⟩
  have hback : ((s.step (fun _ _ _ => 5) (.update fun _ _ => 0)).map fun s' =>
      s'.installed 0 1 ⟨0, Nat.one_pos⟩) = some 0 := by
    rw [hs]
    decide +kernel
  rw [hs', map_some, some.injEq, hno 0 1 _ hmask] at hback
  omega

end TrtLlm.Moe
