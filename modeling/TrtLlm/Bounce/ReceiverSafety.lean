import TrtLlm.Bounce.ScatterInvariant

/-!
Scatter safety of the bounce receiver.

* `step_inv`: every event keeps the invariant, and returns a region with a job only when it
  drains that very job;
* `receiver_scatter_safety`: the result over all runs.
-/

namespace TrtLlm

open CreditScheduler List Prod UMap

namespace BounceReceiver

/-- The flow key and the region of every job that is queued, running or not yet drained. -/
def jobs (s : BounceReceiver) : List (Bytes × ℕ) :=
  s.mJobs.map (fun j => (j.key, j.offset)) ++ (s.running.map (fun j => (j.key, j.offset))
    ++ (s.replied.map (fun j => (j.key, j.offset)) ++ (s.mDone.map (fun d => (d.key, d.offset))
    ++ s.draining.map fun d => (d.key, d.offset))))

/-- The invariant of the receiver. -/
def Inv (s : BounceReceiver) : Prop := ScatterInv s.scheduler s.mScattering s.jobs []

/-- A region that `schedule` or `acquireLocal` returned. -/
def Returns (out : List ReceiverOutput) (off : ℕ) : Prop :=
  (∃ g, .granted g ∈ out ∧ g.offset = off) ∨ .acquired off ∈ out

variable {extra : List ℕ} {gs : List Grant} {off : ℕ} {out : List ReceiverOutput}
  {s : BounceReceiver}

lemma returns_append {out' : List ReceiverOutput} :
    Returns (out ++ out') off ↔ Returns out off ∨ Returns out' off := by
  simp only [Returns, mem_append, or_and_right, exists_or]
  exact or_or_or_comm

lemma returns_grantsOut : Returns (s.grantsOut gs) off ↔ ∃ g ∈ gs, g.offset = off := by
  simp [Returns, grantsOut]

lemma not_returns_of_forall (h1 : ∀ g, .granted g ∉ out)
    (h2 : ∀ x, .acquired x ∉ out) : ¬ Returns out off := by
  rintro (⟨g, hg, -⟩ | hx)
  · exact h1 g hg
  · exact h2 off hx

section

variable (s : BounceReceiver) (gs : List Grant) (off : ℕ)

lemma count_orphaned_grantsOut : (s.grantsOut gs).count (.orphaned off) = 0 := by
  rw [count_eq_zero]
  simp [grantsOut]

lemma count_orphanFreed_grantsOut : (s.grantsOut gs).count (.orphanFreed off) = 0 := by
  rw [count_eq_zero]
  simp [grantsOut]

end

/-- What every event does: the invariant holds after it, no region that still has a job is
returned, and the outputs account for the orphans that came and went. -/
structure StepOk (s : BounceReceiver) (extra extra' : List ℕ)
    (r : List ReceiverOutput × BounceReceiver) : Prop where
  inv : ScatterInv r.2.scheduler r.2.mScattering r.2.jobs extra'
  returns : ∀ off, Returns r.1 off → ∀ key, (key, off) ∉ r.2.jobs
  account : ∀ off, r.1.count (.orphaned off) + s.scheduler.mOrphans.ind off
    = r.1.count (.orphanFreed off) + r.2.scheduler.mOrphans.ind off

/-- An event that leaves scheduler and `mScattering` alone and only passes jobs on. -/
lemma StepOk.of_perm {s' : BounceReceiver} (h : ScatterInv s.scheduler s.mScattering s.jobs extra)
    (hc : s'.scheduler = s.scheduler)
    (hm : s'.mScattering = s.mScattering) (hp : s.jobs.Perm s'.jobs)
    (hout : ∀ o ∈ out, ∃ peer msg, o = .send peer msg) : StepOk s extra extra (out, s') := by
  have hno : ∀ o ∈ out, (∀ g, o ≠ .granted g) ∧ (∀ x, o ≠ .acquired x) ∧ (∀ x, o ≠ .orphaned x)
      ∧ ∀ x, o ≠ .orphanFreed x := by
    intro o ho
    obtain ⟨peer, msg, rfl⟩ := hout o ho
    simp
  refine ⟨?_, fun off hr => absurd hr (not_returns_of_forall (fun g hg => ?_) fun x hx => ?_),
    fun off => ?_⟩
  · dsimp only
    rw [hc, hm]
    exact h.perm hp
  · exact (hno _ hg).1 g rfl
  · exact (hno _ hx).2.1 x rfl
  · have h1 : out.count (.orphaned off) = 0 := count_eq_zero.mpr fun ho => (hno _ ho).2.2.1 off rfl
    have h2 : out.count (.orphanFreed off) = 0 :=
      count_eq_zero.mpr fun ho => (hno _ ho).2.2.2 off rfl
    rw [h1, h2, hc]

lemma ind_congr {m m' : USet ℕ} {x y : ℕ} (h : x ∈ m ↔ y ∈ m') : m.ind x = m'.ind y := by
  rw [ind, ind]
  exact if_congr h rfl rfl

section

variable (h : ScatterInv s.scheduler s.mScattering s.jobs extra)
include h

/-- A call of the scheduler that takes no region with a job and no orphan. -/
lemma StepOk.of_call {c' : CreditScheduler} {H : Set ℕ}
    (he : Effect s.scheduler gs c' H fun _ => none) (hH : H ⊆ s.scheduler.live)
    (hm : ∀ x ∈ H, x ∉ s.mScattering) (ho : ∀ x ∈ H, x ∉ s.scheduler.mOrphans) :
    StepOk s extra extra (s.grantsOut gs, { s with scheduler := c' }) := by
  refine ⟨h.call he hH hm ho, fun off hr key hj => ?_, fun off => ?_⟩
  · obtain ⟨g, hg, rfl⟩ := returns_grantsOut.mp hr
    exact hm _ (h.not_granted he hg hj).1 ((h.scattering _).mpr (mem_map.mpr ⟨_, hj, rfl⟩))
  · rw [count_orphaned_grantsOut, count_orphanFreed_grantsOut]
    have := he.mem_owns_of_ne_flow (o := .orphans) (fun _ => Owner.noConfusion) off
    simp only [reduceCtorEq, and_false, false_or] at this
    have hiff : off ∈ c'.mOrphans ↔ off ∈ s.scheduler.mOrphans :=
      this.trans ⟨fun hx => hx.2, fun hx => ⟨fun hx' => ho off hx' hx, hx⟩⟩
    rw [ind_congr hiff]

/-- A call that takes nothing. -/
lemma StepOk.of_quiet_call {c' : CreditScheduler} (he : Effect s.scheduler gs c' ∅ fun _ => none) :
    StepOk s extra extra (s.grantsOut gs, { s with scheduler := c' }) :=
  .of_call h he (Set.empty_subset _) (fun _ hx => absurd hx (Set.notMem_empty _))
    fun _ hx => absurd hx (Set.notMem_empty _)

/-- The shared bookkeeping of the reclaims. -/
lemma StepOk.of_reclaim {r : List Grant × CreditScheduler × List ℕ} {H : Set ℕ} {quarantineFor : ℤ}
    (he : Effect s.scheduler r.1 r.2.1 H (reclaimDst s.scatteringRegions quarantineFor))
    (hH : ∀ x ∈ H, ∃ key, s.scheduler.heldByFlow key x = true)
    (hd : ∀ x, x ∈ r.2.2 ↔ x ∈ H ∧ x ∈ s.scatteringRegions) (hnd : r.2.2.Nodup) :
    StepOk s extra extra (s.reclaimAndFlagDeferred r) := by
  obtain ⟨h1, h2, h3, h4⟩ := h.reclaim he hH fun x => by rw [hd, scatteringRegions, USet.mem_ofKeys]
  refine ⟨h1, fun off hr key hj => ?_, fun off => ?_⟩
  · rw [reclaimAndFlagDeferred, returns_append, returns_grantsOut] at hr
    rcases hr with ⟨g, hg, rfl⟩ | hr
    · exact h4 g hg key hj
    · exact not_returns_of_forall (by simp) (by simp) hr
  · rw [reclaimAndFlagDeferred]
    rw [count_append, count_append, count_orphaned_grantsOut, count_orphanFreed_grantsOut]
    have hfreed : (r.2.2.map ReceiverOutput.orphaned).count (.orphanFreed off) = 0 :=
      count_eq_zero.mpr (by simp)
    have horph : (r.2.2.map ReceiverOutput.orphaned).count (.orphaned off) = r.2.2.count off :=
      count_map_of_injective _ _ (fun _ _ h => ReceiverOutput.orphaned.inj h) off
    rw [hfreed, horph]
    by_cases hx : off ∈ r.2.2
    · rw [count_eq_one_of_mem hnd hx, ind_of_not_mem (h2 off hx),
        ind_of_mem ((h3 off).mpr (Or.inl hx))]
    · rw [count_eq_zero.mpr hx, ind_congr ((h3 off).trans (or_iff_right hx))]

end

/-- A call of `freeOrphanRegion` for an orphan without a job. -/
lemma StepOk.of_freeOrphan (h : ScatterInv s.scheduler s.mScattering s.jobs (off :: extra))
    (pick : List ℕ → ℕ) : StepOk s (off :: extra) extra (freeOrphan pick s off) := by
  obtain ⟨h1, h2, h3, h4⟩ := h.freeOrphan pick
  refine ⟨h1, fun x hr key hj => ?_, fun x => ?_⟩
  · rw [freeOrphan, returns_append, returns_grantsOut] at hr
    rcases hr with hr | ⟨g, hg, rfl⟩
    · rw [if_pos h2] at hr
      exact not_returns_of_forall (by simp) (by simp) hr
    · exact h4 g hg key hj
  · rw [freeOrphan]
    rw [count_append, count_append, count_orphaned_grantsOut, count_orphanFreed_grantsOut,
      if_pos h2]
    by_cases hx : x = off
    · subst hx
      rw [ind_of_mem h2, ind_of_not_mem fun hm => ((h3 x).mp hm).1 rfl]
      simp
    · rw [ind_congr ((h3 x).trans (and_iff_right hx))]
      have h5 : ReceiverOutput.orphanFreed off ≠ .orphanFreed x := fun he =>
        hx (ReceiverOutput.orphanFreed.inj he).symm
      simp [h5]

lemma StepOk.trans {s' : BounceReceiver} {e1 e2 e3 : List ℕ}
    {r : List ReceiverOutput × BounceReceiver} (h : StepOk s e1 e2 (out, s'))
    (h' : StepOk s' e2 e3 r)
    (hj : ∀ j, j ∈ r.2.jobs → j ∈ s'.jobs) : StepOk s e1 e3 (out ++ r.1, r.2) := by
  refine ⟨h'.inv, fun off hr key hmem => ?_, fun off => ?_⟩
  · rcases returns_append.mp hr with hr | hr
    · exact h.returns off hr key (hj _ hmem)
    · exact h'.returns off hr key hmem
  · have h1 := h.account off
    have h2 := h'.account off
    dsimp only at h1 h2 ⊢
    rw [count_append, count_append]
    omega

/-! ### The handlers -/

/-- The last loop of `forget`. -/
lemma freeOrphans_ok (picks : ℕ → List ℕ → ℕ) (offs : List ℕ) : ∀ s : BounceReceiver,
    ScatterInv s.scheduler s.mScattering s.jobs offs →
      StepOk s offs [] (freeOrphans picks offs s) ∧ (freeOrphans picks offs s).2.jobs = s.jobs := by
  induction offs with
  | nil =>
    intro s h
    exact ⟨.of_perm h rfl rfl (Perm.refl _) (by simp), rfl⟩
  | cons off offs ih =>
    intro s h
    have h1 := StepOk.of_freeOrphan h (picks offs.length)
    obtain ⟨h2, h3⟩ := ih (freeOrphan (picks offs.length) s off).2 h1.inv
    refine ⟨h1.trans h2 fun j hj => ?_, h3⟩
    rwa [h3] at hj

/-- The first loop of `forget`, over the queued jobs `js` of the peer. -/
lemma foldl_dropJob_inv {c : CreditScheduler} (js : List ScatterJob) :
    ∀ (m : UMap ℕ Bool) (rest : List (Bytes × ℕ)) (extra : List ℕ),
      ScatterInv c m (js.map (fun j => (j.key, j.offset)) ++ rest) extra →
        ScatterInv c (js.foldl dropJob (m, extra)).1 rest (js.foldl dropJob (m, extra)).2 := by
  induction js with
  | nil => exact fun m rest extra h => h
  | cons j js ih =>
    intro m rest extra h
    have hdrop := h.drop (Perm.refl _)
    have hstep : dropJob (m, extra) j
        = (m.erase j.offset, if m.find? j.offset = some true then extra ++ [j.offset]
          else extra) := by
      have hmem : (j.key, j.offset) ∈ (j :: js).map (fun j => (j.key, j.offset)) ++ rest := by simp
      rcases h.flag hmem with hf | hf
      · simp [dropJob, hf]
      · simp [dropJob, hf]
    rw [foldl_cons, hstep]
    exact ih _ _ _ hdrop

/-- The jobs of `forget`'s peer that are still queued, before all other jobs. -/
lemma jobs_perm_forget (s : BounceReceiver) (peer : Bytes) :
    s.jobs.Perm ((s.mJobs.filter fun j => j.peer = peer).map (fun j => (j.key, j.offset))
      ++ (s.dropJobs peer).1.jobs) := by
  have hsplit : s.mJobs.Perm ((s.mJobs.filter fun j => j.peer = peer)
      ++ s.mJobs.filter fun j => j.peer ≠ peer) := by
    refine (filter_append_perm (fun j => decide (j.peer = peer)) s.mJobs).symm.trans ?_
    simp
  have := (hsplit.map fun j : ScatterJob => (j.key, j.offset)).append_right
    (s.running.map (fun j => (j.key, j.offset)) ++ (s.replied.map (fun j => (j.key, j.offset))
      ++ (s.mDone.map (fun d => (d.key, d.offset)) ++ s.draining.map fun d => (d.key, d.offset))))
  rw [map_append, append_assoc] at this
  exact this

lemma forget_ok (h : s.Inv) (pick : List ℕ → ℕ) (picks : ℕ → List ℕ → ℕ)
    (peer : Bytes) : StepOk s [] [] (forget pick picks s peer)
      ∧ (forget pick picks s peer).2.jobs = (s.dropJobs peer).1.jobs := by
  have h1 : ScatterInv (s.dropJobs peer).1.scheduler (s.dropJobs peer).1.mScattering
      (s.dropJobs peer).1.jobs (s.dropJobs peer).2 :=
    foldl_dropJob_inv (s.mJobs.filter fun j => j.peer = peer) s.mScattering _ []
      (h.perm (jobs_perm_forget s peer))
  obtain ⟨he, hd, hnd⟩ := reclaimByPrefix_effect pick h1.owned
    (append_ne_nil_of_right_ne_nil peer (cons_ne_nil kSep []))
    (s.dropJobs peer).1.scatteringRegions (max 0 s.cfg.quarantineMs)
  have h2 := StepOk.of_reclaim h1 he (fun x ⟨key, _, hk⟩ => ⟨key, hk⟩) hd hnd
  obtain ⟨h3, h4⟩ := freeOrphans_ok picks (s.dropJobs peer).2 _ h2.inv
  refine ⟨?_, h4⟩
  have h5 := h2.trans h3 fun j hj => by rwa [h4] at hj
  exact ⟨h5.inv, h5.returns, h5.account⟩

lemma drainDone_ok {d : ScatterDone} {rest : List (Bytes × ℕ)}
    (hs : ScatterInv s.scheduler s.mScattering ((d.key, d.offset) :: rest) []) (hj : s.jobs = rest)
    (pick : List ℕ → ℕ) : StepOk s [] [] (drainDone pick s d)
      ∧ (drainDone pick s d).2.jobs = s.jobs := by
  subst hj
  rcases hs.flag mem_cons_self with hf | hf
  · obtain ⟨h1, h2, h3⟩ := hs.scatterDone (Perm.refl _) hf pick
    rw [drainDone, hf]
    refine ⟨⟨h1, fun off hr key hmem => ?_, fun off => ?_⟩, rfl⟩
    · obtain ⟨g, hg, rfl⟩ := returns_grantsOut.mp hr
      exact h3 g hg key hmem
    · rw [count_orphaned_grantsOut, count_orphanFreed_grantsOut]
      rw [ind_congr (h2 off)]
  · have h1 := hs.drop (Perm.refl _)
    rw [if_pos hf, nil_append] at h1
    rw [drainDone, hf]
    have h2 := StepOk.of_freeOrphan (s := { s with mScattering := s.mScattering.erase d.offset }) h1
        pick
    exact ⟨⟨h2.inv, h2.returns, h2.account⟩, rfl⟩

lemma onData_ok (h : s.Inv) (peer : Bytes) (rid chunkIdx regionHandle : ℕ)
    (entries : List BounceScatterRun) :
    StepOk s [] [] ([], onData s peer rid chunkIdx regionHandle entries)
      ∧ ∀ j ∈ s.jobs, j ∈ (onData s peer rid chunkIdx regionHandle entries).jobs := by
  rw [onData]
  split_ifs with hh hm
  · exact ⟨.of_perm h rfl rfl (Perm.refl _) (by simp), fun j hj => hj⟩
  · have hp : ((makeKey peer rid, regionHandle) :: s.jobs).Perm
        (jobs { s with
          mScattering := s.mScattering.emplace regionHandle false
          mJobs := s.mJobs ++ [{
            key := makeKey peer rid
            peer := peer
            rid := rid
            chunkIdx := chunkIdx
            offset := regionHandle
            regionBytes := s.scheduler.regionBytes regionHandle
            entries := entries }] }) := by
      rw [jobs, jobs, map_append, append_assoc, map_singleton, singleton_append]
      exact perm_middle.symm
    refine ⟨⟨(ScatterInv.add h hm hh).perm hp, fun off hr => ?_, fun off => rfl⟩, fun j hj => ?_⟩
    · exact absurd hr (not_returns_of_forall (by simp) (by simp))
    · exact hp.mem_iff.mp (mem_cons_of_mem _ hj)
  · exact ⟨.of_perm h rfl rfl (Perm.refl _) (by simp), fun j hj => hj⟩

section

variable (h : s.Inv) (pick : List ℕ → ℕ)
include h

lemma reclaimFlow_ok (flow : Bytes) (quarantineFor : ℤ) : StepOk s [] [] (s.reclaimAndFlagDeferred
      (reclaimFlow pick s.scheduler flow s.scatteringRegions quarantineFor)) := by
  obtain ⟨he, hd, hnd⟩ := reclaimFlow_effect pick h.owned flow s.scatteringRegions quarantineFor
  exact .of_reclaim h he (fun x hx => ⟨flow, hx⟩) hd hnd

lemma onWant_ok (peer : Bytes) (rid : ℕ) (chunkBytes : List ℕ) (ready : Bool) :
    StepOk s [] [] (onWant pick s peer rid chunkBytes ready)
      ∧ (onWant pick s peer rid chunkBytes ready).2.jobs = s.jobs := by
  rw [onWant]
  split_ifs
  · exact ⟨reclaimFlow_ok h pick _ 0, rfl⟩
  · exact ⟨.of_perm h rfl rfl (Perm.refl _) (by simp), rfl⟩
  · exact ⟨.of_perm h rfl rfl (Perm.refl _) (by simp), rfl⟩
  · exact ⟨.of_perm h rfl rfl (Perm.refl _) (by simp), rfl⟩
  · exact ⟨.of_quiet_call h (onWant_effect pick _ _ _), rfl⟩

lemma acquireLocal_ok (bytes : ℕ) (eager : Bool) :
    StepOk s [] [] (step s (.acquireLocal pick bytes eager)) := by
  rw [step]
  rcases acquireLocal_spec pick s.scheduler bytes eager with ⟨h1, h2⟩ | ⟨off, h1, h2, -⟩
  · have he : Effect s.scheduler [] (CreditScheduler.acquireLocal pick s.scheduler bytes eager).2 ∅
        fun _ => none := ⟨_, h2, .done (Quiet.refl _)⟩
    rw [h1]
    exact .of_quiet_call h he
  · have horph : ∀ x, x ∈ (CreditScheduler.acquireLocal pick s.scheduler bytes eager).2.mOrphans
        ↔ x ∈ s.scheduler.mOrphans := by
      intro x
      have := h2.owns .orphans x
      simp only [reduceCtorEq, false_and, false_or] at this
      exact this
    rw [h1]
    refine ⟨ScatterInv.acquired h h2, fun x hr key hj => ?_, fun x => ?_⟩
    · obtain rfl : x = off := by simpa [Returns] using hr
      exact h2.fresh (ScatterInv.job_live h hj)
    · simp [ind_congr (horph x)]

end

/-- An element passes from the front of one list to the end of the next. -/
lemma perm_pass {α : Type*} {x : α} {a a' b c : List α} (h : a.Perm (x :: a')) :
    (a ++ (b ++ c)).Perm (a' ++ ((b ++ [x]) ++ c)) := by
  refine (h.append_right _).trans ?_
  rw [append_assoc, singleton_append, ← append_assoc, ← append_assoc, cons_append, cons_append]
  exact perm_middle.symm

lemma perm_eraseIdx {l : List ScatterJob} {i : ℕ} {j : ScatterJob} (h : l[i]? = some j) :
    (l.map fun j => (j.key, j.offset)).Perm
      ((j.key, j.offset) :: (l.eraseIdx i).map fun j => (j.key, j.offset)) := by
  obtain ⟨hi, rfl⟩ := List.getElem?_eq_some_iff.mp h
  exact ((getElem_cons_eraseIdx_perm hi).map fun j : ScatterJob => (j.key, j.offset)).symm

/-- The job whose completion is drained next, before all other jobs. -/
lemma jobs_perm_drain {d : ScatterDone} {ds : List ScatterDone} (h : s.draining = d :: ds) :
    s.jobs.Perm ((d.key, d.offset) :: jobs { s with draining := ds }) := by
  rw [jobs, jobs, h, map_cons]
  simp only [← append_assoc]
  exact perm_middle

/-- **One event**: it keeps the invariant, returns no region that still has a job, and
accounts for the orphans. -/
lemma step_ok (h : s.Inv) (e : Event) : StepOk s [] [] (step s e) := by
  cases e with
  | want pick peer rid chunkBytes ready => exact (onWant_ok h pick peer rid chunkBytes ready).1
  | data peer rid chunkIdx regionHandle entries =>
    exact (onData_ok h peer rid chunkIdx regionHandle entries).1
  | dequeue =>
    rw [step]
    split
    · exact .of_perm h rfl rfl (Perm.refl _) (by simp)
    · rename_i j js hj
      refine .of_perm h rfl rfl ?_ (by simp)
      rw [jobs, jobs, hj, map_append]
      exact perm_pass (Perm.refl _)
  | reply i ok =>
    rw [step]
    split
    · exact .of_perm h rfl rfl (Perm.refl _) (by simp)
    · rename_i j hj
      refine .of_perm h rfl rfl ?_ (by simp)
      rw [jobs, jobs, map_append]
      exact (perm_pass (perm_eraseIdx hj)).append_left _
  | finish i =>
    rw [step]
    split
    · exact .of_perm h rfl rfl (Perm.refl _) (by simp)
    · rename_i j hj
      refine .of_perm h rfl rfl ?_ (by simp)
      rw [jobs, jobs, map_append]
      exact ((perm_pass (perm_eraseIdx hj)).append_left _).append_left _
  | swapDone =>
    rw [step]
    split_ifs with hd
    · refine .of_perm h rfl rfl ?_ (by simp)
      rw [jobs, jobs, hd, map_nil, append_nil, nil_append]
    · exact .of_perm h rfl rfl (Perm.refl _) (by simp)
  | drainNext pick =>
    rw [step]
    split
    · exact .of_perm h rfl rfl (Perm.refl _) (by simp)
    · rename_i d ds hd
      have hp : s.jobs.Perm ((d.key, d.offset) :: jobs { s with draining := ds }) :=
        jobs_perm_drain hd
      have h1 := (drainDone_ok (s := { s with draining := ds }) (h.perm hp) rfl pick).1
      exact ⟨h1.inv, h1.returns, h1.account⟩
  | forget pick picks peer => exact (forget_ok h pick picks peer).1
  | expireLease pick flow => exact reclaimFlow_ok h pick flow _
  | pollDrain pick => exact .of_quiet_call h (pollDrain_effect pick _)
  | reapQuarantine pick =>
    have hq : ∀ x, (∃ d, s.scheduler.mQuarantined.find? x = some d ∧ d ≤ s.scheduler.now) →
        x ∈ s.scheduler.owns .quarantine := by
      rintro x ⟨d, hx, -⟩
      exact mem_of_find? hx
    refine .of_call h (reapQuarantine_effect pick h.owned) (fun x hx => h.owned.mem_live (hq x hx))
      (fun x hx => ?_) fun x hx => ?_
    · exact (ScatterInv.idle_of_owns h (fun _ => Owner.noConfusion) Owner.noConfusion (hq x hx)).1
    · exact (ScatterInv.idle_of_owns h (fun _ => Owner.noConfusion) Owner.noConfusion (hq x hx)).2
  | readClock =>
    have hsame : SameRegions s.scheduler s.scheduler.tick :=
      .of_flows ⟨rfl, rfl, rfl, rfl, rfl, rfl, rfl, rfl⟩ rfl rfl
    exact .of_quiet_call h (.of_same hsame (.done (Quiet.refl _)))
  | setNextSweep t => exact .of_perm h rfl rfl (Perm.refl _) (by simp)
  | acquireLocal pick bytes eager => exact acquireLocal_ok h pick bytes eager
  | promoteLocal offset => exact .of_quiet_call h (promoteLocal_effect _ offset)
  | releaseLocal pick offset =>
    refine .of_call h (releaseLocal_effect pick h.owned offset)
      (fun x hx => h.owned.mem_live (i := .sender) hx.2) (fun x hx => ?_) fun x hx => ?_
    · exact (ScatterInv.idle_of_owns h (o := .sender) (fun _ => Owner.noConfusion)
        Owner.noConfusion hx.2).1
    · exact (ScatterInv.idle_of_owns h (o := .sender) (fun _ => Owner.noConfusion)
        Owner.noConfusion hx.2).2

/-! ### Runs -/

/-- The jobs that an event may end: the one whose completion it drains, and the queued jobs
of the peer it forgets. -/
def Ends (s : BounceReceiver) : Event → Bytes × ℕ → Prop
  | .drainNext _, j => ∃ d ds, s.draining = d :: ds ∧ j = (d.key, d.offset)
  | .forget _ _ peer, j => ∃ q ∈ s.mJobs, q.peer = peer ∧ j = (q.key, q.offset)
  | _, _ => False

/-- A job stays until an event ends it. -/
lemma jobs_stay (h : s.Inv) (e : Event) {j : Bytes × ℕ} (hj : j ∈ s.jobs)
    (hgone : j ∉ (step s e).2.jobs) : s.Ends e j := by
  have hsame : ∀ s' : BounceReceiver, s.jobs.Perm s'.jobs → j ∈ s'.jobs :=
    fun s' hp => hp.mem_iff.mp hj
  cases e with
  | want pick peer rid chunkBytes ready =>
    rw [step, (onWant_ok h pick peer rid chunkBytes ready).2] at hgone
    exact absurd hj hgone
  | data peer rid chunkIdx regionHandle entries =>
    exact absurd ((onData_ok h peer rid chunkIdx regionHandle entries).2 j hj) hgone
  | dequeue =>
    rw [step] at hgone
    split at hgone
    · exact absurd hj hgone
    · rename_i q js hq
      refine absurd (hsame _ ?_) hgone
      rw [jobs, jobs, hq, map_append]
      exact perm_pass (Perm.refl _)
  | reply i ok =>
    rw [step] at hgone
    split at hgone
    · exact absurd hj hgone
    · rename_i q hq
      refine absurd (hsame _ ?_) hgone
      rw [jobs, jobs, map_append]
      exact (perm_pass (perm_eraseIdx hq)).append_left _
  | finish i =>
    rw [step] at hgone
    split at hgone
    · exact absurd hj hgone
    · rename_i q hq
      refine absurd (hsame _ ?_) hgone
      rw [jobs, jobs, map_append]
      exact ((perm_pass (perm_eraseIdx hq)).append_left _).append_left _
  | swapDone =>
    rw [step] at hgone
    split_ifs at hgone with hd
    · refine absurd (hsame _ ?_) hgone
      rw [jobs, jobs, hd, map_nil, append_nil, nil_append]
    · exact absurd hj hgone
  | drainNext pick =>
    rw [step] at hgone
    split at hgone
    · exact absurd hj hgone
    · rename_i d ds hd
      have hp : s.jobs.Perm ((d.key, d.offset) :: jobs { s with draining := ds }) :=
        jobs_perm_drain hd
      rw [(drainDone_ok (s := { s with draining := ds }) (h.perm hp) rfl pick).2] at hgone
      rcases mem_cons.mp (hp.mem_iff.mp hj) with rfl | hj'
      · exact ⟨d, ds, hd, rfl⟩
      · exact absurd hj' hgone
  | forget pick picks peer =>
    rw [step, (forget_ok h pick picks peer).2] at hgone
    rcases mem_append.mp ((jobs_perm_forget s peer).mem_iff.mp hj) with hj' | hj'
    · obtain ⟨q, hq, rfl⟩ := mem_map.mp hj'
      obtain ⟨hq1, hq2⟩ := mem_filter.mp hq
      exact ⟨q, hq1, of_decide_eq_true hq2, rfl⟩
    · exact absurd hj' hgone
  | expireLease | pollDrain | reapQuarantine | readClock | setNextSweep | acquireLocal
  | promoteLocal | releaseLocal => exact absurd hj hgone

/-- A new receiver satisfies the invariant. -/
lemma ctor_inv {cfg : BounceConfig} {deviceId : ℕ} {c : CreditScheduler}
    (hown : Owned c.live c.owns)
    (horph : ∀ x, x ∉ c.mOrphans) : (ctor cfg deviceId c).Inv := by
  refine ⟨hown, ?_, fun off => ?_, fun key off hj => ?_, fun off => ?_, nodup_nil, ?_⟩
  · simp [ctor, jobs]
  · simp [ctor, jobs]
  · simp [ctor, jobs] at hj
  · simp [ctor, horph]
  · simp

/-- **Scatter safety of the receiver.**  In every state that a new receiver reaches, by any
sequence of events:

* the region of a job that is queued, running or not yet drained is live, and it is held by
  the flow of the job while its flag is down and an orphan once it is up;
* no region has two such jobs;
* no event returns the region of such a job from `schedule` or `acquireLocal`, unless it is
  the event that drains the job, or `forget` removing it from the queue;
* every region that became an orphan has been given back exactly once, but for those that
  are orphans now, and without a job left there are none. -/
theorem receiver_scatter_safety {baseAddr arenaSizeBytes granularity maxInflight : ℕ}
    {clock : ℕ → ℤ} {c : CreditScheduler}
    (h₀ : CreditScheduler.ctor baseAddr arenaSizeBytes granularity maxInflight clock = some c)
    (cfg : BounceConfig) (deviceId : ℕ) (es : List Event) :
    let s := (Machine.run step (ctor cfg deviceId c) es).2
    let out := (Machine.run step (ctor cfg deviceId c) es).1
    (∀ key off, (key, off) ∈ s.jobs → off ∈ s.scheduler.live
        ∧ ((s.mScattering.find? off = some false ∧ s.scheduler.heldByFlow key off = true)
          ∨ (s.mScattering.find? off = some true ∧ off ∈ s.scheduler.mOrphans)))
      ∧ (s.jobs.map snd).Nodup
      ∧ (∀ e off, Returns (step s e).1 off → ∀ key, (key, off) ∈ s.jobs → s.Ends e (key, off))
      ∧ (∀ off, out.count (.orphaned off)
        = out.count (.orphanFreed off) + s.scheduler.mOrphans.ind off)
      ∧ (s.jobs = [] → ∀ off, off ∉ s.scheduler.mOrphans) := by
  have hnone : ∀ x, x ∉ c.mOrphans := by
    rw [CreditScheduler.ctor, Option.map_eq_some_iff] at h₀
    obtain ⟨arena, -, rfl⟩ := h₀
    exact fun x => not_mem_empty x
  have hrun := @Machine.run_induction _ _ _ step
    (fun out s => s.Inv ∧ ∀ off, out.count (.orphaned off)
      = out.count (.orphanFreed off) + s.scheduler.mOrphans.ind off) (ctor cfg deviceId c)
    ⟨ctor_inv (ctor_owned h₀).1 hnone, fun off => by simp [ctor, ind_of_not_mem (hnone off)]⟩
    (fun out s e hold => ?_) es
  · obtain ⟨hinv, hacc⟩ := hrun
    refine ⟨fun key off hj => ⟨hinv.job_live hj, hinv.owner hj⟩, hinv.nodup,
      fun e off hr key hj => ?_, hacc, fun hnil off hoff => ?_⟩
    · exact jobs_stay hinv e hj ((step_ok hinv e).returns off hr key)
    · rcases (hinv.orphan off).mp hoff with hf | hf
      · have := (hinv.scattering off).mp (mem_of_find? hf)
        rw [hnil] at this
        simp at this
      · simp at hf
  · obtain ⟨hinv, hacc⟩ := hold
    have hok := step_ok hinv e
    refine ⟨hok.inv, fun off => ?_⟩
    have h1 := hok.account off
    have h2 := hacc off
    rw [count_append, count_append]
    omega

/-- A cancel that arrives while a worker reads the region: the job is still there, the region
is an orphan and live. -/
theorem receiver_scatter_safety_cancel : ∃ c,
    CreditScheduler.ctor 4096 64 16 2 (fun n => n) = some c
      ∧ (let s := (Machine.run step (ctor ⟨64, 2, false, 100, 1000, 500⟩ 0 c)
          [.want (fun l => l.headD 0) [65] 0 [10] true, .data [65] 0 0 0 [], .dequeue,
            .want (fun l => l.headD 0) [65] 0 [] true]).2
        s.jobs = [([65, 31, 48], 0)] ∧ 0 ∈ s.scheduler.live) := by
  have heval : (CreditScheduler.ctor 4096 64 16 2 fun n => n).map (fun c =>
      (Machine.run step (ctor ⟨64, 2, false, 100, 1000, 500⟩ 0 c)
        [.want (fun l => l.headD 0) [65] 0 [10] true, .data [65] 0 0 0 [], .dequeue,
          .want (fun l => l.headD 0) [65] 0 [] true]).2.jobs) = some [([65, 31, 48], 0)] := by
            decide
  obtain ⟨c, h₀, hjobs⟩ := Option.map_eq_some_iff.mp heval
  refine ⟨c, h₀, hjobs, ((receiver_scatter_safety h₀ _ 0 _).1 [65, 31, 48] 0 ?_).1⟩
  rw [hjobs]
  exact mem_singleton_self _

end BounceReceiver

end TrtLlm
