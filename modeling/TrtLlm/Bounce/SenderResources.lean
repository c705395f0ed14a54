import TrtLlm.Bounce.SenderLeaseSteps

/-!
Who has the staging regions and the exec contexts of the sender, in every run.

The sender is a machine on leases, so that the regions and the contexts are told apart by the
library of leases.

* `step_frees`: what an event gives back it does not have afterwards;
* `Conserved`: the leases that a run leaves, and what it has shown of them;
* `sender_resource_conservation`: **regions and contexts in every run** of a sender.
-/

namespace TrtLlm.BounceSender

open List Function Option Multiset UMap Prod CreditScheduler

variable {o : List SenderOutput} {req req' : Request} {s s' : BounceSender}

/-! ### Releases -/

/-- What an event gives back it does not have afterwards, and it ends nothing on the hardware. -/
def Frees (s : BounceSender) (r : List SenderOutput × BounceSender) : Prop :=
  ∀ off, .released off ∈ r.1 →
    off ∉ r.2.scheduler.mLocalHeld ∧ s.kernels ⊆ r.2.kernels ∧ s.writes ⊆ r.2.writes

lemma mem_release {pick : List ℕ → ℕ} {off off' : ℕ}
    (h : .released off' ∈ (release pick s off).1) : off' = off := by
  rcases List.mem_cons.mp h with h | h
  · exact (SenderOutput.released.inj h)
  · have := List.mem_filterMap.mpr ⟨_, h, (rfl : leaseLabel (.released off') = some _)⟩
    rw [labels_grantsOut] at this
    simp at this

lemma Frees.of_not_mem {r : List SenderOutput × BounceSender}
    (h : r.1.filterMap leaseLabel = []) : Frees s r := by
  intro off hoff
  have := List.mem_filterMap.mpr ⟨_, hoff, (rfl : leaseLabel (.released off) = some _)⟩
  rw [h] at this
  simp at this

/-- A move of a pump pass starts kernels and ends none; it gives a region back only when the
request is abandoned. -/
lemma PumpMove.frees (m : PumpMove s req o s' req') (hs : Owning s) : s.kernels ⊆ s'.kernels
      ∧ (req.abandonReason ≠ .kNone → req'.abandonReason ≠ .kNone
        ∧ (∀ x, x ∈ s'.scheduler.mLocalHeld ↔ x ∈ s.scheduler.mLocalHeld)
        ∧ ∀ off, .released off ∉ o)
      ∧ ∀ off, .released off ∈ o → req'.abandonReason ≠ .kNone
        ∧ off ∉ s'.scheduler.mLocalHeld := by
  cases m with
  | clear | skip => exact ⟨List.Subset.refl _, fun h => ⟨h, fun _ => Iff.rfl, by simp⟩, by simp⟩
  | attach ha => exact ⟨List.Subset.refl _, fun h => absurd ha h, by simp⟩
  | abandon ha => exact ⟨List.Subset.refl _, fun h => absurd ha h, by simp⟩
  | rotate _ hfull =>
    exact ⟨List.Subset.refl _, fun h => ⟨h, (acquireLocal_none hs hfull).1, by simp⟩, by simp⟩
  | @stage ctx off _ _ c ch hst _ =>
    refine ⟨fun k hk => ?_, fun h => absurd hst.alive h, fun off' hoff => ?_⟩
    · simp only [launch, staged]
      split_ifs
      · exact mem_append_left _ hk
      · exact hk
    · simp only [launch, tookCredit] at hoff
      split_ifs at hoff <;> simp at hoff
  | @overflow ctx off free _ c pickRelease hst _ =>
    obtain ⟨-, -, hown⟩ := acquireLocal_some hs hst.acquired
    refine ⟨List.Subset.refl _, fun h => absurd hst.alive h, fun off' hoff => ⟨by
      simp [BounceSender.abandon], ?_⟩⟩
    have hoff : .released off' ∈ (release pickRelease (staged s (free ++ [ctx]) c) off).1 := by
      simp only [List.mem_cons, mem_append, reduceCtorEq, false_or, not_mem_nil,
        or_false, tookCredit] at hoff
      split_ifs at hoff <;> simpa using hoff
    obtain rfl := mem_release hoff
    intro hin
    exact ((releaseLocal_held hown pickRelease _).1 _).mp hin |>.2 rfl

lemma PumpRun.frees (r : PumpRun s req o s' req') (hs : Owning s) : s.kernels ⊆ s'.kernels
      ∧ (req.abandonReason ≠ .kNone → (∀ x, x ∈ s'.scheduler.mLocalHeld
        ↔ x ∈ s.scheduler.mLocalHeld) ∧ ∀ off, .released off ∉ o)
      ∧ ∀ off, .released off ∈ o → off ∉ s'.scheduler.mLocalHeld := by
  induction r with
  | refl => exact ⟨List.Subset.refl _, fun _ => ⟨fun _ => Iff.rfl, by simp⟩, by simp⟩
  | head m _ ih =>
    obtain ⟨hk, hdead, hrel⟩ := m.frees hs
    obtain ⟨ihk, ihdead, ihrel⟩ := ih (m.leases 0 hs).2
    refine ⟨List.Subset.trans hk ihk, fun ha => ?_, fun off hoff => ?_⟩
    · obtain ⟨ha', hsame, hnot⟩ := hdead ha
      obtain ⟨hsame', hnot'⟩ := ihdead ha'
      refine ⟨fun x => (hsame' x).trans (hsame x), fun off hoff => ?_⟩
      rcases mem_append.mp hoff with h | h
      · exact hnot off h
      · exact hnot' off h
    · rcases mem_append.mp hoff with h | h
      · obtain ⟨ha', hgone⟩ := hrel off h
        exact fun hin => hgone (((ihdead ha').1 off).mp hin)
      · exact ihrel off h

/-- The chunks of a failed request: regions are given back, and the hardware goes on. -/
lemma orphanAll_frees (picks : ℕ → List ℕ → ℕ) (rid : ℕ) (ps : List Posted) (hs : Owning s)
    (hps : ∀ p ∈ ps, CtxOk p) : (orphanAll picks rid ps s).2.kernels = s.kernels
      ∧ (orphanAll picks rid ps s).2.writes = s.writes
      ∧ (∀ x ∈ (orphanAll picks rid ps s).2.scheduler.mLocalHeld, x ∈ s.scheduler.mLocalHeld)
      ∧ ∀ off, .released off ∈ (orphanAll picks rid ps s).1 →
        off ∉ (orphanAll picks rid ps s).2.scheduler.mLocalHeld := by
  induction ps generalizing s with
  | nil => exact ⟨rfl, rfl, fun _ h => h, by simp [orphanAll]⟩
  | cons p ps ih =>
    have hone : (orphan (picks ps.length) rid s p).2.kernels = s.kernels
        ∧ (orphan (picks ps.length) rid s p).2.writes = s.writes
        ∧ (∀ x ∈ (orphan (picks ps.length) rid s p).2.scheduler.mLocalHeld,
          x ∈ s.scheduler.mLocalHeld)
        ∧ ∀ off, .released off ∈ (orphan (picks ps.length) rid s p).1 →
          off ∉ (orphan (picks ps.length) rid s p).2.scheduler.mLocalHeld := by
      unfold orphan
      split_ifs
      · exact ⟨rfl, rfl, fun _ h => h, by simp⟩
      · split
        · exact ⟨rfl, rfl, fun _ h => h, by simp⟩
        · have hheld := (releaseLocal_held hs (picks ps.length) p.localOffset).1
          refine ⟨rfl, rfl, fun x hx => ((hheld x).mp hx).1, fun off hoff hin => ?_⟩
          obtain rfl := mem_release hoff
          exact ((hheld _).mp hin).2 rfl
    obtain ⟨h1, h2, h3, h4⟩ := hone
    have hown := (orphan_leases (picks ps.length) rid ps 0 (hps p (List.mem_cons_self ..)) hs).2
    obtain ⟨i1, i2, i3, i4⟩ := ih hown fun q hq => hps q (List.mem_cons_of_mem _ hq)
    refine ⟨i1.trans h1, i2.trans h2, fun x hx => h3 x (i3 x hx), fun off hoff => ?_⟩
    rcases mem_append.mp hoff with h | h
    · exact fun hin => h4 off h (i3 off hin)
    · exact i4 off h

section Frees

variable {s : BounceSender} {rid : ℕ}

section

variable (picks : ℕ → List ℕ → ℕ) (reason : BounceFailReason)

lemma failRequest_frees {req : Request} (hs : Owning s) (hps : ∀ p ∈ req.posted, CtxOk p) :
    Frees s (failRequest picks s rid req reason) := by
  obtain ⟨hk, hw, -, hrel⟩ := orphanAll_frees picks rid req.posted hs hps
  simp only [failRequest]
  generalize (if req.abandonReason ≠ .kNone then req.abandonReason else reason) = r
  split_ifs <;> intro off hoff <;>
    · have hoff : .released off ∈ (orphanAll picks rid req.posted s).1 := by simpa using hoff
      exact ⟨hrel off hoff, hk ▸ List.Subset.refl _, hw ▸ List.Subset.refl _⟩

lemma failIf_frees (cond : Request → Bool) (hs : Owning s) (hc : CtxsOk s) :
    Frees s (failIf picks s rid reason cond) := by
  unfold failIf
  split
  · exact .of_not_mem rfl
  · rename_i req hr
    split_ifs
    · exact failRequest_frees picks reason hs (hc rid req hr)
    · exact .of_not_mem rfl

end

lemma release_frees (pick : List ℕ → ℕ) {s₁ : BounceSender} {off : ℕ}
    (hs : Owning s₁) (hk : s₁.kernels = s.kernels)
    (hw : s₁.writes = s.writes) : Frees s (release pick s₁ off) := by
  intro x hx
  obtain rfl := mem_release hx
  refine ⟨fun hin => (((releaseLocal_held hs pick _).1 _).mp hin).2 rfl, ?_, ?_⟩
  · exact hk ▸ List.Subset.refl _
  · exact hw ▸ List.Subset.refl _

/-- Further outputs without a release, and another table. -/
lemma Frees.concat {r : List SenderOutput × BounceSender} (h : Frees s r) {o : List SenderOutput}
    (ho : o.filterMap leaseLabel = []) (m : UMap ℕ Request) :
    Frees s (r.1 ++ o, { r.2 with mRequests := m }) := by
  intro x hx
  rcases mem_append.mp hx with hx | hx
  · exact h x hx
  · exact Frees.of_not_mem (s := s) (r := (o, r.2)) ho x hx

lemma onPosted_frees {i : ℕ} {f : Request → Posted → List SenderOutput × BounceSender}
    (hf : ∀ req p, Frees s (f req p)) : Frees s (onPosted s rid i f) := by
  unfold onPosted
  split
  · exact .of_not_mem rfl
  · split
    · exact .of_not_mem rfl
    · exact hf _ _

/-- Every event has given up what it gives back. -/
lemma step_frees (e : Event) (hs : Owning s) (hc : CtxsOk s) : Frees s (step s e) := by
  have hpump : ∀ {req req' : Request} {o : List SenderOutput} {s₁ : BounceSender} {m},
      PumpRun s req o s₁ req' → Frees s (o, { s₁ with mRequests := m }) := by
    intro req req' o s₁ m hrun off hoff
    obtain ⟨hk, -, hrel⟩ := hrun.frees hs
    exact ⟨hrel off hoff, hk, hrun.tables.writes ▸ List.Subset.refl _⟩
  cases e with
  | submit srcDescs dstDescs peer =>
    simp only [step, submit]
    split
    · exact .of_not_mem rfl
    · split_ifs <;> exact .of_not_mem rfl
  | announce | borrowCtx | returnCtx =>
    simp only [step]
    split <;> exact .of_not_mem rfl
  | pump ch rid =>
    simp only [step, pump]
    split
    · exact .of_not_mem rfl
    · exact hpump (pumpRequest_run ch s _)
  | grant ch peer rid credits =>
    simp only [step, onGrant]
    split
    · exact .of_not_mem rfl
    · rename_i req hr
      split_ifs
      · intro off hoff
        exact hpump (pumpRequest_run ch s
          { req with pendingCredits := req.pendingCredits ++ credits }) off (by simpa using hoff)
      · exact .of_not_mem rfl
  | ack pick peer rid k hd =>
    rcases onAck_cases pick s peer rid k hd with
      he | ⟨req, i, p, -, -, -, -, -, -, ⟨-, he⟩ | ⟨-, he⟩⟩ <;> rw [step, he]
    · exact .of_not_mem rfl
    · exact (release_frees pick hs rfl rfl).concat rfl _
    · exact (release_frees pick hs rfl rfl).concat rfl _
  | nack picks peer rid =>
    simp only [step, onNack]
    split
    · exact .of_not_mem rfl
    · rename_i req hr
      split_ifs
      · exact failRequest_frees picks _ hs (hc rid req hr)
      · exact .of_not_mem rfl
  | gatherReady rid i =>
    refine onPosted_frees fun req p => ?_
    split
    · split_ifs <;> exact .of_not_mem rfl
    · exact .of_not_mem rfl
  | postWrite rid i ok =>
    refine onPosted_frees fun req p => ?_
    split_ifs <;> exact .of_not_mem rfl
  | pollWrite rid i =>
    refine onPosted_frees fun req p => ?_
    split_ifs <;> exact .of_not_mem rfl
  | gatherFailed picks rid i => exact failIf_frees picks _ _ hs hc
  | writeFailed picks rid i => exact failIf_frees picks _ _ hs hc
  | timeout picks rid => exact failIf_frees picks _ _ hs hc
  | forget picks peer rid => exact failIf_frees picks _ _ hs hc
  | orphanLocal pick i =>
    simp only [step, drainOrphanLocal]
    split
    · exact .of_not_mem rfl
    · split_ifs
      · exact .of_not_mem rfl
      · exact release_frees pick hs rfl rfl
  | pendingCancel rid =>
    simp only [step, drainPendingCancel]
    split
    · exact .of_not_mem rfl
    · split_ifs <;> exact .of_not_mem rfl
  | orphanGather pick i =>
    simp only [step, drainOrphanGather]
    split
    · exact .of_not_mem rfl
    · split_ifs
      · exact .of_not_mem rfl
      · exact release_frees pick hs rfl rfl
  | kernelEnds | writeEnds | tick => exact .of_not_mem rfl
  | receiverCall pick c =>
    simp only [step]
    split_ifs
    · exact .of_not_mem rfl
    · exact .of_not_mem (labels_grantsOut ..)

end Frees

/-! ### Runs -/

/-- What holds of the regions and contexts of a sender with `count` contexts. -/
structure Conserved (count : ℕ) (out : List SenderOutput) (s : BounceSender) : Prop where
  owned : Owned s.scheduler.live s.scheduler.owns
  ctxs : CtxsOk s
  leases : Leases.Ok (Multiset.range count) (resources s)
  balance : ∀ off, out.count (.acquired off)
    = out.count (.released off) + Leases.inUse (resources s).held off

/-- The labels of outputs count what the outputs count. -/
lemma count_label (out : List SenderOutput) (off : ℕ) :
    (out.filterMap leaseLabel).count (.acquired off) = out.count (.acquired off)
      ∧ (out.filterMap leaseLabel).count (.released off) = out.count (.released off) := by
  induction out with
  | nil => exact ⟨rfl, rfl⟩
  | cons x out ih =>
    cases x <;> simp [leaseLabel, List.count_cons, List.filterMap_cons, ih]

/-- Any number of steps on leases keeps them, and the balance. -/
lemma leaseRun_ok {S S' : Leases ℕ ℕ} {o : List SenderOutput} {all : Multiset ℕ}
    (h : LeaseRun S o S') (hok : Leases.Ok all S) :
    Leases.Ok all S' ∧ ∀ off, o.count (.acquired off) + Leases.inUse S.held off
      = o.count (.released off) + Leases.inUse S'.held off := by
  have hstart : Leases.Ok all S ∧ ∀ off, ([] : List (LeaseLabel ℕ)).count (.acquired off)
      + Leases.inUse S.held off = ([] : List (LeaseLabel ℕ)).count (.released off)
        + Leases.inUse S.held off := ⟨hok, fun _ => rfl⟩
  have key := h.invariant
    (J := fun ls T => Leases.Ok all T ∧ ∀ off, ls.count (.acquired off) + Leases.inUse S.held off
      = ls.count (.released off) + Leases.inUse T.held off)
    (fun {ls T o T'} hj m => ⟨m.ok hj.1, fun off => ?_⟩) hstart
  · rw [nil_append] at key
    refine ⟨key.1, fun off => ?_⟩
    rw [← (count_label o off).1, ← (count_label o off).2]
    exact key.2 off
  · have h1 := hj.2 off
    have h2 := m.balance hj.1 off
    rw [count_append, count_append]
    omega

/-- **Every event conserves regions and contexts.** -/
theorem step_conserved {count : ℕ} {out : List SenderOutput} {s : BounceSender} (e : Event)
    (hc : Completion out s) (h : Conserved count out s) :
    Conserved count (out ++ (step s e).1) (step s e).2 := by
  have hlen : ∀ rid req, s.mRequests.find? rid = some req →
      req.acked + req.posted.length ≤ req.numChunks := fun rid req hr =>
    (hc.live rid req hr).posted_len.trans_le (hc.live rid req hr).post_le
  obtain ⟨hrun, hown⟩ := step_leased e h.owned h.ctxs hlen
  obtain ⟨hok, hbal⟩ := leaseRun_ok hrun h.leases
  refine ⟨hown, step_ctxsOk e h.ctxs, hok, fun off => ?_⟩
  have h1 := h.balance off
  have h2 := hbal off
  rw [count_append, count_append]
  omega

section

variable (s : BounceSender)

/-- The staging regions of the posted chunks and of the orphans. -/
def stagingRegions : List ℕ :=
  (s.mRequests.entries.flatMap fun e => e.2.posted.map Posted.localOffset)
    ++ s.mOrphanLocal.map OrphanLocal.offset ++ s.mOrphanGather.map OrphanGather.localOffset

/-- The exec contexts of the posted chunks and of the orphans. -/
def heldContexts : List ℕ :=
  (s.mRequests.entries.flatMap fun e => e.2.posted.filterMap Posted.ctx)
    ++ s.mOrphanGather.map OrphanGather.ctx

lemma map_region_leases :
    (resources s).leases.map Lease.region = (stagingRegions s : Multiset ℕ) := by
  simp only [resources, leases, tableLeases, stagingRegions, Multiset.map_coe,
    map_append, map_nil, nil_append, map_flatMap, List.map_map, coe_add]
  refine coe_eq_coe.mpr (perm_append_comm.trans ?_)
  rw [append_assoc]
  exact Perm.refl _

lemma filterMap_ctx_leases :
    (resources s).leases.filterMap Lease.ctx = (heldContexts s : Multiset ℕ) := by
  have hlocal : ∀ l : List OrphanLocal, (l.map leaseLocal).filterMap Lease.ctx = [] := fun l => by
    simp [List.filterMap_map, leaseLocal, comp_def]
  have hgather : ∀ l : List OrphanGather,
      (l.map leaseGather).filterMap Lease.ctx = l.map OrphanGather.ctx := fun l => by
    simp [List.filterMap_map, leaseGather, comp_def]
  have hposted : ∀ l : List Posted,
      (l.map leaseOf).filterMap Lease.ctx = l.filterMap Posted.ctx := fun l => by
    simp [List.filterMap_map, leaseOf, comp_def]
  simp only [resources, leases, tableLeases, heldContexts, coe_add, filterMap_coe,
    filterMap_append, map_nil, nil_append, filterMap_flatMap,
    hlocal, hgather, hposted]
  exact coe_eq_coe.mpr perm_append_comm

end

/-- **Resource conservation.**  In every run of a sender on a new scheduler: the regions that the
scheduler holds for it are those of the posted chunks and of the orphans, each once; every exec
context is free, lent to a scatter worker, or belongs to one chunk in its gather or to one orphan;
an event gives a region back only when no gather kernel and no write touches it; and a region is
given back as often as it was acquired, less the time that it is held. -/
theorem sender_resource_conservation {baseAddr arenaSizeBytes granularity maxInflight : ℕ}
    {clock : ℕ → ℤ} {scheduler : CreditScheduler}
    (h₀ : CreditScheduler.ctor baseAddr arenaSizeBytes granularity maxInflight clock
      = some scheduler)
    (cfg : BounceConfig) (deviceId : ℕ) (endpoint : Bytes) (count maxDescs : ℕ)
    (es : List Event) :
    let out := (Machine.run step (ctor cfg deviceId endpoint scheduler (.ctor count maxDescs)) es).1
    let s := (Machine.run step (ctor cfg deviceId endpoint scheduler (.ctor count maxDescs)) es).2
    (stagingRegions s).Nodup
    ∧ (∀ off, off ∈ stagingRegions s ↔ off ∈ s.scheduler.mLocalHeld)
    ∧ (s.exec.mFree ++ s.lent ++ heldContexts s).Perm (List.range count)
    ∧ (∀ rid req, s.mRequests.find? rid = some req → ∀ p ∈ req.posted,
        (p.ctx.isSome = true ↔ p.state = .gathering ∨ p.state = .gatherFailed))
    ∧ (∀ e off, .released off ∈ (step s e).1 →
        (off ∉ s.kernels.map snd ∧ off ∉ s.writes)
        ∧ off ∉ (step s e).2.kernels.map snd ∧ off ∉ (step s e).2.writes)
    ∧ (∀ off, out.count (.acquired off)
        = out.count (.released off) + if off ∈ s.scheduler.mLocalHeld then 1 else 0) := by
  intro out s
  have hstart :
      Conserved count [] (ctor cfg deviceId endpoint scheduler (.ctor count maxDescs)) := by
    obtain ⟨hown, -⟩ := ctor_owned h₀
    have hnone : ∀ x, x ∉ scheduler.mLocalHeld := by
      rw [CreditScheduler.ctor, map_eq_some_iff] at h₀
      obtain ⟨arena, -, rfl⟩ := h₀
      simp
    have hempty : tableLeases ∅ = 0 := rfl
    have hfree : ∀ off, off ∉ (resources
        (ctor cfg deviceId endpoint scheduler (.ctor count maxDescs))).held := hnone
    refine ⟨hown, fun rid req hr => by simp [ctor] at hr, ⟨?_, fun x => ?_, ?_, ?_, ?_⟩,
      fun off => ?_⟩
    · simp [hempty, resources, leases, ctor]
    · simp [hempty, resources, leases, ctor, hnone]
    · simp [hempty, resources, leases, ctor, ExecPool.ctor, Multiset.range]
    · simp [resources, leases, ctor]
    · simp [resources, leases, ctor]
    · rw [Leases.inUse_of_not_mem (hfree off)]
      rfl
  have hstep : ∀ out s e, Completion out s ∧ Conserved count out s →
      Completion (out ++ (step s e).1) (step s e).2
        ∧ Conserved count (out ++ (step s e).1) (step s e).2 :=
    fun out s e h => ⟨step_completion e h.1, step_conserved e h.1 h.2⟩
  obtain ⟨hcomp, h⟩ : Completion out s ∧ Conserved count out s :=
    Machine.run_induction (J := fun out s => Completion out s ∧ Conserved count out s)
      ⟨ctor_completion _ _ _ _ _, hstart⟩ hstep es
  refine ⟨?_, fun off => ?_, ?_, h.ctxs, fun e off hoff => ?_, fun off => ?_⟩
  · have hnodup := h.leases.nodup
    rw [map_region_leases, coe_nodup] at hnodup
    exact hnodup
  · have hheld := h.leases.held off
    rw [← mem_coe, ← map_region_leases, Multiset.mem_map]
    exact hheld.symm
  · have hctx := h.leases.contexts
    rw [filterMap_ctx_leases] at hctx
    exact coe_eq_coe.mp hctx
  · obtain ⟨hgone, hk, hw⟩ := step_frees e h.owned h.ctxs off hoff
    obtain ⟨h1, h2⟩ := (step_conserved e hcomp h).leases.idle_of_not_held hgone
    exact ⟨⟨fun hin => h1 (map_subset _ hk hin), fun hin => h2 (hw hin)⟩, h1, h2⟩
  · rw [h.balance off]
    split_ifs with hin
    · rw [Leases.inUse_of_mem (show off ∈ (resources s).held from hin)]
    · rw [Leases.inUse_of_not_mem (show off ∉ (resources s).held from hin)]

/-- One request of one chunk, whose gather is launched before its credit arrives. -/
def eagerStart : List Event :=
  [.submit [⟨100, 16, 0⟩] [⟨200, 16, 0⟩] [1],
    .pump ⟨fun _ l => l.headD 0, fun _ l => l.headD 0, fun _ => true, fun _ => true⟩ 1]

/-- A sender that has staged a chunk: its region is the one that the scheduler holds. -/
theorem sender_resource_conservation_eagerStart : ∃ scheduler,
    CreditScheduler.ctor 4096 64 16 2 (fun n => n) = some scheduler
    ∧ stagingRegions (Machine.run step (ctor ⟨64, 2, true, 0, 0, 0⟩ 0 [7] scheduler (.ctor 1 1024))
        eagerStart).2 = [0]
    ∧ 0 ∈ (Machine.run step (ctor ⟨64, 2, true, 0, 0, 0⟩ 0 [7] scheduler (.ctor 1 1024))
        eagerStart).2.scheduler.mLocalHeld := by
  have heval : (CreditScheduler.ctor 4096 64 16 2 fun n => n).map (fun scheduler =>
      stagingRegions (Machine.run step (ctor ⟨64, 2, true, 0, 0, 0⟩ 0 [7] scheduler (.ctor 1 1024))
        eagerStart).2) = some [0] := by decide +kernel
  obtain ⟨scheduler, h₀, hstaged⟩ := map_eq_some_iff.mp heval
  obtain ⟨-, hheld, -⟩ :=
    sender_resource_conservation h₀ ⟨64, 2, true, 0, 0, 0⟩ 0 [7] 1 1024 eagerStart
  refine ⟨scheduler, h₀, hstaged, (hheld 0).mp ?_⟩
  rw [hstaged]
  exact List.mem_singleton.mpr rfl

end TrtLlm.BounceSender
