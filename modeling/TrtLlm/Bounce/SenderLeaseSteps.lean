import TrtLlm.Bounce.SenderLeases

/-!
Every event of the sender on its leases.

* `step_leased`: **every event is a run of steps on leases**;
* `step_ctxsOk`: a chunk of the table has a context exactly during its gather.
-/

namespace TrtLlm.BounceSender

open List Function Option Multiset UMap Prod CreditScheduler

/-! ### Events on leases -/

/-- Every chunk of the table has a context exactly during its gather. -/
def CtxsOk (s : BounceSender) : Prop :=
  ∀ rid req, s.mRequests.find? rid = some req → ∀ p ∈ req.posted, CtxOk p

/-- An event that is a run of steps on leases. -/
def Leased (s : BounceSender) (r : List SenderOutput × BounceSender) : Prop :=
  LeaseRun (resources s) r.1 (resources r.2) ∧ Owned r.2.scheduler.live r.2.scheduler.owns

section Events

variable {s : BounceSender} {rid : ℕ}

/-- An event without labels that leaves all leases. -/
lemma Leased.same {r : List SenderOutput × BounceSender}
    (hown : Owning r.2) (hl : r.1.filterMap leaseLabel = [])
    (heq : resources r.2 = resources s) : Leased s r := by
  refine ⟨leaseRun_of_labels hl ?_, hown⟩
  rw [heq]
  exact .refl _

/-- An event after which one request is in the table with other chunks. -/
lemma Leased.set {o : List SenderOutput} {s' : BounceSender} {req : Request} (hown : Owning s')
    (ht : s'.mRequests = s.mRequests.set rid req)
    (hrun : LeaseRun (resources s) o
      (leases s' (tableLeases (s.mRequests.erase rid)) req.posted)) : Leased s (o, s') := by
  refine ⟨?_, hown⟩
  rw [resources_set ht]
  exact hrun

/-- An event after which one request has left the table. -/
lemma Leased.erase {o : List SenderOutput} {s' : BounceSender} (hown : Owning s')
    (ht : s'.mRequests = s.mRequests.erase rid)
    (hrun : LeaseRun (resources s) o (leases s' (tableLeases (s.mRequests.erase rid)) [])) :
    Leased s (o, s') := by
  have heq : resources s' = leases s' (tableLeases (s.mRequests.erase rid)) [] := by
    rw [resources, ht]
  refine ⟨?_, hown⟩
  rw [heq]
  exact hrun

section

variable (picks : ℕ → List ℕ → ℕ) (reason : BounceFailReason)

lemma failRequest_leased {req : Request} (hs : Owning s) (hc : CtxsOk s)
    (hr : s.mRequests.find? rid = some req) : Leased s (failRequest picks s rid req reason) := by
  obtain ⟨hrun, hown⟩ := orphanAll_leases picks rid req.posted (tableLeases (s.mRequests.erase rid))
    (hc rid req hr) hs
  have htab := (orphanAll_quiet picks rid req.posted s).1
  rw [← resources_find hr] at hrun
  simp only [failRequest]
  generalize (if req.abandonReason ≠ .kNone then req.abandonReason else reason) = r
  split_ifs
  · exact .erase hown (congrArg (UMap.erase · rid) htab)
      (leaseRun_of_labels (by simp [leaseLabel]) hrun)
  · exact .erase hown (congrArg (UMap.erase · rid) htab)
      (leaseRun_of_labels (by simp [leaseLabel]) hrun)

lemma failIf_leased (cond : Request → Bool) (hs : Owning s) (hc : CtxsOk s) :
    Leased s (failIf picks s rid reason cond) := by
  unfold failIf
  split
  · exact .same hs rfl rfl
  · rename_i req hr
    split_ifs
    · exact failRequest_leased picks reason hs hc hr
    · exact .same hs rfl rfl

end

lemma onAck_leased (pick : List ℕ → ℕ) (peer : Bytes) (k hd : ℕ) (hs : Owning s) (hc : CtxsOk s)
    (hlen : ∀ rid req, s.mRequests.find? rid = some req →
      req.acked + req.posted.length ≤ req.numChunks) :
    Leased s (onAck pick s peer rid k hd) := by
  rcases onAck_cases pick s peer rid k hd with he | ⟨req, i, p, hr, hp, -, -, -, hst, hcase⟩
  · rw [he]
    exact .same hs rfl rfl
  obtain ⟨l₁, l₂, hl, -, herase⟩ := exists_cut hp
  have hctx : p.ctx = none :=
    (hc rid req hr p (mem_of_getElem? hp)).none (by simp [hst]) (by simp [hst])
  obtain ⟨hrun, hown⟩ := leases_drop pick (tableLeases (s.mRequests.erase rid)) l₁ l₂ hctx
    (by simp [hst]) hs
  rw [← hl, ← resources_find hr] at hrun
  rcases hcase with ⟨hdone, he⟩ | ⟨-, he⟩
  · -- the last chunk: no other chunk of the request is posted
    have hcount := hlen rid req hr
    simp only [hl, length_append, length_cons] at hcount
    have hnil : l₁ ++ l₂ = [] := eq_nil_of_length_eq_zero (by rw [length_append]; omega)
    rw [hnil] at hrun
    rw [he]
    exact .erase hown rfl (leaseRun_of_labels (by simp [leaseLabel]) hrun)
  · rw [he]
    refine .set hown rfl ?_
    rw [herase]
    exact leaseRun_of_labels (by simp [leaseLabel]) hrun

lemma pump_leased (ch : PumpChoices) (hs : Owning s) : Leased s (pump ch s rid) := by
  unfold pump
  split
  · exact .same hs rfl rfl
  · rename_i req hr
    have hpass := pumpRequest_run ch s req
    obtain ⟨hrun, hown⟩ := hpass.leases (tableLeases (s.mRequests.erase rid)) hs
    rw [← resources_find hr] at hrun
    exact .set hown (congrArg (UMap.set · rid _) hpass.tables.mRequests) hrun

lemma onGrant_leased (ch : PumpChoices) (peer : Bytes) (credits : List BounceCreditEntry)
    (hs : Owning s) :
    Leased s (onGrant ch s peer rid credits) := by
  unfold onGrant
  split
  · exact .same hs rfl rfl
  · rename_i req hr
    split_ifs
    · have hpass :=
        pumpRequest_run ch s { req with pendingCredits := req.pendingCredits ++ credits }
      obtain ⟨hrun, hown⟩ := hpass.leases (tableLeases (s.mRequests.erase rid)) hs
      refine .set hown (congrArg (UMap.set · rid _) hpass.tables.mRequests) ?_
      rw [resources_find hr]
      exact hrun
    · exact .same hs rfl rfl

/-- A step of one posted chunk. -/
lemma onPosted_leased {i : ℕ} {f : Request → Posted → List SenderOutput × BounceSender}
    (hs : Owning s)
    (hf : ∀ req p, s.mRequests.find? rid = some req → req.posted[i]? = some p →
      Leased s (f req p)) : Leased s (onPosted s rid i f) := by
  unfold onPosted
  split
  · exact .same hs rfl rfl
  · rename_i req hr
    split
    · exact .same hs rfl rfl
    · rename_i p hp
      exact hf req p hr hp

/-- A step of one posted chunk changes its lease. -/
lemma Leased.posted {req req' : Request} {p q : Posted} {l : Lease ℕ ℕ} {i : ℕ}
    {o : List SenderOutput} {s' : BounceSender} (hq : leaseOf q = l)
    (hr : s.mRequests.find? rid = some req) (hp : req.posted[i]? = some p) (hown : Owning s')
    (ht : s'.mRequests = s.mRequests.set rid req') (hposted : req'.posted = req.posted.set i q)
    (horphans : s'.mOrphanLocal = s.mOrphanLocal ∧ s'.mOrphanGather = s.mOrphanGather)
    (ho : o.filterMap leaseLabel = []) (hstep : ∀ L, (resources s).leases = leaseOf p ::ₘ L →
      Leases.Step (resources s) [] { resources s' with leases := l ::ₘ L }) :
    Leased s (o, s') := by
  obtain ⟨l₁, l₂, hl, hset, -⟩ := exists_cut hp
  refine .set hown ht (leaseRun_of_labels ho (.single ?_))
  have hcut := leases_cut s (tableLeases (s.mRequests.erase rid)) l₁ l₂ p
  rw [← hl, ← resources_find hr] at hcut
  have heq : leases s' (tableLeases (s.mRequests.erase rid)) req'.posted
      = { resources s' with
          leases := l ::ₘ (leases s (tableLeases (s.mRequests.erase rid)) (l₁ ++ l₂)).leases } := by
    refine Leases.ext rfl ?_ rfl rfl rfl
    rw [hposted, hset, leases_cut, hq]
    simp only [leases, horphans]
  exact heq ▸ hstep _ hcut

lemma gatherReady_leased (i : ℕ) (hs : Owning s) : Leased s (gatherReady s rid i) := by
  refine onPosted_leased hs fun req p hr hp => ?_
  split
  · rename_i ctx hstate hctx
    split_ifs with hidle
    · exact .same hs rfl rfl
    · refine .posted (l := ⟨p.localOffset, none, false⟩) (by simp [leaseOf]) hr hp hs rfl rfl ⟨rfl,
        rfl⟩ rfl fun L hL => ?_
      rw [leaseOf_gathering hctx (.inl hstate)] at hL
      have hfree : ctx ::ₘ (resources s).free = (s.exec.mFree ++ [ctx] ++ s.lent : List ℕ) :=
        (coe_eq_coe.mpr
          ((perm_append_singleton ctx s.exec.mFree).append_right s.lent)).symm
      have hstep := Leases.Step.gathered hL hidle
      rw [hfree] at hstep
      exact hstep
  · exact .same hs rfl rfl

lemma postWrite_leased (i : ℕ) (ok : Bool) (hs : Owning s) (hc : CtxsOk s) :
    Leased s (postWrite s rid i ok) := by
  refine onPosted_leased hs fun req p hr hp => ?_
  by_cases hcond : p.state = .gathered ∧ p.hasCredit = true
  · rw [if_pos hcond]
    have hctx : p.ctx = none :=
      (hc rid req hr p (mem_of_getElem? hp)).none (by simp [hcond.1]) (by simp [hcond.1])
    have hlease : leaseOf p = ⟨p.localOffset, none, false⟩ := by simp [leaseOf, hctx, hcond.1]
    refine .posted (l := ⟨p.localOffset, none, ok⟩) ?_ hr hp hs rfl rfl ⟨rfl, rfl⟩ rfl
      fun L hL => Leases.Step.post ok (hlease ▸ hL)
    cases ok <;> simp [leaseOf, hctx]
  · rw [if_neg hcond]
    exact .same hs rfl rfl

lemma pollWrite_leased (i : ℕ) (hs : Owning s) (hc : CtxsOk s) : Leased s (pollWrite s rid i) := by
  refine onPosted_leased hs fun req p hr hp => ?_
  split_ifs with hcond
  · obtain ⟨hstate, hxfer, hidle⟩ := hcond
    have hctx : p.ctx = none :=
      (hc rid req hr p (mem_of_getElem? hp)).none (by simp [hstate]) (by simp [hstate])
    have hlease : leaseOf p = ⟨p.localOffset, none, true⟩ := by
      simp [leaseOf, hctx, hstate, hxfer]
    exact .posted (l := ⟨p.localOffset, none, false⟩) (by simp [leaseOf, hctx]) hr hp hs rfl rfl
      ⟨rfl, rfl⟩ rfl fun L hL => Leases.Step.landed (hlease ▸ hL) hidle
  · exact .same hs rfl rfl

lemma drainOrphanLocal_leased (pick : List ℕ → ℕ) (i : ℕ)
    (hs : Owning s) : Leased s (drainOrphanLocal pick s i) := by
  unfold drainOrphanLocal
  split
  · exact .same hs rfl rfl
  · rename_i o ho
    split_ifs with hbusy
    · exact .same hs rfl rfl
    · obtain ⟨l₁, l₂, hl, -, herase⟩ := exists_cut ho
      refine ⟨leaseRun_of_labels (labels_release ..) (.single ?_), (releaseLocal_held hs pick _).2⟩
      set s₁ : BounceSender := { s with mOrphanLocal := s.mOrphanLocal.eraseIdx i } with hs₁
      have hcut : (resources s).leases
          = ⟨o.offset, none, o.xfer.isSome⟩ ::ₘ (resources s₁).leases := by
        simp only [resources, leases, hs₁]
        rw [← cons_add, cons_coe]
        refine congrArg (· + tableLeases s.mRequests) (coe_eq_coe.mpr ?_)
        rw [herase, hl]
        simp only [map_nil, nil_append, map_append, List.map_cons, append_assoc, cons_append]
        exact perm_middle
      have hstep := Leases.Step.drop hcut fun hio hin => hbusy ⟨hio, hin⟩
      have hend : resources (release pick s₁ o.offset).2
          = { resources s with
              held := (resources s).held \ {o.offset}, leases := (resources s₁).leases } :=
        @leases_release pick s₁ o.offset (tableLeases s.mRequests) [] hs
      rw [hend]
      exact hstep

lemma drainOrphanGather_leased (pick : List ℕ → ℕ) (i : ℕ)
    (hs : Owning s) : Leased s (drainOrphanGather pick s i) := by
  unfold drainOrphanGather
  split
  · exact .same hs rfl rfl
  · rename_i o ho
    split_ifs with hbusy
    · exact .same hs rfl rfl
    · obtain ⟨l₁, l₂, hl, -, herase⟩ := exists_cut ho
      refine ⟨leaseRun_of_labels (labels_release ..) (.single ?_), (releaseLocal_held hs pick _).2⟩
      set s₁ : BounceSender := { s with
        mOrphanGather := s.mOrphanGather.eraseIdx i, exec := s.exec.release o.ctx } with hs₁
      have hcut : (resources s).leases
          = ⟨o.localOffset, some o.ctx, false⟩ ::ₘ (resources s₁).leases := by
        simp only [resources, leases, hs₁]
        rw [← cons_add, cons_coe]
        refine congrArg (· + tableLeases s.mRequests) (coe_eq_coe.mpr ?_)
        rw [herase, hl]
        simp only [map_nil, nil_append, map_append, List.map_cons]
        rw [← append_assoc, ← append_assoc]
        exact perm_middle
      have hfree : (resources s₁).free = o.ctx ::ₘ (resources s).free := by
        exact coe_eq_coe.mpr ((perm_append_singleton o.ctx s.exec.mFree).append_right _)
      have hstep := Leases.Step.dropGather hcut hbusy
      have heq := @leases_release pick s₁ o.localOffset (tableLeases s.mRequests) [] hs
      have hend : resources (release pick s₁ o.localOffset).2
          = { resources s with
              held := (resources s).held \ {o.localOffset}, leases := (resources s₁).leases
              free := o.ctx ::ₘ (resources s).free } := by
        rw [← hfree]
        exact heq
      rw [hend]
      exact hstep

/-- **Every event is a run of steps on leases.** -/
theorem step_leased (e : Event) (hs : Owning s) (hc : CtxsOk s)
    (hlen : ∀ rid req, s.mRequests.find? rid = some req →
      req.acked + req.posted.length ≤ req.numChunks) : Leased s (step s e) := by
  cases e with
  | submit srcDescs dstDescs peer =>
    simp only [step, submit]
    split
    · exact .same hs rfl rfl
    · split_ifs with hz hin
      · exact .same hs rfl rfl
      · exact .same hs rfl rfl
      · refine .set hs rfl (leaseRun_of_labels rfl ?_)
        have hsame : resources s = leases s (tableLeases (s.mRequests.erase s.mNextRid)) [] := by
          rw [UMap.erase_of_not_mem hin, resources]
        rw [hsame]
        exact .refl _
  | announce i =>
    simp only [step]
    split <;> exact .same hs rfl rfl
  | pump ch rid => exact pump_leased ch hs
  | grant ch peer rid credits => exact onGrant_leased ch peer credits hs
  | ack pick peer rid k hd => exact onAck_leased pick peer k hd hs hc hlen
  | nack picks peer rid =>
    simp only [step, onNack]
    split
    · exact .same hs rfl rfl
    · rename_i req hr
      split_ifs
      · exact failRequest_leased picks _ hs hc hr
      · exact .same hs rfl rfl
  | gatherReady rid i => exact gatherReady_leased i hs
  | postWrite rid i ok => exact postWrite_leased i ok hs hc
  | pollWrite rid i => exact pollWrite_leased i hs hc
  | gatherFailed picks rid i => exact failIf_leased picks _ _ hs hc
  | writeFailed picks rid i => exact failIf_leased picks _ _ hs hc
  | timeout picks rid => exact failIf_leased picks _ _ hs hc
  | forget picks peer rid => exact failIf_leased picks _ _ hs hc
  | orphanLocal pick i => exact drainOrphanLocal_leased pick i hs
  | pendingCancel rid =>
    simp only [step, drainPendingCancel]
    split
    · exact .same hs rfl rfl
    · split_ifs <;> exact .same hs rfl rfl
  | orphanGather pick i => exact drainOrphanGather_leased pick i hs
  | kernelEnds i =>
    exact ⟨.single (.ends (eraseIdx_sublist _ _) (Sublist.refl _)), hs⟩
  | writeEnds i =>
    exact ⟨.single (.ends (Sublist.refl _) (eraseIdx_sublist _ _)), hs⟩
  | tick t => exact .same hs rfl rfl
  | receiverCall pick c =>
    simp only [step]
    split_ifs with hl
    · exact .same hs rfl rfl
    · refine .same (call_owned pick hs c).1 (labels_grantsOut ..) ?_
      refine Leases.ext (Set.ext fun x => ?_) rfl rfl rfl rfl
      exact mem_localHeld_call hs pick (by simpa using hl) x
  | borrowCtx =>
    simp only [step]
    split
    · exact .same hs rfl rfl
    · rename_i ctx free hfree
      refine .same hs rfl (Leases.ext rfl rfl ?_ rfl rfl)
      simp only [resources, leases, hfree]
      refine coe_eq_coe.mpr ?_
      rw [← append_assoc]
      exact perm_append_singleton _ _
  | returnCtx i =>
    simp only [step]
    split
    · exact .same hs rfl rfl
    · rename_i ctx hctx
      refine .same hs rfl (Leases.ext rfl rfl ?_ rfl rfl)
      obtain ⟨l₁, l₂, hl, -, herase⟩ := exists_cut hctx
      simp only [resources, leases, ExecPool.release, herase]
      rw [hl]
      refine coe_eq_coe.mpr ?_
      rw [append_assoc, singleton_append]
      exact Perm.append_left _ perm_middle.symm

end Events

/-! ### Contexts of chunks -/

variable {o : List SenderOutput} {req req' : Request} {s s' : BounceSender}

lemma credit_ctxOk {p : Posted} (h : CtxOk p) (c : BounceCreditEntry) : CtxOk (credit p c) := h

/-- A move of a pump pass posts chunks in their gather. -/
lemma PumpMove.ctxOk (m : PumpMove s req o s' req') (h : ∀ p ∈ req.posted, CtxOk p) :
    ∀ p ∈ req'.posted, CtxOk p := by
  cases m with
  | clear | skip | abandon | rotate | overflow => exact h
  | @attach cr _ target _ _ _ hfound _ _ =>
    obtain ⟨l₁, l₂, hl, hcf, -⟩ := creditFirst_cut hfound cr
    intro p hp
    have hp : p ∈ creditFirst req.nextCredit cr req.posted := hp
    rw [hcf, mem_append, List.mem_cons] at hp
    rcases hp with hp | rfl | hp
    · exact h p (by simp [hl, hp])
    · exact credit_ctxOk (h target (by simp [hl])) cr
    · exact h p (by simp [hl, hp])
  | @stage ctx off _ _ _ ch hst _ =>
    have hnew : CtxOk (newPosted ch (takeCredit req) ctx off) := by
      simp [CtxOk, newPosted]
    intro p hp
    rcases mem_append.mp hp with hp | hp
    · exact h p hp
    · obtain rfl := List.mem_singleton.mp hp
      cases req.pendingCredits.head? with
      | none => exact hnew
      | some c => exact credit_ctxOk hnew c

lemma PumpRun.ctxOk (r : PumpRun s req o s' req') (h : ∀ p ∈ req.posted, CtxOk p) :
    ∀ p ∈ req'.posted, CtxOk p := by
  induction r with
  | refl => exact h
  | head m _ ih => exact ih (m.ctxOk h)

lemma ReqMove.ctxOk {rid : ℕ} (m : ReqMove s rid req o req') (h : ∀ p ∈ req.posted, CtxOk p) :
    ∀ p ∈ req'.posted, CtxOk p := by
  have hset : ∀ {i q}, CtxOk q → ∀ p ∈ req.posted.set i q, CtxOk p := by
    intro i q hq p hp
    rcases mem_or_eq_of_mem_set hp with hp | rfl
    · exact h p hp
    · exact hq
  cases m with
  | pump run => exact run.ctxOk h
  | grant _ run => exact run.ctxOk h
  | gathered => exact hset (by simp [CtxOk])
  | wrote xfer hp hst =>
    have hnone := (h _ (mem_of_getElem? hp)).none (by simp [hst]) (by simp [hst])
    exact hset (by simp [CtxOk, hnone])
  | sent hp hst =>
    have hnone := (h _ (mem_of_getElem? hp)).none (by simp [hst]) (by simp [hst])
    exact hset (by simp [CtxOk, hnone])
  | acked => exact fun p hp => h p (mem_of_mem_eraseIdx hp)

/-- Every event keeps the contexts with the chunks in their gather. -/
lemma step_ctxsOk (e : Event) (h : CtxsOk s) : CtxsOk (step s e).2 := by
  intro r q hq
  cases step_table s e with
  | same ht => exact h r q (ht ▸ hq)
  | refused ht => exact h r q (ht ▸ hq)
  | entered rid peer plan t _ _ _ _ ht =>
    rw [ht, find?_set] at hq
    split_ifs at hq with hrr
    · obtain rfl := some_inj.mp hq
      simp
    · exact h r q hq
  | moved rid req req' hr m ht =>
    rw [ht, find?_set] at hq
    split_ifs at hq with hrr
    · obtain rfl := some_inj.mp hq
      exact m.ctxOk (h rid req hr)
    · exact h r q hq
  | left rid req hr _ ht =>
    rw [ht, find?_erase] at hq
    split_ifs at hq
    exact h r q hq

end TrtLlm.BounceSender
