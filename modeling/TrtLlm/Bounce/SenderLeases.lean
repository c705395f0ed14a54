import TrtLlm.Util.Lease
import TrtLlm.Bounce.SenderCompletion

/-!
The staging regions and the exec contexts of the sender, as leases.

A posted chunk and an orphan each have a lease on a region of the local arena: with the exec
context of the gather that may still fill it, or as the source of a write that the NIC may still
read.

* `CreditScheduler.mem_localHeld_call` and its like: what the calls of the shared scheduler do
  to `mLocalHeld`;
* `leases`: the leases of a sender, seen with the posted chunks of one request apart;
* `PumpMove.leases`, `orphanAll_leases`: a pump pass and the end of a request are runs of steps
  on leases.
-/

namespace TrtLlm

open List Function Option Multiset UMap Prod

/-! ### The regions of the local sender in the scheduler -/

namespace CreditScheduler

variable {c c' : CreditScheduler} {pick : List ℕ → ℕ} {off bytes : ℕ} {eager : Bool}

variable (hs : Owned c.live c.owns)
include hs

/-- A region that `acquireLocal` returns is new to the local sender. -/
lemma acquireLocal_some (h : acquireLocal pick c bytes eager = (some off, c')) :
    off ∉ c.mLocalHeld ∧ (∀ x, x ∈ c'.mLocalHeld ↔ x = off ∨ x ∈ c.mLocalHeld)
      ∧ Owned c'.live c'.owns := by
  rcases acquireLocal_spec pick c bytes eager with ⟨hn, -⟩ | ⟨off', hsome, hacq, -⟩
  · rw [h] at hn
    cases hn
  · rw [h] at hsome hacq
    obtain rfl := some_inj.mp hsome
    refine ⟨fun hin => hacq.fresh (hs.mem_live (i := .sender) hin), fun x => ?_, hacq.owned hs⟩
    have := hacq.owns .sender x
    simpa [owns] using this

/-- If there is no region, the local sender has what it had. -/
lemma acquireLocal_none (h : acquireLocal pick c bytes eager = (none, c')) :
    (∀ x, x ∈ c'.mLocalHeld ↔ x ∈ c.mLocalHeld) ∧ Owned c'.live c'.owns := by
  rcases acquireLocal_spec pick c bytes eager with ⟨-, hre⟩ | ⟨off', hsome, -, -⟩
  · rw [h] at hre
    refine ⟨fun x => ?_, hre.owned (Set.empty_subset _) hs⟩
    have := hre.owns .sender x
    simpa [owns] using this
  · rw [h] at hsome
    cases hsome

lemma promoteLocal_held (off : ℕ) : (c.promoteLocal off).mLocalHeld = c.mLocalHeld
      ∧ Owned (c.promoteLocal off).live (c.promoteLocal off).owns := by
  refine ⟨?_, (promoteLocal_effect c off).owned (Set.empty_subset _) hs⟩
  rw [promoteLocal]
  split <;> rfl

/-- `releaseLocal` takes the region from the local sender. -/
lemma releaseLocal_held (pick : List ℕ → ℕ) (off : ℕ) :
    (∀ x, x ∈ (releaseLocal pick c off).2.mLocalHeld ↔ x ∈ c.mLocalHeld ∧ x ≠ off)
      ∧ Owned (releaseLocal pick c off).2.live (releaseLocal pick c off).2.owns := by
  have heff := releaseLocal_effect pick hs off
  refine ⟨fun x => ?_, heff.owned (fun x hx => hs.mem_live (i := .sender) hx.2) hs⟩
  have := heff.mem_owns_of_ne_flow (o := .sender) (by simp) x
  simp only [owns, Set.mem_ofPred_eq, reduceCtorEq, and_false, false_or] at this
  rw [this]
  tauto

/-- A call that takes no region from the local sender and none for it. -/
lemma Effect.localHeld {gs : List Grant} {H : Set ℕ} {dst : ℕ → Option Owner}
    (h : Effect c gs c' H dst)
    (hH : ∀ x ∈ H, ∃ o, o ≠ .sender ∧ x ∈ c.owns o) (hd : ∀ x, dst x ≠ some .sender) (x : ℕ) :
    x ∈ c'.mLocalHeld ↔ x ∈ c.mLocalHeld := by
  have hiff := h.mem_owns_of_ne_flow (o := .sender) (by simp) x
  have hnot : x ∈ c.mLocalHeld → x ∉ H := by
    intro hx hxH
    obtain ⟨o, ho, hxo⟩ := hH x hxH
    exact ho (hs.eq_of_mem hxo (j := .sender) hx)
  simp only [owns, Set.mem_ofPred_eq, hd, and_false, false_or] at hiff
  rw [hiff]
  exact ⟨fun hx => hx.2, fun hx => ⟨hnot hx, hx⟩⟩

/-- The calls of the receiver leave the regions of the local sender. -/
lemma mem_localHeld_call (pick : List ℕ → ℕ) {k : Call}
    (hk : BounceSender.isLocalCall k = false) (x : ℕ) :
    x ∈ (call pick c k).2.mLocalHeld ↔ x ∈ c.mLocalHeld := by
  have hflow : ∀ {H : Set ℕ}, (∀ y ∈ H, ∃ key, c.heldByFlow key y = true) →
      ∀ y ∈ H, ∃ o, o ≠ Owner.sender ∧ y ∈ c.owns o := by
    intro H hH y hy
    obtain ⟨key, hkey⟩ := hH y hy
    exact ⟨.flow key, by simp, hkey⟩
  have hnone : ∀ y : ℕ, (fun _ : ℕ => (none : Option Owner)) y ≠ some .sender := by simp
  cases k with
  | onWant flow chunkBytes =>
    exact (onWant_effect pick c flow chunkBytes).localHeld hs (by simp) hnone x
  | onScatterDone flow offset =>
    exact (onScatterDone_effect pick hs flow offset).localHeld hs
      (hflow fun y hy => ⟨flow, hy.2⟩) hnone x
  | reclaimByPrefix pfx busy quarantineFor =>
    by_cases hpfx : pfx = []
    · simp [call, reclaimByPrefix, hpfx]
    · exact (reclaimByPrefix_effect pick hs hpfx busy quarantineFor).1.localHeld hs
        (hflow fun y hy => hy.imp fun _ h => h.2) (reclaimDst_ne_sender busy quarantineFor) x
  | reclaimFlow flow busy quarantineFor =>
    exact (reclaimFlow_effect pick hs flow busy quarantineFor).1.localHeld hs
      (hflow fun y hy => ⟨flow, hy⟩) (reclaimDst_ne_sender busy quarantineFor) x
  | freeOrphanRegion offset =>
    exact (freeOrphanRegion_effect pick hs offset).localHeld hs
      (fun y hy => ⟨.orphans, by simp, hy.2⟩) hnone x
  | reapQuarantine =>
    refine (reapQuarantine_effect pick hs).localHeld hs (fun y hy => ?_) hnone x
    obtain ⟨d, hd, -⟩ := hy
    exact ⟨.quarantine, by simp, mem_of_find? hd⟩
  | pollDrain => exact (pollDrain_effect pick c).localHeld hs (by simp) hnone x
  | staleFlows | setDrainTimeout => rfl
  | acquireLocal | promoteLocal | releaseLocal => simp [BounceSender.isLocalCall] at hk

end CreditScheduler

namespace BounceSender

open CreditScheduler

/-! ### Leases -/

/-- Every region of the scheduler has an owner. -/
abbrev Owning (s : BounceSender) : Prop := Owned s.scheduler.live s.scheduler.owns

/-- The lease of a posted chunk. -/
def leaseOf (p : Posted) : Lease ℕ ℕ :=
  ⟨p.localOffset, p.ctx, decide (p.state = .writing) && p.xfer.isSome⟩

/-- The lease of a write that outlives its request. -/
def leaseLocal (o : OrphanLocal) : Lease ℕ ℕ := ⟨o.offset, none, o.xfer.isSome⟩

/-- The lease of a gather that outlives its request. -/
def leaseGather (o : OrphanGather) : Lease ℕ ℕ := ⟨o.localOffset, some o.ctx, false⟩

/-- The leases of the requests of a table. -/
def tableLeases (m : UMap ℕ Request) : Multiset (Lease ℕ ℕ) :=
  (m.entries.flatMap fun e => e.2.posted.map leaseOf : List (Lease ℕ ℕ))

/-- The leases of a sender, with the posted chunks `ps` beside those in `rest`. -/
def leases (s : BounceSender) (rest : Multiset (Lease ℕ ℕ)) (ps : List Posted) : Leases ℕ ℕ where
  held := { off | off ∈ s.scheduler.mLocalHeld }
  leases := (ps.map leaseOf ++ s.mOrphanLocal.map leaseLocal ++ s.mOrphanGather.map leaseGather :
    List (Lease ℕ ℕ)) + rest
  free := (s.exec.mFree ++ s.lent : List ℕ)
  kernels := s.kernels
  transfers := s.writes

/-- All leases of a sender. -/
def resources (s : BounceSender) : Leases ℕ ℕ := leases s (tableLeases s.mRequests) []

/-- The regions that an output shows to be taken or given back. -/
def leaseLabel : SenderOutput → Option (LeaseLabel ℕ)
  | .acquired off => some (.acquired off)
  | .released off => some (.released off)
  | _ => none

/-- The steps on leases that outputs stand for. -/
abbrev LeaseRun (S : Leases ℕ ℕ) (o : List SenderOutput) (S' : Leases ℕ ℕ) : Prop :=
  Machine.Steps Leases.Step S (o.filterMap leaseLabel) S'

variable {o : List SenderOutput} {p : Posted} {req : Request} {rid : ℕ} {s s' : BounceSender}

lemma tableLeases_set (m : UMap ℕ Request) (rid : ℕ) (req : Request) : tableLeases (m.set rid req)
      = (req.posted.map leaseOf : List (Lease ℕ ℕ)) + tableLeases (m.erase rid) := by
  simp [tableLeases, UMap.set]

lemma tableLeases_find {m : UMap ℕ Request} (h : m.find? rid = some req) :
    tableLeases m = (req.posted.map leaseOf : List (Lease ℕ ℕ)) + tableLeases (m.erase rid) := by
  rw [← tableLeases_set]
  exact coe_eq_coe.mpr ((entries_perm h).flatMap_right _)

/-- The leases of a sender, with the chunks of one request apart. -/
lemma resources_find (h : s.mRequests.find? rid = some req) :
    resources s = leases s (tableLeases (s.mRequests.erase rid)) req.posted := by
  refine Leases.ext rfl ?_ rfl rfl rfl
  simp only [resources, leases, tableLeases_find h, ← coe_add, map_nil]
  abel

/-- The same for a request that was put into the table. -/
lemma resources_set (ht : s'.mRequests = s.mRequests.set rid req) :
    resources s' = leases s' (tableLeases (s.mRequests.erase rid)) req.posted := by
  refine Leases.ext rfl ?_ rfl rfl rfl
  simp only [resources, leases, ht, tableLeases_set, ← coe_add, map_nil]
  abel

/-! ### A pump pass on leases -/

lemma labels_grantsOut (s : BounceSender) (gs : List Grant) :
    (s.grantsOut gs).filterMap leaseLabel = [] := by
  refine filterMap_eq_nil_iff.mpr fun x hx => ?_
  rw [grantsOut, mem_append] at hx
  rcases hx with hx | hx
  · obtain ⟨g, -, rfl⟩ := List.mem_map.mp hx
    rfl
  · obtain ⟨m, -, rfl⟩ := List.mem_map.mp hx
    rfl

lemma labels_release (pick : List ℕ → ℕ) (s : BounceSender) (off : ℕ) :
    (release pick s off).1.filterMap leaseLabel = [.released off] := by
  simp [release, leaseLabel, labels_grantsOut]

lemma labels_tookCredit (req : Request) : (tookCredit req).filterMap leaseLabel = [] := by
  rw [tookCredit]
  split_ifs <;> rfl

/-- A chunk in its gather has its region and its context. -/
lemma leaseOf_gathering {ctx : ℕ} (hctx : p.ctx = some ctx)
    (hst : p.state = .gathering ∨ p.state = .gatherFailed) :
    leaseOf p = ⟨p.localOffset, some ctx, false⟩ := by
  rcases hst with hst | hst <;> simp [leaseOf, hctx, hst]

/-- The leases cut at one posted chunk. -/
lemma leases_cut (s : BounceSender) (rest : Multiset (Lease ℕ ℕ)) (l₁ l₂ : List Posted)
    (p : Posted) :
    (leases s rest (l₁ ++ p :: l₂)).leases = leaseOf p ::ₘ (leases s rest (l₁ ++ l₂)).leases := by
  simp only [leases]
  rw [← cons_add, cons_coe]
  refine congrArg (· + rest) (coe_eq_coe.mpr ?_)
  simp only [map_append, List.map_cons, append_assoc, cons_append]
  exact perm_middle

/-- A region and a context are taken for one more chunk. -/
lemma leases_take (rest : Multiset (Lease ℕ ℕ)) (ps : List Posted)
    {c : CreditScheduler} {ctx off : ℕ} {free : List ℕ} {ks : List (ℕ × ℕ)}
    (hfree : s.exec.mFree = ctx :: free) (hfresh : off ∉ s.scheduler.mLocalHeld)
    (hheld : ∀ x, x ∈ c.mLocalHeld ↔ x = off ∨ x ∈ s.scheduler.mLocalHeld)
    (hp : leaseOf p = ⟨off, some ctx, false⟩) (hks : ∀ k ∈ ks, k ∈ s.kernels ∨ k = (ctx, off)) :
    Leases.Step (leases s rest ps) [.acquired off]
      (leases { staged s free c with kernels := ks } rest (ps ++ [p])) := by
  have hstep := @Leases.Step.take _ _ (leases s rest ps) (free ++ s.lent : List ℕ) ctx off ks
    (by simp [leases, hfree]) hfresh hks
  have heq : leases { staged s free c with kernels := ks } rest (ps ++ [p])
      = { held := insert off (leases s rest ps).held
          leases := ⟨off, some ctx, false⟩ ::ₘ (leases s rest ps).leases
          free := (free ++ s.lent : List ℕ), kernels := ks, transfers := s.writes } := by
    refine Leases.ext (Set.ext hheld) ?_ rfl rfl rfl
    rw [leases_cut, append_nil, hp]
    rfl
  rw [heq]
  exact hstep

/-- Outputs that stand for the labels `ls`. -/
lemma leaseRun_of_labels {S S' : Leases ℕ ℕ} {ls : List (LeaseLabel ℕ)}
    (hl : o.filterMap leaseLabel = ls) (h : Machine.Steps Leases.Step S ls S') :
    LeaseRun S o S' := by
  rw [LeaseRun, hl]
  exact h

/-- **A move of a pump pass is a run of steps on leases.** -/
lemma PumpMove.leases {req' : Request} (m : PumpMove s req o s' req') (rest : Multiset (Lease ℕ ℕ))
    (hs : Owning s) :
    LeaseRun (leases s rest req.posted) o (leases s' rest req'.posted)
      ∧ Owning s' := by
  cases m with
  | clear | skip | abandon => exact ⟨.refl _, hs⟩
  | @attach cr _ target _ _ _ hfound _ _ =>
    obtain ⟨hheld, hown⟩ := promoteLocal_held hs target.localOffset
    refine ⟨?_, hown⟩
    have hmap : (creditFirst req.nextCredit cr req.posted).map leaseOf
        = req.posted.map leaseOf := by
      obtain ⟨l₁, l₂, hl, hcf, -⟩ := creditFirst_cut hfound cr
      rw [hcf, hl]
      simp [leaseOf, credit]
    have heq : BounceSender.leases
        { s with scheduler := s.scheduler.promoteLocal target.localOffset } rest
        (creditFirst req.nextCredit cr req.posted) = BounceSender.leases s rest req.posted := by
      refine Leases.ext ?_ ?_ rfl rfl rfl
      · simp only [BounceSender.leases, hheld]
      · simp only [BounceSender.leases, hmap]
    rw [heq]
    exact .refl _
  | @rotate ctx _ free _ _ c hfree hfull =>
    obtain ⟨hheld, hown⟩ := acquireLocal_none hs hfull
    refine ⟨?_, hown⟩
    have heq : BounceSender.leases
        { s with scheduler := c, exec := { s.exec with mFree := free ++ [ctx] } } rest req.posted
        = BounceSender.leases s rest req.posted := by
      refine Leases.ext ?_ rfl ?_ rfl rfl
      · simp only [BounceSender.leases, hheld]
      · simp only [BounceSender.leases, hfree]
        exact coe_eq_coe.mpr ((perm_append_singleton ctx free).append_right _)
    rw [heq]
    exact .refl _
  | @stage ctx off free pick c ch hst _ =>
    obtain ⟨hfresh, hheld, hown⟩ := acquireLocal_some hs hst.acquired
    refine ⟨?_, hown⟩
    refine leaseRun_of_labels ?_ (.single (leases_take rest req.posted hst.free_eq hfresh hheld
      ?_ fun k hk => ?_))
    · simp [leaseLabel, labels_tookCredit, launch]
    · have hstate := newPosted_state ch (takeCredit req) ctx off
      cases req.pendingCredits.head? <;> exact leaseOf_gathering rfl hstate
    · split_ifs at hk
      · simpa [staged] using hk
      · exact .inl hk
  | @overflow ctx off free pick c pickRelease hst _ =>
    obtain ⟨hfresh, hheld, hown⟩ := acquireLocal_some hs hst.acquired
    obtain ⟨hheld', hown'⟩ := releaseLocal_held hown pickRelease off
    refine ⟨?_, hown'⟩
    have heq : BounceSender.leases (release pickRelease (staged s (free ++ [ctx]) c) off).2 rest
        (BounceSender.abandon (takeCredit req)).posted
        = BounceSender.leases s rest req.posted := by
      refine Leases.ext (Set.ext fun x => ?_) rfl ?_ rfl rfl
      · simp only [BounceSender.leases, release, staged, Set.mem_ofPred_eq, hheld', hheld]
        refine ⟨fun hx => hx.1.resolve_left hx.2, fun hx => ⟨.inr hx, fun he => hfresh (he ▸ hx)⟩⟩
      · simp only [BounceSender.leases, release, staged, hst.free_eq]
        exact coe_eq_coe.mpr ((perm_append_singleton ctx free).append_right _)
    rw [heq]
    refine leaseRun_of_labels ?_ (.single (.touch hfresh))
    simp [leaseLabel, labels_tookCredit, labels_release]

/-- A pump pass is a run of steps on leases. -/
lemma PumpRun.leases {req' : Request} (h : PumpRun s req o s' req') (rest : Multiset (Lease ℕ ℕ))
    (hs : Owning s) :
    LeaseRun (leases s rest req.posted) o (leases s' rest req'.posted)
      ∧ Owning s' := by
  induction h with
  | refl => exact ⟨.refl _, hs⟩
  | head m _ ih =>
    obtain ⟨hm, hown⟩ := m.leases rest hs
    obtain ⟨hr, hown'⟩ := ih hown
    rw [LeaseRun, filterMap_append]
    exact ⟨hm.trans hr, hown'⟩

/-! ### The ends of chunks and requests on leases -/

/-- An exec context belongs to a chunk exactly while its gather is not seen to have ended. -/
def CtxOk (p : Posted) : Prop :=
  p.ctx.isSome = true ↔ p.state = .gathering ∨ p.state = .gatherFailed

lemma CtxOk.none (h : CtxOk p) (h1 : p.state ≠ .gathering)
    (h2 : p.state ≠ .gatherFailed) : p.ctx = none := by
  cases hc : p.ctx with
  | none => rfl
  | some c => exact absurd (h.mp (by simp [hc])) (by simp [h1, h2])

section

variable (pick : List ℕ → ℕ)

/-- A release changes nothing but what the local sender has. -/
lemma leases_release {s : BounceSender} (off : ℕ) (rest : Multiset (Lease ℕ ℕ)) (ps : List Posted)
    (hs : Owning s) :
    leases (release pick s off).2 rest ps
      = { leases s rest ps with held := (leases s rest ps).held \ {off} } := by
  obtain ⟨hheld, -⟩ := releaseLocal_held hs pick off
  refine Leases.ext (Set.ext fun x => ?_) rfl rfl rfl rfl
  simp only [leases, release, Set.mem_ofPred_eq, hheld, Set.mem_sdiff, Set.mem_singleton_iff]

/-- The region of a chunk with neither gather nor write is given back. -/
lemma leases_drop (rest : Multiset (Lease ℕ ℕ))
    (l₁ l₂ : List Posted) (hctx : p.ctx = none) (hst : p.state ≠ .writing)
    (hs : Owning s) :
    LeaseRun (leases s rest (l₁ ++ p :: l₂)) (release pick s p.localOffset).1
        (leases (release pick s p.localOffset).2 rest (l₁ ++ l₂))
      ∧ Owning (release pick s p.localOffset).2 := by
  refine ⟨leaseRun_of_labels (labels_release pick s _) (.single ?_),
    (releaseLocal_held hs pick _).2⟩
  rw [leases_release pick _ rest _ hs]
  have hcut : (leases s rest (l₁ ++ p :: l₂)).leases
      = ⟨p.localOffset, none, false⟩ ::ₘ (leases s rest (l₁ ++ l₂)).leases := by
    rw [leases_cut, leaseOf, hctx]
    simp [hst]
  exact .drop hcut (by simp)

/-- What `failRequest` does with a posted chunk: its lease passes to an orphan or ends. -/
lemma orphan_leases (rid : ℕ) (ps : List Posted) (rest : Multiset (Lease ℕ ℕ)) (hp : CtxOk p)
    (hs : Owning s) :
    LeaseRun (leases s rest (p :: ps)) (orphan pick rid s p).1
        (leases (orphan pick rid s p).2 rest ps)
      ∧ Owning (orphan pick rid s p).2 := by
  unfold orphan
  split_ifs with hw
  · refine ⟨?_, hs⟩
    have hnone : p.ctx = none := hp.none (by simp [hw]) (by simp [hw])
    have hlease : leaseOf p = leaseLocal ⟨p.xfer, p.localOffset, rid⟩ := by
      simp [leaseOf, leaseLocal, hw, hnone]
    have heq : leases { s with mOrphanLocal := s.mOrphanLocal ++ [⟨p.xfer, p.localOffset, rid⟩] }
        rest ps = leases s rest (p :: ps) := by
      refine Leases.ext rfl ?_ rfl rfl rfl
      refine congrArg (· + rest) (coe_eq_coe.mpr ?_)
      simp only [map_append, List.map_cons, map_nil, append_assoc, cons_append, nil_append, hlease]
      rw [← append_assoc]
      refine perm_middle.trans ?_
      rw [append_assoc]
    rw [heq]
    exact .refl _
  · split
    · rename_i ctx hctx
      refine ⟨?_, hs⟩
      have hlease : leaseOf p = leaseGather ⟨ctx, p.localOffset, rid⟩ := by
        simp [leaseOf, leaseGather, hw, hctx]
      have heq : leases { s with mOrphanGather := s.mOrphanGather ++ [⟨ctx, p.localOffset, rid⟩] }
          rest ps = leases s rest (p :: ps) := by
        refine Leases.ext rfl ?_ rfl rfl rfl
        refine congrArg (· + rest) (coe_eq_coe.mpr ?_)
        simp only [map_append, List.map_cons, map_nil, append_assoc, cons_append, hlease]
        rw [← append_assoc, ← append_assoc]
        refine (perm_append_singleton _ _).trans ?_
        simp
      rw [heq]
      exact .refl _
    · rename_i hctx
      exact leases_drop pick rest [] ps hctx hw hs

end

/-- **The chunks of a failed request**: each lease passes to an orphan or ends. -/
lemma orphanAll_leases (picks : ℕ → List ℕ → ℕ) (rid : ℕ) (ps : List Posted)
    (rest : Multiset (Lease ℕ ℕ)) (hps : ∀ p ∈ ps, CtxOk p)
    (hs : Owning s) :
    LeaseRun (leases s rest ps) (orphanAll picks rid ps s).1
        (leases (orphanAll picks rid ps s).2 rest [])
      ∧ Owning (orphanAll picks rid ps s).2 := by
  induction ps generalizing s with
  | nil => exact ⟨.refl _, hs⟩
  | cons p ps ih =>
    obtain ⟨h1, hown⟩ := orphan_leases (picks ps.length) rid ps rest
      (hps p (List.mem_cons_self ..)) hs
    obtain ⟨h2, hown'⟩ := ih (fun q hq => hps q (List.mem_cons_of_mem _ hq)) hown
    refine ⟨?_, hown'⟩
    rw [orphanAll, LeaseRun, filterMap_append]
    exact h1.trans h2

end BounceSender

end TrtLlm
