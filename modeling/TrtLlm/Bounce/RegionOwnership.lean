import TrtLlm.Util.Machine
import TrtLlm.Bounce.RegionCalls

/-!
Who owns a region of the bounce arena, over any sequence of public calls.

* `call_effect`: what one call does, for every call;
* `run_owned`: after any sequence of calls the live blocks are the disjoint union of what
  the parties have;
* `regions_owned_and_grants_fresh`: the same together with what a grant may name.
-/

namespace TrtLlm.CreditScheduler

/-! ### Sequences of calls -/

/-- A public call. -/
inductive Call where
  | onWant (flow : Bytes) (chunkBytes : List ℕ)
  | onScatterDone (flow : Bytes) (offset : ℕ)
  | reclaimByPrefix (pfx : Bytes) (busy : USet ℕ) (quarantineFor : ℤ)
  | reclaimFlow (flow : Bytes) (busy : USet ℕ) (quarantineFor : ℤ)
  | freeOrphanRegion (offset : ℕ)
  | reapQuarantine
  | pollDrain
  | staleFlows
  | acquireLocal (bytes : ℕ) (eager : Bool)
  | promoteLocal (offset : ℕ)
  | releaseLocal (offset : ℕ)
  | setDrainTimeout (timeout : ℤ)

/-- The grants a call returns, and the state after it.  `pick` chooses the block that the
allocator's free sets list first. -/
def call (pick : List ℕ → ℕ) (s : CreditScheduler) : Call → List Grant × CreditScheduler
  | .onWant flow chunkBytes => onWant pick s flow chunkBytes
  | .onScatterDone flow offset => onScatterDone pick s flow offset
  | .reclaimByPrefix pfx busy quarantineFor =>
    let r := reclaimByPrefix pick s pfx busy quarantineFor
    (r.1, r.2.1)
  | .reclaimFlow flow busy quarantineFor =>
    let r := reclaimFlow pick s flow busy quarantineFor
    (r.1, r.2.1)
  | .freeOrphanRegion offset => freeOrphanRegion pick s offset
  | .reapQuarantine => reapQuarantine pick s
  | .pollDrain => pollDrain pick s
  | .staleFlows => ([], s.tick)
  | .acquireLocal bytes eager => ([], (acquireLocal pick s bytes eager).2)
  | .promoteLocal offset => ([], promoteLocal s offset)
  | .releaseLocal offset => releaseLocal pick s offset
  | .setDrainTimeout timeout => ([], setDrainTimeout s timeout)

/-- The state in which a call begins its pass; `acquireLocal` has none. -/
def beforePass (s : CreditScheduler) : Call → CreditScheduler
  | .onWant flow chunkBytes => onWantUpdate s flow chunkBytes
  | .onScatterDone flow offset => onScatterDoneUpdate s flow offset
  | .reclaimByPrefix pfx busy quarantineFor =>
    if pfx = [] then s else (reclaimByPrefixUpdate s pfx busy quarantineFor).1
  | .reclaimFlow flow busy quarantineFor => (dropFlow busy quarantineFor (s, []) flow).1
  | .freeOrphanRegion offset => freeOrphanRegionUpdate s offset
  | .reapQuarantine => s.reapQuarantineUpdate
  | .pollDrain => if s.mDrainFlow.isSome then s.tick else s
  | .staleFlows => s.tick
  | .acquireLocal _ _ => s
  | .promoteLocal offset => promoteLocal s offset
  | .releaseLocal offset => releaseLocalUpdate s offset
  | .setDrainTimeout timeout => setDrainTimeout s timeout

/-- The blocks that a call gives back to the arena before its pass. -/
def freedBy (s : CreditScheduler) (c : Call) : Set ℕ := s.live \ (beforePass s c).live

/-- The scheduler as a machine: an event is a call, with the choice it leaves to the
allocator. -/
def step (s : CreditScheduler) (e : (List ℕ → ℕ) × Call) : List Grant × CreditScheduler :=
  call e.1 s e.2

/-- The state after a sequence of calls. -/
def run (s : CreditScheduler) (calls : List ((List ℕ → ℕ) × Call)) : CreditScheduler :=
  (Machine.run step s calls).2

variable {s : CreditScheduler}

/-- Before its pass a call only reassigns regions. -/
lemma beforePass_reassigned (hs : Owned s.live s.owns) (c : Call) :
    ∃ H dst, H ⊆ s.live ∧ Reassigned s (beforePass s c) H dst := by
  have hsame : ∀ s', SameRegions s s' → ∃ H dst, H ⊆ s.live ∧ Reassigned s s' H dst := by
    intro s' h
    exact ⟨∅, fun _ => none, Set.empty_subset _, h.reassigned _ fun x hx => hx⟩
  have htick : SameRegions s s.tick := .of_flows ⟨rfl, rfl, rfl, rfl, rfl, rfl, rfl, rfl⟩ rfl rfl
  have hrefl : SameRegions s s := .of_flows (SameRest.refl s) rfl rfl
  cases c with
  | onWant flow chunkBytes => exact hsame _ (onWantUpdate_same s flow chunkBytes)
  | onScatterDone flow offset =>
    exact ⟨_, _, fun x hx => heldByFlow_live hs hx.2, onScatterDoneUpdate_reassigned hs flow offset⟩
  | reclaimByPrefix pfx busy quarantineFor =>
    rw [beforePass]
    split_ifs
    · exact hsame _ hrefl
    · refine ⟨_, _, ?_, (reclaimByPrefixUpdate_reassigned hs pfx busy quarantineFor).1⟩
      rintro x ⟨key, -, hx⟩
      exact heldByFlow_live hs hx
  | reclaimFlow flow busy quarantineFor =>
    exact ⟨_, _, fun x hx => heldByFlow_live hs hx,
      (dropFlow_reassigned hs busy quarantineFor [] flow).1⟩
  | freeOrphanRegion offset =>
    exact ⟨_, _, fun x hx => hs.mem_live (i := .orphans) hx.2,
      freeOrphanRegionUpdate_reassigned hs offset⟩
  | reapQuarantine =>
    refine ⟨_, _, ?_, reapQuarantineUpdate_reassigned hs⟩
    rintro x ⟨d, hx, -⟩
    exact hs.mem_live (i := .quarantine) (UMap.mem_of_find? hx)
  | pollDrain =>
    rw [beforePass]
    split_ifs
    · exact hsame _ htick
    · exact hsame _ hrefl
  | staleFlows => exact hsame _ htick
  | acquireLocal bytes eager => exact hsame _ hrefl
  | promoteLocal offset =>
    exact ⟨∅, fun _ => none, Set.empty_subset _, promoteLocal_reassigned s offset _ fun x hx => hx⟩
  | releaseLocal offset =>
    exact ⟨_, _, fun x hx => hs.mem_live (i := .sender) hx.2,
      releaseLocalUpdate_reassigned hs offset⟩
  | setDrainTimeout timeout =>
    exact hsame _ (.of_flows ⟨rfl, rfl, rfl, rfl, rfl, rfl, rfl, rfl⟩ rfl rfl)

/-- **What one call does**: it is `acquireLocal`, which grants nothing, or it is a pass that
begins in `beforePass`. -/
lemma call_effect (pick : List ℕ → ℕ) (s : CreditScheduler) (c : Call) :
    GrantRun (beforePass s c) (call pick s c).1 (call pick s c).2
      ∨ ((call pick s c).1 = [] ∧ (Reassigned s (call pick s c).2 ∅ (fun _ => none)
        ∨ ∃ off, Acquired s (call pick s c).2 off)) := by
  cases c with
  | onWant | onScatterDone | reclaimFlow | freeOrphanRegion
    | releaseLocal => exact Or.inl (schedule_run pick _)
  | reclaimByPrefix pfx busy quarantineFor =>
    refine Or.inl ?_
    rw [call, reclaimByPrefix, beforePass]
    split_ifs
    · exact .done (Quiet.refl s)
    · exact schedule_run pick _
  | reapQuarantine =>
    refine Or.inl ?_
    rw [call, reapQuarantine]
    split_ifs
    · exact schedule_run pick _
    · exact .done (Quiet.refl _)
  | pollDrain =>
    refine Or.inl ?_
    rw [call, pollDrain, beforePass]
    split_ifs
    · exact schedule_run pick _
    · exact .done (Quiet.refl _)
    · exact .done (Quiet.refl _)
  | staleFlows | promoteLocal | setDrainTimeout => exact Or.inl (.done (Quiet.refl _))
  | acquireLocal bytes eager =>
    refine Or.inr ⟨rfl, ?_⟩
    rcases acquireLocal_spec pick s bytes eager with ⟨-, h⟩ | ⟨off, -, h, -⟩
    · exact Or.inl h
    · exact Or.inr ⟨off, h⟩

/-- One call keeps the division of the live blocks, and the base address. -/
lemma call_owned (pick : List ℕ → ℕ) (hs : Owned s.live s.owns) (c : Call) :
    Owned (call pick s c).2.live (call pick s c).2.owns
      ∧ (call pick s c).2.mBaseAddr = s.mBaseAddr := by
  obtain ⟨H, dst, hH, hre⟩ := beforePass_reassigned hs c
  rcases call_effect pick s c with hrun | ⟨-, h | ⟨off, h⟩⟩
  · exact ⟨hrun.owned (hre.owned hH hs), hrun.frame.1.trans hre.baseAddr⟩
  · exact ⟨h.owned (Set.empty_subset _) hs, h.baseAddr⟩
  · exact ⟨h.owned hs, h.baseAddr⟩

/-- At the start nothing is live and nothing is owned. -/
lemma ctor_owned {baseAddr arenaSizeBytes granularity maxInflight : ℕ} {clock : ℕ → ℤ}
    (h : ctor baseAddr arenaSizeBytes granularity maxInflight clock = some s) :
    Owned s.live s.owns ∧ s.mBaseAddr = baseAddr := by
  rw [ctor, Option.map_eq_some_iff] at h
  obtain ⟨arena, harena, rfl⟩ := h
  refine ⟨Owned.of_forall (fun r => ?_) fun r i j hi _ => ?_, rfl⟩
  · rw [mem_live, BuddyAllocator.live?_ctor harena]
    refine ⟨fun h => absurd rfl h, ?_⟩
    rintro ⟨i, hi⟩
    cases i <;> simp [owns, heldByFlow] at hi
  · cases i <;> simp [owns, heldByFlow] at hi

/-- Any sequence of calls keeps the division of the live blocks, and the base address. -/
lemma run_owned (calls : List ((List ℕ → ℕ) × Call))
    (hs : Owned s.live s.owns) : Owned (run s calls).live (run s calls).owns
      ∧ (run s calls).mBaseAddr = s.mBaseAddr := by
  refine Machine.run_invariant
    (I := fun t : CreditScheduler => Owned t.live t.owns ∧ t.mBaseAddr = s.mBaseAddr) ⟨hs,
      rfl⟩ ?_ calls
  rintro t ⟨pick, c⟩ ⟨h1, h2⟩
  obtain ⟨h3, h4⟩ := call_owned pick h1 c
  exact ⟨h3, h4.trans h2⟩

/-- **Region ownership.**  After any sequence of public calls on a new scheduler the live
blocks of the arena are the disjoint union of what the flows, the local sender, the orphans
and the quarantine have.  The grants of any further call name pairwise different blocks,
none of them live before that call unless the call itself gave it back, each at its address
in the arena and large enough for its chunk. -/
theorem regions_owned_and_grants_fresh {baseAddr arenaSizeBytes granularity maxInflight : ℕ}
    {clock : ℕ → ℤ} {s₀ : CreditScheduler}
    (h₀ : ctor baseAddr arenaSizeBytes granularity maxInflight clock = some s₀)
    (calls : List ((List ℕ → ℕ) × Call)) :
    Owned (run s₀ calls).live (run s₀ calls).owns
      ∧ ∀ pick c, ((call pick (run s₀ calls) c).1.map Grant.offset).Nodup
        ∧ ∀ g ∈ (call pick (run s₀ calls) c).1,
          (g.offset ∉ (run s₀ calls).live ∨ g.offset ∈ freedBy (run s₀ calls) c)
            ∧ g.addr = (baseAddr + g.offset) % 2 ^ 64
            ∧ g.len ≤ (call pick (run s₀ calls) c).2.regionBytes g.offset := by
  obtain ⟨hown₀, hbase₀⟩ := ctor_owned h₀
  obtain ⟨hown, hbase⟩ := run_owned calls hown₀
  refine ⟨hown, fun pick c => ?_⟩
  rcases call_effect pick (run s₀ calls) c with hrun | ⟨hnil, -⟩
  · obtain ⟨H, dst, -, hre⟩ := beforePass_reassigned hown c
    obtain ⟨hnd, hgrants⟩ := hrun.grants
    refine ⟨hnd, fun g hg => ?_⟩
    obtain ⟨h1, h2, h3⟩ := hgrants g hg
    refine ⟨?_, by rw [h2, hre.baseAddr, hbase, hbase₀], h3⟩
    by_cases hl : g.offset ∈ (run s₀ calls).live
    · exact Or.inr ⟨hl, h1⟩
    · exact Or.inl hl
  · rw [hnil]
    exact ⟨List.nodup_nil, fun g hg => absurd hg List.not_mem_nil⟩

/-- On an arena of four blocks of 16 bytes, a flow that wants 10 and 30 bytes is granted the
first block and the upper half. -/
theorem regions_owned_and_grants_fresh_onWant : ∃ s₀, ctor 4096 64 16 2 (fun n => n) = some s₀
    ∧ (call (fun l => l.headD 0) (run s₀ []) (.onWant [1] [10, 30])).1.map Grant.offset = [0, 32]
    ∧ Owned (run s₀ [(fun l => l.headD 0, .onWant [1] [10, 30])]).live
      (run s₀ [(fun l => l.headD 0, .onWant [1] [10, 30])]).owns := by
  have heval : (ctor 4096 64 16 2 fun n => n).map (fun s =>
      (call (fun l => l.headD 0) (run s []) (.onWant [1] [10, 30])).1.map Grant.offset)
      = some [0, 32] := by decide
  obtain ⟨s₀, h₀, hgrants⟩ := Option.map_eq_some_iff.mp heval
  exact ⟨s₀, h₀, hgrants, (regions_owned_and_grants_fresh h₀ _).1⟩

end TrtLlm.CreditScheduler
