import TrtLlm.Bounce.Quarantine

/-!
The quarantine and the eager budget of the credit scheduler.

* `EagerOk`: the eager bytes are the sum over the eager regions, all of them regions of the local
  sender, within half of the arena;
* **`quarantine_and_eager_budget`**: both, over every run.
-/

namespace TrtLlm.CreditScheduler

open List Option Nat UMap

variable {c : Call} {s s' : CreditScheduler} {t : ℤ} {x : ℕ}

/-! ### The eager budget -/

/-- The eager bytes are the sum over the eager regions, which the local sender holds, and are at
most half of the arena. -/
structure EagerOk (s : CreditScheduler) : Prop where
  held : ∀ x v, s.mEagerHeld.find? x = some v → v = s.regionBytes x ∧ x ∈ s.mLocalHeld
  sum : s.mEagerHeldBytes = s.mEagerHeld.total fun x _ => s.regionBytes x
  budget : s.mEagerHeldBytes ≤ s.mEagerBudgetBytes
  half : s.mEagerBudgetBytes = s.mArena.capacity / 2

/-- What is subtracted for an eager region is part of the sum. -/
lemma EagerOk.le (h : EagerOk s) {v : ℕ}
    (hx : s.mEagerHeld.find? x = some v) : v ≤ s.mEagerHeldBytes := by
  have hle := s.mEagerHeld.weight_le_total (fun x _ => s.regionBytes x) x
  rw [weight_of_find? _ hx, ← h.sum] at hle
  rw [(h.held x v hx).1]
  exact hle

lemma sub64_of_le {a b : ℕ} (h : b ≤ a) (ha : a < 2 ^ 64) : sub64 a b = a - b := by
  rw [sub64]
  omega

/-- The eager regions and their sizes are the same. -/
lemma EagerOk.congr (h : EagerOk s)
    (heager : s'.mEagerHeld = s.mEagerHeld) (hbytes : s'.mEagerHeldBytes = s.mEagerHeldBytes)
    (hbudget : s'.mEagerBudgetBytes = s.mEagerBudgetBytes)
    (hcapacity : s'.mArena.capacity = s.mArena.capacity)
    (hkeep : ∀ x ∈ s.mEagerHeld, x ∈ s'.mLocalHeld ∧ s'.regionBytes x = s.regionBytes x) :
    EagerOk s' := by
  refine ⟨fun x v hx => ?_, ?_, ?_, ?_⟩
  · rw [heager] at hx
    obtain ⟨hlocal, hsize⟩ := hkeep x (mem_of_find? hx)
    exact ⟨hsize ▸ (h.held x v hx).1, hlocal⟩
  · rw [hbytes, h.sum, heager]
    refine total_congr fun x => ?_
    cases hx : s.mEagerHeld.find? x with
    | none =>
      have hnot := find?_eq_none_iff.mp hx
      rw [weight_of_not_mem _ hnot, weight_of_not_mem _ hnot]
    | some v =>
      rw [weight_of_find? _ hx, weight_of_find? _ hx]
      exact ((hkeep x (mem_of_find? hx)).2).symm
  · rw [hbytes, hbudget]
    exact h.budget
  · rw [hbudget, hcapacity]
    exact h.half

lemma EagerOk.mem_local (h : EagerOk s) (hx : x ∈ s.mEagerHeld) : x ∈ s.mLocalHeld := by
  obtain ⟨v, hv⟩ := mem_iff_find?.mp hx
  exact (h.held x v hv).2

section

variable (h : EagerOk s) (hs : Owned s.live s.owns)
include h hs

lemma EagerOk.mem_live (hx : x ∈ s.mEagerHeld) : x ∈ s.live :=
  hs.mem_live (i := .sender) (h.mem_local hx)

/-- A pass leaves the eager regions alone. -/
lemma EagerOk.pass {gs : List Grant} (hrun : GrantRun s gs s')
    (hcapacity : s'.mArena.capacity = s.mArena.capacity) : EagerOk s' := by
  refine h.congr hrun.rest.eagerHeld hrun.rest.eagerHeldBytes hrun.rest.eagerBudgetBytes hcapacity
    fun x hx => ⟨?_, hrun.frame.2.1 x (h.mem_live hs hx)⟩
  rw [hrun.rest.localHeld]
  exact h.mem_local hx

/-- A call that is not one of the local sender leaves the eager regions alone. -/
lemma EagerOk.beforePass (hc : c.isLocal = false) : EagerOk (beforePass s c) := by
  have hbooks := books_beforePass s hc
  obtain ⟨H, dst, hH, hre⟩ := beforePass_reassigned hs c
  have hmid := hre.owned hH hs
  refine h.congr hbooks.eagerHeld hbooks.eagerHeldBytes hbooks.eagerBudgetBytes hbooks.capacity
    fun x hx => ?_
  have hlocal : x ∈ (CreditScheduler.beforePass s c).mLocalHeld := by
    rw [hbooks.localHeld]
    exact h.mem_local hx
  exact ⟨hlocal, hre.bytes x (hmid.mem_live (i := .sender) hlocal)⟩

end

/-- The region leaves the eager ones, and its bytes leave the sum. -/
lemma EagerOk.promoteLocal (h : EagerOk s) (offset : ℕ) : EagerOk (promoteLocal s offset) := by
  rw [CreditScheduler.promoteLocal]
  cases hfind : s.mEagerHeld.find? offset with
  | none => exact h
  | some v =>
    have hv := (h.held offset v hfind).1
    have hle := h.le hfind
    have hsmall := s.mArena.property.small
    have hcap : s.mEagerHeldBytes < 2 ^ 64 := by
      have h₁ := h.budget
      have h₂ : s.mEagerBudgetBytes = s.mArena.val.mUsable / 2 := h.half
      omega
    have htotal : (s.mEagerHeld.erase offset).total (fun x _ => s.regionBytes x) + v
        = s.mEagerHeld.total fun x _ => s.regionBytes x := by
      have := @UMap.total_update _ _ _ s.mEagerHeld (s.mEagerHeld.erase offset)
        (fun x _ => s.regionBytes x) (fun x _ => s.regionBytes x) offset fun x hx => by
          rw [weight_erase, if_neg hx]
      rw [weight_erase, if_pos rfl, weight_of_find? _ hfind] at this
      rw [hv]
      exact this
    have hsub := sub64_of_le hle hcap
    refine ⟨fun x v' hx => ?_, ?_, ?_, h.half⟩
    · rw [find?_erase] at hx
      split_ifs at hx
      exact h.held x v' hx
    · change sub64 s.mEagerHeldBytes v = _
      rw [hsub, h.sum, ← htotal, Nat.add_sub_cancel]
      rfl
    · change sub64 s.mEagerHeldBytes v ≤ s.mEagerBudgetBytes
      have := h.budget
      omega

lemma not_mem_promoteLocal (s : CreditScheduler) (offset : ℕ) :
    offset ∉ (promoteLocal s offset).mEagerHeld := by
  rw [promoteLocal]
  cases hfind : s.mEagerHeld.find? offset with
  | none => exact find?_eq_none_iff.mp hfind
  | some v => exact fun hmem => (mem_erase.mp hmem).1 rfl

/-- `releaseLocal` promotes the region and frees it. -/
lemma releaseLocalUpdate_eq {offset : ℕ} (h : offset ∈ s.mLocalHeld) :
    releaseLocalUpdate s offset = { promoteLocal s offset with
      mLocalHeld := (promoteLocal s offset).mLocalHeld.erase offset
      mArena := (promoteLocal s offset).mArena.free offset } := by
  simp only [releaseLocalUpdate, if_pos h, promoteLocal]
  cases s.mEagerHeld.find? offset <;> rfl

lemma EagerOk.releaseLocalUpdate (h : EagerOk s) (offset : ℕ) :
    EagerOk (releaseLocalUpdate s offset) := by
  by_cases hlocal : offset ∈ s.mLocalHeld
  · have hpromoted := h.promoteLocal offset
    rw [releaseLocalUpdate_eq hlocal]
    refine hpromoted.congr rfl rfl rfl (BuddyAllocator.capacity_free _ offset) fun x hx => ?_
    have hne : x ≠ offset := fun heq => not_mem_promoteLocal s offset (heq ▸ hx)
    exact ⟨mem_erase.mpr ⟨hne, hpromoted.mem_local hx⟩, BuddyAllocator.blockBytes_free _ hne⟩
  · rw [CreditScheduler.releaseLocalUpdate, if_neg hlocal]
    exact h

/-- An eager acquisition within the budget adds the size of its block. -/
lemma EagerOk.acquireLocal (h : EagerOk s) (hs : Owned s.live s.owns)
    (pick : List ℕ → ℕ) (bytes : ℕ) (eager : Bool) :
    EagerOk (acquireLocal pick s bytes eager).2 := by
  rw [CreditScheduler.acquireLocal]
  split
  · exact h
  · rename_i off arena halloc
    obtain ⟨hfresh, -, hcapacity, hbytes, -⟩ := BuddyAllocator.alloc_some halloc
    have hne : ∀ x ∈ s.mEagerHeld, x ≠ off := by
      rintro x hx rfl
      exact CreditScheduler.mem_live.mp (h.mem_live hs hx) hfresh
    dsimp only
    split_ifs with heager hover
    · refine h.congr rfl rfl rfl ((arena.capacity_free off).trans hcapacity) fun x hx => ?_
      refine ⟨h.mem_local hx, ?_⟩
      exact (arena.blockBytes_free (hne x hx)).trans (hbytes x (hne x hx))
    · have hnot : off ∉ s.mEagerHeld := fun hmem => hne off hmem rfl
      have hset : s.mEagerHeld.emplace off (arena.blockBytes off)
          = s.mEagerHeld.set off (arena.blockBytes off) := if_neg hnot
      rw [hset]
      refine ⟨fun x v hx => ?_, ?_, not_lt.mp hover, h.half.trans (by rw [hcapacity])⟩
      · rw [find?_set] at hx
        split_ifs at hx with hoff
        · exact ⟨hoff ▸ (some.inj hx).symm, USet.mem_insert.mpr (Or.inl hoff)⟩
        · obtain ⟨hv, hlocal⟩ := h.held x v hx
          exact ⟨hv.trans (hbytes x hoff).symm, USet.mem_insert.mpr (Or.inr hlocal)⟩
      · have := @UMap.total_update _ _ _ s.mEagerHeld
          (s.mEagerHeld.set off (arena.blockBytes off)) (fun x _ => s.regionBytes x)
          (fun x _ => arena.blockBytes x) off fun x hx => by
            rw [weight_set, if_neg hx, weight, weight]
            exact congrArg (fun n => (Option.map (fun _ => n) (s.mEagerHeld.find? x)).getD 0)
              (hbytes x hx)
        rw [weight_set, if_pos rfl, weight_of_not_mem _ hnot, Nat.add_zero] at this
        rw [h.sum]
        exact this.symm
    · refine h.congr rfl rfl rfl hcapacity fun x hx => ?_
      exact ⟨USet.mem_insert.mpr (Or.inr (h.mem_local hx)), hbytes x (hne x hx)⟩

/-- **One call** keeps the eager budget. -/
lemma EagerOk.step (h : EagerOk s) (hs : Owned s.live s.owns)
    (e : (List ℕ → ℕ) × Call) : EagerOk (step s e).2 := by
  obtain ⟨pick, c⟩ := e
  by_cases hlocal : ∃ bytes eager, c = .acquireLocal bytes eager
  · obtain ⟨bytes, eager, rfl⟩ := hlocal
    exact h.acquireLocal hs pick bytes eager
  · have hmid : EagerOk (CreditScheduler.beforePass s c) := by
      cases hc : c.isLocal with
      | false => exact h.beforePass hs hc
      | true =>
        cases c with
        | acquireLocal bytes eager => exact absurd ⟨bytes, eager, rfl⟩ hlocal
        | promoteLocal offset => exact h.promoteLocal offset
        | releaseLocal offset => exact h.releaseLocalUpdate offset
        | _ => cases hc
    obtain ⟨H, dst, hH, hre⟩ := beforePass_reassigned hs c
    have hrun := grantRun_call pick s hlocal
    refine hmid.pass (hre.owned hH hs) hrun ?_
    have hup : updated pick s c = CreditScheduler.beforePass s c := by
      cases c with
      | acquireLocal bytes eager => exact absurd ⟨bytes, eager, rfl⟩ hlocal
      | _ => rfl
    change (call pick s c).2.mArena.capacity = _
    rw [call_eq_updated, hup]
    split_ifs
    · exact (books_schedule pick _).capacity
    · rfl

lemma ctor_eagerOk {baseAddr arenaSizeBytes granularity maxInflight : ℕ} {clock : ℕ → ℤ}
    (h : ctor baseAddr arenaSizeBytes granularity maxInflight clock = some s) :
    EagerOk s ∧ s.mClock = clock := by
  rw [ctor, map_eq_some_iff] at h
  obtain ⟨arena, -, rfl⟩ := h
  refine ⟨⟨fun x v hx => ?_, rfl, Nat.zero_le _, rfl⟩, rfl⟩
  exact absurd hx.symm (some_ne_none v)

lemma clock_step (s : CreditScheduler) (e : (List ℕ → ℕ) × Call) :
    (step s e).2.mClock = s.mClock := by
  obtain ⟨pick, c⟩ := e
  have hup : (updated pick s c).mClock = s.mClock := by
    cases c with
    | acquireLocal bytes eager =>
      rw [updated, acquireLocal]
      split
      · rfl
      · dsimp only
        split_ifs <;> rfl
    | promoteLocal offset =>
      change (promoteLocal s offset).mClock = _
      rw [promoteLocal]
      split <;> rfl
    | releaseLocal offset =>
      change (releaseLocalUpdate s offset).mClock = _
      rw [releaseLocalUpdate]
      split_ifs
      · rw [promoteLocal]
        split <;> rfl
      · rfl
    | _ => exact (books_beforePass s rfl).clock
  change (call pick s c).2.mClock = _
  rw [call_eq_updated]
  split_ifs
  · exact (books_schedule pick _).clock.trans hup
  · exact hup

/-! ### Runs -/

/-- The readings of the clock by the calls of `reapQuarantine` in a run. -/
def reapTimes (s : CreditScheduler) : List ((List ℕ → ℕ) × Call) → List ℤ
  | [] => []
  | (pick, c) :: calls =>
    (match c with
      | .reapQuarantine => [s.now]
      | _ => []) ++ reapTimes (call pick s c).2 calls

/-- While no reap comes at the deadline or later, the region stays where it is. -/
lemma QuarantinedUntil.run (calls : List ((List ℕ → ℕ) × Call))
    (h : QuarantinedUntil t x s) (hs : Owned s.live s.owns)
    (e : (List ℕ → ℕ) × Call) (hreap : ∀ r ∈ reapTimes s (calls ++ [e]), r < t) :
    Spares (run s calls) e x (s.regionBytes x) := by
  induction calls generalizing s with
  | nil =>
    refine (h.step hs e fun hc => hreap s.now ?_).2.2
    obtain ⟨pick, c⟩ := e
    obtain rfl : c = .reapQuarantine := hc
    exact mem_singleton_self _
  | cons e' calls ih =>
    obtain ⟨pick, c⟩ := e'
    obtain ⟨h₁, h₂, -⟩ := h.step hs (pick, c) fun hc => hreap s.now (by
      obtain rfl : c = .reapQuarantine := hc
      exact mem_cons_self)
    have := ih h₁ (call_owned pick hs c).1 fun r hr => hreap r (mem_append_right _ hr)
    rwa [h₂] at this

/-- **Quarantine and eager budget.** Take any run of calls with a clock that never goes back.

When a call drops a flow with a quarantine, no grant and no `acquireLocal` of that call or of any
later one meets a block that the flow held and that was not busy, until `reapQuarantine` is called
at a clock value of at least the time of the call plus the length of the quarantine.

The eager bytes are at all times the sum of the sizes of the eager blocks, all of them blocks of the
local sender, and at most half of the arena; no subtraction from them underflows. -/
theorem quarantine_and_eager_budget {baseAddr arenaSizeBytes granularity maxInflight : ℕ}
    {clock : ℕ → ℤ} (hclock : Monotone clock) {s₀ : CreditScheduler}
    (h₀ : ctor baseAddr arenaSizeBytes granularity maxInflight clock = some s₀)
    (calls : List ((List ℕ → ℕ) × Call)) :
    (∀ pick c flow busy quarantineFor x, Reclaims flow busy quarantineFor c → 0 < quarantineFor →
      (run s₀ calls).heldByFlow flow x = true → x ∉ busy →
        Spares (run s₀ calls) (pick, c) x ((run s₀ calls).regionBytes x) ∧
          ∀ later e, (∀ r ∈ reapTimes (call pick (run s₀ calls) c).2 (later ++ [e]),
              r < (run s₀ calls).now + quarantineFor) →
            Spares (run (call pick (run s₀ calls) c).2 later) e x ((run s₀ calls).regionBytes x)) ∧
      (run s₀ calls).mEagerHeldBytes
        = ((run s₀ calls).mEagerHeld.keys.map (run s₀ calls).mArena.blockBytes).sum ∧
      (∀ x ∈ (run s₀ calls).mEagerHeld, x ∈ (run s₀ calls).mLocalHeld) ∧
      (run s₀ calls).mEagerHeldBytes ≤ (run s₀ calls).mArena.capacity / 2 ∧
      ∀ x v, (run s₀ calls).mEagerHeld.find? x = some v →
        v ≤ (run s₀ calls).mEagerHeldBytes := by
  obtain ⟨hs, heager, hclock'⟩ : Owned (run s₀ calls).live (run s₀ calls).owns ∧
      EagerOk (run s₀ calls) ∧ (run s₀ calls).mClock = clock := by
    refine Machine.run_invariant (I := fun s : CreditScheduler => Owned s.live s.owns ∧ EagerOk s ∧
      s.mClock = clock) ⟨(ctor_owned h₀).1, ctor_eagerOk h₀⟩ ?_ calls
    rintro s e ⟨h₁, h₂, h₃⟩
    exact ⟨(call_owned e.1 h₁ e.2).1, h₂.step h₁ e, (clock_step s e).trans h₃⟩
  generalize run s₀ calls = s at hs heager hclock' ⊢
  refine ⟨fun pick c flow busy quarantineFor x hc hq hx hbusy => ?_, ?_,
    fun x hx => heager.mem_local hx, heager.half ▸ heager.budget, fun x v hx => heager.le hx⟩
  · have hquar := hc.quarantined hq hs (hclock' ▸ hclock) hx hbusy
    obtain ⟨H, dst, hH, hre⟩ := beforePass_reassigned hs c
    have hmid := hre.owned hH hs
    have hnot : ¬ ∃ bytes eager, c = .acquireLocal bytes eager := by
      rintro ⟨bytes, eager, rfl⟩
      cases hc
    obtain ⟨h₁, h₂, h₃⟩ := (grantRun_call pick s hnot).spares hmid hquar
    have hbytes := hre.bytes x (hmid.mem_live hquar.mem)
    refine ⟨⟨fun g hg => ?_, fun bytes eager off he => absurd ⟨bytes, eager, he⟩ hnot⟩,
      fun later e hreap => ?_⟩
    · rw [← hbytes]
      exact h₃ g hg
    · have := h₁.run later (call_owned pick hs c).1 e hreap
      rwa [h₂, hbytes] at this
  · rw [heager.sum, UMap.keys, List.map_map]
    rfl

/-- A flow with two blocks is reclaimed with a quarantine of 100 ticks. A reap that comes early and
the want of another flow leave its first block alone. -/
theorem quarantine_and_eager_budget_reclaimed : ∃ s₀ s, ctor 4096 64 16 2 (fun n => n) = some s₀ ∧
    run s₀ [(fun l => l.headD 0, .onWant [1] [10, 30])] = s ∧ s.heldByFlow [1] 0 = true ∧
      Spares (run (call (fun l => l.headD 0) s (.reclaimFlow [1] ∅ 100)).2
        [(fun l => l.headD 0, .reapQuarantine)]) (fun l => l.headD 0, .onWant [2] [10]) 0
          (s.regionBytes 0) := by
  have heval : (ctor 4096 64 16 2 fun n => n).map (fun s₀ =>
      ((run s₀ [(fun l => l.headD 0, .onWant [1] [10, 30])]).heldByFlow [1] 0,
        reapTimes (call (fun l => l.headD 0)
          (run s₀ [(fun l => l.headD 0, .onWant [1] [10, 30])]) (.reclaimFlow [1] ∅ 100)).2
          [(fun l => l.headD 0, .reapQuarantine), (fun l => l.headD 0, .onWant [2] [10])],
        (run s₀ [(fun l => l.headD 0, .onWant [1] [10, 30])]).now)) = some (true, [5], 3) := by
    decide
  obtain ⟨s₀, h₀, hvals⟩ := map_eq_some_iff.mp heval
  obtain ⟨hheld, hrest⟩ := Prod.ext_iff.mp hvals
  obtain ⟨htimes, hnow⟩ := Prod.ext_iff.mp hrest
  have hmono : Monotone fun n : ℕ => (n : ℤ) := fun a b hab => Int.ofNat_le.mpr hab
  have hspares := (quarantine_and_eager_budget hmono h₀
    [(fun l => l.headD 0, .onWant [1] [10, 30])]).1 (fun l => l.headD 0) _ [1] ∅ 100 0 .flow
      (by decide) hheld (not_mem_empty 0)
  refine ⟨s₀, _, h₀, rfl, hheld, hspares.2 [(fun l => l.headD 0, .reapQuarantine)]
    (fun l => l.headD 0, .onWant [2] [10]) fun r hr => ?_⟩
  dsimp only at htimes hnow
  rw [singleton_append, htimes] at hr
  rw [mem_singleton.mp hr, hnow]
  decide

end TrtLlm.CreditScheduler
