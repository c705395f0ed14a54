import TrtLlm.Bounce.ScheduleTurns

/-!
The credit scheduler leaves no grantable flow waiting.

* `Drain.ringOk`, `Swept.ringOk`, `Granted.ringOk`: the parts of a turn keep the ring in order;
* `Pass.workConserving`: a pass ends with a drain under way, or with no head chunk that fits;
* `call_workConserving`: so it is after every call. A call without a pass makes no room: it leaves
  the arena alone or takes a block from it;
* **`creditScheduler_ring`**: the ring is in order and the scheduler work-conserving after every
  sequence of public calls, and `schedule` ends from there.
-/

namespace TrtLlm

open List Option UMap Prod

/-- A request fails if and only if it is empty or larger than every free block, whichever block
the free sets list first. -/
lemma BuddyAllocator.alloc_eq_none_iff (a : BuddyAllocator) (pick : List ℕ → ℕ) (bytes : ℕ) :
    (a.alloc pick bytes).1 = none ↔ ¬ (0 < bytes ∧ bytes ≤ a.val.maxAllocBytes) := by
  rw [← a.property.alloc_isSome_iff pick bytes, not_isSome_iff_eq_none]
  rfl

namespace CreditScheduler

/-! ### The turns keep the ring in order -/

variable {f : Bytes} {pick : List ℕ → ℕ} {s s' : CreditScheduler}

lemma size_insert_le (m : USet ℕ) (x : ℕ) : (USet.insert m x).size ≤ m.size + 1 :=
  Nat.succ_le_succ (size_erase_le m x)

lemma Over.mem (h : s.Over f) : f ∈ s.mFlows := by
  obtain ⟨st, -, -, hst, -⟩ := h
  exact mem_of_find? hst

lemma RingOk.setDrain (h : RingOk s) (hflows : s'.mFlows = s.mFlows)
    (hring : s'.mRing = s.mRing) (hcursor : s'.mCursor = s.mCursor)
    (hmax : s'.mMaxInflightChunksPerRequest = s.mMaxInflightChunksPerRequest)
    (hdrain : ∀ f, s'.mDrainFlow = some f → f ∈ s.mFlows) : RingOk s' := by
  refine ⟨⟨hring ▸ h.nodup, fun f => ?_, ?_, fun f hf => hflows ▸ hdrain f hf⟩, fun f st hst => ?_,
    fun f st hst => ?_⟩
  · rw [hring, hflows]
    exact h.mem_ring f
  · rw [hring, hcursor]
    exact h.cursor
  · exact h.busy f st (hflows ▸ hst)
  · rw [hmax]
    exact h.cap f st (hflows ▸ hst)

lemma Drain.ringOk {s₁ : CreditScheduler} {d : Option Bytes} (h : Drain s s₁ d) (hs : RingOk s) :
    RingOk s₁ := by
  cases h with
  | kept | free => exact hs
  | latched _ hover =>
    refine hs.setDrain rfl rfl rfl rfl fun f hf => ?_
    obtain rfl := some.inj hf
    exact hover.mem

lemma Swept.ringOk (h : Swept s s') (hs : RingOk s) : RingOk s' := by
  refine ⟨⟨h.ring ▸ hs.nodup, fun f => ?_, ?_, fun f hf => ?_⟩, fun f st' hst' => ?_,
    fun f st' hst' => ?_⟩
  · rw [h.ring, h.tracked]
    exact hs.mem_ring f
  · rw [h.ring, h.cursor]
    exact hs.cursor
  · rw [h.tracked]
    exact hs.drain f (h.drain ▸ hf)
  · obtain ⟨st, hst, hp, hh, -⟩ := h.marks f st' hst'
    rw [hp, hh]
    exact hs.busy f st hst
  · obtain ⟨st, hst, -, hh, -⟩ := h.marks f st' hst'
    rw [hh, h.maxInflight]
    exact hs.cap f st hst

lemma Granted.ringOk {g : Grant} (h : Granted s s' g) (hs : RingOk s) : RingOk s' := by
  obtain ⟨st, hst, hwant, t, hflows⟩ := h.flows
  have hcap := (headWant_eq_some hwant).2
  refine ⟨⟨h.ring ▸ hs.nodup, fun f => ?_, Or.inl h.cursor, fun f hf => ?_⟩, fun f st' hst' => ?_,
    fun f st' hst' => ?_⟩
  · rw [h.ring, hflows, UMap.mem_set, hs.mem_ring f]
    refine ⟨Or.inr, fun hx => hx.elim (fun heq => ?_) id⟩
    rw [heq]
    exact mem_of_find? hst
  · rw [h.drain] at hf
    cases hf
  · rw [hflows, find?_set] at hst'
    split_ifs at hst' with hf
    · obtain rfl := some.inj hst'
      exact Or.inr (Nat.succ_pos _)
    · exact hs.busy f st' hst'
  · rw [hflows, find?_set] at hst'
    rw [h.maxInflight]
    split_ifs at hst' with hf
    · obtain rfl := some.inj hst'
      exact (size_insert_le st.held g.offset).trans hcap
    · exact hs.cap f st' hst'

lemma ringOk_abandon {st : FlowState} (hs : RingOk s)
    (hst : s.mFlows.find? f = some st) : RingOk (s.abandon f st) := by
  refine ⟨⟨hs.nodup, fun f' => ?_, hs.cursor, fun f' hf' => ?_⟩, fun f' st' hst' => ?_,
    fun f' st' hst' => ?_⟩
  · rw [abandon, UMap.mem_set]
    refine (hs.mem_ring f').trans ⟨Or.inr, fun hx => hx.elim (fun heq => ?_) id⟩
    rw [heq]
    exact mem_of_find? hst
  · rw [abandon] at hf'
    cases hf'
  · rw [abandon, find?_set] at hst'
    split_ifs at hst' with hf
    · obtain rfl := some.inj hst'
      exact hs.busy f st hst
    · exact hs.busy f' st' hst'
  · rw [abandon, find?_set] at hst'
    split_ifs at hst' with hf
    · obtain rfl := some.inj hst'
      exact hs.cap f st hst
    · exact hs.cap f' st' hst'

/-! ### A pass leaves nothing grantable -/

/-- With no drain under way, no head chunk of a flow below its cap fits the arena. -/
def WorkConserving (s : CreditScheduler) : Prop :=
  s.mDrainFlow = none → ∀ f want, s.head? f = some want →
    ∀ pick : List ℕ → ℕ, (s.mArena.alloc pick want).1 = none

lemma mem_of_head? {want : ℕ} (h : s.head? f = some want) : f ∈ s.mFlows := by
  rw [CreditScheduler.head?, bind_eq_some_iff] at h
  obtain ⟨st, hst, -⟩ := h
  exact mem_of_find? hst

lemma NothingFits.workConserving (h : NothingFits pick s) (hswept : Swept s s')
    (hs : RingOk s) : WorkConserving s' := by
  intro _ f want hwant pick'
  rw [hswept.head?] at hwant
  have := h f ((hs.mem_ring f).mpr (mem_of_head? hwant)) want hwant
  rw [hswept.arena, BuddyAllocator.alloc_eq_none_iff]
  rwa [BuddyAllocator.alloc_eq_none_iff] at this

/-- A turn keeps the ring in order; one that stops leaves nothing grantable. -/
lemma TurnCase.workConserving {t : Turn} (h : TurnCase pick s t) (hs : RingOk s) :
    (∀ s', t = .stop s' → RingOk s' ∧ WorkConserving s') ∧ (∀ s', t = .retry s' → RingOk s') ∧
      ∀ s' g, t = .granted s' g → RingOk s' := by
  have hstop : ∀ {s₁ : CreditScheduler}, RingOk s₁ → WorkConserving s₁ →
      (∀ s', Turn.stop s₁ = .stop s' → RingOk s' ∧ WorkConserving s') ∧
        (∀ s', Turn.stop s₁ = .retry s' → RingOk s') ∧
          ∀ s' g, Turn.stop s₁ = .granted s' g → RingOk s' := by
    intro s₁ h₁ h₂
    refine ⟨fun s' heq => ?_, fun s' heq => Turn.noConfusion heq,
      fun s' g heq => Turn.noConfusion heq⟩
    obtain rfl := Turn.stop.inj heq
    exact ⟨h₁, h₂⟩
  have hgranted : ∀ {s₁ : CreditScheduler} {g₁ : Grant}, RingOk s₁ →
      (∀ s', Turn.granted s₁ g₁ = .stop s' → RingOk s' ∧ WorkConserving s') ∧
        (∀ s', Turn.granted s₁ g₁ = .retry s' → RingOk s') ∧
          ∀ s' g, Turn.granted s₁ g₁ = .granted s' g → RingOk s' := by
    intro s₁ g₁ h₁
    refine ⟨fun s' heq => Turn.noConfusion heq, fun s' heq => Turn.noConfusion heq,
      fun s' g heq => ?_⟩
    obtain ⟨rfl, -⟩ := Turn.granted.inj heq
    exact h₁
  cases h with
  | idle hring =>
    refine hstop hs fun _ f want hwant => ?_
    have := (hs.mem_ring f).mpr (mem_of_head? hwant)
    rw [hring] at this
    exact absurd this not_mem_nil
  | waits hdrain =>
    refine hstop ((sameFlows_tick _).ringOk (hdrain.ringOk hs)) fun hnone => ?_
    exact absurd (hdrain.mDrainFlow.symm.trans hnone) (some_ne_none _)
  | clears hdrain =>
    refine ⟨fun s' heq => Turn.noConfusion heq, fun s' heq => ?_,
      fun s' g heq => Turn.noConfusion heq⟩
    obtain rfl := Turn.retry.inj heq
    exact (hdrain.ringOk hs).setDrain rfl rfl rfl rfl fun f hf => absurd hf.symm (some_ne_none f)
  | drains hdrain hg => exact hgranted (hg.ringOk (hdrain.ringOk hs))
  | stops hdrain hswept hfits => exact hstop (hswept.ringOk hs) (hfits.workConserving hswept hs)
  | grants hdrain hswept hg => exact hgranted (hg.ringOk (hswept.ringOk hs))
  | abandonStops hdrain hst _ hswept hfits =>
    have hab := ringOk_abandon (hdrain.ringOk hs) hst
    exact hstop (hswept.ringOk hab) (hfits.workConserving hswept hab)
  | abandonGrants hdrain hst _ hswept hg =>
    exact hgranted (hg.ringOk (hswept.ringOk (ringOk_abandon (hdrain.ringOk hs) hst)))

/-- **A pass** keeps the ring in order and leaves nothing grantable. -/
lemma Pass.workConserving {gs : List Grant}
    (h : Pass pick s gs s') (hs : RingOk s) : RingOk s' ∧ WorkConserving s' := by
  induction h with
  | stop ht => exact ((scheduleTurn_case pick _).workConserving hs).1 _ ht
  | retry ht _ ih => exact ih (((scheduleTurn_case pick _).workConserving hs).2.1 _ ht)
  | granted ht _ ih => exact ih (((scheduleTurn_case pick _).workConserving hs).2.2 _ _ ht)

/-! ### Calls -/

lemma SameFlows.head? (h : SameFlows s s') (f : Bytes) : s'.head? f = s.head? f := by
  rw [CreditScheduler.head?, CreditScheduler.head?, h.flows]
  cases s.mFlows.find? f with
  | none => rfl
  | some st => rw [bind_some, bind_some, headWant, headWant, h.maxInflight]

/-- Without a pass nothing becomes grantable as long as no room is made. -/
lemma SameFlows.workConserving (h : SameFlows s s')
    (hroom : s'.mArena.val.maxAllocBytes ≤ s.mArena.val.maxAllocBytes) (hs : WorkConserving s) :
    WorkConserving s' := by
  intro hdrain f want hwant pick
  rw [h.head?] at hwant
  have := hs (h.drain ▸ hdrain) f want hwant pick
  rw [BuddyAllocator.alloc_eq_none_iff] at this ⊢
  omega

/-- `acquireLocal` makes no room, also where it gives its block back. -/
lemma maxAllocBytes_acquireLocal (pick : List ℕ → ℕ) (s : CreditScheduler) (bytes : ℕ)
    (eager : Bool) :
    (acquireLocal pick s bytes eager).2.mArena.val.maxAllocBytes ≤ s.mArena.val.maxAllocBytes := by
  rw [acquireLocal]
  rcases halloc : s.mArena.alloc pick bytes with ⟨_ | off, arena⟩
  · exact le_rfl
  have hval : s.mArena.val.alloc pick bytes = (some off, arena.val) := by
    have h₁ : (s.mArena.val.alloc pick bytes).1 = some off := congrArg fst halloc
    have h₂ : (s.mArena.alloc pick bytes).2 = arena := congrArg snd halloc
    rw [← h₂]
    exact Prod.ext h₁ rfl
  obtain ⟨hwf, hnone, hset, hmin, husable⟩ := BuddyBlocks.alloc_spec s.mArena.property hval
  have htaken : arena.val.maxAllocBytes ≤ s.mArena.val.maxAllocBytes := by
    refine s.mArena.property.maxAllocBytes_mono hwf hmin husable fun x o hx => ?_
    have hne : x ≠ off := by
      rintro rfl
      rw [hnone] at hx
      cases hx
    rw [hset, find?_set, if_neg hne, hx]
  have hback : (arena.free off).val.maxAllocBytes ≤ s.mArena.val.maxAllocBytes := by
    have hsame := s.mArena.property.free_alloc hval
    refine s.mArena.property.maxAllocBytes_mono
      (arena.free off).property hsame.minBlock hsame.usable
      fun x o hx => ?_
    exact (hsame.live x).trans hx
  dsimp only
  split_ifs
  · exact hback
  · exact htaken
  · exact htaken

/-- With nothing expired `reapQuarantine` only reads the clock. -/
lemma reapQuarantineUpdate_of_none
    (h : ¬ (s.mQuarantined.entries.any fun e => decide (e.2 ≤ s.now)) = true) :
    s.reapQuarantineUpdate = s.tick := by
  have hall : ∀ e ∈ s.mQuarantined.entries, ¬ e.2 ≤ s.now := by
    intro e he hle
    exact h (List.any_eq_true.mpr ⟨e, he, by simpa using hle⟩)
  rw [reapQuarantineUpdate]
  generalize s.mQuarantined.entries = es at hall
  induction es with
  | nil => rfl
  | cons e es ih =>
    rw [foldl_cons, reapRegion, if_neg (hall e mem_cons_self)]
    exact ih fun e' he' => hall e' (mem_cons_of_mem _ he')

/-- **One call** keeps the ring in order and the scheduler work-conserving. -/
lemma call_workConserving (pick : List ℕ → ℕ) (hs : RingOk s) (hw : WorkConserving s) (c : Call) :
    RingOk (call pick s c).2 ∧ WorkConserving (call pick s c).2 := by
  have hpass : ∀ s' : CreditScheduler, RingOk s' →
      RingOk (schedule pick s').2 ∧ WorkConserving (schedule pick s').2 := fun s' hs' =>
    (pass_schedule pick s').workConserving hs'
  have hquiet : ∀ s' : CreditScheduler, SameFlows s s' → s'.mArena = s.mArena →
      RingOk s' ∧ WorkConserving s' := fun s' hsame harena =>
    ⟨hsame.ringOk hs, hsame.workConserving (by rw [harena]) hw⟩
  have hbefore := ringOk_beforePass hs c
  cases c with
  | onWant | onScatterDone | reclaimFlow | freeOrphanRegion | releaseLocal => exact hpass _ hbefore
  | reclaimByPrefix pfx busy quarantineFor =>
    rw [beforePass] at hbefore
    rw [call, reclaimByPrefix]
    split_ifs at hbefore ⊢
    · exact ⟨hs, hw⟩
    · exact hpass _ hbefore
  | reapQuarantine =>
    rw [call, reapQuarantine]
    split_ifs with hany
    · exact hpass _ hbefore
    · rw [reapQuarantineUpdate_of_none hany]
      exact hquiet _ (sameFlows_tick s) rfl
  | pollDrain =>
    rw [call, pollDrain]
    split_ifs with hdrain
    · exact hpass _ ((sameFlows_tick s).ringOk hs)
    · exact hquiet _ (sameFlows_tick s) rfl
    · exact ⟨hs, hw⟩
  | staleFlows => exact hquiet _ (sameFlows_tick s) rfl
  | acquireLocal bytes eager =>
    have hsame := sameFlows_acquireLocal pick s bytes eager
    exact ⟨hsame.ringOk hs, hsame.workConserving (maxAllocBytes_acquireLocal pick s bytes eager) hw⟩
  | promoteLocal offset =>
    refine hquiet _ (sameFlows_promoteLocal s offset) ?_
    rw [call, promoteLocal]
    split <;> rfl
  | setDrainTimeout timeout => exact hquiet _ (sameFlows_setDrainTimeout s timeout) rfl

/-- A new scheduler tracks nothing. -/
lemma ctor_workConserving {baseAddr arenaSizeBytes granularity maxInflight : ℕ} {clock : ℕ → ℤ}
    (h : ctor baseAddr arenaSizeBytes granularity maxInflight clock = some s) :
    RingOk s ∧ WorkConserving s := by
  rw [ctor, map_eq_some_iff] at h
  obtain ⟨arena, -, rfl⟩ := h
  refine ⟨⟨⟨nodup_nil, fun f => ?_, Or.inr ⟨rfl, rfl⟩, fun f hf => ?_⟩, fun f st hst => ?_,
    fun f st hst => ?_⟩, fun _ f want hwant => ?_⟩
  · exact iff_of_false not_mem_nil (not_mem_empty f)
  · exact absurd hf.symm (some_ne_none f)
  · exact absurd hst.symm (some_ne_none st)
  · exact absurd hst.symm (some_ne_none st)
  · exact absurd (mem_of_head? hwant) (not_mem_empty f)

/-- **The ring of the credit scheduler.** After any sequence of public calls on a new scheduler
the ring holds every tracked flow once and nothing else, the cursor lies in it, every tracked
flow has a pending chunk or a held region and is within its cap, and a drain names a tracked
flow. With no drain under way no flow below its cap has a head chunk that the arena could
allocate. From there `schedule` ends. -/
theorem creditScheduler_ring {baseAddr arenaSizeBytes granularity maxInflight : ℕ} {clock : ℕ → ℤ}
    {s₀ : CreditScheduler}
    (h₀ : ctor baseAddr arenaSizeBytes granularity maxInflight clock = some s₀)
    (calls : List ((List ℕ → ℕ) × Call)) :
    RingOk (run s₀ calls) ∧ WorkConserving (run s₀ calls) ∧
      ∀ pick, ∃ gs s', Pass pick (run s₀ calls) gs s'
        ∧ schedule pick (run s₀ calls) = (gs, s') := by
  have hrun : RingOk (run s₀ calls) ∧ WorkConserving (run s₀ calls) := by
    refine Machine.run_invariant (I := fun s => RingOk s ∧ WorkConserving s)
      (ctor_workConserving h₀) ?_ calls
    rintro s ⟨pick, c⟩ ⟨hs, hw⟩
    exact call_workConserving pick hs hw c
  exact ⟨hrun.1, hrun.2, fun pick => ⟨_, _, pass_schedule pick _, rfl⟩⟩

/-- Two flows that each want half of an arena of four blocks and a little more: one waits. -/
theorem creditScheduler_ring_twoFlows : ∃ s₀, ctor 4096 64 16 2 (fun n => n) = some s₀ ∧
    (run s₀ [(fun l => l.headD 0, .onWant [1] [30]), (fun l => l.headD 0, .onWant [2] [40])]).mRing
      = [[1], [2]] ∧
    WorkConserving (run s₀
      [(fun l => l.headD 0, .onWant [1] [30]), (fun l => l.headD 0, .onWant [2] [40])]) := by
  have heval : (ctor 4096 64 16 2 fun n => n).map (fun s =>
      (run s [(fun l => l.headD 0, .onWant [1] [30]),
        (fun l => l.headD 0, .onWant [2] [40])]).mRing)
      = some [[1], [2]] := by decide
  obtain ⟨s₀, h₀, hring⟩ := map_eq_some_iff.mp heval
  exact ⟨s₀, h₀, hring, (creditScheduler_ring h₀ _).2.1⟩

end CreditScheduler

end TrtLlm
