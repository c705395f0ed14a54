import TrtLlm.Bounce.CreditScheduler

/-!
What a pass of `schedule` does to the credit scheduler.

A turn of its loop either changes nothing but scheduling marks (`Quiet`) or hands one fresh
block to one flow (`GrantStep`); a whole pass is a sequence of such turns (`GrantRun`).
Every later result about the scheduler goes through these two relations and never opens
the loop again.

* `scheduleTurn_spec`: the inversion of one turn;
* `schedule_eq`: the fuel is enough, `schedule` satisfies the equation of the source's loop;
* `schedule_run`: a pass is a `GrantRun`.
-/

namespace TrtLlm.CreditScheduler

open Function Option UMap

/-- What a flow wants and holds, without its scheduling marks. -/
def flow? (s : CreditScheduler) (flow : Bytes) : Option (List ℕ × USet ℕ) :=
  (s.mFlows.find? flow).map fun st => (st.pending, st.held)

variable {flow : Bytes} {s s' s'' : CreditScheduler} {st : FlowState}

lemma flow?_of_find? (h : s.mFlows.find? flow = some st) :
    s.flow? flow = some (st.pending, st.held) := by
  rw [flow?, h, map_some]

/-- The members that a pass never touches. -/
structure SameRest (s s' : CreditScheduler) : Prop where
  baseAddr : s'.mBaseAddr = s.mBaseAddr
  localHeld : s'.mLocalHeld = s.mLocalHeld
  orphans : s'.mOrphans = s.mOrphans
  quarantined : s'.mQuarantined = s.mQuarantined
  eagerHeld : s'.mEagerHeld = s.mEagerHeld
  eagerHeldBytes : s'.mEagerHeldBytes = s.mEagerHeldBytes
  eagerBudgetBytes : s'.mEagerBudgetBytes = s.mEagerBudgetBytes
  maxInflight : s'.mMaxInflightChunksPerRequest = s.mMaxInflightChunksPerRequest

lemma SameRest.refl (s : CreditScheduler) : SameRest s s :=
  ⟨rfl, rfl, rfl, rfl, rfl, rfl, rfl, rfl⟩

lemma SameRest.trans (h : SameRest s s') (h' : SameRest s' s'') : SameRest s s'' :=
  ⟨h'.1.trans h.1, h'.2.trans h.2, h'.3.trans h.3, h'.4.trans h.4, h'.5.trans h.5,
    h'.6.trans h.6, h'.7.trans h.7, h'.8.trans h.8⟩

/-- Nothing but scheduling marks has changed. -/
structure Quiet (s s' : CreditScheduler) : Prop where
  rest : SameRest s s'
  arena : s'.mArena = s.mArena
  flows : ∀ f, s'.flow? f = s.flow? f

lemma Quiet.refl (s : CreditScheduler) : Quiet s s := ⟨SameRest.refl s, rfl, fun _ => rfl⟩

lemma Quiet.trans (h : Quiet s s') (h' : Quiet s' s'') : Quiet s s'' :=
  ⟨h.rest.trans h'.rest, h'.arena.trans h.arena, fun f => (h'.flows f).trans (h.flows f)⟩

/-- The head chunk of one flow has been granted one fresh block. -/
structure GrantStep (s s' : CreditScheduler) (g : Grant) : Prop where
  rest : SameRest s s'
  fresh : s.mArena.live? g.offset = none
  live : ∃ o, ∀ x, s'.mArena.live? x = if x = g.offset then some o else s.mArena.live? x
  bytes : ∀ x ≠ g.offset, s'.regionBytes x = s.regionBytes x
  fits : g.len ≤ s'.regionBytes g.offset
  addr : g.addr = (s.mBaseAddr + g.offset) % 2 ^ 64
  flows : ∃ rest held, s.flow? g.flow = some (g.len :: rest, held)
    ∧ held.size < s.mMaxInflightChunksPerRequest
    ∧ ∀ f, s'.flow? f = if f = g.flow then some (rest, USet.insert held g.offset) else s.flow? f

lemma Quiet.grantStep {g : Grant} (h : Quiet s s')
    (h' : GrantStep s' s'' g) : GrantStep s s'' g := by
  obtain ⟨rest, held, h1, h2, h3⟩ := h'.flows
  refine ⟨h.rest.trans h'.rest, h.arena ▸ h'.fresh, ?_, fun x hx => ?_, h'.fits, ?_, rest, held, ?_,
    ?_, fun f => ?_⟩
  · obtain ⟨o, ho⟩ := h'.live
    exact ⟨o, fun x => by rw [ho, h.arena]⟩
  · rw [h'.bytes x hx, regionBytes, regionBytes, h.arena]
  · rw [h'.addr, h.rest.baseAddr]
  · rw [← h.flows, h1]
  · rw [← h.rest.maxInflight]
    exact h2
  · rw [h3, h.flows]

/-- A pass: quiet turns and grants, in order. -/
inductive GrantRun : CreditScheduler → List Grant → CreditScheduler → Prop
  | done {s s' : CreditScheduler} : Quiet s s' → GrantRun s [] s'
  | skip {s s' s'' : CreditScheduler} {gs : List Grant} :
      Quiet s s' → GrantRun s' gs s'' → GrantRun s gs s''
  | grant {s s' s'' : CreditScheduler} {g : Grant} {gs : List Grant} :
      GrantStep s s' g → GrantRun s' gs s'' → GrantRun s (g :: gs) s''

/-! ### One turn of the loop -/

lemma headWant_eq_some {want : ℕ}
    (h : s.headWant st = some want) : st.pending = want :: st.pending.tail
      ∧ st.held.size < s.mMaxInflightChunksPerRequest := by
  rw [headWant] at h
  split at h
  · simp at h
  · rename_i w rest hp
    split_ifs at h with hc
    obtain rfl := some.inj h
    exact ⟨by rw [hp, List.tail_cons], by omega⟩

/-- Rewriting the scheduling marks of one flow is quiet. -/
lemma quiet_set {st' : FlowState} (hrest : SameRest s s') (harena : s'.mArena = s.mArena)
    (hflows : s'.mFlows = s.mFlows.set flow st') (hfind : s.mFlows.find? flow = some st)
    (hp : st'.pending = st.pending) (hh : st'.held = st.held) : Quiet s s' := by
  refine ⟨hrest, harena, fun f => ?_⟩
  rw [flow?, flow?, hflows, find?_set]
  by_cases hf : f = flow
  · rw [if_pos hf, hf, hfind, map_some, map_some, hp, hh]
  · rw [if_neg hf]

lemma maybeActivateDrain_quiet (s : CreditScheduler) : Quiet s s.maybeActivateDrain := by
  rw [maybeActivateDrain]
  split_ifs
  · exact Quiet.refl s
  · dsimp only
    split
    · exact Quiet.refl s
    · exact ⟨⟨rfl, rfl, rfl, rfl, rfl, rfl, rfl, rfl⟩, rfl, fun _ => rfl⟩

/-- `issueGrant` after a successful allocation grants the head chunk. -/
lemma issueGrant_step {pick : List ℕ → ℕ} {want off ringIdx : ℕ} {arena : BuddyAllocator}
    (hfind : s.mFlows.find? flow = some st)
    (hwant : s.headWant st = some want) (halloc : s.mArena.alloc pick want = (some off, arena))
    (hs' : Quiet (issueGrant { s with mArena := arena } flow st ringIdx off want).1 s') :
    GrantStep s s' (issueGrant { s with mArena := arena } flow st ringIdx off want).2 := by
  obtain ⟨hfresh, hle, -, hbytes, hlive⟩ := BuddyAllocator.alloc_some halloc
  obtain ⟨hpend, hcap⟩ := headWant_eq_some hwant
  have ha : s'.mArena = arena := hs'.arena
  have hrest : SameRest s (issueGrant { s with mArena := arena } flow st ringIdx off want).1 :=
    ⟨rfl, rfl, rfl, rfl, rfl, rfl, rfl, rfl⟩
  refine ⟨hrest.trans hs'.rest, hfresh, ?_, fun x hx => ?_, ?_, rfl, st.pending.tail, st.held, ?_,
    hcap, fun f => ?_⟩
  · rw [ha]; exact hlive
  · rw [regionBytes, ha]; exact hbytes x hx
  · rw [regionBytes, ha]; exact hle
  · change s.flow? flow = some (want :: st.pending.tail, st.held)
    rw [flow?_of_find? hfind, ← hpend]
  · rw [hs'.flows, flow?]
    change Option.map _ (find? (s.mFlows.set flow _) f)
      = if f = flow then some (st.pending.tail, USet.insert st.held off) else s.flow? f
    rw [find?_set]
    by_cases hf : f = flow
    · rw [if_pos hf, if_pos hf, map_some]
    · rw [if_neg hf, if_neg hf, flow?]

/-- How a turn that starts in `s` can end.  A turn that goes on leaves no drain flow. -/
def Turn.Spec (s : CreditScheduler) : Turn → Prop
  | .stop s' => Quiet s s'
  | .retry s' => Quiet s s' ∧ s'.mDrainFlow = none
  | .granted s' g => GrantStep s s' g ∧ s'.mDrainFlow = none

lemma Turn.Spec.of_quiet {t : Turn} (h : Quiet s s') (ht : t.Spec s') : t.Spec s := by
  cases t with
  | stop s'' => exact h.trans ht
  | retry s'' => exact ⟨h.trans ht.1, ht.2⟩
  | granted s'' g => exact ⟨h.grantStep ht.1, ht.2⟩

section

variable (pick : List ℕ → ℕ)

/-- A sweep never asks for a retry. -/
lemma sweep_spec (ks : List ℕ) : ∀ s : CreditScheduler,
    s.mDrainFlow = none → (sweep pick ks s).Spec s ∧ ∀ s', sweep pick ks s ≠ .retry s' := by
  induction ks with
  | nil =>
    intro s _
    exact ⟨Quiet.refl s, fun s' h => Turn.noConfusion h⟩
  | cons k ks ih =>
    intro s hd
    rw [sweep]
    split
    · exact ih s hd
    · rename_i st hfind
      split
      · exact ih s hd
      · rename_i want hwant
        split
        · split_ifs
          · exact ih s hd
          · obtain ⟨h1, h2⟩ := ih { s with
              mFlows := s.mFlows.set (s.ringAt k)
                { st with blockedAtGrantSequence := some s.mGrantSequence } } hd
            refine ⟨h1.of_quiet ?_, h2⟩
            exact quiet_set ⟨rfl, rfl, rfl, rfl, rfl, rfl, rfl, rfl⟩ rfl rfl hfind rfl rfl
        · rename_i off arena halloc
          refine ⟨⟨issueGrant_step hfind hwant halloc (Quiet.refl _), hd⟩, fun s' h => ?_⟩
          exact Turn.noConfusion h

/-- The drain branch asks for a retry only when its flow has no head chunk to grant. -/
lemma drainOrSweep_spec (s : CreditScheduler) :
    (drainOrSweep pick s).Spec s ∧ ∀ s', drainOrSweep pick s = .retry s' →
      ∃ flow, s.mDrainFlow = some flow
        ∧ ∀ st, s.mFlows.find? flow = some st → s.headWant st = none := by
  rw [drainOrSweep]
  split
  · rename_i hd
    obtain ⟨h1, h2⟩ := sweep_spec pick (List.range s.mRing.length) s hd
    exact ⟨h1, fun s' h => absurd h (h2 s')⟩
  · rename_i flow hd
    split
    · rename_i hnone
      refine ⟨⟨⟨⟨rfl, rfl, rfl, rfl, rfl, rfl, rfl, rfl⟩, rfl, fun _ => rfl⟩, rfl⟩, fun _ _ => ?_⟩
      exact ⟨flow, hd, fun st hst => by rw [hnone] at hst; cases hst⟩
    · rename_i st hfind
      split
      · rename_i hwant
        refine ⟨⟨⟨⟨rfl, rfl, rfl, rfl, rfl, rfl, rfl, rfl⟩, rfl, fun _ => rfl⟩, rfl⟩, fun _ _ => ?_⟩
        exact ⟨flow, hd, fun st' hst' => by rw [hfind] at hst'; cases hst'; exact hwant⟩
      · rename_i want hwant
        split
        · split_ifs
          · refine ⟨⟨⟨rfl, rfl, rfl, rfl, rfl, rfl, rfl, rfl⟩, rfl, fun _ => rfl⟩, fun s' h => ?_⟩
            cases h
          · obtain ⟨h1, h2⟩ := sweep_spec pick (List.range s.mRing.length)
              { s.tick with
                mFlows := s.mFlows.set flow
                  { st with blockedAtGrantSequence := some s.mGrantSequence }
                mDrainFlow := none } rfl
            refine ⟨h1.of_quiet ?_, fun s' h => absurd h (h2 s')⟩
            exact quiet_set ⟨rfl, rfl, rfl, rfl, rfl, rfl, rfl, rfl⟩ rfl rfl hfind rfl rfl
        · rename_i off arena halloc
          refine ⟨⟨issueGrant_step hfind hwant halloc ?_, rfl⟩, fun s' h => Turn.noConfusion h⟩
          exact ⟨⟨rfl, rfl, rfl, rfl, rfl, rfl, rfl, rfl⟩, rfl, fun _ => rfl⟩

/-- **One turn of the loop.** -/
lemma scheduleTurn_spec (s : CreditScheduler) : (scheduleTurn pick s).Spec s := by
  rw [scheduleTurn]
  split_ifs
  · exact Quiet.refl s
  · exact (drainOrSweep_spec pick _).1.of_quiet (maybeActivateDrain_quiet s)

end

/-! ### The fuel is enough -/

/-- The scan of `maybeActivateDrain` ends in a flow with a head chunk to grant. -/
lemma drainScan_head {threshold : ℕ} (ks : List ℕ) : ∀ acc : Option (ℕ × Bytes),
      (∀ b f, acc = some (b, f) → ∃ st, s.mFlows.find? f = some st ∧ s.headWant st ≠ none) →
      ∀ b f, ks.foldl (s.drainScan threshold) acc = some (b, f) →
        ∃ st, s.mFlows.find? f = some st ∧ s.headWant st ≠ none := by
  induction ks with
  | nil =>
    intro acc hacc b f h
    exact hacc b f h
  | cons k ks ih =>
    intro acc hacc b f h
    rw [List.foldl_cons] at h
    refine ih _ (fun b' f' h' => ?_) b f h
    rw [drainScan] at h'
    split at h'
    · exact hacc b' f' h'
    · rename_i st hfind
      split at h'
      · rename_i want blocked hwant hblocked
        have hhead : ∃ st, s.mFlows.find? (s.ringAt k) = some st ∧ s.headWant st ≠ none :=
          ⟨st, hfind, by rw [hwant]; exact some_ne_none _⟩
        split_ifs at h'
        · exact hacc b' f' h'
        · split at h'
          · cases h'
            exact hhead
          · split_ifs at h'
            · cases h'
              exact hhead
            · exact hacc b' f' h'
      · exact hacc b' f' h'

/-- A drain flow that was not there before has a head chunk to grant. -/
lemma maybeActivateDrain_head (hd : s.mDrainFlow = none)
    (h : s.maybeActivateDrain.mDrainFlow = some flow) :
    ∃ st, s.maybeActivateDrain.mFlows.find? flow = some st
      ∧ s.maybeActivateDrain.headWant st ≠ none := by
  rw [maybeActivateDrain] at h ⊢
  split_ifs at h ⊢ with hc
  · rw [hd] at h
    cases h
  · dsimp only at h ⊢
    split at h
    · rw [hd] at h
      cases h
    · rename_i b f hfold
      obtain rfl : f = flow := some.inj h
      exact drainScan_head _ none (fun _ _ h => by cases h) b f hfold

lemma Quiet.totalPending (h : Quiet s s') : s'.totalPending = s.totalPending := by
  refine total_congr fun f => ?_
  have := congrArg (fun o => (o.map fun p => p.1.length).getD 0) (h.flows f)
  simpa [flow?, weight, map_map, comp_def] using this

lemma GrantStep.totalPending {g : Grant} (h : GrantStep s s' g) :
    s'.totalPending + 1 = s.totalPending := by
  obtain ⟨rest, held, h1, -, h2⟩ := h.flows
  have hw : ∀ (t : CreditScheduler) (f : Bytes), t.mFlows.weight (fun _ st => st.pending.length) f
      = ((t.flow? f).map fun p => p.1.length).getD 0 := by
    intro t f
    simp [flow?, weight, map_map, comp_def]
  have hoff : ∀ f ≠ g.flow, s'.mFlows.weight (fun _ st => st.pending.length) f
      = s.mFlows.weight (fun _ st => st.pending.length) f := by
    intro f hf
    rw [hw, hw, h2, if_neg hf]
  have hsum := total_update g.flow hoff
  rw [hw, hw, h2, if_pos rfl, h1] at hsum
  simp only [map_some, getD_some, List.length_cons] at hsum
  change total _ _ + 1 = total _ _
  omega

variable (pick : List ℕ → ℕ)

/-- A turn that goes on lowers `scheduleMeasure`. -/
lemma scheduleTurn_measure (s : CreditScheduler) :
    (∀ s', scheduleTurn pick s = .retry s' → s'.scheduleMeasure < s.scheduleMeasure)
      ∧ ∀ s' g, scheduleTurn pick s = .granted s' g → s'.scheduleMeasure < s.scheduleMeasure := by
  have hspec := scheduleTurn_spec pick s
  constructor
  · intro s' h
    rw [h] at hspec
    rw [scheduleMeasure, scheduleMeasure, hspec.1.totalPending, hspec.2]
    cases hd : s.mDrainFlow with
    | some flow => simp
    | none =>
      -- a drain flow chosen in this very turn has a head chunk, so there is no retry
      exfalso
      rw [scheduleTurn] at h
      split_ifs at h
      obtain ⟨flow, h1, h2⟩ := (drainOrSweep_spec pick _).2 s' h
      obtain ⟨st, h3, h4⟩ := maybeActivateDrain_head hd h1
      exact h4 (h2 st h3)
  · intro s' g h
    rw [h] at hspec
    have := hspec.1.totalPending
    rw [scheduleMeasure, scheduleMeasure, hspec.2]
    simp only [isSome_none, Bool.false_eq_true, if_false]
    omega

/-- More fuel than `scheduleMeasure` makes no difference. -/
lemma scheduleLoop_enough (fuel : ℕ) : ∀ s : CreditScheduler,
    s.scheduleMeasure < fuel → scheduleLoop pick (fuel + 1) s = scheduleLoop pick fuel s := by
  induction fuel with
  | zero =>
    intro s h
    omega
  | succ n ih =>
    intro s h
    obtain ⟨h1, h2⟩ := scheduleTurn_measure pick s
    rw [scheduleLoop, scheduleLoop]
    cases ht : scheduleTurn pick s with
    | stop s' => rfl
    | retry s' => exact ih s' (by have := h1 s' ht; omega)
    | granted s' g =>
      show (g :: _, _) = (g :: _, _)
      rw [ih s' (by have := h2 s' g ht; omega)]

/-- Any fuel above `scheduleMeasure` gives what `schedule` gives. -/
lemma scheduleLoop_eq_schedule (s : CreditScheduler) {fuel : ℕ}
    (h : s.scheduleMeasure < fuel) : scheduleLoop pick fuel s = schedule pick s := by
  induction fuel, h using Nat.le_induction with
  | base => rfl
  | succ n hn ih => rw [scheduleLoop_enough pick n s (by omega), ih]

/-- **The loop of `schedule`**: the fuel never runs out, so that `schedule` satisfies the
equation of the loop it models. -/
theorem schedule_eq (s : CreditScheduler) : schedule pick s = match scheduleTurn pick s with
      | .stop s' => ([], s')
      | .retry s' => schedule pick s'
      | .granted s' g => (g :: (schedule pick s').1, (schedule pick s').2) := by
  obtain ⟨h1, h2⟩ := scheduleTurn_measure pick s
  rw [schedule, scheduleLoop]
  cases ht : scheduleTurn pick s with
  | stop s' => rfl
  | retry s' => exact scheduleLoop_eq_schedule pick s' (h1 s' ht)
  | granted s' g =>
    show (g :: _, _) = (g :: _, _)
    rw [scheduleLoop_eq_schedule pick s' (h2 s' g ht)]

/-! ### A whole pass -/

lemma scheduleLoop_run (fuel : ℕ) : ∀ s : CreditScheduler,
    GrantRun s (scheduleLoop pick fuel s).1 (scheduleLoop pick fuel s).2 := by
  induction fuel with
  | zero => exact fun s => .done (Quiet.refl s)
  | succ n ih =>
    intro s
    have hspec := scheduleTurn_spec pick s
    rw [scheduleLoop]
    cases ht : scheduleTurn pick s with
    | stop s' =>
      rw [ht] at hspec
      exact .done hspec
    | retry s' =>
      rw [ht] at hspec
      exact .skip hspec.1 (ih s')
    | granted s' g =>
      rw [ht] at hspec
      exact .grant hspec.1 (ih s')

/-- **A pass of `schedule` is a sequence of quiet turns and grants.** -/
theorem schedule_run (s : CreditScheduler) : GrantRun s (schedule pick s).1 (schedule pick s).2 :=
  scheduleLoop_run pick _ s

end TrtLlm.CreditScheduler
