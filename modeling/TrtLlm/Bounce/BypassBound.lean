import TrtLlm.Bounce.WorkConserving

/-!
How often a blocked head chunk is passed.

A flow whose head chunk does not fit keeps the sequence number of the first sweep that passed it.
Once `bypassThreshold` grants have gone to other flows, every turn of `schedule` begins with a
drain, so that no sweep takes place and no flow is marked any more. From then on a grant goes to a
flow that was marked before, or that was being drained, and takes its mark away: each flow that is
in the ring at that time is granted at most one chunk more.

* `Moment`, `moments`: a run cut into what a call does before its pass and the turns of the pass;
* `follow_moments`: these go through the states of the run;
* `Updated`: what happens before a pass marks no flow and latches no drain;
* `Passed`: how far the others have come, with the flows `granted` since the threshold;
* **`bypass_bounded`**: the bound, over every stretch of every run.
-/

namespace TrtLlm.CreditScheduler

open List Option UMap

/-! ### The moments of a run -/

/-- What the scheduler is at: the part of a call before its pass, or one turn of a pass. -/
inductive Work where
  | update (c : Call)
  | turn (pick : List ℕ → ℕ)

/-- One moment of a run, and the grant issued in it. -/
structure Moment where
  work : Work
  before : CreditScheduler
  after : CreditScheduler
  grant : Option Grant

/-- One turn of a pass. -/
def turnMoment (pick : List ℕ → ℕ) (s : CreditScheduler) : Moment :=
  ⟨.turn pick, s, (scheduleTurn pick s).state, (scheduleTurn pick s).grant?⟩

/-- The turns of a pass, on the fuel of `scheduleLoop`. -/
def turnMoments (pick : List ℕ → ℕ) : ℕ → CreditScheduler → List Moment
  | 0, _ => []
  | fuel + 1, s =>
    turnMoment pick s :: match scheduleTurn pick s with
      | .stop _ => []
      | .retry s' => turnMoments pick fuel s'
      | .granted s' _ => turnMoments pick fuel s'

def passMoments (pick : List ℕ → ℕ) (s : CreditScheduler) : List Moment :=
  turnMoments pick (s.scheduleMeasure + 1) s

def callMoments (pick : List ℕ → ℕ) (s : CreditScheduler) (c : Call) : List Moment :=
  ⟨.update c, s, updated pick s c, none⟩ ::
    if hasPass s c then passMoments pick (updated pick s c) else []

/-- The moments of a run. -/
def moments (s : CreditScheduler) : List ((List ℕ → ℕ) × Call) → List Moment
  | [] => []
  | (pick, c) :: calls => callMoments pick s c ++ moments (call pick s c).2 calls

/-- A moment is what the code does: the update of a call, or a turn. -/
inductive MomentOk : Moment → Prop
  | update (pick : List ℕ → ℕ) (s : CreditScheduler) (c : Call) :
      MomentOk ⟨.update c, s, updated pick s c, none⟩
  | turn (pick : List ℕ → ℕ) (s : CreditScheduler) : MomentOk (turnMoment pick s)

/-- The moments follow one another. -/
inductive Follow : CreditScheduler → List Moment → CreditScheduler → Prop
  | nil (s : CreditScheduler) : Follow s [] s
  | cons {m : Moment} {ms : List Moment} {s' : CreditScheduler} :
      MomentOk m → Follow m.after ms s' → Follow m.before (m :: ms) s'

variable {R b n want : ℕ} {d : Option Bytes} {f flow : Bytes} {g : Grant}
  {granted ring : List Bytes} {m : Moment} {ms : List Moment} {pick : List ℕ → ℕ}
  {s s' s₁ : CreditScheduler} {t : Turn}

lemma Follow.append {ms' : List Moment} (h : Follow s ms s₁)
    (h' : Follow s₁ ms' s') : Follow s (ms ++ ms') s' := by
  induction h with
  | nil => exact h'
  | cons hm _ ih => exact .cons hm (ih h')

lemma Follow.split {ms' : List Moment} (h : Follow s (ms ++ ms') s') :
    ∃ s₁, Follow s ms s₁ ∧ Follow s₁ ms' s' := by
  induction ms generalizing s with
  | nil => exact ⟨s, .nil s, h⟩
  | cons m ms ih =>
    cases h with
    | cons hm hms =>
      obtain ⟨s₁, h₁, h₂⟩ := ih hms
      exact ⟨s₁, .cons hm h₁, h₂⟩

/-- The turns of a pass follow one another. -/
lemma follow_passMoments (pick : List ℕ → ℕ) (s : CreditScheduler) :
    Follow s (passMoments pick s) (schedule pick s).2 := by
  suffices h : ∀ fuel s, scheduleMeasure s < fuel →
      Follow s (turnMoments pick fuel s) (scheduleLoop pick fuel s).2 from
    h _ s (Nat.lt_succ_self _)
  intro fuel
  induction fuel with
  | zero =>
    intro s hs
    exact absurd hs (Nat.not_lt_zero _)
  | succ n ih =>
    intro s hs
    obtain ⟨hretry, hgranted⟩ := scheduleTurn_measure pick s
    have hturn : ∀ {ms s'}, Follow (scheduleTurn pick s).state ms s' →
        Follow s (turnMoment pick s :: ms) s' := fun h => .cons (.turn pick s) h
    rw [turnMoments, scheduleLoop]
    cases ht : scheduleTurn pick s with
    | stop s' =>
      rw [ht] at hturn
      exact hturn (.nil _)
    | retry s' =>
      rw [ht] at hturn
      exact hturn (ih s' (by have := hretry s' ht; omega))
    | granted s' g =>
      rw [ht] at hturn
      exact hturn (ih s' (by have := hgranted s' g ht; omega))

lemma follow_callMoments (pick : List ℕ → ℕ) (s : CreditScheduler) (c : Call) :
    Follow s (callMoments pick s c) (call pick s c).2 := by
  rw [callMoments, call_eq_updated]
  split_ifs
  · exact .cons (.update pick s c) (follow_passMoments pick (updated pick s c))
  · exact .cons (.update pick s c) (.nil _)

section

variable (s : CreditScheduler) (calls : List ((List ℕ → ℕ) × Call))

/-- **The moments of a run** lead from its first state to its last. -/
theorem follow_moments : Follow s (moments s calls) (run s calls) := by
  induction calls generalizing s with
  | nil => exact .nil s
  | cons e calls ih =>
    obtain ⟨pick, c⟩ := e
    exact (follow_callMoments pick s c).append (ih (call pick s c).2)

end

lemma ringOk_updated (pick : List ℕ → ℕ) (hs : RingOk s) (c : Call) :
    RingOk (updated pick s c) := by
  have hbefore := ringOk_beforePass hs c
  cases c with
  | acquireLocal bytes eager => exact (sameFlows_acquireLocal pick s bytes eager).ringOk hs
  | _ => exact hbefore

lemma TurnCase.ringOk (h : TurnCase pick s t) (hs : RingOk s) : RingOk t.state := by
  obtain ⟨hstop, hretry, hgranted⟩ := h.workConserving hs
  cases t with
  | stop s' => exact (hstop s' rfl).1
  | retry s' => exact hretry s' rfl
  | granted s' g => exact hgranted s' g rfl

lemma MomentOk.ringOk (h : MomentOk m) (hs : RingOk m.before) : RingOk m.after := by
  cases h with
  | update pick s c => exact ringOk_updated pick hs c
  | turn pick s => exact (scheduleTurn_case pick s).ringOk hs

lemma Follow.ringOk (h : Follow s ms s') (hs : RingOk s) : RingOk s' := by
  induction h with
  | nil => exact hs
  | cons hm _ ih => exact ih (hm.ringOk hs)

/-! ### Nothing is marked before a pass -/

/-- The sequence number at which the head chunk of the flow was first passed. -/
def mark (s : CreditScheduler) (flow : Bytes) : Option ℕ :=
  (s.mFlows.find? flow).bind FlowState.blockedAtGrantSequence

lemma mark_of_find? {st : FlowState}
    (h : s.mFlows.find? flow = some st) : s.mark flow = st.blockedAtGrantSequence := by
  rw [mark, h, bind_some]

lemma mem_of_mark (h : s.mark flow = some b) : flow ∈ s.mFlows := by
  rw [mark, bind_eq_some_iff] at h
  obtain ⟨st, hst, -⟩ := h
  exact mem_of_find? hst

/-- What happens before a pass: no grant, no new drain, and marks are kept or cleared. Only a flow
in `wanted` may stay tracked and lose its mark. -/
structure Updated (wanted : Set Bytes) (s s' : CreditScheduler) : Prop where
  grantSequence : s'.mGrantSequence = s.mGrantSequence
  drain : ∀ h, s'.mDrainFlow = some h → s.mDrainFlow = some h
  marks : ∀ h b, s'.mark h = some b → s.mark h = some b
  keeps : ∀ h ∉ wanted, h ∈ s'.mFlows → s'.mark h = s.mark h

lemma Updated.trans {wanted : Set Bytes} {s'' : CreditScheduler} (h : Updated wanted s s')
    (h' : Updated wanted s' s'') (htracked : ∀ f, f ∈ s''.mFlows → f ∈ s'.mFlows) :
    Updated wanted s s'' :=
  ⟨h'.grantSequence.trans h.grantSequence, fun f hf => h.drain f (h'.drain f hf),
    fun f b hf => h.marks f b (h'.marks f b hf),
    fun f hf hmem => (h'.keeps f hf hmem).trans (h.keeps f hf (htracked f hmem))⟩

lemma SameFlows.updated (h : SameFlows s s') (wanted : Set Bytes) : Updated wanted s s' := by
  have hmark : ∀ f, s'.mark f = s.mark f := fun f => by rw [mark, mark, h.flows]
  exact ⟨h.grantSequence, fun f hf => h.drain ▸ hf, fun f b hf => hmark f ▸ hf,
    fun f _ _ => hmark f⟩

lemma mDrainFlow_dropFromRing (h : (dropFromRing s flow).mDrainFlow = some f) :
    s.mDrainFlow = some f := by
  simp only [dropFromRing] at h
  by_cases hd : s.mDrainFlow = some flow
  · simp only [hd, if_true] at h
    split_ifs at h
  · simp only [hd, if_false] at h
    split_ifs at h <;> exact h

@[simp] lemma dropFromRing_grantSequence (s : CreditScheduler) (flow : Bytes) :
    (dropFromRing s flow).mGrantSequence = s.mGrantSequence := by
  obtain ⟨d, r, c, h⟩ := dropFromRing_eq s flow
  rw [h]

/-- A flow is dropped. -/
lemma updated_drop (wanted : Set Bytes) (s : CreditScheduler) (flow : Bytes) :
    Updated wanted s (dropFromRing { s with mFlows := s.mFlows.erase flow } flow) := by
  have hfind : ∀ f, (dropFromRing { s with mFlows := s.mFlows.erase flow } flow).mFlows.find? f
      = if f = flow then none else s.mFlows.find? f := fun f => by
    rw [dropFromRing_mFlows, find?_erase]
  refine ⟨by rw [dropFromRing_grantSequence], fun f hf => ?_, fun f b hf => ?_, fun f _ hmem => ?_⟩
  · have := mDrainFlow_dropFromRing hf
    exact this
  · rw [mark, hfind] at hf
    split_ifs at hf with hne
    · exact absurd hf.symm (some_ne_none b)
    · exact hf
  · rw [dropFromRing_mFlows, mem_erase] at hmem
    rw [mark, hfind, if_neg hmem.1, mark]

lemma mem_of_mem_drop
    (h : f ∈ (dropFromRing { s with mFlows := s.mFlows.erase flow } flow).mFlows) :
    f ∈ s.mFlows := by
  rw [dropFromRing_mFlows, mem_erase] at h
  exact h.2

lemma mem_of_mem_eraseIfDone (h : f ∈ (eraseIfDone s flow).mFlows) : f ∈ s.mFlows := by
  rw [eraseIfDone] at h
  split at h
  · exact h
  · split_ifs at h
    · exact mem_of_mem_drop h
    · exact h

lemma updated_eraseIfDone (wanted : Set Bytes) (s : CreditScheduler) (flow : Bytes) :
    Updated wanted s (eraseIfDone s flow) := by
  rw [eraseIfDone]
  split
  · exact (SameFlows.refl s).updated wanted
  · split_ifs
    · exact updated_drop wanted s flow
    · exact (SameFlows.refl s).updated wanted

section

variable (wanted : Set Bytes) (busy : USet ℕ) (quarantineFor : ℤ)

lemma updated_dropFlow (acc : CreditScheduler × List ℕ) (flow : Bytes) :
    Updated wanted acc.1 (dropFlow busy quarantineFor acc flow).1 ∧
      ∀ f, f ∈ (dropFlow busy quarantineFor acc flow).1.mFlows → f ∈ acc.1.mFlows := by
  rw [dropFlow]
  split
  · exact ⟨(SameFlows.refl acc.1).updated wanted, fun f hf => hf⟩
  · rename_i st _
    have hsame := sameFlows_dropRegions busy quarantineFor st.held.keys acc
    refine ⟨(hsame.updated wanted).trans (updated_drop wanted _ flow) fun f => mem_of_mem_drop,
      fun f hf => ?_⟩
    have := mem_of_mem_drop hf
    rwa [hsame.flows] at this

lemma updated_dropFlows (flows : List Bytes) (acc : CreditScheduler × List ℕ) :
    Updated wanted acc.1 (flows.foldl (dropFlow busy quarantineFor) acc).1 ∧
      ∀ f, f ∈ (flows.foldl (dropFlow busy quarantineFor) acc).1.mFlows → f ∈ acc.1.mFlows := by
  induction flows generalizing acc with
  | nil => exact ⟨(SameFlows.refl acc.1).updated wanted, fun f hf => hf⟩
  | cons flow flows ih =>
    obtain ⟨h₁, h₂⟩ := updated_dropFlow wanted busy quarantineFor acc flow
    obtain ⟨h₃, h₄⟩ := ih (dropFlow busy quarantineFor acc flow)
    exact ⟨h₁.trans h₃ h₄, fun f hf => h₂ f (h₄ f hf)⟩

end

lemma updated_onWantUpdate (s : CreditScheduler) (flow : Bytes) (chunkBytes : List ℕ) :
    Updated {flow} s (onWantUpdate s flow chunkBytes) := by
  rw [onWantUpdate]
  set st := (s.mFlows.find? flow).getD {}
  set s' := { s.tick with
    mFlows := s.mFlows.set flow
      { st with pending := chunkBytes, blockedAtGrantSequence := none, lastProgress := s.now } }
    with hs'
  have hmark : ∀ f, s'.mark f = if f = flow then none else s.mark f := by
    intro f
    rw [mark, hs', find?_set]
    split_ifs <;> rfl
  have hset : Updated {flow} s s' := by
    refine ⟨rfl, fun f hf => hf, fun f b hf => ?_, fun f hf _ => ?_⟩
    · rw [hmark] at hf
      split_ifs at hf with hne
      exact hf
    · have hne : f ≠ flow := hf
      rw [hmark, if_neg hne]
  split_ifs
  · exact hset.trans (updated_eraseIfDone _ s' flow) fun f => mem_of_mem_eraseIfDone
  · refine hset.trans ?_ ?_
    · rw [ensureInRing]
      split_ifs
      · exact (SameFlows.refl s').updated _
      · exact ⟨rfl, fun f hf => hf, fun f b hf => hf, fun f _ _ => rfl⟩
    · intro f hf
      rw [ensureInRing] at hf
      split_ifs at hf <;> exact hf

lemma updated_onScatterDoneUpdate (wanted : Set Bytes) (s : CreditScheduler) (flow : Bytes)
    (offset : ℕ) : Updated wanted s (onScatterDoneUpdate s flow offset) := by
  rw [onScatterDoneUpdate]
  split
  · exact (SameFlows.refl s).updated wanted
  · rename_i st hfind
    split_ifs
    · refine Updated.trans ?_ (updated_eraseIfDone wanted _ flow) fun f => mem_of_mem_eraseIfDone
      set s' := { s.tick with
        mArena := s.mArena.free offset
        mFlows := s.mFlows.set flow
          { st with held := st.held.erase offset, lastProgress := s.now } } with hs'
      have hmark : ∀ f, s'.mark f = s.mark f := by
        intro f
        rw [mark, hs', find?_set]
        split_ifs with hf
        · rw [hf, mark_of_find? hfind]
          rfl
        · rfl
      exact ⟨rfl, fun f hf => hf, fun f b hf => hmark f ▸ hf, fun f _ _ => hmark f⟩
    · exact updated_eraseIfDone wanted s flow

/-- The flow whose wants the call replaces. -/
def wantedBy : Call → Set Bytes
  | .onWant flow _ => {flow}
  | _ => ∅

/-- **Before its pass** a call marks no flow and latches no drain. -/
lemma updated_updated (pick : List ℕ → ℕ) (s : CreditScheduler) (c : Call) :
    Updated (wantedBy c) s (updated pick s c) := by
  cases c with
  | onWant flow chunkBytes => exact updated_onWantUpdate s flow chunkBytes
  | onScatterDone flow offset => exact updated_onScatterDoneUpdate _ s flow offset
  | reclaimByPrefix pfx busy quarantineFor =>
    simp only [updated, beforePass]
    split_ifs
    · exact (SameFlows.refl s).updated _
    · exact (updated_dropFlows _ busy quarantineFor (s.victims pfx) (s, [])).1
  | reclaimFlow flow busy quarantineFor => exact
    (updated_dropFlow _ busy quarantineFor (s, []) flow).1
  | freeOrphanRegion offset => exact (sameFlows_freeOrphanRegionUpdate s offset).updated _
  | reapQuarantine => exact (sameFlows_reapQuarantineUpdate s).updated _
  | pollDrain =>
    simp only [updated, beforePass]
    split_ifs
    · exact (sameFlows_tick s).updated _
    · exact (SameFlows.refl s).updated _
  | staleFlows => exact (sameFlows_tick s).updated _
  | acquireLocal bytes eager => exact (sameFlows_acquireLocal pick s bytes eager).updated _
  | promoteLocal offset => exact (sameFlows_promoteLocal s offset).updated _
  | releaseLocal offset => exact (sameFlows_releaseLocalUpdate s offset).updated _
  | setDrainTimeout timeout => exact (sameFlows_setDrainTimeout s timeout).updated _

/-! ### What a turn does to the marks -/

lemma Drain.flows (h : Drain s s₁ d) : s₁.mFlows = s.mFlows := by
  cases h <;> rfl

lemma Drain.mark (h : Drain s s₁ d) (f : Bytes) : s₁.mark f = s.mark f := by
  rw [CreditScheduler.mark, CreditScheduler.mark, h.flows]

lemma Drain.grantSequence (h : Drain s s₁ d) : s₁.mGrantSequence = s.mGrantSequence := by
  cases h <;> rfl

lemma Drain.not_over (h : Drain s s₁ none) : ∀ f ∈ s.mRing, ¬ s.Over f := by
  cases h with
  | free _ hover => exact hover

lemma Over.mark (h : s.Over f) : ∃ b, s.mark f = some b := by
  obtain ⟨st, b, -, hst, -, hb, -⟩ := h
  exact ⟨b, (mark_of_find? hst).trans hb⟩

/-- A sweep keeps the marks there are, and gives the others the present sequence number. -/
lemma Swept.mark (h : Swept s s') (f : Bytes) :
    s'.mark f = s.mark f ∨ s.mark f = none ∧ s'.mark f = some s.mGrantSequence := by
  cases hfind' : s'.mFlows.find? f with
  | none =>
    have hnot : f ∉ s.mFlows := fun hmem =>
      find?_eq_none_iff.mp hfind' ((h.tracked f).mpr hmem)
    left
    rw [CreditScheduler.mark, CreditScheduler.mark, hfind', find?_eq_none_iff.mpr hnot]
  | some st' =>
    obtain ⟨st, hst, -, -, hb⟩ := h.marks f st' hfind'
    rw [mark_of_find? hfind', mark_of_find? hst]
    exact hb

/-- A grant takes the mark of its flow away. -/
lemma Granted.mark (h : Granted s s' g) (f : Bytes) :
    s'.mark f = if f = g.flow then none else s.mark f := by
  obtain ⟨st, -, -, t, hflows⟩ := h.flows
  rw [CreditScheduler.mark, hflows, find?_set]
  split_ifs <;> rfl

/-- The flow `f` waits since the sequence number `b`, and `n` grants have gone to others. -/
structure Waits (f : Bytes) (b n : ℕ) (s : CreditScheduler) : Prop where
  mark : s.mark f = some b
  count : s.mGrantSequence % 2 ^ 64 = (b + n) % 2 ^ 64

/-- The number of bypassing grants is counted exactly. -/
lemma sub64_of_count {x : ℕ} (h : x % 2 ^ 64 = (b + n) % 2 ^ 64) (hn : n < 2 ^ 64) :
    sub64 x b = n := by
  rw [sub64]
  omega

lemma Granted.waits (h : Granted s s' g) (hs : Waits f b n s)
    (hf : g.flow ≠ f) : Waits f b (n + 1) s' := by
  refine ⟨?_, ?_⟩
  · rw [h.mark, if_neg hf.symm]
    exact hs.mark
  · rw [h.grantSequence]
    have := hs.count
    omega

lemma Swept.waits (h : Swept s s') (hs : Waits f b n s) : Waits f b n s' := by
  refine ⟨?_, h.grantSequence ▸ hs.count⟩
  obtain hmark | ⟨hmark, -⟩ := h.mark f
  · exact hmark.trans hs.mark
  · rw [hs.mark] at hmark
    exact absurd hmark (some_ne_none b)

lemma Drain.waits (h : Drain s s₁ d) (hs : Waits f b n s) : Waits f b n s₁ :=
  ⟨(h.mark f).trans hs.mark, h.grantSequence ▸ hs.count⟩

/-- A turn that grants nothing to `f` and abandons no drain keeps `f` waiting. -/
lemma TurnCase.keepsWaiting (h : TurnCase pick s t) (habandon : ¬ s.AbandonsDrain pick)
    (hgrant : ∀ g, t.grant? = some g → g.flow ≠ f) (hs : Waits f b n s) :
    Waits f b (n + t.grant?.toList.length) t.state := by
  cases h with
  | idle _ => exact hs
  | waits hdrain => exact ⟨(hdrain.waits hs).mark, (hdrain.waits hs).count⟩
  | clears hdrain => exact ⟨(hdrain.waits hs).mark, (hdrain.waits hs).count⟩
  | drains hdrain hg => exact hg.waits (hdrain.waits hs) (hgrant _ rfl)
  | stops _ hswept _ => exact hswept.waits hs
  | grants _ hswept hg => exact hg.waits (hswept.waits hs) (hgrant _ rfl)
  | abandonStops _ _ hab => exact absurd hab habandon
  | abandonGrants _ _ hab => exact absurd hab habandon

/-- The sweep that marks `f` for the first time may go on to a grant. -/
lemma TurnCase.firstMark (h : TurnCase pick s t) (habandon : ¬ s.AbandonsDrain pick)
    (hfirst : s.mark f = none)
    (hmark : t.state.mark f = some b) : Waits f b t.grant?.toList.length t.state := by
  have hsame : s.mark f ≠ some b := by
    rw [hfirst]
    exact (some_ne_none b).symm
  have hseq : ∀ {s₁ : CreditScheduler}, Swept s s₁ → s₁.mark f = some b → s.mGrantSequence = b := by
    intro s₁ hswept hb
    obtain heq | ⟨-, heq⟩ := hswept.mark f
    · exact absurd (heq.symm.trans hb) hsame
    · exact some.inj (heq.symm.trans hb)
  cases h with
  | idle _ => exact absurd hmark hsame
  | waits hdrain => exact absurd ((hdrain.mark f).symm.trans hmark) hsame
  | clears hdrain => exact absurd ((hdrain.mark f).symm.trans hmark) hsame
  | drains hdrain hg =>
    rw [Turn.state, hg.mark, hdrain.mark, hfirst, ite_self] at hmark
    exact absurd hmark.symm (some_ne_none b)
  | stops _ hswept _ =>
    refine ⟨hmark, ?_⟩
    rw [Turn.state, hswept.grantSequence, hseq hswept hmark]
    rfl
  | grants _ hswept hg =>
    have hb := hmark
    rw [Turn.state, hg.mark] at hb
    split_ifs at hb
    refine ⟨hmark, ?_⟩
    rw [Turn.state, hg.grantSequence, hswept.grantSequence, hseq hswept hb, Nat.mod_mod]
    rfl
  | abandonStops _ _ hab => exact absurd hab habandon
  | abandonGrants _ _ hab => exact absurd hab habandon

/-! ### After the threshold -/

/-- The flows `granted` since the threshold was reached were in the `ring` at that time, and those
that are marked or drained now were too and have not been granted anything since. -/
structure LastRound (f : Bytes) (ring granted : List Bytes) (s : CreditScheduler) : Prop where
  nodup : granted.Nodup
  mem_ring : ∀ h ∈ granted, h ∈ ring
  self : f ∈ ring ∧ f ∉ granted
  marked : ∀ h b, s.mark h = some b → h ∈ ring ∧ h ∉ granted
  drained : ∀ h, s.mDrainFlow = some h → h ∈ ring ∧ h ∉ granted

/-- All flows that wait or are drained are in the ring. -/
lemma RingOk.lastRound (h : RingOk s) (hf : f ∈ s.mFlows) : LastRound f s.mRing [] s := by
  refine ⟨nodup_nil, fun h hmem => absurd hmem not_mem_nil,
    ⟨(h.mem_ring f).mpr hf, not_mem_nil⟩, fun f' b hb => ?_, fun f' hd => ?_⟩
  · exact ⟨(h.mem_ring f').mpr (mem_of_mark hb), not_mem_nil⟩
  · exact ⟨(h.mem_ring f').mpr (h.drain f' hd), not_mem_nil⟩

/-- At most one grant for every flow of the ring but `f`. -/
lemma LastRound.length_lt (h : LastRound f ring granted s) : granted.length < ring.length := by
  have hsub : f :: granted ⊆ ring := by
    intro x hx
    obtain rfl | hx := mem_cons.mp hx
    · exact h.self.1
    · exact h.mem_ring x hx
  have hnodup : (f :: granted).Nodup := nodup_cons.mpr ⟨h.self.2, h.nodup⟩
  exact (subperm_of_subset hnodup hsub).length_le

lemma Updated.lastRound {wanted : Set Bytes} (h : Updated wanted s s')
    (hs : LastRound f ring granted s) :
    LastRound f ring granted s' :=
  ⟨hs.nodup, hs.mem_ring, hs.self, fun f' b hb => hs.marked f' b (h.marks f' b hb),
    fun f' hd => hs.drained f' (h.drain f' hd)⟩

/-- The drain a turn begins with is one of the flows left. -/
lemma Drain.lastRound {d : Bytes} (h : Drain s s₁ (some d)) (hs : LastRound f ring granted s) :
    LastRound f ring granted s₁ := by
  refine ⟨hs.nodup, hs.mem_ring, hs.self, fun f' b hb => hs.marked f' b (h.mark f' ▸ hb),
    fun f' hd => ?_⟩
  cases h with
  | kept hd' => exact hs.drained f' hd
  | latched _ hover =>
    obtain rfl : d = f' := some.inj hd
    obtain ⟨b, hb⟩ := hover.mark
    exact hs.marked d b hb

/-- A grant to the drained flow ends its part. -/
lemma Granted.lastRound (h : Granted s s' g) (hdrain : s.mDrainFlow = some g.flow) (hf : g.flow ≠ f)
    (hs : LastRound f ring granted s) : LastRound f ring (g.flow :: granted) s' := by
  obtain ⟨hring, hnot⟩ := hs.drained g.flow hdrain
  refine ⟨nodup_cons.mpr ⟨hnot, hs.nodup⟩, fun f' hf' => ?_, ⟨hs.self.1, fun hmem => ?_⟩,
    fun f' b hb => ?_, fun f' hd => ?_⟩
  · obtain rfl | hf' := mem_cons.mp hf'
    · exact hring
    · exact hs.mem_ring f' hf'
  · exact (mem_cons.mp hmem).elim (fun heq => hf heq.symm) hs.self.2
  · rw [h.mark] at hb
    split_ifs at hb with hne
    obtain ⟨h₁, h₂⟩ := hs.marked f' b hb
    exact ⟨h₁, fun hmem => (mem_cons.mp hmem).elim hne h₂⟩
  · rw [h.drain] at hd
    exact absurd hd.symm (some_ne_none f')

/-- **With a flow over the threshold** every turn begins with a drain, and no sweep takes place. -/
lemma TurnCase.lastRound (h : TurnCase pick s t) (habandon : ¬ s.AbandonsDrain pick)
    (hgrant : ∀ g, t.grant? = some g → g.flow ≠ f) (hover : s.Over f) (hmem : f ∈ s.mRing)
    (hs : LastRound f ring granted s) :
    LastRound f ring (t.grant?.toList.map Grant.flow ++ granted) t.state := by
  have hfree : ¬ Drain s s none := fun hnone => hnone.not_over f hmem hover
  cases h with
  | idle _ => exact hs
  | waits hdrain =>
    have h₁ := hdrain.lastRound hs
    exact ⟨h₁.nodup, h₁.mem_ring, h₁.self, h₁.marked, h₁.drained⟩
  | clears hdrain =>
    have h₁ := hdrain.lastRound hs
    exact ⟨h₁.nodup, h₁.mem_ring, h₁.self, h₁.marked, fun f' hd => absurd hd.symm (some_ne_none f')⟩
  | drains hdrain hg =>
    exact hg.lastRound hdrain.mDrainFlow (hgrant _ rfl) (hdrain.lastRound hs)
  | stops hdrain _ _ => exact absurd hdrain hfree
  | grants hdrain _ _ => exact absurd hdrain hfree
  | abandonStops _ _ hab => exact absurd hab habandon
  | abandonGrants _ _ hab => exact absurd hab habandon

/-! ### A stretch of a run -/

/-- The moment is a turn that abandons the drain. -/
def Moment.Abandons (m : Moment) : Prop :=
  match m.work with
  | .update _ => False
  | .turn pick => m.before.AbandonsDrain pick

/-- In this moment `f` keeps its head chunk, below its cap, with at most `R` flows in the ring.  It
is not granted the chunk, no new WANT takes the place of its wants, and no drain is abandoned. -/
structure Moment.Keeps (f : Bytes) (want R : ℕ) (m : Moment) : Prop where
  head : m.after.head? f = some want
  ring : m.after.mRing.length ≤ R
  wants : ∀ chunkBytes, m.work ≠ .update (.onWant f chunkBytes)
  drain : ¬ m.Abandons
  grant : ∀ g, m.grant = some g → g.flow ≠ f

/-- The largest threshold while the ring has at most `R` flows. -/
def bypassLimit (R : ℕ) : ℕ := max kMinimumBypassGrants (kBypassRounds * R)

/-- How far the others have come: below the threshold, or in the last round. -/
def Passed (f : Bytes) (R b n : ℕ) (s : CreditScheduler) : Prop :=
  Waits f b n s ∧ (n < bypassLimit R ∨ ∃ ring granted, LastRound f ring granted s ∧
    ring.length ≤ R ∧ n = bypassLimit R + granted.length)

/-- `f` is over the threshold in its last round. -/
lemma over_of_waits (hs : Waits f b n s)
    (hhead : s.head? f = some want) (hring : s.mRing.length ≤ R) (hn : bypassLimit R ≤ n)
    (hlt : n < 2 ^ 64) : s.Over f := by
  obtain ⟨st, hst, hwant⟩ := bind_eq_some_iff.mp hhead
  refine ⟨st, b, want, hst, hwant, (mark_of_find? hst).symm.trans hs.mark, ?_⟩
  rw [sub64_of_count hs.count hlt]
  calc s.bypassThreshold ≤ bypassLimit R :=
        max_le_max le_rfl (Nat.mul_le_mul_left kBypassRounds hring)
    _ ≤ n := hn

/-- **One moment.** -/
lemma MomentOk.passed (h : MomentOk m)
    (hbound : bypassLimit R + R ≤ 2 ^ 64) (hkeeps : m.Keeps f want R) (hok : RingOk m.before)
    (hhead : m.before.head? f = some want) (hring : m.before.mRing.length ≤ R)
    (hs : Passed f R b n m.before) : Passed f R b (n + m.grant.toList.length) m.after := by
  obtain ⟨hwaits, hcase⟩ := hs
  have htracked : f ∈ m.after.mFlows := mem_of_head? hkeeps.head
  have hok' := h.ringOk hok
  cases h with
  | update pick s c =>
    have hup := updated_updated pick s c
    have hnot : f ∉ wantedBy c := by
      intro hmem
      cases c with
      | onWant flow chunkBytes =>
        obtain rfl : f = flow := hmem
        exact hkeeps.wants chunkBytes rfl
      | _ => exact hmem
    refine ⟨⟨(hup.keeps f hnot htracked).trans hwaits.mark, ?_⟩, ?_⟩
    · exact hup.grantSequence ▸ hwaits.count
    · refine hcase.imp id ?_
      rintro ⟨ring, granted, hlast, hle, hn⟩
      exact ⟨ring, granted, hup.lastRound hlast, hle, hn⟩
  | turn pick s =>
    have hturn := scheduleTurn_case pick s
    have hnext := hturn.keepsWaiting hkeeps.drain hkeeps.grant hwaits
    refine ⟨hnext, ?_⟩
    obtain hlt | ⟨ring, granted, hlast, hle, hn⟩ := hcase
    · -- the threshold is reached by the last of the grants, if at all
      obtain hlt' | hge := Nat.lt_or_ge (n + (turnMoment pick s).grant.toList.length)
        (bypassLimit R)
      · exact Or.inl hlt'
      · have hone : (turnMoment pick s).grant.toList.length ≤ 1 := by
          cases (turnMoment pick s).grant <;> simp
        refine Or.inr ⟨_, [], hok'.lastRound htracked, hkeeps.ring, ?_⟩
        rw [length_nil]
        omega
    · have hround := hlast.length_lt
      have hover : s.Over f := over_of_waits hwaits hhead hring (by omega) (by omega)
      have hmem : f ∈ s.mRing := (hok.mem_ring f).mpr (mem_of_head? hhead)
      refine Or.inr ⟨ring, _, hturn.lastRound hkeeps.drain hkeeps.grant hover hmem hlast, hle, ?_⟩
      rw [length_append, length_map, hn]
      change bypassLimit R + granted.length + (scheduleTurn pick s).grant?.toList.length = _
      omega

lemma length_grants_cons (m : Moment) (ms : List Moment) : ((m :: ms).filterMap Moment.grant).length
      = m.grant.toList.length + (ms.filterMap Moment.grant).length := by
  rw [filterMap_cons]
  cases m.grant with
  | none => simp
  | some g => simp [Nat.add_comm]

/-- A stretch of moments. -/
lemma Follow.passed (h : Follow s ms s') (hbound : bypassLimit R + R ≤ 2 ^ 64)
    (hkeeps : ∀ m ∈ ms, m.Keeps f want R) (hok : RingOk s) (hhead : s.head? f = some want)
    (hring : s.mRing.length ≤ R) (hs : Passed f R b n s) :
    Passed f R b (n + (ms.filterMap Moment.grant).length) s' := by
  induction h generalizing n with
  | nil => exact hs
  | @cons m ms _ hm _ ih =>
    have hm' := hkeeps m mem_cons_self
    have := ih (fun m' hm'' => hkeeps m' (mem_cons_of_mem m hm'')) (hm.ringOk hok) hm'.head
      hm'.ring (hm.passed hbound hm' hok hhead hring hs)
    rw [length_grants_cons, ← Nat.add_assoc]
    exact this

lemma Passed.le (h : Passed f R b n s) : n ≤ bypassLimit R + R := by
  obtain ⟨-, hlt | ⟨ring, granted, hlast, hle, hn⟩⟩ := h
  · omega
  · have := hlast.length_lt
    omega

/-- The first mark starts the count. -/
lemma MomentOk.passed_first (h : MomentOk m)
    (hkeeps : m.Keeps f want R) (hfirst : m.before.mark f = none)
    (hmark : m.after.mark f = some b) : Passed f R b m.grant.toList.length m.after := by
  cases h with
  | update pick s c =>
    have := (updated_updated pick s c).marks f b hmark
    rw [hfirst] at this
    exact absurd this.symm (some_ne_none b)
  | turn pick s =>
    refine ⟨(scheduleTurn_case pick s).firstMark hkeeps.drain hfirst hmark, Or.inl ?_⟩
    have hone : (turnMoment pick s).grant.toList.length ≤ 1 := by
      cases (turnMoment pick s).grant <;> simp
    have height : kMinimumBypassGrants ≤ bypassLimit R := le_max_left _ _
    rw [kMinimumBypassGrants] at height
    omega

/-- **Bounded bypass.** In every run, let `first` be the moment in which the head chunk of `f` is
first recorded as blocked, and let `f` keep that head chunk, below its cap, in that moment and in
those of `rest` that follow, while no drain is abandoned by its time box and the chunk is not
granted. Then at most `max 8 (2 * R) + R` grants are issued meanwhile, where `R` bounds the size
of the ring. The bound is a count of 64 bits, as the sizes of all vectors allow. -/
theorem bypass_bounded {baseAddr arenaSizeBytes granularity maxInflight : ℕ} {clock : ℕ → ℤ}
    {s₀ : CreditScheduler}
    (h₀ : ctor baseAddr arenaSizeBytes granularity maxInflight clock = some s₀)
    (calls : List ((List ℕ → ℕ) × Call)) {before rest later : List Moment} {first : Moment}
    (hrun : moments s₀ calls = before ++ (first :: rest ++ later)) {f : Bytes} {want R b : ℕ}
    (hfirst : first.before.mark f = none) (hmark : first.after.mark f = some b)
    (hkeeps : ∀ m ∈ first :: rest, m.Keeps f want R) (hbound : max 8 (2 * R) + R ≤ 2 ^ 64) :
    ((first :: rest).filterMap Moment.grant).length ≤ max 8 (2 * R) + R := by
  have hfollow := follow_moments s₀ calls
  rw [hrun] at hfollow
  obtain ⟨s₁, hbefore, hstretch⟩ := hfollow.split
  obtain ⟨s₂, hstretch, -⟩ := hstretch.split
  have hok := hbefore.ringOk (ctor_workConserving h₀).1
  cases hstretch with
  | cons hm hrest =>
    have hk := hkeeps first mem_cons_self
    have hpassed := hrest.passed hbound (fun m hm' => hkeeps m (mem_cons_of_mem first hm'))
      (hm.ringOk hok) hk.head hk.ring (hm.passed_first hk hfirst hmark)
    rw [length_grants_cons]
    exact hpassed.le

/-- Three flows on an arena of four blocks: the second one wants all of it and waits, and a small
chunk of the third passes it. -/
theorem bypass_bounded_threeFlows : ∃ s₀ before first rest later,
    ctor 4096 64 16 2 (fun n => n) = some s₀ ∧
      moments s₀ [(fun l => l.headD 0, .onWant [1] [30]), (fun l => l.headD 0, .onWant [2] [40]),
        (fun l => l.headD 0, .onWant [3] [10])] = before ++ (first :: rest ++ later) ∧
      first.before.mark [2] = none ∧ first.after.mark [2] = some 1 ∧
      ((first :: rest).filterMap Moment.grant).map Grant.flow = [[3]] ∧
      ((first :: rest).filterMap Moment.grant).length ≤ max 8 (2 * 3) + 3 := by
  set calls : List ((List ℕ → ℕ) × Call) := [(fun l => l.headD 0, .onWant [1] [30]),
    (fun l => l.headD 0, .onWant [2] [40]), (fun l => l.headD 0, .onWant [3] [10])]
  -- the stretch from the fifth moment on, evaluated
  have hmarks : (ctor 4096 64 16 2 fun n => n).map (fun s₀ => ((moments s₀ calls).drop 4).map
      fun m => (m.before.mark [2], m.after.mark [2], m.grant.map Grant.flow))
      = some [(none, some 1, none), (some 1, some 1, none), (some 1, some 1, some [3]),
          (some 1, some 1, none)] := by decide
  have hall : (ctor 4096 64 16 2 fun n => n).map (fun s₀ => ((moments s₀ calls).drop 4).all
      fun m => decide (m.after.head? [2] = some 40 ∧ m.after.mRing.length ≤ 3 ∧
        m.before.maybeActivateDrain.mDrainFlow = none) &&
          match m.work with
          | .update (.onWant flow _) => flow != [2]
          | _ => true) = some true := by decide
  obtain ⟨s₀, h₀, hmarks⟩ := map_eq_some_iff.mp hmarks
  rw [h₀, map_some] at hall
  replace hall := some.inj hall
  obtain ⟨first, rest, hstretch⟩ : ∃ first rest, (moments s₀ calls).drop 4 = first :: rest := by
    cases hd : (moments s₀ calls).drop 4 with
    | nil =>
      rw [hd] at hmarks
      cases hmarks
    | cons first rest => exact ⟨first, rest, rfl⟩
  rw [hstretch] at hmarks hall
  have hrun : moments s₀ calls = (moments s₀ calls).take 4 ++ (first :: rest ++ []) := by
    rw [append_nil, ← hstretch, take_append_drop]
  have hgrants : ((first :: rest).filterMap Moment.grant).map Grant.flow = [[3]] := by
    have := congrArg (filterMap fun p => p.2.2) hmarks
    rw [filterMap_map] at this
    rw [map_filterMap]
    exact this
  obtain ⟨hfirst, -⟩ := List.cons.inj hmarks
  obtain ⟨hnone, hrest⟩ := Prod.ext_iff.mp hfirst
  refine ⟨s₀, _, first, rest, [], h₀, hrun, hnone, (Prod.ext_iff.mp hrest).1, hgrants, ?_⟩
  suffices hkeeps : ∀ m ∈ first :: rest, m.Keeps [2] 40 3 from
    bypass_bounded h₀ calls hrun hnone (Prod.ext_iff.mp hrest).1 hkeeps (by decide)
  intro m hm
  have hm' := List.all_eq_true.mp hall m hm
  rw [Bool.and_eq_true, decide_eq_true_eq] at hm'
  obtain ⟨⟨hhead, hring, hdrain⟩, hwork⟩ := hm'
  refine ⟨hhead, hring, fun chunkBytes hw => ?_, fun hab => ?_, fun g hg hflow => ?_⟩
  · rw [hw] at hwork
    exact absurd hwork (by simp)
  · rw [Moment.Abandons] at hab
    cases hw : m.work with
    | update c =>
      rw [hw] at hab
      exact hab
    | turn pick =>
      rw [hw] at hab
      obtain ⟨f, -, -, hf, -⟩ := hab
      rw [hdrain] at hf
      exact absurd hf.symm (some_ne_none f)
  · have hmem : g.flow ∈ ((first :: rest).filterMap Moment.grant).map Grant.flow :=
      List.mem_map.mpr ⟨g, mem_filterMap.mpr ⟨m, hm, hg⟩, rfl⟩
    rw [hgrants, hflow] at hmem
    exact absurd hmem (by decide)

end TrtLlm.CreditScheduler
