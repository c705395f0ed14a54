import TrtLlm.Bounce.RingInvariant

/-!
The turns of `schedule` in detail: what one of them does to the marks of the flows, to the drain
and to the cursor.

* `Over`: the head chunk of a flow has been passed by more grants than the threshold allows.
  `maybeActivateDrain` latches such a flow if there is one (`latches`);
* `Swept`, `Granted`: a sweep marks the flows it passes as blocked, and ends in a grant or not;
* **`TurnCase`**: all ways a turn can end, one constructor for each. `scheduleTurn_case` is the
  inversion that the results about runs use.
-/

namespace TrtLlm.CreditScheduler

open List Option Nat UMap

/-- The head chunk that a flow could be granted, below its cap. -/
def head? (s : CreditScheduler) (flow : Bytes) : Option ℕ := (s.mFlows.find? flow).bind s.headWant

variable {d : Option Bytes} {flow : Bytes} {s s' s₁ : CreditScheduler} {st : FlowState}

lemma head?_of_find? (h : s.mFlows.find? flow = some st) : s.head? flow = s.headWant st := by
  rw [head?, h, bind_some]

/-- The number of grants after which a blocked head chunk is drained. -/
def bypassThreshold (s : CreditScheduler) : ℕ :=
  max kMinimumBypassGrants (kBypassRounds * s.mRing.length)

/-- The head chunk of the flow is blocked and has been passed too often. -/
def Over (s : CreditScheduler) (flow : Bytes) : Prop :=
  ∃ st blocked want, s.mFlows.find? flow = some st ∧ s.headWant st = some want ∧
    st.blockedAtGrantSequence = some blocked ∧
      s.bypassThreshold ≤ sub64 s.mGrantSequence blocked

/-! ### The scan for a flow to drain -/

/-- A sweep from the cursor meets every key of the ring. -/
lemma exists_ringAt (h : flow ∈ s.mRing) : ∃ k ∈ range s.mRing.length, s.ringAt k = flow := by
  have hidx : s.mRing.idxOf flow < s.mRing.length := idxOf_lt_length_of_mem h
  have hpos : 0 < s.mRing.length := by omega
  refine ⟨(s.mRing.idxOf flow + (s.mRing.length - s.mCursor % s.mRing.length)) % s.mRing.length,
    mem_range.mpr (mod_lt _ hpos), ?_⟩
  have hcursor := mod_lt s.mCursor hpos
  have hplace : (s.mCursor +
      (s.mRing.idxOf flow + (s.mRing.length - s.mCursor % s.mRing.length)) % s.mRing.length) %
        s.mRing.length = s.mRing.idxOf flow := by
    calc (s.mCursor +
          (s.mRing.idxOf flow + (s.mRing.length - s.mCursor % s.mRing.length)) % s.mRing.length) %
            s.mRing.length
        = (s.mCursor % s.mRing.length +
            (s.mRing.idxOf flow + (s.mRing.length - s.mCursor % s.mRing.length))) %
              s.mRing.length := by
          rw [add_mod_mod, mod_add_mod]
      _ = (s.mRing.idxOf flow + s.mRing.length) % s.mRing.length := by
          congr 1
          omega
      _ = s.mRing.idxOf flow := by rw [add_mod_right, mod_eq_of_lt hidx]
  rw [ringAt, hplace, getD_eq_getElem _ _ hidx, getElem_idxOf hidx]

/-- One turn of the scan: the accumulator is kept, or a flow over the threshold takes its place. -/
lemma drainScan_cases (s : CreditScheduler) (acc : Option (ℕ × Bytes)) (k : ℕ) :
    (s.drainScan s.bypassThreshold acc k = acc ∧ (acc = none → ¬ s.Over (s.ringAt k))) ∨
      ∃ b, s.drainScan s.bypassThreshold acc k = some (b, s.ringAt k) ∧ s.Over (s.ringAt k) := by
  rw [drainScan]
  cases hfind : s.mFlows.find? (s.ringAt k) with
  | none =>
    refine Or.inl ⟨rfl, fun _ => ?_⟩
    rintro ⟨st, b, want, hst, -⟩
    rw [hfind] at hst
    cases hst
  | some st =>
    cases hwant : s.headWant st with
    | none =>
      refine Or.inl ⟨by simp [hwant], fun _ => ?_⟩
      rintro ⟨st', b, want, hst, hw, -⟩
      rw [hfind] at hst
      cases hst
      rw [hwant] at hw
      cases hw
    | some want =>
      cases hblocked : st.blockedAtGrantSequence with
      | none =>
        refine Or.inl ⟨by simp [hwant, hblocked], fun _ => ?_⟩
        rintro ⟨st', b, want', hst, -, hb, -⟩
        rw [hfind] at hst
        cases hst
        rw [hblocked] at hb
        cases hb
      | some blocked =>
        simp only [hwant, hblocked]
        split_ifs with hlt
        · refine Or.inl ⟨rfl, fun _ => ?_⟩
          rintro ⟨st', b, want', hst, -, hb, hge⟩
          rw [hfind] at hst
          cases hst
          rw [hblocked] at hb
          cases hb
          omega
        · have hover : s.Over (s.ringAt k) :=
            ⟨st, blocked, want, hfind, hwant, hblocked, not_lt.mp hlt⟩
          cases acc with
          | none => exact Or.inr ⟨blocked, rfl, hover⟩
          | some o =>
            obtain ⟨oldest, f⟩ := o
            dsimp only
            split_ifs
            · exact Or.inr ⟨blocked, rfl, hover⟩
            · exact Or.inl ⟨rfl, fun h => False.elim h⟩

/-- The scan over some places finds a flow over the threshold, if there is one. -/
lemma foldl_drainScan (s : CreditScheduler) (ks : List ℕ) (acc : Option (ℕ × Bytes))
    (hacc : ∀ b f, acc = some (b, f) → s.Over f) :
    (∀ b f, ks.foldl (s.drainScan s.bypassThreshold) acc = some (b, f) → s.Over f) ∧
      (ks.foldl (s.drainScan s.bypassThreshold) acc = none →
        acc = none ∧ ∀ k ∈ ks, ¬ s.Over (s.ringAt k)) := by
  induction ks generalizing acc with
  | nil => exact ⟨hacc, fun h => ⟨h, fun k hk => absurd hk not_mem_nil⟩⟩
  | cons k ks ih =>
    rw [foldl_cons]
    obtain ⟨hkeep, hnone⟩ | ⟨b, htake, hover⟩ := drainScan_cases s acc k
    · rw [hkeep]
      obtain ⟨h₁, h₂⟩ := ih acc hacc
      refine ⟨h₁, fun h => ⟨(h₂ h).1, fun k' hk' => ?_⟩⟩
      obtain rfl | hk' := mem_cons.mp hk'
      · exact hnone (h₂ h).1
      · exact (h₂ h).2 k' hk'
    · rw [htake]
      obtain ⟨h₁, h₂⟩ := ih (some (b, s.ringAt k)) fun b' f hf => by
        cases hf
        exact hover
      exact ⟨h₁, fun h => absurd (h₂ h).1 (some_ne_none _)⟩

/-- **What `maybeActivateDrain` does**: it keeps a drain, or latches a flow over the threshold,
and if it does neither there is no such flow. -/
lemma maybeActivateDrain_cases (s : CreditScheduler) (hring : s.mRing ≠ []) :
    (s.maybeActivateDrain = s ∧ ((∃ f, s.mDrainFlow = some f) ∨ s.mDrainFlow = none ∧
      ∀ f ∈ s.mRing, ¬ s.Over f)) ∨
      ∃ f, s.mDrainFlow = none ∧ s.Over f ∧
        s.maybeActivateDrain = { s.tick with mDrainFlow := some f, mDrainSince := s.now } := by
  rw [maybeActivateDrain]
  cases hdrain : s.mDrainFlow with
  | some f => exact Or.inl ⟨by simp, Or.inl ⟨f, rfl⟩⟩
  | none =>
    rw [if_neg (by simp [hring])]
    obtain ⟨hsome, hnone⟩ := foldl_drainScan s (range s.mRing.length) none
      fun _ _ h => absurd h.symm (some_ne_none _)
    dsimp only
    cases hfold : (range s.mRing.length).foldl
        (s.drainScan (max kMinimumBypassGrants (kBypassRounds * s.mRing.length))) none with
    | none =>
      refine Or.inl ⟨rfl, Or.inr ⟨rfl, fun f hf => ?_⟩⟩
      obtain ⟨k, hk, rfl⟩ := exists_ringAt hf
      exact (hnone hfold).2 k hk
    | some o =>
      obtain ⟨b, f⟩ := o
      exact Or.inr ⟨f, rfl, hsome b f hfold, rfl⟩

/-! ### A sweep and a grant -/

/-- A sweep that has granted nothing so far: flows that did not fit are marked as blocked. -/
structure Swept (s s' : CreditScheduler) : Prop where
  arena : s'.mArena = s.mArena
  ring : s'.mRing = s.mRing
  cursor : s'.mCursor = s.mCursor
  drain : s'.mDrainFlow = s.mDrainFlow
  maxInflight : s'.mMaxInflightChunksPerRequest = s.mMaxInflightChunksPerRequest
  grantSequence : s'.mGrantSequence = s.mGrantSequence
  tracked : ∀ f, f ∈ s'.mFlows ↔ f ∈ s.mFlows
  marks : ∀ f st', s'.mFlows.find? f = some st' → ∃ st, s.mFlows.find? f = some st ∧
    st'.pending = st.pending ∧ st'.held = st.held ∧
      (st'.blockedAtGrantSequence = st.blockedAtGrantSequence ∨
        st.blockedAtGrantSequence = none ∧ st'.blockedAtGrantSequence = some s.mGrantSequence)

lemma Swept.refl (s : CreditScheduler) : Swept s s :=
  ⟨rfl, rfl, rfl, rfl, rfl, rfl, fun _ => Iff.rfl, fun _ st hst => ⟨st, hst, rfl, rfl, Or.inl rfl⟩⟩

/-- One more flow is marked. -/
lemma swept_mark {f : Bytes} (hfind : s.mFlows.find? f = some st)
    (hblocked : st.blockedAtGrantSequence = none) : Swept s { s with
      mFlows := s.mFlows.set f { st with blockedAtGrantSequence := some s.mGrantSequence } } := by
  refine ⟨rfl, rfl, rfl, rfl, rfl, rfl, fun f' => ?_, fun f' st' hst' => ?_⟩
  · rw [UMap.mem_set]
    refine ⟨fun h => h.elim (fun heq => ?_) id, Or.inr⟩
    rw [heq]
    exact mem_of_find? hfind
  · rw [find?_set] at hst'
    split_ifs at hst' with hf
    · obtain rfl := some.inj hst'
      exact ⟨st, hf ▸ hfind, rfl, rfl, Or.inr ⟨hblocked, rfl⟩⟩
    · exact ⟨st', hst', rfl, rfl, Or.inl rfl⟩

lemma Swept.trans {s'' : CreditScheduler} (h : Swept s s') (h' : Swept s' s'') : Swept s s'' := by
  refine ⟨h'.arena.trans h.arena, h'.ring.trans h.ring, h'.cursor.trans h.cursor,
    h'.drain.trans h.drain, h'.maxInflight.trans h.maxInflight,
    h'.grantSequence.trans h.grantSequence, fun f => (h'.tracked f).trans (h.tracked f),
    fun f st'' hst'' => ?_⟩
  obtain ⟨st', hst', hp', hh', hb'⟩ := h'.marks f st'' hst''
  obtain ⟨st, hst, hp, hh, hb⟩ := h.marks f st' hst'
  refine ⟨st, hst, hp'.trans hp, hh'.trans hh, ?_⟩
  rw [h.grantSequence] at hb'
  obtain hb' | ⟨hb', hb''⟩ := hb'
  · rw [hb']
    exact hb
  · obtain hb | ⟨-, hb⟩ := hb
    · exact Or.inr ⟨hb.symm.trans hb', hb''⟩
    · rw [hb] at hb'
      cases hb'

lemma Swept.head? (h : Swept s s') (f : Bytes) : s'.head? f = s.head? f := by
  cases hfind' : s'.mFlows.find? f with
  | none =>
    have hnot : f ∉ s.mFlows := fun hmem =>
      find?_eq_none_iff.mp hfind' ((h.tracked f).mpr hmem)
    rw [CreditScheduler.head?, CreditScheduler.head?, hfind', find?_eq_none_iff.mpr hnot]
    rfl
  | some st' =>
    obtain ⟨st, hst, hp, hh, -⟩ := h.marks f st' hfind'
    rw [head?_of_find? hfind', head?_of_find? hst, headWant, headWant, hp, hh, h.maxInflight]

/-- The head chunk of a flow has been granted: its mark is cleared. -/
structure Granted (s s' : CreditScheduler) (g : Grant) : Prop where
  ring : s'.mRing = s.mRing
  cursor : s'.mCursor < s'.mRing.length
  drain : s'.mDrainFlow = none
  maxInflight : s'.mMaxInflightChunksPerRequest = s.mMaxInflightChunksPerRequest
  grantSequence : s'.mGrantSequence = (s.mGrantSequence + 1) % 2 ^ 64
  flows : ∃ st, s.mFlows.find? g.flow = some st ∧ s.headWant st = some g.len ∧
    ∃ t, s'.mFlows = s.mFlows.set g.flow
      { pending := st.pending.tail
        held := USet.insert st.held g.offset
        blockedAtGrantSequence := none
        lastProgress := t }

lemma granted_issueGrant {arena : BuddyAllocator} {ringIdx off want : ℕ} (hring : s.mRing ≠ [])
    (hfind : s.mFlows.find? flow = some st) (hwant : s.headWant st = some want)
    (hsame : SameFlows { (issueGrant { s with mArena := arena } flow st ringIdx off want).1 with
      mDrainFlow := none } s') :
    Granted s s' (issueGrant { s with mArena := arena } flow st ringIdx off want).2 := by
  refine ⟨hsame.ring, ?_, hsame.drain, hsame.maxInflight, hsame.grantSequence, st, hfind, hwant,
    _, hsame.flows⟩
  rw [hsame.cursor, hsame.ring]
  exact mod_lt _ (length_pos_iff.mpr hring)

/-- **The sweep**: it stops if no head chunk fits, or grants the first that does. -/
lemma sweep_cases (pick : List ℕ → ℕ) (ks : List ℕ) (s : CreditScheduler) (hring : s.mRing ≠ [])
    (hdrain : s.mDrainFlow = none) :
    (∃ s', sweep pick ks s = .stop s' ∧ Swept s s' ∧ ∀ k ∈ ks, ∀ want,
      s.head? (s.ringAt k) = some want → (s.mArena.alloc pick want).1 = none) ∨
      ∃ s₁ s' g, sweep pick ks s = .granted s' g ∧ Swept s s₁ ∧ Granted s₁ s' g := by
  induction ks generalizing s with
  | nil => exact Or.inl ⟨s, rfl, Swept.refl s, fun k hk => absurd hk not_mem_nil⟩
  | cons k ks ih =>
    -- the flow at this place is passed, in a state that the sweep so far leads to
    have hpass : ∀ s₁, Swept s s₁ → sweep pick (k :: ks) s = sweep pick ks s₁ →
        (∀ want, s.head? (s.ringAt k) = some want → (s.mArena.alloc pick want).1 = none) →
        (∃ s', sweep pick (k :: ks) s = .stop s' ∧ Swept s s' ∧ ∀ k' ∈ k :: ks, ∀ want,
          s.head? (s.ringAt k') = some want → (s.mArena.alloc pick want).1 = none) ∨
          ∃ s₁ s' g, sweep pick (k :: ks) s = .granted s' g ∧ Swept s s₁ ∧ Granted s₁ s' g := by
      intro s₁ hswept heq hk
      have hat : ∀ j, s₁.ringAt j = s.ringAt j := fun j => by
        rw [ringAt, ringAt, hswept.ring, hswept.cursor]
      rw [heq]
      obtain ⟨s', hstop, hs', hall⟩ | ⟨s₂, s', g, hgr, hs₂, hg⟩ :=
        ih s₁ (hswept.ring ▸ hring) (hswept.drain.trans hdrain)
      · refine Or.inl ⟨s', hstop, hswept.trans hs', fun k' hk' want hwant => ?_⟩
        obtain rfl | hk' := mem_cons.mp hk'
        · exact hk want hwant
        · have := hall k' hk' want (by rw [hat, hswept.head?]; exact hwant)
          rwa [hswept.arena] at this
      · exact Or.inr ⟨s₂, s', g, hgr, hswept.trans hs₂, hg⟩
    cases hfind : s.mFlows.find? (s.ringAt k) with
    | none =>
      refine hpass s (Swept.refl s) (by rw [sweep, hfind]) fun want hwant => ?_
      rw [CreditScheduler.head?, hfind] at hwant
      cases hwant
    | some st =>
      cases hwant : s.headWant st with
      | none =>
        refine hpass s (Swept.refl s) (by simp only [sweep, hfind, hwant]) fun want hw => ?_
        rw [head?_of_find? hfind, hwant] at hw
        cases hw
      | some want =>
        have hfits : ∀ want', s.head? (s.ringAt k) = some want' → want' = want := by
          intro want' hw
          rw [head?_of_find? hfind, hwant] at hw
          exact (some.inj hw).symm
        rcases halloc : s.mArena.alloc pick want with ⟨_ | off, arena⟩
        · have hnone : ∀ want', s.head? (s.ringAt k) = some want' →
              (s.mArena.alloc pick want').1 = none := by
            intro want' hw
            rw [hfits want' hw, halloc]
          cases hblocked : st.blockedAtGrantSequence with
          | some b =>
            exact hpass s (Swept.refl s)
              (by simp only [sweep, hfind, hwant, halloc, hblocked, isSome_some, if_true]) hnone
          | none =>
            refine hpass _ (swept_mark hfind hblocked) ?_ hnone
            simp only [sweep, hfind, hwant, halloc, hblocked, isSome_none,
              Bool.false_eq_true, if_false]
        · have hgranted : Granted s
              (issueGrant { s with mArena := arena } (s.ringAt k) st
                ((s.mCursor + k) % s.mRing.length) off want).1
              (issueGrant { s with mArena := arena } (s.ringAt k) st
                ((s.mCursor + k) % s.mRing.length) off want).2 :=
            granted_issueGrant hring hfind hwant ⟨rfl, rfl, rfl, hdrain, rfl, rfl⟩
          exact Or.inr ⟨s, _, _, by simp only [sweep, hfind, hwant, halloc], Swept.refl s, hgranted⟩

/-! ### The cases of a turn -/

/-- The state in which a turn ends. -/
def Turn.state : Turn → CreditScheduler
  | .stop s => s
  | .retry s => s
  | .granted s _ => s

def Turn.grant? : Turn → Option Grant
  | .stop _ => none
  | .retry _ => none
  | .granted _ g => some g

/-- The drain a turn begins with, after `maybeActivateDrain`: one that is kept, one that is
latched now, or none, and then no flow has been passed too often. -/
inductive Drain (s : CreditScheduler) : CreditScheduler → Option Bytes → Prop
  | kept {f : Bytes} : s.mDrainFlow = some f → Drain s s (some f)
  | latched {f : Bytes} : s.mDrainFlow = none → s.Over f →
      Drain s { s.tick with mDrainFlow := some f, mDrainSince := s.now } (some f)
  | free : s.mDrainFlow = none → (∀ f ∈ s.mRing, ¬ s.Over f) → Drain s s none

/-- No head chunk of the flows in the ring fits the arena. -/
def NothingFits (pick : List ℕ → ℕ) (s : CreditScheduler) : Prop :=
  ∀ f ∈ s.mRing, ∀ want, s.head? f = some want → (s.mArena.alloc pick want).1 = none

/-- The time box of the drain is over. -/
def Expired (s : CreditScheduler) : Prop := s.mDrainTimeout ≤ s.now - s.mDrainSince

/-- The next turn abandons the drain: its head chunk does not fit, and the time box is over. -/
def AbandonsDrain (s : CreditScheduler) (pick : List ℕ → ℕ) : Prop :=
  ∃ f st want, s.maybeActivateDrain.mDrainFlow = some f ∧
    s.maybeActivateDrain.mFlows.find? f = some st ∧
      s.maybeActivateDrain.headWant st = some want ∧
        (s.maybeActivateDrain.mArena.alloc pick want).1 = none ∧ s.maybeActivateDrain.Expired

/-- The drain of `f` is abandoned: its count starts again. -/
def abandon (s : CreditScheduler) (f : Bytes) (st : FlowState) : CreditScheduler :=
  { s.tick with
    mFlows := s.mFlows.set f { st with blockedAtGrantSequence := some s.mGrantSequence }
    mDrainFlow := none }

/-- **All ways in which a turn of `schedule` can end.** -/
inductive TurnCase (pick : List ℕ → ℕ) (s : CreditScheduler) : Turn → Prop
  | idle : s.mRing = [] → TurnCase pick s (.stop s)
  | waits {s₁ : CreditScheduler} {f : Bytes} : Drain s s₁ (some f) → TurnCase pick s (.stop s₁.tick)
  | clears {s₁ : CreditScheduler} {f : Bytes} : Drain s s₁ (some f) →
      TurnCase pick s (.retry { s₁ with mDrainFlow := none })
  | drains {s₁ s' : CreditScheduler} {g : Grant} : Drain s s₁ (some g.flow) → Granted s₁ s' g →
      TurnCase pick s (.granted s' g)
  | stops {s' : CreditScheduler} : Drain s s none → Swept s s' → NothingFits pick s →
      TurnCase pick s (.stop s')
  | grants {s₁ s' : CreditScheduler} {g : Grant} : Drain s s none → Swept s s₁ → Granted s₁ s' g →
      TurnCase pick s (.granted s' g)
  | abandonStops {s₁ s' : CreditScheduler} {f : Bytes} {st : FlowState} : Drain s s₁ (some f) →
      s₁.mFlows.find? f = some st → s.AbandonsDrain pick → Swept (s₁.abandon f st) s' →
        NothingFits pick (s₁.abandon f st) → TurnCase pick s (.stop s')
  | abandonGrants {s₁ s₂ s' : CreditScheduler} {f : Bytes} {st : FlowState} {g : Grant} :
      Drain s s₁ (some f) → s₁.mFlows.find? f = some st → s.AbandonsDrain pick →
        Swept (s₁.abandon f st) s₂ → Granted s₂ s' g → TurnCase pick s (.granted s' g)

lemma Drain.ring (h : Drain s s₁ d) : s₁.mRing = s.mRing := by
  cases h <;> rfl

lemma Drain.mDrainFlow (h : Drain s s₁ d) : s₁.mDrainFlow = d := by
  cases h with
  | kept hd => exact hd
  | latched => rfl
  | free hd _ => exact hd

/-- A sweep of the whole ring. -/
lemma sweep_ring_cases (pick : List ℕ → ℕ) (s : CreditScheduler) (hring : s.mRing ≠ [])
    (hdrain : s.mDrainFlow = none) :
    (∃ s', sweep pick (range s.mRing.length) s = .stop s' ∧ Swept s s' ∧ NothingFits pick s) ∨
      ∃ s₁ s' g, sweep pick (range s.mRing.length) s = .granted s' g ∧ Swept s s₁ ∧
        Granted s₁ s' g := by
  obtain ⟨s', hstop, hswept, hall⟩ | hgr := sweep_cases pick (range s.mRing.length) s hring hdrain
  · refine Or.inl ⟨s', hstop, hswept, fun f hf want hwant => ?_⟩
    obtain ⟨k, hk, rfl⟩ := exists_ringAt hf
    exact hall k hk want hwant
  · exact Or.inr hgr

/-- The turn after `maybeActivateDrain`. -/
lemma drainOrSweep_case {pick : List ℕ → ℕ} (hring : s.mRing ≠ []) (hs₁ : s.maybeActivateDrain = s₁)
    (h : Drain s s₁ d) : TurnCase pick s (drainOrSweep pick s₁) := by
  have hring₁ : s₁.mRing ≠ [] := h.ring ▸ hring
  rw [drainOrSweep, h.mDrainFlow]
  cases d with
  | none =>
    have hsame : s₁ = s := by cases h; rfl
    subst hsame
    obtain ⟨s', hstop, hswept, hfits⟩ | ⟨s₂, s', g, hgr, hswept, hg⟩ :=
      sweep_ring_cases pick s₁ hring h.mDrainFlow
    · dsimp only
      rw [hstop]
      exact .stops h hswept hfits
    · dsimp only
      rw [hgr]
      exact .grants h hswept hg
  | some f =>
    dsimp only
    cases hfind : s₁.mFlows.find? f with
    | none => exact .clears h
    | some st =>
      dsimp only
      cases hwant : s₁.headWant st with
      | none => exact .clears h
      | some want =>
        dsimp only
        rcases halloc : s₁.mArena.alloc pick want with ⟨_ | off, arena⟩
        · dsimp only
          split_ifs with htime
          · exact .waits h
          · have habandon : s.AbandonsDrain pick := by
              rw [AbandonsDrain, hs₁]
              exact ⟨f, st, want, h.mDrainFlow, hfind, hwant, congrArg Prod.fst halloc,
                not_lt.mp htime⟩
            obtain ⟨s', hstop, hswept, hfits⟩ | ⟨s₂, s', g, hgr, hswept, hg⟩ :=
              sweep_ring_cases pick (s₁.abandon f st) hring₁ rfl
            · have hstop' : sweep pick (range s₁.mRing.length) (s₁.abandon f st)
                  = .stop s' := hstop
              rw [abandon] at hstop'
              rw [hstop']
              exact .abandonStops h hfind habandon hswept hfits
            · have hgr' : sweep pick (range s₁.mRing.length) (s₁.abandon f st)
                  = .granted s' g := hgr
              rw [abandon] at hgr'
              rw [hgr']
              exact .abandonGrants h hfind habandon hswept hg
        · dsimp only
          refine .drains h ?_
          exact granted_issueGrant hring₁ hfind hwant ⟨rfl, rfl, rfl, rfl, rfl, rfl⟩

/-- **The inversion of a turn.** -/
lemma scheduleTurn_case (pick : List ℕ → ℕ) (s : CreditScheduler) :
    TurnCase pick s (scheduleTurn pick s) := by
  rw [scheduleTurn]
  split_ifs with hring
  · exact .idle hring
  · obtain ⟨heq, ⟨f, hf⟩ | ⟨hnone, hover⟩⟩ | ⟨f, hnone, hover, heq⟩ :=
      maybeActivateDrain_cases s hring
    · rw [heq]
      exact drainOrSweep_case hring heq (.kept hf)
    · rw [heq]
      exact drainOrSweep_case hring heq (.free hnone hover)
    · rw [heq]
      exact drainOrSweep_case hring heq (.latched hnone hover)

/-- The turns of one pass of `schedule`, with the grants of each. -/
inductive Pass (pick : List ℕ → ℕ) : CreditScheduler → List Grant → CreditScheduler → Prop
  | stop {s s' : CreditScheduler} : scheduleTurn pick s = .stop s' → Pass pick s [] s'
  | retry {s s' s'' : CreditScheduler} {gs : List Grant} : scheduleTurn pick s = .retry s' →
      Pass pick s' gs s'' → Pass pick s gs s''
  | granted {s s' s'' : CreditScheduler} {g : Grant} {gs : List Grant} :
      scheduleTurn pick s = .granted s' g → Pass pick s' gs s'' → Pass pick s (g :: gs) s''

/-- **`schedule` comes to its end**: its loop leaves by a turn that stops. -/
theorem pass_schedule (pick : List ℕ → ℕ) (s : CreditScheduler) :
    Pass pick s (schedule pick s).1 (schedule pick s).2 := by
  induction hm : s.scheduleMeasure using Nat.strong_induction_on generalizing s with
  | _ m ih =>
    obtain ⟨hretry, hgranted⟩ := scheduleTurn_measure pick s
    rw [schedule_eq]
    cases ht : scheduleTurn pick s with
    | stop s' => exact .stop ht
    | retry s' => exact .retry ht (ih _ (hm ▸ hretry s' ht) s' rfl)
    | granted s' g => exact .granted ht (ih _ (hm ▸ hgranted s' g ht) s' rfl)

/-! ### A call is an update and a pass -/

/-- Whether the call goes on to a pass. -/
def hasPass (s : CreditScheduler) : Call → Bool
  | .onWant _ _ => true
  | .onScatterDone _ _ => true
  | .reclaimByPrefix pfx _ _ => pfx ≠ []
  | .reclaimFlow _ _ _ => true
  | .freeOrphanRegion _ => true
  | .reapQuarantine => s.mQuarantined.entries.any fun e => e.2 ≤ s.now
  | .pollDrain => s.mDrainFlow.isSome ∧ s.mDrainTimeout ≤ s.now - s.mDrainSince
  | .staleFlows => false
  | .acquireLocal _ _ => false
  | .promoteLocal _ => false
  | .releaseLocal _ => true
  | .setDrainTimeout _ => false

variable (pick : List ℕ → ℕ) (s : CreditScheduler)

/-- The state that the part of a call before its pass leaves. -/
def updated : Call → CreditScheduler
  | .acquireLocal bytes eager => (acquireLocal pick s bytes eager).2
  | c => beforePass s c

/-- **A call** is its update, with a pass after it or not. -/
lemma call_eq_updated (c : Call) :
    call pick s c = if hasPass s c then schedule pick (updated pick s c)
      else ([], updated pick s c) := by
  cases c with
  | onWant | onScatterDone | reclaimFlow | freeOrphanRegion | reapQuarantine | staleFlows
  | acquireLocal | promoteLocal | releaseLocal | setDrainTimeout => rfl
  | reclaimByPrefix pfx busy quarantineFor =>
    simp only [call, reclaimByPrefix, hasPass, updated, beforePass]
    by_cases hpfx : pfx = [] <;> simp [hpfx]
  | pollDrain =>
    simp only [call, pollDrain, hasPass, updated, beforePass]
    by_cases hdrain : s.mDrainFlow.isSome <;> simp [hdrain]

end TrtLlm.CreditScheduler
