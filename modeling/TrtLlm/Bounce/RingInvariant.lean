import TrtLlm.Bounce.RegionOwnership
import TrtLlm.Bounce.BuddyCalls

/-!
The ring of the credit scheduler.

* `RingBut`: the ring, its cursor and the drain flow fit the tracked flows, one flow apart. Every
  public call leaves that one flow, if there is one, either tracked and in the ring (`RingBut.add`)
  or dropped from both (`RingBut.drop`);
* `RingOk`: the same with no exception, and every flow has something to wait for or to hold,
  within its cap.
-/

namespace TrtLlm.CreditScheduler

open List Option Nat UMap

/-! ### The ring -/

/-- The ring, the cursor and the drain flow fit the tracked flows, apart from `flow`. -/
structure RingBut (flow : Bytes) (s : CreditScheduler) : Prop where
  nodup : s.mRing.Nodup
  mem_ring : ∀ f ≠ flow, f ∈ s.mRing ↔ f ∈ s.mFlows
  cursor : s.mCursor < s.mRing.length ∨ s.mRing = [] ∧ s.mCursor = 0
  drain : ∀ f ≠ flow, s.mDrainFlow = some f → f ∈ s.mFlows

/-- The ring, the cursor and the drain flow fit the tracked flows. -/
structure Ring (s : CreditScheduler) : Prop where
  nodup : s.mRing.Nodup
  mem_ring : ∀ f, f ∈ s.mRing ↔ f ∈ s.mFlows
  cursor : s.mCursor < s.mRing.length ∨ s.mRing = [] ∧ s.mCursor = 0
  drain : ∀ f, s.mDrainFlow = some f → f ∈ s.mFlows

variable {flow : Bytes} {s s' : CreditScheduler}

/-- A change at one flow leaves the ring right for the others. -/
lemma Ring.but (h : Ring s) (hring : s'.mRing = s.mRing)
    (hcursor : s'.mCursor = s.mCursor) (hdrain : s'.mDrainFlow = s.mDrainFlow)
    (hflows : ∀ f ≠ flow, f ∈ s'.mFlows ↔ f ∈ s.mFlows) : RingBut flow s' := by
  refine ⟨hring ▸ h.nodup, fun f hf => ?_, ?_, fun f hf hd => ?_⟩
  · rw [hring, hflows f hf]
    exact h.mem_ring f
  · rw [hring, hcursor]
    exact h.cursor
  · rw [hflows f hf]
    exact h.drain f (hdrain ▸ hd)

/-- The flow joins the ring. -/
lemma RingBut.add (h : RingBut flow s) (hflow : flow ∈ s.mFlows) : Ring (ensureInRing s flow) := by
  rw [ensureInRing]
  split_ifs with hmem
  · refine ⟨h.nodup, fun f => ?_, h.cursor, fun f hd => ?_⟩
    · by_cases hf : f = flow
      · rw [hf]
        exact iff_of_true hmem hflow
      · exact h.mem_ring f hf
    · by_cases hf : f = flow
      · rw [hf]
        exact hflow
      · exact h.drain f hf hd
  · refine ⟨?_, fun f => ?_, Or.inl ?_, fun f hd => ?_⟩
    · exact nodup_append'.mpr ⟨h.nodup, nodup_singleton _, by simpa using hmem⟩
    · rw [mem_append, mem_singleton]
      by_cases hf : f = flow
      · rw [hf]
        exact iff_of_true (Or.inr rfl) hflow
      · rw [h.mem_ring f hf]
        simp [hf]
    · rw [length_append, length_singleton]
      obtain hlt | ⟨-, hzero⟩ := h.cursor
      · exact lt_succ_of_lt hlt
      · rw [hzero]
        exact succ_pos _
    · by_cases hf : f = flow
      · rw [hf]
        exact hflow
      · exact h.drain f hf hd

/-- The ring without one of its keys. -/
lemma mem_eraseIdx_idxOf {ring : List Bytes} (hnodup : ring.Nodup) {f : Bytes} :
    f ∈ ring.eraseIdx (ring.idxOf flow) ↔ f ∈ ring ∧ f ≠ flow := by
  rw [← erase_eq_eraseIdx_of_idxOf rfl, hnodup.mem_erase_iff]
  exact and_comm

/-- The flow leaves the ring, and the drain if it was the one. -/
lemma RingBut.drop {s : CreditScheduler} {flow : Bytes} (h : RingBut flow s)
    (hflow : flow ∉ s.mFlows) : Ring (dropFromRing s flow) := by
  have hdrain : ∀ f, (if s.mDrainFlow = some flow then none else s.mDrainFlow) = some f →
      f ∈ s.mFlows := by
    intro f hf
    split_ifs at hf with hd
    exact h.drain f (fun hne => hd (hne ▸ hf)) hf
  rw [dropFromRing]
  dsimp only
  generalize (if s.mDrainFlow = some flow then none else s.mDrainFlow) = d at hdrain ⊢
  generalize (if s.mRing.idxOf flow < s.mCursor then s.mCursor - 1 else s.mCursor) = c
  split_ifs with hmem hnil
  · -- the last key of the ring
    refine ⟨nodup_nil, fun f => ?_, Or.inr ⟨rfl, rfl⟩, hdrain⟩
    refine iff_of_false not_mem_nil fun hf => ?_
    have hne : f ≠ flow := fun heq => hflow (heq ▸ hf)
    have := (mem_eraseIdx_idxOf h.nodup).mpr ⟨(h.mem_ring f hne).mpr hf, hne⟩
    rw [hnil] at this
    exact not_mem_nil this
  · refine ⟨h.nodup.eraseIdx _, fun f => ?_, Or.inl ?_, hdrain⟩
    · rw [mem_eraseIdx_idxOf h.nodup]
      by_cases hf : f = flow
      · rw [hf]
        exact iff_of_false (fun hx => hx.2 rfl) hflow
      · rw [h.mem_ring f hf]
        exact ⟨fun hx => hx.1, fun hx => ⟨hx, hf⟩⟩
    · exact mod_lt _ (length_pos_iff.mpr hnil)
  · refine ⟨h.nodup, fun f => ?_, h.cursor, hdrain⟩
    by_cases hf : f = flow
    · rw [hf]
      exact iff_of_false hmem hflow
    · exact h.mem_ring f hf

/-! ### The flows -/

/-- Every tracked flow other than `flow` has a pending chunk or a held region, and all flows are
within their cap. -/
structure FlowsBut (flow : Bytes) (s : CreditScheduler) : Prop where
  busy : ∀ f ≠ flow, ∀ st, s.mFlows.find? f = some st → st.pending ≠ [] ∨ 0 < st.held.size
  cap : ∀ f st, s.mFlows.find? f = some st → st.held.size ≤ s.mMaxInflightChunksPerRequest

/-- **The invariant of the ring between two public calls.** -/
structure RingOk (s : CreditScheduler) : Prop extends Ring s where
  busy : ∀ f st, s.mFlows.find? f = some st → st.pending ≠ [] ∨ 0 < st.held.size
  cap : ∀ f st, s.mFlows.find? f = some st → st.held.size ≤ s.mMaxInflightChunksPerRequest

lemma RingOk.flowsBut (h : RingOk s) (flow : Bytes) : FlowsBut flow s :=
  ⟨fun f _ => h.busy f, h.cap⟩

/-- A change at one flow, within its cap. -/
lemma FlowsBut.set {st : FlowState} (h : FlowsBut flow s)
    (hflows : s'.mFlows = s.mFlows.set flow st)
    (hmax : s'.mMaxInflightChunksPerRequest = s.mMaxInflightChunksPerRequest)
    (hcap : st.held.size ≤ s.mMaxInflightChunksPerRequest) : FlowsBut flow s' := by
  refine ⟨fun f hf st' hst' => ?_, fun f st' hst' => ?_⟩
  · rw [hflows, find?_set, if_neg hf] at hst'
    exact h.busy f hf st' hst'
  · rw [hflows, find?_set] at hst'
    rw [hmax]
    split_ifs at hst' with hf
    · obtain rfl := some.inj hst'
      exact hcap
    · exact h.cap f st' hst'

@[simp] lemma dropFromRing_mFlows (s : CreditScheduler) (flow : Bytes) :
    (dropFromRing s flow).mFlows = s.mFlows := by
  obtain ⟨d, r, c, h⟩ := dropFromRing_eq s flow
  rw [h]

@[simp] lemma dropFromRing_maxInflight (s : CreditScheduler) (flow : Bytes) :
    (dropFromRing s flow).mMaxInflightChunksPerRequest = s.mMaxInflightChunksPerRequest := by
  obtain ⟨d, r, c, h⟩ := dropFromRing_eq s flow
  rw [h]

/-- The flow is dropped altogether. -/
lemma ringOk_drop (hring : RingBut flow s) (hflows : FlowsBut flow s) :
    RingOk (dropFromRing { s with mFlows := s.mFlows.erase flow } flow) := by
  have hbut : RingBut flow { s with mFlows := s.mFlows.erase flow } := by
    refine ⟨hring.nodup, fun f hf => ?_, hring.cursor, fun f hf hd => ?_⟩
    · rw [mem_erase, hring.mem_ring f hf]
      exact ⟨fun hx => ⟨hf, hx⟩, fun hx => hx.2⟩
    · exact mem_erase.mpr ⟨hf, hring.drain f hf hd⟩
  refine ⟨hbut.drop fun hmem => (mem_erase.mp hmem).1 rfl, fun f st hst => ?_, fun f st hst => ?_⟩
  · rw [dropFromRing_mFlows, find?_erase] at hst
    split_ifs at hst with hf
    exact hflows.busy f hf st hst
  · rw [dropFromRing_mFlows, find?_erase] at hst
    rw [dropFromRing_maxInflight]
    split_ifs at hst with hf
    exact hflows.cap f st hst

/-- `eraseIfDone` settles the one flow that may have nothing left. -/
lemma ringOk_eraseIfDone (hring : RingBut flow s) (hflows : FlowsBut flow s)
    (hmem : ∀ st, s.mFlows.find? flow = some st → st.pending ≠ [] ∨ 0 < st.held.size →
      flow ∈ s.mRing) (hgone : flow ∉ s.mFlows → flow ∉ s.mRing ∧ s.mDrainFlow ≠ some flow) :
    RingOk (eraseIfDone s flow) := by
  rw [eraseIfDone]
  split
  · rename_i hnone
    have hnot : flow ∉ s.mFlows := find?_eq_none_iff.mp hnone
    obtain ⟨hr, hd⟩ := hgone hnot
    refine ⟨⟨hring.nodup, fun f => ?_, hring.cursor, fun f hf => ?_⟩, fun f st hst => ?_,
      hflows.cap⟩
    · by_cases hf : f = flow
      · rw [hf]
        exact iff_of_false hr hnot
      · exact hring.mem_ring f hf
    · exact hring.drain f (fun heq => hd (heq ▸ hf)) hf
    · refine hflows.busy f (fun heq => ?_) st hst
      exact hnot (heq ▸ mem_of_find? hst)
  · rename_i st hfind
    split_ifs with hdone
    · exact ringOk_drop hring hflows
    · have hbusy : st.pending ≠ [] ∨ 0 < st.held.size := by
        by_contra hneither
        push Not at hneither
        exact hdone ⟨hneither.1, le_zero.mp hneither.2⟩
      have hin : flow ∈ s.mRing := hmem st hfind hbusy
      have htracked : flow ∈ s.mFlows := mem_of_find? hfind
      refine ⟨⟨hring.nodup, fun f => ?_, hring.cursor, fun f hf => ?_⟩, fun f st' hst' => ?_,
        hflows.cap⟩
      · by_cases hf : f = flow
        · rw [hf]
          exact iff_of_true hin htracked
        · exact hring.mem_ring f hf
      · by_cases hff : f = flow
        · rw [hff]
          exact htracked
        · exact hring.drain f hff hf
      · by_cases hf : f = flow
        · rw [hf, hfind] at hst'
          rw [← some.inj hst']
          exact hbusy
        · exact hflows.busy f hf st' hst'

/-! ### Before the pass -/

/-- The flows and everything that orders them are the same. -/
structure SameFlows (s s' : CreditScheduler) : Prop where
  flows : s'.mFlows = s.mFlows
  ring : s'.mRing = s.mRing
  cursor : s'.mCursor = s.mCursor
  drain : s'.mDrainFlow = s.mDrainFlow
  maxInflight : s'.mMaxInflightChunksPerRequest = s.mMaxInflightChunksPerRequest
  grantSequence : s'.mGrantSequence = s.mGrantSequence

lemma SameFlows.refl (s : CreditScheduler) : SameFlows s s := ⟨rfl, rfl, rfl, rfl, rfl, rfl⟩

lemma SameFlows.trans {s'' : CreditScheduler} (h : SameFlows s s') (h' : SameFlows s' s'') :
    SameFlows s s'' :=
  ⟨h'.1.trans h.1, h'.2.trans h.2, h'.3.trans h.3, h'.4.trans h.4, h'.5.trans h.5, h'.6.trans h.6⟩

lemma SameFlows.ringOk (hsame : SameFlows s s') (h : RingOk s) : RingOk s' := by
  obtain ⟨hflows, hring, hcursor, hdrain, hmax, -⟩ := hsame
  refine ⟨⟨hring ▸ h.nodup, fun f => ?_, ?_, fun f hf => ?_⟩, fun f st hst => ?_,
    fun f st hst => ?_⟩
  · rw [hring, hflows]
    exact h.mem_ring f
  · rw [hring, hcursor]
    exact h.cursor
  · rw [hflows]
    exact h.drain f (hdrain ▸ hf)
  · exact h.busy f st (hflows ▸ hst)
  · rw [hmax]
    exact h.cap f st (hflows ▸ hst)

lemma sameFlows_tick (s : CreditScheduler) : SameFlows s s.tick := ⟨rfl, rfl, rfl, rfl, rfl, rfl⟩

lemma sameFlows_setDrainTimeout (s : CreditScheduler) (timeout : ℤ) :
    SameFlows s (setDrainTimeout s timeout) := ⟨rfl, rfl, rfl, rfl, rfl, rfl⟩

lemma sameFlows_dropRegion (busy : USet ℕ) (quarantineFor : ℤ) (acc : CreditScheduler × List ℕ)
    (off : ℕ) : SameFlows acc.1 (dropRegion busy quarantineFor acc off).1 := by
  rw [dropRegion]
  split_ifs <;> exact ⟨rfl, rfl, rfl, rfl, rfl, rfl⟩

lemma sameFlows_dropRegions (busy : USet ℕ) (quarantineFor : ℤ) (offs : List ℕ)
    (acc : CreditScheduler × List ℕ) :
    SameFlows acc.1 (offs.foldl (dropRegion busy quarantineFor) acc).1 := by
  induction offs generalizing acc with
  | nil => exact SameFlows.refl acc.1
  | cons off offs ih => exact (sameFlows_dropRegion busy quarantineFor acc off).trans (ih _)

lemma sameFlows_reapRegions (t : ℤ) (es : List (ℕ × ℤ)) (s : CreditScheduler) :
    SameFlows s (es.foldl (reapRegion t) s) := by
  induction es generalizing s with
  | nil => exact SameFlows.refl s
  | cons e es ih =>
    refine SameFlows.trans ?_ (ih _)
    rw [reapRegion]
    split_ifs <;> exact ⟨rfl, rfl, rfl, rfl, rfl, rfl⟩

lemma sameFlows_reapQuarantineUpdate (s : CreditScheduler) : SameFlows s s.reapQuarantineUpdate :=
  (sameFlows_tick s).trans (sameFlows_reapRegions _ _ s.tick)

section

variable (s : CreditScheduler) (offset : ℕ)

lemma sameFlows_promoteLocal : SameFlows s (promoteLocal s offset) := by
  rw [promoteLocal]
  split <;> exact ⟨rfl, rfl, rfl, rfl, rfl, rfl⟩

lemma sameFlows_releaseLocalUpdate : SameFlows s (releaseLocalUpdate s offset) := by
  rw [releaseLocalUpdate]
  split_ifs
  · have h := sameFlows_promoteLocal { s with mLocalHeld := s.mLocalHeld.erase offset } offset
    exact ⟨h.flows, h.ring, h.cursor, h.drain, h.maxInflight, h.grantSequence⟩
  · exact SameFlows.refl s

lemma sameFlows_freeOrphanRegionUpdate : SameFlows s (freeOrphanRegionUpdate s offset) := by
  rw [freeOrphanRegionUpdate]
  split_ifs <;> exact ⟨rfl, rfl, rfl, rfl, rfl, rfl⟩

end

lemma sameFlows_acquireLocal (pick : List ℕ → ℕ) (s : CreditScheduler) (bytes : ℕ) (eager : Bool) :
    SameFlows s (acquireLocal pick s bytes eager).2 := by
  rw [acquireLocal]
  split
  · exact SameFlows.refl s
  · dsimp only
    split_ifs <;> exact ⟨rfl, rfl, rfl, rfl, rfl, rfl⟩

lemma ringOk_dropFlow {busy : USet ℕ} {quarantineFor : ℤ} {acc : CreditScheduler × List ℕ}
    (h : RingOk acc.1) (flow : Bytes) : RingOk (dropFlow busy quarantineFor acc flow).1 := by
  rw [dropFlow]
  split
  · exact h
  · rename_i st hfind
    have hr := (sameFlows_dropRegions busy quarantineFor st.held.keys acc).ringOk h
    exact ringOk_drop (hr.but rfl rfl rfl fun _ _ => Iff.rfl) (hr.flowsBut flow)

lemma ringOk_dropFlows {busy : USet ℕ} {quarantineFor : ℤ} (flows : List Bytes)
    {acc : CreditScheduler × List ℕ} (h : RingOk acc.1) :
    RingOk (flows.foldl (dropFlow busy quarantineFor) acc).1 := by
  induction flows generalizing acc with
  | nil => exact h
  | cons flow flows ih => exact ih (ringOk_dropFlow h flow)

lemma ringOk_onWantUpdate (h : RingOk s) (flow : Bytes)
    (chunkBytes : List ℕ) : RingOk (onWantUpdate s flow chunkBytes) := by
  rw [onWantUpdate]
  set st := (s.mFlows.find? flow).getD {} with hst
  set s' := { s.tick with
    mFlows := s.mFlows.set flow
      { st with pending := chunkBytes, blockedAtGrantSequence := none, lastProgress := s.now } }
    with hs'
  have hcap : st.held.size ≤ s.mMaxInflightChunksPerRequest := by
    rw [hst]
    cases hfind : s.mFlows.find? flow with
    | none => exact Nat.zero_le _
    | some st' => exact h.cap flow st' hfind
  have hring : RingBut flow s' := h.but rfl rfl rfl fun f hf => by
    rw [hs', UMap.mem_set]
    exact ⟨fun hx => hx.resolve_left hf, Or.inr⟩
  have hflows : FlowsBut flow s' := (h.flowsBut flow).set rfl rfl hcap
  have hmem : flow ∈ s'.mFlows := UMap.mem_set.mpr (Or.inl rfl)
  have hfind' : s'.mFlows.find? flow = some { st with
      pending := chunkBytes, blockedAtGrantSequence := none, lastProgress := s.now } := by
    rw [hs', find?_set, if_pos rfl]
  split_ifs with hnil
  · refine ringOk_eraseIfDone hring hflows (fun st' hst' hbusy => ?_) fun hnot => absurd hmem hnot
    rw [hfind'] at hst'
    obtain rfl := some.inj hst'
    -- nothing is pending, so the flow holds a region: it was tracked before
    have hheld : 0 < st.held.size := hbusy.resolve_left fun hne => hne hnil
    cases hfind : s.mFlows.find? flow with
    | none =>
      rw [hst, hfind] at hheld
      exact absurd hheld (lt_irrefl 0)
    | some st' => exact (h.mem_ring flow).mpr (mem_of_find? hfind)
  · have hsame : (ensureInRing s' flow).mFlows = s'.mFlows ∧
        (ensureInRing s' flow).mMaxInflightChunksPerRequest = s'.mMaxInflightChunksPerRequest := by
      rw [ensureInRing]
      split_ifs <;> exact ⟨rfl, rfl⟩
    refine ⟨hring.add hmem, fun f st' hst' => ?_, fun f st' hst' => ?_⟩
    · rw [hsame.1] at hst'
      by_cases hf : f = flow
      · rw [hf, hfind'] at hst'
        obtain rfl := some.inj hst'
        exact Or.inl hnil
      · exact hflows.busy f hf st' hst'
    · rw [hsame.1] at hst'
      rw [hsame.2]
      exact hflows.cap f st' hst'

lemma size_erase_le (m : USet ℕ) (x : ℕ) : (m.erase x).size ≤ m.size := length_filter_le _ _

lemma ringOk_onScatterDoneUpdate (h : RingOk s) (flow : Bytes) (offset : ℕ) :
    RingOk (onScatterDoneUpdate s flow offset) := by
  rw [onScatterDoneUpdate]
  split
  · exact h
  · rename_i st hfind
    have htracked : flow ∈ s.mFlows := mem_of_find? hfind
    have hin : flow ∈ s.mRing := (h.mem_ring flow).mpr htracked
    split_ifs with hheld
    · refine ringOk_eraseIfDone (h.but rfl rfl rfl fun f hf => ?_)
        ((h.flowsBut flow).set rfl rfl ?_) (fun _ _ _ => hin) fun hnot => ?_
      · rw [UMap.mem_set]
        exact ⟨fun hx => hx.resolve_left hf, Or.inr⟩
      · exact (size_erase_le st.held offset).trans (h.cap flow st hfind)
      · exact absurd (UMap.mem_set.mpr (Or.inl rfl)) hnot
    · exact ringOk_eraseIfDone (h.but rfl rfl rfl fun _ _ => Iff.rfl) (h.flowsBut flow)
        (fun _ _ _ => hin) fun hnot => absurd htracked hnot

/-- What a call does before its pass keeps the ring in order. -/
lemma ringOk_beforePass (h : RingOk s) (c : Call) : RingOk (beforePass s c) := by
  cases c with
  | onWant flow chunkBytes => exact ringOk_onWantUpdate h flow chunkBytes
  | onScatterDone flow offset => exact ringOk_onScatterDoneUpdate h flow offset
  | reclaimByPrefix pfx busy quarantineFor =>
    rw [beforePass]
    split_ifs
    · exact h
    · exact ringOk_dropFlows (s.victims pfx) h
  | reclaimFlow flow busy quarantineFor => exact ringOk_dropFlow h flow
  | freeOrphanRegion offset => exact (sameFlows_freeOrphanRegionUpdate s offset).ringOk h
  | reapQuarantine => exact (sameFlows_reapQuarantineUpdate s).ringOk h
  | pollDrain =>
    rw [beforePass]
    split_ifs
    · exact (sameFlows_tick s).ringOk h
    · exact h
  | staleFlows => exact (sameFlows_tick s).ringOk h
  | acquireLocal bytes eager => exact h
  | promoteLocal offset => exact (sameFlows_promoteLocal s offset).ringOk h
  | releaseLocal offset => exact (sameFlows_releaseLocalUpdate s offset).ringOk h
  | setDrainTimeout timeout => exact (sameFlows_setDrainTimeout s timeout).ringOk h

end TrtLlm.CreditScheduler
