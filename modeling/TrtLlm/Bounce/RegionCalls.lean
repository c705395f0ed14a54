import TrtLlm.Bounce.RegionMoves

/-!
What each call of the scheduler does to the regions of the arena.

There is one lemma for each call on what it takes and where that goes, with arbitrary, stale or
unknown arguments.
-/

namespace TrtLlm.CreditScheduler

open List UMap

variable {H : Set ℕ} {dst : ℕ → Option Owner} {gs : List Grant} {key : Bytes} {off : ℕ}
  {s s' s'' : CreditScheduler}

/-! ### The state in which a call begins its pass -/

/-- Neither the arena nor what the parties have has changed. -/
structure SameRegions (s s' : CreditScheduler) : Prop where
  rest : SameRest s s'
  arena : s'.mArena = s.mArena
  held : ∀ key x, s'.heldByFlow key x = true ↔ s.heldByFlow key x = true

lemma SameRegions.trans (h : SameRegions s s') (h' : SameRegions s' s'') : SameRegions s s'' :=
  ⟨h.rest.trans h'.rest, h'.arena.trans h.arena, fun k x => (h'.held k x).trans (h.held k x)⟩

/-- With unchanged flow states nothing has changed hands. -/
lemma SameRegions.of_flows (hrest : SameRest s s')
    (harena : s'.mArena = s.mArena) (hflows : s'.mFlows = s.mFlows) : SameRegions s s' :=
  ⟨hrest, harena, fun key x => by rw [heldByFlow_eq_true, heldByFlow_eq_true, hflows]⟩

lemma SameRegions.mem_owns (h : SameRegions s s') (o : Owner) (x : ℕ) :
    x ∈ s'.owns o ↔ x ∈ s.owns o := by
  cases o with
  | flow key => exact h.held key x
  | sender => change x ∈ s'.mLocalHeld ↔ _; rw [h.rest.localHeld]; rfl
  | orphans => change x ∈ s'.mOrphans ↔ _; rw [h.rest.orphans]; rfl
  | quarantine => change x ∈ s'.mQuarantined ↔ _; rw [h.rest.quarantined]; rfl

lemma SameRegions.reassigned (h : SameRegions s s') (dst : ℕ → Option Owner)
    (hH : ∀ x, x ∉ H) : Reassigned s s' H dst := by
  refine ⟨h.rest.baseAddr, fun x => ?_, fun o x => ?_, fun x _ => ?_⟩
  · rw [live, h.arena]
    exact ⟨fun hx => ⟨hx, fun hx' => absurd hx' (hH x)⟩, fun hx => hx.1⟩
  · rw [h.mem_owns]
    exact ⟨fun hx => Or.inr ⟨hH x, hx⟩, fun hx => hx.elim (fun h' => absurd h'.1 (hH x)) fun h' =>
      h'.2⟩
  · rw [regionBytes, h.arena]; rfl

/-- One region of one party has gone back to the arena. -/
lemma Reassigned.release (hs : Owned s.live s.owns) {o : Owner} (hoff : off ∈ s.owns o)
    (hH : ∀ x, x ∈ H ↔ x = off)
    (hbase : s'.mBaseAddr = s.mBaseAddr) (harena : s'.mArena = s.mArena.free off)
    (ho : ∀ x, x ∈ s'.owns o ↔ x ≠ off ∧ x ∈ s.owns o)
    (hother : ∀ o' ≠ o, ∀ x, x ∈ s'.owns o' ↔ x ∈ s.owns o') :
    Reassigned s s' H fun _ => none := by
  have hlive : ∀ x, x ∈ s'.live ↔ x ≠ off ∧ x ∈ s.live := by
    intro x
    rw [mem_live, mem_live, harena, BuddyAllocator.live?_free]
    by_cases hx : x = off <;> simp [hx]
  refine ⟨hbase, fun x => ?_, fun o' x => ?_, fun x hx => ?_⟩
  · rw [hlive, hH]
    tauto
  · simp only [hH, reduceCtorEq, and_false, false_or]
    by_cases hoo : o' = o
    · rw [hoo]
      exact ho x
    · rw [hother o' hoo]
      refine ⟨fun hx => ⟨?_, hx⟩, fun hx => hx.2⟩
      rintro rfl
      exact hoo (hs.eq_of_mem hx hoff)
  · rw [regionBytes, harena, BuddyAllocator.blockBytes_free _ ((hlive x).mp hx).1]
    rfl

lemma dropFromRing_eq (s : CreditScheduler) (flow : Bytes) : ∃ d r c,
    dropFromRing s flow = { s with mDrainFlow := d, mRing := r, mCursor := c } := by
  rw [dropFromRing]
  dsimp only
  split_ifs <;> exact ⟨_, _, _, rfl⟩

lemma dropFromRing_same (s : CreditScheduler) (flow : Bytes) :
    SameRegions s (dropFromRing s flow) := by
  obtain ⟨d, r, c, h⟩ := dropFromRing_eq s flow
  rw [h]
  exact .of_flows ⟨rfl, rfl, rfl, rfl, rfl, rfl, rfl, rfl⟩ rfl rfl

lemma not_mem_of_size_eq_zero {m : USet ℕ} (h : m.size = 0) (x : ℕ) : x ∉ m := by
  intro hx
  have hnil : m.entries = [] := length_eq_zero_iff.mp h
  have hk : x ∈ m.keys := hx
  rw [UMap.keys, hnil] at hk
  simp at hk

lemma eraseIfDone_same (s : CreditScheduler) (flow : Bytes) :
    SameRegions s (eraseIfDone s flow) := by
  rw [eraseIfDone]
  split
  · exact .of_flows (SameRest.refl s) rfl rfl
  · rename_i st hfind
    split_ifs with h
    · have herase : SameRegions s { s with mFlows := s.mFlows.erase flow } := by
        refine ⟨⟨rfl, rfl, rfl, rfl, rfl, rfl, rfl, rfl⟩, rfl, fun key x => ?_⟩
        rw [heldByFlow_eq_true, heldByFlow_eq_true]
        by_cases hk : key = flow
        · subst hk
          simp [hfind, not_mem_of_size_eq_zero h.2 x]
        · simp [hk]
      exact herase.trans (dropFromRing_same _ flow)
    · exact .of_flows (SameRest.refl s) rfl rfl

lemma onWantUpdate_same (s : CreditScheduler) (flow : Bytes) (chunkBytes : List ℕ) :
    SameRegions s (onWantUpdate s flow chunkBytes) := by
  have hset : SameRegions s { s.tick with
      mFlows := s.mFlows.set flow
        { (s.mFlows.find? flow).getD {} with
          pending := chunkBytes, blockedAtGrantSequence := none, lastProgress := s.now } } := by
    refine ⟨⟨rfl, rfl, rfl, rfl, rfl, rfl, rfl, rfl⟩, rfl, fun key x => ?_⟩
    rw [heldByFlow_eq_true, heldByFlow_eq_true]
    by_cases hk : key = flow
    · subst hk
      cases hf : s.mFlows.find? key with
      | none | some => simp
    · simp [hk]
  rw [onWantUpdate]
  split_ifs
  · exact hset.trans (eraseIfDone_same _ flow)
  · refine hset.trans ?_
    rw [ensureInRing]
    split_ifs
    · exact .of_flows (SameRest.refl _) rfl rfl
    · exact .of_flows ⟨rfl, rfl, rfl, rfl, rfl, rfl, rfl, rfl⟩ rfl rfl

/-- A reassignment, and then nothing more. -/
lemma SameRegions.after (h' : SameRegions s' s'')
    (h : Reassigned s s' H dst) : Reassigned s s'' H dst := by
  have hlive : ∀ x, x ∈ s''.live ↔ x ∈ s'.live :=
    fun x => by rw [CreditScheduler.live, h'.arena]; rfl
  refine ⟨h'.rest.baseAddr.trans h.baseAddr, fun x => ?_, fun o x => ?_, fun x hx => ?_⟩
  · rw [hlive, h.live]
  · rw [h'.mem_owns, h.owns]
  · rw [← h.bytes x ((hlive x).mp hx), regionBytes, h'.arena]
    rfl

lemma onScatterDoneUpdate_reassigned (hs : Owned s.live s.owns) (flow : Bytes)
    (offset : ℕ) : Reassigned s (onScatterDoneUpdate s flow offset)
      { x | x = offset ∧ s.heldByFlow flow x = true } fun _ => none := by
  have hno : s.heldByFlow flow offset ≠ true →
      ∀ x, x ∉ { x | x = offset ∧ s.heldByFlow flow x = true } := by
    rintro h x ⟨rfl, hx⟩
    exact h hx
  rw [onScatterDoneUpdate]
  split
  · rename_i hfind
    refine SameRegions.reassigned (.of_flows (SameRest.refl s) rfl rfl) _ (hno ?_)
    rw [Ne, heldByFlow_eq_true, hfind]
    simp
  · rename_i st hfind
    split_ifs with hmem
    · have hheld : s.heldByFlow flow offset = true := heldByFlow_eq_true.mpr ⟨st, hfind, hmem⟩
      refine (eraseIfDone_same _ flow).after (Reassigned.release hs (o := .flow flow) hheld
        (fun x => ?_) rfl rfl (fun x => ?_) fun o' ho' x => ?_)
      · exact ⟨fun hx => hx.1, fun hx => ⟨hx, hx ▸ hheld⟩⟩
      · simp only [owns, Set.mem_ofPred_eq, heldByFlow_eq_true, find?_set, if_true, hfind,
          Option.some.injEq, exists_eq_left', mem_erase]
      · cases o' with
        | flow key =>
          have hk : key ≠ flow := fun h => ho' (congrArg Owner.flow h)
          simp only [owns, Set.mem_ofPred_eq, heldByFlow_eq_true, find?_set, if_neg hk]
        | sender | orphans | quarantine => rfl
    · refine (eraseIfDone_same s flow).reassigned _ (hno ?_)
      rw [Ne, heldByFlow_eq_true, hfind]
      simpa using hmem

/-- Where a reclaim sends a region. -/
def reclaimDst (busy : USet ℕ) (quarantineFor : ℤ) (x : ℕ) : Option Owner :=
  if x ∈ busy then some .orphans else if 0 < quarantineFor then some .quarantine else none

/-- What `dropFlow` has done once the regions `offs` are dealt with. -/
structure Dropped (busy : USet ℕ) (quarantineFor : ℤ) (offs : List ℕ) (s s' : CreditScheduler) :
    Prop where
  baseAddr : s'.mBaseAddr = s.mBaseAddr
  flows : s'.mFlows = s.mFlows
  localHeld : s'.mLocalHeld = s.mLocalHeld
  live : ∀ x, x ∈ s'.live ↔ x ∈ s.live ∧ (x ∈ offs → reclaimDst busy quarantineFor x ≠ none)
  orphans : ∀ x, x ∈ s'.mOrphans
    ↔ x ∈ s.mOrphans ∨ (x ∈ offs ∧ reclaimDst busy quarantineFor x = some .orphans)
  quarantined : ∀ x, x ∈ s'.mQuarantined
    ↔ x ∈ s.mQuarantined ∨ (x ∈ offs ∧ reclaimDst busy quarantineFor x = some .quarantine)
  bytes : ∀ x ∈ s'.live, s'.regionBytes x = s.regionBytes x

lemma dropRegion_dropped (busy : USet ℕ) (quarantineFor : ℤ) (s : CreditScheduler) (d : List ℕ)
    (off : ℕ) :
    Dropped busy quarantineFor [off] s (dropRegion busy quarantineFor (s, d) off).1 := by
  rw [dropRegion]
  by_cases hb : off ∈ busy
  · have hd : reclaimDst busy quarantineFor off = some .orphans := if_pos hb
    rw [if_pos hb]
    refine ⟨rfl, rfl, rfl, fun x => ?_, fun x => ?_, fun x => ?_, fun _ _ => rfl⟩
    · by_cases hx : x = off <;> simp [hx, hd, live]
    · by_cases hx : x = off <;> simp [hx, hd]
    · by_cases hx : x = off <;> simp [hx, hd]
  · by_cases hq : 0 < quarantineFor
    · have hd : reclaimDst busy quarantineFor off = some .quarantine := by
        rw [reclaimDst, if_neg hb, if_pos hq]
      rw [if_neg hb, if_pos hq]
      refine ⟨rfl, rfl, rfl, fun x => ?_, fun x => ?_, fun x => ?_, fun _ _ => rfl⟩
      · by_cases hx : x = off <;> simp [hx, hd, live, tick]
      · by_cases hx : x = off <;> simp [hx, hd, tick]
      · by_cases hx : x = off <;> simp [hx, hd]
    · have hd : reclaimDst busy quarantineFor off = none := by
        rw [reclaimDst, if_neg hb, if_neg hq]
      rw [if_neg hb, if_neg hq]
      have hlive : ∀ x, x ∈ CreditScheduler.live { s with mArena := s.mArena.free off }
          ↔ x ≠ off ∧ x ∈ s.live := by
        intro x
        rw [mem_live, mem_live, BuddyAllocator.live?_free]
        by_cases hx : x = off <;> simp [hx]
      refine ⟨rfl, rfl, rfl, fun x => ?_, fun x => ?_, fun x => ?_, fun x hx => ?_⟩
      · rw [hlive]
        by_cases hx : x = off <;> simp [hx, hd]
      · by_cases hx : x = off <;> simp [hx, hd]
      · by_cases hx : x = off <;> simp [hx, hd]
      · exact BuddyAllocator.blockBytes_free _ ((hlive x).mp hx).1

lemma Dropped.trans {busy : USet ℕ} {quarantineFor : ℤ} {l l' : List ℕ}
    (h : Dropped busy quarantineFor l s s') (h' : Dropped busy quarantineFor l' s' s'') :
    Dropped busy quarantineFor (l ++ l') s s'' := by
  refine ⟨h'.baseAddr.trans h.baseAddr, h'.flows.trans h.flows, h'.localHeld.trans h.localHeld,
    fun x => ?_, fun x => ?_, fun x => ?_, fun x hx => ?_⟩
  · rw [h'.live, h.live, mem_append]
    tauto
  · rw [h'.orphans, h.orphans, mem_append]
    tauto
  · rw [h'.quarantined, h.quarantined, mem_append]
    tauto
  · rw [h'.bytes x hx, h.bytes x ((h'.live x).mp hx).1]

/-- The loop of `dropFlow` over the held regions. -/
lemma foldl_dropRegion_dropped (busy : USet ℕ) (quarantineFor : ℤ) (offs : List ℕ) :
    ∀ (s : CreditScheduler) (d : List ℕ),
      Dropped busy quarantineFor offs s (offs.foldl (dropRegion busy quarantineFor) (s, d)).1
        ∧ (offs.foldl (dropRegion busy quarantineFor) (s, d)).2
          = d ++ offs.filter fun x => x ∈ busy := by
  induction offs with
  | nil =>
    intro s d
    refine ⟨⟨rfl, rfl, rfl, fun x => ?_, fun x => ?_, fun x => ?_, fun _ _ => rfl⟩, by simp⟩
    · simp
    · simp
    · simp
  | cons off offs ih =>
    intro s d
    have h1 := dropRegion_dropped busy quarantineFor s d off
    obtain ⟨h2, h3⟩ := ih (dropRegion busy quarantineFor (s, d) off).1
      (dropRegion busy quarantineFor (s, d) off).2
    rw [foldl_cons]
    refine ⟨h1.trans h2, h3.trans ?_⟩
    have hd : (dropRegion busy quarantineFor (s, d) off).2
        = d ++ [off].filter fun x => x ∈ busy := by
      rw [dropRegion]
      split_ifs with hb hq <;> simp [hb]
    rw [hd, append_assoc, ← filter_append, singleton_append]

lemma heldByFlow_live (hs : Owned s.live s.owns) {x : ℕ}
    (h : s.heldByFlow key x = true) : x ∈ s.live :=
  hs.mem_live (i := .flow key) h

lemma reclaimDst_ne_flow (busy : USet ℕ) (quarantineFor : ℤ) (x : ℕ) (key : Bytes) :
    reclaimDst busy quarantineFor x ≠ some (.flow key) := by
  rw [reclaimDst]
  split_ifs <;> simp

lemma reclaimDst_ne_sender (busy : USet ℕ) (quarantineFor : ℤ) (x : ℕ) :
    reclaimDst busy quarantineFor x ≠ some .sender := by
  rw [reclaimDst]
  split_ifs <;> simp

/-- `dropFlow` takes all regions of the flow, and reports those that were busy, once each. -/
lemma dropFlow_reassigned (hs : Owned s.live s.owns) (busy : USet ℕ)
    (quarantineFor : ℤ) (d : List ℕ) (flow : Bytes) :
    Reassigned s (dropFlow busy quarantineFor (s, d) flow).1 { x | s.heldByFlow flow x = true }
        (reclaimDst busy quarantineFor)
      ∧ (∀ x, x ∈ (dropFlow busy quarantineFor (s, d) flow).2
        ↔ x ∈ d ∨ (s.heldByFlow flow x = true ∧ x ∈ busy))
      ∧ (d.Nodup → (∀ x ∈ d, s.heldByFlow flow x ≠ true) →
        (dropFlow busy quarantineFor (s, d) flow).2.Nodup) := by
  rw [dropFlow]
  split
  · rename_i hfind
    have hno : ∀ x, s.heldByFlow flow x ≠ true := by
      intro x
      rw [Ne, heldByFlow_eq_true, hfind]
      simp
    refine ⟨SameRegions.reassigned (.of_flows (SameRest.refl s) rfl rfl) _ hno, fun x => ?_,
      fun hd _ => hd⟩
    simp [hno]
  · rename_i st hfind
    obtain ⟨h, hd⟩ := foldl_dropRegion_dropped busy quarantineFor st.held.keys s d
    have hheld : ∀ x, s.heldByFlow flow x = true ↔ x ∈ st.held.keys := by
      intro x
      rw [heldByFlow_eq_true, hfind]
      simp only [Option.some.injEq, exists_eq_left']
      rfl
    refine ⟨(dropFromRing_same _ flow).after ⟨h.baseAddr, fun x => ?_, fun o x => ?_, h.bytes⟩,
      fun x => ?_, fun hnd hdis => ?_⟩
    · rw [Set.mem_ofPred_eq, hheld]
      exact h.live x
    · rw [Set.mem_ofPred_eq, hheld]
      -- a region held by this flow is in no other hands
      have hone : ∀ o', x ∈ st.held.keys → x ∈ s.owns o' → o' = .flow flow :=
        fun o' hx ho' => hs.eq_of_mem ho' ((hheld x).mpr hx)
      cases o with
      | flow key =>
        simp only [owns, Set.mem_ofPred_eq, heldByFlow_eq_true, find?_erase, h.flows,
          reclaimDst_ne_flow, and_false, false_or]
        by_cases hk : key = flow
        · subst hk
          simp only [if_true, reduceCtorEq, false_and, exists_false, false_iff]
          rintro ⟨hx, hx'⟩
          exact hx ((hheld x).mp (heldByFlow_eq_true.mpr hx'))
        · rw [if_neg hk]
          refine ⟨fun hx => ⟨fun hx' => hk ?_, hx⟩, fun hx => hx.2⟩
          exact Owner.flow.inj (hone (.flow key) hx' (heldByFlow_eq_true.mpr hx))
      | sender =>
        simp only [owns, Set.mem_ofPred_eq, h.localHeld, reclaimDst_ne_sender, and_false, false_or]
        refine ⟨fun hx => ⟨fun hx' => ?_, hx⟩, fun hx => hx.2⟩
        exact Owner.noConfusion (hone .sender hx' hx)
      | orphans =>
        refine (h.orphans x).trans (or_comm.trans (or_congr_right ?_))
        refine ⟨fun hx => ⟨fun hx' => ?_, hx⟩, fun hx => hx.2⟩
        exact Owner.noConfusion (hone .orphans hx' hx)
      | quarantine =>
        refine (h.quarantined x).trans (or_comm.trans (or_congr_right ?_))
        refine ⟨fun hx => ⟨fun hx' => ?_, hx⟩, fun hx => hx.2⟩
        exact Owner.noConfusion (hone .quarantine hx' hx)
    · rw [hd, mem_append, mem_filter, hheld, decide_eq_true_iff]
    · rw [hd, nodup_append']
      refine ⟨hnd, st.held.keys_nodup.filter _, fun x hx hx' => hdis x hx ?_⟩
      exact (hheld x).mpr (mem_filter.mp hx').1

/-- Two reassignments of different regions. -/
lemma Reassigned.trans {H' : Set ℕ} (h : Reassigned s s' H dst) (h' : Reassigned s' s'' H' dst)
    (hd : ∀ x ∈ H', x ∉ H) : Reassigned s s'' (H ∪ H') dst := by
  refine ⟨h'.baseAddr.trans h.baseAddr, fun x => ?_, fun o x => ?_, fun x hx => ?_⟩
  · rw [h'.live, h.live, Set.mem_union]
    tauto
  · have := hd x
    rw [h'.owns, h.owns, Set.mem_union]
    tauto
  · rw [h'.bytes x hx, h.bytes x ((h'.live x).mp hx).1]

lemma Reassigned.congr {H' : Set ℕ} (h : Reassigned s s' H dst)
    (hH : ∀ x, x ∈ H' ↔ x ∈ H) : Reassigned s s' H' dst := by
  rw [show H' = H from Set.ext hH]
  exact h

/-- The loop of `reclaimByPrefix` over its victims. -/
lemma foldl_dropFlow_reassigned (busy : USet ℕ) (quarantineFor : ℤ) (keys : List Bytes) :
    ∀ (s : CreditScheduler) (d : List ℕ), Owned s.live s.owns →
      Reassigned s (keys.foldl (dropFlow busy quarantineFor) (s, d)).1
          { x | ∃ key ∈ keys, s.heldByFlow key x = true } (reclaimDst busy quarantineFor)
        ∧ (∀ x, x ∈ (keys.foldl (dropFlow busy quarantineFor) (s, d)).2
          ↔ x ∈ d ∨ ((∃ key ∈ keys, s.heldByFlow key x = true) ∧ x ∈ busy))
        ∧ (d.Nodup → (∀ x ∈ d, ∀ key, s.heldByFlow key x ≠ true) →
          (keys.foldl (dropFlow busy quarantineFor) (s, d)).2.Nodup) := by
  induction keys with
  | nil =>
    intro s d _
    refine ⟨SameRegions.reassigned (.of_flows (SameRest.refl s) rfl rfl) _ fun x => ?_, fun x => ?_,
      fun hd _ => hd⟩
    · simp
    · simp
  | cons key keys ih =>
    intro s d hs
    obtain ⟨h1, h2, hnd1⟩ := dropFlow_reassigned hs busy quarantineFor d key
    have hs1 := h1.owned (fun x hx => heldByFlow_live hs hx) hs
    obtain ⟨h3, h4, hnd2⟩ := ih (dropFlow busy quarantineFor (s, d) key).1
      (dropFlow busy quarantineFor (s, d) key).2 hs1
    have hheld : ∀ key' x, (dropFlow busy quarantineFor (s, d) key).1.heldByFlow key' x = true
        ↔ s.heldByFlow key x ≠ true ∧ s.heldByFlow key' x = true := by
      intro key' x
      have := h1.owns (.flow key') x
      simp only [reclaimDst_ne_flow, and_false, false_or] at this
      exact this
    simp only [hheld] at h3 h4
    rw [foldl_cons]
    refine ⟨(h1.trans h3 ?_).congr fun x => ?_, fun x => ?_, fun hd hdis => ?_⟩
    · rintro x ⟨key', -, hx, -⟩
      exact hx
    · simp only [mem_cons, exists_eq_or_imp, Set.mem_union, Set.mem_ofPred_eq]
      by_cases hk : s.heldByFlow key x = true <;> simp [hk]
    · rw [h4, h2]
      by_cases hk : s.heldByFlow key x = true <;> simp [hk]
    · refine hnd2 (hnd1 hd fun x hx => hdis x hx key) fun x hx key' hh => ?_
      rw [hheld] at hh
      rcases (h2 x).mp hx with hx | hx
      · exact hdis x hx key' hh.2
      · exact hh.1 hx.1

lemma mem_victims {pfx : Bytes} : key ∈ s.victims pfx ↔ key ∈ s.mFlows ∧ pfx <+: key := by
  rw [victims, mem_filter, isPrefixOf_iff_prefix]
  rfl

/-- `reclaimByPrefix` takes all regions of the flows under the prefix. -/
lemma reclaimByPrefixUpdate_reassigned (hs : Owned s.live s.owns) (pfx : Bytes)
    (busy : USet ℕ) (quarantineFor : ℤ) :
    Reassigned s (reclaimByPrefixUpdate s pfx busy quarantineFor).1
        { x | ∃ key, pfx <+: key ∧ s.heldByFlow key x = true } (reclaimDst busy quarantineFor)
      ∧ (∀ x, x ∈ (reclaimByPrefixUpdate s pfx busy quarantineFor).2
        ↔ (∃ key, pfx <+: key ∧ s.heldByFlow key x = true) ∧ x ∈ busy)
      ∧ (reclaimByPrefixUpdate s pfx busy quarantineFor).2.Nodup := by
  have hiff : ∀ x, (∃ key ∈ s.victims pfx, s.heldByFlow key x = true)
      ↔ ∃ key, pfx <+: key ∧ s.heldByFlow key x = true := by
    intro x
    constructor
    · rintro ⟨key, hk, hx⟩
      exact ⟨key, (mem_victims.mp hk).2, hx⟩
    · rintro ⟨key, hk, hx⟩
      obtain ⟨st, hst, -⟩ := heldByFlow_eq_true.mp hx
      exact ⟨key, mem_victims.mpr ⟨mem_of_find? hst, hk⟩, hx⟩
  obtain ⟨h1, h2, h3⟩ := foldl_dropFlow_reassigned busy quarantineFor (s.victims pfx) s [] hs
  refine ⟨h1.congr fun x => (hiff x).symm, fun x => ?_, h3 nodup_nil (by simp)⟩
  rw [reclaimByPrefixUpdate, h2, hiff]
  simp

/-- The loop of `reapQuarantine` over the quarantined regions `es`. -/
lemma foldl_reapRegion_reassigned (t : ℤ) (es : List (ℕ × ℤ)) : ∀ s : CreditScheduler,
    Owned s.live s.owns → (es.map Prod.fst).Nodup → (∀ e ∈ es, e.1 ∈ s.mQuarantined) →
      Reassigned s (es.foldl (reapRegion t) s) { x | ∃ d, (x, d) ∈ es ∧ d ≤ t } fun _ => none := by
  induction es with
  | nil =>
    intro s _ _ _
    exact SameRegions.reassigned (.of_flows (SameRest.refl s) rfl rfl) _ fun x => by simp
  | cons e es ih =>
    intro s hs hnd hq
    rw [map_cons, nodup_cons] at hnd
    rw [foldl_cons, reapRegion]
    split_ifs with he
    · have hqe : e.1 ∈ s.mQuarantined := hq e mem_cons_self
      have h1 : Reassigned s
          { s with mArena := s.mArena.free e.1, mQuarantined := s.mQuarantined.erase e.1 }
          {e.1} fun _ => none := by
        refine Reassigned.release hs (o := .quarantine) hqe (fun x => Set.mem_singleton_iff) rfl rfl
          (fun x => mem_erase) fun o' ho' x => ?_
        cases o' with
        | flow | sender | orphans => rfl
        | quarantine => exact absurd rfl ho'
      have hs1 := h1.owned (fun x hx => hs.mem_live (i := .quarantine) (hx ▸ hqe)) hs
      have h2 := ih _ hs1 hnd.2 fun e' he' => ?_
      · refine (h1.trans h2 ?_).congr fun x => ?_
        · rintro x ⟨d, hx, -⟩ rfl
          exact hnd.1 (mem_map.mpr ⟨_, hx, rfl⟩)
        · simp only [Set.mem_ofPred_eq, mem_cons, Set.mem_union, Set.mem_singleton_iff]
          constructor
          · rintro ⟨d, rfl | hx, hd⟩
            · exact Or.inl rfl
            · exact Or.inr ⟨d, hx, hd⟩
          · rintro (rfl | ⟨d, hx, hd⟩)
            · exact ⟨e.2, Or.inl rfl, he⟩
            · exact ⟨d, Or.inr hx, hd⟩
      · refine mem_erase.mpr ⟨fun h => hnd.1 ?_, hq e' (mem_cons_of_mem _ he')⟩
        exact mem_map.mpr ⟨e', he', h⟩
    · refine (ih s hs hnd.2 fun e' he' => hq e' (mem_cons_of_mem _ he')).congr fun x => ?_
      simp only [Set.mem_ofPred_eq, mem_cons]
      constructor
      · rintro ⟨d, rfl | hx, hd⟩
        · exact absurd hd he
        · exact ⟨d, hx, hd⟩
      · rintro ⟨d, hx, hd⟩
        exact ⟨d, Or.inr hx, hd⟩

lemma reapQuarantineUpdate_reassigned (hs : Owned s.live s.owns) :
    Reassigned s s.reapQuarantineUpdate
      { x | ∃ d, s.mQuarantined.find? x = some d ∧ d ≤ s.now } fun _ => none := by
  have h : Reassigned s.tick s.reapQuarantineUpdate _ _ :=
    foldl_reapRegion_reassigned s.now s.mQuarantined.entries s.tick hs s.mQuarantined.nodup
      fun e he => mem_of_find? (find?_eq_some_iff.mpr he)
  refine Reassigned.congr ⟨h.baseAddr, h.live, h.owns, h.bytes⟩ fun x => ?_
  simp only [Set.mem_ofPred_eq, find?_eq_some_iff]

lemma freeOrphanRegionUpdate_reassigned (hs : Owned s.live s.owns)
    (offset : ℕ) : Reassigned s (freeOrphanRegionUpdate s offset)
      { x | x = offset ∧ x ∈ s.mOrphans } fun _ => none := by
  rw [freeOrphanRegionUpdate]
  split_ifs with h
  · refine Reassigned.release hs (o := .orphans) h (fun x => ?_) rfl rfl (fun x => mem_erase)
      fun o' ho' x => ?_
    · exact ⟨fun hx => hx.1, fun hx => ⟨hx, hx ▸ h⟩⟩
    · cases o' with
      | flow | sender | quarantine => rfl
      | orphans => exact absurd rfl ho'
  · refine SameRegions.reassigned (.of_flows (SameRest.refl s) rfl rfl) _ ?_
    rintro x ⟨rfl, hx⟩
    exact h hx

lemma promoteLocal_reassigned (s : CreditScheduler) (offset : ℕ) (dst : ℕ → Option Owner)
    (hH : ∀ x, x ∉ H) : Reassigned s (promoteLocal s offset) H dst := by
  rw [promoteLocal]
  split
  · exact SameRegions.reassigned (.of_flows (SameRest.refl s) rfl rfl) _ hH
  · refine ⟨rfl, fun x => ?_, fun o x => ?_, fun _ _ => rfl⟩
    · exact ⟨fun hx => ⟨hx, fun hx' => absurd hx' (hH x)⟩, fun hx => hx.1⟩
    · refine ⟨fun hx => Or.inr ⟨hH x, ?_⟩, fun hx => ?_⟩
      · cases o <;> exact hx
      · rcases hx with hx | hx
        · exact absurd hx.1 (hH x)
        · cases o <;> exact hx.2

lemma releaseLocalUpdate_reassigned (hs : Owned s.live s.owns)
    (offset : ℕ) : Reassigned s (releaseLocalUpdate s offset)
      { x | x = offset ∧ x ∈ s.mLocalHeld } fun _ => none := by
  rw [releaseLocalUpdate]
  split_ifs with h
  · have hfields : ∃ m b, promoteLocal { s with mLocalHeld := s.mLocalHeld.erase offset } offset
        = { s with
          mLocalHeld := s.mLocalHeld.erase offset, mEagerHeld := m, mEagerHeldBytes := b } := by
      rw [promoteLocal]
      split <;> exact ⟨_, _, rfl⟩
    obtain ⟨m, b, hmb⟩ := hfields
    rw [hmb]
    refine Reassigned.release hs (o := .sender) h (fun x => ?_) rfl rfl (fun x => mem_erase)
      fun o' ho' x => ?_
    · exact ⟨fun hx => hx.1, fun hx => ⟨hx, hx ▸ h⟩⟩
    · cases o' with
      | flow | orphans | quarantine => rfl
      | sender => exact absurd rfl ho'
  · refine SameRegions.reassigned (.of_flows (SameRest.refl s) rfl rfl) _ ?_
    rintro x ⟨rfl, hx⟩
    exact h hx

/-- `acquireLocal` returns a fresh block and gives it to the local sender, or changes
nothing. -/
lemma acquireLocal_spec (pick : List ℕ → ℕ) (s : CreditScheduler) (bytes : ℕ) (eager : Bool) :
    ((acquireLocal pick s bytes eager).1 = none
        ∧ Reassigned s (acquireLocal pick s bytes eager).2 ∅ fun _ => none)
      ∨ ∃ off, (acquireLocal pick s bytes eager).1 = some off
        ∧ Acquired s (acquireLocal pick s bytes eager).2 off
        ∧ bytes ≤ (acquireLocal pick s bytes eager).2.regionBytes off := by
  rw [acquireLocal]
  split
  · exact Or.inl ⟨rfl, SameRegions.reassigned (.of_flows (SameRest.refl s) rfl rfl) _ fun x hx =>
      hx⟩
  · rename_i off arena halloc
    obtain ⟨hfresh, hle, -, hbytes, o, hlive⟩ := BuddyAllocator.alloc_some halloc
    have hacq : ∀ s' : CreditScheduler, s'.mBaseAddr = s.mBaseAddr → s'.mArena = arena →
        s'.mFlows = s.mFlows → s'.mOrphans = s.mOrphans → s'.mQuarantined = s.mQuarantined →
        s'.mLocalHeld = USet.insert s.mLocalHeld off → Acquired s s' off := by
      intro s' h1 h2 h3 h4 h5 h6
      refine ⟨h1, fun h => mem_live.mp h hfresh, fun x => ?_, fun o' x => ?_, fun x hx => ?_⟩
      · rw [mem_live, mem_live, h2, hlive]
        by_cases hx : x = off <;> simp [hx]
      · cases o' with
        | flow key => simp [owns, heldByFlow, h3]
        | sender => simp [owns, h6]
        | orphans => simp [owns, h4]
        | quarantine => simp [owns, h5]
      · rw [regionBytes, h2]
        exact hbytes x hx
    dsimp only
    split_ifs with he hb
    · -- over the eager budget: the block goes back, and the arena is as before
      refine Or.inl ⟨rfl, rfl, fun x => ?_, fun o' x => ?_, fun x hx => ?_⟩
      · rw [mem_live, mem_live, BuddyAllocator.live?_free, hlive]
        by_cases hx : x = off
        · simp [hx, hfresh]
        · simp [hx]
      · cases o' <;> simp [owns, heldByFlow]
      · have hxo : x ≠ off := by
          rintro rfl
          rw [mem_live, BuddyAllocator.live?_free, if_pos rfl] at hx
          exact hx rfl
        rw [regionBytes, BuddyAllocator.blockBytes_free _ hxo]
        exact hbytes x hxo
    · exact Or.inr ⟨off, rfl, hacq _ rfl rfl rfl rfl rfl rfl, hle⟩
    · exact Or.inr ⟨off, rfl, hacq _ rfl rfl rfl rfl rfl rfl, hle⟩

/-! ### Whole calls -/

/-- A call that takes the regions of `H` from their owners, each for `dst`, and then grants. -/
def Effect (s : CreditScheduler) (gs : List Grant) (s' : CreditScheduler) (H : Set ℕ)
    (dst : ℕ → Option Owner) : Prop :=
  ∃ mid, Reassigned s mid H dst ∧ GrantRun mid gs s'

namespace Effect

variable {s s' : CreditScheduler} {gs : List Grant} {H : Set ℕ} {dst : ℕ → Option Owner}

section

variable (h : Effect s gs s' H dst)
include h

lemma owned (hH : H ⊆ s.live) (hs : Owned s.live s.owns) : Owned s'.live s'.owns := by
  obtain ⟨mid, h1, h2⟩ := h
  exact h2.owned (h1.owned hH hs)

lemma mem_owns (o : Owner) (x : ℕ) :
    x ∈ s'.owns o ↔ ((x ∈ H ∧ dst x = some o) ∨ (x ∉ H ∧ x ∈ s.owns o))
      ∨ ∃ g ∈ gs, o = .flow g.flow ∧ x = g.offset := by
  obtain ⟨mid, h1, h2⟩ := h
  rw [h2.frame.2.2.2, h1.owns]

/-- A party other than a flow gets nothing but what was taken for it. -/
lemma mem_owns_of_ne_flow {o : Owner} (ho : ∀ key, o ≠ .flow key)
    (x : ℕ) : x ∈ s'.owns o ↔ (x ∈ H ∧ dst x = some o) ∨ (x ∉ H ∧ x ∈ s.owns o) := by
  rw [h.mem_owns]
  refine ⟨fun hx => hx.elim id ?_, Or.inl⟩
  rintro ⟨g, -, he, -⟩
  exact absurd he (ho g.flow)

/-- A region that is not taken stays with its owner. -/
lemma owns_of_not_mem {o : Owner} {x : ℕ} (hx : x ∉ H) (ho : x ∈ s.owns o) : x ∈ s'.owns o :=
  (h.mem_owns o x).mpr (Or.inl (Or.inr ⟨hx, ho⟩))

/-- A granted block was not live, or the call itself gave it back. -/
lemma grant_not_live {g : Grant} (hg : g ∈ gs)
    (hl : g.offset ∈ s.live) : g.offset ∈ H ∧ dst g.offset = none := by
  obtain ⟨mid, h1, h2⟩ := h
  have hnot := ((h2.grants).2 g hg).1
  rw [h1.live] at hnot
  by_contra hne
  exact hnot ⟨hl, fun hH hd => hne ⟨hH, hd⟩⟩

end

lemma of_same {mid : CreditScheduler} (h : SameRegions s mid) (hrun : GrantRun mid gs s') :
    Effect s gs s' ∅ fun _ => none :=
  ⟨mid, h.reassigned _ fun _ hx => hx, hrun⟩

end Effect

variable {s : CreditScheduler}

lemma onWant_effect (pick : List ℕ → ℕ) (s : CreditScheduler) (flow : Bytes) (chunkBytes : List ℕ) :
    Effect s (onWant pick s flow chunkBytes).1 (onWant pick s flow chunkBytes).2 ∅ fun _ => none :=
  .of_same (onWantUpdate_same s flow chunkBytes) (schedule_run pick _)

section

variable (pick : List ℕ → ℕ) (hs : Owned s.live s.owns)
include hs

lemma onScatterDone_effect (flow : Bytes) (offset : ℕ) :
    Effect s (onScatterDone pick s flow offset).1 (onScatterDone pick s flow offset).2
      { x | x = offset ∧ s.heldByFlow flow x = true } fun _ => none :=
  ⟨_, onScatterDoneUpdate_reassigned hs flow offset, schedule_run pick _⟩

lemma reclaimFlow_effect (flow : Bytes) (busy : USet ℕ) (quarantineFor : ℤ) :
    Effect s (reclaimFlow pick s flow busy quarantineFor).1
        (reclaimFlow pick s flow busy quarantineFor).2.1 { x | s.heldByFlow flow x = true }
        (reclaimDst busy quarantineFor)
      ∧ (∀ x, x ∈ (reclaimFlow pick s flow busy quarantineFor).2.2
        ↔ s.heldByFlow flow x = true ∧ x ∈ busy)
      ∧ (reclaimFlow pick s flow busy quarantineFor).2.2.Nodup := by
  obtain ⟨h1, h2, h3⟩ := dropFlow_reassigned hs busy quarantineFor [] flow
  refine ⟨⟨_, h1, schedule_run pick _⟩, fun x => ?_, h3 nodup_nil (by simp)⟩
  rw [reclaimFlow, h2]
  simp

lemma reclaimByPrefix_effect {pfx : Bytes} (hpfx : pfx ≠ []) (busy : USet ℕ) (quarantineFor : ℤ) :
    Effect s (reclaimByPrefix pick s pfx busy quarantineFor).1
        (reclaimByPrefix pick s pfx busy quarantineFor).2.1
        { x | ∃ key, pfx <+: key ∧ s.heldByFlow key x = true } (reclaimDst busy quarantineFor)
      ∧ (∀ x, x ∈ (reclaimByPrefix pick s pfx busy quarantineFor).2.2
        ↔ (∃ key, pfx <+: key ∧ s.heldByFlow key x = true) ∧ x ∈ busy)
      ∧ (reclaimByPrefix pick s pfx busy quarantineFor).2.2.Nodup := by
  obtain ⟨h1, h2⟩ := reclaimByPrefixUpdate_reassigned hs pfx busy quarantineFor
  rw [reclaimByPrefix, if_neg hpfx]
  exact ⟨⟨_, h1, schedule_run pick _⟩, h2⟩

lemma freeOrphanRegion_effect (offset : ℕ) :
    Effect s (freeOrphanRegion pick s offset).1 (freeOrphanRegion pick s offset).2
      { x | x = offset ∧ x ∈ s.mOrphans } fun _ => none :=
  ⟨_, freeOrphanRegionUpdate_reassigned hs offset, schedule_run pick _⟩

lemma reapQuarantine_effect : Effect s (reapQuarantine pick s).1 (reapQuarantine pick s).2
      { x | ∃ d, s.mQuarantined.find? x = some d ∧ d ≤ s.now } fun _ => none := by
  refine ⟨_, reapQuarantineUpdate_reassigned hs, ?_⟩
  rw [reapQuarantine]
  split_ifs
  · exact schedule_run pick _
  · exact .done (Quiet.refl _)

end

lemma pollDrain_effect (pick : List ℕ → ℕ) (s : CreditScheduler) :
    Effect s (pollDrain pick s).1 (pollDrain pick s).2 ∅ fun _ => none := by
  have htick : SameRegions s s.tick := .of_flows ⟨rfl, rfl, rfl, rfl, rfl, rfl, rfl, rfl⟩ rfl rfl
  rw [pollDrain]
  split_ifs
  · exact .of_same htick (schedule_run pick _)
  · exact .of_same htick (.done (Quiet.refl _))
  · exact .of_same (.of_flows (SameRest.refl s) rfl rfl) (.done (Quiet.refl _))

lemma releaseLocal_effect (pick : List ℕ → ℕ) (hs : Owned s.live s.owns)
    (offset : ℕ) : Effect s (releaseLocal pick s offset).1 (releaseLocal pick s offset).2
      { x | x = offset ∧ x ∈ s.mLocalHeld } fun _ => none :=
  ⟨_, releaseLocalUpdate_reassigned hs offset, schedule_run pick _⟩

lemma promoteLocal_effect (s : CreditScheduler) (offset : ℕ) :
    Effect s [] (promoteLocal s offset) ∅ fun _ => none :=
  ⟨_, promoteLocal_reassigned s offset _ fun _ hx => hx, .done (Quiet.refl _)⟩

end TrtLlm.CreditScheduler
