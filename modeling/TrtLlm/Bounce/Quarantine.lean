import TrtLlm.Bounce.ScheduleTurns

/-!
The quarantine of the credit scheduler.

* `Books`: the members that neither a pass nor a call about flows touches. The clock stays the same
  and its readings move on;
* `QuarantinedUntil`: a region is in quarantine with a deadline. `reclaims_quarantined`: a reclaim
  with a quarantine puts every region that is not busy there, and only `reapQuarantine` at the
  deadline takes it out (`call_quarantined`).
-/

namespace TrtLlm

open List Option Nat UMap

lemma BuddyAllocator.capacity_free (a : BuddyAllocator) (off : ℕ) :
    (a.free off).capacity = a.capacity :=
  (BuddyBlocks.free_spec a.property off).2.2.2

namespace CreditScheduler

/-! ### What stays in the books -/

/-- The members that neither a pass nor a call about flows touches; the clock moves on. -/
structure Books (s s' : CreditScheduler) : Prop where
  clock : s'.mClock = s.mClock
  tick : s.mTick ≤ s'.mTick
  capacity : s'.mArena.capacity = s.mArena.capacity
  eagerBudgetBytes : s'.mEagerBudgetBytes = s.mEagerBudgetBytes
  eagerHeld : s'.mEagerHeld = s.mEagerHeld
  eagerHeldBytes : s'.mEagerHeldBytes = s.mEagerHeldBytes
  localHeld : s'.mLocalHeld = s.mLocalHeld

variable {s s' : CreditScheduler} {x : ℕ}

lemma Books.refl (s : CreditScheduler) : Books s s := ⟨rfl, le_rfl, rfl, rfl, rfl, rfl, rfl⟩

lemma Books.trans {s'' : CreditScheduler} (h : Books s s') (h' : Books s' s'') : Books s s'' :=
  ⟨h'.1.trans h.1, h.2.trans h'.2, h'.3.trans h.3, h'.4.trans h.4, h'.5.trans h.5, h'.6.trans h.6,
    h'.7.trans h.7⟩

lemma Books.now_le (h : Books s s') (hclock : Monotone s.mClock) : s.now ≤ s'.now := by
  rw [now, now, h.clock]
  exact hclock h.tick

lemma books_tick (s : CreditScheduler) : Books s s.tick :=
  ⟨rfl, le_succ _, rfl, rfl, rfl, rfl, rfl⟩

lemma books_maybeActivateDrain (s : CreditScheduler) : Books s s.maybeActivateDrain := by
  rw [maybeActivateDrain]
  split_ifs
  · exact Books.refl s
  · dsimp only
    split
    · exact Books.refl s
    · exact ⟨rfl, le_succ _, rfl, rfl, rfl, rfl, rfl⟩

lemma books_issueGrant {arena : BuddyAllocator}
    (harena : arena.capacity = s.mArena.capacity) (flow : Bytes) (st : FlowState)
    (ringIdx off want : ℕ) :
    Books s (issueGrant { s with mArena := arena } flow st ringIdx off want).1 :=
  ⟨rfl, le_succ _, harena, rfl, rfl, rfl, rfl⟩

section

variable (pick : List ℕ → ℕ)

lemma books_sweep (ks : List ℕ) (s : CreditScheduler) : Books s (sweep pick ks s).state := by
  induction ks generalizing s with
  | nil => exact Books.refl s
  | cons k ks ih =>
    rw [sweep]
    split
    · exact ih s
    · rename_i st _
      split
      · exact ih s
      · rename_i want _
        split
        · split_ifs
          · exact ih s
          · refine Books.trans ?_ (ih _)
            exact ⟨rfl, le_rfl, rfl, rfl, rfl, rfl, rfl⟩
        · rename_i off arena halloc
          exact books_issueGrant (BuddyAllocator.alloc_some halloc).2.2.1 _ st _ off want

lemma books_drainOrSweep (s : CreditScheduler) : Books s (drainOrSweep pick s).state := by
  rw [drainOrSweep]
  split
  · exact books_sweep pick _ s
  · rename_i flow _
    split
    · exact ⟨rfl, le_rfl, rfl, rfl, rfl, rfl, rfl⟩
    · rename_i st _
      split
      · exact ⟨rfl, le_rfl, rfl, rfl, rfl, rfl, rfl⟩
      · rename_i want _
        split
        · split_ifs
          · exact books_tick s
          · refine Books.trans ?_ (books_sweep pick _ _)
            exact ⟨rfl, le_succ _, rfl, rfl, rfl, rfl, rfl⟩
        · rename_i off arena halloc
          have h := books_issueGrant (BuddyAllocator.alloc_some halloc).2.2.1 flow st
            (s.mRing.idxOf flow) off want
          exact ⟨h.clock, h.tick, h.capacity, h.eagerBudgetBytes, h.eagerHeld, h.eagerHeldBytes,
            h.localHeld⟩

lemma books_scheduleTurn (s : CreditScheduler) : Books s (scheduleTurn pick s).state := by
  rw [scheduleTurn]
  split_ifs
  · exact Books.refl s
  · exact (books_maybeActivateDrain s).trans (books_drainOrSweep pick _)

end

/-- A pass leaves the books alone. -/
lemma Pass.books {pick : List ℕ → ℕ} {gs : List Grant} (h : Pass pick s gs s') : Books s s' := by
  induction h with
  | @stop s s' ht =>
    have := books_scheduleTurn pick s
    rwa [ht] at this
  | @retry s _ _ _ ht _ ih =>
    have := books_scheduleTurn pick s
    rw [ht] at this
    exact this.trans ih
  | @granted s _ _ _ _ ht _ ih =>
    have := books_scheduleTurn pick s
    rw [ht] at this
    exact this.trans ih

lemma books_schedule (pick : List ℕ → ℕ) (s : CreditScheduler) : Books s (schedule pick s).2 :=
  (pass_schedule pick s).books

section

variable (s : CreditScheduler) (flow : Bytes)

lemma books_dropFromRing : Books s (dropFromRing s flow) := by
  obtain ⟨d, r, c, h⟩ := dropFromRing_eq s flow
  rw [h]
  exact ⟨rfl, le_rfl, rfl, rfl, rfl, rfl, rfl⟩

lemma books_eraseIfDone : Books s (eraseIfDone s flow) := by
  rw [eraseIfDone]
  split
  · exact Books.refl s
  · split_ifs
    · refine Books.trans ?_ (books_dropFromRing _ flow)
      exact ⟨rfl, le_rfl, rfl, rfl, rfl, rfl, rfl⟩
    · exact Books.refl s

lemma books_onWantUpdate (chunkBytes : List ℕ) : Books s (onWantUpdate s flow chunkBytes) := by
  rw [onWantUpdate]
  split_ifs
  · refine Books.trans ?_ (books_eraseIfDone _ flow)
    exact ⟨rfl, le_succ _, rfl, rfl, rfl, rfl, rfl⟩
  · rw [ensureInRing]
    split_ifs <;> exact ⟨rfl, le_succ _, rfl, rfl, rfl, rfl, rfl⟩

lemma books_onScatterDoneUpdate (offset : ℕ) : Books s (onScatterDoneUpdate s flow offset) := by
  rw [onScatterDoneUpdate]
  split
  · exact Books.refl s
  · split_ifs
    · refine Books.trans ?_ (books_eraseIfDone _ flow)
      exact ⟨rfl, le_succ _, s.mArena.capacity_free offset, rfl, rfl, rfl, rfl⟩
    · exact books_eraseIfDone s flow

end

section

variable (busy : USet ℕ) (quarantineFor : ℤ)

lemma books_dropRegion (acc : CreditScheduler × List ℕ)
    (off : ℕ) : Books acc.1 (dropRegion busy quarantineFor acc off).1 := by
  rw [dropRegion]
  split_ifs
  · exact ⟨rfl, le_rfl, rfl, rfl, rfl, rfl, rfl⟩
  · exact ⟨rfl, le_succ _, rfl, rfl, rfl, rfl, rfl⟩
  · exact ⟨rfl, le_rfl, acc.1.mArena.capacity_free off, rfl, rfl, rfl, rfl⟩

lemma books_dropRegions (offs : List ℕ)
    (acc : CreditScheduler × List ℕ) :
    Books acc.1 (offs.foldl (dropRegion busy quarantineFor) acc).1 := by
  induction offs generalizing acc with
  | nil => exact Books.refl acc.1
  | cons off offs ih => exact (books_dropRegion busy quarantineFor acc off).trans (ih _)

lemma books_dropFlow (acc : CreditScheduler × List ℕ)
    (flow : Bytes) : Books acc.1 (dropFlow busy quarantineFor acc flow).1 := by
  rw [dropFlow]
  split
  · exact Books.refl acc.1
  · rename_i st _
    refine (books_dropRegions busy quarantineFor st.held.keys acc).trans ?_
    refine Books.trans ?_ (books_dropFromRing _ flow)
    exact ⟨rfl, le_rfl, rfl, rfl, rfl, rfl, rfl⟩

lemma books_dropFlows (flows : List Bytes)
    (acc : CreditScheduler × List ℕ) :
    Books acc.1 (flows.foldl (dropFlow busy quarantineFor) acc).1 := by
  induction flows generalizing acc with
  | nil => exact Books.refl acc.1
  | cons flow flows ih => exact (books_dropFlow busy quarantineFor acc flow).trans (ih _)

end

lemma books_reapQuarantineUpdate (s : CreditScheduler) : Books s s.reapQuarantineUpdate := by
  rw [reapQuarantineUpdate]
  refine (books_tick s).trans ?_
  generalize s.mQuarantined.entries = es
  generalize s.now = t
  generalize s.tick = s'
  induction es generalizing s' with
  | nil => exact Books.refl s'
  | cons e es ih =>
    refine Books.trans ?_ (ih _)
    rw [reapRegion]
    split_ifs
    · exact ⟨rfl, le_rfl, s'.mArena.capacity_free e.1, rfl, rfl, rfl, rfl⟩
    · exact Books.refl s'

/-- The calls of the local sender. -/
def Call.isLocal : Call → Bool
  | .acquireLocal _ _ => true
  | .promoteLocal _ => true
  | .releaseLocal _ => true
  | _ => false

/-- A call that is not one of the local sender leaves the books alone. -/
lemma books_beforePass (s : CreditScheduler) {c : Call} (hc : c.isLocal = false) :
    Books s (beforePass s c) := by
  cases c with
  | onWant flow chunkBytes => exact books_onWantUpdate s flow chunkBytes
  | onScatterDone flow offset => exact books_onScatterDoneUpdate s flow offset
  | reclaimByPrefix pfx busy quarantineFor =>
    rw [beforePass]
    split_ifs
    · exact Books.refl s
    · exact books_dropFlows busy quarantineFor (s.victims pfx) (s, [])
  | reclaimFlow flow busy quarantineFor => exact books_dropFlow busy quarantineFor (s, []) flow
  | freeOrphanRegion offset =>
    rw [beforePass, freeOrphanRegionUpdate]
    split_ifs
    · exact ⟨rfl, le_rfl, s.mArena.capacity_free offset, rfl, rfl, rfl, rfl⟩
    · exact Books.refl s
  | reapQuarantine => exact books_reapQuarantineUpdate s
  | pollDrain =>
    rw [beforePass]
    split_ifs
    · exact books_tick s
    · exact Books.refl s
  | staleFlows => exact books_tick s
  | acquireLocal | promoteLocal | releaseLocal => cases hc
  | setDrainTimeout timeout => exact ⟨rfl, le_rfl, rfl, rfl, rfl, rfl, rfl⟩

/-! ### The quarantine -/

/-- The region is in quarantine, until `t` at least. -/
def QuarantinedUntil (t : ℤ) (x : ℕ) (s : CreditScheduler) : Prop :=
  ∃ d, s.mQuarantined.find? x = some d ∧ t ≤ d

lemma QuarantinedUntil.mem {t : ℤ} (h : QuarantinedUntil t x s) : x ∈ s.owns .quarantine := by
  obtain ⟨d, hd, -⟩ := h
  exact mem_of_find? hd

lemma QuarantinedUntil.congr {t : ℤ} (h : QuarantinedUntil t x s)
    (hsame : s'.mQuarantined = s.mQuarantined) : QuarantinedUntil t x s' := by
  rw [QuarantinedUntil, hsame]
  exact h

lemma GrantRun.rest {gs : List Grant} (h : GrantRun s gs s') : SameRest s s' := by
  induction h with
  | done hq => exact hq.rest
  | skip hq _ ih => exact hq.rest.trans ih
  | grant hg _ ih => exact hg.rest.trans ih

lemma find?_emplace_of_find? {m : UMap ℕ ℤ} {off : ℕ} {d v : ℤ} (h : m.find? x = some d) :
    (m.emplace off v).find? x = some d := by
  rw [find?_emplace, if_neg, h]
  rintro ⟨rfl, hnot⟩
  exact hnot (mem_of_find? h)

section Reclaim

variable (busy : USet ℕ) (quarantineFor : ℤ)

variable {t : ℤ} {x : ℕ}

lemma quarantined_dropRegion (acc : CreditScheduler × List ℕ) (off : ℕ)
    (h : QuarantinedUntil t x acc.1) :
    QuarantinedUntil t x (dropRegion busy quarantineFor acc off).1 := by
  obtain ⟨d, hd, hle⟩ := h
  refine ⟨d, ?_, hle⟩
  rw [dropRegion]
  split_ifs
  · exact hd
  · exact find?_emplace_of_find? hd
  · exact hd

lemma quarantined_dropRegions (offs : List ℕ) (acc : CreditScheduler × List ℕ)
    (h : QuarantinedUntil t x acc.1) :
    QuarantinedUntil t x (offs.foldl (dropRegion busy quarantineFor) acc).1 := by
  induction offs generalizing acc with
  | nil => exact h
  | cons off offs ih => exact ih _ (quarantined_dropRegion busy quarantineFor acc off h)

lemma quarantined_dropFlow (acc : CreditScheduler × List ℕ) (flow : Bytes)
    (h : QuarantinedUntil t x acc.1) :
    QuarantinedUntil t x (dropFlow busy quarantineFor acc flow).1 := by
  rw [dropFlow]
  split
  · exact h
  · rename_i st _
    exact (quarantined_dropRegions busy quarantineFor st.held.keys acc h).congr
      (dropFromRing_same _ flow).rest.quarantined

lemma quarantined_dropFlows (flows : List Bytes) (acc : CreditScheduler × List ℕ)
    (h : QuarantinedUntil t x acc.1) :
    QuarantinedUntil t x (flows.foldl (dropFlow busy quarantineFor) acc).1 := by
  induction flows generalizing acc with
  | nil => exact h
  | cons flow flows ih => exact ih _ (quarantined_dropFlow busy quarantineFor acc flow h)

variable (hq : 0 < quarantineFor)
include hq

/-- A region that is not busy goes into quarantine, from the reading of the clock at its turn. -/
lemma quarantined_of_mem_dropRegions {offs : List ℕ} (hx : x ∈ offs) (hbusy : x ∉ busy)
    (acc : CreditScheduler × List ℕ)
    (hclock : Monotone acc.1.mClock) (hnot : x ∉ acc.1.mQuarantined) :
    QuarantinedUntil (acc.1.now + quarantineFor) x
      (offs.foldl (dropRegion busy quarantineFor) acc).1 := by
  induction offs generalizing acc with
  | nil => exact absurd hx not_mem_nil
  | cons off offs ih =>
    rw [foldl_cons]
    by_cases hoff : x = off
    · refine quarantined_dropRegions busy quarantineFor offs _
        ⟨acc.1.now + quarantineFor, ?_, le_rfl⟩
      rw [dropRegion, ← hoff]
      rw [if_neg hbusy, if_pos hq]
      exact (find?_emplace _ _ _ _).trans (if_pos ⟨rfl, hnot⟩)
    · have hbooks := books_dropRegion busy quarantineFor acc off
      have hnot' : x ∉ (dropRegion busy quarantineFor acc off).1.mQuarantined := by
        rw [dropRegion]
        split_ifs
        · exact hnot
        · intro hmem
          obtain ⟨d, hd⟩ := mem_iff_find?.mp hmem
          rw [find?_emplace, if_neg fun h => hoff h.1] at hd
          exact hnot (mem_of_find? hd)
      obtain ⟨d, hd, hle⟩ := ih ((mem_cons.mp hx).resolve_left hoff) _
        (hbooks.clock ▸ hclock) hnot'
      have := hbooks.now_le hclock
      exact ⟨d, hd, by omega⟩

/-- A flow that holds a region is dropped. -/
lemma quarantined_of_dropFlow (hbusy : x ∉ busy)
    (acc : CreditScheduler × List ℕ) (hs : Owned acc.1.live acc.1.owns) {flow : Bytes}
    (hclock : Monotone acc.1.mClock) (hx : acc.1.heldByFlow flow x = true) :
    QuarantinedUntil (acc.1.now + quarantineFor) x (dropFlow busy quarantineFor acc flow).1 := by
  have hnot : x ∉ acc.1.mQuarantined := fun hmem =>
    absurd (hs.eq_of_mem (i := .flow flow) (j := .quarantine) hx hmem) (by simp)
  obtain ⟨st, hst, hmem⟩ := heldByFlow_eq_true.mp hx
  rw [dropFlow, hst]
  exact (quarantined_of_mem_dropRegions busy quarantineFor hq hmem hbusy acc hclock hnot).congr
    (dropFromRing_same _ flow).rest.quarantined

/-- It is one of several flows that are dropped. -/
lemma quarantined_of_dropFlows (hbusy : x ∉ busy) {flow : Bytes}
    {flows : List Bytes} (hflow : flow ∈ flows) (acc : CreditScheduler × List ℕ)
    (hs : Owned acc.1.live acc.1.owns) (hclock : Monotone acc.1.mClock)
    (hx : acc.1.heldByFlow flow x = true) :
    QuarantinedUntil (acc.1.now + quarantineFor) x
      (flows.foldl (dropFlow busy quarantineFor) acc).1 := by
  induction flows generalizing acc with
  | nil => exact absurd hflow not_mem_nil
  | cons key flows ih =>
    rw [foldl_cons]
    by_cases hkey : flow = key
    · refine quarantined_dropFlows busy quarantineFor flows _ ?_
      rw [← hkey]
      exact quarantined_of_dropFlow busy quarantineFor hq hbusy acc hs hclock hx
    · have hbooks := books_dropFlow busy quarantineFor acc key
      obtain ⟨s, d⟩ := acc
      have hre := (dropFlow_reassigned hs busy quarantineFor d key).1
      have hs' := hre.owned (fun y hy => heldByFlow_live hs hy) hs
      -- the region is not one of this flow, so its own flow keeps it
      have hx' : x ∈ (dropFlow busy quarantineFor (s, d) key).1.owns (.flow flow) := by
        refine (hre.owns (.flow flow) x).mpr (Or.inr ⟨fun hheld => ?_, hx⟩)
        have := hs.eq_of_mem (i := .flow flow) (j := .flow key) hx hheld
        exact hkey (Owner.flow.inj this)
      obtain ⟨b, hb, hle⟩ := ih ((mem_cons.mp hflow).resolve_left hkey) _ hs'
        (hbooks.clock ▸ hclock) hx'
      have := hbooks.now_le hclock
      exact ⟨b, hb, le_trans (Int.add_le_add_right this _) hle⟩

end Reclaim

variable {c : Call} {s s' : CreditScheduler} {t : ℤ} {x : ℕ}

/-- `reapQuarantine` before the deadline passes the region over. -/
lemma QuarantinedUntil.reapQuarantineUpdate (h : QuarantinedUntil t x s) (hnow : s.now < t) :
    QuarantinedUntil t x s.reapQuarantineUpdate := by
  obtain ⟨d, hd, hle⟩ := h
  refine ⟨d, ?_, hle⟩
  suffices hfold : ∀ (es : List (ℕ × ℤ)) (s' : CreditScheduler), s'.mQuarantined.find? x = some d →
      (∀ e ∈ es, e.1 = x → s.now < e.2) →
        (es.foldl (reapRegion s.now) s').mQuarantined.find? x = some d by
    refine hfold _ s.tick hd fun e he hx => ?_
    have hfind : s.mQuarantined.find? e.1 = some e.2 := find?_eq_some_iff.mpr he
    rw [hx, hd] at hfind
    rw [← some.inj hfind]
    omega
  intro es
  induction es with
  | nil => exact fun s' hs' _ => hs'
  | cons e es ih =>
    intro s' hs' hes
    refine ih _ ?_ fun e' he' => hes e' (mem_cons_of_mem e he')
    rw [reapRegion]
    split_ifs with hdue
    · have hne : x ≠ e.1 := fun heq => by
        have := hes e mem_cons_self heq.symm
        omega
      rw [find?_erase, if_neg hne, hs']
    · exact hs'

/-- Only `reapQuarantine` takes a region out of quarantine before its deadline. -/
lemma QuarantinedUntil.beforePass (h : QuarantinedUntil t x s)
    (hreap : c = .reapQuarantine → s.now < t) : QuarantinedUntil t x (beforePass s c) := by
  cases c with
  | onWant flow chunkBytes => exact h.congr (onWantUpdate_same s flow chunkBytes).rest.quarantined
  | onScatterDone flow offset =>
    rw [CreditScheduler.beforePass, onScatterDoneUpdate]
    split
    · exact h
    · split_ifs
      · exact h.congr (eraseIfDone_same _ flow).rest.quarantined
      · exact h.congr (eraseIfDone_same s flow).rest.quarantined
  | reclaimByPrefix pfx busy quarantineFor =>
    rw [CreditScheduler.beforePass]
    split_ifs
    · exact h
    · exact quarantined_dropFlows busy quarantineFor (s.victims pfx) (s, []) h
  | reclaimFlow flow busy quarantineFor =>
    exact quarantined_dropFlow busy quarantineFor (s, []) flow h
  | freeOrphanRegion offset =>
    refine h.congr ?_
    rw [CreditScheduler.beforePass, freeOrphanRegionUpdate]
    split_ifs <;> rfl
  | reapQuarantine => exact h.reapQuarantineUpdate (hreap rfl)
  | pollDrain =>
    rw [CreditScheduler.beforePass]
    split_ifs <;> exact h
  | staleFlows | acquireLocal | setDrainTimeout => exact h
  | promoteLocal offset =>
    refine h.congr ?_
    rw [CreditScheduler.beforePass, promoteLocal]
    split <;> rfl
  | releaseLocal offset =>
    refine h.congr ?_
    rw [CreditScheduler.beforePass, releaseLocalUpdate]
    split_ifs
    · rw [promoteLocal]
      split <;> rfl
    · rfl

/-- The call drops the flow and puts its regions into quarantine, but for the busy ones. -/
inductive Reclaims (flow : Bytes) (busy : USet ℕ) (quarantineFor : ℤ) : Call → Prop
  | flow : Reclaims flow busy quarantineFor (.reclaimFlow flow busy quarantineFor)
  | byPrefix {pfx : Bytes} : pfx ≠ [] → pfx <+: flow →
      Reclaims flow busy quarantineFor (.reclaimByPrefix pfx busy quarantineFor)

lemma Reclaims.quarantined {flow : Bytes} {busy : USet ℕ} {quarantineFor : ℤ}
    (h : Reclaims flow busy quarantineFor c) (hq : 0 < quarantineFor) (hs : Owned s.live s.owns)
    (hclock : Monotone s.mClock) (hx : s.heldByFlow flow x = true) (hbusy : x ∉ busy) :
    QuarantinedUntil (s.now + quarantineFor) x (beforePass s c) := by
  cases h with
  | flow => exact quarantined_of_dropFlow busy quarantineFor hq hbusy (s, []) hs hclock hx
  | @byPrefix pfx hne hpfx =>
    obtain ⟨st, hst, -⟩ := heldByFlow_eq_true.mp hx
    have hvictim : flow ∈ s.victims pfx := mem_victims.mpr ⟨mem_of_find? hst, hpfx⟩
    rw [CreditScheduler.beforePass, if_neg hne]
    exact quarantined_of_dropFlows busy quarantineFor hq hbusy hvictim (s, []) hs hclock hx

/-! ### What the arena hands out meanwhile -/

/-- The bytes of two blocks have nothing in common. -/
def Apart (x len y len' : ℕ) : Prop := x + len ≤ y ∨ y + len' ≤ x

/-- No grant of the call and no block that it acquires for the local sender meets the `len` bytes
at `x`. -/
structure Spares (s : CreditScheduler) (e : (List ℕ → ℕ) × Call) (x len : ℕ) : Prop where
  grants : ∀ g ∈ (step s e).1, Apart x len g.offset ((step s e).2.regionBytes g.offset)
  acquired : ∀ bytes eager off, e.2 = .acquireLocal bytes eager →
    (acquireLocal e.1 s bytes eager).1 = some off →
      Apart x len off ((step s e).2.regionBytes off)

lemma apart_of_live {y : ℕ} (hx : x ∈ s.live) (hy : y ∈ s.live)
    (hne : x ≠ y) : Apart x (s.regionBytes x) y (s.regionBytes y) :=
  s.mArena.blocks_disjoint (mem_live.mp hx) (mem_live.mp hy) hne

/-- A pass that begins with the region in quarantine hands it out to nobody. -/
lemma GrantRun.spares {gs : List Grant} (h : GrantRun s gs s')
    (hs : Owned s.live s.owns) (hx : QuarantinedUntil t x s) :
    QuarantinedUntil t x s' ∧ s'.regionBytes x = s.regionBytes x ∧
      ∀ g ∈ gs, Apart x (s.regionBytes x) g.offset (s'.regionBytes g.offset) := by
  obtain ⟨-, hbytes, hlive, -⟩ := h.frame
  have hlive₀ : x ∈ s.live := hs.mem_live hx.mem
  refine ⟨hx.congr h.rest.quarantined, hbytes x hlive₀, fun g hg => ?_⟩
  have hfresh := (h.grants.2 g hg).1
  rw [← hbytes x hlive₀]
  refine apart_of_live ((hlive x).mpr (Or.inl hlive₀))
    ((hlive g.offset).mpr (Or.inr (List.mem_map_of_mem hg))) fun heq => ?_
  exact hfresh (heq ▸ hlive₀)

lemma mQuarantined_acquireLocal (pick : List ℕ → ℕ) (s : CreditScheduler) (bytes : ℕ)
    (eager : Bool) : (acquireLocal pick s bytes eager).2.mQuarantined = s.mQuarantined := by
  rw [acquireLocal]
  split
  · rfl
  · dsimp only
    split_ifs <;> rfl

/-- Every call but `acquireLocal` is a pass, possibly an empty one, that begins in `beforePass`. -/
lemma grantRun_call (pick : List ℕ → ℕ) (s : CreditScheduler)
    (hc : ¬ ∃ bytes eager, c = .acquireLocal bytes eager) :
    GrantRun (beforePass s c) (call pick s c).1 (call pick s c).2 := by
  have hup : updated pick s c = beforePass s c := by
    cases c with
    | acquireLocal bytes eager => exact absurd ⟨bytes, eager, rfl⟩ hc
    | _ => rfl
  rw [call_eq_updated, hup]
  split_ifs
  · exact schedule_run pick _
  · exact .done (Quiet.refl _)

/-- **One call** leaves a region in quarantine alone, unless it is `reapQuarantine` at the
deadline. -/
lemma QuarantinedUntil.step (h : QuarantinedUntil t x s)
    (hs : Owned s.live s.owns) (e : (List ℕ → ℕ) × Call)
    (hreap : e.2 = .reapQuarantine → s.now < t) :
    QuarantinedUntil t x (step s e).2 ∧ (step s e).2.regionBytes x = s.regionBytes x ∧
      Spares s e x (s.regionBytes x) := by
  obtain ⟨pick, c⟩ := e
  by_cases hlocal : ∃ bytes eager, c = .acquireLocal bytes eager
  · obtain ⟨bytes, eager, rfl⟩ := hlocal
    have hkeep : QuarantinedUntil t x (acquireLocal pick s bytes eager).2 :=
      h.congr (mQuarantined_acquireLocal pick s bytes eager)
    have hlive : x ∈ s.live := hs.mem_live h.mem
    rcases acquireLocal_spec pick s bytes eager with ⟨hnone, hre⟩ | ⟨off, hoff, hacq, -⟩
    · have hlive' := (hre.owned (Set.empty_subset _) hs).mem_live hkeep.mem
      refine ⟨hkeep, hre.bytes x hlive', fun g hg => absurd hg not_mem_nil, ?_⟩
      rintro bytes' eager' off ⟨⟩ hoff
      rw [hnone] at hoff
      cases hoff
    · have hne : x ≠ off := fun heq => hacq.fresh (heq ▸ hlive)
      have hbytes := hacq.bytes x hne
      refine ⟨hkeep, hbytes, fun g hg => absurd hg not_mem_nil, ?_⟩
      rintro bytes' eager' off' ⟨⟩ hoff'
      obtain rfl : off = off' := some.inj (hoff.symm.trans hoff')
      rw [← hbytes]
      exact apart_of_live ((hacq.live x).mpr (Or.inr hlive)) ((hacq.live off).mpr (Or.inl rfl)) hne
  · obtain ⟨H, dst, hH, hre⟩ := beforePass_reassigned hs c
    have hmid := hre.owned hH hs
    have hx := h.beforePass hreap
    obtain ⟨h₁, h₂, h₃⟩ := (grantRun_call pick s hlocal).spares hmid hx
    have hbytes := hre.bytes x (hmid.mem_live hx.mem)
    refine ⟨h₁, h₂.trans hbytes, fun g hg => ?_, fun bytes eager off hc => ?_⟩
    · rw [← hbytes]
      exact h₃ g hg
    · exact absurd ⟨bytes, eager, hc⟩ hlocal

end CreditScheduler

end TrtLlm
