import TrtLlm.Util.Ownership
import TrtLlm.Bounce.ScheduleRun

/-!
How the regions of the bounce arena change hands.

Every live block of the arena is in the hands of one party: a flow, the local sender, the
orphans whose scatter still runs, or the quarantine.  Each public call first takes some
regions from their owners, giving each to another owner or back to the arena
(`Reassigned`), and then hands out blocks that are not live (`GrantRun`, or one block for
the local sender, `Acquired`); both keep the division (`Owned`).

* `Reassigned.owned`, `Acquired.owned`, `GrantRun.owned`: the moves keep the division.
-/

namespace TrtLlm.CreditScheduler

open List UMap

/-- The parties that can have a region. -/
inductive Owner where
  | flow (key : Bytes)
  | sender
  | orphans
  | quarantine
deriving DecidableEq

/-- The regions of a party. -/
def owns (s : CreditScheduler) : Owner → Set ℕ
  | .flow key => { off | s.heldByFlow key off = true }
  | .sender => { off | off ∈ s.mLocalHeld }
  | .orphans => { off | off ∈ s.mOrphans }
  | .quarantine => { off | off ∈ s.mQuarantined }

/-- The live blocks of the arena. -/
def live (s : CreditScheduler) : Set ℕ := { off | off ∈ s.mArena.liveBlocks }

variable {H : Set ℕ} {dst : ℕ → Option Owner} {gs : List Grant} {key : Bytes} {off : ℕ}
  {s s' s'' : CreditScheduler}

lemma mem_live : off ∈ s.live ↔ s.mArena.live? off ≠ none := by
  rw [Option.ne_none_iff_exists']
  exact BuddyAllocator.mem_liveBlocks

lemma heldByFlow_eq_true :
    s.heldByFlow key off = true ↔ ∃ st, s.mFlows.find? key = some st ∧ off ∈ st.held := by
  rw [heldByFlow]
  cases h : s.mFlows.find? key with
  | none | some => simp

lemma heldByFlow_iff_flow? :
    s.heldByFlow key off = true ↔ ∃ p, s.flow? key = some p ∧ off ∈ p.2 := by
  rw [heldByFlow_eq_true, flow?]
  cases h : s.mFlows.find? key with
  | none | some => simp

/-- The regions of `H` have left their owners, each for `dst`, or for the arena where that is
`none`. -/
structure Reassigned (s s' : CreditScheduler) (H : Set ℕ) (dst : ℕ → Option Owner) : Prop where
  baseAddr : s'.mBaseAddr = s.mBaseAddr
  live : ∀ x, x ∈ s'.live ↔ x ∈ s.live ∧ (x ∈ H → dst x ≠ none)
  owns : ∀ o x, x ∈ s'.owns o ↔ (x ∈ H ∧ dst x = some o) ∨ (x ∉ H ∧ x ∈ s.owns o)
  bytes : ∀ x ∈ s'.live, s'.regionBytes x = s.regionBytes x

/-- One block has become live in the hands of the local sender. -/
structure Acquired (s s' : CreditScheduler) (off : ℕ) : Prop where
  baseAddr : s'.mBaseAddr = s.mBaseAddr
  fresh : off ∉ s.live
  live : ∀ x, x ∈ s'.live ↔ x = off ∨ x ∈ s.live
  owns : ∀ o x, x ∈ s'.owns o ↔ (o = .sender ∧ x = off) ∨ x ∈ s.owns o
  bytes : ∀ x ≠ off, s'.regionBytes x = s.regionBytes x

lemma Reassigned.owned (h : Reassigned s s' H dst) (hH : H ⊆ s.live) (hs : Owned s.live s.owns) :
    Owned s'.live s'.owns :=
  hs.reassign hH h.live h.owns

lemma Acquired.owned (h : Acquired s s' off) (hs : Owned s.live s.owns) : Owned s'.live s'.owns :=
  hs.acquire .sender off h.fresh h.live h.owns

/-! ### Passes of `schedule` -/

lemma Quiet.mem_live (h : Quiet s s') (x : ℕ) : x ∈ s'.live ↔ x ∈ s.live := by
  rw [live, h.arena]; rfl

lemma Quiet.mem_owns (h : Quiet s s') (o : Owner) (x : ℕ) : x ∈ s'.owns o ↔ x ∈ s.owns o := by
  cases o with
  | flow key =>
    change s'.heldByFlow key x = true ↔ s.heldByFlow key x = true
    rw [heldByFlow_iff_flow?, heldByFlow_iff_flow?, h.flows]
  | sender => change x ∈ s'.mLocalHeld ↔ _; rw [h.rest.localHeld]; rfl
  | orphans => change x ∈ s'.mOrphans ↔ _; rw [h.rest.orphans]; rfl
  | quarantine => change x ∈ s'.mQuarantined ↔ _; rw [h.rest.quarantined]; rfl

lemma Quiet.regionBytes (h : Quiet s s') (x : ℕ) : s'.regionBytes x = s.regionBytes x := by
  rw [CreditScheduler.regionBytes, h.arena]; rfl

lemma GrantStep.mem_live {g : Grant} (h : GrantStep s s' g) (x : ℕ) :
    x ∈ s'.live ↔ x = g.offset ∨ x ∈ s.live := by
  obtain ⟨o, ho⟩ := h.live
  rw [CreditScheduler.mem_live, CreditScheduler.mem_live, ho]
  by_cases hx : x = g.offset <;> simp [hx]

lemma GrantStep.mem_owns {g : Grant} (h : GrantStep s s' g) (o : Owner)
    (x : ℕ) : x ∈ s'.owns o ↔ (o = .flow g.flow ∧ x = g.offset) ∨ x ∈ s.owns o := by
  cases o with
  | flow key =>
    obtain ⟨rest, held, h1, -, h2⟩ := h.flows
    change s'.heldByFlow key x = true ↔ _ ∨ s.heldByFlow key x = true
    rw [heldByFlow_iff_flow?, heldByFlow_iff_flow?, h2]
    by_cases hk : key = g.flow
    · subst hk
      simp [h1]
    · simp [hk]
  | sender => change x ∈ s'.mLocalHeld ↔ _; rw [h.rest.localHeld]; simp [owns]
  | orphans => change x ∈ s'.mOrphans ↔ _; rw [h.rest.orphans]; simp [owns]
  | quarantine => change x ∈ s'.mQuarantined ↔ _; rw [h.rest.quarantined]; simp [owns]

/-- A pass keeps the division of the live blocks. -/
lemma GrantRun.owned (h : GrantRun s gs s') (hs : Owned s.live s.owns) : Owned s'.live s'.owns := by
  induction h with
  | done hq => exact hs.congr hq.mem_live hq.mem_owns
  | skip hq _ ih => exact ih (hs.congr hq.mem_live hq.mem_owns)
  | grant hg _ ih =>
    refine ih (hs.acquire _ _ ?_ hg.mem_live hg.mem_owns)
    rw [CreditScheduler.mem_live, hg.fresh]
    simp

/-- What a pass does to the arena and to the owners. -/
lemma GrantRun.frame (h : GrantRun s gs s') :
    s'.mBaseAddr = s.mBaseAddr ∧ (∀ x ∈ s.live, s'.regionBytes x = s.regionBytes x)
      ∧ (∀ x, x ∈ s'.live ↔ x ∈ s.live ∨ x ∈ gs.map Grant.offset)
      ∧ ∀ o x, x ∈ s'.owns o ↔ x ∈ s.owns o ∨ ∃ g ∈ gs, o = .flow g.flow ∧ x = g.offset := by
  induction h with
  | done hq =>
    refine ⟨hq.rest.baseAddr, fun x _ => hq.regionBytes x, fun x => ?_, fun o x => ?_⟩
    · simp [hq.mem_live]
    · simp [hq.mem_owns]
  | skip hq _ ih =>
    obtain ⟨h1, h2, h3, h4⟩ := ih
    refine ⟨h1.trans hq.rest.baseAddr, fun x hx => ?_, fun x => ?_, fun o x => ?_⟩
    · rw [h2 x ((hq.mem_live x).mpr hx), hq.regionBytes]
    · rw [h3, hq.mem_live]
    · rw [h4, hq.mem_owns]
  | grant hg _ ih =>
    obtain ⟨h1, h2, h3, h4⟩ := ih
    refine ⟨h1.trans hg.rest.baseAddr, fun x hx => ?_, fun x => ?_, fun o x => ?_⟩
    · rw [h2 x ((hg.mem_live x).mpr (Or.inr hx)), hg.bytes]
      rintro rfl
      exact CreditScheduler.mem_live.mp hx hg.fresh
    · rw [h3, hg.mem_live, map_cons, mem_cons]
      tauto
    · rw [h4, hg.mem_owns]
      simp only [mem_cons, exists_eq_or_imp]
      tauto

/-- What the grants of a pass name: pairwise different blocks that were not live, large
enough for the chunk. -/
lemma GrantRun.grants (h : GrantRun s gs s') :
    (gs.map Grant.offset).Nodup ∧ ∀ g ∈ gs, g.offset ∉ s.live
      ∧ g.addr = (s.mBaseAddr + g.offset) % 2 ^ 64 ∧ g.len ≤ s'.regionBytes g.offset := by
  induction h with
  | done _ => simp
  | skip hq _ ih =>
    refine ⟨ih.1, fun g hg => ?_⟩
    obtain ⟨h1, h2, h3⟩ := ih.2 g hg
    exact ⟨fun h => h1 ((hq.mem_live _).mpr h), by rw [h2, hq.rest.baseAddr], h3⟩
  | @grant s s1 s' g gs hg hrun ih =>
    have hlive : g.offset ∈ s1.live := (hg.mem_live _).mpr (Or.inl rfl)
    refine ⟨?_, fun g' hg' => ?_⟩
    · rw [map_cons, nodup_cons]
      refine ⟨fun hmem => ?_, ih.1⟩
      obtain ⟨g', hg', he⟩ := mem_map.mp hmem
      exact (ih.2 g' hg').1 (he ▸ hlive)
    · rcases mem_cons.mp hg' with rfl | hg'
      · refine ⟨?_, hg.addr, ?_⟩
        · rw [CreditScheduler.mem_live, hg.fresh]
          simp
        · rw [hrun.frame.2.1 _ hlive]
          exact hg.fits
      · obtain ⟨h1, h2, h3⟩ := ih.2 g' hg'
        exact ⟨fun h => h1 ((hg.mem_live _).mpr (Or.inr h)), by rw [h2, hg.rest.baseAddr], h3⟩

end TrtLlm.CreditScheduler
