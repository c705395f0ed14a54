import TrtLlm.KvCacheV2.ShrinkMarked

/-!
A shrink of the last level never fails, and what it drops.

* `Marked.relocate`: the pages that are left are relocated, and the shrink ends;
* `shrinkPoolGroup_shrinks`: **a shrink** of a level whose occupied slots belong to scheduled and to
  persistent pages.
-/

namespace TrtLlm.LastLevel

open List Function Option Prod

variable {env : ShrinkEnv} {owned persistentPages : List ℕ} {pgIdx newNumSlots : ℕ}
  {s s₁ s' : LastLevel}

variable {kept : List ℕ} {plan : ℕ × List (ℕ × ℕ)} {x : ℕ}

/-! ### The end of the shrink -/

/-- A shrink ends if every occupied slot stays. -/
lemma Con.finishShrink (h : s.Con pgIdx) (env : ShrinkEnv)
    (hshrink : (s.allocators pgIdx).mTargetCapacity < (s.allocators pgIdx).mCapacity)
    (hlow : ∀ i ∈ (s.allocators pgIdx).occupied, i < (s.allocators pgIdx).mTargetCapacity) :
    ∃ a, Runs (LastLevel.finishShrink env pgIdx) s () { s with
        allocators := update s.allocators pgIdx a
        queries := s.queries + 1 }
      ∧ Con pgIdx { s with
        allocators := update s.allocators pgIdx a
        queries := s.queries + 1 }
      ∧ a.mCapacity = (s.allocators pgIdx).mTargetCapacity
      ∧ a.mTargetCapacity = (s.allocators pgIdx).mTargetCapacity := by
  have hblock : (s.allocators pgIdx).getSlotsBlockingShrink = [] := by
    refine eq_nil_iff_forall_not_mem.mpr fun i hi => ?_
    obtain ⟨hocc, hle⟩ := (SlotAllocator.mem_getSlotsBlockingShrink (h.alloc pgIdx)).mp hi
    exact absurd (hlow i hocc) (Nat.not_lt.mpr hle)
  obtain ⟨a, hfinish, hok, hcap, -, htarget, hocc⟩ := (h.alloc pgIdx).finishShrink
    (decide_eq_true hshrink) hblock (env.ready s.queries)
  have hoccupied : ∀ g, (update s.allocators pgIdx a g).occupied = (s.allocators g).occupied := by
    intro g
    by_cases hg : g = pgIdx
    · rw [hg, update_self, hocc]
    · rw [update_of_ne hg]
  refine ⟨a, ?_, ⟨fun g => ?_, h.controller, fun x slot hx => ?_, h.once, fun i hi => ?_,
    h.scheduled⟩, hcap, htarget⟩
  · refine .get_bind ?_
    rw [hfinish]
    exact .set_bind rfl
  · dsimp only
    by_cases hg : g = pgIdx
    · rw [hg, update_self]
      exact hok
    · rw [update_of_ne hg]
      exact h.alloc g
  · dsimp only
    rw [hoccupied]
    exact h.held x slot hx
  · dsimp only at hi
    rw [hoccupied] at hi
    exact h.accounted i hi

/-- The free slots that stay. -/
def freeBelow (s : LastLevel) (pgIdx newNumSlots : ℕ) : ℕ :=
  newNumSlots - ((s.allocators pgIdx).occupied.filter (· < newNumSlots)).card

/-- It is enough that the first `e` pages of the order of the pool group leave their slots. -/
def FitsWithout (s : LastLevel) (pgIdx newNumSlots : ℕ) (persistentPages : List ℕ) (e : ℕ) : Prop :=
  Fits (s.overflows newNumSlots) (s.controller.order pgIdx) (s.freeBelow pgIdx newNumSlots)
    (persistentPages.filter (s.overflows newNumSlots)).length e

/-- What a shrink does: the pages it evicts are among the first ones of the order, up to any number
of them that is enough; the other pages that are dropped are those that the tree removes with one of
these; the persistent pages live, the pages that live have slots of their own that stay, and the
shrink is over. -/
structure Shrunk (env : ShrinkEnv) (pgIdx newNumSlots : ℕ) (persistentPages : List ℕ)
    (s s' : LastLevel) : Prop where
  fits : s.FitsWithout pgIdx newNumSlots persistentPages (s.controller.order pgIdx).length
  within : ∀ e, s.FitsWithout pgIdx newNumSlots persistentPages e →
    s'.evicted.Sublist ((s.controller.order pgIdx).take e)
  dead : ∀ x ∈ s'.evicted, s'.slots x = none
  dropped : ∀ x, s.scheduledForEviction x = true → s'.scheduledForEviction x = false →
    s'.slots x = none ∧ (x ∈ s'.evicted ∨ ∃ y ∈ s'.evicted, env.tree.removes y x = true)
  kept : ∀ x, s'.scheduledForEviction x = true → s'.slots x ≠ none
  persistent : ∀ x ∈ persistentPages, s'.slots x ≠ none
  relocated : ∀ x ∈ s'.relocated, x ∉ s'.evicted
  placed : ∀ x, s'.slots x ≠ none → s.controller.groupOf x = pgIdx → s'.InRange newNumSlots x
  once : ∀ x y slot slot', s'.slots x = some slot → s'.slots y = some slot' →
    s.controller.groupOf x = pgIdx → s.controller.groupOf y = pgIdx → slot.slotId = slot'.slotId →
    x = y
  finished : (s'.allocators pgIdx).mCapacity = newNumSlots
    ∧ (s'.allocators pgIdx).shrinkInProgress = false

lemma Marked.freeBelow_eq (h : s.Marked pgIdx newNumSlots persistentPages) :
    s.freeBelow pgIdx newNumSlots = (s.allocators pgIdx).numFreeSlots := by
  have hadd := (h.con.alloc pgIdx).numFreeSlots_add
  rw [h.target] at hadd
  rw [freeBelow]
  omega

section

variable (h : s.Marked pgIdx newNumSlots persistentPages)
  (hplan : Planned (s.overflows newNumSlots) (s.controller.order pgIdx)
    (s.allocators pgIdx).numFreeSlots (persistentPages.filter (s.overflows newNumSlots)).length
      plan)
  (h₁ : AfterEvictions env pgIdx newNumSlots persistentPages s plan.1 (plan.2.map snd) s₁)
include h hplan h₁

/-- **The relocation** leaves no page in a slot that goes. -/
lemma Marked.placed (hmoves : Moves newNumSlots
      (plan.2.map snd ++ persistentPages.filter (s.overflows newNumSlots)) s₁ s')
        (hx : s'.slots x ≠ none) (hg : s.controller.groupOf x = pgIdx) :
          s'.InRange newNumSlots x := by
  rcases hmoves.slots x with heq' | ⟨-, hrange⟩
  swap
  · exact hrange
  have hsame : s'.slots x = s.slots x := by
    rcases h₁.drops.slots x with hnone | heq
    · exact absurd (heq'.trans hnone) hx
    · exact heq'.trans heq
  have hlive : s.slots x ≠ none := by rwa [← hsame]
  cases hover : s.overflows newNumSlots x with
  | false =>
    obtain ⟨slot, hslot, hlt⟩ := inRange_of_not_overflows hlive hover
    exact ⟨slot, hsame.trans hslot, hlt⟩
  | true =>
    -- a page in a slot that goes was evicted, or it is relocated
    refine hmoves.moved x (mem_append.mpr ?_)
    rcases h.known x hlive hg with hsched | hpers
    · left
      rw [hplan.kept, mem_filter]
      refine ⟨?_, hover⟩
      have hmem := h.con.mem_order.mpr ⟨hsched, hg⟩
      rw [← take_append_drop plan.1 (s.controller.order pgIdx), mem_append] at hmem
      refine hmem.resolve_left fun hin => hx (heq'.trans ?_)
      exact h₁.dead x (h₁.first x hin)
    · exact .inr (mem_filter.mpr ⟨hpers, hover⟩)

/-- The pages to relocate are alive after the evictions. -/
lemma Marked.relocates_live (hx : x ∈ plan.2.map snd ++ persistentPages) :
    s₁.slots x ≠ none ∧ s₁.controller.groupOf x = pgIdx := by
  rw [h₁.drops.keeps x hx, h₁.drops.groups.groupOf x]
  rcases mem_append.mp hx with hx | hx
  · rw [hplan.kept, mem_filter] at hx
    have hmem := mem_of_mem_drop hx.1
    exact ⟨h.con.live_of_mem_order hmem, (h.con.mem_order.mp hmem).2⟩
  · exact ⟨(h.persistent x hx).2.1, (h.persistent x hx).1⟩

/-- What the relocation and the end of the shrink leave of the level `s₁` after the evictions. -/
structure Relocated (pgIdx newNumSlots : ℕ) (persistentPages kept pages : List ℕ)
    (s₁ s' : LastLevel) : Prop where
  con : s'.Con pgIdx
  evicted : s'.evicted = s₁.evicted
  relocated : s'.relocated = s₁.relocated ++ pages
  groups : ∀ x, s'.controller.groupOf x = s₁.controller.groupOf x
  scheduled : ∀ x, s'.scheduledForEviction x = s₁.scheduledForEviction x
  gone : ∀ x, s₁.slots x = none → s'.slots x = none
  dead : ∀ x ∈ kept, s'.scheduledForEviction x = false → x ∉ persistentPages → s'.slots x = none
  persistent : ∀ x ∈ persistentPages, s'.slots x ≠ none
  placed : ∀ x, s'.slots x ≠ none → s'.controller.groupOf x = pgIdx → s'.InRange newNumSlots x
  finished : (s'.allocators pgIdx).mCapacity = newNumSlots
    ∧ (s'.allocators pgIdx).shrinkInProgress = false

/-- The pages that are kept are relocated, the shrink ends, and the pages that the tree has removed
in between are released. -/
lemma Marked.relocate :
    ∃ s', Runs (do
        LastLevel.batchedMigrate env pgIdx
          (plan.2.map snd ++ persistentPages.filter (s.overflows newNumSlots))
        LastLevel.finishShrink env pgIdx
        LastLevel.releaseRefs env persistentPages (plan.2.map snd)) s₁ () s'
      ∧ Relocated pgIdx newNumSlots persistentPages (plan.2.map snd)
        (plan.2.map snd ++ persistentPages.filter (s.overflows newNumSlots)) s₁ s' := by
  set kept := plan.2.map snd with hkept
  set pages := kept ++ persistentPages.filter (s.overflows newNumSlots) with hpages
  have hlive : ∀ x ∈ kept ++ persistentPages, s₁.slots x ≠ none ∧ s₁.controller.groupOf x = pgIdx :=
    fun x hx => h.relocates_live hplan h₁ hx
  have hsubset : ∀ x ∈ pages, x ∈ kept ++ persistentPages := by
    intro x hx
    rcases mem_append.mp hx with hx | hx
    · exact mem_append_left _ hx
    · exact mem_append_right _ (mem_of_mem_filter hx)
  have hfree := h₁.free
  rw [← length_append, ← hpages] at hfree
  obtain ⟨s₃, hruns₃, hcon₃, hmoves⟩ := h₁.con.batchedMigrate env hfree
    fun x hx => hlive x (hsubset x hx)
  have htarget₁ : (s₁.allocators pgIdx).mTargetCapacity = newNumSlots :=
    (h₁.drops.bounds pgIdx).1.trans h.target
  rw [htarget₁] at hmoves
  have htarget₃ : (s₃.allocators pgIdx).mTargetCapacity = newNumSlots :=
    (hmoves.bounds pgIdx).1.trans htarget₁
  have hplaced : ∀ x, s₃.slots x ≠ none → s₃.controller.groupOf x = pgIdx →
      s₃.InRange newNumSlots x := fun x hx hg =>
    h.placed hplan h₁ hmoves hx
      (((hmoves.groups.groupOf x).trans (h₁.drops.groups.groupOf x)).symm.trans hg)
  obtain ⟨a, hruns₄, hcon₄, hcap, htarget⟩ := hcon₃.finishShrink env (by
      rw [htarget₃, (hmoves.bounds pgIdx).2, (h₁.drops.bounds pgIdx).2]
      exact h.shrinking) (by
      intro i hi
      obtain ⟨x, slot, hslot, rfl, hg⟩ := hcon₃.accounted i hi
      obtain ⟨slot', hslot', hlt⟩ := hplaced x (by simp [hslot]) hg
      rw [hslot] at hslot'
      rw [htarget₃, some.inj hslot']
      exact hlt)
  rw [htarget₃] at hcap htarget
  set s₄ : LastLevel := { s₃ with
    allocators := update s₃.allocators pgIdx a
    queries := s₃.queries + 1 } with hs₄
  -- a page to relocate that is in no queue any more was removed by the tree
  have hkeptorder : ∀ x ∈ kept, s.scheduledForEviction x = true := by
    intro x hx
    rw [hkept, hplan.kept, mem_filter] at hx
    exact (h.con.mem_order.mp (mem_of_mem_drop hx.1)).1
  obtain ⟨s', hruns₅, hcon, hdrops, hev, hcontroller, hdead⟩ := Con.releaseUnlinked
    env persistentPages kept hcon₄ (by
      intro x hx hsched
      have hsched₁ : s₁.scheduledForEviction x = false := (hmoves.scheduled x).symm.trans hsched
      have hlinked := (h₁.drops.lost x (hkeptorder x hx) hsched₁).1
      rwa [← hmoves.linked] at hlinked)
  have hsame : ∀ x, s'.scheduledForEviction x = s₄.scheduledForEviction x := fun x => by
    rw [scheduledForEviction, hcontroller]
    rfl
  refine ⟨s', hruns₃.bind (hruns₄.bind hruns₅), hcon, hev.trans hmoves.evicted, ?_, fun x => ?_,
    fun x => (hsame x).trans (hmoves.scheduled x), fun x hx => ?_,
    fun x hx hx' => hdead x hx ((hsame x).symm.trans hx'), fun x hx => ?_, fun x hx hg => ?_,
    ?_, ?_⟩
  · rw [hdrops.relocated]
    exact hmoves.relocated
  · rw [hcontroller]
    exact hmoves.groups.groupOf x
  · have hx₃ : s₃.slots x = none := by
      rcases hmoves.slots x with heq | ⟨hin, -⟩
      · exact heq.trans hx
      · exact absurd hx (hlive x (hsubset x hin)).1
    rcases hdrops.slots x with hnone | heq
    · exact hnone
    · exact heq.trans hx₃
  · rw [hdrops.keeps x hx]
    rcases hmoves.slots x with heq | ⟨-, slot, hslot, -⟩
    · rw [show s₄.slots x = s₁.slots x from heq]
      exact (hlive x (mem_append_right _ hx)).1
    · rw [show s₄.slots x = some slot from hslot]
      exact some_ne_none slot
  · rcases hdrops.slots x with hnone | heq
    · exact absurd hnone hx
    · rw [heq] at hx
      rw [hcontroller] at hg
      obtain ⟨slot, hslot, hlt⟩ := hplaced x hx hg
      exact ⟨slot, heq.trans hslot, hlt⟩
  · rw [(hdrops.bounds pgIdx).2, show s₄.allocators pgIdx = a from update_self .., hcap]
  · rw [SlotAllocator.shrinkInProgress, (hdrops.bounds pgIdx).1, (hdrops.bounds pgIdx).2,
      show s₄.allocators pgIdx = a from update_self .., hcap, htarget]
    exact decide_eq_false (Nat.lt_irrefl _)

lemma Marked.shrunk (h' : Relocated pgIdx newNumSlots persistentPages (plan.2.map snd)
      (plan.2.map snd ++ persistentPages.filter (s.overflows newNumSlots)) s₁ s') :
    Shrunk env pgIdx newNumSlots persistentPages s s' := by
  have hgroup : ∀ x, s'.controller.groupOf x = s.controller.groupOf x := fun x =>
    (h'.groups x).trans (h₁.drops.groups.groupOf x)
  refine ⟨?_, fun e he => ?_, fun x hx => ?_, fun x hx hx' => ?_,
    fun x hx => (h'.con.scheduled x hx).1, h'.persistent, fun x hx hin => ?_,
    fun x hx hg => h'.placed x hx ((hgroup x).trans hg),
    fun x y slot slot' hx hy hgx hgy hid => ?_, h'.finished⟩
  · rw [FitsWithout, h.freeBelow_eq]
    exact h.fits_all
  · rw [FitsWithout, h.freeBelow_eq] at he
    obtain ⟨e', hle, henough⟩ := hplan.enough_of_fits he
    rw [h'.evicted]
    exact (h₁.within e' henough).trans (take_sublist_take_left hle)
  · rw [h'.evicted] at hx
    exact h'.gone x (h₁.dead x hx)
  · obtain ⟨-, howned, hcause⟩ := h₁.drops.lost x hx ((h'.scheduled x).symm.trans hx')
    rw [h'.evicted]
    refine ⟨?_, hcause⟩
    have hpers : x ∉ persistentPages := fun hin =>
      absurd (hx.symm.trans (h.persistent x hin).2.2) (by simp)
    by_cases hlive : s₁.slots x = none
    · exact h'.gone x hlive
    · exact h'.dead x ((mem_append.mp (howned hlive)).resolve_right hpers) hx' hpers
  · rw [h'.evicted] at hin
    rw [h'.relocated, h₁.drops.relocated, h.relocated, nil_append] at hx
    refine (h.relocates_live hplan h₁ (x := x) ?_).1 (h₁.dead x hin)
    rcases mem_append.mp hx with hx | hx
    · exact mem_append_left _ hx
    · exact mem_append_right _ (mem_of_mem_filter hx)
  · exact h'.con.once x y slot slot' hx hy (by rw [hgroup, hgroup, hgx, hgy]) hid

end

/-- **The evictions and the relocation** end the shrink. -/
lemma Marked.evictAndRelocate (h : s.Marked pgIdx newNumSlots persistentPages) (env : ShrinkEnv) :
    ∃ s', Runs (LastLevel.evictAndRelocate env pgIdx newNumSlots persistentPages
        (s.overflowSlots newNumSlots 0 (s.controller.order pgIdx))
        (persistentPages.filter (s.overflows newNumSlots))) s () s'
      ∧ Shrunk env pgIdx newNumSlots persistentPages s s' := by
  have hplan := h.planned
  obtain ⟨s₁, s₂, hruns₁, hruns₂, h₂⟩ := h.evictions env hplan
  obtain ⟨s', hruns, h'⟩ := h.relocate hplan h₂
  refine ⟨s', .get_bind ?_, h.shrunk hplan h₂ h'⟩
  rw [← length_append] at hruns₂
  exact hruns₁.bind (hruns₂.bind hruns)

/-! ### The whole call -/

/-- The level whose allocator was marked. -/
def marked (s : LastLevel) (pgIdx newNumSlots : ℕ) : LastLevel :=
  { s with
    allocators := update s.allocators pgIdx
      ((s.allocators pgIdx).prepareForShrink newNumSlots) }

lemma occupied_marked (s : LastLevel) (pgIdx newNumSlots g : ℕ) :
    ((s.marked pgIdx newNumSlots).allocators g).occupied = (s.allocators g).occupied := by
  rw [marked]
  dsimp only
  by_cases hg : g = pgIdx
  · rw [hg, update_self]
    rfl
  · rw [update_of_ne hg]

/-- The marking changes nothing but the free slots. -/
lemma Shrinkable.marked (h : s.Shrinkable pgIdx newNumSlots persistentPages)
    (hphase : (s.allocators pgIdx).mTargetCapacity = (s.allocators pgIdx).mCapacity)
    (hshrink : newNumSlots < (s.allocators pgIdx).mCapacity) (hevicted : s.evicted = [])
    (hrelocated : s.relocated = []) :
    (s.marked pgIdx newNumSlots).Marked pgIdx newNumSlots persistentPages := by
  have hself : (s.marked pgIdx newNumSlots).allocators pgIdx
      = (s.allocators pgIdx).prepareForShrink newNumSlots := update_self ..
  have hcon : (s.marked pgIdx newNumSlots).Con pgIdx := by
    refine ⟨fun g => ?_, h.con.controller, fun x slot hx => ?_, h.con.once, fun i hi => ?_,
      h.con.scheduled⟩
    · by_cases hg : g = pgIdx
      · rw [hg, hself]
        exact (h.con.alloc pgIdx).prepareForShrink hphase hshrink
      · rw [LastLevel.marked]
        dsimp only
        rw [update_of_ne hg]
        exact h.con.alloc g
    · rw [occupied_marked]
      exact h.con.held x slot hx
    · rw [occupied_marked] at hi
      exact h.con.accounted i hi
  exact ⟨⟨hcon, h.pgIdx_lt, h.known, h.persistent, h.fit⟩,
    by rw [hself]; rfl, by rw [hself]; exact hshrink, hevicted, hrelocated⟩

lemma fitsWithout_marked {e : ℕ} :
    (s.marked pgIdx newNumSlots).FitsWithout pgIdx newNumSlots persistentPages e
      ↔ s.FitsWithout pgIdx newNumSlots persistentPages e := by
  have hfree : (s.marked pgIdx newNumSlots).freeBelow pgIdx newNumSlots
      = s.freeBelow pgIdx newNumSlots := by
    rw [freeBelow, occupied_marked, freeBelow]
  rw [FitsWithout, hfree]
  exact Iff.rfl

lemma overflowSlots_marked (s : LastLevel) (pgIdx newNumSlots : ℕ) (order : List ℕ) : ∀ idx : ℕ,
    (s.marked pgIdx newNumSlots).overflowSlots newNumSlots idx order
      = s.overflowSlots newNumSlots idx order := by
  induction order with
  | nil => exact fun _ => rfl
  | cons x order ih =>
    intro idx
    rw [overflowSlots, overflowSlots, ih]
    rfl

lemma Shrunk.of_marked
    (h : Shrunk env pgIdx newNumSlots persistentPages (s.marked pgIdx newNumSlots) s') :
    Shrunk env pgIdx newNumSlots persistentPages s s' where
  fits := fitsWithout_marked.mp h.fits
  within e he := h.within e (fitsWithout_marked.mpr he)
  dead := h.dead
  dropped := h.dropped
  kept := h.kept
  persistent := h.persistent
  relocated := h.relocated
  placed := h.placed
  once := h.once
  finished := h.finished

/-- Where no slot that goes was ever issued, the shrink ends at once. -/
lemma Marked.finish_unissued (h : s.Marked pgIdx newNumSlots persistentPages) (env : ShrinkEnv)
    (hactive : (s.allocators pgIdx).mNumActiveSlots ≤ newNumSlots) :
    ∃ s', Runs (LastLevel.finishShrink env pgIdx) s () s'
      ∧ Shrunk env pgIdx newNumSlots persistentPages s s' := by
  have hlow : ∀ i ∈ (s.allocators pgIdx).occupied, i < (s.allocators pgIdx).mTargetCapacity := by
    intro i hi
    rw [h.target]
    exact ((h.con.alloc pgIdx).lt_active hi).trans_le hactive
  obtain ⟨a, hruns, hcon, hcap, htarget⟩ :=
    h.con.finishShrink env (by rw [h.target]; exact h.shrinking)
    hlow
  have hself : update s.allocators pgIdx a pgIdx = a := update_self ..
  refine ⟨_, hruns, ?_, fun e he => ?_, fun x hx => ?_, fun x hx hx' => ?_,
    fun x hx => (hcon.scheduled x hx).1, fun x hx => (h.persistent x hx).2.1, fun x hx => ?_,
    fun x hx hg => ?_, fun x y slot slot' hx hy hgx hgy hid => ?_, ?_, ?_⟩
  · rw [FitsWithout, h.freeBelow_eq]
    exact h.fits_all
  · dsimp only
    rw [h.evicted]
    exact nil_sublist _
  · dsimp only at hx
    rw [h.evicted] at hx
    cases hx
  · exact absurd (hx.symm.trans hx') (by simp)
  · dsimp only at hx
    rw [h.relocated] at hx
    cases hx
  · obtain ⟨slot, hslot⟩ := ne_none_iff_exists'.mp hx
    refine ⟨slot, hslot, ?_⟩
    have hheld := h.con.held x slot hslot
    rw [hg] at hheld
    have hlt := hlow _ hheld
    rwa [h.target] at hlt
  · exact h.con.once x y slot slot' hx hy (hgx.trans hgy.symm) hid
  · dsimp only
    rw [hself, hcap, h.target]
  · dsimp only
    rw [hself, SlotAllocator.shrinkInProgress, hcap, htarget]
    exact decide_eq_false (Nat.lt_irrefl _)

/-- **A shrink of the last level.** If the slots of the pool group belong to scheduled and to
persistent pages and there are at most as many of the latter as slots that stay, the shrink does not
throw, and it does what `Shrunk` says. -/
theorem shrinkPoolGroup_shrinks (env : ShrinkEnv)
    (h : s.Shrinkable pgIdx newNumSlots persistentPages)
    (hphase : (s.allocators pgIdx).mTargetCapacity = (s.allocators pgIdx).mCapacity)
    (hshrink : newNumSlots < (s.allocators pgIdx).mCapacity) (hevicted : s.evicted = [])
    (hrelocated : s.relocated = []) :
    ∃ s', Runs (shrinkPoolGroup env pgIdx newNumSlots persistentPages) s () s'
      ∧ Shrunk env pgIdx newNumSlots persistentPages s s' := by
  have hm := h.marked hphase hshrink hevicted hrelocated
  have hgroups : ¬ ¬ persistentPages.all (fun x => s.controller.groupOf x = pgIdx) = true := by
    rw [not_not, List.all_eq_true]
    exact fun x hx => decide_eq_true (h.persistent x hx).1
  by_cases hactive : (s.allocators pgIdx).mNumActiveSlots ≤ newNumSlots
  · obtain ⟨s', hruns, hshrunk⟩ := hm.finish_unissued env (by
      rw [LastLevel.marked]
      dsimp only
      rw [update_self]
      exact hactive)
    refine ⟨s', .get_bind (.ite_neg hgroups (.ite_pos hactive ?_)), hshrunk.of_marked⟩
    exact .modify_bind hruns
  · obtain ⟨s', hruns, hshrunk⟩ := hm.evictAndRelocate env
    refine ⟨s', .get_bind (.ite_neg hgroups (.ite_neg hactive (.ite_neg ?_ ?_))), hshrunk.of_marked⟩
    · exact Nat.not_lt.mpr ((length_filter_le _ _).trans h.fit)
    · rw [overflowSlots_marked] at hruns
      exact .modify_bind hruns

/-! ### A level of three slots -/

/-- A pool whose three slots are taken. -/
def fullAllocator : SlotAllocator :=
  ((SlotAllocator.ofCapacity 3).allocateMultiple (fun _ _ => true) 3).2

/-- Three pages in three slots, scheduled in the order of their slots. -/
def threePages : LastLevel where
  allocators _ := fullAllocator
  controller := (((EvictionController.new [0] fun _ => (0, 35)).scheduleForEviction 0
    false).scheduleForEviction 1 false).scheduleForEviction 2 false
  slots x := if x < 3 then some ⟨x, 0⟩ else none
  linked x := x < 3
  queries := 0
  evicted := []
  relocated := []

/-- The block of the last page is under the block of the first, which is needed for it. -/
def twoBranches : ShrinkEnv where
  ready _ _ := true
  tree :=
    { pages := [0, 1, 2]
      blockPath x := if x = 0 then [0] else if x = 1 then [7] else [0, 5]
      required x := x == 0 }
  finishEvent := 1

lemma ok_fullAllocator : fullAllocator.Ok := by
  obtain ⟨slots, a, heq, -, hall⟩ := (SlotAllocator.ok_ofCapacity 3).allocateMultiple_fresh
    (fun _ _ => true) (n := 3) (by decide)
  have hfull : fullAllocator = a := congrArg snd heq
  exact hfull ▸ hall.ok

lemma threePages_slot {slot : Slot} (hx : threePages.slots x = some slot) :
    x < 3 ∧ slot.slotId = x := by
  have hx : (if x < 3 then some (Slot.mk x 0) else none) = some slot := hx
  split_ifs at hx with hlt
  obtain rfl := some.inj hx
  exact ⟨hlt, rfl⟩

lemma threePages_groupOf (x : ℕ) : threePages.controller.groupOf x = 0 := by
  simp only [threePages, EvictionController.groupOf_scheduleForEviction]
  rfl

lemma threePages_scheduled (x : ℕ) : threePages.scheduledForEviction x = decide (x < 3) := by
  by_cases hx : x < 3
  · interval_cases x <;> rfl
  · have hne : ∀ y < 3, x ≠ y := fun y hy => by omega
    rw [decide_eq_false hx, scheduledForEviction, threePages,
      EvictionController.pages_scheduleForEviction_of_ne (hne 2 (by decide)),
      EvictionController.pages_scheduleForEviction_of_ne (hne 1 (by decide)),
      EvictionController.pages_scheduleForEviction_of_ne (hne 0 (by decide))]
    rfl

lemma con_threePages : threePages.Con 0 := by
  have hocc : fullAllocator.occupied = Finset.range 3 := by decide
  refine ⟨fun _ => ok_fullAllocator, ?_, fun x slot hx => ?_, fun x y slot slot' hx hy _ hid => ?_,
    fun i hi => ?_, fun x hx => ?_⟩
  · have hnew := EvictionController.inv_new [0] fun _ => (0, 35)
    have ht : EvictionController.Times.Bounds ⟨fun _ => 0, 0, 0⟩ := fun _ => ⟨le_rfl, le_rfl⟩
    have h₀ := hnew.schedule (t := ⟨fun _ => 0, 0, 0⟩) ht (x := 0) rfl false
    have h₁ := h₀.schedule (ht.schedule 0 false) (x := 1) rfl false
    have h₂ := h₁.schedule ((ht.schedule 0 false).schedule 1 false) (x := 2) rfl false
    exact ⟨_, h₂, ((ht.schedule 0 false).schedule 1 false).schedule 2 false⟩
  · obtain ⟨hlt, hid⟩ := threePages_slot hx
    change slot.slotId ∈ fullAllocator.occupied
    rw [hocc, hid]
    exact Finset.mem_range.mpr hlt
  · rw [← (threePages_slot hx).2, hid, (threePages_slot hy).2]
  · have hi : i ∈ fullAllocator.occupied := hi
    rw [hocc, Finset.mem_range] at hi
    exact ⟨i, ⟨i, 0⟩, if_pos hi, rfl, threePages_groupOf i⟩
  · rw [threePages_scheduled] at hx
    have hlt : x < 3 := of_decide_eq_true hx
    refine ⟨?_, hx⟩
    rw [show threePages.slots x = some ⟨x, 0⟩ from if_pos hlt]
    exact some_ne_none _

lemma shrinkable_threePages : threePages.Shrinkable 0 2 [] where
  con := con_threePages
  pgIdx_lt := by decide
  known x hx _ := by
    obtain ⟨slot, hslot⟩ := ne_none_iff_exists'.mp hx
    rw [threePages_scheduled, decide_eq_true (threePages_slot hslot).1]
    exact .inl rfl
  persistent _ hx := absurd hx not_mem_nil
  fit := Nat.zero_le 2

theorem shrinkPoolGroup_shrinks_threePages :
    threePages.Shrinkable 0 2 [] ∧ ∃ s', Runs (shrinkPoolGroup twoBranches 0 2 []) threePages () s'
      ∧ Shrunk twoBranches 0 2 [] threePages s' :=
  ⟨shrinkable_threePages,
    shrinkPoolGroup_shrinks twoBranches shrinkable_threePages rfl (by decide) rfl rfl⟩

/-- The pages that a shrink drops need not be the first ones of the order: the first page and the
last one are dropped, the one between them is not. -/
theorem shrinkPoolGroup_drops_apart :
    ¬ ∀ (env : ShrinkEnv) (pgIdx newNumSlots : ℕ) (persistentPages : List ℕ) (s s' : LastLevel),
      s.Shrinkable pgIdx newNumSlots persistentPages →
      (s.allocators pgIdx).mTargetCapacity = (s.allocators pgIdx).mCapacity →
      newNumSlots < (s.allocators pgIdx).mCapacity → s.evicted = [] → s.relocated = [] →
      Runs (shrinkPoolGroup env pgIdx newNumSlots persistentPages) s () s' →
      ∃ e, ∀ x ∈ s.controller.order pgIdx,
        s'.slots x = none ↔ x ∈ (s.controller.order pgIdx).take e := by
  intro hclaim
  have hdropped : (match (shrinkPoolGroup twoBranches 0 2 []).run threePages with
      | .ok _ s' => some ([0, 1, 2].map fun x => (s'.slots x).isNone)
      | .error _ _ => none) = some [true, false, true] := by decide +kernel
  cases hrun : (shrinkPoolGroup twoBranches 0 2 []).run threePages with
  | error e s' =>
    rw [hrun] at hdropped
    cases hdropped
  | ok u s' =>
    rw [hrun] at hdropped
    have hlist := some.inj hdropped
    simp only [map_cons, map_nil, cons.injEq, isNone_iff_eq_none, and_true,
      isNone_eq_false_iff] at hlist
    obtain ⟨-, hone, htwo⟩ := hlist
    obtain ⟨e, he⟩ :=
      hclaim twoBranches 0 2 [] threePages s' shrinkable_threePages rfl (by decide) rfl
      rfl hrun
    have horder : threePages.controller.order 0 = [0, 1, 2] := by decide
    rw [horder] at he
    have hin := (he 2 (by decide)).mp htwo
    have hlen : 2 < e := by
      by_contra hle
      have hsub := (take_sublist_take_left (l := [0, 1, 2]) (Nat.not_lt.mp hle)).subset hin
      revert hsub
      decide
    rw [take_of_length_le (show [0, 1, 2].length ≤ e from hlen)] at he
    have hnone := (he 1 (by decide)).mpr (by decide)
    rw [hnone] at hone
    cases hone

end TrtLlm.LastLevel
