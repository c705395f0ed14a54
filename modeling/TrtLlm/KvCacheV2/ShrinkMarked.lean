import TrtLlm.KvCacheV2.ShrinkPlan
import TrtLlm.KvCacheV2.ShrinkRelocation

/-!
The two evictions of a shrink.

Between them the set of scheduled pages changes by more than the evicted pages: the tree removes
others with them, and their slots may be free already when the shortage is counted.

* `Con.numFreeSlots_add_le`: the slots of pages that died are free;
* `Marked`: the states in which the evictions begin;
* `Marked.evictions`: **the two evictions take no more than the pages of any prefix of the order**
  that is enough.
-/

namespace TrtLlm.LastLevel

open List Function Option Prod

variable {env : ShrinkEnv} {owned persistentPages : List ℕ} {pgIdx newNumSlots : ℕ}
  {s s₁ s' : LastLevel}

/-! ### Counting slots -/

/-- The id of a page's slot. -/
def slotIdOf (s : LastLevel) (x : ℕ) : ℕ := (s.slots x).elim 0 Slot.slotId

variable {kept : List ℕ} {plan : ℕ × List (ℕ × ℕ)} {x : ℕ}

/-- Different pages of the pool group have different slots. -/
lemma Con.slots_nodup (h : s.Con pgIdx) {pages : List ℕ} (hnodup : pages.Nodup)
    (hpages : ∀ x ∈ pages, s.InRange newNumSlots x ∧ s.controller.groupOf x = pgIdx) :
    (pages.map s.slotIdOf).toFinset.card = pages.length
      ∧ (pages.map s.slotIdOf).toFinset
        ⊆ (s.allocators pgIdx).occupied.filter (· < newNumSlots) := by
  constructor
  · rw [toFinset_card_of_nodup, length_map]
    refine hnodup.map_on fun x hx y hy heq => ?_
    obtain ⟨⟨slot, hslot, -⟩, hg⟩ := hpages x hx
    obtain ⟨⟨slot', hslot', -⟩, hg'⟩ := hpages y hy
    rw [slotIdOf, slotIdOf, hslot, hslot'] at heq
    exact h.once x y slot slot' hslot hslot' (hg.trans hg'.symm) heq
  · intro i hi
    obtain ⟨x, hx, rfl⟩ := List.mem_map.mp (List.mem_toFinset.mp hi)
    obtain ⟨⟨slot, hslot, hlt⟩, hg⟩ := hpages x hx
    have hheld := h.held x slot hslot
    rw [hg] at hheld
    rw [slotIdOf, hslot]
    exact Finset.mem_filter.mpr ⟨hheld, hlt⟩

/-- Pages of the pool group and free slots below the target are no more than the target. -/
lemma Con.numFreeSlots_add_length_le (h : s.Con pgIdx) {pages : List ℕ} (hnodup : pages.Nodup)
    (hpages : ∀ x ∈ pages, s.InRange (s.allocators pgIdx).mTargetCapacity x
      ∧ s.controller.groupOf x = pgIdx) :
    (s.allocators pgIdx).numFreeSlots + pages.length ≤ (s.allocators pgIdx).mTargetCapacity := by
  obtain ⟨hcard, hsub⟩ := h.slots_nodup hnodup hpages
  have hadd := (h.alloc pgIdx).numFreeSlots_add
  have hle := Finset.card_le_card hsub
  omega

/-- **The slots of pages that died are free.** -/
lemma Con.numFreeSlots_add_le (h : s.Con pgIdx) (h' : s'.Con pgIdx)
    (hd : Drops env owned pgIdx s s')
    (dead : List ℕ) (hnodup : dead.Nodup)
    (hdead : ∀ x ∈ dead, (s.InRange (s.allocators pgIdx).mTargetCapacity x
      ∧ s.controller.groupOf x = pgIdx) ∧ s'.slots x = none) :
    (s.allocators pgIdx).numFreeSlots + dead.length ≤ (s'.allocators pgIdx).numFreeSlots := by
  obtain ⟨hcard, hsub⟩ := h.slots_nodup hnodup fun x hx => (hdead x hx).1
  have hadd := (h.alloc pgIdx).numFreeSlots_add
  have hadd' := (h'.alloc pgIdx).numFreeSlots_add
  rw [(hd.bounds pgIdx).1] at hadd'
  set target := (s.allocators pgIdx).mTargetCapacity with htarget
  have hdisjoint : (s'.allocators pgIdx).occupied.filter (· < target)
      ⊆ (s.allocators pgIdx).occupied.filter (· < target) \ (dead.map s.slotIdOf).toFinset := by
    intro i hi
    obtain ⟨hocc, hlt⟩ := Finset.mem_filter.mp hi
    obtain ⟨x, slot, hx', rfl, hg'⟩ := h'.accounted i hocc
    have hx : s.slots x = some slot := by
      rcases hd.slots x with hnone | heq
      · rw [hx'] at hnone
        cases hnone
      · rw [← heq, hx']
    have hg : s.controller.groupOf x = pgIdx := (hd.groups.groupOf x).symm.trans hg'
    refine Finset.mem_sdiff.mpr ⟨Finset.mem_filter.mpr ⟨hg ▸ h.held x slot hx, hlt⟩, fun hin => ?_⟩
    obtain ⟨y, hy, heq⟩ := List.mem_map.mp (List.mem_toFinset.mp hin)
    obtain ⟨⟨⟨slot', hslot', -⟩, hgy⟩, hnone⟩ := hdead y hy
    rw [slotIdOf, hslot'] at heq
    obtain rfl := h.once x y slot slot' hx hslot' (hg.trans hgy.symm) heq.symm
    rw [hx'] at hnone
    cases hnone
  have hle := Finset.card_le_card hdisjoint
  rw [Finset.card_sdiff_of_subset hsub, hcard] at hle
  have hle' := Finset.card_le_card hsub
  rw [hcard] at hle'
  omega

/-! ### The states in which a shrink is called -/

/-- The slots of the pool group belong to scheduled pages and to the persistent ones, and these
fit. -/
structure Shrinkable (pgIdx newNumSlots : ℕ) (persistentPages : List ℕ) (s : LastLevel) : Prop where
  con : s.Con pgIdx
  pgIdx_lt : pgIdx < s.controller.numPoolGroups
  known : ∀ x, s.slots x ≠ none → s.controller.groupOf x = pgIdx →
    s.scheduledForEviction x = true ∨ x ∈ persistentPages
  persistent : ∀ x ∈ persistentPages, s.controller.groupOf x = pgIdx ∧ s.slots x ≠ none
    ∧ s.scheduledForEviction x = false
  fit : persistentPages.length ≤ newNumSlots

/-- The allocator is marked for the shrink, and no page was evicted yet. -/
structure Marked (pgIdx newNumSlots : ℕ) (persistentPages : List ℕ) (s : LastLevel) : Prop
    extends s.Shrinkable pgIdx newNumSlots persistentPages where
  target : (s.allocators pgIdx).mTargetCapacity = newNumSlots
  shrinking : newNumSlots < (s.allocators pgIdx).mCapacity
  evicted : s.evicted = []
  relocated : s.relocated = []

lemma overflows_iff : s.overflows newNumSlots x = true
    ↔ ∃ slot, s.slots x = some slot ∧ newNumSlots ≤ slot.slotId := by
  rw [overflows]
  cases hslot : s.slots x with
  | none | some => simp

lemma inRange_of_not_overflows (hx : s.slots x ≠ none)
    (hover : s.overflows newNumSlots x = false) : s.InRange newNumSlots x := by
  obtain ⟨slot, hslot⟩ := ne_none_iff_exists'.mp hx
  refine ⟨slot, hslot, Nat.not_le.mp fun hle => ?_⟩
  exact absurd ((overflows_iff.mpr ⟨slot, hslot, hle⟩).symm.trans hover) (by simp)

/-- The order of the pool group lists its scheduled pages. -/
lemma Con.mem_order (h : s.Con pgIdx) : x ∈ s.controller.order pgIdx
    ↔ s.scheduledForEviction x = true ∧ s.controller.groupOf x = pgIdx := by
  obtain ⟨t, hinv, -⟩ := h.controller
  rw [hinv.mem_order, scheduledForEviction, isSome_iff_ne_none]

lemma Con.order_nodup (h : s.Con pgIdx) : (s.controller.order pgIdx).Nodup := by
  obtain ⟨t, hinv, -⟩ := h.controller
  exact hinv.order_nodup pgIdx

lemma Con.live_of_mem_order (h : s.Con pgIdx) (hx : x ∈ s.controller.order pgIdx) :
    s.slots x ≠ none := (h.scheduled x (h.mem_order.mp hx).1).1

section

variable (h : s.Marked pgIdx newNumSlots persistentPages)
include h

/-- The pages of the order that stay in range are in slots below the target. -/
lemma Marked.inRange_of_mem (hx : x ∈ s.controller.order pgIdx)
    (hover : s.overflows newNumSlots x = false) :
    s.InRange (s.allocators pgIdx).mTargetCapacity x ∧ s.controller.groupOf x = pgIdx := by
  rw [h.target]
  exact ⟨inRange_of_not_overflows (h.con.live_of_mem_order hx) hover, (h.con.mem_order.mp hx).2⟩

lemma Marked.room (e : ℕ) : (s.allocators pgIdx).numFreeSlots
      + ((s.controller.order pgIdx).take e).countP (fun x => !s.overflows newNumSlots x)
      ≤ newNumSlots := by
  have hnodup : (((s.controller.order pgIdx).take e).filter
      fun x => !s.overflows newNumSlots x).Nodup :=
    (h.con.order_nodup.sublist (take_sublist _ _)).filter _
  have hle := h.con.numFreeSlots_add_length_le hnodup (by
    intro x hx
    obtain ⟨hx, hover⟩ := mem_filter.mp hx
    exact h.inRange_of_mem (mem_of_mem_take hx) (by simpa using hover))
  rwa [h.target, ← countP_eq_length_filter] at hle

/-- Without any of its scheduled pages, the pool group holds the persistent ones. -/
lemma Marked.fits_all :
    Fits (s.overflows newNumSlots) (s.controller.order pgIdx) (s.allocators pgIdx).numFreeSlots
      (persistentPages.filter (s.overflows newNumSlots)).length
        (s.controller.order pgIdx).length := by
  set order := s.controller.order pgIdx with horder
  have hadd := (h.con.alloc pgIdx).numFreeSlots_add
  rw [h.target] at hadd
  -- every occupied slot that stays is the slot of a page that does not have to be relocated
  have hsub : (s.allocators pgIdx).occupied.filter (· < newNumSlots)
      ⊆ (((order ++ persistentPages).filter fun x => !s.overflows newNumSlots x).map
        s.slotIdOf).toFinset := by
    intro i hi
    obtain ⟨hocc, hlt⟩ := Finset.mem_filter.mp hi
    obtain ⟨x, slot, hslot, rfl, hg⟩ := h.con.accounted i hocc
    refine List.mem_toFinset.mpr (List.mem_map.mpr ⟨x, mem_filter.mpr ⟨?_, ?_⟩, ?_⟩)
    · rcases h.known x (by simp [hslot]) hg with hsched | hpers
      · exact mem_append_left _ (h.con.mem_order.mpr ⟨hsched, hg⟩)
      · exact mem_append_right _ hpers
    · cases hover : s.overflows newNumSlots x with
      | false => rfl
      | true =>
        obtain ⟨slot', hslot', hle⟩ := overflows_iff.mp hover
        rw [hslot] at hslot'
        obtain rfl := some.inj hslot'
        omega
    · rw [slotIdOf, hslot]
      rfl
  have hcard := (Finset.card_le_card hsub).trans (toFinset_card_le _)
  rw [length_map, filter_append, length_append] at hcard
  have hparts := length_eq_length_filter_add (l := persistentPages) (s.overflows newNumSlots)
  have hfit := h.fit
  rw [Fits, drop_length, take_length, countP_nil, countP_eq_length_filter]
  omega

lemma Marked.planned :
    Planned (s.overflows newNumSlots) (s.controller.order pgIdx) (s.allocators pgIdx).numFreeSlots
      (persistentPages.filter (s.overflows newNumSlots)).length
      (minNumEvicted newNumSlots (persistentPages.filter (s.overflows newNumSlots)).length
        (s.allocators pgIdx).numFreeSlots
        (s.overflowSlots newNumSlots 0 (s.controller.order pgIdx)) 0 0) :=
  minNumEvicted_spec s h.room h.fits_all

/-! ### The two evictions -/

/-- A page of the order that nothing owns is dead or still in the order. -/
lemma Marked.dead_of_not_mem (h₁ : s₁.Con pgIdx)
    (hd : Drops env (kept ++ persistentPages) pgIdx s s₁) (hx : x ∈ s.controller.order pgIdx)
    (hkept : x ∉ kept) (hnot : x ∉ s₁.controller.order pgIdx) : s₁.slots x = none := by
  obtain ⟨hsched, hg⟩ := h.con.mem_order.mp hx
  have hsched₁ : s₁.scheduledForEviction x = false := by
    cases hs : s₁.scheduledForEviction x with
    | false => rfl
    | true => exact absurd (h₁.mem_order.mpr ⟨hs, (hd.groups.groupOf x).trans hg⟩) hnot
  by_contra hlive
  rcases mem_append.mp ((hd.lost x hsched hsched₁).2.1 hlive) with hin | hpers
  · exact hkept hin
  · exact absurd (hsched.symm.trans (h.persistent x hpers).2.2) (by simp)

/-- **The shortage** after the first eviction is at most the number of scheduled pages that are left
of a prefix that is enough. -/
lemma Marked.shortage {m e numPersistent : ℕ}
 (hkept : kept = ((s.controller.order pgIdx).drop m).filter (s.overflows newNumSlots))
    (he : Enough (s.overflows newNumSlots) (s.controller.order pgIdx)
      (s.allocators pgIdx).numFreeSlots numPersistent m e)
    (h₁ : s₁.Con pgIdx) (hd : Drops env (kept ++ persistentPages) pgIdx s s₁)
    (horder : (s₁.controller.order pgIdx).Sublist ((s.controller.order pgIdx).drop m)) :
    ∃ first rest, s₁.controller.order pgIdx = first ++ rest
      ∧ first.Sublist (((s.controller.order pgIdx).drop m).take (e - m))
      ∧ kept.length + numPersistent ≤ (s₁.allocators pgIdx).numFreeSlots + first.length := by
  obtain ⟨hle, hfits, hstays⟩ := he
  set order := s.controller.order pgIdx with horder₀
  have hdrop : order.drop m = (order.drop m).take (e - m) ++ order.drop e := by
    rw [← Nat.add_sub_cancel' hle, ← drop_drop, Nat.add_sub_cancel_left, take_append_drop]
  rw [hdrop] at horder
  obtain ⟨first, rest, hfirst, hsub, hrest⟩ := sublist_append_iff.mp horder
  refine ⟨first, rest, hfirst, hsub, ?_⟩
  set stay := (order.take e).filter (fun x => !s.overflows newNumSlots x) with hstay
  have hnodup : stay.Nodup := (h.con.order_nodup.sublist (take_sublist _ _)).filter _
  -- the pages of the prefix that keep their slots are scheduled still, or their slots are free
  have hfreed := h.con.numFreeSlots_add_le h₁ hd (stay.filter (· ∉ first)) (hnodup.filter _)
    (by
      intro x hx
      obtain ⟨hx, hnot⟩ := mem_filter.mp hx
      obtain ⟨hx, hover⟩ := mem_filter.mp hx
      have hnot : x ∉ first := of_decide_eq_true hnot
      have hover : s.overflows newNumSlots x = false := by simpa using hover
      have hmem : x ∈ order := mem_of_mem_take hx
      refine ⟨h.inRange_of_mem hmem hover, ?_⟩
      refine h.dead_of_not_mem h₁ hd hmem (fun hin => ?_) fun hin => ?_
      · rw [hkept, mem_filter] at hin
        exact absurd (hin.2.symm.trans hover) (by simp)
      · rw [hfirst, mem_append] at hin
        have hafter := hrest.subset (hin.resolve_left hnot)
        have hdisjoint := h.con.order_nodup
        rw [← horder₀, ← take_append_drop e order, nodup_append] at hdisjoint
        exact hdisjoint.2.2 x hx x hafter rfl)
  have hstill : (stay.filter (· ∈ first)).length ≤ first.length := by
    refine ((hnodup.filter _).subperm fun x hx => ?_).length_le
    exact of_decide_eq_true (mem_filter.mp hx).2
  have hparts := length_eq_length_filter_add (l := stay) (· ∈ first)
  have hkeptlen : kept.length = (order.drop e).countP (s.overflows newNumSlots) := by
    have hnone : ((order.drop m).take (e - m)).countP (s.overflows newNumSlots) = 0 :=
      countP_eq_zero.mpr fun x hx => by simp [hstays x hx]
    rw [hkept, ← countP_eq_length_filter, hdrop, countP_append, hnone, Nat.zero_add]
  have hnotmem : (stay.filter fun x => !decide (x ∈ first)) = stay.filter (· ∉ first) := by
    refine filter_congr fun x _ => ?_
    simp
  rw [hnotmem] at hparts
  rw [Fits, countP_eq_length_filter (l := order.take e), ← hstay] at hfits
  omega

end

/-- The state after both evictions: there are slots for the pages to relocate, and the evicted pages
are among the first ones of the order. -/
structure AfterEvictions (env : ShrinkEnv) (pgIdx newNumSlots : ℕ) (persistentPages : List ℕ)
    (s : LastLevel) (m : ℕ) (kept : List ℕ) (s' : LastLevel) : Prop where
  con : s'.Con pgIdx
  drops : Drops env (kept ++ persistentPages) pgIdx s s'
  free : kept.length + (persistentPages.filter (s.overflows newNumSlots)).length
    ≤ (s'.allocators pgIdx).numFreeSlots
  within : ∀ e, Enough (s.overflows newNumSlots) (s.controller.order pgIdx)
    (s.allocators pgIdx).numFreeSlots (persistentPages.filter (s.overflows newNumSlots)).length m
      e →
    s'.evicted.Sublist ((s.controller.order pgIdx).take e)
  dead : ∀ x ∈ s'.evicted, s'.slots x = none
  first : ∀ x ∈ (s.controller.order pgIdx).take m, x ∈ s'.evicted

section

variable (h : s.Marked pgIdx newNumSlots persistentPages) (env : ShrinkEnv)
include h

/-- The first eviction takes no page that the call owns. -/
lemma Marked.forceEvict {m : ℕ}
    (hm : m ≤ (s.controller.order pgIdx).length)
    (hkept : kept = ((s.controller.order pgIdx).drop m).filter (s.overflows newNumSlots)) :
    ∃ s₁, Runs (LastLevel.forceEvict env (kept ++ persistentPages) pgIdx m) s () s₁ ∧ s₁.Con pgIdx
      ∧ Drops env (kept ++ persistentPages) pgIdx s s₁
      ∧ s₁.evicted = (s.controller.order pgIdx).take m
      ∧ (s₁.controller.order pgIdx).Sublist ((s.controller.order pgIdx).drop m)
      ∧ ∀ x ∈ (s.controller.order pgIdx).take m, s₁.slots x = none := by
  have hown : ∀ x ∈ (s.controller.order pgIdx).take m, x ∉ kept ++ persistentPages := by
    intro x hx hin
    rcases mem_append.mp hin with hin | hin
    · rw [hkept, mem_filter] at hin
      have hdisjoint := h.con.order_nodup
      rw [← take_append_drop m (s.controller.order pgIdx), nodup_append] at hdisjoint
      exact hdisjoint.2.2 x hx x hin.1 rfl
    · have hsched := (h.con.mem_order.mp (mem_of_mem_take hx)).1
      exact absurd (hsched.symm.trans (h.persistent x hin).2.2) (by simp)
  obtain ⟨s₁, hruns, hcon, hdrops, hev, horder, hdead⟩ := h.con.evictPages env h.pgIdx_lt hm hown
  refine ⟨s₁, hruns, hcon, hdrops, ?_, horder, hdead⟩
  rw [hev, h.evicted, nil_append]

/-- **The two evictions** make room for the pages to relocate. -/
lemma Marked.evictions (hplan : Planned (s.overflows newNumSlots) (s.controller.order pgIdx)
      (s.allocators pgIdx).numFreeSlots (persistentPages.filter (s.overflows newNumSlots)).length
        plan) :
    ∃ s₁ s', Runs (LastLevel.forceEvict env (plan.2.map snd ++ persistentPages) pgIdx plan.1) s
      () s₁
      ∧ Runs (prepareFreeSlots env (plan.2.map snd ++ persistentPages) pgIdx
        ((plan.2.map snd).length + (persistentPages.filter (s.overflows newNumSlots)).length)) s₁
          () s'
      ∧ AfterEvictions env pgIdx newNumSlots persistentPages s plan.1 (plan.2.map snd) s' := by
  obtain ⟨m, remaining⟩ := plan
  obtain ⟨hm, -, hkept, e, he⟩ := hplan
  set kept := remaining.map snd with hkept₀
  set numPersistent := (persistentPages.filter (s.overflows newNumSlots)).length with hnum
  obtain ⟨s₁, hruns₁, hcon₁, hdrops₁, hev₁, horder₁, hdead₁⟩ := h.forceEvict env hm hkept
  set order := s.controller.order pgIdx with horder
  set goal := kept.length + numPersistent with hgoal
  set shortage := goal - (s₁.allocators pgIdx).numFreeSlots with hshortage
  obtain ⟨first, rest, hsplit, hsub, hle⟩ := h.shortage hkept he hcon₁ hdrops₁ horder₁
  -- what is evicted now was in the prefix, and does not have to be relocated
  have htake : (s₁.controller.order pgIdx).take shortage = first.take shortage := by
    rw [hsplit, take_append_of_le_length (by omega)]
  have hstays : ∀ x ∈ first.take shortage, x ∈ order ∧ s.overflows newNumSlots x = false := by
    intro x hx
    have hin := hsub.subset (mem_of_mem_take hx)
    exact ⟨mem_of_mem_drop (mem_of_mem_take hin), he.stays x hin⟩
  have hlen : (s₁.controller.order pgIdx).length = first.length + rest.length := by
    rw [hsplit, length_append]
  have hcount : shortage ≤ (s₁.controller.order pgIdx).length := by omega
  have hown : ∀ x ∈ (s₁.controller.order pgIdx).take shortage, x ∉ kept ++ persistentPages := by
    intro x hx hin
    rw [htake] at hx
    obtain ⟨hmem, hover⟩ := hstays x hx
    rcases mem_append.mp hin with hin | hin
    · rw [hkept, mem_filter] at hin
      exact absurd (hin.2.symm.trans hover) (by simp)
    · exact absurd ((h.con.mem_order.mp hmem).1.symm.trans (h.persistent x hin).2.2) (by simp)
  have hpg : pgIdx < s₁.controller.numPoolGroups := by
    rw [hdrops₁.groups.numPoolGroups]
    exact h.pgIdx_lt
  obtain ⟨s', hruns, hcon, hdrops, hev, -, hdead⟩ := hcon₁.evictPages env hpg hcount hown
  rw [hev₁] at hev
  refine ⟨s₁, s', hruns₁, ?_, hcon, hdrops₁.trans hdrops, ?_, fun e' he' => ?_, fun x hx => ?_,
    fun x hx => ?_⟩
  · refine .get_bind (.ite_neg ?_ ?_)
    · rw [EvictionController.size_eq]
      omega
    · rwa [EvictionController.size_eq, Nat.min_eq_left hcount]
  · have hfree := hcon₁.numFreeSlots_add_le hcon hdrops (first.take shortage)
      (by rw [← htake]; exact hcon₁.order_nodup.sublist (take_sublist _ _)) (by
        intro x hx
        rw [htake] at hdead
        refine ⟨?_, hdead x hx⟩
        obtain ⟨hmem, hover⟩ := hstays x hx
        obtain ⟨⟨slot, hslot, hlt⟩, hg⟩ := h.inRange_of_mem hmem hover
        have hin₁ : x ∈ s₁.controller.order pgIdx := by
          rw [hsplit]
          exact mem_append_left _ (mem_of_mem_take hx)
        refine ⟨⟨slot, ?_, ?_⟩, (hcon₁.mem_order.mp hin₁).2⟩
        · rcases hdrops₁.slots x with hnone | heq
          · exact absurd hnone (hcon₁.live_of_mem_order hin₁)
          · exact heq.trans hslot
        · rwa [(hdrops₁.bounds pgIdx).1])
    rw [length_take] at hfree
    omega
  · obtain ⟨first', rest', hsplit', hsub', hle'⟩ := h.shortage hkept he' hcon₁ hdrops₁ horder₁
    rw [hev, hsplit', take_append_of_le_length (by omega)]
    have hparted : order.take e' = order.take m ++ (order.drop m).take (e' - m) := by
      rw [← Nat.add_sub_cancel' he'.le, take_add, Nat.add_sub_cancel_left]
    rw [hparted]
    exact (Sublist.refl _).append ((take_sublist _ _).trans hsub')
  · rw [hev, mem_append] at hx
    rcases hx with hx | hx
    · rcases hdrops.slots x with hnone | heq
      · exact hnone
      · exact heq.trans (hdead₁ x hx)
    · exact hdead x hx
  · rw [hev]
    exact mem_append_left _ hx

end

end TrtLlm.LastLevel
