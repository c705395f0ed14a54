import TrtLlm.KvCacheV2.ShrinkEviction

/-!
What the relocation of a shrink does to the pages of the level.

While pages are relocated, some occupied slots belong to no page yet (`Moving`): the new slots of
the pages that are still to come.

* `Con.batchedMigrate`: **a relocation** gives every page of its list a slot below the target;
* `Con.releaseUnlinked`: the pages that only the call owned die at its end.
-/

namespace TrtLlm.LastLevel

open List Function Option

variable {env : ShrinkEnv} {owned : List ℕ} {pgIdx newNumSlots : ℕ} {s s₁ s' : LastLevel}

/-- The page has a slot that stays. -/
def InRange (s : LastLevel) (newNumSlots x : ℕ) : Prop :=
  ∃ slot, s.slots x = some slot ∧ slot.slotId < newNumSlots

/-- A level with new slots that belong to no page yet. -/
structure Moving (pgIdx newNumSlots : ℕ) (pending : List Slot) (s : LastLevel) : Prop where
  alloc : ∀ g, (s.allocators g).Ok
  controller : ∃ t : EvictionController.Times, s.controller.Inv t.stamp ∧ t.Bounds
  held : ∀ x slot, s.slots x = some slot →
    slot.slotId ∈ (s.allocators (s.controller.groupOf x)).occupied
  once : ∀ x y slot slot', s.slots x = some slot → s.slots y = some slot' →
    s.controller.groupOf x = s.controller.groupOf y → slot.slotId = slot'.slotId → x = y
  accounted : ∀ i ∈ (s.allocators pgIdx).occupied, (∃ dst ∈ pending, dst.slotId = i)
    ∨ ∃ x slot, s.slots x = some slot ∧ slot.slotId = i ∧ s.controller.groupOf x = pgIdx
  scheduled : ∀ x, s.scheduledForEviction x = true → s.slots x ≠ none ∧ s.linked x = true
  nodup : (pending.map Slot.slotId).Nodup
  taken : ∀ dst ∈ pending, dst.slotId ∈ (s.allocators pgIdx).occupied ∧ dst.slotId < newNumSlots
  fresh : ∀ dst ∈ pending, ∀ x slot, s.slots x = some slot → s.controller.groupOf x = pgIdx →
    slot.slotId ≠ dst.slotId

variable {x : ℕ}

/-- Nothing is left to relocate. -/
lemma Moving.con (h : s.Moving pgIdx newNumSlots []) : s.Con pgIdx := by
  refine ⟨h.alloc, h.controller, h.held, h.once, fun i hi => ?_, h.scheduled⟩
  exact (h.accounted i hi).resolve_left fun ⟨dst, hdst, _⟩ => absurd hdst not_mem_nil

/-- What the relocation of some pages can change. -/
structure Moves (newNumSlots : ℕ) (pages : List ℕ) (s s' : LastLevel) : Prop where
  groups : s.controller.SameGroups s'.controller
  bounds : ∀ g, (s'.allocators g).mTargetCapacity = (s.allocators g).mTargetCapacity
    ∧ (s'.allocators g).mCapacity = (s.allocators g).mCapacity
  slots : ∀ x, s'.slots x = s.slots x ∨ (x ∈ pages ∧ s'.InRange newNumSlots x)
  moved : ∀ x ∈ pages, s'.InRange newNumSlots x
  linked : s'.linked = s.linked
  evicted : s'.evicted = s.evicted
  relocated : s'.relocated = s.relocated ++ pages
  scheduled : ∀ x, s'.scheduledForEviction x = s.scheduledForEviction x

lemma Moves.refl (newNumSlots : ℕ) (s : LastLevel) : Moves newNumSlots [] s s where
  groups := .refl _
  bounds _ := ⟨rfl, rfl⟩
  slots _ := .inl rfl
  moved _ hx := absurd hx not_mem_nil
  linked := rfl
  evicted := rfl
  relocated := (append_nil _).symm
  scheduled _ := rfl

lemma Moves.trans {pages pages' : List ℕ} (h : Moves newNumSlots pages s s₁)
    (h' : Moves newNumSlots pages' s₁ s') : Moves newNumSlots (pages ++ pages') s s' where
  groups := h.groups.trans h'.groups
  bounds g := ⟨(h'.bounds g).1.trans (h.bounds g).1, (h'.bounds g).2.trans (h.bounds g).2⟩
  slots x := by
    rcases h'.slots x with heq | ⟨hx, hrange⟩
    · rcases h.slots x with heq₁ | ⟨hx, slot, hslot, hlt⟩
      · exact .inl (heq.trans heq₁)
      · exact .inr ⟨mem_append_left _ hx, slot, heq.trans hslot, hlt⟩
    · exact .inr ⟨mem_append_right _ hx, hrange⟩
  moved x hx := by
    rcases mem_append.mp hx with hx | hx
    · obtain ⟨slot, hslot, hlt⟩ := h.moved x hx
      rcases h'.slots x with heq | ⟨-, hrange⟩
      · exact ⟨slot, heq.trans hslot, hlt⟩
      · exact hrange
    · exact h'.moved x hx
  linked := h'.linked.trans h.linked
  evicted := h'.evicted.trans h.evicted
  relocated := by rw [h'.relocated, h.relocated, append_assoc]
  scheduled x := (h'.scheduled x).trans (h.scheduled x)

/-- The queues after a page was relocated: it is in its queue as before. -/
lemma exchange_controller (h : ∃ t : EvictionController.Times, s.controller.Inv t.stamp ∧ t.Bounds)
    (hlinked : s.scheduledForEviction x = true → s.linked x = true) :
    ∃ c : EvictionController, (if s.scheduledForEviction x = true ∧ s.linked x = true then
        (if s.scheduledForEviction x = true then s.controller.remove x
          else s.controller).scheduleForEviction x false
        else if s.scheduledForEviction x = true then s.controller.remove x else s.controller) = c
      ∧ (∃ t : EvictionController.Times, c.Inv t.stamp ∧ t.Bounds) ∧ s.controller.SameGroups c
      ∧ ∀ y, (c.pages y).nodeRef.isSome = s.scheduledForEviction y := by
  cases hx : s.scheduledForEviction x with
  | false => exact ⟨s.controller, by simp, h, .refl _, fun y => rfl⟩
  | true =>
    obtain ⟨t, hinv, ht⟩ := h
    have hnone : ((s.controller.remove x).pages x).nodeRef = none := by
      rw [EvictionController.pages_remove_self]
    refine ⟨(s.controller.remove x).scheduleForEviction x false, by simp [hlinked hx],
      ⟨t.schedule x false, (hinv.remove x).schedule ht hnone false, ht.schedule x false⟩,
      .trans (EvictionController.sameGroups_update _ _ _)
        (EvictionController.sameGroups_update _ _ _),
      fun y => ?_⟩
    by_cases hy : y = x
    · subst hy
      rw [EvictionController.pages_scheduleForEviction_self, hx]
      rfl
    · rw [EvictionController.pages_scheduleForEviction_of_ne hy,
        EvictionController.pages_remove_of_ne hy]
      rfl

/-- What one exchange changes: the page has the slot `dst`, and its group has `src` back. -/
structure Exchanged (pgIdx x : ℕ) (src dst : Slot) (s s' : LastLevel) : Prop where
  alloc : ∀ g, (s'.allocators g).Ok
  controller : ∃ t : EvictionController.Times, s'.controller.Inv t.stamp ∧ t.Bounds
  occupied : (s'.allocators pgIdx).occupied = (s.allocators pgIdx).occupied.erase src.slotId
  others : ∀ g, g ≠ pgIdx → (s'.allocators g).occupied = (s.allocators g).occupied
  groupOf : ∀ y, s'.controller.groupOf y = s.controller.groupOf y
  self : ∃ slot, s'.slots x = some slot ∧ slot.slotId = dst.slotId
  slots : ∀ y, y ≠ x → s'.slots y = s.slots y
  linked : s'.linked = s.linked
  scheduled : ∀ y, s'.scheduledForEviction y = s.scheduledForEviction y

lemma Exchanged.slots_cases {src dst slot : Slot} {y : ℕ} (he : Exchanged pgIdx x src dst s s')
    (hy : s'.slots y = some slot) :
    (y = x ∧ slot.slotId = dst.slotId) ∨ (y ≠ x ∧ s.slots y = some slot) := by
  by_cases hyx : y = x
  · subst hyx
    obtain ⟨slot', hself, hid⟩ := he.self
    rw [hself] at hy
    obtain rfl := some.inj hy
    exact .inl ⟨rfl, hid⟩
  · exact .inr ⟨hyx, (he.slots y hyx).symm.trans hy⟩

section

variable {src dst : Slot} {pending : List Slot}
  (h : s.Moving pgIdx newNumSlots (dst :: pending)) (hsrc : s.slots x = some src)
  (hgroup : s.controller.groupOf x = pgIdx) (he : Exchanged pgIdx x src dst s s')
include h hsrc hgroup he

/-- The pages hold slots of their groups, `x` the new one. -/
lemma Moving.held_exchanged {y : ℕ} {slot : Slot} (hy : s'.slots y = some slot) :
    slot.slotId ∈ (s'.allocators (s'.controller.groupOf y)).occupied := by
  rw [he.groupOf]
  rcases he.slots_cases hy with ⟨rfl, hid⟩ | ⟨hyx, hy⟩
  · rw [hgroup, he.occupied, hid]
    exact Finset.mem_erase.mpr
      ⟨(h.fresh dst mem_cons_self y src hsrc hgroup).symm, (h.taken dst mem_cons_self).1⟩
  · have hmem := h.held y slot hy
    by_cases hg : s.controller.groupOf y = pgIdx
    · rw [hg] at hmem ⊢
      rw [he.occupied]
      refine Finset.mem_erase.mpr ⟨fun hid => hyx ?_, hmem⟩
      exact h.once y x slot src hy hsrc (hg.trans hgroup.symm) hid
    · rw [he.others _ hg]
      exact hmem

/-- No slot of the group is lost: `src` is free, and `dst` has its page. -/
lemma Moving.accounted_exchanged {i : ℕ} (hi : i ∈ (s'.allocators pgIdx).occupied) :
    (∃ d ∈ pending, d.slotId = i)
      ∨ ∃ y slot, s'.slots y = some slot ∧ slot.slotId = i
        ∧ s'.controller.groupOf y = pgIdx := by
  rw [he.occupied, Finset.mem_erase] at hi
  rcases h.accounted i hi.2 with ⟨d, hd, hid⟩ | ⟨y, slot, hy, hid, hg⟩
  · rcases mem_cons.mp hd with rfl | hd
    · obtain ⟨slot, hself, heq⟩ := he.self
      exact .inr ⟨x, slot, hself, heq.trans hid, (he.groupOf x).trans hgroup⟩
    · exact .inl ⟨d, hd, hid⟩
  · have hyx : y ≠ x := by
      rintro rfl
      rw [hsrc] at hy
      obtain rfl := some.inj hy
      exact hi.1 hid.symm
    exact .inr ⟨y, slot, (he.slots y hyx).trans hy, hid, (he.groupOf y).trans hg⟩

lemma Moving.exchanged : s'.Moving pgIdx newNumSlots pending := by
  refine ⟨he.alloc, he.controller, fun y slot hy => h.held_exchanged hsrc hgroup he hy,
    fun y z slot slot' hy hz hg hid => ?_, fun i hi => h.accounted_exchanged hsrc hgroup he hi,
    fun y hy => ?_, (nodup_cons.mp h.nodup).2, fun d hd => ?_, fun d hd y slot hy hg => ?_⟩
  · rw [he.groupOf, he.groupOf] at hg
    rcases he.slots_cases hy with ⟨rfl, hy'⟩ | ⟨hyx, hy'⟩ <;>
      rcases he.slots_cases hz with ⟨rfl, hz'⟩ | ⟨hzx, hz'⟩
    · rfl
    · refine absurd (hid.symm.trans hy') ?_
      exact h.fresh dst mem_cons_self z slot' hz' (hg.symm.trans hgroup)
    · refine absurd (hid.trans hz') ?_
      exact h.fresh dst mem_cons_self y slot hy' (hg.trans hgroup)
    · exact h.once y z slot slot' hy' hz' hg hid
  · obtain ⟨hlive, hlinked⟩ := h.scheduled y ((he.scheduled y).symm.trans hy)
    rw [he.linked]
    refine ⟨?_, hlinked⟩
    by_cases hyx : y = x
    · obtain ⟨slot, hself, -⟩ := he.self
      rw [hyx, hself]
      exact some_ne_none _
    · rw [he.slots y hyx]
      exact hlive
  · obtain ⟨hmem, hdlt⟩ := h.taken d (mem_cons_of_mem dst hd)
    refine ⟨?_, hdlt⟩
    rw [he.occupied]
    refine Finset.mem_erase.mpr ⟨fun hid => ?_, hmem⟩
    exact h.fresh d (mem_cons_of_mem dst hd) x src hsrc hgroup hid.symm
  · rw [he.groupOf] at hg
    rcases he.slots_cases hy with ⟨rfl, hid⟩ | ⟨hyx, hy⟩
    · rw [hid]
      intro heq
      exact (nodup_cons.mp h.nodup).1 (List.mem_map.mpr ⟨d, hd, heq.symm⟩)
    · exact h.fresh d (mem_cons_of_mem dst hd) y slot hy hg

end

/-- **One page** takes its new slot and gives back its old one. -/
lemma Moving.exchangeSlot {dst : Slot} {pending : List Slot}
    (h : s.Moving pgIdx newNumSlots (dst :: pending)) (env : ShrinkEnv) (hx : s.slots x ≠ none)
    (hgroup : s.controller.groupOf x = pgIdx) :
    ∃ s', Runs (LastLevel.exchangeSlot env pgIdx x dst) s () s'
      ∧ s'.Moving pgIdx newNumSlots pending
      ∧ Moves newNumSlots [x] s s' := by
  obtain ⟨src, hsrc⟩ := ne_none_iff_exists'.mp hx
  have hheld : src.slotId ∈ (s.allocators pgIdx).occupied := hgroup ▸ h.held x src hsrc
  obtain ⟨a, hrel, hok, -, hocc, htarget, hcap⟩ :=
    (h.alloc pgIdx).release (env.ready s.queries) hheld env.finishEvent
  obtain ⟨c, hc, hinv, hgroups, hsched⟩ := exchange_controller h.controller fun hs =>
    (h.scheduled x hs).2
  set s' : LastLevel := { s with
    allocators := update s.allocators pgIdx a
    controller := c
    slots := update s.slots x (some ⟨dst.slotId, env.finishEvent⟩)
    queries := s.queries + 1
    relocated := s.relocated ++ [x] } with hs'
  have hruns : Runs (LastLevel.exchangeSlot env pgIdx x dst) s () s' := by
    refine .get_bind ?_
    rw [hsrc]
    dsimp only
    rw [hrel, hc]
    exact .set_bind rfl
  have hself : s'.slots x = some ⟨dst.slotId, env.finishEvent⟩ := update_self ..
  have hother : ∀ y, y ≠ x → s'.slots y = s.slots y := fun y hy => update_of_ne hy ..
  have halloc : ∀ g, g ≠ pgIdx → s'.allocators g = s.allocators g := fun g hg =>
    update_of_ne hg ..
  have hpgalloc : s'.allocators pgIdx = a := update_self ..
  have hall : ∀ g, (s'.allocators g).Ok
      ∧ (s'.allocators g).mTargetCapacity = (s.allocators g).mTargetCapacity
      ∧ (s'.allocators g).mCapacity = (s.allocators g).mCapacity := by
    intro g
    by_cases hg : g = pgIdx
    · rw [hg, hpgalloc]
      exact ⟨hok, htarget, hcap⟩
    · rw [halloc g hg]
      exact ⟨h.alloc g, rfl, rfl⟩
  have hin : s'.InRange newNumSlots x := ⟨_, hself, (h.taken dst mem_cons_self).2⟩
  have he : Exchanged pgIdx x src dst s s' :=
    ⟨fun g => (hall g).1, hinv, (congrArg _ hpgalloc).trans hocc,
      fun g hg => congrArg _ (halloc g hg), hgroups.groupOf, ⟨_, hself, rfl⟩, hother, rfl, hsched⟩
  refine ⟨s', hruns, h.exchanged hsrc hgroup he, hgroups, fun g => (hall g).2, fun y => ?_,
    fun y hy => ?_, rfl, rfl, rfl, hsched⟩
  · by_cases hy : y = x
    · subst hy
      exact .inr ⟨mem_singleton_self y, hin⟩
    · exact .inl (hother y hy)
  · rw [mem_singleton.mp hy]
    exact hin

/-- **The loop of a relocation.** -/
lemma Moving.exchangeSlots (env : ShrinkEnv)
    (pages : List ℕ) : ∀ {s : LastLevel} {pending : List Slot},
    s.Moving pgIdx newNumSlots pending → pages.length = pending.length →
    (∀ x ∈ pages, s.slots x ≠ none ∧ s.controller.groupOf x = pgIdx) →
    ∃ s', Runs (LastLevel.exchangeSlots env pgIdx (pages.zip pending)) s () s' ∧ s'.Con pgIdx
      ∧ Moves newNumSlots pages s s' := by
  induction pages with
  | nil =>
    intro s pending h hlen _
    obtain rfl := length_eq_zero_iff.mp hlen.symm
    exact ⟨s, rfl, h.con, .refl ..⟩
  | cons x pages ih =>
    intro s pending h hlen hpages
    obtain ⟨dst, pending, rfl⟩ := exists_cons_of_length_eq_add_one hlen.symm
    obtain ⟨hx, hgroup⟩ := hpages x mem_cons_self
    obtain ⟨s₁, hruns₁, hmoving, hmoves₁⟩ := h.exchangeSlot env hx hgroup
    have hpages₁ : ∀ y ∈ pages, s₁.slots y ≠ none ∧ s₁.controller.groupOf y = pgIdx := by
      intro y hy
      obtain ⟨hlive, hg⟩ := hpages y (mem_cons_of_mem x hy)
      refine ⟨?_, (hmoves₁.groups.groupOf y).trans hg⟩
      rcases hmoves₁.slots y with heq | ⟨-, slot, hslot, -⟩
      · rwa [heq]
      · rw [hslot]
        exact some_ne_none slot
    obtain ⟨s', hruns, hcon, hmoves⟩ := ih hmoving (by simpa using hlen) hpages₁
    exact ⟨s', hruns₁.bind hruns, hcon, hmoves₁.trans hmoves⟩

/-- The new slots are issued. -/
lemma Con.moving (h : s.Con pgIdx) {dstSlots : List Slot} {a : SlotAllocator}
    (ha : (s.allocators pgIdx).AllocatedAll dstSlots a) (queries : ℕ) :
    Moving pgIdx (s.allocators pgIdx).mTargetCapacity dstSlots
      { s with allocators := update s.allocators pgIdx a, queries := queries } := by
  have hmem : ∀ i, i ∈ a.occupied
      ↔ i ∈ (s.allocators pgIdx).occupied ∨ ∃ dst ∈ dstSlots, dst.slotId = i := by
    intro i
    rw [ha.occupied, Finset.mem_union, SlotAllocator.slotIds, List.mem_toFinset, List.mem_map]
  refine ⟨fun g => ?_, h.controller, fun x slot hx => ?_, h.once, fun i hi => ?_, h.scheduled,
    ha.nodup, fun dst hdst => ⟨?_, (ha.fresh dst hdst).2⟩, fun dst hdst x slot hx hg heq => ?_⟩
  · dsimp only
    by_cases hg : g = pgIdx
    · rw [hg, update_self]
      exact ha.ok
    · rw [update_of_ne hg]
      exact h.alloc g
  · dsimp only
    have hheld := h.held x slot hx
    by_cases hg : s.controller.groupOf x = pgIdx
    · rw [hg] at hheld ⊢
      rw [update_self]
      exact (hmem _).mpr (.inl hheld)
    · rw [update_of_ne hg]
      exact hheld
  · dsimp only at hi ⊢
    rw [update_self] at hi
    exact ((hmem i).mp hi).symm.imp_right (h.accounted i)
  · dsimp only
    rw [update_self]
    exact (hmem _).mpr (.inr ⟨dst, hdst, rfl⟩)
  · refine (ha.fresh dst hdst).1 ?_
    rw [← heq, ← (show s.controller.groupOf x = pgIdx from hg)]
    exact h.held x slot hx

/-- **A relocation** for which there are free slots. -/
lemma Con.batchedMigrate (h : s.Con pgIdx) (env : ShrinkEnv) {pages : List ℕ}
    (hfree : pages.length ≤ (s.allocators pgIdx).numFreeSlots)
    (hpages : ∀ x ∈ pages, s.slots x ≠ none ∧ s.controller.groupOf x = pgIdx) :
    ∃ s', Runs (LastLevel.batchedMigrate env pgIdx pages) s () s' ∧ s'.Con pgIdx
      ∧ Moves (s.allocators pgIdx).mTargetCapacity pages s s' := by
  obtain ⟨dstSlots, a, heq, hlen, ha⟩ := (h.alloc pgIdx).allocateMultiple_fresh
    (fun turn => env.ready (s.queries + turn)) hfree
  set s₁ : LastLevel := { s with
    allocators := update s.allocators pgIdx a
    queries := s.queries + pages.length } with hs₁
  obtain ⟨s', hruns, hcon, hmoves⟩ := Moving.exchangeSlots env pages
    (h.moving ha (s.queries + pages.length)) hlen.symm hpages
  refine ⟨s', ?_, hcon, ?_⟩
  · refine .get_bind (.ite_neg (Nat.not_lt.mpr hfree) ?_)
    rw [heq]
    exact .set_bind hruns
  · refine ⟨hmoves.groups, fun g => ?_, hmoves.slots, hmoves.moved, hmoves.linked, hmoves.evicted,
      hmoves.relocated, hmoves.scheduled⟩
    obtain ⟨htarget, hcap⟩ := hmoves.bounds g
    rw [htarget, hcap]
    dsimp only
    by_cases hg : g = pgIdx
    · rw [hg, update_self]
      exact ⟨ha.target, ha.capacity⟩
    · rw [update_of_ne hg]
      exact ⟨rfl, rfl⟩

/-! ### The end of the call -/

/-- A page out of the tree dies alone. -/
lemma Con.destroyUnlinked (h : s.Con pgIdx) (env : ShrinkEnv) (refs : List ℕ)
    (hx : s.scheduledForEviction x = false) (hlinked : s.linked x = false) (hown : x ∉ owned) :
    ∃ s', Runs (LastLevel.destroyPage env (refs ++ owned) x) s () s' ∧ s'.Con pgIdx
      ∧ Drops env owned pgIdx s s' ∧ s'.evicted = s.evicted ∧ s'.controller = s.controller
      ∧ s'.linked = s.linked ∧ s'.slots x = none := by
  obtain ⟨s', hruns, hcon, hdrops, hnone, hev, hc, hl⟩ := h.releaseSlot env hx hown
  refine ⟨s', ?_, hcon, hdrops, hev, hc, hl, hnone⟩
  have hunlink : Runs (LastLevel.unlinkPage env (refs ++ owned) x) s () s :=
    .get_bind (.ite_neg (by simp [hlinked]) rfl)
  exact hunlink.bind hruns

/-- **The pages that only the call owned** die at its end: those that the tree removed. -/
lemma Con.releaseUnlinked (env : ShrinkEnv) (owned refs : List ℕ) : ∀ {s : LastLevel}, s.Con pgIdx →
    (∀ x ∈ refs, s.scheduledForEviction x = false → s.linked x = false) →
    ∃ s', Runs (LastLevel.releaseRefs env owned refs) s () s' ∧ s'.Con pgIdx
      ∧ Drops env owned pgIdx s s' ∧ s'.evicted = s.evicted ∧ s'.controller = s.controller
      ∧ ∀ x ∈ refs, s.scheduledForEviction x = false → x ∉ owned → s'.slots x = none := by
  induction refs with
  | nil =>
    intro s h _
    exact ⟨s, rfl, h, .refl .., rfl, rfl, fun x hx => absurd hx not_mem_nil⟩
  | cons x refs ih =>
    intro s h hrefs
    have hrefs' : ∀ y ∈ refs, s.scheduledForEviction y = false → s.linked y = false :=
      fun y hy => hrefs y (mem_cons_of_mem x hy)
    by_cases hkeep : s.scheduledForEviction x = true ∨ x ∈ refs ∨ x ∈ owned
    · obtain ⟨s', hruns, hcon, hdrops, hev, hc, hdead⟩ := ih h hrefs'
      refine ⟨s', .get_bind (.ite_pos hkeep hruns), hcon, hdrops, hev, hc, ?_⟩
      intro y hy hsched hown
      rcases mem_cons.mp hy with rfl | hy
      · rcases hkeep with hs | hm | ho
        · exact absurd (hs.symm.trans hsched) (by simp)
        · exact hdead y hm hsched hown
        · exact absurd ho hown
      · exact hdead y hy hsched hown
    · have hx : s.scheduledForEviction x = false := Bool.eq_false_iff.mpr fun hs => hkeep (.inl hs)
      obtain ⟨s₁, hruns₁, hcon₁, hdrops₁, hev₁, hc₁, hl₁, hnone⟩ := h.destroyUnlinked env refs hx
        (hrefs x mem_cons_self hx) (fun ho => hkeep (.inr (.inr ho)))
      have hsched₁ : ∀ y, s₁.scheduledForEviction y = s.scheduledForEviction y := fun y => by
        rw [scheduledForEviction, hc₁, scheduledForEviction]
      obtain ⟨s', hruns, hcon, hdrops, hev, hc, hdead⟩ := ih hcon₁ (fun y hy hs => by
        rw [hl₁]
        exact hrefs' y hy ((hsched₁ y).symm.trans hs))
      refine ⟨s', .get_bind (.ite_neg hkeep (hruns₁.bind hruns)), hcon, hdrops₁.trans hdrops,
        hev.trans hev₁, hc.trans hc₁, ?_⟩
      intro y hy hsched hown
      rcases mem_cons.mp hy with rfl | hy
      · rcases hdrops.slots y with heq | heq
        · exact heq
        · exact heq.trans hnone
      · exact hdead y hy ((hsched₁ y).trans hsched) hown

end TrtLlm.LastLevel
