import TrtLlm.KvCacheV2.ShrinkPoolGroup
import TrtLlm.Util.Runs

/-!
What the evictions of a shrink do to the pages of the level.

Every live page has an occupied slot of its own, and in the pool group that shrinks every occupied
slot is the slot of a live page (`Con`).  An eviction takes the first pages of the order; the other
pages that leave their queues are those that the tree removes with one of these, and they die unless
the call owns them (`Drops`).

* `Con.destroyPage`: **the death of a page**;
* `Con.evictPages`: **an eviction** drops the first pages of the order.
-/

namespace TrtLlm.LastLevel

open List Function

variable {env : ShrinkEnv} {owned : List ℕ} {pgIdx : ℕ} {s s₁ s' : LastLevel}

/-- A level whose pages and slots agree. -/
structure Con (pgIdx : ℕ) (s : LastLevel) : Prop where
  alloc : ∀ g, (s.allocators g).Ok
  controller : ∃ t : EvictionController.Times, s.controller.Inv t.stamp ∧ t.Bounds
  held : ∀ x slot, s.slots x = some slot →
    slot.slotId ∈ (s.allocators (s.controller.groupOf x)).occupied
  once : ∀ x y slot slot', s.slots x = some slot → s.slots y = some slot' →
    s.controller.groupOf x = s.controller.groupOf y → slot.slotId = slot'.slotId → x = y
  accounted : ∀ i ∈ (s.allocators pgIdx).occupied, ∃ x slot, s.slots x = some slot ∧ slot.slotId = i
    ∧ s.controller.groupOf x = pgIdx
  scheduled : ∀ x, s.scheduledForEviction x = true → s.slots x ≠ none ∧ s.linked x = true

/-- What the deaths of pages can change: a page that leaves its queue is out of the tree, it was
evicted or the tree removed it with a page that was, and it lives only if it is owned. -/
structure Drops (env : ShrinkEnv) (owned : List ℕ) (pgIdx : ℕ) (s s' : LastLevel) : Prop where
  groups : s.controller.SameGroups s'.controller
  bounds : ∀ g, (s'.allocators g).mTargetCapacity = (s.allocators g).mTargetCapacity
    ∧ (s'.allocators g).mCapacity = (s.allocators g).mCapacity
  slots : ∀ x, s'.slots x = none ∨ s'.slots x = s.slots x
  keeps : ∀ x ∈ owned, s'.slots x = s.slots x
  order : (s'.controller.order pgIdx).Sublist (s.controller.order pgIdx)
  linked : ∀ x, s'.linked x = true → s.linked x = true
  evicted : ∀ x ∈ s.evicted, x ∈ s'.evicted
  relocated : s'.relocated = s.relocated
  scheduled : ∀ x, s'.scheduledForEviction x = true → s.scheduledForEviction x = true
  lost : ∀ x, s.scheduledForEviction x = true → s'.scheduledForEviction x = false →
    s'.linked x = false ∧ (s'.slots x ≠ none → x ∈ owned)
      ∧ (x ∈ s'.evicted ∨ ∃ y ∈ s'.evicted, env.tree.removes y x = true)

variable {refs : List ℕ} {x y : ℕ}

lemma Drops.refl (env : ShrinkEnv) (owned : List ℕ) (pgIdx : ℕ) (s : LastLevel) :
    Drops env owned pgIdx s s where
  groups := .refl _
  bounds _ := ⟨rfl, rfl⟩
  slots _ := .inr rfl
  keeps _ _ := rfl
  order := Sublist.refl _
  linked _ h := h
  evicted _ h := h
  relocated := rfl
  scheduled _ h := h
  lost x h h' := absurd (h.symm.trans h') (by simp)

lemma Drops.trans (h : Drops env owned pgIdx s s₁) (h' : Drops env owned pgIdx s₁ s') :
    Drops env owned pgIdx s s' where
  groups := h.groups.trans h'.groups
  bounds g := ⟨(h'.bounds g).1.trans (h.bounds g).1, (h'.bounds g).2.trans (h.bounds g).2⟩
  slots x := by
    rcases h'.slots x with heq | heq
    · exact .inl heq
    · rw [heq]
      exact h.slots x
  keeps x hx := (h'.keeps x hx).trans (h.keeps x hx)
  order := h'.order.trans h.order
  linked x hx := h.linked x (h'.linked x hx)
  evicted x hx := h'.evicted x (h.evicted x hx)
  relocated := h'.relocated.trans h.relocated
  scheduled x hx := h.scheduled x (h'.scheduled x hx)
  lost x hx hx' := by
    cases hmid : s₁.scheduledForEviction x with
    | true => exact h'.lost x hmid hx'
    | false =>
      obtain ⟨hlinked, hlive, hcause⟩ := h.lost x hx hmid
      refine ⟨?_, fun hslot => hlive fun hnone => ?_, ?_⟩
      · cases hl : s'.linked x with
        | false => rfl
        | true => exact absurd ((h'.linked x hl).symm.trans hlinked) (by simp)
      · rcases h'.slots x with heq | heq
        · exact hslot heq
        · exact hslot (heq.trans hnone)
      · rcases hcause with hev | ⟨y, hy, hrem⟩
        · exact .inl (h'.evicted x hev)
        · exact .inr ⟨y, h'.evicted y hy, hrem⟩

/-! ### The death of a page -/

lemma releaseSlot_eq {slot : Slot} {a : SlotAllocator} (hslot : s.slots x = some slot)
    (hrel : (s.allocators (s.controller.groupOf x)).release (env.ready s.queries) (some slot.slotId)
      slot.readyEvent = (.ok (), a)) :
    Runs (releaseSlot env x) s () { s with
      allocators := update s.allocators (s.controller.groupOf x) a
      slots := update s.slots x none
      queries := s.queries + 1 } := by
  refine .get_bind ?_
  rw [hslot]
  dsimp only
  rw [hrel]
  exact .set_bind rfl

/-- A page that is in no queue and that nothing owns gives back its slot. -/
lemma Con.releaseSlot (h : s.Con pgIdx) (env : ShrinkEnv) (hx : s.scheduledForEviction x = false)
    (hown : x ∉ owned) : ∃ s', Runs (LastLevel.releaseSlot env x) s () s' ∧ s'.Con pgIdx
      ∧ Drops env owned pgIdx s s' ∧ s'.slots x = none ∧ s'.evicted = s.evicted
      ∧ s'.controller = s.controller ∧ s'.linked = s.linked := by
  cases hslot : s.slots x with
  | none =>
    refine ⟨s, ?_, h, .refl .., hslot, rfl, rfl, rfl⟩
    refine .get_bind ?_
    rw [hslot]
    rfl
  | some slot =>
    obtain ⟨a, hrel, hok, -, hocc, htarget, hcap⟩ := (h.alloc (s.controller.groupOf x)).release
      (env.ready s.queries) (h.held x slot hslot) slot.readyEvent
    refine ⟨_, releaseSlot_eq hslot hrel, ?_, ?_, update_self .., rfl, rfl, rfl⟩
    · have hne : ∀ y slot', update s.slots x none y = some slot' →
          y ≠ x ∧ s.slots y = some slot' := by
        intro y slot' hy
        by_cases heq : y = x
        · subst heq
          rw [update_self] at hy
          cases hy
        · rw [update_of_ne heq] at hy
          exact ⟨heq, hy⟩
      constructor
      · intro g
        by_cases hg : g = s.controller.groupOf x
        · subst hg
          dsimp only
          rw [update_self]
          exact hok
        · dsimp only
          rw [update_of_ne hg]
          exact h.alloc g
      · exact h.controller
      · intro y slot' hy
        obtain ⟨hyx, hy⟩ := hne y slot' hy
        have hheld := h.held y slot' hy
        dsimp only
        by_cases hg : s.controller.groupOf y = s.controller.groupOf x
        · rw [hg] at hheld ⊢
          rw [update_self, hocc, Finset.mem_erase]
          refine ⟨fun hid => hyx (h.once y x slot' slot hy hslot hg hid), hheld⟩
        · rw [update_of_ne hg]
          exact hheld
      · intro y z slot₁ slot₂ hy hz
        exact h.once y z slot₁ slot₂ (hne y slot₁ hy).2 (hne z slot₂ hz).2
      · intro i hi
        dsimp only at hi ⊢
        have hkeep : ∀ y slot', s.slots y = some slot' → y ≠ x →
            update s.slots x none y = some slot' :=
          fun y slot' hy hyx => (update_of_ne hyx ..).trans hy
        by_cases hg : pgIdx = s.controller.groupOf x
        · rw [hg, update_self, hocc, Finset.mem_erase] at hi
          obtain ⟨y, slot', hy, hid, hgroup⟩ := h.accounted i (hg ▸ hi.2)
          refine ⟨y, slot', hkeep y slot' hy fun hyx => hi.1 ?_, hid, hgroup⟩
          subst hyx
          rw [hslot] at hy
          obtain rfl := Option.some.inj hy
          exact hid.symm
        · rw [update_of_ne hg] at hi
          obtain ⟨y, slot', hy, hid, hgroup⟩ := h.accounted i hi
          refine ⟨y, slot', hkeep y slot' hy fun hyx => hg ?_, hid, hgroup⟩
          rw [← hyx, hgroup]
      · intro y hy
        obtain ⟨hlive, hlinked⟩ := h.scheduled y hy
        refine ⟨?_, hlinked⟩
        have hyx : y ≠ x := by
          rintro rfl
          exact absurd (hy.symm.trans hx) (by simp)
        dsimp only
        rw [update_of_ne hyx]
        exact hlive
    · refine ⟨.refl _, fun g => ?_, fun y => ?_, fun y hy => ?_, Sublist.refl _, fun _ hl => hl,
        fun _ he => he, rfl, fun _ hs => hs, fun y hs hs' => absurd (hs.symm.trans hs') (by simp)⟩
      · dsimp only
        by_cases hg : g = s.controller.groupOf x
        · subst hg
          rw [update_self]
          exact ⟨htarget, hcap⟩
        · rw [update_of_ne hg]
          exact ⟨rfl, rfl⟩
      · dsimp only
        by_cases hyx : y = x
        · subst hyx
          exact .inl (update_self ..)
        · exact .inr (update_of_ne hyx ..)
      · exact update_of_ne (fun heq : y = x => hown (heq ▸ hy)) ..

/-- A page out of the tree and out of its queue. -/
def exclude (s : LastLevel) (y : ℕ) : LastLevel :=
  { s with linked := update s.linked y false, controller := s.controller.remove y }

lemma scheduled_exclude : (s.exclude y).scheduledForEviction x = true
    ↔ x ≠ y ∧ s.scheduledForEviction x = true := by
  rw [scheduledForEviction, scheduledForEviction, exclude]
  by_cases hx : x = y
  · subst hx
    simp
  · rw [EvictionController.pages_remove_of_ne hx]
    simp [hx]

lemma Con.exclude (h : s.Con pgIdx) (y : ℕ) : (s.exclude y).Con pgIdx := by
  have hgroup : ∀ x, (s.exclude y).controller.groupOf x = s.controller.groupOf x := fun x =>
    EvictionController.groupOf_remove y x
  obtain ⟨t, hinv, ht⟩ := h.controller
  refine ⟨h.alloc, ⟨t, hinv.remove y, ht⟩, fun x slot hx => ?_, fun x z slot slot' hx hz hg => ?_,
    fun i hi => ?_, fun x hx => ?_⟩
  · rw [hgroup]
    exact h.held x slot hx
  · rw [hgroup, hgroup] at hg
    exact h.once x z slot slot' hx hz hg
  · obtain ⟨x, slot, hx, hid, hg⟩ := h.accounted i hi
    exact ⟨x, slot, hx, hid, (hgroup x).trans hg⟩
  · obtain ⟨hne, hsched⟩ := scheduled_exclude.mp hx
    obtain ⟨hlive, hlinked⟩ := h.scheduled x hsched
    exact ⟨hlive, (update_of_ne hne ..).trans hlinked⟩

/-- A scheduled page that the tree removes, and what happens after. -/
lemma Drops.exclude (h : Drops env owned pgIdx (s.exclude y) s')
    (hlive : s'.slots y ≠ none → y ∈ owned)
    (hcause : ∃ z ∈ s.evicted, env.tree.removes z y = true) : Drops env owned pgIdx s s' where
  groups := .trans (EvictionController.sameGroups_update _ _ _) h.groups
  bounds := h.bounds
  slots := h.slots
  keeps := h.keeps
  order := h.order.trans (EvictionController.order_remove_sublist y pgIdx)
  linked x hx := by
    have hlinked : update s.linked y false x = true := h.linked x hx
    by_cases hxy : x = y
    · subst hxy
      rw [update_self] at hlinked
      cases hlinked
    · rwa [update_of_ne hxy] at hlinked
  evicted := h.evicted
  relocated := h.relocated
  scheduled x hx := (scheduled_exclude.mp (h.scheduled x hx)).2
  lost x hx hx' := by
    by_cases hxy : x = y
    · subst hxy
      refine ⟨?_, hlive, .inr ?_⟩
      · cases hl : s'.linked x with
        | false => rfl
        | true =>
          have hlinked : update s.linked x false x = true := h.linked x hl
          rw [update_self] at hlinked
          cases hlinked
      · obtain ⟨z, hz, hrem⟩ := hcause
        exact ⟨z, h.evicted z hz, hrem⟩
    · exact h.lost x (scheduled_exclude.mpr ⟨hxy, hx⟩) hx'

/-- A page out of the tree that is in no queue. -/
lemma Con.unlink (h : s.Con pgIdx) (env : ShrinkEnv) (owned : List ℕ)
    (hy : s.scheduledForEviction y = false) : Con pgIdx { s with linked := update s.linked y false }
      ∧ Drops env owned pgIdx s { s with linked := update s.linked y false } := by
  constructor
  · refine ⟨h.alloc, h.controller, h.held, h.once, h.accounted, fun x hx => ?_⟩
    have hx : s.scheduledForEviction x = true := hx
    obtain ⟨hlive, hlinked⟩ := h.scheduled x hx
    have hne : x ≠ y := by
      rintro rfl
      exact absurd (hx.symm.trans hy) (by simp)
    exact ⟨hlive, (update_of_ne hne ..).trans hlinked⟩
  · refine ⟨.refl _, fun _ => ⟨rfl, rfl⟩, fun _ => .inr rfl, fun _ _ => rfl, Sublist.refl _,
      fun x hx => ?_, fun _ he => he, rfl, fun _ hs => hs,
      fun x hs hs' => absurd (hs.symm.trans hs') (by simp)⟩
    have hx : update s.linked y false x = true := hx
    by_cases hxy : x = y
    · subst hxy
      rw [update_self] at hx
      cases hx
    · rwa [update_of_ne hxy] at hx

/-- The lists that are being destroyed own pages that are in no queue. -/
def Unqueued (s : LastLevel) (refs : List ℕ) : Prop := ∀ x ∈ refs, s.scheduledForEviction x = false

lemma Unqueued.of_drops (h : s.Unqueued refs) (hd : Drops env owned pgIdx s s') :
    s'.Unqueued refs := by
  intro x hx
  cases hs : s'.scheduledForEviction x with
  | false => rfl
  | true => exact absurd ((hd.scheduled x hs).symm.trans (h x hx)) (by simp)

/-- One page of a block that the tree removes with an evicted page. -/
lemma Con.releasePage (h : s.Con pgIdx) (owned : List ℕ) (hrefs : s.Unqueued refs)
    (hcause : ∃ z ∈ s.evicted, env.tree.removes z y = true) :
    ∃ s', Runs (LastLevel.releasePage env (refs ++ owned) y) s () s' ∧ s'.Con pgIdx
      ∧ Drops env owned pgIdx s s' ∧ s'.evicted = s.evicted := by
  cases hy : s.scheduledForEviction y with
  | false =>
    obtain ⟨hcon, hdrops⟩ := h.unlink env owned hy
    refine ⟨_, ?_, hcon, hdrops, rfl⟩
    refine .modify_bind (.get_bind (.ite_neg ?_ rfl))
    exact fun hs => absurd (hs.symm.trans hy) (by simp)
  | true =>
    have hcon := h.exclude y
    have hunsched : (s.exclude y).scheduledForEviction y = false := by
      cases hs : (s.exclude y).scheduledForEviction y with
      | false => rfl
      | true => exact absurd rfl (scheduled_exclude.mp hs).1
    have hmem : y ∈ refs ++ owned ↔ y ∈ owned := by
      rw [mem_append]
      refine or_iff_right fun hin => ?_
      exact absurd (hy.symm.trans (hrefs y hin)) (by simp)
    by_cases hown : y ∈ owned
    · refine ⟨s.exclude y, ?_, hcon,
        (Drops.refl env owned pgIdx (s.exclude y)).exclude (fun _ => hown) hcause, rfl⟩
      exact .modify_bind (.get_bind (.ite_pos hy (.set_bind (.ite_pos (hmem.mpr hown) rfl))))
    · obtain ⟨s', hruns, hcon', hdrops, hnone, hev, -⟩ := hcon.releaseSlot env hunsched hown
      refine ⟨s', ?_, hcon', hdrops.exclude (fun hlive => absurd hnone hlive) hcause, hev⟩
      refine .modify_bind (.get_bind (.ite_pos hy (.set_bind (.ite_neg ?_ hruns))))
      exact fun hin => hown (hmem.mp hin)

/-- A page in no queue leaves the tree, and takes the blocks that need it with it. -/
lemma Con.unlinkPage (h : s.Con pgIdx) (env : ShrinkEnv) (owned : List ℕ) (hrefs : s.Unqueued refs)
    (hx : s.scheduledForEviction x = false) (hev : s.linked x = true → x ∈ s.evicted) :
    ∃ s', Runs (LastLevel.unlinkPage env (refs ++ owned) x) s () s' ∧ s'.Con pgIdx
      ∧ Drops env owned pgIdx s s' ∧ s'.evicted = s.evicted ∧ s'.linked x = false := by
  cases hl : s.linked x with
  | false =>
    refine ⟨s, .get_bind (.ite_neg (by simp [hl]) rfl), h, .refl .., rfl, hl⟩
  | true =>
    obtain ⟨hcon, hdrops⟩ := h.unlink env owned hx
    set s₁ : LastLevel := { s with linked := update s.linked x false } with hs₁
    -- each turn of the loop is about a page that the tree removes with this one
    obtain ⟨s', hruns, ⟨hcon', -, hev'⟩, hdrops'⟩ := Runs.forM
      (f := LastLevel.releasePage env (refs ++ owned))
      (I := fun s => s.Con pgIdx ∧ s.Unqueued refs ∧ s.evicted = s₁.evicted)
      (R := Drops env owned pgIdx) (Drops.refl env owned pgIdx) Drops.trans
      (l := env.tree.stale s.linked x) (fun y hy s₂ hs₂ => by
        have hrem : env.tree.removes x y = true := by
          have hfilter := (mem_filter.mp hy).2
          simp only [Bool.and_eq_true] at hfilter
          exact hfilter.2
        obtain ⟨s₃, hruns, hcon₃, hdrops₃, hev₃⟩ := hs₂.1.releasePage owned hs₂.2.1
          ⟨x, hs₂.2.2 ▸ hev hl, hrem⟩
        exact ⟨s₃, hruns, ⟨hcon₃, hs₂.2.1.of_drops hdrops₃, hev₃.trans hs₂.2.2⟩, hdrops₃⟩)
      ⟨hcon, hrefs.of_drops hdrops, rfl⟩
    refine ⟨s', .get_bind (.ite_pos hl (.set_bind hruns)), hcon', hdrops.trans hdrops', hev', ?_⟩
    cases hl' : s'.linked x with
    | false => rfl
    | true =>
      have hlinked : update s.linked x false x = true := hdrops'.linked x hl'
      rw [update_self] at hlinked
      cases hlinked

/-- **The death of a page** that is in no queue and that nothing owns. -/
lemma Con.destroyPage (h : s.Con pgIdx) (env : ShrinkEnv) (hrefs : s.Unqueued refs)
    (hx : s.scheduledForEviction x = false) (hown : x ∉ owned)
    (hev : s.linked x = true → x ∈ s.evicted) :
    ∃ s', Runs (LastLevel.destroyPage env (refs ++ owned) x) s () s' ∧ s'.Con pgIdx
      ∧ Drops env owned pgIdx s s' ∧ s'.evicted = s.evicted ∧ s'.slots x = none
      ∧ s'.linked x = false := by
  obtain ⟨s₁, hruns, hcon, hdrops, hev₁, hl⟩ := h.unlinkPage env owned hrefs hx hev
  have hx₁ : s₁.scheduledForEviction x = false := by
    cases hs : s₁.scheduledForEviction x with
    | false => rfl
    | true => exact absurd ((hdrops.scheduled x hs).symm.trans hx) (by simp)
  obtain ⟨s', hruns', hcon', hdrops', hnone, hev', -, hlinked⟩ := hcon.releaseSlot env hx₁ hown
  exact ⟨s', hruns.bind hruns', hcon', hdrops.trans hdrops', hev'.trans hev₁, hnone,
    (congrFun hlinked x).trans hl⟩

/-- A page that is dead or out of the tree stays so. -/
lemma Drops.dead (h : Drops env owned pgIdx s s') (hx : s.slots x = none ∧ s.linked x = false) :
    s'.slots x = none ∧ s'.linked x = false := by
  constructor
  · rcases h.slots x with heq | heq
    · exact heq
    · exact heq.trans hx.1
  · cases hl : s'.linked x with
    | false => rfl
    | true => exact absurd ((h.linked x hl).symm.trans hx.2) (by simp)

/-- **The pages of an eviction** die when its list does. -/
lemma Con.releaseRefs (env : ShrinkEnv) (refs : List ℕ) : ∀ {s : LastLevel}, s.Con pgIdx →
    s.Unqueued refs → (∀ x ∈ refs, x ∈ s.evicted ∧ x ∉ owned) →
    ∃ s', Runs (LastLevel.releaseRefs env owned refs) s () s' ∧ s'.Con pgIdx
      ∧ Drops env owned pgIdx s s' ∧ s'.evicted = s.evicted
      ∧ ∀ x ∈ refs, s'.slots x = none ∧ s'.linked x = false := by
  induction refs with
  | nil =>
    intro s h _ _
    exact ⟨s, rfl, h, .refl .., rfl, fun x hx => absurd hx not_mem_nil⟩
  | cons x refs ih =>
    intro s h hrefs hev
    have hrefs' : s.Unqueued refs := fun y hy => hrefs y (mem_cons_of_mem x hy)
    have hev' : ∀ y ∈ refs, y ∈ s.evicted ∧ y ∉ owned := fun y hy => hev y (mem_cons_of_mem x hy)
    have hx := hrefs x mem_cons_self
    obtain ⟨hxev, hxown⟩ := hev x mem_cons_self
    by_cases hmem : x ∈ refs
    · obtain ⟨s', hruns, hcon, hdrops, hevicted, hdead⟩ := ih h hrefs' hev'
      refine ⟨s', .get_bind (.ite_pos (.inr (.inl hmem)) hruns), hcon, hdrops, hevicted, ?_⟩
      exact forall_mem_cons.mpr ⟨hdead x hmem, hdead⟩
    · obtain ⟨s₁, hruns₁, hcon₁, hdrops₁, hevicted₁, hdead₁⟩ :=
        h.destroyPage env hrefs' hx hxown (fun _ => hxev)
      obtain ⟨s', hruns, hcon, hdrops, hevicted, hdead⟩ := ih hcon₁ (hrefs'.of_drops hdrops₁)
        (by rw [hevicted₁]; exact hev')
      refine ⟨s', .get_bind (.ite_neg ?_ (hruns₁.bind hruns)), hcon, hdrops₁.trans hdrops,
        hevicted.trans hevicted₁, forall_mem_cons.mpr ⟨hdrops.dead hdead₁, hdead⟩⟩
      rintro (hs | hm | ho)
      · exact absurd (hs.symm.trans hx) (by simp)
      · exact hmem hm
      · exact hxown ho

/-! ### An eviction -/

lemma flatten_onlyFor {n : ℕ} (hpg : pgIdx < n) (order : ℕ → List ℕ) (count : ℕ) :
    ((range n).map fun g => (order g).take (onlyFor pgIdx count g).toNat).flatten
      = (order pgIdx).take count := by
  have hother : ∀ l : List ℕ, pgIdx ∉ l →
      (l.map fun g => (order g).take (onlyFor pgIdx count g).toNat).flatten = [] := by
    intro l hl
    rw [flatten_eq_nil_iff]
    intro taken htaken
    obtain ⟨g, hg, rfl⟩ := mem_map.mp htaken
    rw [onlyFor, if_neg (fun heq : g = pgIdx => hl (heq ▸ hg))]
    rfl
  obtain ⟨before, after, hsplit⟩ := append_of_mem (mem_range.mpr hpg)
  have hnodup : (before ++ pgIdx :: after).Nodup := hsplit ▸ nodup_range
  rw [nodup_middle, nodup_cons, mem_append, not_or] at hnodup
  rw [hsplit, map_append, map_cons, flatten_append, flatten_cons,
    hother before hnodup.1.1, hother after hnodup.1.2, nil_append, append_nil, onlyFor,
    if_pos rfl, Int.toNat_natCast]

/-- The pages of one pool group that an eviction takes, and what is left of the queues. -/
lemma evict_onlyFor {c : EvictionController} {stamp : ℕ → ℤ} (h : c.Inv stamp)
    (hpg : pgIdx < c.numPoolGroups) {count : ℕ} (hcount : count ≤ (c.order pgIdx).length) :
    ∃ taken c', c.evict (onlyFor pgIdx count) = (.ok taken, c')
      ∧ taken.flatten = (c.order pgIdx).take count ∧ c'.Inv stamp ∧ c.SameGroups c'
      ∧ c'.order pgIdx = (c.order pgIdx).drop count
      ∧ ∀ x, (c'.pages x).nodeRef.isSome = true
        ↔ (c.pages x).nodeRef.isSome = true ∧ x ∉ (c.order pgIdx).take count := by
  rcases h.evictGroups (onlyFor pgIdx count) (nodup_range (n := c.numPoolGroups)) [] with
    ⟨-, c', heq, hinv, hdrop, hrest⟩ | ⟨hnot, -⟩
  swap
  · refine absurd (fun g hg => ?_) hnot
    rw [onlyFor, EvictionController.size_eq]
    split_ifs with hgp
    · rw [hgp]
      exact ⟨by omega, by omega⟩
    · exact ⟨le_rfl, by omega⟩
  have hgroups := EvictionController.sameGroups_evictGroups heq
  have horder : c'.order pgIdx = (c.order pgIdx).drop count := by
    rw [hdrop pgIdx (mem_range.mpr hpg), onlyFor, if_pos rfl, Int.toNat_natCast]
  have hother : ∀ g, g ≠ pgIdx → c'.order g = c.order g := by
    intro g hg
    by_cases hmem : g ∈ range c.numPoolGroups
    · rw [hdrop g hmem, onlyFor, if_neg hg]
      rfl
    · rw [EvictionController.order, hrest g hmem, EvictionController.order]
  have hmem : ∀ {c : EvictionController} {x : ℕ}, c.Inv stamp →
      ((c.pages x).nodeRef.isSome = true ↔ x ∈ c.order (c.groupOf x)) := by
    intro c x hc
    rw [hc.mem_order, and_iff_left rfl, Option.isSome_iff_ne_none]
  refine ⟨_, c', heq, ?_, hinv, hgroups, horder, fun x => ?_⟩
  · rw [nil_append]
    exact flatten_onlyFor hpg c.order count
  · rw [hmem hinv, hmem h, hgroups.groupOf x]
    by_cases hg : c.groupOf x = pgIdx
    · rw [hg, horder]
      have hnodup := h.order_nodup pgIdx
      rw [← take_append_drop count (c.order pgIdx), nodup_append] at hnodup
      constructor
      · exact fun hx => ⟨mem_of_mem_drop hx, fun hin => hnodup.2.2 x hin x hx rfl⟩
      · rintro ⟨hx, hnot⟩
        rw [← take_append_drop count (c.order pgIdx), mem_append] at hx
        exact hx.resolve_left hnot
    · rw [hother _ hg]
      refine (and_iff_left fun hin => hg ?_).symm
      exact (h.mem_order.mp (mem_of_mem_take hin)).2

/-- **An eviction** of pages that the call does not own: the first pages of the order die. -/
lemma Con.evictPages (h : s.Con pgIdx) (env : ShrinkEnv) (hpg : pgIdx < s.controller.numPoolGroups)
    {count : ℕ} (hcount : count ≤ (s.controller.order pgIdx).length)
    (hown : ∀ x ∈ (s.controller.order pgIdx).take count, x ∉ owned) :
    ∃ s', Runs (LastLevel.evictPages env owned (onlyFor pgIdx count)) s () s' ∧ s'.Con pgIdx
      ∧ Drops env owned pgIdx s s'
      ∧ s'.evicted = s.evicted ++ (s.controller.order pgIdx).take count
      ∧ (s'.controller.order pgIdx).Sublist ((s.controller.order pgIdx).drop count)
      ∧ ∀ x ∈ (s.controller.order pgIdx).take count, s'.slots x = none := by
  obtain ⟨t, hinv, ht⟩ := h.controller
  obtain ⟨lists, c, heq, hflatten, hinv', hgroups, horder, hsched⟩ := evict_onlyFor hinv hpg hcount
  set taken := (s.controller.order pgIdx).take count with htaken
  set s₁ : LastLevel := { s with controller := c, evicted := s.evicted ++ taken } with hs₁
  have hsched₁ : ∀ x, s₁.scheduledForEviction x = true
      ↔ s.scheduledForEviction x = true ∧ x ∉ taken := hsched
  have hcon₁ : s₁.Con pgIdx := by
    refine ⟨h.alloc, ⟨t, hinv', ht⟩, fun x slot hx => ?_, fun x y slot slot' hx hy hg => ?_,
      fun i hi => ?_, fun x hx => h.scheduled x ((hsched₁ x).mp hx).1⟩
    · rw [show s₁.controller.groupOf x = s.controller.groupOf x from hgroups.groupOf x]
      exact h.held x slot hx
    · rw [show s₁.controller.groupOf x = s.controller.groupOf x from hgroups.groupOf x,
        show s₁.controller.groupOf y = s.controller.groupOf y from hgroups.groupOf y] at hg
      exact h.once x y slot slot' hx hy hg
    · obtain ⟨x, slot, hx, hid, hg⟩ := h.accounted i hi
      exact ⟨x, slot, hx, hid, (hgroups.groupOf x).trans hg⟩
  have hunqueued : s₁.Unqueued taken := by
    intro x hx
    cases hs : s₁.scheduledForEviction x with
    | false => rfl
    | true => exact absurd hx ((hsched₁ x).mp hs).2
  obtain ⟨s', hruns, hcon, hdrops, hev, hdead⟩ := Con.releaseRefs env taken hcon₁ hunqueued
    fun x hx => ⟨mem_append_right _ hx, hown x hx⟩
  refine ⟨s', ?_, hcon, ?_, hev, ?_, fun x hx => (hdead x hx).1⟩
  · refine .get_bind ?_
    rw [heq]
    dsimp only
    rw [hflatten]
    exact .set_bind hruns
  · refine ⟨hgroups.trans hdrops.groups, hdrops.bounds, hdrops.slots, hdrops.keeps,
      hdrops.order.trans ?_, hdrops.linked, fun x hx => hdrops.evicted x (mem_append_left _ hx),
      hdrops.relocated, fun x hx => ((hsched₁ x).mp (hdrops.scheduled x hx)).1, fun x hx hx' => ?_⟩
    · rw [show s₁.controller.order pgIdx = _ from horder]
      exact drop_sublist _ _
    · by_cases hin : x ∈ taken
      · obtain ⟨hnone, hlinked⟩ := hdead x hin
        exact ⟨hlinked, fun hlive => absurd hnone hlive,
          .inl (hdrops.evicted x (mem_append_right _ hin))⟩
      · exact hdrops.lost x ((hsched₁ x).mpr ⟨hx, hin⟩) hx'
  · rw [← horder]
    exact hdrops.order

end TrtLlm.LastLevel
