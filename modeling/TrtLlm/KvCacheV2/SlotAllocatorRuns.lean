import TrtLlm.KvCacheV2.SlotAllocator

/-!
Releases and resizing of the slots of a pool, and whole runs of the allocator.

* `Ok.release`, `Ok.prepareForShrink`, `Ok.finishShrink`, …: every call keeps the partition of the
  ids;
* `slotAllocator_safe`: **what the calls do in every state of every run**;
* `check_of_reachable`: `SlotAllocator::check` passes there.
-/

namespace TrtLlm.SlotAllocator

open List

variable {i n : ℕ} {s : SlotAllocator}

/-! ### Release -/

lemma Ok.lt_active (h : s.Ok) (hi : i ∈ s.occupied) :
    i < s.mNumActiveSlots := (h.issued i).mpr (.inr hi)

/-- A slot without an id, or whose id is not occupied, is rejected. -/
lemma release_rejected (ready : ℕ → Bool) {slotId : Option ℤ} (event : ℕ)
    (hid : ∀ i : ℕ, slotId = some (i : ℤ) → i ∉ s.occupied) :
    s.release ready slotId event = (.error .logic, s) := by
  cases slotId with
  | none => rfl
  | some id =>
    rw [SlotAllocator.release]
    refine if_pos ?_
    by_cases hvalid : 0 ≤ id ∧ id < s.mCapacity
    · refine .inr fun hget => ?_
      exact hid id.toNat (by rw [Int.toNat_of_nonneg hvalid.1]) (DynamicBitset.get_iff.mp hget)
    · exact .inl hvalid

section

variable (h : s.Ok)
include h

/-- An occupied id joins the recycled or the overflow slots. -/
lemma Ok.freed {s' : SlotAllocator} (hi : i ∈ s.occupied)
    (hcapacity : s'.mCapacity = s.mCapacity) (htarget : s'.mTargetCapacity = s.mTargetCapacity)
    (hactive : s'.mNumActiveSlots = s.mNumActiveSlots)
    (hready : s'.mNumReadyRecycledSlots ≤ s'.mRecycledSlots.length)
    (hmask : s'.mOccupiedMask = s.mOccupiedMask.clear i)
    (hperm : (s'.recycledIds ++ s'.overflowIds).Perm (i :: (s.recycledIds ++ s.overflowIds)))
    (hrec : ∀ j ∈ s'.recycledIds, j < s.mTargetCapacity)
    (hover : ∀ j ∈ s'.overflowIds, s.mTargetCapacity ≤ j) : s'.Ok := by
  have hbits : s'.occupied = s.occupied.erase i := by
    rw [SlotAllocator.occupied, hmask, DynamicBitset.bits_clear, SlotAllocator.occupied]
  refine ⟨?_, ?_, hready, ?_, hmask ▸ h.counted.clear i, ?_, htarget ▸ hrec, htarget ▸ hover, ?_,
    ?_⟩
  · rw [htarget, hcapacity]
    exact h.target_le
  · rw [hactive, hcapacity]
    exact h.active_le
  · have := h.covers
    rw [DynamicBitset.Covers] at this ⊢
    rwa [hcapacity, hmask, DynamicBitset.length_mWords_clear]
  · rw [hperm.nodup_iff, nodup_cons]
    exact ⟨h.free i hi, h.nodup⟩
  · intro j
    rw [hactive, h.issued j, hperm.mem_iff, mem_cons, hbits, Finset.mem_erase]
    by_cases hj : j = i
    · subst hj
      simp [hi]
    · simp [hj]
  · intro j hj
    rw [hbits, Finset.mem_erase] at hj
    rw [hperm.mem_iff, mem_cons, not_or]
    exact ⟨hj.1, h.free j hj.2⟩

/-- **`release`** of an occupied id. -/
lemma Ok.release (ready : ℕ → Bool) (hi : i ∈ s.occupied)
    (event : ℕ) : ∃ s', s.release ready (some (i : ℤ)) event = (.ok (), s') ∧ s'.Ok
      ∧ s'.mNumActiveSlots = s.mNumActiveSlots ∧ s'.occupied = s.occupied.erase i
      ∧ s'.mTargetCapacity = s.mTargetCapacity ∧ s'.mCapacity = s.mCapacity := by
  have hactive := h.lt_active hi
  have hcap := h.active_le
  rw [SlotAllocator.release, if_neg, Int.toNat_natCast]
  swap
  · rw [not_or, not_not, not_not]
    exact ⟨by omega, DynamicBitset.get_iff.mpr hi⟩
  refine ⟨_, rfl, Ok.scrubEvents ?_ ready, by split_ifs <;> rfl, ?_, by split_ifs <;> rfl,
    by split_ifs <;> rfl⟩
  swap
  · rw [SlotAllocator.occupied, SlotAllocator.occupied, ← DynamicBitset.bits_clear]
    split_ifs <;> rfl
  split_ifs with hlt
  · refine h.freed hi rfl rfl rfl ?_ rfl ?_ ?_ h.overflow_ge
    · have := h.ready_le
      simp only [length_append]
      omega
    · simp only [recycledIds, map_append, append_assoc]
      exact perm_middle
    · simp only [recycledIds, map_append]
      refine forall_mem_append.mpr ⟨h.recycled_lt, ?_⟩
      simpa using hlt
  · refine h.freed hi rfl rfl rfl h.ready_le rfl ?_ h.recycled_lt ?_
    · simp only [overflowIds, map_append, ← append_assoc]
      exact perm_append_singleton _ _
    · simp only [overflowIds, map_append]
      refine forall_mem_append.mpr ⟨h.overflow_ge, ?_⟩
      simpa using hlt

/-! ### Resizing -/

lemma Ok.expand (hphase : s.mTargetCapacity = s.mCapacity)
    (hn : s.mCapacity < n) : (s.expand n).Ok := by
  have hactive := h.active_le
  have hbits : (s.expand n).occupied = s.occupied := by
    rw [SlotAllocator.occupied, SlotAllocator.expand, DynamicBitset.bits_resize,
      Finset.filter_eq_self.mpr]
    · rfl
    · intro i hi
      have := h.lt_active hi
      omega
  have hover : ∀ i ∈ s.overflowIds, n ≤ i := by
    intro i hi
    have := h.overflow_ge i hi
    have := (h.issued i).mpr (.inl (mem_append_right _ hi))
    omega
  refine ⟨Nat.le_refl n, ?_, h.ready_le, DynamicBitset.covers_resize _ n, h.counted.resize n,
    h.nodup, ?_, hover, ?_, ?_⟩
  · show s.mNumActiveSlots ≤ n
    omega
  · intro i hi
    have := h.recycled_lt i hi
    show i < n
    omega
  · rw [hbits]
    exact h.issued
  · rw [hbits]
    exact h.free

/-- The ids keep their places in the mask; the recycled ones are parted at the new target. -/
lemma Ok.prepareForShrink (hphase : s.mTargetCapacity = s.mCapacity)
    (hn : n < s.mCapacity) : (s.prepareForShrink n).Ok := by
  have hactive := h.active_le
  have hempty : s.overflowIds = [] := by
    refine eq_nil_iff_forall_not_mem.mpr fun i hi => ?_
    have := h.overflow_ge i hi
    have := (h.issued i).mpr (.inl (mem_append_right _ hi))
    omega
  have hslots : s.mOverflowSlots = [] := map_eq_nil_iff.mp hempty
  have hrec : (s.prepareForShrink n).recycledIds = s.recycledIds.filter (· < n) := by
    rw [recycledIds, recycledIds, SlotAllocator.prepareForShrink, filter_map]
    rfl
  have hover : (s.prepareForShrink n).overflowIds = s.recycledIds.filter fun i =>
    !decide (i < n) := by
    rw [overflowIds, recycledIds, SlotAllocator.prepareForShrink, hslots, nil_append, filter_map]
    congr 1
    refine filter_congr fun r _ => ?_
    rw [Function.comp_apply, decide_not]
  have hperm : ((s.prepareForShrink n).recycledIds ++ (s.prepareForShrink n).overflowIds).Perm
      (s.recycledIds ++ s.overflowIds) := by
    rw [hrec, hover, hempty, append_nil]
    exact filter_append_perm _ _
  refine ⟨hn.le, h.active_le, ?_, h.covers, h.counted, hperm.nodup_iff.mpr h.nodup, ?_, ?_, ?_, ?_⟩
  · show countP _ (s.mRecycledSlots.take _) ≤ (s.mRecycledSlots.filter _).length
    rw [← countP_eq_length_filter]
    exact (take_sublist _ _).countP_le
  · intro i hi
    rw [hrec, mem_filter] at hi
    exact of_decide_eq_true hi.2
  · intro i hi
    rw [hover, mem_filter] at hi
    have := hi.2
    simp only [Bool.not_eq_true', decide_eq_false_iff_not, not_lt] at this
    exact this
  · intro i
    rw [hperm.mem_iff]
    exact h.issued i
  · intro i hi
    rw [hperm.mem_iff]
    exact h.free i hi

lemma mem_getSlotsBlockingShrink :
    i ∈ s.getSlotsBlockingShrink ↔ i ∈ s.occupied ∧ s.mTargetCapacity ≤ i := by
  have htarget := h.target_le
  have hactive := h.active_le
  rw [getSlotsBlockingShrink, mem_filter, DynamicBitset.get_iff, mem_range'_1]
  constructor
  · rintro ⟨⟨hle, -⟩, hocc⟩
    exact ⟨hocc, hle⟩
  · rintro ⟨hocc, hle⟩
    have := h.lt_active hocc
    exact ⟨⟨hle, by omega⟩, hocc⟩

/-- The issued ids from the target on are the overflow ids and the blocking ones. -/
lemma Ok.length_overflow :
    s.mOverflowSlots.length + (s.occupied.filter (s.mTargetCapacity ≤ ·)).card
      = s.mNumActiveSlots - s.mTargetCapacity := by
  have hnodup : s.overflowIds.Nodup := (nodup_append.mp h.nodup).2.1
  have hunion : s.overflowIds.toFinset ∪ s.occupied.filter (s.mTargetCapacity ≤ ·)
      = Finset.Ico s.mTargetCapacity s.mNumActiveSlots := by
    ext i
    rw [Finset.mem_union, mem_toFinset, Finset.mem_filter, Finset.mem_Ico, h.issued i, mem_append]
    constructor
    · rintro (hi | ⟨hi, hle⟩)
      · exact ⟨h.overflow_ge i hi, .inl (.inr hi)⟩
      · exact ⟨hle, .inr hi⟩
    · rintro ⟨hle, (hi | hi) | hi⟩
      · have := h.recycled_lt i hi
        omega
      · exact .inl hi
      · exact .inr ⟨hi, hle⟩
  have hdisjoint : Disjoint s.overflowIds.toFinset (s.occupied.filter (s.mTargetCapacity ≤ ·)) := by
    rw [Finset.disjoint_left]
    intro i hi hocc
    exact h.free i (Finset.mem_filter.mp hocc).1
      (mem_append_right _ (mem_toFinset.mp hi))
  rw [← Nat.card_Ico, ← hunion, Finset.card_union_of_disjoint hdisjoint,
    toFinset_card_of_nodup hnodup, overflowIds, length_map]

/-- The condition of `finishShrink` is that nothing blocks it. -/
lemma Ok.overflow_iff :
    s.mOverflowSlots.length = s.mNumActiveSlots - s.mTargetCapacity ↔
      s.getSlotsBlockingShrink = [] := by
  have hlen := h.length_overflow
  rw [← hlen, Nat.left_eq_add, Finset.card_eq_zero, Finset.filter_eq_empty_iff,
    eq_nil_iff_forall_not_mem]
  refine ⟨fun hall i hi => ?_, fun hall i hi hle => ?_⟩
  · obtain ⟨hocc, hle⟩ := (mem_getSlotsBlockingShrink h).mp hi
    exact hall hocc hle
  · exact hall i ((mem_getSlotsBlockingShrink h).mpr ⟨hi, hle⟩)

/-- **`finishShrink`** of a pending shrink that nothing blocks. -/
lemma Ok.finishShrink (hphase : s.shrinkInProgress = true)
    (hblock : s.getSlotsBlockingShrink = []) (ready : ℕ → Bool) :
    ∃ s', s.finishShrink ready = (.ok (), s') ∧ s'.Ok ∧ s'.mCapacity = s.mTargetCapacity
      ∧ s'.mNumActiveSlots = min s.mNumActiveSlots s.mTargetCapacity
      ∧ s'.mTargetCapacity = s.mTargetCapacity ∧ s'.occupied = s.occupied := by
  rw [SlotAllocator.finishShrink]
  rw [if_pos ⟨hphase, h.overflow_iff.mpr hblock⟩]
  refine ⟨_, rfl, Ok.scrubEvents ?_ ready, rfl, rfl, rfl, rfl⟩
  have hlow : ∀ i ∈ s.occupied, i < s.mTargetCapacity := by
    intro i hi
    by_contra hle
    have := (mem_getSlotsBlockingShrink h).mpr ⟨hi, by omega⟩
    rw [hblock] at this
    cases this
  have hnodup : (s.recycledIds ++ []).Nodup := by
    rw [append_nil]
    exact (nodup_append.mp h.nodup).1
  refine ⟨Nat.le_refl _, Nat.min_le_right _ _, h.ready_le, ?_, h.counted, hnodup, h.recycled_lt, ?_,
    ?_, ?_⟩
  · exact h.target_le.trans h.covers
  · intro i hi
    cases hi
  · intro i
    show i < min s.mNumActiveSlots s.mTargetCapacity ↔ i ∈ s.recycledIds ++ [] ∨ i ∈ s.occupied
    rw [append_nil, Nat.lt_min, h.issued i, mem_append]
    constructor
    · rintro ⟨(hi | hi) | hi, hlt⟩
      · exact .inl hi
      · have := h.overflow_ge i hi
        omega
      · exact .inr hi
    · rintro (hi | hi)
      · exact ⟨.inl (.inl hi), h.recycled_lt i hi⟩
      · exact ⟨.inr hi, hlow i hi⟩
  · intro i hi hmem
    have hmem : i ∈ s.recycledIds ++ [] := hmem
    rw [append_nil] at hmem
    exact h.free i hi (mem_append_left _ hmem)

lemma Ok.finishShrink_blocked (hblock : s.getSlotsBlockingShrink ≠ []) (ready : ℕ → Bool) :
    s.finishShrink ready = (.error .cannotFinishShrink, s) := by
  rw [SlotAllocator.finishShrink]
  exact if_neg fun hc => hblock (h.overflow_iff.mp hc.2)

/-- The debug check of the allocator never fails. -/
theorem Ok.check : s.check = true := by
  have hunion : (s.recycledIds ++ s.overflowIds).toFinset ∪ s.occupied
      = Finset.range s.mNumActiveSlots := by
    ext i
    rw [Finset.mem_union, mem_toFinset, Finset.mem_range, h.issued i]
  have hdisjoint : Disjoint (s.recycledIds ++ s.overflowIds).toFinset s.occupied := by
    rw [Finset.disjoint_left]
    intro i hi hocc
    exact h.free i hocc (mem_toFinset.mp hi)
  have hcount : s.mRecycledSlots.length + s.mOverflowSlots.length + s.numOccupiedSlots
      = s.mNumActiveSlots := by
    calc s.mRecycledSlots.length + s.mOverflowSlots.length + s.numOccupiedSlots
        = (s.recycledIds ++ s.overflowIds).toFinset.card + s.occupied.card := by
          rw [toFinset_card_of_nodup h.nodup, length_append, recycledIds, overflowIds,
            length_map, length_map, numOccupiedSlots, h.counted]
          rfl
      _ = s.mNumActiveSlots := by
          rw [← Finset.card_union_of_disjoint hdisjoint, hunion, Finset.card_range]
  have hover : ∀ r ∈ s.mOverflowSlots, s.mTargetCapacity ≤ r.slotId ∧ r.slotId < s.mCapacity := by
    intro r hr
    have hmem : r.slotId ∈ s.overflowIds := mem_map_of_mem hr
    have := (h.issued _).mpr (.inl (mem_append_right s.recycledIds hmem))
    exact ⟨h.overflow_ge _ hmem, this.trans_le h.active_le⟩
  have hphase : s.shrinkInProgress = true ∨ s.mOverflowSlots = [] := by
    rw [shrinkInProgress, decide_eq_true_iff]
    by_cases hlt : s.mTargetCapacity < s.mCapacity
    · exact .inl hlt
    · refine .inr (eq_nil_iff_forall_not_mem.mpr fun r hr => ?_)
      have := hover r hr
      omega
  simp only [SlotAllocator.check, Bool.and_eq_true, Bool.or_eq_true, decide_eq_true_iff,
    List.isEmpty_iff, all_eq_true]
  exact ⟨⟨⟨⟨h.active_le, h.target_le⟩, hphase⟩, hover⟩, hcount⟩

end

/-! ### Runs -/

/-- The calls of the allocator, with the answers of their event queries. -/
inductive Call where
  | allocate (ready : ℕ → Bool)
  | allocateMultiple (ready : ℕ → ℕ → Bool) (numSlots : ℤ)
  | release (ready : ℕ → Bool) (slotId : Option ℤ) (event : ℕ)
  | expand (newNumSlots : ℕ)
  | prepareForShrink (newNumSlots : ℕ)
  | finishShrink (ready : ℕ → Bool)

/-- The preconditions of the calls: a resize starts when no shrink is pending, in its own
direction, and a shrink is finished when one is. -/
def Call.Allowed (s : SlotAllocator) : Call → Prop
  | expand n => s.mTargetCapacity = s.mCapacity ∧ s.mCapacity < n
  | prepareForShrink n => s.mTargetCapacity = s.mCapacity ∧ n < s.mCapacity
  | finishShrink _ => s.shrinkInProgress = true
  | _ => True

/-- The state after a call. -/
def step (s : SlotAllocator) : Call → SlotAllocator
  | .allocate ready => (s.allocate ready).2
  | .allocateMultiple ready n => (s.allocateMultiple ready n).2
  | .release ready slotId event => (s.release ready slotId event).2
  | .expand n => s.expand n
  | .prepareForShrink n => s.prepareForShrink n
  | .finishShrink ready => (s.finishShrink ready).2

/-- The ids that were issued so far, less those that a finished shrink took away. -/
def issuedAfter (s : SlotAllocator) (issued : Finset ℕ) : Call → Finset ℕ
  | .allocate ready =>
    match (s.allocate ready).1 with
    | .ok slot => insert slot.slotId issued
    | .error _ => issued
  | .allocateMultiple ready n =>
    match (s.allocateMultiple ready n).1 with
    | .ok slots => slotIds slots ∪ issued
    | .error _ => issued
  | .finishShrink ready =>
    match (s.finishShrink ready).1 with
    | .ok _ => issued.filter (· < (s.finishShrink ready).2.mCapacity)
    | .error _ => issued
  | .release .. => issued
  | .expand _ => issued
  | .prepareForShrink _ => issued

/-- The states that a sequence of calls can reach from a new allocator, each call in a phase
where its precondition holds, with the ids issued. -/
inductive Reachable (capacity : ℕ) : SlotAllocator → Finset ℕ → Prop
  | new : Reachable capacity (ofCapacity capacity) ∅
  | call {s : SlotAllocator} {issued : Finset ℕ} (h : Reachable capacity s issued) {c : Call}
      (hc : c.Allowed s) : Reachable capacity (s.step c) (s.issuedAfter issued c)

/-- **One call** keeps the invariant and the count of the ids issued. -/
lemma Ok.step (h : s.Ok) {c : Call} (hc : c.Allowed s) :
    (s.step c).Ok ∧ s.issuedAfter (Finset.range s.mNumActiveSlots) c
      = Finset.range (s.step c).mNumActiveSlots := by
  cases c with
  | allocate ready =>
    rw [SlotAllocator.step, issuedAfter]
    by_cases hfree : s.numFreeSlots = 0
    · rw [SlotAllocator.allocate, if_pos hfree]
      exact ⟨h, rfl⟩
    · obtain ⟨slot, s', heq, ha⟩ := h.allocate ready (Nat.pos_of_ne_zero hfree)
      rw [heq]
      exact ⟨ha.ok, ha.issued⟩
  | allocateMultiple ready n =>
    rw [SlotAllocator.step, issuedAfter]
    rcases h.allocateMultiple ready n with ⟨-, -, slots, s', heq, hok, hissued⟩ | ⟨-, e, heq⟩
    · rw [heq]
      exact ⟨hok, hissued⟩
    · rw [heq]
      exact ⟨h, rfl⟩
  | release ready slotId event =>
    rw [SlotAllocator.step, issuedAfter]
    by_cases hid : ∀ i : ℕ, slotId = some (i : ℤ) → i ∉ s.occupied
    · rw [release_rejected ready event hid]
      exact ⟨h, rfl⟩
    · push Not at hid
      obtain ⟨i, rfl, hi⟩ := hid
      obtain ⟨s', heq, hok, hactive, -⟩ := h.release ready hi event
      rw [heq]
      exact ⟨hok, by rw [hactive]⟩
  | expand n => exact ⟨h.expand hc.1 hc.2, rfl⟩
  | prepareForShrink n => exact ⟨h.prepareForShrink hc.1 hc.2, rfl⟩
  | finishShrink ready =>
    rw [SlotAllocator.step, issuedAfter]
    by_cases hblock : s.getSlotsBlockingShrink = []
    · obtain ⟨s', heq, hok, hcap, hactive, -⟩ := h.finishShrink hc hblock ready
      rw [heq]
      refine ⟨hok, ?_⟩
      ext i
      rw [Finset.mem_filter, Finset.mem_range, Finset.mem_range, hcap, hactive, Nat.lt_min]
    · rw [h.finishShrink_blocked hblock]
      exact ⟨h, rfl⟩

/-- **Every reachable state** satisfies the invariant, and the ids issued are the first
`mNumActiveSlots`. -/
lemma Reachable.ok {capacity : ℕ} {issued : Finset ℕ}
    (h : Reachable capacity s issued) : s.Ok ∧ issued = Finset.range s.mNumActiveSlots := by
  induction h with
  | new => exact ⟨ok_ofCapacity capacity, rfl⟩
  | call _ hc ih =>
    obtain ⟨hok, rfl⟩ := ih
    exact hok.step hc

/-- What is promised of a state and of the calls on it. -/
structure Safe (s : SlotAllocator) (issued : Finset ℕ) : Prop where
  issued_eq : issued = Finset.range s.mNumActiveSlots
  partition : ∀ i, i ∈ issued ↔ i ∈ s.recycledIds ∨ i ∈ s.overflowIds ∨ i ∈ s.occupied
  disjoint : ∀ i ∈ s.occupied, i ∉ s.recycledIds ∧ i ∉ s.overflowIds
  nodup : (s.recycledIds ++ s.overflowIds).Nodup
  recycled : ∀ i ∈ s.recycledIds, i < s.mTargetCapacity
  overflow : ∀ i ∈ s.overflowIds, s.mTargetCapacity ≤ i ∧ i < s.mCapacity
  allocate : ∀ ready slot s', s.allocate ready = (.ok slot, s') →
    slot.slotId ∉ s.occupied ∧ slot.slotId < s.mTargetCapacity
  allocateMultiple : ∀ ready (n : ℤ), 0 ≤ n →
    ((∃ slots s', s.allocateMultiple ready n = (.ok slots, s')) ↔ n ≤ s.numFreeSlots)
  allocateMultiple_error : ∀ ready n e s', s.allocateMultiple ready n = (.error e, s') → s' = s
  release : ∀ ready slotId event, (∀ i : ℕ, slotId = some (i : ℤ) → i ∉ s.occupied) →
    s.release ready slotId event = (.error .logic, s)
  finishShrink : s.shrinkInProgress = true → ∀ ready,
    ((∃ s', s.finishShrink ready = (.ok (), s')) ↔ s.getSlotsBlockingShrink = [])
  finished : ∀ ready s', s.finishShrink ready = (.ok (), s') → s'.mCapacity = s.mTargetCapacity
    ∧ ∀ i, i ∈ s'.recycledIds ∨ i ∈ s'.overflowIds ∨ i ∈ s'.occupied → i < s'.mCapacity

/-- **The slot allocator**: after any sequence of calls, each in a phase where its precondition
holds, the ids issued are parted into recycled, overflow and occupied ones, no call hands out an
occupied id or one beyond the target, and a call that fails changes nothing. -/
theorem slotAllocator_safe {capacity : ℕ} {s : SlotAllocator} {issued : Finset ℕ}
    (hreach : Reachable capacity s issued) : s.Safe issued := by
  obtain ⟨h, hissued⟩ := hreach.ok
  refine ⟨hissued, fun i => ?_, fun i hi => ?_, h.nodup, h.recycled_lt, fun i hi => ?_, ?_, ?_, ?_,
    ?_, ?_, ?_⟩
  · rw [hissued, Finset.mem_range, h.issued i, mem_append, or_assoc]
  · exact not_or.mp fun hmem => h.free i hi (mem_append.mpr hmem)
  · have := (h.issued i).mpr (.inl (mem_append_right _ hi))
    exact ⟨h.overflow_ge i hi, this.trans_le h.active_le⟩
  · intro ready slot s' heq
    have hfree : 0 < s.numFreeSlots := by
      by_contra hzero
      rw [SlotAllocator.allocate, if_pos (by omega)] at heq
      cases heq
    obtain ⟨slot', s'', heq', ha⟩ := h.allocate ready hfree
    rw [heq'] at heq
    cases heq
    exact ⟨ha.fresh, ha.lt_target⟩
  · intro ready n hn
    rcases h.allocateMultiple ready n with ⟨-, hle, slots, s', heq, -, -⟩ | ⟨hnot, e, heq⟩
    · exact ⟨fun _ => hle, fun _ => ⟨slots, s', heq⟩⟩
    · refine ⟨?_, fun hle => absurd ⟨hn, hle⟩ hnot⟩
      rintro ⟨slots, s', heq'⟩
      rw [heq] at heq'
      cases heq'
  · intro ready n e s' heq
    rcases h.allocateMultiple ready n with ⟨-, -, slots, s'', heq', -, -⟩ | ⟨-, e', heq'⟩
    · rw [heq'] at heq
      cases heq
    · rw [heq'] at heq
      cases heq
      rfl
  · intro ready slotId event hid
    exact release_rejected ready event hid
  · intro hphase ready
    constructor
    · rintro ⟨s', heq⟩
      by_contra hblock
      rw [h.finishShrink_blocked hblock] at heq
      cases heq
    · intro hblock
      obtain ⟨s', heq, -⟩ := h.finishShrink hphase hblock ready
      exact ⟨s', heq⟩
  · intro ready s' heq
    have hcond : s.shrinkInProgress = true
        ∧ s.mOverflowSlots.length = s.mNumActiveSlots - s.mTargetCapacity := by
      by_contra hnot
      rw [SlotAllocator.finishShrink, if_neg hnot] at heq
      cases heq
    obtain ⟨s'', heq', hok, hcap, -⟩ := h.finishShrink hcond.1 (h.overflow_iff.mp hcond.2) ready
    rw [heq'] at heq
    cases heq
    refine ⟨hcap, fun i hi => ?_⟩
    have := (hok.issued i).mpr (by rw [mem_append, or_assoc]; exact hi)
    exact this.trans_le hok.active_le

/-- Three slots are issued and the pool shrinks to two; the third blocks the shrink until it is
released. -/
theorem slotAllocator_safe_shrinking :
    let s := ((((ofCapacity 4).step (.allocateMultiple (fun _ _ => true) 3)).step
      (.prepareForShrink 2)).step (.release (fun _ => true) (some 0) 7))
    s.getSlotsBlockingShrink = [2] ∧ s.numFreeSlots = 1 ∧ s.Safe {0, 1, 2} := by
  refine ⟨by decide, by decide, ?_⟩
  have hreach := Reachable.call (c := .release (fun _ => true) (some 0) 7)
    (Reachable.call (c := .prepareForShrink 2)
      (Reachable.call (c := .allocateMultiple (fun _ _ => true) 3) (.new : Reachable 4 _ _) trivial)
      (by decide : (4 : ℕ) = 4 ∧ 2 < 4)) trivial
  have hissued : issuedAfter (ofCapacity 4) ∅ (.allocateMultiple (fun _ _ => true) 3)
      = {0, 1, 2} := by
    decide
  rw [hissued] at hreach
  exact slotAllocator_safe hreach

/-- **The debug check** passes in every state of every run. -/
theorem check_of_reachable {capacity : ℕ} {s : SlotAllocator} {issued : Finset ℕ}
    (hreach : Reachable capacity s issued) : s.check = true := hreach.ok.1.check

/-- All four slots are issued and the pool shrinks to two; slot 0 is given back to the recycled
slots and slot 3 to the overflowing ones, and the other two are still occupied. -/
theorem check_shrinking :
    let s := ((((ofCapacity 4).step (.allocateMultiple (fun _ _ => true) 4)).step
      (.prepareForShrink 2)).step (.release (fun _ => true) (some 0) 7)).step
        (.release (fun _ => true) (some 3) 7)
    (s.mRecycledSlots.map Slot.slotId = [0] ∧ s.mOverflowSlots.map Slot.slotId = [3]
      ∧ s.occupied = {1, 2}) ∧ s.check = true := by
  refine ⟨by decide, ?_⟩
  exact check_of_reachable (.call (c := .release (fun _ => true) (some 3) 7)
    (.call (c := .release (fun _ => true) (some 0) 7) (.call (c := .prepareForShrink 2)
      (.call (c := .allocateMultiple (fun _ _ => true) 4) (.new : Reachable 4 _ _) trivial)
      (by decide : (4 : ℕ) = 4 ∧ 2 < 4)) trivial) trivial)

end TrtLlm.SlotAllocator
