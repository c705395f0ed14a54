import TrtLlm.KvCacheV2.DynamicBitset

/-!
`SlotAllocator`: the slot ids of a pool, with a shrink in two phases (`storage/core.cpp`).

Free ids are recycled or were never issued; while a shrink is pending, the ids at or above the
target capacity go to the overflow list when they are released.  Events are numbers, and each
call is given the answers of the queries it makes.

* `Ok`: the ids that were issued are recycled, in the overflow list or occupied, each once;
* `Ok.allocate`, `Ok.allocateMultiple`: an allocation keeps it.
-/

namespace TrtLlm

open List

/-- `Slot`, with a valid id. -/
structure Slot where
  slotId : ℕ
  readyEvent : ℕ
deriving DecidableEq, Repr

/-- The exceptions of the allocator; `emptyDeque` stands for a `front()` without an element. -/
inductive SlotError where
  | outOfPages
  | logic
  | cannotFinishShrink
  | emptyDeque
deriving DecidableEq, Repr

/-- `SlotAllocator`. -/
structure SlotAllocator where
  mCapacity : ℕ
  mTargetCapacity : ℕ
  mNumActiveSlots : ℕ
  mNumReadyRecycledSlots : ℕ
  mRecycledSlots : List Slot
  mOverflowSlots : List Slot
  mOccupiedMask : DynamicBitset
deriving DecidableEq

namespace SlotAllocator

/-- The constructor. -/
def ofCapacity (capacity : ℕ) : SlotAllocator :=
  { mCapacity := capacity, mTargetCapacity := capacity, mNumActiveSlots := 0
    mNumReadyRecycledSlots := 0, mRecycledSlots := [], mOverflowSlots := []
    mOccupiedMask := .ofCapacity capacity }

def numFreeSlots (s : SlotAllocator) : ℕ :=
  let inactiveSlots :=
    if s.mNumActiveSlots < s.mTargetCapacity then s.mTargetCapacity - s.mNumActiveSlots else 0
  s.mRecycledSlots.length + inactiveSlots

def numOccupiedSlots (s : SlotAllocator) : ℕ := s.mOccupiedMask.mNumSetBits

def shrinkInProgress (s : SlotAllocator) : Bool := s.mTargetCapacity < s.mCapacity

/-- `scrubEvents`: the recycled slots after the ready ones whose event is complete, up to the
first that is not. -/
def scrubEvents (ready : ℕ → Bool) (s : SlotAllocator) : SlotAllocator :=
  { s with
    mNumReadyRecycledSlots := s.mNumReadyRecycledSlots
      + ((s.mRecycledSlots.drop s.mNumReadyRecycledSlots).takeWhile fun r =>
        ready r.readyEvent).length }

/-- The end of `allocate`. -/
def occupy (s : SlotAllocator) (slot : Slot) : Except SlotError Slot × SlotAllocator :=
  (.ok slot, { s with mOccupiedMask := s.mOccupiedMask.set slot.slotId })

/-- The first recycled slot, taken out of the list. -/
def takeRecycled (s : SlotAllocator) (numReady : ℕ) : Except SlotError Slot × SlotAllocator :=
  match s.mRecycledSlots with
  | [] => (.error .emptyDeque, s)
  | slot :: rest =>
    occupy { s with mRecycledSlots := rest, mNumReadyRecycledSlots := numReady } slot

/-- `allocate`; a slot that was never used has the null event, number zero. -/
def allocate (ready : ℕ → Bool) (s : SlotAllocator) : Except SlotError Slot × SlotAllocator :=
  if s.numFreeSlots = 0 then (.error .outOfPages, s)
  else
    let s := s.scrubEvents ready
    if 0 < s.mNumReadyRecycledSlots then s.takeRecycled (s.mNumReadyRecycledSlots - 1)
    else if s.mNumActiveSlots < min s.mCapacity s.mTargetCapacity then
      occupy { s with mNumActiveSlots := s.mNumActiveSlots + 1 } ⟨s.mNumActiveSlots, 0⟩
    else s.takeRecycled s.mNumReadyRecycledSlots

/-- The loop of `allocateMultiple`. -/
def allocateLoop (ready : ℕ → ℕ → Bool) :
    ℕ → List Slot → SlotAllocator → Except SlotError (List Slot) × SlotAllocator
  | 0, result, s => (.ok result, s)
  | n + 1, result, s =>
    match s.allocate (ready n) with
    | (.ok slot, s) => allocateLoop ready n (result ++ [slot]) s
    | (.error e, s) => (.error e, s)

def allocateMultiple (ready : ℕ → ℕ → Bool) (numSlots : ℤ) (s : SlotAllocator) :
    Except SlotError (List Slot) × SlotAllocator :=
  if numSlots < 0 then (.error .logic, s)
  else if (s.numFreeSlots : ℤ) < numSlots then (.error .outOfPages, s)
  else allocateLoop ready numSlots.toNat [] s

/-- `release` of a slot that has the given id, if any, and the event of its last use. -/
def release (ready : ℕ → Bool) (slotId : Option ℤ) (event : ℕ) (s : SlotAllocator) :
    Except SlotError Unit × SlotAllocator :=
  match slotId with
  | none => (.error .logic, s)
  | some id =>
    if ¬ (0 ≤ id ∧ id < s.mCapacity) ∨ ¬ s.mOccupiedMask.get id.toNat then (.error .logic, s)
    else
      let s := { s with mOccupiedMask := s.mOccupiedMask.clear id.toNat }
      let s :=
        if id < s.mTargetCapacity then
          { s with mRecycledSlots := s.mRecycledSlots ++ [Slot.mk id.toNat event] }
        else { s with mOverflowSlots := s.mOverflowSlots ++ [Slot.mk id.toNat event] }
      (.ok (), s.scrubEvents ready)

def expand (newNumSlots : ℕ) (s : SlotAllocator) : SlotAllocator :=
  { s with
    mOccupiedMask := s.mOccupiedMask.resize newNumSlots
    mCapacity := newNumSlots
    mTargetCapacity := newNumSlots }

def prepareForShrink (newNumSlots : ℕ) (s : SlotAllocator) : SlotAllocator :=
  { s with
    mRecycledSlots := s.mRecycledSlots.filter fun r => r.slotId < newNumSlots
    mOverflowSlots := s.mOverflowSlots ++ s.mRecycledSlots.filter fun r => ¬ r.slotId < newNumSlots
    mNumReadyRecycledSlots :=
      (s.mRecycledSlots.take s.mNumReadyRecycledSlots).countP fun r => r.slotId < newNumSlots
    mTargetCapacity := newNumSlots }

def finishShrink (ready : ℕ → Bool) (s : SlotAllocator) : Except SlotError Unit × SlotAllocator :=
  let expectedOverflow := s.mNumActiveSlots - s.mTargetCapacity
  if s.shrinkInProgress ∧ s.mOverflowSlots.length = expectedOverflow then
    let s :=
      { s with
        mOverflowSlots := []
        mCapacity := s.mTargetCapacity
        mNumActiveSlots := min s.mNumActiveSlots s.mTargetCapacity }
    (.ok (), s.scrubEvents ready)
  else (.error .cannotFinishShrink, s)

section

variable (s : SlotAllocator)

def getSlotsBlockingShrink : List ℕ :=
  (range' s.mTargetCapacity (s.mCapacity - s.mTargetCapacity)).filter s.mOccupiedMask.get

/-- The debug check of the allocator. -/
def check : Bool :=
  s.mNumActiveSlots ≤ s.mCapacity
    && s.mTargetCapacity ≤ s.mCapacity
    && (s.shrinkInProgress || s.mOverflowSlots.isEmpty)
    && s.mOverflowSlots.all (fun r => s.mTargetCapacity ≤ r.slotId && r.slotId < s.mCapacity)
    && s.mRecycledSlots.length + s.mOverflowSlots.length + s.numOccupiedSlots = s.mNumActiveSlots

/-! ### The partition of the ids -/

/-- The ids of the recycled slots. -/
def recycledIds : List ℕ := s.mRecycledSlots.map Slot.slotId

/-- The ids of the overflow slots. -/
def overflowIds : List ℕ := s.mOverflowSlots.map Slot.slotId

/-- The ids that are in use. -/
def occupied : Finset ℕ := s.mOccupiedMask.bits

end

/-- The invariant of the allocator. -/
structure Ok (s : SlotAllocator) : Prop where
  target_le : s.mTargetCapacity ≤ s.mCapacity
  active_le : s.mNumActiveSlots ≤ s.mCapacity
  ready_le : s.mNumReadyRecycledSlots ≤ s.mRecycledSlots.length
  covers : s.mOccupiedMask.Covers s.mCapacity
  counted : s.mOccupiedMask.Counted
  nodup : (s.recycledIds ++ s.overflowIds).Nodup
  recycled_lt : ∀ i ∈ s.recycledIds, i < s.mTargetCapacity
  overflow_ge : ∀ i ∈ s.overflowIds, s.mTargetCapacity ≤ i
  issued : ∀ i, i < s.mNumActiveSlots ↔ i ∈ s.recycledIds ++ s.overflowIds ∨ i ∈ s.occupied
  free : ∀ i ∈ s.occupied, i ∉ s.recycledIds ++ s.overflowIds

variable {i n : ℕ} {s : SlotAllocator}

lemma ok_ofCapacity (capacity : ℕ) : (ofCapacity capacity).Ok where
  target_le := Nat.le_refl _
  active_le := Nat.zero_le _
  ready_le := Nat.le_refl _
  covers := DynamicBitset.covers_ofCapacity capacity
  counted := DynamicBitset.counted_ofCapacity capacity
  nodup := nodup_nil
  recycled_lt := by simp [recycledIds, ofCapacity]
  overflow_ge := by simp [overflowIds, ofCapacity]
  issued := by
    simp [recycledIds, overflowIds, occupied, ofCapacity, DynamicBitset.bits_ofCapacity]
  free := by
    simp [occupied, ofCapacity, DynamicBitset.bits_ofCapacity]

/-- More slots known to be ready. -/
lemma Ok.scrubEvents (h : s.Ok) (ready : ℕ → Bool) : (s.scrubEvents ready).Ok := by
  refine ⟨h.target_le, h.active_le, ?_, h.covers, h.counted, h.nodup, h.recycled_lt, h.overflow_ge,
    h.issued, h.free⟩
  have hle := h.ready_le
  have hwhile := ( takeWhile_prefix (fun r : Slot => ready r.readyEvent)
    (l := s.mRecycledSlots.drop s.mNumReadyRecycledSlots)).length_le
  rw [length_drop] at hwhile
  simp only [SlotAllocator.scrubEvents]
  omega

/-! ### Allocation -/

lemma numFreeSlots_eq (s : SlotAllocator) :
    s.numFreeSlots = s.mRecycledSlots.length + (s.mTargetCapacity - s.mNumActiveSlots) := by
  rw [numFreeSlots]
  split_ifs <;> omega

/-- What an allocation does: it returns an id that was free and below the target, occupies it,
and keeps the bounds. -/
structure Allocated (s : SlotAllocator) (slot : Slot) (s' : SlotAllocator) : Prop where
  ok : s'.Ok
  fresh : slot.slotId ∉ s.occupied
  lt_target : slot.slotId < s.mTargetCapacity
  occupied : s'.occupied = insert slot.slotId s.occupied
  target : s'.mTargetCapacity = s.mTargetCapacity
  capacity : s'.mCapacity = s.mCapacity
  numFree : s'.numFreeSlots + 1 = s.numFreeSlots
  issued : insert slot.slotId (Finset.range s.mNumActiveSlots) = Finset.range s'.mNumActiveSlots

/-- A recycled slot. -/
lemma Ok.takeRecycled (h : s.Ok) {slot : Slot} {rest : List Slot}
    (hrec : s.mRecycledSlots = slot :: rest) {numReady : ℕ} (hready : numReady ≤ rest.length) :
    ∃ s', s.takeRecycled numReady = (.ok slot, s') ∧ s.Allocated slot s' := by
  have hids : s.recycledIds = slot.slotId :: rest.map Slot.slotId := by
    rw [recycledIds, hrec, map_cons]
  have hmem : slot.slotId ∈ s.recycledIds := hids ▸ mem_cons_self
  have hlt := h.recycled_lt _ hmem
  have hfresh : slot.slotId ∉ s.occupied := fun hocc =>
    h.free _ hocc (mem_append_left _ hmem)
  have hbits : (s.mOccupiedMask.set slot.slotId).bits = insert slot.slotId s.occupied := by
    refine DynamicBitset.bits_set ?_
    have := h.covers
    have := h.target_le
    rw [DynamicBitset.Covers] at *
    omega
  have hnodup := h.nodup
  rw [hids, cons_append, nodup_cons] at hnodup
  have htake : s.takeRecycled numReady
      = occupy { s with mRecycledSlots := rest, mNumReadyRecycledSlots := numReady } slot := by
    rw [SlotAllocator.takeRecycled, hrec]
  refine ⟨_, htake, ⟨h.target_le, h.active_le, hready, ?_, ?_, hnodup.2, ?_, h.overflow_ge, ?_, ?_⟩,
    hfresh, hlt, hbits, rfl, rfl, ?_, ?_⟩
  · have := h.covers
    rw [DynamicBitset.Covers] at this ⊢
    rwa [DynamicBitset.length_mWords_set]
  · refine h.counted.set ?_
    have := h.covers
    have := h.target_le
    rw [DynamicBitset.Covers] at *
    omega
  · intro i hi
    exact h.recycled_lt i (hids ▸ mem_cons_of_mem _ hi)
  · intro i
    rw [h.issued i, hids, cons_append, mem_cons]
    show _ ↔ i ∈ rest.map Slot.slotId ++ s.overflowIds ∨ i ∈ (s.mOccupiedMask.set slot.slotId).bits
    rw [hbits, Finset.mem_insert]
    tauto
  · intro i hi
    have hi : i ∈ (s.mOccupiedMask.set slot.slotId).bits := hi
    rw [hbits, Finset.mem_insert] at hi
    rcases hi with rfl | hi
    · exact hnodup.1
    · intro hmem'
      refine h.free i hi ?_
      rw [hids, cons_append]
      exact mem_cons_of_mem _ hmem'
  · rw [numFreeSlots_eq, numFreeSlots_eq, hrec, length_cons]
    show rest.length + (s.mTargetCapacity - s.mNumActiveSlots) + 1 = _
    omega
  · refine Finset.insert_eq_of_mem (Finset.mem_range.mpr ?_)
    exact (h.issued _).mpr (.inl (mem_append_left _ hmem))

/-- An id that was never issued. -/
lemma Ok.issue (h : s.Ok) (hlt : s.mNumActiveSlots < s.mTargetCapacity) :
    s.Allocated ⟨s.mNumActiveSlots, 0⟩
      (occupy { s with mNumActiveSlots := s.mNumActiveSlots + 1 } ⟨s.mNumActiveSlots, 0⟩).2 := by
  have hnot : ¬ (s.mNumActiveSlots ∈ s.recycledIds ++ s.overflowIds
      ∨ s.mNumActiveSlots ∈ s.occupied) := by
    rw [← h.issued]
    exact Nat.lt_irrefl _
  push Not at hnot
  have hcover : s.mNumActiveSlots < 64 * s.mOccupiedMask.mWords.length := by
    have := h.covers
    have := h.target_le
    rw [DynamicBitset.Covers] at *
    omega
  have hbits : (s.mOccupiedMask.set s.mNumActiveSlots).bits = insert s.mNumActiveSlots s.occupied :=
    DynamicBitset.bits_set hcover
  refine ⟨⟨h.target_le, ?_, h.ready_le, ?_, h.counted.set hcover, h.nodup, h.recycled_lt,
    h.overflow_ge, ?_, ?_⟩, hnot.2, hlt, hbits, rfl, rfl, ?_, Finset.range_add_one.symm⟩
  · have := h.target_le
    show s.mNumActiveSlots + 1 ≤ s.mCapacity
    omega
  · have := h.covers
    rw [DynamicBitset.Covers] at this ⊢
    rwa [occupy, DynamicBitset.length_mWords_set]
  · intro i
    show i < s.mNumActiveSlots + 1 ↔ i ∈ s.recycledIds ++ s.overflowIds
      ∨ i ∈ (s.mOccupiedMask.set s.mNumActiveSlots).bits
    rw [hbits, Finset.mem_insert, Nat.lt_succ_iff_lt_or_eq, h.issued i]
    tauto
  · intro i hi
    have hi : i ∈ (s.mOccupiedMask.set s.mNumActiveSlots).bits := hi
    rw [hbits, Finset.mem_insert] at hi
    rcases hi with rfl | hi
    · exact hnot.1
    · exact h.free i hi
  · rw [numFreeSlots_eq, numFreeSlots_eq]
    show s.mRecycledSlots.length + (s.mTargetCapacity - (s.mNumActiveSlots + 1)) + 1 = _
    omega

/-- **`allocate`** succeeds exactly when there is a free slot. -/
lemma Ok.allocate (h : s.Ok) (ready : ℕ → Bool) (hfree : 0 < s.numFreeSlots) :
    ∃ slot s', s.allocate ready = (.ok slot, s') ∧ s.Allocated slot s' := by
  -- the scrub changes the number of ready slots only
  have hscrub : ∀ {slot s'}, (s.scrubEvents ready).Allocated slot s' → s.Allocated slot s' :=
    fun ha => ⟨ha.ok, ha.fresh, ha.lt_target, ha.occupied, ha.target, ha.capacity, ha.numFree,
      ha.issued⟩
  have hs := h.scrubEvents ready
  rw [SlotAllocator.allocate, if_neg (by omega)]
  dsimp only
  split_ifs with h1 h2
  · have hle := hs.ready_le
    obtain ⟨slot, rest, hrec⟩ := exists_cons_of_length_pos (h1.trans_le hle)
    rw [hrec, length_cons] at hle
    obtain ⟨s', heq, ha⟩ := hs.takeRecycled hrec
      (by omega : (s.scrubEvents ready).mNumReadyRecycledSlots - 1 ≤ rest.length)
    exact ⟨slot, s', heq, hscrub ha⟩
  · exact ⟨_, _, rfl, hscrub (hs.issue (by omega))⟩
  · have hpos : 0 < s.mRecycledSlots.length := by
      have htarget := h.target_le
      have hmin : ¬ s.mNumActiveSlots < min s.mCapacity s.mTargetCapacity := h2
      rw [numFreeSlots_eq] at hfree
      omega
    obtain ⟨slot, rest, hrec⟩ := exists_cons_of_length_pos hpos
    obtain ⟨s', heq, ha⟩ :=
      hs.takeRecycled (hrec : (s.scrubEvents ready).mRecycledSlots = slot :: rest)
      (by omega : (s.scrubEvents ready).mNumReadyRecycledSlots ≤ rest.length)
    exact ⟨slot, s', heq, hscrub ha⟩

/-- The free slots are those below the target that are not occupied. -/
lemma Ok.numFreeSlots_add (h : s.Ok) :
    s.numFreeSlots + (s.occupied.filter (· < s.mTargetCapacity)).card = s.mTargetCapacity := by
  have hrec : s.recycledIds.Nodup := (nodup_append.mp h.nodup).1
  have hunion : s.recycledIds.toFinset ∪ s.occupied.filter (· < s.mTargetCapacity)
      = Finset.range (min s.mNumActiveSlots s.mTargetCapacity) := by
    ext i
    rw [Finset.mem_union, mem_toFinset, Finset.mem_filter, Finset.mem_range, Nat.lt_min, h.issued i,
      mem_append]
    constructor
    · rintro (hi | ⟨hi, hlt⟩)
      · exact ⟨.inl (.inl hi), h.recycled_lt i hi⟩
      · exact ⟨.inr hi, hlt⟩
    · rintro ⟨(hi | hi) | hi, hlt⟩
      · exact .inl hi
      · exact absurd (h.overflow_ge i hi) (Nat.not_le.mpr hlt)
      · exact .inr ⟨hi, hlt⟩
  have hdisjoint : Disjoint s.recycledIds.toFinset (s.occupied.filter (· < s.mTargetCapacity)) := by
    rw [Finset.disjoint_left]
    intro i hi hocc
    exact h.free i (Finset.mem_filter.mp hocc).1 (mem_append_left _ (mem_toFinset.mp hi))
  have hcard := congrArg Finset.card hunion
  rw [Finset.card_union_of_disjoint hdisjoint, toFinset_card_of_nodup hrec, recycledIds,
    length_map, Finset.card_range] at hcard
  rw [numFreeSlots_eq]
  omega

/-- The ids of a list of slots. -/
def slotIds (slots : List Slot) : Finset ℕ := (slots.map Slot.slotId).toFinset

/-- The loop of `allocateMultiple`, with enough free slots for the turns that are left. -/
lemma Ok.allocateLoop (h : s.Ok) (ready : ℕ → ℕ → Bool) (hfree : n ≤ s.numFreeSlots)
    (result : List Slot)
    (hresult : slotIds result ⊆ Finset.range s.mNumActiveSlots) :
    ∃ slots s', SlotAllocator.allocateLoop ready n result s = (.ok slots, s') ∧ s'.Ok
      ∧ slotIds result ⊆ slotIds slots ∧ slotIds slots ∪ Finset.range s.mNumActiveSlots
        = Finset.range s'.mNumActiveSlots := by
  induction n generalizing s result with
  | zero => exact ⟨result, s, rfl, h, subset_rfl, Finset.union_eq_right.mpr hresult⟩
  | succ n ih =>
    obtain ⟨slot, s₁, heq, ha⟩ := h.allocate (ready n) (by omega)
    have hnum := ha.numFree
    have hids : slotIds (result ++ [slot]) = insert slot.slotId (slotIds result) := by
      ext i
      simp only [slotIds, map_append, toFinset_append, Finset.mem_union, Finset.mem_insert]
      simp [or_comm]
    have hsub : slotIds (result ++ [slot]) ⊆ Finset.range s₁.mNumActiveSlots := by
      rw [hids, ← ha.issued]
      exact Finset.insert_subset_insert _ hresult
    obtain ⟨slots, s', hloop, hok, hmono, hissued⟩ := ih ha.ok (by omega) (result ++ [slot]) hsub
    rw [hids, Finset.insert_subset_iff] at hmono
    refine ⟨slots, s', ?_, hok, hmono.2, ?_⟩
    · rw [SlotAllocator.allocateLoop, heq]
      exact hloop
    · rw [← hissued, ← ha.issued, Finset.union_insert,
        Finset.insert_eq_of_mem (Finset.mem_union_left _ hmono.1)]

/-- **`allocateMultiple`** succeeds exactly when there are enough free slots, and otherwise
leaves the allocator as it is. -/
lemma Ok.allocateMultiple (h : s.Ok) (ready : ℕ → ℕ → Bool) (n : ℤ) : (0 ≤ n ∧ n ≤ s.numFreeSlots
        ∧ ∃ slots s', s.allocateMultiple ready n = (.ok slots, s') ∧ s'.Ok
          ∧ slotIds slots ∪ Finset.range s.mNumActiveSlots = Finset.range s'.mNumActiveSlots)
      ∨ (¬ (0 ≤ n ∧ n ≤ s.numFreeSlots) ∧ ∃ e, s.allocateMultiple ready n = (.error e, s)) := by
  unfold SlotAllocator.allocateMultiple
  split_ifs with h1 h2
  · exact .inr ⟨by omega, _, rfl⟩
  · exact .inr ⟨by omega, _, rfl⟩
  · obtain ⟨slots, s', hloop, hok, -, hissued⟩ :=
      h.allocateLoop ready (by omega : n.toNat ≤ s.numFreeSlots) [] (Finset.empty_subset _)
    exact .inl ⟨by omega, by omega, slots, s', hloop, hok, hissued⟩

/-- What several allocations do: they return distinct ids that were free and below the target, and
occupy them. -/
structure AllocatedAll (s : SlotAllocator) (slots : List Slot) (s' : SlotAllocator) : Prop where
  ok : s'.Ok
  nodup : (slots.map Slot.slotId).Nodup
  fresh : ∀ slot ∈ slots, slot.slotId ∉ s.occupied ∧ slot.slotId < s.mTargetCapacity
  occupied : s'.occupied = s.occupied ∪ slotIds slots
  target : s'.mTargetCapacity = s.mTargetCapacity
  capacity : s'.mCapacity = s.mCapacity

section

variable (h : s.Ok) (ready : ℕ → ℕ → Bool) (hfree : n ≤ s.numFreeSlots)
include h hfree

lemma Ok.allocateLoop_fresh (result : List Slot) :
    ∃ slots s', SlotAllocator.allocateLoop ready n result s = (.ok (result ++ slots), s')
      ∧ slots.length = n ∧ s.AllocatedAll slots s' := by
  induction n generalizing s result with
  | zero =>
    refine ⟨[], s, by rw [append_nil]; rfl, rfl, h, nodup_nil, by simp, ?_, rfl, rfl⟩
    simp [slotIds]
  | succ n ih =>
    obtain ⟨slot, s₁, heq, ha⟩ := h.allocate (ready n) (by omega)
    have hnum := ha.numFree
    obtain ⟨slots, s', hloop, hlen, hall⟩ := ih ha.ok (by omega) (result ++ [slot])
    refine ⟨slot :: slots, s', ?_, by rw [length_cons, hlen], hall.ok, ?_, ?_, ?_, ?_, ?_⟩
    · rw [SlotAllocator.allocateLoop, heq]
      dsimp only
      rw [hloop, append_assoc, singleton_append]
    · rw [map_cons, nodup_cons]
      refine ⟨fun hmem => ?_, hall.nodup⟩
      obtain ⟨slot', hslot', hid⟩ := mem_map.mp hmem
      refine (hall.fresh slot' hslot').1 ?_
      rw [ha.occupied, hid]
      exact Finset.mem_insert_self _ _
    · refine forall_mem_cons.mpr ⟨⟨ha.fresh, ha.lt_target⟩, fun slot' hslot' => ?_⟩
      obtain ⟨hnot, hlt⟩ := hall.fresh slot' hslot'
      rw [ha.occupied] at hnot
      exact ⟨fun hocc => hnot (Finset.mem_insert_of_mem hocc), ha.target ▸ hlt⟩
    · rw [hall.occupied, ha.occupied]
      ext i
      simp only [slotIds, map_cons, toFinset_cons, Finset.mem_union, Finset.mem_insert]
      tauto
    · rw [hall.target, ha.target]
    · rw [hall.capacity, ha.capacity]

/-- **`allocateMultiple`** of no more than the free slots. -/
lemma Ok.allocateMultiple_fresh : ∃ slots s', s.allocateMultiple ready n = (.ok slots, s')
      ∧ slots.length = n ∧ s.AllocatedAll slots s' := by
  obtain ⟨slots, s', heq, hlen, hall⟩ := h.allocateLoop_fresh ready hfree []
  refine ⟨slots, s', ?_, hlen, hall⟩
  rw [SlotAllocator.allocateMultiple, if_neg (by omega), if_neg (by omega), Int.toNat_natCast, heq,
    nil_append]

end

end SlotAllocator

end TrtLlm
