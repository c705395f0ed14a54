import TrtLlm.KvCacheV2.DynamicBitset

/-!
`DigestPool`: the slots that hold the contexts of multi-modal items (`tokenIdExt.cpp`).

A token keeps only the index of its slot, so a slot must not change under it.  The store, the
bitset of the slots in use and the hint are kept in step (`Ok`):

* `Ok.allocLocked`: the least slot that is not live is taken;
* `Ok.free`: one slot is given up, and a shrink drops dead slots only;
* `digestPool_kept`: both, over all sequences of calls.

The calls hold the mutex, so they follow one another.  A call that throws changes nothing.
`free` writes to its slot unchecked: on an index outside the store it has no outcome.
-/

namespace TrtLlm

open List DynamicBitset

/-- `DigestPool`, over the type of contexts; a slot is empty or points to a context. -/
structure DigestPool (γ : Type*) where
  mStore : List (Option γ)
  mInUse : DynamicBitset
  mMinFreeHint : ℕ
deriving DecidableEq

namespace DigestPool

/-- `TokenIdExt::kValueMask`: the index of a handle that was moved from. -/
def kValueMask : ℕ := 0x7FFFFFFF

def kSlackHigh : ℕ := 256

def kSlackLow : ℕ := 64

/-- `while (idx < cap && mInUse.get(idx)) ++idx`, with `fuel` slots up to the capacity. -/
def scanFree (inUse : DynamicBitset) : (fuel idx : ℕ) → ℕ
  | 0, idx => idx
  | fuel + 1, idx => if inUse.get idx then scanFree inUse fuel (idx + 1) else idx

/-- `while (liveEnd > 0 && !mInUse.get(liveEnd - 1)) --liveEnd`. -/
def scanLive (inUse : DynamicBitset) : (liveEnd : ℕ) → ℕ
  | 0 => 0
  | n + 1 => if inUse.get n then n + 1 else scanLive inUse n

variable {γ : Type*}

/-- The constructor. -/
def new : DigestPool γ := ⟨[], .ofCapacity 0, 0⟩

section

variable (p : DigestPool γ)

/-- `liveSlotLocked`, and so `get`: it throws on an index outside the store and on an empty slot. -/
def liveSlotLocked (idx : ℕ) : Option γ := p.mStore[idx]?.join

/-- `allocLocked`; it throws when the index space is exhausted. -/
def allocLocked (context : γ) : Option (ℕ × DigestPool γ) :=
  let cap := p.mStore.length
  let idx := scanFree p.mInUse (cap - p.mMinFreeHint) p.mMinFreeHint
  if idx = cap then
    if cap < kValueMask then
      let store := p.mStore ++ [some context]
      some (idx, ⟨store, (p.mInUse.resize store.length).set idx, idx + 1⟩)
    else none
  else some (idx, ⟨p.mStore.set idx (some context), p.mInUse.set idx, idx + 1⟩)

def shrinkTailLocked : DigestPool γ :=
  let cap := p.mStore.length
  let liveEnd := scanLive p.mInUse cap
  if cap - liveEnd < kSlackHigh then p
  else
    let newCapacity := liveEnd + kSlackLow
    { mStore := p.mStore.take newCapacity ++ replicate (newCapacity - cap) none
      mInUse := p.mInUse.resize newCapacity
      mMinFreeHint := if liveEnd < p.mMinFreeHint then liveEnd else p.mMinFreeHint }

def free (idx : ℕ) : Option (DigestPool γ) :=
  if idx = kValueMask then some p
  else if idx < p.mStore.length then
    some (shrinkTailLocked
      { mStore := p.mStore.set idx none
        mInUse := p.mInUse.clear idx
        mMinFreeHint := if idx < p.mMinFreeHint then idx else p.mMinFreeHint })
  else none

end

/-! ### Calls -/

inductive Call (γ : Type*)
  | alloc (context : γ)
  | duplicate (idx : ℕ)
  | free (idx : ℕ)
deriving DecidableEq

/-- How a call ends. -/
inductive Outcome
  | index (idx : ℕ)
  | thrown
  | freed
deriving DecidableEq

/-- `alloc`. -/
def alloc (p : DigestPool γ) (context : γ) : Outcome × DigestPool γ :=
  match p.allocLocked context with
  | some (idx, p') => (.index idx, p')
  | none => (.thrown, p)

/-- `duplicate`. -/
def duplicate (p : DigestPool γ) (idx : ℕ) : Outcome × DigestPool γ :=
  match p.liveSlotLocked idx with
  | some context => p.alloc context
  | none => (.thrown, p)

def step (p : DigestPool γ) : Call γ → Option (Outcome × DigestPool γ)
  | .alloc context => some (p.alloc context)
  | .duplicate idx => some (p.duplicate idx)
  | .free idx => (p.free idx).map fun p' => (.freed, p')

/-- The pool after a sequence of calls. -/
def run (p : DigestPool γ) : List (Call γ) → Option (DigestPool γ)
  | [] => some p
  | c :: cs => (p.step c).bind fun r => run r.2 cs

/-- The live indices. -/
def live (p : DigestPool γ) : Finset ℕ :=
  (Finset.range p.mStore.length).filter fun i => (p.liveSlotLocked i).isSome

/-! ### The scans -/

variable {b : DynamicBitset} {i j : ℕ} {c : γ} {p p' : DigestPool γ}

lemma scanFree_spec (fuel idx : ℕ) : idx ≤ scanFree b fuel idx ∧ scanFree b fuel idx ≤ idx + fuel
    ∧ (∀ j, idx ≤ j → j < scanFree b fuel idx → j ∈ b.bits)
    ∧ (scanFree b fuel idx < idx + fuel → scanFree b fuel idx ∉ b.bits) := by
  induction fuel generalizing idx with
  | zero => exact ⟨Nat.le_refl _, Nat.le_refl _, fun j h h' => by simp only [scanFree] at h'; omega,
      fun h => absurd h (lt_irrefl idx)⟩
  | succ fuel ih =>
    rw [scanFree]
    split_ifs with hget
    · obtain ⟨hle, hlt, hused, hfree⟩ := ih (idx + 1)
      refine ⟨by omega, by omega, fun j hj hlt' => ?_, fun h => hfree (by omega)⟩
      rcases eq_or_lt_of_le hj with rfl | hj
      · exact get_iff.mp hget
      · exact hused j hj hlt'
    · exact ⟨Nat.le_refl _, by omega, fun j h h' => by omega,
        fun _ => mt get_iff.mpr hget⟩

lemma scanLive_spec (n : ℕ) : scanLive b n ≤ n ∧ (∀ j ∈ b.bits, j < n → j < scanLive b n) := by
  induction n with
  | zero => exact ⟨Nat.le_refl _, fun j _ hj => hj⟩
  | succ n ih =>
    rw [scanLive]
    split_ifs with hget
    · exact ⟨Nat.le_refl _, fun j _ hj => hj⟩
    · refine ⟨by omega, fun j hj hlt => ih.2 j hj ?_⟩
      have : j ≠ n := fun h => hget (get_iff.mpr (h ▸ hj))
      omega

/-! ### The invariant -/

lemma mem_live : i ∈ p.live ↔ (p.liveSlotLocked i).isSome := by
  rw [live, Finset.mem_filter, Finset.mem_range, and_iff_right_iff_imp]
  intro h
  by_contra hle
  rw [liveSlotLocked, getElem?_eq_none (by omega)] at h
  cases h

lemma lt_of_mem_live (h : i ∈ p.live) : i < p.mStore.length :=
  Finset.mem_range.mp (Finset.mem_filter.mp h).1

/-- The store, the bitset and the hint are in step. -/
structure Ok (p : DigestPool γ) : Prop where
  size : p.mInUse.mSize = p.mStore.length
  covers : p.mInUse.Covers p.mStore.length
  counted : p.mInUse.Counted
  bits : p.mInUse.bits = p.live
  hint : ∀ i < p.mMinFreeHint, i ∈ p.live
  bound : p.mStore.length ≤ kValueMask

lemma ok_new : (new : DigestPool γ).Ok :=
  ⟨rfl, covers_ofCapacity 0, counted_ofCapacity 0,
    bits_ofCapacity 0, fun i hi => absurd hi (Nat.not_lt_zero i), Nat.zero_le _⟩

/-- The hint is inside the store: the slot after the last one is not live. -/
lemma Ok.hint_le (h : p.Ok) : p.mMinFreeHint ≤ p.mStore.length := by
  by_contra hlt
  exact lt_irrefl _ (lt_of_mem_live (h.hint p.mStore.length (by omega)))

lemma join_set {xs : List (Option γ)} (hi : i < xs.length) (o : Option γ) (j : ℕ) :
    (xs.set i o)[j]?.join = if j = i then o else xs[j]?.join := by
  rw [getElem?_set]
  rcases eq_or_ne j i with rfl | hne
  · rw [if_pos rfl, if_pos hi, if_pos rfl, Option.join_some]
  · rw [if_neg hne.symm, if_neg hne]

/-- The live indices of a pool whose slots are those of another one but for one. -/
lemma live_of_slots {o : Option γ} (hslots : ∀ j, p'.liveSlotLocked j
      = if j = i then o else p.liveSlotLocked j) :
    p'.live = if o.isSome then insert i p.live else p.live.erase i := by
  ext j
  rw [mem_live, hslots]
  cases o <;> by_cases hj : j = i <;> simp [hj, mem_live]

/-- What taking a slot does. -/
structure Taken (p : DigestPool γ) (c : γ) (i : ℕ) (p' : DigestPool γ) : Prop where
  least : IsLeast { j | j ∉ p.live } i
  slots : ∀ j, p'.liveSlotLocked j = if j = i then some c else p.liveSlotLocked j
  length : p.mStore.length ≤ p'.mStore.length
  ok : p'.Ok

/-- **The least slot that is not live is taken.** -/
lemma Ok.allocLocked (h : p.Ok) (halloc : p.allocLocked c = some (i, p')) : Taken p c i p' := by
  obtain ⟨hle, hcap, hused, hfree⟩ :=
    scanFree_spec (b := p.mInUse) (p.mStore.length - p.mMinFreeHint) p.mMinFreeHint
  have hhint := h.hint_le
  rw [h.bits] at hused hfree
  unfold DigestPool.allocLocked at halloc
  dsimp only at halloc
  set idx := scanFree p.mInUse (p.mStore.length - p.mMinFreeHint) p.mMinFreeHint
  clear_value idx
  have hbelow : ∀ j < idx, j ∈ p.live := fun j hj =>
    (lt_or_ge j p.mMinFreeHint).elim (h.hint j) (hused j · hj)
  have hdead : idx ∉ p.live := by
    rcases eq_or_lt_of_le hcap with heq | hlt
    · exact fun hmem => absurd (lt_of_mem_live hmem) (by omega)
    · exact hfree hlt
  have hleast : IsLeast { j | j ∉ p.live } idx :=
    ⟨hdead, fun j hj => not_lt.mp fun hlt => hj (hbelow j hlt)⟩
  -- the slots decide the live indices, so only the sizes are left to each branch
  have hok : ∀ {q : DigestPool γ}, q.mInUse.mSize = q.mStore.length →
      q.mInUse.Covers q.mStore.length → q.mInUse.Counted → q.mInUse.bits = insert idx p.live →
      q.mMinFreeHint = idx + 1 → q.mStore.length ≤ kValueMask →
      (∀ j, q.liveSlotLocked j = if j = idx then some c else p.liveSlotLocked j) → q.Ok := by
    intro q hsize hcovers hcounted hbits hnext hbound hslots
    have hlive : q.live = insert idx p.live := by simpa using live_of_slots hslots
    refine ⟨hsize, hcovers, hcounted, hbits.trans hlive.symm, fun j hj => ?_, hbound⟩
    rw [hlive, Finset.mem_insert]
    rcases eq_or_ne j idx with rfl | hne
    · exact .inl rfl
    · exact .inr (hbelow j (by omega))
  split_ifs at halloc with hfull hspace
  · cases halloc
    have hslots : ∀ j, (p.mStore ++ [some c])[j]?.join
        = if j = i then some c else p.liveSlotLocked j := by
      intro j
      rw [liveSlotLocked, hfull]
      rcases lt_trichotomy j p.mStore.length with hj | rfl | hj
      · rw [getElem?_append_left hj, if_neg hj.ne]
      · rw [getElem?_concat_length, if_pos rfl, Option.join_some]
      · rw [getElem?_eq_none (by simp; omega), getElem?_eq_none hj.le, if_neg hj.ne']
    have hresize : (p.mInUse.resize (p.mStore ++ [some c]).length).bits = p.live := by
      rw [bits_resize, h.bits, Finset.filter_true_of_mem]
      intro j hj
      rw [length_append]
      exact (lt_of_mem_live hj).trans (Nat.lt_succ_self _)
    have hcovers := covers_resize p.mInUse (p.mStore ++ [some c]).length
    have hlt : i < (p.mStore ++ [some c]).length := by simp [hfull]
    refine ⟨hleast, hslots, by simp, hok ?_ ?_ ?_ ?_ rfl (by simpa using hspace) hslots⟩
    · rw [mSize_set]
      rfl
    · rwa [Covers, length_mWords_set]
    · exact (h.counted.resize _).set (hlt.trans_le hcovers)
    · rw [bits_set (hlt.trans_le hcovers), hresize]
  · cases halloc
    have hlt : i < p.mStore.length := by omega
    refine ⟨hleast, join_set hlt _, length_set.ge,
      hok ?_ ?_ ?_ ?_ rfl (by simpa using h.bound) (join_set hlt _)⟩
    · rw [mSize_set, h.size, length_set]
    · rw [Covers, length_mWords_set, length_set]
      exact h.covers
    · exact h.counted.set (hlt.trans_le h.covers)
    · rw [bits_set (hlt.trans_le h.covers), h.bits]

/-- The pool can refuse a context only when all indices are live. -/
lemma Ok.allocLocked_none (h : p.Ok) (halloc : p.allocLocked c = none) :
    ∀ i < kValueMask, i ∈ p.live := by
  obtain ⟨-, hcap, hused, -⟩ :=
    scanFree_spec (b := p.mInUse) (p.mStore.length - p.mMinFreeHint) p.mMinFreeHint
  rw [h.bits] at hused
  unfold DigestPool.allocLocked at halloc
  dsimp only at halloc
  split_ifs at halloc with hfull hspace
  intro i hi
  exact (lt_or_ge i p.mMinFreeHint).elim (h.hint i) fun hle => hused i hle (by omega)

/-- A shrink drops dead slots only, and keeps the slack. -/
lemma Ok.shrinkTailLocked (h : p.Ok) : p.shrinkTailLocked.Ok
    ∧ (∀ j, p.shrinkTailLocked.liveSlotLocked j = p.liveSlotLocked j)
    ∧ (p.shrinkTailLocked.mStore.length < p.mStore.length →
      kSlackLow ≤ p.shrinkTailLocked.mStore.length
        ∧ ∀ i ∈ p.live, i + kSlackLow < p.shrinkTailLocked.mStore.length) := by
  obtain ⟨hle, hend⟩ := scanLive_spec (b := p.mInUse) p.mStore.length
  rw [h.bits] at hend
  unfold DigestPool.shrinkTailLocked
  dsimp only
  set liveEnd := scanLive p.mInUse p.mStore.length
  have hlive : ∀ j ∈ p.live, j < liveEnd := fun j hj => hend j hj (lt_of_mem_live hj)
  split
  · exact ⟨h, fun _ => rfl, fun hlt => absurd hlt (lt_irrefl _)⟩
  rename_i hslack
  rw [not_lt, kSlackHigh] at hslack
  have hlow : kSlackLow = 64 := rfl
  have hlt : liveEnd + kSlackLow < p.mStore.length := by omega
  rw [Nat.sub_eq_zero_of_le hlt.le, replicate_zero, append_nil]
  have hlen : (p.mStore.take (liveEnd + kSlackLow)).length = liveEnd + kSlackLow := by
    rw [length_take, Nat.min_eq_left hlt.le]
  have hslots : ∀ j, (p.mStore.take (liveEnd + kSlackLow))[j]?.join = p.liveSlotLocked j := by
    intro j
    rw [getElem?_take]
    split_ifs with hj
    · rfl
    · have hdead : j ∉ p.live := fun hmem => hj ((hlive j hmem).trans_le (Nat.le_add_right _ _))
      exact (Option.not_isSome_iff_eq_none.mp (mt mem_live.mpr hdead)).symm
  refine ⟨?_, hslots, fun _ => ⟨by rw [hlen]; omega, fun i hi => ?_⟩⟩
  · have heq : ∀ inUse hint,
        live ⟨p.mStore.take (liveEnd + kSlackLow), inUse, hint⟩ = p.live := by
      intro inUse hint
      ext j
      rw [mem_live, mem_live, ← hslots j]
      rfl
    refine ⟨hlen.symm, ?_, h.counted.resize _, ?_, fun i hi => ?_, ?_⟩
    · rw [hlen]
      exact covers_resize _ _
    · rw [bits_resize, h.bits, heq, Finset.filter_true_of_mem]
      exact fun j hj => (hlive j hj).trans_le (Nat.le_add_right _ _)
    · rw [heq]
      refine h.hint i (hi.trans_le ?_)
      split_ifs with hhint
      · exact hhint.le
      · exact Nat.le_refl _
    · rw [hlen]
      exact hlt.le.trans h.bound
  · rw [hlen]
    exact Nat.add_lt_add_right (hlive i hi) _

/-- What giving up a slot does. -/
structure Freed (p : DigestPool γ) (idx : ℕ) (p' : DigestPool γ) : Prop where
  slots : ∀ j, p'.liveSlotLocked j = if j = idx then none else p.liveSlotLocked j
  slack : p'.mStore.length < p.mStore.length →
    kSlackLow ≤ p'.mStore.length ∧ ∀ i ∈ p'.live, i + kSlackLow < p'.mStore.length
  ok : p'.Ok

/-- **One slot is given up.** -/
lemma Ok.free (h : p.Ok) (hfree : p.free i = some p') : Freed p i p' := by
  unfold DigestPool.free at hfree
  split at hfree
  · -- the index of a handle that was moved from is that of no slot
    rename_i hmask
    cases hfree
    refine ⟨fun j => ?_, fun hlt => absurd hlt (lt_irrefl _), h⟩
    split_ifs with hj
    · rw [liveSlotLocked, getElem?_eq_none (hj ▸ hmask ▸ h.bound)]
      rfl
    · rfl
  · split at hfree
    swap
    · cases hfree
    rename_i hlt
    cases hfree
    set q : DigestPool γ := ⟨p.mStore.set i none, p.mInUse.clear i,
      if i < p.mMinFreeHint then i else p.mMinFreeHint⟩
    have hslots : ∀ j, q.liveSlotLocked j = if j = i then none else p.liveSlotLocked j :=
      join_set hlt none
    have hlive : q.live = p.live.erase i := by simpa using live_of_slots hslots
    have hlen : q.mStore.length = p.mStore.length := length_set
    have hq : q.Ok := by
      refine ⟨?_, ?_, h.counted.clear i, ?_, fun j hj => ?_, hlen.le.trans h.bound⟩
      · rw [mSize_clear, h.size, hlen]
      · rw [Covers, length_mWords_clear, hlen]
        exact h.covers
      · rw [bits_clear, h.bits, hlive]
      · have hj' : j < if i < p.mMinFreeHint then i else p.mMinFreeHint := hj
        rw [hlive, Finset.mem_erase]
        split_ifs at hj' with hhint
        · exact ⟨hj'.ne, h.hint j (hj'.trans hhint)⟩
        · exact ⟨by omega, h.hint j hj'⟩
    obtain ⟨hok, hsame, hslack⟩ := hq.shrinkTailLocked
    refine ⟨fun j => (hsame j).trans (hslots j), fun hshort => ?_, hok⟩
    obtain ⟨hlow, habove⟩ := hslack (hlen.symm ▸ hshort)
    refine ⟨hlow, fun j hj => habove j ?_⟩
    rwa [mem_live, ← hsame j, ← mem_live]

/-! ### All calls -/

/-- What a call can do: the slots change as they do when one is taken or given up, or not at all. -/
lemma step_cases (h : p.Ok) {call : Call γ} {o : Outcome} (hstep : p.step call = some (o, p')) :
    (∃ i c, o = .index i ∧ Taken p c i p'
      ∧ (call = .alloc c ∨ ∃ j, call = .duplicate j ∧ p.liveSlotLocked j = some c))
    ∨ (∃ i, call = .free i ∧ o = .freed ∧ Freed p i p')
    ∨ (o = .thrown ∧ p' = p
      ∧ ((∀ i < kValueMask, i ∈ p.live) ∨ ∃ j, call = .duplicate j ∧ j ∉ p.live)) := by
  have halloc : ∀ {c}, p.alloc c = (o, p') →
      (∃ i, o = .index i ∧ Taken p c i p')
      ∨ (o = .thrown ∧ p' = p ∧ ∀ i < kValueMask, i ∈ p.live) := by
    intro c heq
    unfold alloc at heq
    split at heq
    · rename_i i q hq
      cases heq
      exact .inl ⟨i, rfl, h.allocLocked hq⟩
    · rename_i hq
      cases heq
      exact .inr ⟨rfl, rfl, h.allocLocked_none hq⟩
  cases call with
  | alloc c =>
    rcases halloc (Option.some.inj hstep) with ⟨i, ho, ht⟩ | ⟨ho, hp, hfull⟩
    · exact .inl ⟨i, c, ho, ht, .inl rfl⟩
    · exact .inr (.inr ⟨ho, hp, .inl hfull⟩)
  | duplicate j =>
    have heq : p.duplicate j = (o, p') := Option.some.inj hstep
    unfold duplicate at heq
    split at heq
    · rename_i c hc
      rcases halloc heq with ⟨i, ho, ht⟩ | ⟨ho, hp, hfull⟩
      · exact .inl ⟨i, c, ho, ht, .inr ⟨j, rfl, hc⟩⟩
      · exact .inr (.inr ⟨ho, hp, .inl hfull⟩)
    · rename_i hnone
      cases heq
      exact .inr (.inr ⟨rfl, rfl, .inr ⟨j, rfl, fun hj => by simp [mem_live, hnone] at hj⟩⟩)
  | free i =>
    obtain ⟨q, hq, heq⟩ := Option.map_eq_some_iff.mp hstep
    cases heq
    exact .inr (.inl ⟨i, rfl, rfl, h.free hq⟩)

lemma Ok.step (h : p.Ok) {call : Call γ} {o : Outcome} (hstep : p.step call = some (o, p')) :
    p'.Ok := by
  rcases step_cases h hstep with ⟨i, c, -, ht, -⟩ | ⟨i, -, -, hf⟩ | ⟨-, rfl, -⟩
  · exact ht.ok
  · exact hf.ok
  · exact h

/-- A call keeps the context of a live index, unless it frees it. -/
lemma step_slot (h : p.Ok) {call : Call γ} {o : Outcome} (hstep : p.step call = some (o, p'))
    (hi : p.liveSlotLocked i = some c) (hcall : call ≠ .free i) :
    p'.liveSlotLocked i = some c := by
  rcases step_cases h hstep with ⟨j, c', -, ht, -⟩ | ⟨j, rfl, -, hf⟩ | ⟨-, rfl, -⟩
  · have hne : i ≠ j := by
      rintro rfl
      exact ht.least.1 (mem_live.mpr (hi ▸ rfl))
    rw [ht.slots, if_neg hne, hi]
  · have hne : i ≠ j := fun heq => hcall (heq ▸ rfl)
    rw [hf.slots, if_neg hne, hi]
  · exact hi

/-- **Calls one after another** keep the invariant and every context that none of them frees. -/
lemma Ok.run {calls : List (Call γ)} (h : p.Ok) (hrun : p.run calls = some p') : p'.Ok
    ∧ ∀ i c, p.liveSlotLocked i = some c → .free i ∉ calls → p'.liveSlotLocked i = some c := by
  induction calls generalizing p with
  | nil =>
    cases hrun
    exact ⟨h, fun i c hi _ => hi⟩
  | cons call calls ih =>
    obtain ⟨⟨o, q⟩, hstep, hrest⟩ := Option.bind_eq_some_iff.mp hrun
    obtain ⟨hok, hkeep⟩ := ih (h.step hstep) hrest
    refine ⟨hok, fun i c hi hfree => ?_⟩
    obtain ⟨hne, hcalls⟩ := not_or.mp (mt mem_cons.mpr hfree)
    exact hkeep i c (step_slot h hstep hi (Ne.symm hne)) hcalls

/-- What holds of the pool between calls. -/
structure Kept (p : DigestPool γ) : Prop where
  size : p.mInUse.mSize = p.mStore.length
  count : p.mInUse.mNumSetBits = p.live.card
  hint : p.mMinFreeHint ∈ lowerBounds { j | j ∉ p.live }
  /-- An index that a call returns is the least one that is not live, and holds the context. -/
  returned : ∀ call i p', p.step call = some (.index i, p') → IsLeast { j | j ∉ p.live } i
    ∧ ∃ c, p'.liveSlotLocked i = some c
      ∧ (call = .alloc c ∨ ∃ j, call = .duplicate j ∧ p.liveSlotLocked j = some c)
  /-- A call throws only on an index that is not live or when every index is; nothing changes. -/
  thrown : ∀ call p', p.step call = some (.thrown, p') →
    p' = p ∧ ((∀ i < kValueMask, i ∈ p.live) ∨ ∃ j, call = .duplicate j ∧ j ∉ p.live)
  /-- A context stays until its index is freed. -/
  stays : ∀ calls p', p.run calls = some p' → ∀ i c, p.liveSlotLocked i = some c →
    .free i ∉ calls → p'.liveSlotLocked i = some c
  /-- A call that shrinks the store drops no live entry and keeps the slack above the last one. -/
  shrinks : ∀ call o p', p.step call = some (o, p') → p'.mStore.length < p.mStore.length →
    ∃ idx, call = .free idx ∧ p'.live = p.live.erase idx ∧ kSlackLow ≤ p'.mStore.length
      ∧ ∀ i ∈ p'.live, i + kSlackLow < p'.mStore.length

/-- **The digest pool**: after every sequence of calls, the store, the bitset and the hint are in
step, an index that is handed out is the least one that is not live, and its context stays until
it is freed. -/
theorem digestPool_kept {calls : List (Call γ)} (hrun : (new : DigestPool γ).run calls = some p) :
    p.Kept := by
  have h := (ok_new.run hrun).1
  refine ⟨h.size, ?_, fun j hj => ?_, ?_, ?_, fun calls p' hrun' => (h.run hrun').2, ?_⟩
  · rw [h.counted, h.bits]
  · exact not_lt.mp fun hlt => hj (h.hint j hlt)
  · intro call i p' hstep
    rcases step_cases h hstep with ⟨j, c, ho, ht, hcall⟩ | ⟨j, -, ho, -⟩ | ⟨ho, -⟩
    · cases ho
      exact ⟨ht.least, c, by rw [ht.slots, if_pos rfl], hcall⟩
    · cases ho
    · cases ho
  · intro call p' hstep
    rcases step_cases h hstep with ⟨j, c, ho, -⟩ | ⟨j, -, ho, -⟩ | ⟨-, hthrown⟩
    · cases ho
    · cases ho
    · exact hthrown
  · intro call o p' hstep hlt
    rcases step_cases h hstep with ⟨j, c, -, ht, -⟩ | ⟨j, rfl, -, hf⟩ | ⟨-, rfl, -⟩
    · exact absurd hlt (not_lt.mpr ht.length)
    · obtain ⟨hlow, habove⟩ := hf.slack hlt
      exact ⟨j, rfl, by simpa using live_of_slots hf.slots, hlow, habove⟩
    · exact absurd hlt (lt_irrefl _)

/-- Two contexts are stored, the second is shared, and the first one's slot is taken again. -/
theorem digestPool_kept_reused :
    ∃ p : DigestPool Char, (new.run [.alloc 'a', .alloc 'b', .duplicate 1, .free 0] = some p)
      ∧ p.live = {1, 2} ∧ (p.alloc 'c').1 = .index 0 ∧ p.Kept := by
  obtain ⟨p, hp⟩ : ∃ p : DigestPool Char,
      new.run [.alloc 'a', .alloc 'b', .duplicate 1, .free 0] = some p := ⟨_, rfl⟩
  refine ⟨p, hp, ?_, ?_, digestPool_kept hp⟩ <;> cases hp <;> decide

end DigestPool

end TrtLlm
