import Mathlib.Data.Nat.Bitwise
import TrtLlm.Util.UMap
import TrtLlm.Util.Dyadic

/-!
The blocks of the buddy allocator of the bounce arena (`BuddyAllocator.cpp`).

`BuddyBlocks` is the state of the class and its functions follow the source: the free
offsets of every order, and the order of every live block.  Offsets and sizes are the
64-bit words of the source; they are written without reduction where the constructor has
already bounded them, and modulo `2^64` where it has not.

`BuddyBlocks.WF` is the representation invariant: the free and the live blocks together
tile the usable space (`DyadicTiling.Tiling`), and no two free buddies of one order coexist.

Which free block of an order is handed out is the first one in the iteration order of a
`std::unordered_set`, which the standard leaves unspecified; it is the argument `pick`.
-/

namespace TrtLlm

open DyadicTiling List Function Option Nat UMap Prod

/-! ### The code -/

/-- `roundUpPow2`: `p <<= 1` while `p < v`.  Sixty-four doublings bring a 64-bit word to
zero, where the loop of the source never ends; the value `0` stands for that. -/
def roundUpPow2Loop (v : ℕ) : ℕ → ℕ → ℕ
  | 0, p => p
  | fuel + 1, p => if p < v then roundUpPow2Loop v fuel (p * 2 % 2 ^ 64) else p

/-- `BuddyAllocator::roundUpPow2`. -/
def roundUpPow2 (v : ℕ) : ℕ := roundUpPow2Loop v 64 1

/-- The members of `BuddyAllocator`.  `mFree` is indexed by order. -/
structure BuddyBlocks where
  mMinBlock : ℕ
  mUsable : ℕ
  mMaxOrder : ℕ
  mFree : ℕ → USet ℕ
  mAllocOrder : UMap ℕ ℕ

namespace BuddyBlocks

/-- The constructor's search for the largest order that fits the capacity.  A shift by 64
or more is undefined, hence no value. -/
def maxOrderLoop (minBlock capacity : ℕ) : ℕ → ℕ → Option ℕ
  | 0, _ => none
  | fuel + 1, order =>
    if minBlock * 2 ^ (order + 1) % 2 ^ 64 ≤ capacity then
      maxOrderLoop minBlock capacity fuel (order + 1)
    else some order

/-- The constructor; no value where it throws or does not return. -/
def ctor (capacity minBlock : ℕ) : Option BuddyBlocks :=
  let mMinBlock := roundUpPow2 minBlock
  if 0 < capacity ∧ 0 < minBlock ∧ 0 < mMinBlock ∧ mMinBlock ≤ capacity then
    (maxOrderLoop mMinBlock capacity 63 0).map fun mMaxOrder =>
      { mMinBlock := mMinBlock
        mUsable := mMinBlock * 2 ^ mMaxOrder
        mMaxOrder := mMaxOrder
        mFree := update (fun _ => ∅) mMaxOrder (USet.insert ∅ 0)
        mAllocOrder := ∅ }
  else none

/-- The loop of `orderForBytes`. -/
def orderLoop (minBlock need : ℕ) : ℕ → ℕ → ℕ
  | 0, order => order
  | fuel + 1, order =>
    if minBlock * 2 ^ order % 2 ^ 64 < need then orderLoop minBlock need fuel (order + 1)
    else order

/-- `orderForBytes`: the smallest order whose blocks hold `bytes`. -/
def orderForBytes (b : BuddyBlocks) (bytes : ℕ) : ℕ :=
  orderLoop b.mMinBlock (roundUpPow2 (if bytes < b.mMinBlock then b.mMinBlock else bytes)) 64 0

/-- `mFree[o].insert(x)`. -/
def pushFree (b : BuddyBlocks) (o x : ℕ) : BuddyBlocks :=
  { b with mFree := update b.mFree o (USet.insert (b.mFree o) x) }

/-- `mFree[o].erase(x)`. -/
def popFree (b : BuddyBlocks) (o x : ℕ) : BuddyBlocks :=
  { b with mFree := update b.mFree o ((b.mFree o).erase x) }

/-- The smallest order from `cur` on that has a free block. -/
def firstFree (b : BuddyBlocks) : ℕ → ℕ → Option ℕ
  | 0, _ => none
  | fuel + 1, cur => if (b.mFree cur).entries.isEmpty then firstFree b fuel (cur + 1) else some cur

/-- `*s.begin()`: an element of the set, the one `pick` chooses. -/
def beginOf (pick : List ℕ → ℕ) (s : USet ℕ) : ℕ :=
  s.keys.getD (pick s.keys % s.keys.length) 0

/-- The splitting loop of `alloc`: the upper half of each split goes back to the free list
and the lower half is split further, down to the order `want`. -/
def splitDown (want block : ℕ) : ℕ → BuddyBlocks → BuddyBlocks
  | 0, b => b
  | cur + 1, b =>
    if want < cur + 1 then
      splitDown want block cur (b.pushFree cur (block + b.mMinBlock * 2 ^ cur))
    else b

/-- `alloc`. -/
def alloc (pick : List ℕ → ℕ) (b : BuddyBlocks) (bytes : ℕ) : Option ℕ × BuddyBlocks :=
  if bytes = 0 ∨ b.mUsable < bytes then (none, b)
  else
    let want := b.orderForBytes bytes
    if b.mMaxOrder < want then (none, b)
    else
      match b.firstFree (b.mMaxOrder + 1 - want) want with
      | none => (none, b)
      | some cur =>
        let block := beginOf pick (b.mFree cur)
        let b' := splitDown want block cur (b.popFree cur block)
        (some block, { b' with mAllocOrder := b'.mAllocOrder.emplace block want })

/-- The merging loop of `free`: `fuel` is `mMaxOrder - order`. -/
def coalesce : ℕ → ℕ → ℕ → BuddyBlocks → BuddyBlocks
  | 0, order, offset, b => b.pushFree order offset
  | fuel + 1, order, offset, b =>
    let buddy := offset ^^^ (b.mMinBlock * 2 ^ order)
    if buddy ∈ b.mFree order then
      coalesce fuel (order + 1) (if offset < buddy then offset else buddy)
        (b.popFree order buddy)
    else b.pushFree order offset

/-- `free`; an offset that is not live is ignored. -/
def free (b : BuddyBlocks) (offset : ℕ) : BuddyBlocks :=
  match b.mAllocOrder.find? offset with
  | none => b
  | some order =>
    coalesce (b.mMaxOrder - order) order offset
      { b with mAllocOrder := b.mAllocOrder.erase offset }

/-! ### The representation invariant -/

/-- The live blocks as a family of tiles. -/
def liveTiles (m : UMap ℕ ℕ) (o y : ℕ) : ℕ := if m.find? y = some o then 1 else 0

/-- The blocks, free and live, as a family of tiles. -/
def tiles (b : BuddyBlocks) (o y : ℕ) : ℕ :=
  (b.mFree o).ind y + liveTiles b.mAllocOrder o y

/-- No free block of an order below the top has its buddy free at the same order. -/
def Coalesced (b : BuddyBlocks) : Prop :=
  ∀ o x, o < b.mMaxOrder → x ∈ b.mFree o → x ^^^ (b.mMinBlock * 2 ^ o) ∉ b.mFree o

/-- **The representation invariant.** -/
structure WF (b : BuddyBlocks) : Prop where
  pow2 : ∃ m, b.mMinBlock = 2 ^ m
  usable : b.mUsable = sz b.mMinBlock b.mMaxOrder
  small : b.mUsable < 2 ^ 63
  tiling : Tiling b.mMinBlock b.mMaxOrder b.tiles
  coalesced : b.Coalesced

variable {b b' : BuddyBlocks} {bytes o x : ℕ}

lemma WF.minBlock_pos (h : b.WF) : 0 < b.mMinBlock := by
  obtain ⟨m, hm⟩ := h.pow2
  rw [hm]
  positivity

/-! ### How the updates move the tiles -/

lemma tiles_pushFree (h : x ∉ b.mFree o) :
    (b.pushFree o x).tiles = fun o' y => b.tiles o' y + single o x o' y := by
  funext o' y
  by_cases ho : o' = o
  · subst ho
    by_cases hy : y = x
    · subst hy
      simp [tiles, pushFree, single, ind, h, Nat.add_comm]
    · simp [tiles, pushFree, single, ind, hy]
  · simp [tiles, pushFree, single, ho]

lemma tiles_popFree (h : x ∈ b.mFree o) :
    (fun o' y => (b.popFree o x).tiles o' y + single o x o' y) = b.tiles := by
  funext o' y
  by_cases ho : o' = o
  · subst ho
    by_cases hy : y = x
    · subst hy
      simp [tiles, popFree, single, ind, h, Nat.add_comm]
    · simp [tiles, popFree, single, ind, hy]
  · simp [tiles, popFree, single, ho]

lemma tiles_emplace (h : b.mAllocOrder.find? x = none) :
    ({ b with mAllocOrder := b.mAllocOrder.emplace x o } : BuddyBlocks).tiles
      = fun o' y => b.tiles o' y + single o x o' y := by
  have hx : x ∉ b.mAllocOrder := find?_eq_none_iff.mp h
  funext o' y
  by_cases hy : y = x
  · subst hy
    simp [tiles, liveTiles, single, find?_emplace, hx, h, eq_comm]
  · simp [tiles, liveTiles, single, find?_emplace, hy]

lemma tiles_erase (h : b.mAllocOrder.find? x = some o) :
    (fun o' y => ({ b with mAllocOrder := b.mAllocOrder.erase x } : BuddyBlocks).tiles o' y
      + single o x o' y) = b.tiles := by
  funext o' y
  by_cases hy : y = x
  · subst hy
    simp [tiles, liveTiles, single, h, eq_comm]
  · simp [tiles, liveTiles, single, hy]

/-! ### Buddies -/

/-- Exclusive or with the block size flips between the two halves of the enclosing
block. -/
lemma xor_sz {u : ℕ} (hu : ∃ m, u = 2 ^ m) (h : sz u o ∣ x) :
    (sz u (o + 1) ∣ x ∧ x ^^^ (u * 2 ^ o) = x + sz u o)
      ∨ (∃ y, x = y + sz u o ∧ sz u (o + 1) ∣ y ∧ x ^^^ (u * 2 ^ o) = y) := by
  obtain ⟨m, rfl⟩ := hu
  obtain ⟨q, rfl⟩ := h
  have hsz : sz (2 ^ m) o = 2 ^ (m + o) := by rw [sz, pow_add]
  have hxor : sz (2 ^ m) o * q ^^^ (2 ^ m * 2 ^ o) = (q ^^^ 1) * sz (2 ^ m) o := by
    have := shiftLeft_xor_distrib (i := m + o) (a := q) (b := 1)
    simp only [shiftLeft_eq, one_mul] at this
    rw [hsz, this, Nat.mul_comm q, ← pow_add]
  rcases even_or_odd q with he | ho
  · refine Or.inl ⟨?_, ?_⟩
    · obtain ⟨r, rfl⟩ := he
      exact ⟨r, by rw [sz_succ]; ring⟩
    · rw [hxor, xor_one_of_even he]; ring
  · refine Or.inr ⟨sz (2 ^ m) o * (q - 1), ?_, ?_, ?_⟩
    · obtain ⟨r, rfl⟩ := ho
      simp only [Nat.add_sub_cancel]; ring
    · obtain ⟨r, rfl⟩ := ho
      exact ⟨r, by rw [sz_succ]; simp only [Nat.add_sub_cancel]; ring⟩
    · rw [hxor, xor_one_of_odd ho]; ring

end BuddyBlocks

end TrtLlm
