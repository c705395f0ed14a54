import TrtLlm.Bounce.BuddyAllocator
import TrtLlm.Util.DyadicCanonical

/-!
Whole runs of the buddy allocator (`BuddyAllocator.cpp`): any sequence of `alloc` and `free`
calls, with arbitrary arguments.

* `BuddyBlocks.Call`, `BuddyBlocks.run`: the calls, and the state after a list of them. The free
  block that an `alloc` takes is a choice of the container, so every call carries its own;
* `WF.mem_free_iff`: in a state that satisfies the representation invariant the free blocks are
  the largest blocks clear of the live ones. Hence the free lists depend on the live blocks alone
  (`WF.same`), and **`buddy_representation`** puts this together over all runs;
* `freeBytes`, `maxAllocBytes`: the two counters of the class. **`buddy_completeness`**: `alloc`
  succeeds exactly up to `maxAllocBytes`, with the smallest block that holds the request.
-/

namespace TrtLlm

open DyadicTiling Option Finset Nat UMap

namespace BuddyBlocks

/-! ### The code -/

/-- `freeBytes`. -/
def freeBytes (b : BuddyBlocks) : ℕ :=
  ∑ o ∈ range (b.mMaxOrder + 1), (b.mFree o).size * (b.mMinBlock * 2 ^ o)

/-- The loop of `maxAllocBytes`, from the order below `o` down. -/
def maxAllocLoop (b : BuddyBlocks) : ℕ → ℕ
  | 0 => 0
  | o + 1 => if (b.mFree o).entries.isEmpty then maxAllocLoop b o else b.mMinBlock * 2 ^ o

/-- `maxAllocBytes`. -/
def maxAllocBytes (b : BuddyBlocks) : ℕ := b.maxAllocLoop (b.mMaxOrder + 1)

/-- `blockBytes`. -/
def blockBytes (b : BuddyBlocks) (off : ℕ) : ℕ :=
  match b.mAllocOrder.find? off with
  | none => 0
  | some order => b.mMinBlock * 2 ^ order

/-- The calls that change an allocator. -/
inductive Call where
  | alloc (pick : List ℕ → ℕ) (bytes : ℕ)
  | free (offset : ℕ)

/-- One call. -/
def apply (b : BuddyBlocks) : Call → BuddyBlocks
  | .alloc pick bytes => (b.alloc pick bytes).2
  | .free offset => b.free offset

/-- The state after a list of calls. -/
def run (b : BuddyBlocks) (calls : List Call) : BuddyBlocks := calls.foldl apply b

/-! ### Runs keep the invariant -/

variable {b b' : BuddyBlocks} {bytes o y : ℕ}

/-- What no call changes. -/
lemma WF.apply (h : b.WF) (c : Call) :
    (b.apply c).WF ∧ (b.apply c).mMinBlock = b.mMinBlock ∧ (b.apply c).mUsable = b.mUsable := by
  cases c with
  | alloc pick bytes =>
    rcases ha : b.alloc pick bytes with ⟨_ | off, b'⟩
    · have hsame : b.apply (.alloc pick bytes) = b := by
        rw [BuddyBlocks.apply, ha, alloc_none_spec ha]
      rw [hsame]
      exact ⟨h, rfl, rfl⟩
    · obtain ⟨hwf, -, -, hmin, husable⟩ := alloc_spec h ha
      rw [BuddyBlocks.apply, ha]
      exact ⟨hwf, hmin, husable⟩
  | free offset =>
    obtain ⟨hwf, -, hmin, husable⟩ := free_spec h offset
    exact ⟨hwf, hmin, husable⟩

lemma WF.run (h : b.WF) (calls : List Call) :
    (b.run calls).WF ∧ (b.run calls).mMinBlock = b.mMinBlock ∧
      (b.run calls).mUsable = b.mUsable := by
  induction calls generalizing b with
  | nil => exact ⟨h, rfl, rfl⟩
  | cons c calls ih =>
    obtain ⟨hwf, hmin, husable⟩ := h.apply c
    obtain ⟨hwf', hmin', husable'⟩ := ih hwf
    exact ⟨hwf', hmin'.trans hmin, husable'.trans husable⟩

/-- The top order is fixed by the smallest block and the usable space. -/
lemma WF.maxOrder_eq (h : b.WF) (h' : b'.WF)
    (hmin : b'.mMinBlock = b.mMinBlock) (husable : b'.mUsable = b.mUsable) :
    b'.mMaxOrder = b.mMaxOrder := by
  rw [h.usable, h'.usable, hmin, sz, sz] at husable
  exact Nat.pow_right_injective (le_refl 2) (Nat.eq_of_mul_eq_mul_left h.minBlock_pos husable)

/-! ### The free lists are canonical -/

/-- The free blocks as a family of tiles. -/
def freeTiles (b : BuddyBlocks) (o y : ℕ) : ℕ := (b.mFree o).ind y

lemma freeTiles_pos : 0 < b.freeTiles o y ↔ y ∈ b.mFree o := ind_pos_iff

lemma liveTiles_pos {m : UMap ℕ ℕ} : 0 < liveTiles m o y ↔ m.find? y = some o := by
  rw [liveTiles]
  split_ifs with h
  · simp [h]
  · simp [h]

lemma WF.tiling' (h : b.WF) :
    Tiling b.mMinBlock b.mMaxOrder fun o y => b.freeTiles o y + liveTiles b.mAllocOrder o y :=
  h.tiling

/-- The two halves of a block are buddies of each other. -/
lemma WF.coalesced' (h : b.WF) : DyadicTiling.Coalesced b.mMinBlock b.mMaxOrder b.freeTiles := by
  intro o off ho hd hfree
  rw [freeTiles_pos] at hfree
  have hd' : sz b.mMinBlock o ∣ off := (sz_dvd_sz _ (le_succ o)).trans hd
  refine ind_of_not_mem fun hbuddy => h.coalesced o off ho hfree ?_
  obtain ⟨-, hxor⟩ | ⟨y, rfl, hy, -⟩ := xor_sz h.pow2 hd'
  · rwa [hxor]
  · -- the upper half of a block is not aligned to the block
    have hdvd : sz b.mMinBlock (o + 1) ∣ sz b.mMinBlock o := (Nat.dvd_add_right hy).mp hd
    have hpos := sz_pos h.minBlock_pos o
    have := le_of_dvd hpos hdvd
    rw [sz_succ] at this
    omega

/-- **The free blocks are the largest blocks clear of the live ones.** -/
lemma WF.mem_free_iff (h : b.WF) (o off : ℕ) :
    off ∈ b.mFree o ↔ o ≤ b.mMaxOrder ∧ sz b.mMinBlock o ∣ off ∧
      off + sz b.mMinBlock o ≤ sz b.mMinBlock b.mMaxOrder ∧
        Clear b.mMinBlock (liveTiles b.mAllocOrder) o off ∧
          (o < b.mMaxOrder → ¬ Clear b.mMinBlock (liveTiles b.mAllocOrder) (o + 1)
            (down b.mMinBlock (o + 1) off)) := by
  rw [← freeTiles_pos]
  exact tile_iff_clear h.minBlock_pos h.tiling' h.coalesced' o off

/-- The same state, up to the order in which the containers of the source iterate. -/
structure Same (b b' : BuddyBlocks) : Prop where
  minBlock : b'.mMinBlock = b.mMinBlock
  usable : b'.mUsable = b.mUsable
  maxOrder : b'.mMaxOrder = b.mMaxOrder
  free : ∀ o off, off ∈ b'.mFree o ↔ off ∈ b.mFree o
  live : ∀ off, b'.mAllocOrder.find? off = b.mAllocOrder.find? off

/-- **The live blocks determine the state.** -/
lemma WF.same (h : b.WF) (h' : b'.WF) (hmin : b'.mMinBlock = b.mMinBlock)
    (husable : b'.mUsable = b.mUsable)
    (hlive : ∀ off, b'.mAllocOrder.find? off = b.mAllocOrder.find? off) : Same b b' := by
  have hmax := h.maxOrder_eq h' hmin husable
  have htiles : liveTiles b'.mAllocOrder = liveTiles b.mAllocOrder := by
    funext o off
    rw [liveTiles, liveTiles, hlive]
  refine ⟨hmin, husable, hmax, fun o off => ?_, hlive⟩
  rw [h.mem_free_iff, h'.mem_free_iff, hmin, hmax, htiles]

/-- `alloc` and then `free` of its result. -/
lemma WF.free_alloc (h : b.WF) {pick : List ℕ → ℕ} {off : ℕ}
    (ha : b.alloc pick bytes = (some off, b')) : Same b (b'.free off) := by
  obtain ⟨hwf, hnone, hset, hmin, husable⟩ := alloc_spec h ha
  obtain ⟨hwf', herase, hmin', husable'⟩ := free_spec hwf off
  refine h.same hwf' (hmin'.trans hmin) (husable'.trans husable) fun x => ?_
  rw [herase, hset, find?_erase, find?_set]
  split_ifs with hx
  · rw [hx, hnone]
  · rfl

lemma WF.find?_frees (h : b.WF) (offs : List ℕ) (x : ℕ) :
    (b.run (offs.map Call.free)).mAllocOrder.find? x
      = if x ∈ offs then none else b.mAllocOrder.find? x := by
  induction offs generalizing b with
  | nil => rfl
  | cons off offs ih =>
    obtain ⟨hwf, herase, -⟩ := free_spec h off
    have hstep : (b.run ((off :: offs).map Call.free)) = (b.free off).run (offs.map Call.free) :=
      rfl
    rw [hstep, ih hwf, herase, find?_erase]
    by_cases hx : x = off
    · simp [hx]
    · simp [hx]

/-- Freeing all live blocks gives the state of the constructor. -/
lemma WF.free_all {b₀ : BuddyBlocks} (h : b.WF) (h₀ : b₀.WF) (hmin : b.mMinBlock = b₀.mMinBlock)
    (husable : b.mUsable = b₀.mUsable) (hempty : b₀.mAllocOrder = ∅) {offs : List ℕ}
    (hall : ∀ off ∈ b.mAllocOrder, off ∈ offs) : Same b₀ (b.run (offs.map Call.free)) := by
  obtain ⟨hwf, hmin', husable'⟩ := h.run (offs.map Call.free)
  refine h₀.same hwf (hmin'.trans hmin) (husable'.trans husable) fun x => ?_
  rw [h.find?_frees, hempty, find?_empty]
  split_ifs with hx
  · rfl
  · exact find?_eq_none_iff.mpr fun hmem => hx (hall x hmem)

/-! ### The blocks partition the space -/

/-- A block of the arena, free or live. -/
structure Block where
  free : Bool
  order : ℕ
  offset : ℕ

/-- The arena has the block. -/
def Has (b : BuddyBlocks) (k : Block) : Prop :=
  if k.free then k.offset ∈ b.mFree k.order else b.mAllocOrder.find? k.offset = some k.order

/-- The byte lies in the block. -/
def Covers (b : BuddyBlocks) (k : Block) (x : ℕ) : Prop :=
  k.offset ≤ x ∧ x < k.offset + b.mMinBlock * 2 ^ k.order

lemma Has.tile_pos {k : Block} (h : b.Has k) : 0 < b.tiles k.order k.offset := by
  rw [Has] at h
  rw [tiles]
  split_ifs at h
  · have := ind_of_mem h
    omega
  · have := liveTiles_pos.mpr h
    omega

/-- Every block is aligned to its size and lies in the arena. -/
lemma WF.has_aligned (h : b.WF) {k : Block} (hk : b.Has k) :
    k.order ≤ b.mMaxOrder ∧ b.mMinBlock * 2 ^ k.order ∣ k.offset ∧
      k.offset + b.mMinBlock * 2 ^ k.order ≤ b.mUsable := by
  rw [h.usable]
  exact h.tiling.aligned k.order k.offset hk.tile_pos

/-- **The free and the live blocks partition the arena.** -/
lemma WF.existsUnique_block (h : b.WF) {x : ℕ} (hx : x < b.mUsable) :
    ∃! k, b.Has k ∧ b.Covers k x := by
  have hpos := h.minBlock_pos
  rw [h.usable] at hx
  obtain ⟨o, off, htile, hcov⟩ := h.tiling.exists_tile hpos hx
  obtain ⟨free, hfree⟩ : ∃ free, b.Has ⟨free, o, off⟩ := by
    rw [tiles] at htile
    by_cases hmem : off ∈ b.mFree o
    · exact ⟨true, hmem⟩
    · rw [ind_of_not_mem hmem, Nat.zero_add] at htile
      exact ⟨false, liveTiles_pos.mp htile⟩
  refine ⟨⟨free, o, off⟩, ⟨hfree, hcov⟩, ?_⟩
  rintro ⟨free', o', off'⟩ ⟨hhas, hcov'⟩
  obtain ⟨rfl, rfl, hone⟩ := h.tiling.unique hpos htile hhas.tile_pos hcov hcov'
  -- a block that is free and live at once would count twice
  have hne : ¬ (off ∈ b.mFree o ∧ b.mAllocOrder.find? off = some o) := by
    rintro ⟨hmem, hlive⟩
    rw [tiles, ind_of_mem hmem] at hone
    have := liveTiles_pos.mpr hlive
    omega
  cases free with
  | true =>
    cases free' with
    | true => rfl
    | false => exact absurd ⟨hfree, hhas⟩ hne
  | false =>
    cases free' with
    | true => exact absurd ⟨hhas, hfree⟩ hne
    | false => rfl

/-! ### The constructor -/

lemma maxOrderLoop_isSome {m capacity : ℕ} : ∀ (fuel order n : ℕ), order ≤ n → n < order + fuel →
    capacity < 2 ^ m * 2 ^ (n + 1) % 2 ^ 64 →
      (maxOrderLoop (2 ^ m) capacity fuel order).isSome := by
  intro fuel
  induction fuel with
  | zero =>
    intro order n h₁ h₂
    omega
  | succ fuel ih =>
    intro order n h₁ h₂ hcap
    rw [maxOrderLoop]
    split_ifs with hle
    · have hne : order ≠ n := by
        rintro rfl
        omega
      exact ih (order + 1) n (by omega) (by omega) hcap
    · rfl

/-- The checks of the constructor. The doubling of the smallest block must end, which the value
`0` of `roundUpPow2` denies. -/
def Accepts (capacity minBlock : ℕ) : Prop :=
  0 < capacity ∧ 0 < minBlock ∧ 0 < roundUpPow2 minBlock ∧ roundUpPow2 minBlock ≤ capacity

instance (capacity minBlock : ℕ) : Decidable (Accepts capacity minBlock) :=
  inferInstanceAs (Decidable (_ ∧ _ ∧ _ ∧ _))

/-- Below `2^63` bytes the constructor returns whenever its checks pass. -/
lemma exists_ctor {capacity minBlock : ℕ} (hcap : capacity < 2 ^ 63)
    (h : Accepts capacity minBlock) : ∃ b, ctor capacity minBlock = some b := by
  obtain ⟨h₁, h₂, h₃, h₄⟩ := h
  obtain ⟨hzero, -⟩ | ⟨m, hm, hpow, -⟩ := roundUpPow2_spec minBlock
  · omega
  · have hm63 : m < 63 := by
      rw [hpow] at h₄
      exact (Nat.pow_lt_pow_iff_right (le_refl 2)).mp (lt_of_le_of_lt h₄ hcap)
    have hsome : (maxOrderLoop (2 ^ m) capacity 63 0).isSome := by
      refine maxOrderLoop_isSome 63 0 (62 - m) (Nat.zero_le _) (by omega) ?_
      rw [← pow_add, show m + (62 - m + 1) = 63 by omega, two_pow_mod (by omega)]
      exact hcap
    obtain ⟨L, hL⟩ := isSome_iff_exists.mp hsome
    rw [ctor, if_pos ⟨h₁, h₂, h₃, h₄⟩, hpow, hL]
    exact ⟨_, rfl⟩

/-- **The representation of the buddy allocator**, over every sequence of calls with arbitrary
arguments: the free and the live blocks partition the usable space into aligned blocks, no two
free buddies coexist, and the free lists are determined by the live blocks. So two histories that
end with the same live blocks end in the same state, freeing the result of an `alloc` undoes it,
and freeing everything gives back the single block of the constructor. -/
theorem buddy_representation (capacity minBlock : ℕ) (hcap : capacity < 2 ^ 63)
    (haccept : Accepts capacity minBlock) :
    ∃ b₀, ctor capacity minBlock = some b₀ ∧ ∀ calls : List Call,
      (∀ k, (b₀.run calls).Has k → k.order ≤ b₀.mMaxOrder ∧
        b₀.mMinBlock * 2 ^ k.order ∣ k.offset ∧
          k.offset + b₀.mMinBlock * 2 ^ k.order ≤ b₀.mUsable) ∧
      (∀ x < b₀.mUsable, ∃! k, (b₀.run calls).Has k ∧ (b₀.run calls).Covers k x) ∧
      (∀ o off, o < b₀.mMaxOrder → off ∈ (b₀.run calls).mFree o →
        off ^^^ (b₀.mMinBlock * 2 ^ o) ∉ (b₀.run calls).mFree o) ∧
      (∀ calls' : List Call,
        (∀ off, (b₀.run calls').mAllocOrder.find? off = (b₀.run calls).mAllocOrder.find? off) →
          Same (b₀.run calls) (b₀.run calls')) ∧
      (∀ (pick : List ℕ → ℕ) (bytes off : ℕ), ((b₀.run calls).alloc pick bytes).1 = some off →
        Same (b₀.run calls) (b₀.run (calls ++ [.alloc pick bytes, .free off]))) ∧
      ∀ offs : List ℕ, (∀ off ∈ (b₀.run calls).mAllocOrder, off ∈ offs) →
        Same b₀ (b₀.run (calls ++ offs.map Call.free)) := by
  obtain ⟨b₀, hb₀⟩ := exists_ctor hcap haccept
  obtain ⟨hwf₀, hempty, -⟩ := ctor_spec hb₀
  refine ⟨b₀, hb₀, fun calls => ?_⟩
  obtain ⟨hwf, hmin, husable⟩ := hwf₀.run calls
  have hmax := hwf₀.maxOrder_eq hwf hmin husable
  have hrun : ∀ calls', b₀.run (calls ++ calls') = (b₀.run calls).run calls' := fun calls' =>
    List.foldl_append
  refine ⟨fun k hk => ?_, fun x hx => ?_, fun o off ho hfree => ?_, fun calls' hlive => ?_,
    fun pick bytes off halloc => ?_, fun offs hall => ?_⟩
  · have := hwf.has_aligned hk
    rwa [hmax, hmin, husable] at this
  · exact hwf.existsUnique_block (husable ▸ hx)
  · have := hwf.coalesced o off (hmax ▸ ho) hfree
    rwa [hmin] at this
  · obtain ⟨hwf', hmin', husable'⟩ := hwf₀.run calls'
    exact hwf.same hwf' (hmin'.trans hmin.symm) (husable'.trans husable.symm) hlive
  · rw [hrun]
    exact hwf.free_alloc (Prod.ext halloc rfl)
  · rw [hrun]
    exact hwf.free_all hwf₀ hmin husable hempty hall

/-- The arena of the header's example: a thousand bytes in blocks of two hundred and more. -/
theorem buddy_representation_example : ∃ b₀, ctor 1100 200 = some b₀ ∧
    Same b₀ (b₀.run ([.alloc (fun _ => 0) 200, .alloc (fun _ => 0) 200] ++
      [0, 256].map Call.free)) := by
  obtain ⟨b₀, hb₀, hruns⟩ := buddy_representation 1100 200 (by norm_num) (by decide)
  refine ⟨b₀, hb₀, (hruns [.alloc (fun _ => 0) 200, .alloc (fun _ => 0) 200]).2.2.2.2.2 [0, 256] ?_⟩
  have hlive : ∀ b, ctor 1100 200 = some b →
      (b.run [.alloc (fun _ => 0) 200, .alloc (fun _ => 0) 200]).mAllocOrder.keys = [256, 0] := by
    intro b hb
    obtain rfl := some.inj hb
    rfl
  intro off hoff
  change off ∈ (b₀.run _).mAllocOrder.keys at hoff
  rw [hlive b₀ hb₀] at hoff
  simpa [or_comm] using hoff

/-! ### The size of the block -/

/-- The loops that `alloc` runs reach the end of their conditions: the doubling of `roundUpPow2`
and the search of `orderForBytes`, the latter by shifts below the word size. -/
def AllocReturns (b : BuddyBlocks) (bytes : ℕ) : Prop :=
  0 < bytes → bytes ≤ b.mUsable →
    (∃ n, ¬ (fun p => p * 2 % 2 ^ 64)^[n] 1 < max b.mMinBlock bytes) ∧
      ∃ n < 64, ¬ b.mMinBlock * 2 ^ n % 2 ^ 64 < roundUpPow2 (max b.mMinBlock bytes)

lemma iterate_double {n : ℕ} (hn : n < 64) : (fun p => p * 2 % 2 ^ 64)^[n] 1 = 2 ^ n := by
  induction n with
  | zero => rfl
  | succ n ih =>
    rw [Function.iterate_succ_apply', ih (by omega), ← pow_succ, two_pow_mod hn]

/-- The request is rounded up to a power of two within the arena. -/
lemma WF.exists_roundUp (h : b.WF) (hle : bytes ≤ b.mUsable) :
    ∃ m j, b.mMinBlock = 2 ^ m ∧ m + b.mMaxOrder < 63 ∧ m ≤ j ∧ j ≤ m + b.mMaxOrder ∧
      roundUpPow2 (max b.mMinBlock bytes) = 2 ^ j ∧ max b.mMinBlock bytes ≤ 2 ^ j ∧
        (j = m ∨ 2 ^ (j - 1) < bytes) := by
  obtain ⟨m, hm⟩ := h.pow2
  have husable : b.mUsable = 2 ^ (m + b.mMaxOrder) := by rw [h.usable, sz, hm, pow_add]
  have hsmall : m + b.mMaxOrder < 63 := by
    have := h.small
    rw [husable] at this
    exact (Nat.pow_lt_pow_iff_right (le_refl 2)).mp this
  have hmax : max b.mMinBlock bytes ≤ 2 ^ (m + b.mMaxOrder) := by
    refine max_le ?_ (husable ▸ hle)
    rw [hm]
    exact Nat.pow_le_pow_right two_pos (Nat.le_add_right _ _)
  have hword : 2 ^ (m + b.mMaxOrder) ≤ 2 ^ 63 := Nat.pow_le_pow_right two_pos hsmall.le
  obtain ⟨-, hbig⟩ | ⟨j, -, hround, hge, hlow⟩ := roundUpPow2_spec (max b.mMinBlock bytes)
  · omega
  have hmj : m ≤ j := by
    rw [← Nat.pow_le_pow_iff_right (le_refl 2), ← hm]
    exact (le_max_left ..).trans hge
  refine ⟨m, j, hm, hsmall, hmj, ?_, hround, hge, ?_⟩
  · obtain rfl | hlow := hlow
    · exact Nat.zero_le _
    · have := (Nat.pow_lt_pow_iff_right (le_refl 2)).mp (lt_of_lt_of_le hlow hmax)
      omega
  · obtain rfl | hlow := hlow
    · exact Or.inl (by omega)
    · obtain hlow | hlow := lt_max_iff.mp hlow
      · rw [hm] at hlow
        have := (Nat.pow_lt_pow_iff_right (le_refl 2)).mp hlow
        exact Or.inl (by omega)
      · exact Or.inr hlow

lemma orderForBytes_eq (b : BuddyBlocks) (bytes : ℕ) :
    b.orderForBytes bytes = orderLoop b.mMinBlock (roundUpPow2 (max b.mMinBlock bytes)) 64 0 := by
  have hv : (if bytes < b.mMinBlock then b.mMinBlock else bytes) = max b.mMinBlock bytes := by
    split_ifs with hlt
    · exact (max_eq_left hlt.le).symm
    · exact (max_eq_right (not_lt.mp hlt)).symm
  rw [orderForBytes, hv]

lemma WF.allocReturns (h : b.WF) (bytes : ℕ) : b.AllocReturns bytes := by
  intro _ hle
  obtain ⟨m, j, hm, hsmall, hmj, hj, hround, hge, -⟩ := h.exists_roundUp hle
  refine ⟨⟨j, ?_⟩, j - m, by omega, ?_⟩
  · rw [iterate_double (by omega)]
    exact not_lt.mpr hge
  · rw [hround, hm, ← pow_add, Nat.add_sub_cancel' hmj, two_pow_mod (by omega)]
    exact lt_irrefl _

/-- **The chosen order is the least one whose blocks hold the request.** -/
lemma WF.orderForBytes_le_iff (h : b.WF) (hle : bytes ≤ b.mUsable)
    (o : ℕ) : b.orderForBytes bytes ≤ o ↔ bytes ≤ b.mMinBlock * 2 ^ o := by
  obtain ⟨m, j, hm, hsmall, hmj, hj, hround, hge, hlow⟩ := h.exists_roundUp hle
  have hneed : 2 ^ j ≤ 2 ^ m * 2 ^ b.mMaxOrder := by
    rw [← pow_add]
    exact Nat.pow_le_pow_right two_pos hj
  obtain ⟨-, hfit, hleast⟩ := orderLoop_spec (by omega : m + b.mMaxOrder < 64) hneed 64 0
    (Nat.zero_le _) (by omega) (fun o ho => absurd ho (Nat.not_lt_zero o))
  rw [orderForBytes_eq, hround, hm]
  constructor
  · intro ho
    calc bytes ≤ 2 ^ j := (le_max_right ..).trans hge
      _ ≤ 2 ^ m * 2 ^ orderLoop (2 ^ m) (2 ^ j) 64 0 := hfit
      _ ≤ 2 ^ m * 2 ^ o := Nat.mul_le_mul_left _ (Nat.pow_le_pow_right two_pos ho)
  · intro hbytes
    by_contra hlt
    -- a smaller block lies below the rounded request, hence below the request itself
    have hsmaller := hleast o (not_le.mp hlt)
    rw [← pow_add] at hsmaller hbytes
    have hmo := (Nat.pow_lt_pow_iff_right (le_refl 2)).mp hsmaller
    obtain rfl | hlow := hlow
    · omega
    · have : 2 ^ (m + o) ≤ 2 ^ (j - 1) := Nat.pow_le_pow_right two_pos (by omega)
      omega

/-! ### When `alloc` succeeds -/

lemma firstFree_isSome_iff (b : BuddyBlocks) : ∀ fuel cur : ℕ, (b.firstFree fuel cur).isSome ↔
    ∃ o, cur ≤ o ∧ o < cur + fuel ∧ (b.mFree o).entries.isEmpty = false := by
  intro fuel cur
  constructor
  · intro h
    obtain ⟨o, ho⟩ := isSome_iff_exists.mp h
    exact ⟨o, firstFree_spec b fuel cur o ho⟩
  · rintro ⟨o, hle, hlt, hne⟩
    induction fuel generalizing cur with
    | zero => omega
    | succ fuel ih =>
      rw [firstFree]
      split_ifs with hempty
      · have hcur : cur ≠ o := by
          rintro rfl
          rw [hempty] at hne
          exact Bool.noConfusion hne
        exact ih (cur + 1) (by omega) (by omega)
      · rfl

/-- `maxAllocBytes` is the largest free block. -/
lemma le_maxAllocLoop_iff (b : BuddyBlocks) (hpos : 0 < bytes) (n : ℕ) : bytes ≤ b.maxAllocLoop n ↔
      ∃ o < n, (b.mFree o).entries.isEmpty = false ∧ bytes ≤ b.mMinBlock * 2 ^ o := by
  induction n with
  | zero =>
    rw [maxAllocLoop]
    constructor
    · intro h
      omega
    · rintro ⟨o, ho, -⟩
      omega
  | succ n ih =>
    rw [maxAllocLoop]
    split_ifs with hempty
    · rw [ih]
      constructor
      · rintro ⟨o, ho, hne⟩
        exact ⟨o, by omega, hne⟩
      · rintro ⟨o, ho, hne, hfit⟩
        have : o ≠ n := by
          rintro rfl
          rw [hempty] at hne
          exact Bool.noConfusion hne
        exact ⟨o, by omega, hne, hfit⟩
    · constructor
      · intro hfit
        exact ⟨n, lt_succ_self n, by simpa using hempty, hfit⟩
      · rintro ⟨o, ho, -, hfit⟩
        exact hfit.trans
          (Nat.mul_le_mul_left _ (Nat.pow_le_pow_right two_pos (Nat.lt_succ_iff.mp ho)))

/-- A free block is no larger than the arena. -/
lemma maxAllocBytes_le (h : b.WF) : b.maxAllocBytes ≤ b.mUsable := by
  obtain hzero | hpos := Nat.eq_zero_or_pos b.maxAllocBytes
  · omega
  · obtain ⟨o, ho, -, hle⟩ := (b.le_maxAllocLoop_iff hpos (b.mMaxOrder + 1)).mp le_rfl
    calc b.maxAllocBytes ≤ b.mMinBlock * 2 ^ o := hle
      _ ≤ sz b.mMinBlock b.mMaxOrder := sz_le_sz b.mMinBlock (Nat.lt_succ_iff.mp ho)
      _ = b.mUsable := h.usable.symm

/-- **`alloc` succeeds exactly up to the largest free block.** -/
lemma WF.alloc_isSome_iff (h : b.WF) (pick : List ℕ → ℕ) (bytes : ℕ) :
    (b.alloc pick bytes).1.isSome ↔ 0 < bytes ∧ bytes ≤ b.maxAllocBytes := by
  simp only [alloc]
  split_ifs with hguard hwant
  · -- refused before the search
    have := maxAllocBytes_le h
    simp only [isSome_none, Bool.false_eq_true, false_iff]
    omega
  · have hle := (h.orderForBytes_spec (by omega : bytes ≤ b.mUsable)).1
    omega
  · have hpos : 0 < bytes := by omega
    have hle : bytes ≤ b.mUsable := by omega
    have hfirst : (b.firstFree (b.mMaxOrder + 1 - b.orderForBytes bytes)
        (b.orderForBytes bytes)).isSome ↔ bytes ≤ b.maxAllocBytes := by
      rw [firstFree_isSome_iff, maxAllocBytes, le_maxAllocLoop_iff b hpos]
      refine exists_congr fun o => ?_
      rw [h.orderForBytes_le_iff hle o]
      constructor
      · rintro ⟨hfit, hlt, hne⟩
        exact ⟨by omega, hne, hfit⟩
      · rintro ⟨hlt, hne, hfit⟩
        exact ⟨hfit, by omega, hne⟩
    rw [← hfirst]
    cases b.firstFree (b.mMaxOrder + 1 - b.orderForBytes bytes) (b.orderForBytes bytes) with
    | none => simp
    | some cur => simp [hpos]

/-- More live blocks leave no larger free block. -/
lemma WF.maxAllocBytes_mono (h : b.WF) (h' : b'.WF)
    (hmin : b'.mMinBlock = b.mMinBlock) (husable : b'.mUsable = b.mUsable)
    (hlive : ∀ off o, b.mAllocOrder.find? off = some o → b'.mAllocOrder.find? off = some o) :
    b'.maxAllocBytes ≤ b.maxAllocBytes := by
  obtain hzero | hpos := Nat.eq_zero_or_pos b'.maxAllocBytes
  · omega
  obtain ⟨o, -, hne, hle⟩ := (b'.le_maxAllocLoop_iff hpos (b'.mMaxOrder + 1)).mp le_rfl
  obtain ⟨off, hoff⟩ : ∃ off, off ∈ b'.mFree o := ⟨_, beginOf_mem (fun _ => 0) hne⟩
  have hmax := h.maxOrder_eq h' hmin husable
  obtain ⟨ho, hd, hin, hclear, -⟩ := (h'.mem_free_iff o off).mp hoff
  rw [hmin] at hd hin hclear
  rw [hmax] at ho hin
  -- the block is clear of the live blocks that were there before, hence inside a free block
  have hclear' : Clear b.mMinBlock (liveTiles b.mAllocOrder) o off := fun o' off' htile =>
    hclear o' off' (liveTiles_pos.mpr (hlive off' o' (liveTiles_pos.mp htile)))
  obtain ⟨o', off', hfree, hoo', -, -⟩ :=
    exists_tile_of_clear h.minBlock_pos h.tiling' h.coalesced' o off ho hd hin hclear'
  have ho' := (h.tiling'.aligned o' off' (Nat.add_pos_left hfree _)).1
  refine (b.le_maxAllocLoop_iff hpos (b.mMaxOrder + 1)).mpr ⟨o', lt_succ_of_le ho', ?_, ?_⟩
  · have hmem : off' ∈ (b.mFree o').keys := freeTiles_pos.mp hfree
    rw [keys] at hmem
    obtain ⟨e, he, -⟩ := List.mem_map.mp hmem
    exact List.isEmpty_eq_false_iff.mpr (List.ne_nil_of_mem he)
  · calc b'.maxAllocBytes ≤ b'.mMinBlock * 2 ^ o := hle
      _ = b.mMinBlock * 2 ^ o := by rw [hmin]
      _ ≤ b.mMinBlock * 2 ^ o' := Nat.mul_le_mul_left _ (Nat.pow_le_pow_right two_pos hoo')

/-- What a successful `alloc` returns: the smallest block that holds the request, inside the
arena and apart from all live blocks. -/
lemma WF.alloc_block (h : b.WF) {pick : List ℕ → ℕ} {off : ℕ}
    (ha : b.alloc pick bytes = (some off, b')) :
    IsLeast {z | bytes ≤ z ∧ ∃ o, z = b.mMinBlock * 2 ^ o} (b'.blockBytes off) ∧
      off + b'.blockBytes off ≤ b.mUsable ∧
        ∀ y ∈ b.mAllocOrder, y + b.blockBytes y ≤ off ∨ off + b'.blockBytes off ≤ y := by
  obtain ⟨hwf, hnone, hset, hmin, husable⟩ := alloc_spec h ha
  have hle : bytes ≤ b.mUsable := by
    have hsome := (h.alloc_isSome_iff pick bytes).mp (by rw [ha]; rfl)
    exact hsome.2.trans (maxAllocBytes_le h)
  have hfind : b'.mAllocOrder.find? off = some (b.orderForBytes bytes) := by
    rw [hset, find?_set, if_pos rfl]
  have hbytes : b'.blockBytes off = b.mMinBlock * 2 ^ b.orderForBytes bytes := by
    rw [blockBytes, hfind, hmin]
  have hhas : b'.Has ⟨false, b.orderForBytes bytes, off⟩ := hfind
  refine ⟨⟨⟨?_, b.orderForBytes bytes, hbytes⟩, ?_⟩, ?_, fun y hy => ?_⟩
  · rw [hbytes]
    exact (h.orderForBytes_le_iff hle _).mp le_rfl
  · rintro z ⟨hfit, o, rfl⟩
    rw [hbytes]
    exact Nat.mul_le_mul_left _
      (Nat.pow_le_pow_right two_pos ((h.orderForBytes_le_iff hle o).mpr hfit))
  · have := (hwf.has_aligned hhas).2.2
    rwa [hmin, husable, ← hbytes] at this
  · -- the live block is still there, and blocks of one arena do not meet
    obtain ⟨o, ho⟩ := mem_iff_find?.mp hy
    have hne : y ≠ off := by
      rintro rfl
      exact some_ne_none o (ho.symm.trans hnone)
    have hlive : b'.mAllocOrder.find? y = some o := by rw [hset, find?_set, if_neg hne, ho]
    have hold : b'.blockBytes y = b.blockBytes y := by rw [blockBytes, blockBytes, hlive, ho, hmin]
    rw [← hold]
    exact BuddyAllocator.blocks_disjoint ⟨b', hwf⟩
      (fun hn => some_ne_none o (hlive.symm.trans hn))
      (fun hn => some_ne_none _ (hfind.symm.trans hn)) hne

/-! ### Free and live bytes -/

/-- The live blocks of one order. -/
def liveOfOrder (b : BuddyBlocks) (o : ℕ) : Finset ℕ :=
  b.mAllocOrder.keys.toFinset.filter fun y => (b.mAllocOrder.find? y).getD 0 = o

lemma mem_liveOfOrder : y ∈ b.liveOfOrder o ↔ b.mAllocOrder.find? y = some o := by
  rw [liveOfOrder, mem_filter, List.mem_toFinset]
  constructor
  · rintro ⟨hmem, ho⟩
    obtain ⟨o', ho'⟩ := mem_iff_find?.mp hmem
    rw [ho', getD_some] at ho
    rw [ho', ho]
  · intro h
    exact ⟨mem_of_find? h, by rw [h]; rfl⟩

lemma WF.sum_freeTiles (h : b.WF) (ho : o ≤ b.mMaxOrder) :
    ∑ k ∈ range (2 ^ (b.mMaxOrder - o)), b.freeTiles o (k * sz b.mMinBlock o)
      = (b.mFree o).size := by
  have hcard : (b.mFree o).keys.toFinset.card = (b.mFree o).size := by
    rw [List.toFinset_card_of_nodup (b.mFree o).keys_nodup, keys, List.length_map, UMap.size]
  rw [← hcard, ← sum_ite_mem_mul (sz_pos h.minBlock_pos o)]
  · refine sum_congr rfl fun k _ => ?_
    rw [freeTiles, ind]
    exact if_congr List.mem_toFinset.symm rfl rfl
  · intro y hy
    have hal := h.tiling'.aligned o y
      (Nat.add_pos_left (freeTiles_pos.mpr (List.mem_toFinset.mp hy)) _)
    exact ⟨hal.2.1, sz_eq_mul ho ▸ hal.2.2⟩

lemma WF.sum_liveTiles (h : b.WF) (ho : o ≤ b.mMaxOrder) :
    ∑ k ∈ range (2 ^ (b.mMaxOrder - o)), liveTiles b.mAllocOrder o (k * sz b.mMinBlock o)
      = (b.liveOfOrder o).card := by
  rw [← sum_ite_mem_mul (sz_pos h.minBlock_pos o)]
  · refine sum_congr rfl fun k _ => ?_
    rw [liveTiles]
    exact if_congr mem_liveOfOrder.symm rfl rfl
  · intro y hy
    have hal := h.tiling'.aligned o y
      (Nat.add_pos_right _ (liveTiles_pos.mpr (mem_liveOfOrder.mp hy)))
    exact ⟨hal.2.1, sz_eq_mul ho ▸ hal.2.2⟩

/-- The bytes of the live blocks, order by order. -/
lemma WF.sum_liveOfOrder (h : b.WF) :
    ∑ o ∈ range (b.mMaxOrder + 1), (b.liveOfOrder o).card * (b.mMinBlock * 2 ^ o)
      = b.mAllocOrder.total fun off _ => b.blockBytes off := by
  have horder : ∀ y ∈ b.mAllocOrder.keys.toFinset,
      (b.mAllocOrder.find? y).getD 0 ∈ range (b.mMaxOrder + 1) := by
    intro y hy
    obtain ⟨o, ho⟩ := mem_iff_find?.mp (List.mem_toFinset.mp hy)
    have hhas : b.Has ⟨false, o, y⟩ := ho
    have hle : o ≤ b.mMaxOrder := (h.has_aligned hhas).1
    rw [ho, getD_some, mem_range]
    omega
  calc ∑ o ∈ range (b.mMaxOrder + 1), (b.liveOfOrder o).card * (b.mMinBlock * 2 ^ o)
      = ∑ o ∈ range (b.mMaxOrder + 1), ∑ y ∈ b.liveOfOrder o, b.blockBytes y := by
        refine sum_congr rfl fun o _ => ?_
        rw [sum_const_nat fun y hy => ?_]
        rw [blockBytes, mem_liveOfOrder.mp hy]
    _ = ∑ y ∈ b.mAllocOrder.keys.toFinset, b.blockBytes y := sum_fiberwise_of_maps_to horder _
    _ = ∑ y ∈ b.mAllocOrder.keys.toFinset,
          b.mAllocOrder.weight (fun off _ => b.blockBytes off) y := by
        refine sum_congr rfl fun y hy => ?_
        obtain ⟨o, ho⟩ := mem_iff_find?.mp (List.mem_toFinset.mp hy)
        rw [weight_of_find? _ ho]
    _ = b.mAllocOrder.total fun off _ => b.blockBytes off := (total_eq_sum _ _ (Subset.refl _)).symm

/-- **No byte is lost**: the free and the live blocks add up to the usable space. -/
lemma WF.freeBytes_add_live (h : b.WF) :
    b.freeBytes + b.mAllocOrder.total (fun off _ => b.blockBytes off) = b.mUsable := by
  have hsum := h.tiling'.sum_sz h.minBlock_pos
  rw [← h.usable] at hsum
  rw [← hsum, ← h.sum_liveOfOrder, freeBytes, ← sum_add_distrib]
  refine sum_congr rfl fun o ho => ?_
  have hle : o ≤ b.mMaxOrder := Nat.lt_succ_iff.mp (mem_range.mp ho)
  rw [sum_add_distrib, h.sum_freeTiles hle, h.sum_liveTiles hle, sz]
  ring

/-- **Completeness of the buddy allocator**, in every state that calls with arbitrary arguments
lead to: `alloc` returns for every request; it succeeds if and only if the request is positive and
at most `maxAllocBytes()`, and then with the smallest block that holds it, apart from all live
blocks; a failure changes nothing; and free and live bytes add up to `capacity()`. -/
theorem buddy_completeness {capacity minBlock : ℕ} {b₀ : BuddyBlocks}
    (h : ctor capacity minBlock = some b₀) (calls : List Call) :
    (∀ (pick : List ℕ → ℕ) (bytes : ℕ), (b₀.run calls).AllocReturns bytes ∧
      (((b₀.run calls).alloc pick bytes).1.isSome ↔
        0 < bytes ∧ bytes ≤ (b₀.run calls).maxAllocBytes) ∧
      (∀ off b', (b₀.run calls).alloc pick bytes = (some off, b') →
        IsLeast {z | bytes ≤ z ∧ ∃ o, z = b₀.mMinBlock * 2 ^ o} (b'.blockBytes off) ∧
          off + b'.blockBytes off ≤ b₀.mUsable ∧
            ∀ y ∈ (b₀.run calls).mAllocOrder,
              y + (b₀.run calls).blockBytes y ≤ off ∨ off + b'.blockBytes off ≤ y) ∧
      (((b₀.run calls).alloc pick bytes).1 = none →
        ((b₀.run calls).alloc pick bytes).2 = b₀.run calls)) ∧
    (b₀.run calls).freeBytes +
      (b₀.run calls).mAllocOrder.total (fun off _ => (b₀.run calls).blockBytes off)
        = b₀.mUsable := by
  obtain ⟨hwf, hmin, husable⟩ := (ctor_spec h).1.run calls
  refine ⟨fun pick bytes => ⟨hwf.allocReturns bytes, hwf.alloc_isSome_iff pick bytes, ?_, ?_⟩, ?_⟩
  · intro off b' halloc
    have := hwf.alloc_block halloc
    rwa [hmin, husable] at this
  · intro hnone
    exact alloc_none_spec (Prod.ext hnone rfl)
  · rw [hwf.freeBytes_add_live, husable]

/-- An arena of four blocks after one allocation: half of it can still be had in one piece. -/
theorem buddy_completeness_example : ∃ b₀, ctor 1100 200 = some b₀ ∧
    ((b₀.run [.alloc (fun _ => 0) 200]).alloc (fun _ => 0) 512).1 = some 512 ∧
      (b₀.run [.alloc (fun _ => 0) 200]).freeBytes +
        (b₀.run [.alloc (fun _ => 0) 200]).mAllocOrder.total
          (fun off _ => (b₀.run [.alloc (fun _ => 0) 200]).blockBytes off) = b₀.mUsable := by
  obtain ⟨b₀, hb₀⟩ := exists_ctor (show 1100 < 2 ^ 63 by norm_num) (show Accepts 1100 200 by decide)
  refine ⟨b₀, hb₀, ?_, (buddy_completeness hb₀ [.alloc (fun _ => 0) 200]).2⟩
  obtain rfl := some.inj hb₀
  rfl

end BuddyBlocks

end TrtLlm
