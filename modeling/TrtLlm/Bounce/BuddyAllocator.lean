import TrtLlm.Bounce.BuddyBlocks

/-!
The power-of-two buddy allocator of the bounce arena.

The loops of `alloc` and `free` keep the invariant of the blocks.  The allocator itself is the
subtype `BuddyAllocator` of the states that satisfy it, so a client never meets an arena with
overlapping blocks.  What a client uses of it are the three lemmas `alloc_none`, `alloc_some` and
`live?_free`.
-/

namespace TrtLlm

open DyadicTiling List Function Option Nat UMap Prod

namespace BuddyBlocks

variable {b b' : BuddyBlocks} {bytes o x : ℕ}

/-! ### The splitting loop -/

/-- What a loop of `alloc` or `free` keeps while it works on the block of order `o` at `x`
that it has in hand: together with that block the arena is tiled, and its free blocks are
coalesced. -/
structure InHand (b : BuddyBlocks) (o x : ℕ) : Prop where
  pow2 : ∃ m, b.mMinBlock = 2 ^ m
  tiling : Tiling b.mMinBlock b.mMaxOrder fun o' y => b.tiles o' y + single o x o' y
  coalesced : b.Coalesced

lemma InHand.minBlock_pos (h : b.InHand o x) : 0 < b.mMinBlock := by
  obtain ⟨m, hm⟩ := h.pow2
  rw [hm]
  positivity

/-- No block of the arena starts inside the block in hand. -/
lemma InHand.tiles_eq_zero {o' y : ℕ} (h : b.InHand o x)
    (hy : x ≤ y ∧ y < x + sz b.mMinBlock o) : b.tiles o' y = 0 :=
  h.tiling.not_mem_of_single h.minBlock_pos hy

lemma not_mem_free_of_tiles {y : ℕ} (h : b.tiles o y = 0) : y ∉ b.mFree o := by
  intro hy
  have := ind_of_mem hy
  rw [tiles] at h
  omega

lemma InHand.split (h : b.InHand (o + 1) x) :
    (b.pushFree o (x + b.mMinBlock * 2 ^ o)).InHand o x := by
  have hpos := h.minBlock_pos
  have hs := sz_succ b.mMinBlock o
  have hszo := sz_pos hpos o
  have hal := h.tiling.aligned (o + 1) x (by simp [single])
  have hx : sz b.mMinBlock o ∣ x := (sz_dvd_sz _ (le_succ o)).trans hal.2.1
  have hfree : ∀ o' y, x ≤ y → y < x + sz b.mMinBlock (o + 1) → y ∉ b.mFree o' :=
    fun o' y h1 h2 => not_mem_free_of_tiles (h.tiles_eq_zero ⟨h1, h2⟩)
  have hup : x + b.mMinBlock * 2 ^ o ∉ b.mFree o :=
    hfree o _ (by omega) (by rw [hs]; simp only [sz] at hszo ⊢; omega)
  have hlow : x ∉ b.mFree o := hfree o x le_rfl (by omega)
  refine ⟨h.pow2, ?_, ?_⟩
  · have heq : (fun o' y => (b.pushFree o (x + b.mMinBlock * 2 ^ o)).tiles o' y + single o x o' y)
        = fun o' y => b.tiles o' y + single o x o' y
            + single o (x + sz b.mMinBlock o) o' y := by
      funext o' y
      simp only [tiles_pushFree hup, sz]
      omega
    rw [heq]
    exact h.tiling.split hpos
  · intro o' y ho' hy hbud
    simp only [pushFree] at hy hbud ho'
    by_cases hoo : o' = o
    · subst hoo
      simp only [update_self, USet.mem_insert] at hy hbud
      -- the new block's buddy is the block in hand, which is not free
      have key : ∀ z, z ^^^ (b.mMinBlock * 2 ^ o') = x + b.mMinBlock * 2 ^ o' → z = x := by
        intro z hz
        have h2 : z = (x + sz b.mMinBlock o') ^^^ (b.mMinBlock * 2 ^ o') := by
          rw [sz, ← hz, xor_xor_cancel_right]
        rcases xor_sz h.pow2 hx with ⟨-, h3⟩ | ⟨w, rfl, h3, -⟩
        · rw [h2, ← h3, xor_xor_cancel_right]
        · have h5 : sz b.mMinBlock (o' + 1) ∣ sz b.mMinBlock o' := (Nat.dvd_add_right h3).mp hal.2.1
          exact absurd (le_of_dvd hszo h5) (by omega)
      rcases hy with rfl | hy
      · have h4 : (x + b.mMinBlock * 2 ^ o') ^^^ (b.mMinBlock * 2 ^ o') = x :=
          key _ (by rw [xor_xor_cancel_right])
        rw [h4] at hbud
        rcases hbud with hb | hb
        · simp only [sz] at hszo
          omega
        · exact hlow hb
      · rcases hbud with hb | hb
        · exact hlow (key y hb ▸ hy)
        · exact h.coalesced o' y ho' hy hb
    · simp only [update_of_ne hoo] at hy hbud
      exact h.coalesced o' y ho' hy hbud

/-- The parts of the state that the loops leave alone. -/
structure Frame (b b' : BuddyBlocks) : Prop where
  minBlock : b'.mMinBlock = b.mMinBlock
  maxOrder : b'.mMaxOrder = b.mMaxOrder
  usable : b'.mUsable = b.mUsable
  allocOrder : b'.mAllocOrder = b.mAllocOrder

lemma Frame.refl (b : BuddyBlocks) : Frame b b := ⟨rfl, rfl, rfl, rfl⟩

lemma Frame.trans {b'' : BuddyBlocks} (h : Frame b b') (h' : Frame b' b'') : Frame b b'' :=
  ⟨h'.minBlock.trans h.minBlock, h'.maxOrder.trans h.maxOrder, h'.usable.trans h.usable,
    h'.allocOrder.trans h.allocOrder⟩

lemma splitDown_spec {want : ℕ} : ∀ (cur : ℕ) (b : BuddyBlocks), want ≤ cur → b.InHand cur x →
    (splitDown want x cur b).InHand want x ∧ Frame b (splitDown want x cur b) := by
  intro cur
  induction cur with
  | zero =>
    intro b hw h
    obtain rfl : want = 0 := by omega
    exact ⟨h, Frame.refl b⟩
  | succ cur ih =>
    intro b hw h
    by_cases hlt : want < cur + 1
    · rw [splitDown, if_pos hlt]
      obtain ⟨h1, h2⟩ := ih _ (by omega) h.split
      have hf : Frame b (b.pushFree cur (x + b.mMinBlock * 2 ^ cur)) := ⟨rfl, rfl, rfl, rfl⟩
      exact ⟨h1, hf.trans h2⟩
    · obtain rfl : want = cur + 1 := by omega
      rw [splitDown, if_neg hlt]
      exact ⟨h, Frame.refl b⟩

/-! ### The merging loop -/

/-- The block in hand goes to the free list when its buddy is not free. -/
lemma InHand.push (h : b.InHand o x)
    (hbuddy : o < b.mMaxOrder → x ^^^ (b.mMinBlock * 2 ^ o) ∉ b.mFree o) :
    Tiling b.mMinBlock b.mMaxOrder (b.pushFree o x).tiles ∧ (b.pushFree o x).Coalesced := by
  have hszo := sz_pos h.minBlock_pos o
  have hx : x ∉ b.mFree o := not_mem_free_of_tiles (h.tiles_eq_zero ⟨le_rfl, by omega⟩)
  refine ⟨by rw [tiles_pushFree hx]; exact h.tiling, ?_⟩
  intro o' y ho' hy hbud
  simp only [pushFree] at hy hbud ho'
  by_cases hoo : o' = o
  · subst hoo
    simp only [update_self, USet.mem_insert] at hy hbud
    have hne : ∀ z : ℕ, z ^^^ (b.mMinBlock * 2 ^ o') ≠ z := by
      intro z hz
      have h0 : b.mMinBlock * 2 ^ o' = 0 := by
        rw [← xor_xor_cancel_left z (b.mMinBlock * 2 ^ o'), hz, Nat.xor_self]
      simp only [sz] at hszo
      omega
    rcases hy with rfl | hy
    · exact hbud.elim (hne y) (hbuddy ho')
    · rcases hbud with hb | hb
      · refine hbuddy ho' ?_
        rw [← hb, xor_xor_cancel_right]
        exact hy
      · exact h.coalesced o' y ho' hy hb
  · simp only [update_of_ne hoo] at hy hbud
    exact h.coalesced o' y ho' hy hbud

/-- The block in hand is joined with its free buddy. -/
lemma InHand.merge (h : b.InHand o x) (ho : o < b.mMaxOrder)
    (hbuddy : x ^^^ (b.mMinBlock * 2 ^ o) ∈ b.mFree o) :
    (b.popFree o (x ^^^ (b.mMinBlock * 2 ^ o))).InHand (o + 1)
      (if x < x ^^^ (b.mMinBlock * 2 ^ o) then x else x ^^^ (b.mMinBlock * 2 ^ o)) := by
  have hpos := h.minBlock_pos
  have hszo := sz_pos hpos o
  set z := x ^^^ (b.mMinBlock * 2 ^ o) with hz
  have hx : sz b.mMinBlock o ∣ x := (h.tiling.aligned o x (by simp [single])).2.1
  have ht : Tiling b.mMinBlock b.mMaxOrder fun o' y =>
      (b.popFree o z).tiles o' y + single o z o' y + single o x o' y := by
    have := h.tiling
    rwa [← tiles_popFree hbuddy] at this
  refine ⟨h.pow2, ?_, ?_⟩
  · rcases xor_sz h.pow2 hx with ⟨hdvd, hy⟩ | ⟨y, hxy, hdvd, hy⟩
    · rw [← hz] at hy
      rw [if_pos (by omega)]
      refine Tiling.merge hpos ho hdvd ?_
      rw [← hy]
      have hcomm : (fun o' y => (b.popFree o z).tiles o' y + single o x o' y + single o z o' y)
          = fun o' y => (b.popFree o z).tiles o' y + single o z o' y + single o x o' y := by
        funext o' y
        omega
      rw [hcomm]
      exact ht
    · rw [← hz] at hy
      rw [if_neg (by omega), hy]
      refine Tiling.merge hpos ho hdvd ?_
      rw [hy, hxy] at ht
      exact ht
  · intro o' y ho' hy hbud
    simp only [popFree] at hy hbud ho'
    by_cases hoo : o' = o
    · subst hoo
      simp only [update_self, mem_erase] at hy hbud
      exact h.coalesced o' y ho' hy.2 hbud.2
    · simp only [update_of_ne hoo] at hy hbud
      exact h.coalesced o' y ho' hy hbud

lemma coalesce_spec : ∀ (fuel o x : ℕ) (b : BuddyBlocks), fuel = b.mMaxOrder - o → b.InHand o x →
    Tiling b.mMinBlock b.mMaxOrder (coalesce fuel o x b).tiles
      ∧ (coalesce fuel o x b).Coalesced ∧ Frame b (coalesce fuel o x b) := by
  intro fuel
  induction fuel with
  | zero =>
    intro o x b hf h
    obtain ⟨h1, h2⟩ := h.push (fun ho => by omega)
    exact ⟨h1, h2, ⟨rfl, rfl, rfl, rfl⟩⟩
  | succ fuel ih =>
    intro o x b hf h
    rw [coalesce]
    split
    · rename_i hb
      have h' := h.merge (by omega) hb
      obtain ⟨h1, h2, h3⟩ := ih (o + 1) _ _ (by simp only [popFree]; omega) h'
      have hfr : Frame b (b.popFree o (x ^^^ (b.mMinBlock * 2 ^ o))) := ⟨rfl, rfl, rfl, rfl⟩
      exact ⟨h1, h2, hfr.trans h3⟩
    · rename_i hb
      obtain ⟨h1, h2⟩ := h.push (fun _ => hb)
      exact ⟨h1, h2, ⟨rfl, rfl, rfl, rfl⟩⟩

/-! ### `alloc` and `free` keep the invariant -/

lemma beginOf_mem (pick : List ℕ → ℕ) {s : USet ℕ} (h : s.entries.isEmpty = false) :
    beginOf pick s ∈ s := by
  have hlen : 0 < s.keys.length := by
    rw [UMap.keys, length_map, length_pos_iff]
    simpa using h
  have hlt := mod_lt (pick s.keys) hlen
  rw [beginOf, getD_eq_getElem _ _ hlt]
  exact getElem_mem hlt

lemma firstFree_spec (b : BuddyBlocks) : ∀ (fuel cur o : ℕ), b.firstFree fuel cur = some o →
    cur ≤ o ∧ o < cur + fuel ∧ (b.mFree o).entries.isEmpty = false := by
  intro fuel
  induction fuel with
  | zero =>
    intro cur o h
    simp [firstFree] at h
  | succ fuel ih =>
    intro cur o h
    rw [firstFree] at h
    split at h
    · have := ih (cur + 1) o h
      exact ⟨by omega, by omega, this.2.2⟩
    · rename_i hne
      obtain rfl : cur = o := by simpa using h
      exact ⟨le_rfl, by omega, by simpa using hne⟩

/-- Taking a free block into the hand. -/
lemma WF.pop (h : b.WF) (hx : x ∈ b.mFree o) : (b.popFree o x).InHand o x := by
  refine ⟨h.pow2, by rw [tiles_popFree hx]; exact h.tiling, ?_⟩
  intro o' y ho' hy hbud
  simp only [popFree] at hy hbud ho'
  by_cases hoo : o' = o
  · subst hoo
    simp only [update_self, mem_erase] at hy hbud
    exact h.coalesced o' y ho' hy.2 hbud.2
  · simp only [update_of_ne hoo] at hy hbud
    exact h.coalesced o' y ho' hy hbud

/-- What a successful `alloc` does: it returns a block that was not live and is live
afterwards, of the order `orderForBytes`. -/
lemma alloc_spec {pick : List ℕ → ℕ} (h : b.WF) {off : ℕ}
    (ha : b.alloc pick bytes = (some off, b')) :
    b'.WF ∧ b.mAllocOrder.find? off = none
      ∧ b'.mAllocOrder = b.mAllocOrder.set off (b.orderForBytes bytes)
      ∧ b'.mMinBlock = b.mMinBlock ∧ b'.mUsable = b.mUsable := by
  simp only [alloc] at ha
  split at ha
  · simp at ha
  split at ha
  · simp at ha
  rename_i hwant
  split at ha
  · simp at ha
  rename_i cur hcur
  obtain ⟨hle, hlt, hne⟩ := firstFree_spec b _ _ _ hcur
  have hmem := beginOf_mem pick hne
  obtain ⟨hin, hfr⟩ := splitDown_spec cur _ hle (h.pop hmem)
  simp only [Prod.mk.injEq, some.injEq] at ha
  obtain ⟨hoff, rfl⟩ := ha
  rw [hoff] at hin hfr hmem ⊢
  set b₁ := splitDown (b.orderForBytes bytes) off cur (b.popFree cur off) with hb₁
  have hnone : b₁.mAllocOrder.find? off = none := by
    refine eq_none_iff_forall_ne_some.mpr fun o' ho' => ?_
    have h0 : b₁.tiles o' off = 0 :=
      hin.tiles_eq_zero ⟨le_rfl, Nat.lt_add_of_pos_right (sz_pos hin.minBlock_pos _)⟩
    simp [tiles, liveTiles, ho'] at h0
  have hnone' : b.mAllocOrder.find? off = none := by
    rw [hfr.allocOrder] at hnone
    exact hnone
  have hnm : off ∉ b₁.mAllocOrder := find?_eq_none_iff.mp hnone
  refine ⟨⟨hin.pow2, ?_, ?_, ?_, hin.coalesced⟩, hnone', ?_, hfr.minBlock, hfr.usable⟩
  · have := h.usable
    simp only [hfr.usable, hfr.minBlock, hfr.maxOrder]
    exact this
  · have := h.small
    simp only [hfr.usable]
    exact this
  · rw [tiles_emplace hnone]
    exact hin.tiling
  · simp only [emplace]
    rw [if_neg hnm, hfr.allocOrder]
    rfl

/-- A failed `alloc` leaves the arena alone. -/
lemma alloc_none_spec {pick : List ℕ → ℕ} (ha : b.alloc pick bytes = (none, b')) : b' = b := by
  simp only [alloc] at ha
  split at ha
  · exact (Prod.mk.inj ha).2.symm
  split at ha
  · exact (Prod.mk.inj ha).2.symm
  split at ha
  · exact (Prod.mk.inj ha).2.symm
  · simp at ha

/-- `free` removes the block from the live map and nothing else. -/
lemma free_spec (h : b.WF) (off : ℕ) :
    (b.free off).WF ∧ (b.free off).mAllocOrder = b.mAllocOrder.erase off
      ∧ (b.free off).mMinBlock = b.mMinBlock ∧ (b.free off).mUsable = b.mUsable := by
  rw [free]
  split
  · rename_i hnone
    exact ⟨h, (UMap.erase_of_not_mem (find?_eq_none_iff.mp hnone)).symm, rfl, rfl⟩
  · rename_i order hsome
    have hin : ({ b with mAllocOrder := b.mAllocOrder.erase off } : BuddyBlocks).InHand order
        off := by
      refine ⟨h.pow2, ?_, h.coalesced⟩
      have := h.tiling
      rwa [← tiles_erase hsome] at this
    obtain ⟨h1, h2, h3⟩ := coalesce_spec (b.mMaxOrder - order) order off
      { b with mAllocOrder := b.mAllocOrder.erase off } rfl hin
    refine ⟨⟨?_, ?_, ?_, ?_, h2⟩, h3.allocOrder, h3.minBlock, h3.usable⟩
    · rw [h3.minBlock]; exact h.pow2
    · rw [h3.usable, h3.minBlock, h3.maxOrder]; exact h.usable
    · rw [h3.usable]; exact h.small
    · rw [h3.minBlock, h3.maxOrder]; exact h1

/-! ### Sizes and orders -/

lemma two_pow_mod {k : ℕ} (h : k < 64) : 2 ^ k % 2 ^ 64 = 2 ^ k :=
  mod_eq_of_lt (Nat.pow_lt_pow_right (by norm_num) h)

lemma two_pow_mod_eq_zero {k : ℕ} (h : 64 ≤ k) : 2 ^ k % 2 ^ 64 = 0 :=
  mod_eq_zero_of_dvd (pow_dvd_pow 2 h)

/-- The doubling loop ends at the least power of two above `v`, or spins at zero when `v`
exceeds the largest power of two in a word. -/
lemma roundUpPow2Loop_spec (v : ℕ) : ∀ fuel k : ℕ, k + fuel = 64 → (k = 0 ∨ 2 ^ (k - 1) < v) →
    (roundUpPow2Loop v fuel (2 ^ k % 2 ^ 64) = 0 ∧ 2 ^ 63 < v)
      ∨ ∃ j, j < 64 ∧ roundUpPow2Loop v fuel (2 ^ k % 2 ^ 64) = 2 ^ j ∧ v ≤ 2 ^ j
          ∧ (j = 0 ∨ 2 ^ (j - 1) < v) := by
  intro fuel
  induction fuel with
  | zero =>
    intro k hk hlow
    obtain rfl : k = 64 := by omega
    exact Or.inl ⟨by simp [roundUpPow2Loop], by simpa using hlow⟩
  | succ fuel ih =>
    intro k hk hlow
    rw [roundUpPow2Loop, two_pow_mod (by omega : k < 64)]
    split
    · rename_i hlt
      have hnext := ih (k + 1) (by omega) (Or.inr (by simpa using hlt))
      rwa [pow_succ] at hnext
    · rename_i hge
      exact Or.inr ⟨k, by omega, rfl, by omega, hlow⟩

lemma roundUpPow2_spec (v : ℕ) : (roundUpPow2 v = 0 ∧ 2 ^ 63 < v)
    ∨ ∃ j, j < 64 ∧ roundUpPow2 v = 2 ^ j ∧ v ≤ 2 ^ j ∧ (j = 0 ∨ 2 ^ (j - 1) < v) :=
  roundUpPow2Loop_spec v 64 0 rfl (Or.inl rfl)

/-- `orderForBytes`' loop ends at the least order whose blocks reach `need`. -/
lemma orderLoop_spec {m L need : ℕ} (hL : m + L < 64) (hneed : need ≤ 2 ^ m * 2 ^ L) :
    ∀ fuel order : ℕ, order ≤ L → L < order + fuel →
      (∀ o < order, 2 ^ m * 2 ^ o < need) →
      orderLoop (2 ^ m) need fuel order ≤ L
        ∧ need ≤ 2 ^ m * 2 ^ orderLoop (2 ^ m) need fuel order
        ∧ ∀ o < orderLoop (2 ^ m) need fuel order, 2 ^ m * 2 ^ o < need := by
  intro fuel
  induction fuel with
  | zero =>
    intro order h1 h2
    omega
  | succ fuel ih =>
    intro order h1 h2 hlow
    rw [orderLoop, ← pow_add, two_pow_mod (by omega : m + order < 64), pow_add]
    split
    · rename_i hlt
      have hne : order ≠ L := by
        rintro rfl
        omega
      refine ih (order + 1) (by omega) (by omega) fun o ho => ?_
      rcases Nat.lt_succ_iff_lt_or_eq.mp ho with ho' | rfl
      · exact hlow o ho'
      · exact hlt
    · rename_i hge
      exact ⟨h1, by omega, hlow⟩

/-- The order chosen for a request that fits the arena: its blocks hold the request, and
the arena has blocks of that order. -/
lemma WF.orderForBytes_spec (h : b.WF) (hle : bytes ≤ b.mUsable) :
    b.orderForBytes bytes ≤ b.mMaxOrder ∧ bytes ≤ sz b.mMinBlock (b.orderForBytes bytes) := by
  obtain ⟨m, hm⟩ := h.pow2
  have hus : b.mUsable = 2 ^ (m + b.mMaxOrder) := by rw [h.usable, sz, hm, pow_add]
  have hsmall : m + b.mMaxOrder < 63 := by
    have := h.small
    rw [hus] at this
    exact (Nat.pow_lt_pow_iff_right (by norm_num)).mp this
  set v := if bytes < b.mMinBlock then b.mMinBlock else bytes with hv
  have hvle : v ≤ 2 ^ (m + b.mMaxOrder) := by
    have hmb : b.mMinBlock ≤ 2 ^ (m + b.mMaxOrder) := by
      rw [hm]
      exact Nat.pow_le_pow_right (by norm_num) (by omega)
    rw [hv]
    split <;> omega
  have hbytes : bytes ≤ v := by
    rw [hv]
    split <;> omega
  have h63 : (2 : ℕ) ^ (m + b.mMaxOrder) ≤ 2 ^ 63 := Nat.pow_le_pow_right (by norm_num) (by omega)
  rcases roundUpPow2_spec v with ⟨-, hbig⟩ | ⟨j, hj, hround, hvj, hlow⟩
  · omega
  · have hjle : 2 ^ j ≤ 2 ^ m * 2 ^ b.mMaxOrder := by
      rw [← pow_add]
      refine Nat.pow_le_pow_right (by norm_num) ?_
      rcases hlow with rfl | hlow
      · omega
      · have := (Nat.pow_lt_pow_iff_right (a := 2) (by norm_num)).mp (lt_of_lt_of_le hlow hvle)
        omega
    obtain ⟨h1, h2, -⟩ := orderLoop_spec (by omega : m + b.mMaxOrder < 64) hjle 64 0 (by omega)
      (by omega) (fun o ho => absurd ho (by omega))
    have hdef : b.orderForBytes bytes = orderLoop (2 ^ m) (2 ^ j) 64 0 := by
      rw [orderForBytes, ← hv, hround, hm]
    rw [hdef, sz, hm]
    exact ⟨h1, by omega⟩

/-- The constructor's search returns an order only below the word size. -/
lemma maxOrderLoop_spec {m capacity : ℕ} : ∀ (fuel order L : ℕ),
    (2 ^ m * 2 ^ order ≤ capacity ∨ 64 ≤ m + order) →
    maxOrderLoop (2 ^ m) capacity fuel order = some L →
    m + L + 1 < 64 ∧ 2 ^ m * 2 ^ L ≤ capacity ∧ capacity < 2 ^ m * 2 ^ (L + 1) := by
  intro fuel
  induction fuel with
  | zero =>
    intro order L _ h
    simp [maxOrderLoop] at h
  | succ fuel ih =>
    intro order L hinv h
    rw [maxOrderLoop, ← pow_add] at h
    by_cases hw : m + (order + 1) < 64
    · rw [two_pow_mod hw] at h
      have hcap : 2 ^ m * 2 ^ order ≤ capacity := by
        rcases hinv with hinv | hinv
        · exact hinv
        · omega
      split at h
      · rename_i hle
        exact ih (order + 1) L (Or.inl (by rw [← pow_add]; exact hle)) h
      · rename_i hgt
        obtain rfl : order = L := by simpa using h
        exact ⟨by omega, hcap, by rw [← pow_add]; omega⟩
    · rw [two_pow_mod_eq_zero (by omega), if_pos (Nat.zero_le _)] at h
      exact ih (order + 1) L (Or.inr (by omega)) h

/-- **The constructor establishes the invariant**, and returns only for capacities below
`2^63`. -/
lemma ctor_spec {capacity minBlock : ℕ} (h : ctor capacity minBlock = some b) :
    b.WF ∧ b.mAllocOrder = ∅ ∧ b.mUsable ≤ capacity := by
  simp only [ctor] at h
  split at h
  · rename_i hc
    obtain ⟨-, -, hpos, hle⟩ := hc
    obtain ⟨L, hL, rfl⟩ := map_eq_some_iff.mp h
    rcases roundUpPow2_spec minBlock with ⟨h0, -⟩ | ⟨m, -, hm, -, -⟩
    · omega
    · rw [hm] at hL hle ⊢
      obtain ⟨h1, h2, -⟩ := maxOrderLoop_spec 63 0 L (Or.inl (by simpa using hle)) hL
      have hu : 0 < 2 ^ m := by positivity
      refine ⟨⟨⟨m, rfl⟩, rfl, ?_, ?_, ?_⟩, rfl, h2⟩
      · simp only
        rw [← pow_add]
        exact Nat.pow_lt_pow_right (by norm_num) (by omega)
      · have ht : (fun o y => ((update (fun _ => (∅ : USet ℕ)) L (USet.insert ∅ 0)) o).ind y
            + liveTiles ∅ o y) = single L 0 := by
          funext o y
          by_cases ho : o = L
          · subst ho
            simp [single, liveTiles, ind]
          · simp [single, liveTiles, ho, ind]
        have := Tiling.top (L := L) hu
        rwa [← ht] at this
      · intro o x ho hx
        simp only at ho hx
        rw [update_of_ne (by omega)] at hx
        exact absurd hx (not_mem_empty x)
  · simp at h

end BuddyBlocks

/-! ### The allocator -/

/-- **The allocator**: a state that satisfies its representation invariant. -/
def BuddyAllocator := { b : BuddyBlocks // b.WF }

namespace BuddyAllocator

/-- `BuddyAllocator::BuddyAllocator`; no value where it throws or does not return. -/
def ctor (capacity minBlock : ℕ) : Option BuddyAllocator :=
  match h : BuddyBlocks.ctor capacity minBlock with
  | none => none
  | some b => some ⟨b, (BuddyBlocks.ctor_spec h).1⟩

section

variable (a : BuddyAllocator)

/-- The order of the live block at an offset. -/
def live? (off : ℕ) : Option ℕ := a.val.mAllocOrder.find? off

/-- The offsets of the live blocks, the keys of `mAllocOrder`. -/
def liveBlocks : List ℕ := a.val.mAllocOrder.keys

/-- `capacity()`. -/
def capacity : ℕ := a.val.mUsable

/-- `blockBytes`: the size of the live block at an offset, `0` if there is none. -/
def blockBytes (off : ℕ) : ℕ :=
  match a.live? off with
  | none => 0
  | some order => a.val.mMinBlock * 2 ^ order

end

/-- `alloc`. -/
def alloc (pick : List ℕ → ℕ) (a : BuddyAllocator) (bytes : ℕ) : Option ℕ × BuddyAllocator :=
  ((a.val.alloc pick bytes).1, ⟨(a.val.alloc pick bytes).2, by
    rcases h : a.val.alloc pick bytes with ⟨_ | off, b'⟩
    · rw [BuddyBlocks.alloc_none_spec h]
      exact a.property
    · exact (BuddyBlocks.alloc_spec a.property h).1⟩)

/-- `free`. -/
def free (a : BuddyAllocator) (off : ℕ) : BuddyAllocator :=
  ⟨a.val.free off, (BuddyBlocks.free_spec a.property off).1⟩

variable {a : BuddyAllocator} {off : ℕ}

lemma mem_liveBlocks : off ∈ a.liveBlocks ↔ ∃ o, a.live? off = some o := mem_iff_find?

lemma live?_ctor {capacity minBlock : ℕ} (h : ctor capacity minBlock = some a)
    (off : ℕ) : a.live? off = none := by
  simp only [ctor] at h
  split at h
  · simp at h
  · rename_i b hb
    obtain rfl := some.inj h
    change b.mAllocOrder.find? off = none
    rw [(BuddyBlocks.ctor_spec hb).2.1, find?_empty]

/-- A successful allocation returns a block that was not live, makes it live, and leaves
every other block alone; the block holds the bytes asked for. -/
lemma alloc_some {pick : List ℕ → ℕ} {a' : BuddyAllocator} {bytes : ℕ}
    (h : a.alloc pick bytes = (some off, a')) :
    a.live? off = none ∧ bytes ≤ a'.blockBytes off ∧ a'.capacity = a.capacity
      ∧ (∀ x ≠ off, a'.blockBytes x = a.blockBytes x)
      ∧ ∃ o, ∀ x, a'.live? x = if x = off then some o else a.live? x := by
  have h1 : (a.val.alloc pick bytes).1 = some off := congrArg fst h
  obtain rfl : (a.alloc pick bytes).2 = a' := congrArg snd h
  obtain ⟨-, hnone, hset, hmin, hus⟩ := BuddyBlocks.alloc_spec a.property (Prod.ext h1 rfl)
  have hle : bytes ≤ a.val.mUsable := by
    by_contra hgt
    rw [BuddyBlocks.alloc, if_pos (Or.inr (by omega))] at h1
    simp at h1
  have hord := (a.property.orderForBytes_spec hle).2
  refine ⟨hnone, ?_, hus, fun x hx => ?_, a.val.orderForBytes bytes, fun x => ?_⟩
  · simp only [blockBytes, live?, alloc, hset, find?_set, if_true, hmin]
    exact hord
  · simp only [blockBytes, live?, alloc, hset, find?_set, if_neg hx, hmin]
  · simp only [live?, alloc, hset, find?_set]

variable (a : BuddyAllocator)

/-- Freeing removes the block and leaves every other block alone. -/
lemma live?_free (off x : ℕ) : (a.free off).live? x = if x = off then none else a.live? x := by
  simp only [live?, free, (BuddyBlocks.free_spec a.property off).2.1, find?_erase]

lemma blockBytes_free {x : ℕ} (hx : x ≠ off) : (a.free off).blockBytes x = a.blockBytes x := by
  have hmin : (a.free off).val.mMinBlock = a.val.mMinBlock :=
    (BuddyBlocks.free_spec a.property off).2.2.1
  rw [blockBytes, blockBytes, live?_free, if_neg hx, hmin]

/-- Different live blocks have no byte in common. -/
lemma blocks_disjoint {x y : ℕ} (hx : a.live? x ≠ none) (hy : a.live? y ≠ none) (hne : x ≠ y) :
    x + a.blockBytes x ≤ y ∨ y + a.blockBytes y ≤ x := by
  obtain ⟨o, ho⟩ := ne_none_iff_exists'.mp hx
  obtain ⟨o', ho'⟩ := ne_none_iff_exists'.mp hy
  have hpos := a.property.minBlock_pos
  have htile : ∀ {z k}, a.live? z = some k → 0 < a.val.tiles k z := by
    intro z k hz
    have : BuddyBlocks.liveTiles a.val.mAllocOrder k z = 1 := if_pos hz
    rw [BuddyBlocks.tiles]
    omega
  have hbytes : ∀ {z k}, a.live? z = some k → a.blockBytes z = sz a.val.mMinBlock k := by
    intro z k hz
    rw [blockBytes, hz]
    rfl
  rw [hbytes ho, hbytes ho']
  have hszo := sz_pos hpos o
  have hszo' := sz_pos hpos o'
  by_contra hover
  -- the later of the two starts lies in both blocks
  rcases le_total x y with hle | hle
  · exact hne (a.property.tiling.unique (x := y) hpos (htile ho) (htile ho') ⟨hle, by omega⟩
      ⟨le_rfl, by omega⟩).2.1
  · exact hne (a.property.tiling.unique (x := x) hpos (htile ho) (htile ho') ⟨le_rfl, by omega⟩
      ⟨hle, by omega⟩).2.1

end BuddyAllocator

end TrtLlm
