import Mathlib.Data.Nat.Bitwise
import Mathlib.Tactic

/-!
`DynamicBitset`: a resizable set of bits in 64-bit words (`utils/math.h`).

The set that the words stand for is `bits`; the counter is its cardinality (`Counted`):

* `bits_set`, `bits_clear`, `bits_resize`: what an operation does to the set;
* `Counted.set`, `Counted.clear`, `Counted.resize`: the counter follows the set.
-/

namespace TrtLlm

open List Finset

/-- `__builtin_popcountll`. -/
def popcount (w : BitVec 64) : ℕ := ((Finset.range 64).filter fun i => w.getLsbD i = true).card

/-- `DynamicBitset`. -/
structure DynamicBitset where
  mWords : List (BitVec 64)
  mNumSetBits : ℕ
  mSize : ℕ
deriving DecidableEq

namespace DynamicBitset

def divUp (a b : ℕ) : ℕ := (a + b - 1) / b

/-- The constructor. -/
def ofCapacity (capacity : ℕ) : DynamicBitset :=
  { mWords := replicate (divUp capacity 64) 0#64, mNumSetBits := 0, mSize := capacity }

section

variable (b : DynamicBitset)

def get (index : ℕ) : Bool :=
  b.mWords.getD (index / 64) 0#64 &&& (1#64 <<< (index % 64)) != 0#64

def set (index : ℕ) : DynamicBitset :=
  if b.get index then b
  else
    { b with
      mWords := b.mWords.modify (index / 64) (· ||| 1#64 <<< (index % 64))
      mNumSetBits := b.mNumSetBits + 1 }

def clear (index : ℕ) : DynamicBitset :=
  if b.get index then
    { b with
      mWords := b.mWords.modify (index / 64) (· &&& ~~~(1#64 <<< (index % 64)))
      mNumSetBits := b.mNumSetBits - 1 }
  else b

/-- The first part of `resize`: the bits at and above the new capacity go. -/
def dropBits (newCapacity : ℕ) : DynamicBitset :=
  let newWords := divUp newCapacity 64
  let b := { b with mNumSetBits := b.mNumSetBits - ((b.mWords.drop newWords).map popcount).sum }
  if 1 ≤ newWords ∧ newCapacity % 64 ≠ 0 then
    let keepMask := 1#64 <<< (newCapacity % 64) - 1#64
    let word := b.mWords.getD (newWords - 1) 0#64
    { b with
      mWords := b.mWords.set (newWords - 1) (word &&& keepMask)
      mNumSetBits := b.mNumSetBits - popcount (word &&& ~~~keepMask) }
  else b

def resize (newCapacity : ℕ) : DynamicBitset :=
  let newWords := divUp newCapacity 64
  let b := if newWords ≤ b.mWords.length then b.dropBits newCapacity else b
  { b with
    mWords := b.mWords.take newWords ++ replicate (newWords - b.mWords.length) 0#64
    mSize := newCapacity }

end

/-! ### Words -/

/-- Bit `i` of a list of words. -/
def bitAt (ws : List (BitVec 64)) (i : ℕ) : Bool := (ws.getD (i / 64) 0#64).getLsbD (i % 64)

/-- The set bits of a list of words. -/
def bitsOf (ws : List (BitVec 64)) : Finset ℕ :=
  (Finset.range (64 * ws.length)).filter fun i => bitAt ws i = true

variable {b : DynamicBitset} {i : ℕ} {ws : List (BitVec 64)}

lemma bitAt_of_le (h : 64 * ws.length ≤ i) : bitAt ws i = false := by
  rw [bitAt, getD_eq_default _ _ (by omega), BitVec.getLsbD_zero]

lemma mem_bitsOf : i ∈ bitsOf ws ↔ bitAt ws i = true := by
  rw [bitsOf, Finset.mem_filter, Finset.mem_range, and_iff_right_iff_imp]
  intro h
  by_contra hle
  rw [bitAt_of_le (by omega)] at h
  cases h

lemma getD_replicate_zero (k i : ℕ) : (replicate k 0#64).getD i 0#64 = 0#64 := by
  rw [getD_eq_getElem?_getD, getElem?_replicate]
  split_ifs <;> rfl

lemma getLsbD_bit {k : ℕ} (hk : k < 64) (i : ℕ) : (1#64 <<< k).getLsbD i = decide (k = i) := by
  rw [← BitVec.twoPow_eq, BitVec.getLsbD_twoPow, decide_eq_true hk, Bool.true_and]

lemma get_eq (b : DynamicBitset) (i : ℕ) : b.get i = bitAt b.mWords i := by
  rw [get, bitAt, ← BitVec.twoPow_eq, BitVec.and_twoPow]
  have hne : BitVec.twoPow 64 (i % 64) ≠ 0#64 := by
    intro h
    have hbit := congrArg (fun w => w.getLsbD (i % 64)) h
    simp [Nat.mod_lt] at hbit
  cases (b.mWords.getD (i / 64) 0#64).getLsbD (i % 64) <;> simp [hne]

lemma popcount_zero : popcount 0#64 = 0 := by
  rw [popcount, card_eq_zero, filter_eq_empty_iff]
  intro i _
  rw [BitVec.getLsbD_zero]
  simp

/-- The bits of one word more. -/
lemma bitAt_concat (ws : List (BitVec 64)) (w : BitVec 64) (i : ℕ) :
    bitAt (ws ++ [w]) i = if i < 64 * ws.length then bitAt ws i
      else if i < 64 * (ws.length + 1) then w.getLsbD (i - 64 * ws.length) else false := by
  split_ifs with h1 h2
  · rw [bitAt, bitAt, getD_append _ _ _ _ (by omega)]
  · rw [bitAt, getD_append_right _ _ _ _ (by omega), show i / 64 - ws.length = 0 by omega,
      getD_cons_zero, show i % 64 = i - 64 * ws.length by omega]
  · refine bitAt_of_le ?_
    rw [length_append, length_singleton]
    omega

/-- **The set bits are counted by the words.** -/
lemma card_bitsOf (ws : List (BitVec 64)) : (bitsOf ws).card = (ws.map popcount).sum := by
  induction ws using reverseRecOn with
  | nil => rfl
  | append_singleton ws w ih =>
    have hsplit : bitsOf (ws ++ [w]) = bitsOf ws ∪
        ((Finset.range 64).filter fun i => w.getLsbD i = true).map
          (addLeftEmbedding (64 * ws.length)) := by
      ext i
      rw [mem_union, mem_bitsOf, mem_bitsOf, bitAt_concat, Finset.mem_map]
      simp only [Finset.mem_filter, Finset.mem_range, addLeftEmbedding_apply]
      split_ifs with h1 h2
      · refine ⟨.inl, Or.rec id ?_⟩
        rintro ⟨j, -, rfl⟩
        omega
      · rw [bitAt_of_le (by omega)]
        constructor
        · intro h
          exact .inr ⟨i - 64 * ws.length, ⟨by omega, h⟩, by omega⟩
        · rintro (h | ⟨j, ⟨-, hj⟩, rfl⟩)
          · cases h
          · rwa [Nat.add_sub_cancel_left]
      · rw [bitAt_of_le (by omega)]
        constructor
        · intro h
          cases h
        · rintro (h | ⟨j, ⟨hj, -⟩, rfl⟩)
          · cases h
          · omega
    rw [hsplit, card_union_of_disjoint, ih, card_map, map_append, sum_append,
      List.map_singleton, List.sum_singleton, popcount]
    rw [Finset.disjoint_left]
    intro i hi hmem
    obtain ⟨j, -, rfl⟩ := Finset.mem_map.mp hmem
    rw [mem_bitsOf, bitAt_of_le (by simp)] at hi
    cases hi

lemma bitAt_modify {q : ℕ} (hq : q < ws.length) (f : BitVec 64 → BitVec 64)
    (j : ℕ) : bitAt (ws.modify q f) j
      = if j / 64 = q then (f (ws.getD q 0#64)).getLsbD (j % 64) else bitAt ws j := by
  rw [bitAt, getD_eq_getElem?_getD, getElem?_modify]
  split_ifs with h1 h2 h2
  · subst h1
    rw [getElem?_eq_getElem hq, getD_eq_getElem _ _ hq]
    rfl
  · exact absurd h1.symm h2
  · exact absurd h2.symm h1
  · rw [bitAt, getD_eq_getElem?_getD]
    cases ws[j / 64]? <;> rfl

/-! ### The set and its counter -/

/-- The set that the words stand for. -/
def bits (b : DynamicBitset) : Finset ℕ := bitsOf b.mWords

/-- The counter is the number of set bits. -/
def Counted (b : DynamicBitset) : Prop := b.mNumSetBits = b.bits.card

/-- The words hold the bits below `n`. -/
def Covers (b : DynamicBitset) (n : ℕ) : Prop := n ≤ 64 * b.mWords.length

lemma get_iff : b.get i = true ↔ i ∈ b.bits := by
  rw [get_eq, bits, mem_bitsOf]

lemma bits_ofCapacity (n : ℕ) : (ofCapacity n).bits = ∅ := by
  ext i
  rw [bits, mem_bitsOf, bitAt, ofCapacity, getD_replicate_zero, BitVec.getLsbD_zero]
  simp

lemma counted_ofCapacity (n : ℕ) : (ofCapacity n).Counted := by
  rw [Counted, bits_ofCapacity, card_empty]
  rfl

lemma covers_ofCapacity (n : ℕ) : (ofCapacity n).Covers n := by
  have hn : divUp n 64 = (n + 63) / 64 := rfl
  rw [Covers, ofCapacity, length_replicate]
  omega

lemma bits_set (h : i < 64 * b.mWords.length) : (b.set i).bits = insert i b.bits := by
  unfold set
  split_ifs with hget
  · exact (insert_eq_of_mem (get_iff.mp hget)).symm
  · ext j
    rw [bits, mem_bitsOf, bitAt_modify (by omega), mem_insert]
    split_ifs with hj
    · rw [BitVec.getLsbD_or, getLsbD_bit (Nat.mod_lt _ (by omega)), Bool.or_eq_true,
        decide_eq_true_iff, bits, mem_bitsOf, bitAt, hj]
      have : i % 64 = j % 64 ↔ j = i := by omega
      rw [this, or_comm]
    · rw [bits, mem_bitsOf]
      have : j ≠ i := fun h => hj (by rw [h])
      simp only [this, false_or]

lemma Counted.set (hb : b.Counted) (h : i < 64 * b.mWords.length) : (b.set i).Counted := by
  rw [Counted, bits_set h, DynamicBitset.set]
  split_ifs with hget
  · rw [insert_eq_of_mem (get_iff.mp hget)]
    exact hb
  · rw [card_insert_of_notMem (mt get_iff.mpr hget), ← hb]

lemma bits_clear (b : DynamicBitset) (i : ℕ) : (b.clear i).bits = b.bits.erase i := by
  unfold clear
  split_ifs with hget
  · have hi : i < 64 * b.mWords.length := by
      by_contra hle
      rw [get_eq, bitAt_of_le (by omega)] at hget
      cases hget
    ext j
    rw [bits, mem_bitsOf, bitAt_modify (by omega), mem_erase]
    split_ifs with hj
    · have hbit : (b.mWords.getD (i / 64) 0#64).getLsbD (j % 64) = bitAt b.mWords j := by
        rw [bitAt, hj]
      have hij : i % 64 = j % 64 ↔ j = i := by omega
      rw [BitVec.getLsbD_and, BitVec.getLsbD_not, getLsbD_bit (Nat.mod_lt _ (by omega)), hbit, bits,
        mem_bitsOf, Bool.and_eq_true, Bool.and_eq_true, decide_eq_true_iff, Bool.not_eq_true',
        decide_eq_false_iff_not, hij]
      constructor
      · rintro ⟨h1, -, h2⟩
        exact ⟨h2, h1⟩
      · rintro ⟨h1, h2⟩
        exact ⟨h2, Nat.mod_lt _ (by omega), h1⟩
    · rw [bits, mem_bitsOf]
      have : j ≠ i := fun h => hj (by rw [h])
      simp only [this, ne_eq, not_false_iff, true_and]
  · exact (Finset.erase_eq_of_notMem (mt get_iff.mpr hget)).symm

lemma Counted.clear (hb : b.Counted) (i : ℕ) : (b.clear i).Counted := by
  rw [Counted, bits_clear, DynamicBitset.clear]
  split_ifs with hget
  · rw [card_erase_of_mem (get_iff.mp hget), ← hb]
  · rw [Finset.erase_eq_of_notMem (mt get_iff.mpr hget)]
    exact hb

section

variable (b : DynamicBitset) (i : ℕ)

@[simp] lemma length_mWords_set : (b.set i).mWords.length = b.mWords.length := by
  unfold set
  split_ifs
  · rfl
  · exact length_modify _ _ _

@[simp] lemma length_mWords_clear : (b.clear i).mWords.length = b.mWords.length := by
  unfold clear
  split_ifs
  · exact length_modify _ _ _
  · rfl

lemma mSize_set : (b.set i).mSize = b.mSize := by
  unfold set
  split_ifs <;> rfl

lemma mSize_clear : (b.clear i).mSize = b.mSize := by
  unfold clear
  split_ifs <;> rfl

end

/-! ### Resizing -/

lemma getLsbD_keepMask {k : ℕ} (hk : k < 64) (i : ℕ) :
    (1#64 <<< k - 1#64).getLsbD i = decide (i < k) := by
  have hval : (1#64 <<< k - 1#64).toNat = 2 ^ k - 1 := by
    have hlt : 2 ^ k < 2 ^ 64 := Nat.pow_lt_pow_right (by omega) hk
    have hpos : 0 < 2 ^ k := Nat.two_pow_pos k
    rw [BitVec.toNat_sub, BitVec.toNat_shiftLeft]
    simp only [BitVec.toNat_ofNat, Nat.shiftLeft_eq]
    omega
  rw [BitVec.getLsbD, hval, Nat.testBit_two_pow_sub_one]

/-- A word is its kept and its dropped bits. -/
lemma popcount_and_add (w m : BitVec 64) : popcount (w &&& m) + popcount (w &&& ~~~m)
    = popcount w := by
  rw [popcount, popcount, popcount, ← card_union_of_disjoint]
  · congr 1
    ext i
    simp only [mem_union, Finset.mem_filter, Finset.mem_range, BitVec.getLsbD_and,
      BitVec.getLsbD_not]
    cases w.getLsbD i <;> cases m.getLsbD i <;> simp
  · rw [Finset.disjoint_left]
    intro i h1 h2
    simp only [Finset.mem_filter, BitVec.getLsbD_and, BitVec.getLsbD_not] at h1 h2
    revert h1 h2
    cases m.getLsbD i <;> simp

lemma bitAt_take_append_replicate (ws : List (BitVec 64)) (m k j : ℕ) :
    bitAt (ws.take m ++ replicate k 0#64) j = (bitAt ws j && decide (j / 64 < m)) := by
  have hword : (ws.take m ++ replicate k 0#64).getD (j / 64) 0#64
      = if j / 64 < m then ws.getD (j / 64) 0#64 else 0#64 := by
    by_cases h : j / 64 < (ws.take m).length
    · have hm : j / 64 < m := by
        rw [length_take] at h
        omega
      rw [if_pos hm, getD_append _ _ _ _ h, getD_eq_getElem _ _ h, getElem_take, getD_eq_getElem]
    · rw [getD_append_right _ _ _ _ (by omega), getD_replicate_zero]
      split_ifs with hm
      · rw [length_take] at h
        rw [getD_eq_default _ _ (by omega)]
      · rfl
  rw [bitAt, hword, bitAt]
  split_ifs with h
  · rw [decide_eq_true h, Bool.and_true]
  · rw [decide_eq_false h, Bool.and_false, BitVec.getLsbD_zero]

lemma bitAt_dropBits {n : ℕ} (hle : divUp n 64 ≤ b.mWords.length) {j : ℕ}
    (hj : j / 64 < divUp n 64) :
    bitAt (b.dropBits n).mWords j = (bitAt b.mWords j && decide (j < n)) := by
  have hn : divUp n 64 = (n + 63) / 64 := rfl
  unfold dropBits
  dsimp only
  split_ifs with h
  · have hset : b.mWords.set (divUp n 64 - 1)
        (b.mWords.getD (divUp n 64 - 1) 0#64 &&& (1#64 <<< (n % 64) - 1#64))
        = b.mWords.modify (divUp n 64 - 1) (· &&& (1#64 <<< (n % 64) - 1#64)) := by
      rw [modify_eq_set_getElem?, getElem?_eq_getElem (by omega), getD_eq_getElem]
      rfl
    rw [hset, bitAt_modify (by omega)]
    split_ifs with hlast
    · rw [BitVec.getLsbD_and, getLsbD_keepMask (Nat.mod_lt _ (by omega)), bitAt, hlast]
      congr 1
      simp only [decide_eq_decide]
      omega
    · rw [decide_eq_true (by omega), Bool.and_true]
  · rw [decide_eq_true (by omega), Bool.and_true]

lemma bits_resize (b : DynamicBitset) (n : ℕ) : (b.resize n).bits = b.bits.filter (· < n) := by
  have hn : divUp n 64 = (n + 63) / 64 := rfl
  ext j
  rw [bits, mem_bitsOf, Finset.mem_filter, bits, mem_bitsOf]
  unfold resize
  rw [bitAt_take_append_replicate, Bool.and_eq_true, decide_eq_true_iff]
  split_ifs with hle
  · by_cases hj : j / 64 < divUp n 64
    · rw [bitAt_dropBits hle hj, Bool.and_eq_true, decide_eq_true_iff, and_iff_left hj]
    · have : ¬ j < n := by omega
      simp only [hj, this, and_false]
  · refine and_congr_right fun hbit => ?_
    have hj : j < 64 * b.mWords.length := by
      by_contra hge
      rw [bitAt_of_le (by omega)] at hbit
      cases hbit
    constructor <;> intro <;> omega

lemma covers_resize (b : DynamicBitset) (n : ℕ) : (b.resize n).Covers n := by
  have hn : divUp n 64 = (n + 63) / 64 := rfl
  have hlen : (b.dropBits n).mWords.length = b.mWords.length := by
    unfold dropBits
    dsimp only
    split_ifs
    · exact length_set
    · rfl
  unfold resize Covers
  rw [length_append, length_take, length_replicate]
  split_ifs with hle
  · rw [hlen]
    omega
  · omega

/-- The counter after the first part of `resize` is that of the words that stay. -/
lemma Counted.dropBits (hb : b.Counted) {n : ℕ} (hle : divUp n 64 ≤ b.mWords.length) :
    (b.dropBits n).mNumSetBits = (((b.dropBits n).mWords.take (divUp n 64)).map popcount).sum := by
  have htotal : b.mNumSetBits = ((b.mWords.take (divUp n 64)).map popcount).sum
      + ((b.mWords.drop (divUp n 64)).map popcount).sum := by
    rw [hb, bits, card_bitsOf, ← sum_append, ← map_append, take_append_drop]
  unfold DynamicBitset.dropBits
  dsimp only
  split_ifs with h
  · obtain ⟨m, hsucc⟩ := Nat.exists_eq_add_of_le' h.1
    rw [hsucc] at hle htotal ⊢
    rw [Nat.add_sub_cancel]
    have hw : b.mWords.getD m 0#64 = b.mWords[m] := getD_eq_getElem _ _ _
    have hsplit := popcount_and_add b.mWords[m] (1#64 <<< (n % 64) - 1#64)
    rw [take_succ_eq_append_getElem hle, map_append, sum_append, List.map_singleton,
      List.sum_singleton] at htotal
    rw [hw, take_succ_eq_append_getElem (by rw [length_set]; exact hle), map_append,
      sum_append, List.map_singleton, List.sum_singleton, getElem_set_self,
      take_set_of_le (Nat.le_refl m)]
    dsimp only
    omega
  · dsimp only
    omega

lemma Counted.resize (hb : b.Counted) (n : ℕ) : (b.resize n).Counted := by
  rw [Counted, bits, card_bitsOf]
  unfold DynamicBitset.resize
  dsimp only
  rw [map_append, sum_append, map_replicate, popcount_zero, sum_replicate, smul_zero, Nat.add_zero]
  split_ifs with hle
  · exact hb.dropBits hle
  · rw [take_of_length_le (by omega), hb, bits, card_bitsOf]

end DynamicBitset

end TrtLlm
