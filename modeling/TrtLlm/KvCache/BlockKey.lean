import Mathlib.Tactic

/-!
`blockKey.h` and `chopVectorIntoBlocks`: the keys of the blocks of a token sequence.

* `numMatchingTokens_le`: a key matches another one in at most its own tokens;
* `length_of_mem_chopVectorIntoBlocks`, `length_getElem_chopVectorIntoBlocks`: the blocks are not
  empty and not longer than a block can be, and only the last one may be shorter.
-/

namespace TrtLlm.KvCache

open List

/-- `UniqueToken`. -/
structure UniqueToken where
  tokenId : ℤ
  tokenExtraId : ℕ
deriving DecidableEq

/-- `MmKey`. -/
structure MmKey where
  hash : List UInt8
  startOffset : ℤ
  uuid : Option String
deriving DecidableEq

/-- `BlockKey`, with the equality of all its fields. -/
structure BlockKey where
  usesExtraIds : Bool
  loraTaskId : Option ℕ
  uniqueTokens : List UniqueToken
  extraKeys : List MmKey
  cacheSalt : Option String
deriving DecidableEq

namespace BlockKey

/-- The constructor of a key from plain tokens. -/
def ofTokens (tokens : List ℤ) (loraTaskId : Option ℕ) : BlockKey where
  usesExtraIds := false
  loraTaskId := loraTaskId
  uniqueTokens := tokens.map fun token => ⟨token, 0⟩
  extraKeys := []
  cacheSalt := none

/-- `supportsPartialMatching`. -/
def supportsPartialMatching (key : BlockKey) : Bool := key.extraKeys = []

/-- `std::mismatch`: the number of leading elements that two lists share. -/
def mismatch : List UniqueToken → List UniqueToken → ℕ
  | a :: as, b :: bs => if a = b then mismatch as bs + 1 else 0
  | _, _ => 0

/-- `numMatchingTokens`. -/
def numMatchingTokens (key other : BlockKey) : ℕ :=
  if key.usesExtraIds = other.usesExtraIds ∧ key.loraTaskId = other.loraTaskId
      ∧ key.extraKeys = other.extraKeys ∧ key.cacheSalt = other.cacheSalt then
    mismatch key.uniqueTokens other.uniqueTokens
  else 0

lemma mismatch_le (as bs : List UniqueToken) : mismatch as bs ≤ as.length := by
  induction as generalizing bs with
  | nil =>
    rw [mismatch]
    · exact Nat.zero_le _
    · intro _ _ _ _ h
      cases h
  | cons a as ih =>
    cases bs with
    | nil =>
      rw [mismatch]
      · exact Nat.zero_le _
      · intro _ _ _ _ _ h
        cases h
    | cons b bs =>
      rw [mismatch, length_cons]
      split_ifs
      · exact Nat.succ_le_succ (ih bs)
      · exact Nat.zero_le _

lemma numMatchingTokens_le (key other : BlockKey) :
    key.numMatchingTokens other ≤ key.uniqueTokens.length := by
  rw [numMatchingTokens]
  split_ifs
  · exact mismatch_le _ _
  · exact Nat.zero_le _

@[simp] lemma length_uniqueTokens_ofTokens (tokens : List ℤ) (loraTaskId : Option ℕ) :
    (ofTokens tokens loraTaskId).uniqueTokens.length = tokens.length := length_map _

end BlockKey

/-- `chopVectorIntoBlocks`, for a usable size that the vector has. -/
def chopVectorIntoBlocks {α : Type*} (vec : List α) (usableSize elementsPerBlock : ℕ)
    (allowPartial : Bool) : List (List α) :=
  let numBlocks := (usableSize + elementsPerBlock - 1) / elementsPerBlock
  let blocks := (range numBlocks).map fun i =>
    ((vec.take usableSize).drop (i * elementsPerBlock)).take elementsPerBlock
  blocks.filter fun block => block.length = elementsPerBlock || allowPartial

section Chop

variable {α : Type*} {vec : List α} {T : ℕ}

lemma chopVectorIntoBlocks_whole (vec : List α) (T : ℕ) : chopVectorIntoBlocks vec vec.length T true
    = (range ((vec.length + T - 1) / T)).map fun i => (vec.drop (i * T)).take T := by
  rw [chopVectorIntoBlocks]
  simp

/-- The blocks are not empty, and fit. -/
lemma length_of_mem_chopVectorIntoBlocks (hT : 0 < T) {block : List α}
    (h : block ∈ chopVectorIntoBlocks vec vec.length T true) :
    0 < block.length ∧ block.length ≤ T := by
  rw [chopVectorIntoBlocks_whole] at h
  obtain ⟨i, hi, rfl⟩ := mem_map.mp h
  have hlt : i * T < vec.length := by
    have hle : (i + 1) * T ≤ (vec.length + T - 1) / T * T :=
      Nat.mul_le_mul_right T (mem_range.mp hi)
    have hdiv := Nat.div_mul_le_self (vec.length + T - 1) T
    rw [add_one_mul] at hle
    omega
  rw [length_take, length_drop]
  omega

/-- Only the last block may be shorter than a block can be. -/
lemma length_getElem_chopVectorIntoBlocks (hT : 0 < T) {i : ℕ}
    (hi : i + 1 < (chopVectorIntoBlocks vec vec.length T true).length) :
    ((chopVectorIntoBlocks vec vec.length T true).get ⟨i, by omega⟩).length = T := by
  have hlen : i + 1 < (vec.length + T - 1) / T := by
    rw [chopVectorIntoBlocks_whole, length_map, length_range] at hi
    exact hi
  have hlt : (i + 1) * T < vec.length := by
    have hle : (i + 1 + 1) * T ≤ (vec.length + T - 1) / T * T := Nat.mul_le_mul_right T hlen
    have hdiv := Nat.div_mul_le_self (vec.length + T - 1) T
    rw [add_one_mul] at hle
    omega
  rw [add_one_mul] at hlt
  simp only [chopVectorIntoBlocks_whole, get_eq_getElem, getElem_map, getElem_range,
    length_take, length_drop]
  omega

end Chop

end TrtLlm.KvCache
