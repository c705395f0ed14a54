import Mathlib.Data.List.Flatten
import Mathlib.Tactic.Ring

/-!
Copies of byte ranges between 64-bit addresses.

A copy of `len` bytes is the list of its byte moves, in order (`copyBytes`), so that two
ways to cut a transfer into copies are the same transfer when their lists are equal:

* `copyBytes_add`: a copy is its first bytes, then a copy of the rest;
* `staged_of_mem`: after copies into a staging area whose ranges do not overlap, each byte
  of it holds what its own copy put there.
-/

namespace TrtLlm

open List Nat

/-- Addition of 64-bit words. -/
def add64 (a b : ℕ) : ℕ := (a + b) % 2 ^ 64

lemma add64_add64 (a b c : ℕ) : add64 (add64 a b) c = add64 a (b + c) := by
  rw [add64, add64, add64, mod_add_mod, Nat.add_assoc]

lemma add64_eq_of_lt {a b : ℕ} (h : a + b < 2 ^ 64) : add64 a b = a + b := mod_eq_of_lt h

lemma add64_zero {a : ℕ} (h : a < 2 ^ 64) : add64 a 0 = a := mod_eq_of_lt h

lemma add64_lt (a b : ℕ) : add64 a b < 2 ^ 64 := mod_lt _ (by decide)

/-! ### The bytes of a copy -/

/-- The byte moves of a copy, from the first byte on. -/
def copyBytes (src dst len : ℕ) : List (ℕ × ℕ) :=
  (range len).map fun k => (add64 src k, add64 dst k)

@[simp] lemma copyBytes_zero (src dst : ℕ) : copyBytes src dst 0 = [] := rfl

/-- **A copy in two parts.** -/
lemma copyBytes_add (src dst m n : ℕ) :
    copyBytes src dst (m + n) = copyBytes src dst m ++ copyBytes (add64 src m) (add64 dst m) n := by
  rw [copyBytes, range_add, map_append, map_map, copyBytes, copyBytes]
  congr 1
  refine map_congr_left fun k _ => ?_
  rw [Function.comp_apply, add64_add64, add64_add64]

lemma copyBytes_add64_zero (src dst n : ℕ) :
    copyBytes (add64 src 0) (add64 dst 0) n = copyBytes src dst n := by
  refine map_congr_left fun k _ => ?_
  rw [add64_add64, add64_add64, Nat.zero_add]

/-- The moves between ranges that do not wrap, with plain sums. -/
lemma copyBytes_eq_of_le {src dst n : ℕ} (hs : src + n ≤ 2 ^ 64) (hd : dst + n ≤ 2 ^ 64) :
    copyBytes src dst n = (range n).map fun k => (src + k, dst + k) := by
  refine map_congr_left fun k hk => ?_
  have := mem_range.mp hk
  rw [add64_eq_of_lt (by omega), add64_eq_of_lt (by omega)]

/-! ### A staging area -/

/-- A copy into a staging area: `size` bytes from address `src` to offset `off`. -/
structure Staged where
  src : ℕ
  off : ℕ
  size : ℕ
deriving DecidableEq, Repr

/-- One copy after the others: where each byte of the area comes from. -/
def Staged.write (area : ℕ → Option ℕ) (c : Staged) : ℕ → Option ℕ :=
  fun b => if c.off ≤ b ∧ b < c.off + c.size then some (add64 c.src (b - c.off)) else area b

/-- The area after a list of copies. -/
def staged (cs : List Staged) (area : ℕ → Option ℕ) : ℕ → Option ℕ := cs.foldl Staged.write area

/-- The ranges of two copies in the area share no byte. -/
def Staged.Apart (c d : Staged) : Prop := c.off + c.size ≤ d.off ∨ d.off + d.size ≤ c.off

lemma staged_of_forall_notMem {cs : List Staged} {b : ℕ}
    (h : ∀ c ∈ cs, ¬ (c.off ≤ b ∧ b < c.off + c.size)) (area : ℕ → Option ℕ) :
    staged cs area b = area b := by
  induction cs generalizing area with
  | nil => rfl
  | cons c cs ih =>
    rw [staged, foldl_cons, ← staged, ih (fun d hd => h d (mem_cons_of_mem c hd)),
      Staged.write, if_neg (h c mem_cons_self)]

/-- **What is staged stays**: when no two ranges overlap, each byte of a range holds the byte
that the range's own copy brought. -/
lemma staged_of_mem {cs : List Staged} (h : cs.Pairwise Staged.Apart) {c : Staged} (hc : c ∈ cs)
    {k : ℕ} (hk : k < c.size) (area : ℕ → Option ℕ) :
    staged cs area (c.off + k) = some (add64 c.src k) := by
  induction cs generalizing area with
  | nil => cases hc
  | cons d cs ih =>
    obtain ⟨hd, hcs⟩ := pairwise_cons.mp h
    rw [staged, foldl_cons, ← staged]
    rcases mem_cons.mp hc with rfl | hc
    · rw [staged_of_forall_notMem, Staged.write, if_pos ⟨by omega, by omega⟩,
        Nat.add_sub_cancel_left]
      intro e he hin
      rcases hd e he with hle | hle <;> omega
    · exact ih hcs hc _

end TrtLlm
