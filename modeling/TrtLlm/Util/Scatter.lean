import Mathlib.Tactic

/-!
A table that holds several lists one after the other.

Every key has its own range of the table, which starts at its offset and has room for its count.
Values are pushed to the lists in any order, and each lands at the next free place of its range.

* `Scatter.Apart`: the ranges do not meet. Offsets that are the sums of the counts before them are
  apart (`apart_prefixSum`);
* `Scatter.Inv`: the table shows the lists and nothing else (`Inv.push`).
-/

namespace TrtLlm

open List Function Finset

/-- The lists that have been pushed so far, and the table. -/
structure Scatter (κ β : Type*) where
  lists : κ → List β
  table : ℕ → β

namespace Scatter

variable {κ β : Type*} [DecidableEq κ]

/-- A table with one value everywhere. -/
def blank (x : β) : Scatter κ β := ⟨fun _ => [], fun _ => x⟩

/-- A value is pushed to the list of a key. -/
def push (off : κ → ℕ) (s : Scatter κ β) (k : κ) (x : β) : Scatter κ β :=
  ⟨update s.lists k (s.lists k ++ [x]), update s.table (off k + (s.lists k).length) x⟩

omit [DecidableEq κ] in
/-- The ranges of the keys do not meet. -/
def Apart (off count : κ → ℕ) : Prop :=
  ∀ k k' j j', j < count k → j' < count k' → off k + j = off k' + j' → k = k' ∧ j = j'

/-- The table shows the lists, and the blank value elsewhere. -/
structure Inv (off count : κ → ℕ) (x : β) (s : Scatter κ β) : Prop where
  fits : ∀ k, (s.lists k).length ≤ count k
  shown : ∀ k j (h : j < (s.lists k).length), s.table (off k + j) = (s.lists k)[j]
  rest : ∀ i, (∀ k j, j < (s.lists k).length → i ≠ off k + j) → s.table i = x

omit [DecidableEq κ] in
lemma Inv.blank (off count : κ → ℕ) (x : β) : Inv off count x (blank x : Scatter κ β) where
  fits k := Nat.zero_le _
  shown k j h := by simp [Scatter.blank] at h
  rest i _ := rfl

lemma Inv.push {off count : κ → ℕ} {x : β} {s : Scatter κ β} (h : Inv off count x s)
    (hapart : Apart off count) {k : κ} (hk : (s.lists k).length < count k) (y : β) :
    Inv off count x (s.push off k y) where
  fits k' := by
    simp only [Scatter.push, update_apply]
    split_ifs with he
    · rw [he, length_append, length_singleton]
      exact hk
    · exact h.fits k'
  shown k' j hj := by
    simp only [Scatter.push, update_apply] at hj ⊢
    by_cases hlast : k' = k ∧ j = (s.lists k).length
    · obtain ⟨rfl, rfl⟩ := hlast
      simp
    · have hold : j < (s.lists k').length := by
        by_cases he : k' = k
        · subst he
          rw [if_pos rfl, length_append, length_singleton] at hj
          have hne : j ≠ (s.lists k').length := fun hj => hlast ⟨rfl, hj⟩
          omega
        · rwa [if_neg he] at hj
      have hplace : off k' + j ≠ off k + (s.lists k).length := fun he =>
        hlast (hapart k' k j _ (hold.trans_le (h.fits k')) hk he)
      rw [if_neg hplace, h.shown k' j hold]
      by_cases he : k' = k
      · subst he
        simp [getElem_append_left hold]
      · simp [he]
  rest i hi := by
    have hne : i ≠ off k + (s.lists k).length := by
      refine hi k _ ?_
      simp [Scatter.push]
    simp only [Scatter.push, update_apply, if_neg hne]
    refine h.rest i fun k' j hj => hi k' j ?_
    simp only [Scatter.push, update_apply]
    split_ifs with he
    · rw [length_append, ← he]
      omega
    · exact hj

section PrefixSum

variable {n : ℕ}

section

variable (count : Fin n → ℕ)

/-- The sum of the counts before a key. -/
def prefixSum (k : Fin n) : ℕ := ∑ k' ∈ Iio k, count k'

lemma prefixSum_add_le {k k' : Fin n} (h : k < k') :
    prefixSum count k + count k ≤ prefixSum count k' := by
  have hinsert : prefixSum count k + count k = ∑ i ∈ insert k (Iio k), count i := by
    rw [sum_insert (by simp), add_comm, prefixSum]
  rw [hinsert]
  refine sum_le_sum_of_subset fun i hi => ?_
  obtain rfl | hi := mem_insert.mp hi
  · exact mem_Iio.mpr h
  · exact mem_Iio.mpr ((mem_Iio.mp hi).trans h)

lemma prefixSum_add_le_sum (k : Fin n) :
    prefixSum count k + count k ≤ ∑ i, count i := by
  have hinsert : prefixSum count k + count k = ∑ i ∈ insert k (Iio k), count i := by
    rw [sum_insert (by simp), add_comm, prefixSum]
  rw [hinsert]
  exact sum_le_sum_of_subset (subset_univ _)

lemma apart_prefixSum : Apart (prefixSum count) count := by
  intro k k' j j' hj hj' he
  obtain hlt | rfl | hlt := lt_trichotomy k k'
  · have hle := prefixSum_add_le count hlt
    omega
  · exact ⟨rfl, by omega⟩
  · have hle := prefixSum_add_le count hlt
    omega

/-- A running sum over the keys in order: the sum so far is noted at each key. -/
def runningSum : (Fin n → ℕ) × ℕ :=
  (finRange n).foldl
    (fun s k => (update s.1 k s.2, s.2 + count k)) (fun _ => 0, 0)

end

variable (count : Fin n → ℕ)

/-- The keys before one are those that come first in the list. -/
lemma sum_before {done todo : List (Fin n)} {k : Fin n} (hsplit : finRange n = done ++ k :: todo) :
    (done.map count).sum = prefixSum count k := by
  have hsorted := pairwise_lt_finRange n
  have hnodup := nodup_finRange n
  rw [hsplit, pairwise_append, List.pairwise_cons] at hsorted
  rw [hsplit, nodup_append] at hnodup
  rw [← sum_toFinset count hnodup.1, prefixSum]
  refine sum_congr (ext fun i => ?_) fun _ _ => rfl
  rw [mem_toFinset, mem_Iio]
  refine ⟨fun hi => hsorted.2.2 i hi k List.mem_cons_self, fun hi => ?_⟩
  have hmem : i ∈ done ++ k :: todo := hsplit ▸ mem_finRange i
  obtain hmem | hmem := mem_append.mp hmem
  · exact hmem
  · obtain rfl | hmem := List.mem_cons.mp hmem
    · exact absurd hi (lt_irrefl _)
    · exact absurd (hi.trans (hsorted.2.1.1 i hmem)) (lt_irrefl _)

lemma foldl_runningSum {done todo : List (Fin n)}
    (hsplit : finRange n = done ++ todo) (off : Fin n → ℕ)
    (hoff : ∀ k ∈ done, off k = prefixSum count k) :
    todo.foldl (fun s k => (update s.1 k s.2, s.2 + count k))
      (off, (done.map count).sum) = (prefixSum count, ∑ k, count k) := by
  induction todo generalizing done off with
  | nil =>
    rw [append_nil] at hsplit
    rw [foldl_nil, ← hsplit]
    refine Prod.ext (funext fun k => hoff k (hsplit ▸ mem_finRange k)) ?_
    rw [← ofFn_eq_map, sum_ofFn]
  | cons k todo ih =>
    have hsum : (done.map count).sum + count k = ((done ++ [k]).map count).sum := by simp
    rw [foldl_cons, hsum]
    refine ih (by rw [hsplit, append_assoc]; rfl) _ fun k' hk' => ?_
    by_cases he : k' = k
    · rw [he, update_self, sum_before count hsplit]
    · rw [update_of_ne he]
      obtain hk' | hk' := mem_append.mp hk'
      · exact hoff k' hk'
      · exact absurd (List.mem_singleton.mp hk') he

/-- **The running sum** is the sum of the counts before. -/
lemma runningSum_eq : runningSum count = (prefixSum count, ∑ k, count k) :=
  foldl_runningSum count (nil_append _).symm _ (by simp)

end PrefixSum

end Scatter

end TrtLlm
