import Mathlib.Tactic

/-!
Loads that are split into parts, and the largest part.

Every load is split into a number of equal parts.  A split is settled when no part is larger than
the parts some load would have with one part less: the last cut of a load was one of a largest part
then.  Cutting a largest part once more keeps a split settled.

* `largestPart`: the size of the largest part;
* `Settled.update`: one more cut;
* `Settled.optimal`: **a settled split has the smallest largest part** among all splits into as many
  parts.
-/

namespace TrtLlm

open Function Finset

/-- The size of the largest part. -/
def largestPart {ι : Type*} [Fintype ι] (load : ι → ℚ) (parts : ι → ℕ) : ℚ :=
  univ.fold max 0 fun i => load i / parts i

/-- No part is larger than the parts of a load with one part less. -/
def Settled {ι : Type*} (load : ι → ℚ) (parts : ι → ℕ) : Prop :=
  ∀ i k, 2 ≤ parts k → load i / parts i ≤ load k / (parts k - 1 : ℕ)

variable {ι : Type*} {load : ι → ℚ} {parts parts' : ι → ℕ}

/-- With more parts, the parts are not larger. -/
lemma part_le_part (hload : ∀ i, 0 ≤ load i) (i : ι) {a b : ℕ} (ha : 0 < a) (hab : a ≤ b) :
    load i / b ≤ load i / a :=
  div_le_div_of_nonneg_left (hload i) (by exact_mod_cast ha) (by exact_mod_cast hab)

lemma settled_one (load : ι → ℚ) : Settled load fun _ => 1 := fun _ _ h =>
  absurd (show 2 ≤ 1 from h) (by decide)

lemma settled_zero (hload : ∀ i, load i = 0) (parts : ι → ℕ) : Settled load parts := fun i k _ => by
  rw [hload i, hload k, zero_div, zero_div]

/-- **A largest part is cut once more.** -/
lemma Settled.update [DecidableEq ι] (h : Settled load parts) (hload : ∀ i, 0 ≤ load i)
    (hpos : ∀ i, 0 < parts i)
    {top : ι} (htop : ∀ i, load i / parts i ≤ load top / parts top) :
    Settled load (Function.update parts top (parts top + 1)) := by
  have hle : ∀ i, load i / (Function.update parts top (parts top + 1) i : ℕ)
      ≤ load i / parts i := by
    intro i
    refine part_le_part hload i (hpos i) ?_
    rw [update_apply]
    split_ifs with heq
    · rw [heq]
      exact Nat.le_succ _
    · exact le_refl _
  intro i k hk
  refine (hle i).trans ?_
  by_cases heq : k = top
  · subst heq
    rw [update_self, Nat.add_sub_cancel]
    exact htop i
  · rw [update_of_ne heq] at hk ⊢
    exact h i k hk

variable [Fintype ι]

lemma part_le_largestPart (load : ι → ℚ) (parts : ι → ℕ)
    (i : ι) : load i / parts i ≤ largestPart load parts :=
  (le_fold_max _).mpr (.inr ⟨i, mem_univ i, le_refl _⟩)

lemma largestPart_le {c : ℚ} (hc : 0 ≤ c) (h : ∀ i, load i / parts i ≤ c) :
    largestPart load parts ≤ c :=
  fold_max_le _ |>.mpr ⟨hc, fun i _ => h i⟩

lemma largestPart_nonneg (load : ι → ℚ) (parts : ι → ℕ) : 0 ≤ largestPart load parts :=
  (le_fold_max _).mpr (.inl (le_refl _))

/-- **A settled split is optimal**: another one that cuts some load into more parts cuts another one
into fewer, and the parts of that one are as large. -/
theorem Settled.optimal (h : Settled load parts) (hload : ∀ i, 0 ≤ load i)
    (hpos' : ∀ i, 0 < parts' i)
    (hsum : ∑ i, parts' i = ∑ i, parts i) : largestPart load parts ≤ largestPart load parts' := by
  refine largestPart_le (largestPart_nonneg load parts') fun i => ?_
  by_cases hmore : parts' i ≤ parts i
  · exact (part_le_part hload i (hpos' i) hmore).trans (part_le_largestPart load parts' i)
  · obtain ⟨k, hk⟩ : ∃ k, parts' k < parts k := by
      by_contra hnone
      push Not at hnone
      have hlt : ∑ j, parts j < ∑ j, parts' j :=
        sum_lt_sum (fun j _ => hnone j) ⟨i, mem_univ i, not_le.mp hmore⟩
      omega
    have htwo : 2 ≤ parts k := by
      have := hpos' k
      omega
    calc load i / parts i ≤ load k / (parts k - 1 : ℕ) := h i k htwo
      _ ≤ load k / parts' k := part_le_part hload k (hpos' k) (by omega)
      _ ≤ largestPart load parts' := part_le_largestPart load parts' k

end TrtLlm
