import Mathlib.Tactic

/-!
How many of finitely many parties are in a state of some kind.

* `tally_update`: one party changes its state.
-/

namespace TrtLlm

open Function Finset

section Tally

variable {ι σ : Type*} [Fintype ι]

/-- The number of parties whose state satisfies `p`. -/
def tally (f : ι → σ) (p : σ → Prop) [DecidablePred p] : ℕ :=
  (univ.filter fun i => p (f i)).card

variable {f g : ι → σ} {p : σ → Prop} [DecidablePred p]

lemma tally_congr (h : ∀ i, p (f i) ↔ p (g i)) : tally f p = tally g p := by
  unfold tally
  congr 1
  exact filter_congr fun i _ => h i

lemma exists_of_tally_pos (h : 0 < tally f p) : ∃ i, p (f i) := by
  obtain ⟨i, hi⟩ := card_pos.1 h
  exact ⟨i, (mem_filter.1 hi).2⟩

lemma tally_eq_zero (h : ∀ i, ¬ p (f i)) : tally f p = 0 :=
  Nat.eq_zero_of_not_pos fun hpos => (exists_of_tally_pos hpos).elim h

/-- Not every party is of the kind. -/
lemma exists_not_of_tally_lt (h : tally f p < Fintype.card ι) : ∃ i, ¬ p (f i) := by
  by_contra hall
  push Not at hall
  have hfull : tally f p = Fintype.card ι := by
    unfold tally
    rw [filter_true_of_mem fun i _ => hall i, card_univ]
  omega

/-- **One party changes its state.** -/
lemma tally_update [DecidableEq ι] (f : ι → σ) (i : ι) (x : σ) :
    tally (update f i x) p + (if p (f i) then 1 else 0)
      = tally f p + if p x then 1 else 0 := by
  have hsplit : ∀ g : ι → σ, tally g p
      = ((univ.erase i).filter fun j => p (g j)).card + if p (g i) then 1 else 0 := by
    intro g
    unfold tally
    rw [← insert_erase (mem_univ i), filter_insert]
    split_ifs
    · rw [card_insert_of_notMem (by simp), erase_insert (by simp)]
    · rw [erase_insert (by simp), add_zero]
  have hrest : ((univ.erase i).filter fun j => p (update f i x j))
      = (univ.erase i).filter fun j => p (f j) :=
    filter_congr fun j hj => by rw [update_of_ne (ne_of_mem_erase hj)]
  rw [hsplit (update f i x), hsplit f, hrest, update_self]
  omega

end Tally

end TrtLlm
