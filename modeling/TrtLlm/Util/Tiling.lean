import Mathlib.Tactic
import Mathlib.Data.List.TakeWhile

/-!
Lists of pieces that lie next to each other and fill a range of numbers.

A piece has a first position and one past its last.  The pieces of a tiling are in order, none is
empty, and each begins where the one before it ends.

* `tiles_append`: a tiling is cut between two of its pieces;
* `Tiles.exists_mem`, `Tiles.eq_of_mem`: **every position is in one piece**.
-/

namespace TrtLlm.Tiling

open List

variable {α : Type*} {lo hi : α → ℕ}

variable (lo hi) in
/-- The pieces fill the positions from `a` up to `b`. -/
def Tiles : ℕ → ℕ → List α → Prop
  | a, b, [] => a = b
  | a, b, r :: l => lo r = a ∧ lo r < hi r ∧ Tiles (hi r) b l

variable {a b x : ℕ} {l l' : List α} {r r' : α}

@[simp] lemma tiles_nil : Tiles lo hi a b [] ↔ a = b := Iff.rfl

@[simp] lemma tiles_cons :
    Tiles lo hi a b (r :: l) ↔ lo r = a ∧ lo r < hi r ∧ Tiles lo hi (hi r) b l := Iff.rfl

/-- A tiling of two parts is a tiling of each, with a common end. -/
lemma tiles_append : Tiles lo hi a b (l ++ l') ↔ ∃ c, Tiles lo hi a c l ∧ Tiles lo hi c b l' := by
  induction l generalizing a with
  | nil => simp
  | cons r l ih => simp [ih, and_assoc]

variable (h : Tiles lo hi a b l)
include h

lemma Tiles.le : a ≤ b := by
  induction l generalizing a with
  | nil => exact le_of_eq h
  | cons r l ih =>
    obtain ⟨rfl, hlt, hl⟩ := h
    exact hlt.le.trans (ih hl)

/-- A piece is not empty and lies inside the range. -/
lemma Tiles.bounds (hr : r ∈ l) : a ≤ lo r ∧ lo r < hi r ∧ hi r ≤ b := by
  induction l generalizing a with
  | nil => simp at hr
  | cons r₀ l ih =>
    obtain ⟨rfl, hlt, hl⟩ := h
    rcases mem_cons.mp hr with rfl | hr
    · exact ⟨le_rfl, hlt, hl.le⟩
    · obtain ⟨hle, hrest⟩ := ih hl hr
      exact ⟨hlt.le.trans hle, hrest⟩

/-- **Every position** of the range is in a piece. -/
lemma Tiles.exists_mem (ha : a ≤ x) (hb : x < b) : ∃ r ∈ l, lo r ≤ x ∧ x < hi r := by
  induction l generalizing a with
  | nil =>
    have hab : a = b := h
    omega
  | cons r l ih =>
    obtain ⟨rfl, -, hl⟩ := h
    by_cases hx : x < hi r
    · exact ⟨r, by simp, ha, hx⟩
    · obtain ⟨r', hr', hin⟩ := ih hl (not_lt.mp hx)
      exact ⟨r', mem_cons_of_mem r hr', hin⟩

/-- The pieces do not overlap. -/
lemma Tiles.pairwise : l.Pairwise fun r r' => hi r ≤ lo r' := by
  induction l generalizing a with
  | nil => exact .nil
  | cons r l ih =>
    obtain ⟨-, -, hl⟩ := h
    exact .cons (fun r' hr' => (hl.bounds hr').1) (ih hl)

/-- A position is in no more than one piece. -/
lemma Tiles.eq_of_mem (hr : r ∈ l) (hr' : r' ∈ l)
    (hx : lo r ≤ x ∧ x < hi r) (hx' : lo r' ≤ x ∧ x < hi r') : r = r' := by
  induction l generalizing a with
  | nil => simp at hr
  | cons r₀ l ih =>
    obtain ⟨-, -, hl⟩ := h
    rcases mem_cons.mp hr with rfl | hr₁ <;> rcases mem_cons.mp hr' with rfl | hr₂
    · rfl
    · have hlo := (hl.bounds hr₂).1
      omega
    · have hlo := (hl.bounds hr₁).1
      omega
    · exact ih hl hr₁ hr₂

end TrtLlm.Tiling
