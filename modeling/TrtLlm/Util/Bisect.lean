import Mathlib.Tactic

/-!
Bisection over the natural numbers.

* `bisect`: keeps a number with a property and a greater one to move towards it;
* `bisect_spec`: **where it ends**.
-/

namespace TrtLlm

/-- The last number with the property on the way up from `lo`, below `hi`. -/
def bisect (p : ℕ → Prop) [DecidablePred p] (lo hi : ℕ) : ℕ :=
  if lo + 1 < hi then
    let mid := lo + (hi - lo) / 2
    if p mid then bisect p mid hi else bisect p lo mid
  else lo
termination_by hi - lo
decreasing_by all_goals omega

section
variable {p : ℕ → Prop} [DecidablePred p] {lo hi : ℕ}

/-- **Bisection** ends at a number with the property, next to one without it. -/
theorem bisect_spec (h : lo < hi) (hlo : p lo) :
    lo ≤ bisect p lo hi ∧ bisect p lo hi < hi ∧ p (bisect p lo hi)
      ∧ (¬ p hi → ¬ p (bisect p lo hi + 1)) := by
  fun_induction bisect p lo hi with
  | case1 lo hi hlt mid hmid ih =>
    obtain ⟨hge, hrest⟩ := ih (by omega) hmid
    exact ⟨by omega, hrest⟩
  | case2 lo hi hlt mid hmid ih =>
    obtain ⟨hge, hlt', hp, hnext⟩ := ih (by omega) hlo
    exact ⟨hge, by omega, hp, fun _ => hnext hmid⟩
  | case3 lo hi hlt =>
    have heq : hi = lo + 1 := by omega
    exact ⟨le_rfl, h, hlo, fun hhi => heq ▸ hhi⟩

end

end TrtLlm
