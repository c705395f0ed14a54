import Mathlib.Tactic

/-!
Division that rounds up, and rounding to a multiple.

* `divUp_le_iff`: rounding up is adjoint to multiplication;
* `roundUp_le`: the rounded number is the least multiple that is not smaller.
-/

namespace TrtLlm

def divUp (x y : ℕ) : ℕ := (x + y - 1) / y

def roundUp (x y : ℕ) : ℕ := divUp x y * y

variable {x x' y k : ℕ}

lemma divUp_le_iff (hy : 0 < y) : divUp x y ≤ k ↔ x ≤ k * y := by
  rw [divUp, Nat.div_le_iff_le_mul_add_pred hy]
  rw [mul_comm]
  omega

@[simp] lemma divUp_zero (hy : 0 < y) : divUp 0 y = 0 :=
  Nat.le_zero.mp ((divUp_le_iff hy).mpr (Nat.zero_le _))

lemma le_divUp_mul (hy : 0 < y) : x ≤ divUp x y * y := (divUp_le_iff hy).mp le_rfl

lemma divUp_mono (hy : 0 < y) (h : x ≤ x') : divUp x y ≤ divUp x' y :=
  (divUp_le_iff hy).mpr (h.trans (le_divUp_mul hy))

lemma dvd_roundUp (x y : ℕ) : y ∣ roundUp x y := Dvd.intro_left _ rfl

lemma le_roundUp (hy : 0 < y) : x ≤ roundUp x y := le_divUp_mul hy

lemma roundUp_mono (hy : 0 < y) (h : x ≤ x') : roundUp x y ≤ roundUp x' y :=
  Nat.mul_le_mul_right y (divUp_mono hy h)

/-- The rounded number is the least multiple. -/
lemma roundUp_le (hy : 0 < y) (hk : y ∣ k) (hx : x ≤ k) : roundUp x y ≤ k := by
  obtain ⟨c, rfl⟩ := hk
  calc roundUp x y ≤ c * y := Nat.mul_le_mul_right y ((divUp_le_iff hy).mpr (by rwa [mul_comm]))
    _ = y * c := mul_comm c y

end TrtLlm
