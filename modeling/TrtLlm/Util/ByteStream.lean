import Mathlib.Data.List.Basic
import Mathlib.Tactic.Ring

/-!
Little-endian words in a byte string: a number below `256 ^ w` is determined by its `w`
bytes (`leBytes_inj`).
-/

namespace TrtLlm

/-- The `w` lowest bytes of a number, least significant first. -/
def leBytes : ℕ → ℕ → List UInt8
  | 0, _ => []
  | w + 1, n => UInt8.ofNat n :: leBytes w (n / 256)

@[simp] lemma length_leBytes (w n : ℕ) : (leBytes w n).length = w := by
  induction w generalizing n with
  | zero => rfl
  | succ w ih => rw [leBytes, List.length_cons, ih]

/-- The bytes of a word determine it. -/
lemma leBytes_inj {w m n : ℕ} (hm : m < 256 ^ w) (hn : n < 256 ^ w)
    (h : leBytes w m = leBytes w n) : m = n := by
  induction w generalizing m n with
  | zero =>
    rw [pow_zero] at hm hn
    omega
  | succ w ih =>
    rw [leBytes, leBytes, List.cons.injEq] at h
    obtain ⟨hlow, hhigh⟩ := h
    have hmod : m % 256 = n % 256 := by
      simpa using congrArg UInt8.toNat hlow
    have hdiv : m / 256 = n / 256 := by
      rw [pow_succ] at hm hn
      exact ih (Nat.div_lt_of_lt_mul (by omega)) (Nat.div_lt_of_lt_mul (by omega)) hhigh
    omega

end TrtLlm
