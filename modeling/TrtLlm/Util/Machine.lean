import Mathlib.Tactic

/-!
Machines that take events one by one and emit outputs.

A machine is its step function `σ → ε → List ω × σ`.  A run over a list of events collects
the outputs in order and returns them with the last state.

* `Machine.run_induction`: what holds of the empty output and the first state, and is kept
  by every step, holds of the outputs and the state of every run;
* `Machine.run_invariant`: the same for a property of states alone;
* `Machine.run_append`: a run over two lists of events is two runs;
* `Machine.Steps`: steps of a labelled relation one after another, with their induction rule.
-/

namespace TrtLlm.Machine

variable {σ ε ω : Type*} (step : σ → ε → List ω × σ)

/-- The outputs of a run, and its last state. -/
def run : σ → List ε → List ω × σ
  | s, [] => ([], s)
  | s, e :: es => ((step s e).1 ++ (run (step s e).2 es).1, (run (step s e).2 es).2)

@[simp] lemma run_nil (s : σ) : run step s [] = ([], s) := rfl

/-- A run over two lists of events is a run over the first and then one over the second. -/
lemma run_append (s : σ) (es fs : List ε) : run step s (es ++ fs)
      = ((run step s es).1 ++ (run step (run step s es).2 fs).1,
          (run step (run step s es).2 fs).2) := by
  induction es generalizing s with
  | nil => simp
  | cons e es ih => simp [run, ih]

/-- A run with one event more. -/
lemma run_concat (s : σ) (es : List ε) (e : ε) : run step s (es ++ [e])
      = ((run step s es).1 ++ (step (run step s es).2 e).1, (step (run step s es).2 e).2) := by
  rw [run_append]
  simp [run]

variable {step}

/-- **Induction over a run**: what every step keeps, of the outputs so far and the state,
holds at the end of every run. -/
theorem run_induction {J : List ω → σ → Prop} {s₀ : σ} (h₀ : J [] s₀)
    (hstep : ∀ out s e, J out s → J (out ++ (step s e).1) (step s e).2) (es : List ε) :
    J (run step s₀ es).1 (run step s₀ es).2 := by
  induction es using List.reverseRecOn with
  | nil => exact h₀
  | append_singleton es e ih =>
    rw [run_concat]
    exact hstep _ _ e ih

/-- What every step keeps of the state holds at the end of every run. -/
theorem run_invariant {I : σ → Prop} {s₀ : σ} (h₀ : I s₀)
    (hstep : ∀ s e, I s → I (step s e).2) (es : List ε) : I (run step s₀ es).2 :=
  run_induction (J := fun _ s => I s) h₀ (fun _ s e h => hstep s e h) es

/-! ### Labelled relations -/

/-- Steps of a labelled relation one after another, with their labels in order. -/
inductive Steps (R : σ → List ω → σ → Prop) : σ → List ω → σ → Prop
  | refl (s : σ) : Steps R s [] s
  | head {s s₁ s' : σ} {o o' : List ω} (h : R s o s₁) (hs : Steps R s₁ o' s') :
      Steps R s (o ++ o') s'

namespace Steps

variable {R : σ → List ω → σ → Prop} {s s₁ s' : σ} {o o' : List ω}

lemma single (h : R s o s') : Steps R s o s' := by
  simpa using head h (refl s')

lemma trans (h : Steps R s o s₁) (h' : Steps R s₁ o' s') : Steps R s (o ++ o') s' := by
  induction h with
  | refl => simpa using h'
  | head m _ ih =>
    rw [List.append_assoc]
    exact head m (ih h')

/-- **Induction over steps**: what every step keeps, of the labels so far and the state, any
number of steps keeps. -/
theorem invariant {J : List ω → σ → Prop}
    (hstep : ∀ {out s o s'}, J out s → R s o s' → J (out ++ o) s') {out : List ω}
    (h : Steps R s o s') (hj : J out s) : J (out ++ o) s' := by
  induction h generalizing out with
  | refl => simpa using hj
  | head m _ ih =>
    rw [← List.append_assoc]
    exact ih (hstep hj m)

end Steps

end TrtLlm.Machine
