import Mathlib.Tactic

/-!
Postconditions of computations that may raise.

A computation of type `Except ε α` meets a pair of conditions, one on the exceptions it raises
and one on the values it returns. Loops are those of `forIn`, which a step can leave early.

* `Meets.bind_of_eq`: the rule for a computation followed by another;
* `Meets.forIn`: the rule for a loop, whose invariant speaks of what is left to go through;
* `Visits`: what a loop comes to, and in which state;
* `Visits.le_of_forIn`: what a step adds to a measure that no step lowers is there at the end.
-/

namespace TrtLlm.Outcome

universe u v

variable {ε : Type v} {α β σ : Type u} {E : ε → Prop} {P Q : α → Prop}

/-- What is raised satisfies `E`, and what is returned satisfies `P`. -/
def Meets (E : ε → Prop) (P : α → Prop) : Except ε α → Prop
  | .ok a => P a
  | .error e => E e

variable {s : σ} {x : Except ε α}

@[simp] lemma meets_ok {a : α} : Meets E P (.ok a) ↔ P a := Iff.rfl

@[simp] lemma meets_pure {a : α} : Meets E P (pure a) ↔ P a := Iff.rfl

@[simp] lemma meets_error {e : ε} : Meets E P (.error e) ↔ E e := Iff.rfl

@[simp] lemma meets_throw {e : ε} : Meets E P (throw e) ↔ E e := Iff.rfl

lemma Meets.imp (h : Meets E P x) (hPQ : ∀ a, P a → Q a) : Meets E Q x := by
  cases x with
  | ok a => exact hPQ a h
  | error e => exact h

lemma Meets.imp_error {E' : ε → Prop} (h : Meets E P x) (hE : ∀ e, E e → E' e) : Meets E' P x := by
  cases x with
  | ok a => exact h
  | error e => exact hE e h

lemma meets_true (x : Except ε α) : Meets (fun _ => True) (fun _ => True) x := by
  cases x <;> trivial

lemma Meets.and {E' : ε → Prop} (h : Meets E P x) (h' : Meets E' Q x) :
    Meets E (fun a => P a ∧ Q a) x := by
  cases x with
  | ok a => exact ⟨h, h'⟩
  | error e => exact h

/-- **A computation followed by another**, which may use what the first has returned. -/
theorem Meets.bind_of_eq {f : α → Except ε β} {R : β → Prop} (hx : Meets E P x)
    (hf : ∀ a, x = .ok a → P a → Meets E R (f a)) : Meets E R (x >>= f) := by
  cases x with
  | ok a => exact hf a rfl hx
  | error e => exact hx

lemma Meets.bind {f : α → Except ε β} {R : β → Prop} (hx : Meets E P x)
    (hf : ∀ a, P a → Meets E R (f a)) : Meets E R (x >>= f) :=
  hx.bind_of_eq fun a _ => hf a

lemma of_bind_eq_ok {f : α → Except ε β} {b : β} (h : x >>= f = .ok b) :
    ∃ a, x = .ok a ∧ f a = .ok b := by
  cases x with
  | ok a => exact ⟨a, rfl, h⟩
  | error e => cases h

/-- A step of a loop keeps the invariant when the loop goes on, and otherwise establishes what
the loop promises. -/
def Proceeds (I Q : σ → Prop) : ForInStep σ → Prop
  | .yield s => I s
  | .done s => Q s

@[simp] lemma proceeds_yield {I Q : σ → Prop} : Proceeds I Q (.yield s) ↔ I s := Iff.rfl

@[simp] lemma proceeds_done {I Q : σ → Prop} : Proceeds I Q (.done s) ↔ Q s := Iff.rfl

variable {body : α → σ → Except ε (ForInStep σ)} {xs : List α} {y : α} {u r : σ}

/-- A loop comes to an element, in some state. -/
inductive Visits (body : α → σ → Except ε (ForInStep σ)) : List α → σ → α → σ → Prop
  | here {x : α} {xs : List α} {s : σ} : Visits body (x :: xs) s x s
  | next {x : α} {xs : List α} {s s' : σ} {y : α} {u : σ} (hstep : body x s = .ok (.yield s'))
    (hrest : Visits body xs s' y u) : Visits body (x :: xs) s y u

/-- **The rule for loops.** The invariant speaks of the elements still to come, and a step may use
that the loop comes to it. -/
theorem Meets.forIn {I : List α → σ → Prop} {R : σ → Prop} {V : α → σ → Prop}
    (hvisits : ∀ x s', Visits body xs s x s' → V x s')
    (hstep : ∀ x xs s, V x s → I (x :: xs) s → Meets E (Proceeds (I xs) R) (body x s))
    (hend : ∀ s, I [] s → R s) (h : I xs s) : Meets E R (forIn xs s body) := by
  induction xs generalizing s with
  | nil => exact hend s h
  | cons x xs ih =>
    have hx := hstep x xs s (hvisits x s .here) h
    rw [List.forIn_cons]
    cases hbody : body x s with
    | error e => rwa [hbody] at hx
    | ok r =>
      rw [hbody] at hx
      cases r with
      | done s' => exact hx
      | yield s' => exact ih (fun y u hy => hvisits y u (.next hbody hy)) hx

section Grows

variable {f : σ → ℕ} (hgrows : ∀ x s r, body x s = .ok r → f s ≤ f r.value)
include hgrows

lemma le_of_forIn (h : forIn xs s body = .ok r) : f s ≤ f r := by
  induction xs generalizing s with
  | nil =>
    cases h
    exact le_refl _
  | cons x xs ih =>
    rw [List.forIn_cons] at h
    cases hbody : body x s with
    | error e =>
      rw [hbody] at h
      cases h
    | ok step =>
      rw [hbody] at h
      cases step with
      | done s' =>
        cases h
        exact hgrows x s _ hbody
      | yield s' => exact (hgrows x s _ hbody).trans (ih h)

/-- **What a loop comes to is in its result**, by a measure that no step lowers. -/
theorem Visits.le_of_forIn (hy : Visits body xs s y u) (h : forIn xs s body = .ok r) :
    ∃ step, body y u = .ok step ∧ f step.value ≤ f r := by
  induction hy with
  | @here x xs s =>
    rw [List.forIn_cons] at h
    cases hbody : body x s with
    | error e =>
      rw [hbody] at h
      cases h
    | ok step =>
      rw [hbody] at h
      refine ⟨step, rfl, ?_⟩
      cases step with
      | done s' =>
        cases h
        exact le_refl _
      | yield s' => exact Outcome.le_of_forIn hgrows h
  | next hstep _ ih =>
    rw [List.forIn_cons, hstep] at h
    exact ih h

end Grows

end TrtLlm.Outcome
