import Mathlib.Tactic

/-!
Operations that return.

`Runs x s a s'` says that an operation with errors and a state returns from state `s`, with value
`a` and in state `s'`.  The rules follow the shape of a program; a loop over a list keeps what each
of its turns keeps.
-/

namespace TrtLlm

/-- An operation returns from a state. -/
def Runs {ε σ α : Type} (x : EStateM ε σ α) (s : σ) (a : α) (s' : σ) : Prop := x.run s = .ok a s'

namespace Runs

variable {ε σ α β : Type} {s s₁ s' : σ}

variable {a : α} {b : β} {x : EStateM ε σ α}

lemma bind {f : α → EStateM ε σ β} (hx : Runs x s a s₁)
    (hf : Runs (f a) s₁ b s') : Runs (x >>= f) s b s' := by
  change EStateM.bind x f s = _
  rw [EStateM.bind, show x s = _ from hx]
  exact hf

lemma get_bind {f : σ → EStateM ε σ β} (hf : Runs (f s) s b s') : Runs (get >>= f) s b s' :=
  bind (rfl : Runs get s s s) hf

lemma set_bind {f : PUnit → EStateM ε σ β} (hf : Runs (f ⟨⟩) s₁ b s') :
    Runs (set s₁ >>= f) s b s' :=
  bind (rfl : Runs (set s₁) s ⟨⟩ s₁) hf

lemma modify_bind {g : σ → σ} {f : PUnit → EStateM ε σ β} (hf : Runs (f ⟨⟩) (g s) b s') :
    Runs (modify g >>= f) s b s' :=
  bind (rfl : Runs (modify g) s ⟨⟩ (g s)) hf

lemma ite_pos {c : Prop} [Decidable c] {y : EStateM ε σ α} (hc : c) (hx : Runs x s a s') :
    Runs (if c then x else y) s a s' := by
  rw [if_pos hc]
  exact hx

lemma ite_neg {c : Prop} [Decidable c] {y : EStateM ε σ α} (hc : ¬ c) (hy : Runs y s a s') :
    Runs (if c then x else y) s a s' := by
  rw [if_neg hc]
  exact hy

/-- A loop whose turns keep an invariant and are related by a preorder. -/
lemma forM {f : α → EStateM ε σ PUnit} {I : σ → Prop} {R : σ → σ → Prop} (hrefl : ∀ s, R s s)
    (htrans : ∀ {s s₁ s'}, R s s₁ → R s₁ s' → R s s') {l : List α}
    (h : ∀ x ∈ l, ∀ s, I s → ∃ s', Runs (f x) s ⟨⟩ s' ∧ I s' ∧ R s s') (hs : I s) :
    ∃ s', Runs (l.forM f) s ⟨⟩ s' ∧ I s' ∧ R s s' := by
  induction l generalizing s with
  | nil => exact ⟨s, rfl, hs, hrefl s⟩
  | cons x l ih =>
    obtain ⟨s₁, hx, hs₁, hR⟩ := h x List.mem_cons_self s hs
    obtain ⟨s', hl, hs', hR'⟩ := ih (fun y hy => h y (List.mem_cons_of_mem x hy)) hs₁
    exact ⟨s', hx.bind hl, hs', htrans hR hR'⟩

end Runs

end TrtLlm
