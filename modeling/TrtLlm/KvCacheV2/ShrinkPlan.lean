import TrtLlm.KvCacheV2.ShrinkPoolGroup

/-!
How many pages a shrink plans to evict.

Of the pages of the order, those in slots that go have to be relocated; the first `e` of them are
enough if the free slots that stay, with the slots that these first pages leave, hold the others
that have to be relocated (`Fits`).

* `minNumEvicted_spec`: **the plan** evicts as many pages as are needed up to the last one that has
  to be relocated, and between that one and the shortest prefix that is enough, no page has to be.
-/

namespace TrtLlm.LastLevel

open List Prod

/-- It is enough that the first `e` pages of the order leave their slots. -/
def Fits (overflowing : ℕ → Bool) (order : List ℕ) (numFree numOverflowPersistent e : ℕ) : Prop :=
  (order.drop e).countP overflowing + numOverflowPersistent
    ≤ numFree + (order.take e).countP fun x => !overflowing x

instance (overflowing : ℕ → Bool) (order : List ℕ) (numFree numOverflowPersistent e : ℕ) :
    Decidable (Fits overflowing order numFree numOverflowPersistent e) :=
  inferInstanceAs (Decidable (_ ≤ _))

variable {overflowing : ℕ → Bool} {order : List ℕ} {numFree numOverflowPersistent : ℕ}

lemma Fits.mono {e e' : ℕ} (h : Fits overflowing order numFree numOverflowPersistent e)
    (hle : e ≤ e') : Fits overflowing order numFree numOverflowPersistent e' := by
  have hdrop : (order.drop e').countP overflowing ≤ (order.drop e).countP overflowing := by
    rw [← Nat.add_sub_cancel' hle, ← drop_drop]
    exact (drop_sublist _ _).countP_le
  have htake : (order.take e).countP (fun x => !overflowing x)
      ≤ (order.take e').countP fun x => !overflowing x :=
    (take_sublist_take_left hle).countP_le
  rw [Fits] at h ⊢
  omega

/-- A number of pages between the plan and what is enough: none of the pages in between has to be
relocated. -/
structure Enough (overflowing : ℕ → Bool) (order : List ℕ) (numFree numOverflowPersistent m e : ℕ) :
    Prop where
  le : m ≤ e
  fits : Fits overflowing order numFree numOverflowPersistent e
  stays : ∀ x ∈ (order.drop m).take (e - m), overflowing x = false

/-- What the plan has to satisfy. -/
structure Planned (overflowing : ℕ → Bool) (order : List ℕ) (numFree numOverflowPersistent : ℕ)
    (plan : ℕ × List (ℕ × ℕ)) : Prop where
  le : plan.1 ≤ order.length
  needed : ∀ e < plan.1, ¬ Fits overflowing order numFree numOverflowPersistent e
  kept : plan.2.map snd = (order.drop plan.1).filter overflowing
  enough : ∃ e, Enough overflowing order numFree numOverflowPersistent plan.1 e

/-- Every number that is enough is, for the plan, at least one between the plan and what is
enough. -/
lemma Planned.enough_of_fits {plan : ℕ × List (ℕ × ℕ)}
    (h : Planned overflowing order numFree numOverflowPersistent plan) {e : ℕ}
    (he : Fits overflowing order numFree numOverflowPersistent e) :
    ∃ e' ≤ e, Enough overflowing order numFree numOverflowPersistent plan.1 e' := by
  obtain ⟨e₁, hle, hfits, hstays⟩ := h.enough
  have hm : plan.1 ≤ e := Nat.not_lt.mp fun hlt => h.needed e hlt he
  rcases Nat.le_total e₁ e with hle₁ | hle₁
  · exact ⟨e₁, hle₁, hle, hfits, hstays⟩
  · refine ⟨e, Nat.le_refl e, hm, he, fun x hx => hstays x ?_⟩
    exact (take_sublist_take_left (by omega)).subset hx

/-! ### The loop -/

variable (s : LastLevel)

lemma map_snd_overflowSlots (newNumSlots : ℕ) (order : List ℕ) : ∀ idx : ℕ,
    (s.overflowSlots newNumSlots idx order).map snd = order.filter (s.overflows newNumSlots) := by
  induction order with
  | nil => exact fun _ => rfl
  | cons x order ih =>
    intro idx
    rw [overflowSlots]
    split_ifs with hx
    · rw [map_cons, ih, filter_cons_of_pos hx]
    · rw [ih, filter_cons_of_neg hx]

lemma length_overflowSlots (newNumSlots idx : ℕ) (order : List ℕ) :
    (s.overflowSlots newNumSlots idx order).length = order.countP (s.overflows newNumSlots) := by
  rw [← length_map snd, map_snd_overflowSlots, countP_eq_length_filter]

/-- **The plan**, from any point of the loop: some pages were passed, and from the last one that has
to be relocated on none has to be. -/
lemma minNumEvicted_from {newNumSlots : ℕ}
    (hroom : ∀ e, numFree + (order.take e).countP (fun x => !s.overflows newNumSlots x)
      ≤ newNumSlots)
    (hall : Fits (s.overflows newNumSlots) order numFree numOverflowPersistent order.length)
    (todo : List ℕ) : ∀ (passed : List ℕ) (m : ℕ), order = passed ++ todo → m ≤ passed.length →
      (∀ e < m, ¬ Fits (s.overflows newNumSlots) order numFree numOverflowPersistent e) →
      (∀ x ∈ passed.drop m, s.overflows newNumSlots x = false) →
      Planned (s.overflows newNumSlots) order numFree numOverflowPersistent
        (minNumEvicted newNumSlots numOverflowPersistent numFree
          (s.overflowSlots newNumSlots passed.length todo) m
          (passed.countP (s.overflows newNumSlots))) := by
  induction todo with
  | nil =>
    intro passed m hsplit hm hneeded hstays
    rw [append_nil] at hsplit
    subst hsplit
    refine ⟨hm, hneeded, ?_, order.length, hm, hall, fun x hx => hstays x (mem_of_mem_take hx)⟩
    refine (filter_eq_nil_iff.mpr fun x hx => ?_).symm
    rw [hstays x hx]
    exact Bool.false_ne_true
  | cons x todo ih =>
    intro passed m hsplit hm hneeded hstays
    have hsplit' : order = (passed ++ [x]) ++ todo := by rw [hsplit, append_assoc]; rfl
    have hlen : (passed ++ [x]).length = passed.length + 1 := by simp
    cases hx : s.overflows newNumSlots x with
    | false =>
      have hcount : (passed ++ [x]).countP (s.overflows newNumSlots)
          = passed.countP (s.overflows newNumSlots) := by
        rw [countP_append, countP_singleton, if_neg (by simp [hx]), Nat.add_zero]
      have hih := ih (passed ++ [x]) m hsplit' (by omega) hneeded (by
        intro y hy
        rw [drop_append_of_le_length hm, mem_append, mem_singleton] at hy
        rcases hy with hy | rfl
        · exact hstays y hy
        · exact hx)
      rw [hlen, hcount] at hih
      rwa [overflowSlots, if_neg (by simp [hx])]
    | true =>
      have hcount : (passed ++ [x]).countP (s.overflows newNumSlots)
          = passed.countP (s.overflows newNumSlots) + 1 := by
        rw [countP_append, countP_singleton, if_pos hx]
      have htake : order.take passed.length = passed := by rw [hsplit, take_left]
      have hdrop : order.drop passed.length = x :: todo := by rw [hsplit, drop_left]
      -- the pages passed so far are those that have to be relocated, and the others
      have hparts := length_eq_countP_add_countP (s.overflows newNumSlots) (l := passed)
      have hnot : passed.countP (fun x => decide (¬ s.overflows newNumSlots x = true))
          = passed.countP fun x => !s.overflows newNumSlots x := by
        refine countP_congr fun y _ => ?_
        simp
      have hle := hroom passed.length
      rw [htake] at hle
      have hfits : Fits (s.overflows newNumSlots) order numFree numOverflowPersistent passed.length
          ↔ todo.countP (s.overflows newNumSlots) + 1 + numOverflowPersistent
            ≤ numFree + passed.countP fun x => !s.overflows newNumSlots x := by
        rw [Fits, hdrop, htake, countP_cons_of_pos hx]
      rw [overflowSlots, if_pos hx, minNumEvicted, length_overflowSlots]
      split_ifs with hshort
      · have hneeded' : ¬ Fits (s.overflows newNumSlots) order numFree numOverflowPersistent
            passed.length := by
          rw [hfits]
          omega
        have hih := ih (passed ++ [x]) (passed.length + 1) hsplit' (by omega)
          (fun e he hfit => hneeded' (hfit.mono (by omega))) (by
            intro y hy
            rw [drop_eq_nil_of_le (by omega)] at hy
            cases hy)
        rwa [hlen, hcount] at hih
      · have hfit : Fits (s.overflows newNumSlots) order numFree numOverflowPersistent
            passed.length := by
          rw [hfits]
          omega
        have hrest : order.drop m = passed.drop m ++ x :: todo := by
          rw [hsplit, drop_append_of_le_length hm]
        refine ⟨?_, hneeded, ?_, passed.length, hm, hfit, fun y hy => hstays y ?_⟩
        · rw [hsplit, length_append]
          exact hm.trans (Nat.le_add_right _ _)
        · have hnil : (passed.drop m).filter (s.overflows newNumSlots) = [] :=
            filter_eq_nil_iff.mpr fun y hy => by simp [hstays y hy]
          rw [hrest, filter_append, hnil, nil_append, map_cons, map_snd_overflowSlots,
            filter_cons_of_pos hx]
        · dsimp only at hy
          rwa [hrest, take_left' (by rw [length_drop])] at hy

/-- **The plan of a shrink.** -/
theorem minNumEvicted_spec {newNumSlots : ℕ}
    (hroom : ∀ e, numFree + (order.take e).countP (fun x => !s.overflows newNumSlots x)
      ≤ newNumSlots)
    (hall : Fits (s.overflows newNumSlots) order numFree numOverflowPersistent order.length) :
    Planned (s.overflows newNumSlots) order numFree numOverflowPersistent
      (minNumEvicted newNumSlots numOverflowPersistent numFree (s.overflowSlots newNumSlots 0 order)
        0 0) :=
  minNumEvicted_from s hroom hall order [] 0 rfl (Nat.le_refl 0)
    (fun e he => absurd he (Nat.not_lt_zero e))
    (fun _ hx => absurd hx not_mem_nil)

end TrtLlm.LastLevel
