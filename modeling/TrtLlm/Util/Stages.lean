import Mathlib.Tactic

/-!
A row that is cut into consecutive stages.

* `Stages.start`, `Stages.stop`: a stage begins where the stages before it end, and stages may be
  empty;
* `Stages.existsUnique_stage`: every place of the row lies in exactly one stage;
* `Stages.mem_range'_filter`: the numbers below a bound that satisfy a convex condition are the
  consecutive ones from the first of them on. The stages that meet an interval are such numbers
  (`convex_meets`).
-/

namespace TrtLlm.Stages

open List Nat

section

variable (L : List ℕ)

/-- Where the stage `p` begins. -/
def start (p : ℕ) : ℕ := (L.take p).sum

/-- Where the stage `p` ends. -/
def stop (p : ℕ) : ℕ := start L p + L.getD p 0

lemma stop_eq_start_succ (p : ℕ) : stop L p = start L (p + 1) := by
  rw [stop, start, start, take_add_one, List.sum_append, getD_eq_getElem?_getD]
  cases L[p]? <;> simp

lemma start_mono : Monotone (start L) := by
  refine monotone_nat_of_le_succ fun p => ?_
  rw [← stop_eq_start_succ]
  exact Nat.le_add_right _ _

lemma stop_mono : Monotone (stop L) := by
  intro p q h
  rw [stop_eq_start_succ, stop_eq_start_succ]
  exact start_mono L (succ_le_succ h)

lemma start_length : start L L.length = L.sum := by
  rw [start, take_length]

end

/-- **Every place of the row lies in exactly one stage.** -/
theorem existsUnique_stage {L : List ℕ} {l : ℕ} (h : l < L.sum) :
    ∃! p, p < L.length ∧ start L p ≤ l ∧ l < stop L p := by
  -- the last stage that begins at or before the place
  have hlast : ∃ p, l < start L p := ⟨L.length, by rwa [start_length]⟩
  obtain ⟨p, hp⟩ : ∃ p, Nat.find hlast = p + 1 := by
    refine exists_eq_succ_of_ne_zero fun h0 => ?_
    have := Nat.find_spec hlast
    rw [h0] at this
    simp [start] at this
  have hlt : l < start L (p + 1) := hp ▸ Nat.find_spec hlast
  have hle : start L p ≤ l := not_lt.mp (Nat.find_min hlast (by omega))
  have hlen : p + 1 ≤ L.length := hp ▸ Nat.find_min' hlast (by rwa [start_length])
  refine ⟨p, ⟨hlen, hle, by rwa [stop_eq_start_succ]⟩, ?_⟩
  rintro q ⟨-, hq₁, hq₂⟩
  rw [stop_eq_start_succ] at hq₂
  by_contra hne
  obtain hlt' | hgt := Nat.lt_or_gt_of_ne hne
  · have := start_mono L (succ_le_of_lt hlt')
    simp only [succ_eq_add_one] at this
    omega
  · have := start_mono L (succ_le_of_lt hgt)
    simp only [succ_eq_add_one] at this
    omega

/-- A convex condition on numbers. -/
def Convex (P : ℕ → Prop) : Prop := ∀ a b c, a ≤ b → b ≤ c → P a → P c → P b

/-- The stages that meet an interval are consecutive. -/
lemma convex_meets (L : List ℕ) (a b : ℕ) : Convex fun p => a < stop L p ∧ start L p < b := by
  intro p q r hpq hqr hp hr
  exact ⟨lt_of_lt_of_le hp.1 (stop_mono L hpq), lt_of_le_of_lt (start_mono L hqr) hr.2⟩

/-- **Consecutive numbers**: they are counted from the first one on. -/
theorem mem_range'_filter {P : ℕ → Prop} [DecidablePred P] (hP : Convex P) {n a : ℕ} {l : List ℕ}
    (hl : (range n).filter (fun p => P p) = a :: l) (p : ℕ) :
    p ∈ range' a (l.length + 1) ↔ p < n ∧ P p := by
  have hmem : ∀ q, q ∈ a :: l ↔ q < n ∧ P q := by
    intro q
    rw [← hl, mem_filter, mem_range]
    simp
  have hsorted : (a :: l).Pairwise (· < ·) := by
    rw [← hl]
    exact List.Pairwise.filter _ pairwise_lt_range
  have hmin : ∀ q, q ∈ a :: l → a ≤ q := by
    intro q hq
    obtain rfl | hq := mem_cons.mp hq
    · exact le_rfl
    · exact (rel_of_pairwise_cons hsorted hq).le
  obtain ⟨b, hb, hmax⟩ : ∃ b ∈ a :: l, ∀ q ∈ a :: l, q ≤ b := by
    have hne : (a :: l).toFinset.Nonempty := ⟨a, by simp⟩
    refine ⟨(a :: l).toFinset.max' hne, mem_toFinset.mp (Finset.max'_mem _ _), ?_⟩
    intro q hq
    exact Finset.le_max' _ _ (mem_toFinset.mpr hq)
  have hIcc : (a :: l).toFinset = Finset.Icc a b := by
    ext q
    rw [mem_toFinset, Finset.mem_Icc]
    constructor
    · intro hq
      exact ⟨hmin q hq, hmax q hq⟩
    · rintro ⟨haq, hqb⟩
      have ha := (hmem a).mp mem_cons_self
      have hb' := (hmem b).mp hb
      exact (hmem q).mpr ⟨lt_of_le_of_lt hqb hb'.1, hP a q b haq hqb ha.2 hb'.2⟩
  have hcard : l.length + 1 = b + 1 - a := by
    calc l.length + 1 = (a :: l).toFinset.card :=
          (toFinset_card_of_nodup (hsorted.imp fun h => h.ne)).symm
      _ = b + 1 - a := by rw [hIcc, card_Icc]
  have hp : p ∈ a :: l ↔ a ≤ p ∧ p ≤ b := by
    rw [← mem_toFinset, hIcc, Finset.mem_Icc]
  rw [← hmem p, hp, mem_range'_1, hcard]
  have := hmin b hb
  omega

end TrtLlm.Stages
