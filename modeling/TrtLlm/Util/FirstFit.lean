import Mathlib.Tactic
import Mathlib.Data.List.TakeWhile

/-!
Contiguous runs of slots, taken first fit and returned with coalescing.

The free slots are a list of runs, each given by its first slot and its length. The list is
canonical when it is in order, no run is empty, and some slot between any two runs is not free.

* `take_has`: taking a run of free slots leaves the other free ones;
* `give_has`: a returned run is free again, and nothing else changes;
* `take_canonical`, `give_canonical`: **both keep the list canonical**.
-/

namespace TrtLlm.FirstFit

open List

/-- The first slot of a run and how many there are. -/
abbrev Run := ℕ × ℕ

/-- The run has the slot. -/
def Run.Has (r : Run) (k : ℕ) : Prop := r.1 ≤ k ∧ k < r.1 + r.2

instance (r : Run) (k : ℕ) : Decidable (r.Has k) := inferInstanceAs (Decidable (_ ∧ _))

/-- Some run of the list has the slot. -/
def Has (free : List Run) (k : ℕ) : Prop := ∃ r ∈ free, r.Has k

instance (free : List Run) (k : ℕ) : Decidable (Has free k) :=
  inferInstanceAs (Decidable (∃ r ∈ free, r.Has k))

@[simp] lemma has_nil (k : ℕ) : ¬ Has [] k := by simp [Has]

@[simp] lemma has_cons (r : Run) (free : List Run) (k : ℕ) :
    Has (r :: free) k ↔ r.Has k ∨ Has free k := by simp [Has]

@[simp] lemma has_append (free free' : List Run) (k : ℕ) :
    Has (free ++ free') k ↔ Has free k ∨ Has free' k := by
  simp [Has, or_and_right, exists_or]

/-- Runs in order, none empty, and none next to another. -/
structure Canonical (free : List Run) : Prop where
  pos : ∀ r ∈ free, 0 < r.2
  apart : free.Pairwise fun r r' => r.1 + r.2 < r'.1

/-- The first run that is long enough. -/
def find (count : ℕ) (free : List Run) : Option ℕ :=
  (free.find? fun r => count ≤ r.2).map Prod.fst

/-- What is left of a run when a part of it is taken. -/
def pieces (start count : ℕ) (r : Run) : List Run :=
  (if r.1 < start then [(r.1, start - r.1)] else [])
    ++ if start + count < r.1 + r.2 then [(start + count, r.1 + r.2 - start - count)] else []

/-- A part of a free run is taken out of it. -/
def take (start count : ℕ) : List Run → Option (List Run)
  | [] => none
  | r :: free =>
    if r.1 ≤ start ∧ start + count ≤ r.1 + r.2 then some (pieces start count r ++ free)
    else (take start count free).map (r :: ·)

/-- Some slot of the run is free. -/
def overlaps (start count : ℕ) (free : List Run) : Bool :=
  free.any fun r => r.1 < start + count && start < r.1 + r.2

/-- Runs that continue each other are made one, beginning with the first one. -/
def coalesceFrom : Run → List Run → List Run
  | r, [] => [r]
  | r, r' :: free =>
    if r.1 + r.2 = r'.1 then coalesceFrom (r.1, r.2 + r'.2) free
    else r :: coalesceFrom r' free

def coalesce : List Run → List Run
  | [] => []
  | r :: free => coalesceFrom r free

/-- A run is put in its place and joined to its neighbours. -/
def give (start count : ℕ) (free : List Run) : List Run :=
  if count = 0 then free
  else coalesce (free.takeWhile (·.1 < start) ++ (start, count) :: free.dropWhile (·.1 < start))

variable {free free' : List Run} {start count k : ℕ}

/-! ### Taking a run -/

variable {r : Run}

lemma Canonical.tail (h : Canonical (r :: free)) : Canonical free :=
  ⟨fun r' hr' => h.pos r' (mem_cons_of_mem r hr'), h.apart.of_cons⟩

/-- The free slots after the first run lie beyond its end. -/
lemma Canonical.lt_of_has (h : Canonical (r :: free)) (hk : Has free k) : r.1 + r.2 < k := by
  obtain ⟨r', hr', hk'⟩ := hk
  exact lt_of_lt_of_le (rel_of_pairwise_cons h.apart hr') hk'.1

lemma find_fits (h : find count free = some start) :
    ∃ r ∈ free, r.1 ≤ start ∧ start + count ≤ r.1 + r.2 := by
  obtain ⟨r, hr, rfl⟩ := Option.map_eq_some_iff.mp h
  have hlen : count ≤ r.2 := by simpa using find?_some hr
  exact ⟨r, mem_of_find?_eq_some hr, le_refl _, Nat.add_le_add_left hlen _⟩

/-- A run inside a free one can be taken. -/
lemma take_isSome (h : ∃ r ∈ free, r.1 ≤ start ∧ start + count ≤ r.1 + r.2) :
    ∃ free', take start count free = some free' := by
  induction free with
  | nil => simp at h
  | cons r free ih =>
    rw [take]
    split_ifs with hfits
    · exact ⟨_, rfl⟩
    · obtain ⟨r', hr', hfits'⟩ := h
      obtain rfl | hr' := mem_cons.mp hr'
      · exact absurd hfits' hfits
      · obtain ⟨free', hfree'⟩ := ih ⟨r', hr', hfits'⟩
        exact ⟨r :: free', by rw [hfree', Option.map_some]⟩

/-- What was taken was free. -/
lemma has_of_take (h : take start count free = some free') (hk : start ≤ k ∧ k < start + count) :
    Has free k := by
  induction free generalizing free' with
  | nil => cases h
  | cons r free ih =>
    rw [take] at h
    rw [has_cons]
    split_ifs at h with hfits
    · exact .inl ⟨by omega, by omega⟩
    · obtain ⟨rest, hrest, -⟩ := Option.map_eq_some_iff.mp h
      exact .inr (ih hrest)

lemma pieces_has (hr : r.1 ≤ start ∧ start + count ≤ r.1 + r.2) (k : ℕ) :
    Has (pieces start count r) k ↔ r.Has k ∧ ¬ (start ≤ k ∧ k < start + count) := by
  unfold pieces Run.Has
  rw [has_append]
  split_ifs <;>
    simp only [has_cons, has_nil, Run.Has, or_false, false_or, false_iff] <;>
    omega

/-- The pieces lie inside the run. -/
lemma pieces_inside {r' : Run} (hr : r.1 ≤ start ∧ start + count ≤ r.1 + r.2)
    (h : r' ∈ pieces start count r) : r.1 ≤ r'.1 ∧ r'.1 + r'.2 ≤ r.1 + r.2 := by
  unfold pieces at h
  split_ifs at h <;> simp only [mem_append, mem_singleton, not_mem_nil, or_false, false_or] at h
  · obtain rfl | rfl := h <;> dsimp only <;> omega
  · subst h
    omega
  · subst h
    omega

lemma pieces_canonical (hcount : 0 < count) (r : Run) : Canonical (pieces start count r) := by
  unfold pieces
  constructor
  · intro r' hr'
    split_ifs at hr' <;> simp only [mem_append, mem_singleton, not_mem_nil,
      or_false, false_or] at hr'
    · obtain rfl | rfl := hr' <;> dsimp only <;> omega
    · subst hr'
      omega
    · subst hr'
      omega
  · split_ifs <;> simp
    omega

lemma Canonical.append (h : Canonical free) (h' : Canonical free')
    (hlt : ∀ r ∈ free, ∀ r' ∈ free', r.1 + r.2 < r'.1) : Canonical (free ++ free') :=
  ⟨fun r hr => (mem_append.mp hr).elim (h.pos r) (h'.pos r),
    pairwise_append.mpr ⟨h.apart, h'.apart, hlt⟩⟩

/-- **Taking a run leaves the other free slots.** -/
theorem take_has (hfree : Canonical free) (h : take start count free = some free') (k : ℕ) :
    Has free' k ↔ Has free k ∧ ¬ (start ≤ k ∧ k < start + count) := by
  induction free generalizing free' with
  | nil => cases h
  | cons r free ih =>
    rw [take] at h
    split_ifs at h with hfits
    · obtain rfl := Option.some.inj h
      rw [has_append, pieces_has hfits, has_cons]
      constructor
      · rintro (hk | hk)
        · exact ⟨.inl hk.1, hk.2⟩
        · have := hfree.lt_of_has hk
          exact ⟨.inr hk, by omega⟩
      · rintro ⟨hk | hk, hout⟩
        · exact .inl ⟨hk, hout⟩
        · exact .inr hk
    · obtain ⟨rest, hrest, rfl⟩ := Option.map_eq_some_iff.mp h
      rw [has_cons, has_cons, ih hfree.tail hrest]
      constructor
      · rintro (hk | hk)
        · -- the slots taken lie in a later run
          refine ⟨.inl hk, fun hin => ?_⟩
          have := hfree.lt_of_has (has_of_take hrest hin)
          exact absurd hk.2 (by omega)
        · exact ⟨.inr hk.1, hk.2⟩
      · rintro ⟨hk | hk, hout⟩
        · exact .inl hk
        · exact .inr ⟨hk, hout⟩

/-- The runs that are left begin no earlier than those there were. -/
lemma lt_of_take {n : ℕ} (h : take start count free = some free') (hn : ∀ r ∈ free, n < r.1) :
    ∀ r ∈ free', n < r.1 := by
  induction free generalizing free' with
  | nil => cases h
  | cons r free ih =>
    have hrest : ∀ r' ∈ free, n < r'.1 := fun r' hr' => hn r' (mem_cons_of_mem r hr')
    rw [take] at h
    split_ifs at h with hfits
    · obtain rfl := Option.some.inj h
      intro r' hr'
      obtain hr' | hr' := mem_append.mp hr'
      · exact (hn r mem_cons_self).trans_le (pieces_inside hfits hr').1
      · exact hrest r' hr'
    · obtain ⟨rest, htake, rfl⟩ := Option.map_eq_some_iff.mp h
      intro r' hr'
      obtain rfl | hr' := mem_cons.mp hr'
      · exact hn r' mem_cons_self
      · exact ih htake hrest r' hr'

/-- **Taking a run keeps the list canonical.** -/
theorem take_canonical (hfree : Canonical free) (hcount : 0 < count)
    (h : take start count free = some free') : Canonical free' := by
  induction free generalizing free' with
  | nil => cases h
  | cons r free ih =>
    have hnext : ∀ r' ∈ free, r.1 + r.2 < r'.1 := fun r' hr' =>
      rel_of_pairwise_cons hfree.apart hr'
    rw [take] at h
    split_ifs at h with hfits
    · obtain rfl := Option.some.inj h
      exact (pieces_canonical hcount r).append hfree.tail fun p hp r' hr' =>
        (pieces_inside hfits hp).2.trans_lt (hnext r' hr')
    · obtain ⟨rest, hrest, rfl⟩ := Option.map_eq_some_iff.mp h
      have hone : Canonical [r] :=
        ⟨fun x hx => hfree.pos x (mem_singleton.mp hx ▸ mem_cons_self), pairwise_singleton _ r⟩
      exact hone.append (ih hfree.tail hrest) fun x hx =>
        (mem_singleton.mp hx).symm ▸ lt_of_take hrest hnext

/-! ### Returning a run -/

lemma coalesceFrom_has (r : Run) (free : List Run) (k : ℕ) :
    Has (coalesceFrom r free) k ↔ Has (r :: free) k := by
  induction free generalizing r with
  | nil => rfl
  | cons r' free ih =>
    rw [coalesceFrom]
    split_ifs with hnext
    · rw [ih]
      simp only [has_cons, Run.Has]
      rw [← or_assoc]
      refine or_congr_left ?_
      omega
    · rw [has_cons, ih, has_cons r]

/-- Runs in order that do not overlap. -/
structure InOrder (free : List Run) : Prop where
  pos : ∀ r ∈ free, 0 < r.2
  apart : free.Pairwise fun r r' => r.1 + r.2 ≤ r'.1

lemma Canonical.inOrder (h : Canonical free) : InOrder free :=
  ⟨h.pos, h.apart.imp fun hlt => hlt.le⟩

/-- **Runs in order are made canonical**, and nothing begins before the first one. -/
theorem coalesceFrom_spec (h : InOrder (r :: free)) :
    Canonical (coalesceFrom r free) ∧ ∀ x ∈ coalesceFrom r free, r.1 ≤ x.1 := by
  induction free generalizing r with
  | nil =>
    refine ⟨⟨h.pos, pairwise_singleton _ r⟩, fun x hx => ?_⟩
    rw [mem_singleton.mp hx]
  | cons r' free ih =>
    have hpos := h.pos r mem_cons_self
    obtain ⟨hfirst, hrest⟩ := pairwise_cons.mp h.apart
    obtain ⟨hsecond, hrest'⟩ := pairwise_cons.mp hrest
    rw [coalesceFrom]
    split_ifs with hnext
    · -- the two runs are one from here on
      refine ih ⟨fun x hx => ?_, pairwise_cons.mpr ⟨fun x hx => ?_, hrest'⟩⟩
      · obtain rfl | hx := mem_cons.mp hx
        · dsimp only
          omega
        · exact h.pos x (mem_cons_of_mem r (mem_cons_of_mem r' hx))
      · have := hsecond x hx
        omega
    · have hle := hfirst r' mem_cons_self
      obtain ⟨hcanonical, hstart⟩ := ih
        ⟨fun x hx => h.pos x (mem_cons_of_mem r hx), hrest⟩
      have hone : Canonical [r] :=
        ⟨fun x hx => by rwa [mem_singleton.mp hx], pairwise_singleton _ r⟩
      refine ⟨hone.append hcanonical fun x hx y hy => ?_, fun x hx => ?_⟩
      · rw [mem_singleton.mp hx]
        have := hstart y hy
        omega
      · obtain rfl | hx := mem_cons.mp hx
        · exact le_refl _
        · have := hstart x hx
          omega

lemma coalesce_has (free : List Run) (k : ℕ) : Has (coalesce free) k ↔ Has free k := by
  cases free with
  | nil => rfl
  | cons r free => exact coalesceFrom_has r free k

lemma coalesce_canonical (h : InOrder free) : Canonical (coalesce free) := by
  cases free with
  | nil => exact ⟨h.pos, List.Pairwise.nil⟩
  | cons r free => exact (coalesceFrom_spec h).1

/-- A run none of whose slots is free does not overlap the free ones. -/
lemma not_overlaps_iff (hpos : ∀ r ∈ free, 0 < r.2) (hcount : 0 < count) :
    overlaps start count free = false
      ↔ ∀ k, start ≤ k → k < start + count → ¬ Has free k := by
  simp only [overlaps, any_eq_false, Bool.and_eq_true, decide_eq_true_eq, not_and, not_lt,
    Has, Run.Has, not_exists]
  constructor
  · intro h k hk hk' r hr hlow
    have := h r hr (by omega)
    omega
  · intro h r hr hlt
    have hr' := hpos r hr
    by_contra hover
    have := h (max start r.1) (le_max_left _ _) (by omega) r hr (le_max_right _ _)
    omega

/-- **A returned run is free again**, and nothing else changes. -/
theorem give_has (free : List Run) (start count k : ℕ) :
    Has (give start count free) k ↔ Has free k ∨ (start ≤ k ∧ k < start + count) := by
  unfold give
  split_ifs with hcount
  · simp only [hcount, iff_self_or]
    omega
  · have hsplit : Has free k ↔ Has (free.takeWhile (·.1 < start)) k
        ∨ Has (free.dropWhile (·.1 < start)) k := by
      rw [← has_append, takeWhile_append_dropWhile]
    rw [coalesce_has, has_append, has_cons, hsplit, Run.Has]
    tauto

/-- **Returning a run keeps the list canonical.** -/
theorem give_canonical (hfree : Canonical free)
    (h : ∀ k, start ≤ k → k < start + count → ¬ Has free k) :
    Canonical (give start count free) := by
  unfold give
  split_ifs with hcount
  · exact hfree
  refine coalesce_canonical ?_
  have hover := (not_overlaps_iff hfree.pos (Nat.pos_of_ne_zero hcount)).mpr h
  have hclear : ∀ r ∈ free, start + count ≤ r.1 ∨ r.1 + r.2 ≤ start := by
    intro r hr
    simp only [overlaps, any_eq_false, Bool.and_eq_true, decide_eq_true_eq, not_and,
      not_lt] at hover
    by_cases hlt : r.1 < start + count
    · exact .inr (hover r hr hlt)
    · exact .inl (not_lt.mp hlt)
  have horder := hfree.inOrder.apart
  have hsplit := takeWhile_append_dropWhile (p := fun r : Run => r.1 < start) (l := free)
  have hmem : ∀ r, r ∈ free.takeWhile (fun r : Run => r.1 < start)
      ∨ r ∈ free.dropWhile (fun r : Run => r.1 < start) → r ∈ free := fun r hr => by
    rw [← hsplit]
    exact mem_append.mpr hr
  rw [← hsplit, pairwise_append] at horder
  -- the runs in front begin before the run and end before it, since none overlaps it
  have hfront : ∀ r ∈ free.takeWhile (fun r : Run => r.1 < start), r.1 + r.2 ≤ start := by
    intro r hr
    have hlt : r.1 < start := by simpa using mem_takeWhile_imp hr
    exact (hclear r (hmem r (.inl hr))).resolve_left (by omega)
  have hback : ∀ r ∈ free.dropWhile (fun r : Run => r.1 < start), start + count ≤ r.1 := by
    intro r hr
    have hpos := hfree.pos r (hmem r (.inr hr))
    refine (hclear r (hmem r (.inr hr))).resolve_right fun hle => ?_
    -- the first run behind does not begin before the run, and the others begin after it
    cases hdrop : free.dropWhile (fun r : Run => r.1 < start) with
    | nil => simp [hdrop] at hr
    | cons x rest =>
      have hx : start ≤ x.1 := by
        have := head?_dropWhile_not (fun r : Run => r.1 < start) free
        rw [hdrop] at this
        simpa using this
      rw [hdrop] at hr horder
      obtain rfl | hr := mem_cons.mp hr
      · omega
      · have := rel_of_pairwise_cons horder.2.1 hr
        omega
  refine ⟨fun r hr => ?_, ?_⟩
  · obtain hr | hr := mem_append.mp hr
    · exact hfree.pos r (hmem r (.inl hr))
    · obtain rfl | hr := mem_cons.mp hr
      · exact Nat.pos_of_ne_zero hcount
      · exact hfree.pos r (hmem r (.inr hr))
  · refine pairwise_append.mpr ⟨horder.1, pairwise_cons.mpr ⟨hback, horder.2.1⟩, ?_⟩
    intro r hr r' hr'
    obtain rfl | hr' := mem_cons.mp hr'
    · exact hfront r hr
    · exact horder.2.2 r hr r' hr'

end TrtLlm.FirstFit
