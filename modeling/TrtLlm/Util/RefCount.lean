import Mathlib.Data.Finset.Card
import Mathlib.Tactic.Ring

/-!
Reference counting: dropping references one by one frees an item when its last one goes.

* `dropRefs_eq_some`: a list of references can be dropped when it names no item more often
  than the item has references;
* `eq_of_dropRefs`: the items freed are then those all of whose references are in the list
  (`exhausted`).
-/

namespace TrtLlm

open List Function Option Finset

/-- Reference counts, with the number of free items. -/
structure RefCounts (α : Type*) where
  refs : α → ℕ
  free : ℤ

namespace RefCounts

variable {α : Type*} [DecidableEq α]

/-- One reference is dropped; the item becomes free with its last one. -/
def dropRef (c : RefCounts α) (b : α) : Option (RefCounts α) :=
  if c.refs b = 0 then none
  else some {
    refs := update c.refs b (c.refs b - 1)
    free := if c.refs b - 1 = 0 then c.free + 1 else c.free }

/-- The references of a list are dropped in turn. -/
def dropRefs (l : List α) (c : RefCounts α) : Option (RefCounts α) := l.foldlM dropRef c

/-- The items all of whose references are in the list. -/
def exhausted (refs : α → ℕ) (l : List α) : Finset α :=
  l.toFinset.filter fun b => l.count b = refs b

variable {c : RefCounts α} {l : List α}

lemma exhausted_concat {refs : α → ℕ} {x : α} (h : l.count x < refs x) : exhausted refs (l ++ [x])
      = if refs x = l.count x + 1 then insert x (exhausted refs l) else exhausted refs l := by
  have hx : x ∉ exhausted refs l := fun hmem => by
    rw [exhausted, Finset.mem_filter] at hmem
    omega
  ext b
  by_cases hb : b = x
  · subst hb
    have hcount : b ∈ exhausted refs (l ++ [b]) ↔ refs b = l.count b + 1 := by
      simp [exhausted, count_append, eq_comm]
    split_ifs with hlast
    · simp [hcount, hlast]
    · simp [hcount, hlast, hx]
  · have hcount : b ∈ exhausted refs (l ++ [x]) ↔ b ∈ exhausted refs l := by
      have hne : x ≠ b := fun h => hb h.symm
      simp [exhausted, count_append, count_singleton, hb, hne]
    split_ifs
    · rw [hcount, mem_insert]
      simp [hb]
    · exact hcount

/-- The counts after the references of a list are gone. -/
def dropped (c : RefCounts α) (l : List α) : RefCounts α where
  refs b := c.refs b - l.count b
  free := c.free + (exhausted c.refs l).card

lemma dropped_nil (c : RefCounts α) : c.dropped [] = c := by
  have hnone : exhausted c.refs [] = ∅ := filter_empty _
  simp [dropped, hnone]

lemma dropped_refs (c : RefCounts α) (l : List α) (b : α) :
    (c.dropped l).refs b = c.refs b - l.count b := rfl

lemma dropRef_dropped {x : α} (h : l.count x < c.refs x) :
    (c.dropped l).dropRef x = some (c.dropped (l ++ [x])) := by
  have hx : x ∉ exhausted c.refs l := fun hmem => by
    rw [exhausted, Finset.mem_filter] at hmem
    omega
  have hrefs : update (c.dropped l).refs x ((c.dropped l).refs x - 1)
      = (c.dropped (l ++ [x])).refs := by
    funext b
    by_cases hb : b = x
    · subst hb
      simp only [update_self, dropped, count_append, count_singleton_self]
      omega
    · have hne : x ≠ b := fun h => hb h.symm
      simp [dropped, hb, hne, count_append, count_singleton]
  have hfree : (if (c.dropped l).refs x - 1 = 0 then (c.dropped l).free + 1 else (c.dropped l).free)
      = (c.dropped (l ++ [x])).free := by
    have hrefs := c.dropped_refs l x
    by_cases hlast : c.refs x = l.count x + 1
    · rw [if_pos (by omega), dropped, dropped, exhausted_concat h, if_pos hlast,
        card_insert_of_notMem hx]
      push_cast
      ring
    · rw [if_neg (by omega), dropped, dropped, exhausted_concat h, if_neg hlast]
  have hpos : (c.dropped l).refs x ≠ 0 := by
    rw [dropped_refs]
    omega
  rw [dropRef, if_neg hpos, hrefs, hfree]

lemma dropRefs_append (l l' : List α) (c : RefCounts α) :
    dropRefs (l ++ l') c = (dropRefs l c).bind (dropRefs l') :=
  foldlM_append

lemma dropRefs_concat (l : List α) (x : α) (c : RefCounts α) :
    dropRefs (l ++ [x]) c = (dropRefs l c).bind (dropRef · x) := by
  have hsingle (c : RefCounts α) : dropRefs [x] c = c.dropRef x := by simp [dropRefs]
  rw [dropRefs_append]
  simp only [funext hsingle]

/-- References that exist can be dropped. -/
theorem dropRefs_eq_some (h : ∀ b, l.count b ≤ c.refs b) : dropRefs l c = some (c.dropped l) := by
  induction l using reverseRecOn with
  | nil => rw [dropped_nil]; rfl
  | append_singleton l x ih =>
    have hx := h x
    rw [count_append, count_singleton_self] at hx
    have hl (b : α) : l.count b ≤ c.refs b :=
      (Sublist.count_le b (sublist_append_left l [x])).trans (h b)
    rw [dropRefs_concat, ih hl, bind_some]
    exact dropRef_dropped (by omega)

/-- **What dropping a list of references does**: each of them existed, and the items freed are
those that lost their last one. -/
theorem eq_of_dropRefs {c' : RefCounts α} (h : dropRefs l c = some c') :
    (∀ b, l.count b ≤ c.refs b) ∧ c' = c.dropped l := by
  induction l using reverseRecOn generalizing c' with
  | nil =>
    rw [dropped_nil]
    exact ⟨fun b => by simp, by simpa [dropRefs] using h.symm⟩
  | append_singleton l x ih =>
    rw [dropRefs_concat, bind_eq_some_iff] at h
    obtain ⟨c₁, h₁, hx⟩ := h
    obtain ⟨hle, rfl⟩ := ih h₁
    have hlt : l.count x < c.refs x := by
      by_contra hge
      rw [dropRef, if_pos (by rw [dropped_refs]; omega)] at hx
      cases hx
    rw [dropRef_dropped hlt, some.injEq] at hx
    refine ⟨fun b => ?_, hx.symm⟩
    rw [count_append]
    by_cases hb : b = x
    · subst hb
      rw [count_singleton_self]
      omega
    · have hne : x ≠ b := fun h => hb h.symm
      simpa [count_singleton, hne] using hle b

end RefCounts

end TrtLlm
