import Mathlib

/-!
Exclusive ownership of resources.

A set of live resources is divided among owners: every live resource has exactly one owner
and nothing else is owned.  The moves of such a ledger keep this:

* `Owned.acquire`: a resource that is not live becomes live in the hands of one owner;
* `Owned.reassign`: some resources leave their owners, each for another owner or for none.

Each move is stated through membership, so that it applies to any representation of the
sets.
-/

namespace TrtLlm

variable {ι ρ : Type*}

/-- The live resources are the disjoint union of what the owners have. -/
structure Owned (live : Set ρ) (owns : ι → Set ρ) : Prop where
  covered : (⋃ i, owns i) = live
  disjoint : Pairwise (Function.onFun Disjoint owns)

namespace Owned

variable {live live' : Set ρ} {owns owns' : ι → Set ρ}

variable {r : ρ}

lemma mem_live (h : Owned live owns) {i : ι} (hr : r ∈ owns i) : r ∈ live :=
  h.covered ▸ Set.mem_iUnion.mpr ⟨i, hr⟩

lemma exists_owner (h : Owned live owns) (hr : r ∈ live) : ∃ i, r ∈ owns i :=
  Set.mem_iUnion.mp (h.covered.symm ▸ hr)

/-- A resource has one owner. -/
lemma eq_of_mem (h : Owned live owns) {i j : ι} (hi : r ∈ owns i) (hj : r ∈ owns j) : i = j := by
  by_contra hne
  exact Set.disjoint_left.mp (h.disjoint hne) hi hj

/-- Ownership from its pointwise reading. -/
lemma of_forall (h1 : ∀ r, r ∈ live ↔ ∃ i, r ∈ owns i)
    (h2 : ∀ r i j, r ∈ owns i → r ∈ owns j → i = j) : Owned live owns := by
  refine ⟨Set.ext fun r => ?_, fun i j hij => Set.disjoint_left.mpr fun r hi hj => ?_⟩
  · rw [Set.mem_iUnion, h1]
  · exact hij (h2 r i j hi hj)

/-- Ownership depends on the sets alone. -/
lemma congr (h : Owned live owns) (hl : ∀ r, r ∈ live' ↔ r ∈ live)
    (ho : ∀ i r, r ∈ owns' i ↔ r ∈ owns i) : Owned live' owns' := by
  have e1 : live' = live := Set.ext hl
  have e2 : owns' = owns := funext fun i => Set.ext (ho i)
  rw [e1, e2]
  exact h

/-- A resource that is not live becomes live in the hands of `i`. -/
lemma acquire (h : Owned live owns) (i : ι) (r : ρ) (hr : r ∉ live)
    (hl : ∀ x, x ∈ live' ↔ x = r ∨ x ∈ live)
    (ho : ∀ j x, x ∈ owns' j ↔ (j = i ∧ x = r) ∨ x ∈ owns j) : Owned live' owns' := by
  refine of_forall (fun x => ?_) fun x j k hj hk => ?_
  · rw [hl]
    constructor
    · rintro (rfl | hx)
      · exact ⟨i, (ho i x).mpr (Or.inl ⟨rfl, rfl⟩)⟩
      · obtain ⟨j, hj⟩ := h.exists_owner hx
        exact ⟨j, (ho j x).mpr (Or.inr hj)⟩
    · rintro ⟨j, hj⟩
      rcases (ho j x).mp hj with ⟨-, rfl⟩ | hj
      · exact Or.inl rfl
      · exact Or.inr (h.mem_live hj)
  · rcases (ho j x).mp hj with ⟨rfl, rfl⟩ | hj'
    · rcases (ho k x).mp hk with ⟨rfl, -⟩ | hk'
      · rfl
      · exact absurd (h.mem_live hk') hr
    · rcases (ho k x).mp hk with ⟨-, rfl⟩ | hk'
      · exact absurd (h.mem_live hj') hr
      · exact h.eq_of_mem hj' hk'

/-- The resources of `H` leave their owners: `r` goes to `dst r`, or stops being live where
that is `none`. -/
lemma reassign (h : Owned live owns) {H : Set ρ} {dst : ρ → Option ι} (hH : H ⊆ live)
    (hl : ∀ x, x ∈ live' ↔ x ∈ live ∧ (x ∈ H → dst x ≠ none))
    (ho : ∀ j x, x ∈ owns' j ↔ (x ∈ H ∧ dst x = some j) ∨ (x ∉ H ∧ x ∈ owns j)) :
    Owned live' owns' := by
  refine of_forall (fun x => ?_) fun x j k hj hk => ?_
  · rw [hl]
    constructor
    · rintro ⟨hx, hd⟩
      by_cases hxH : x ∈ H
      · obtain ⟨j, hj⟩ := Option.ne_none_iff_exists'.mp (hd hxH)
        exact ⟨j, (ho j x).mpr (Or.inl ⟨hxH, hj⟩)⟩
      · obtain ⟨j, hj⟩ := h.exists_owner hx
        exact ⟨j, (ho j x).mpr (Or.inr ⟨hxH, hj⟩)⟩
    · rintro ⟨j, hj⟩
      rcases (ho j x).mp hj with ⟨hxH, hd⟩ | ⟨hxH, hj'⟩
      · exact ⟨hH hxH, fun _ => by rw [hd]; exact Option.some_ne_none j⟩
      · exact ⟨h.mem_live hj', fun hx => absurd hx hxH⟩
  · rcases (ho j x).mp hj with ⟨hxH, hd⟩ | ⟨hxH, hj'⟩
    · rcases (ho k x).mp hk with ⟨-, hd'⟩ | ⟨hxH', -⟩
      · exact Option.some.inj (hd.symm.trans hd')
      · exact absurd hxH hxH'
    · rcases (ho k x).mp hk with ⟨hxH', -⟩ | ⟨-, hk'⟩
      · exact absurd hxH' hxH
      · exact h.eq_of_mem hj' hk'

end Owned

end TrtLlm
