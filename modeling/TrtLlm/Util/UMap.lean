import Mathlib.Tactic

/-!
Finite maps and sets in the shape of the unordered containers of the C++ standard
library.

A map is the list of its entries together with the proof that no key occurs twice, so
that a container with a doubled key cannot be built.  The order of the list carries no
meaning: the standard leaves the iteration order of these containers unspecified.

* `UMap.find?`, `UMap.set`, `UMap.emplace`, `UMap.erase`: lookup, assignment through
  `operator[]`, insertion that keeps an existing entry, and removal, each with its
  lookup lemma;
* `UMap.total`: the sum of a weight over the entries.  It depends on the weights stored
  under the keys alone (`total_congr`), and a change at one key moves it by the weights at
  that key (`total_update`), which is what turns an ownership count over a map of sets into
  linear arithmetic;
* `UMap.ind`: the indicator of the keys, and `USet`: a set is a map to `Unit`.
-/

namespace TrtLlm

open List Prod

/-- A finite map: its entries, no key occurring twice. -/
structure UMap (κ υ : Type*) where
  entries : List (κ × υ)
  nodup : (entries.map fst).Nodup

namespace UMap

variable {κ υ : Type*}

/-- The empty map. -/
def empty : UMap κ υ := ⟨[], by simp⟩

instance : EmptyCollection (UMap κ υ) := ⟨empty⟩

instance : Inhabited (UMap κ υ) := ⟨empty⟩

section

variable (m : UMap κ υ)

/-- The number of entries. -/
def size : ℕ := m.entries.length

/-- The keys, in iteration order. -/
def keys : List κ := m.entries.map fst

lemma keys_nodup : m.keys.Nodup := m.nodup

/-- The sum of a weight over the entries. -/
def total (g : κ → υ → ℕ) : ℕ := (m.entries.map fun e => g e.1 e.2).sum

end

@[simp] lemma total_empty (g : κ → υ → ℕ) : (∅ : UMap κ υ).total g = 0 := rfl

variable [DecidableEq κ]

/-- The value stored under a key. -/
def find? (m : UMap κ υ) (k : κ) : Option υ :=
  (m.entries.find? fun e => e.1 = k).map snd

instance : Membership κ (UMap κ υ) := ⟨fun m k => k ∈ m.keys⟩

instance (m : UMap κ υ) (k : κ) : Decidable (k ∈ m) :=
  inferInstanceAs (Decidable (k ∈ m.keys))

section

variable (m : UMap κ υ) (k : κ)

/-- Removal of a key; nothing happens when it is absent. -/
def erase : UMap κ υ :=
  ⟨m.entries.filter fun e => e.1 ≠ k, (Sublist.map fst filter_sublist).nodup m.nodup⟩

/-- Assignment `m[k] = v`, which overwrites. -/
def set (v : υ) : UMap κ υ :=
  ⟨(k, v) :: (m.erase k).entries, by
    rw [map_cons, nodup_cons]
    refine ⟨fun h => ?_, (m.erase k).nodup⟩
    obtain ⟨e, he, hk⟩ := mem_map.mp h
    simp only [erase, mem_filter] at he
    exact absurd hk (by simpa using he.2)⟩

/-- `m.emplace(k, v)`: an existing entry is kept. -/
def emplace (v : υ) : UMap κ υ :=
  if k ∈ m then m else m.set k v

end

/-! ### Lookup -/

variable {k k' : κ} {m : UMap κ υ} {v : υ}

@[simp] lemma find?_empty (k : κ) : (∅ : UMap κ υ).find? k = none := rfl

/-- A lookup returns the entry of that key, and every entry is found. -/
lemma find?_eq_some_iff : m.find? k = some v ↔ (k, v) ∈ m.entries := by
  obtain ⟨l, hl⟩ := m
  rw [find?]
  induction l with
  | nil => simp
  | cons e l ih =>
    simp only [map_cons, nodup_cons] at hl
    by_cases h : e.1 = k
    · have hnot : (k, v) ∉ l := fun hm => hl.1 (h ▸ mem_map_of_mem hm)
      obtain ⟨k', v'⟩ := e
      simp only at h
      subst h
      simp [hnot, eq_comm]
    · have hne : (k, v) ≠ e := fun he => h (he ▸ rfl)
      simpa [find?_cons, h, hne] using ih hl.2

lemma find?_eq_none_iff : m.find? k = none ↔ k ∉ m := by
  rw [find?, Option.map_eq_none_iff, find?_eq_none]
  constructor
  · intro h hk
    obtain ⟨e, he, hek⟩ := mem_map.mp hk
    exact h e he (by simpa using hek)
  · intro h e he hek
    exact h (mem_map.mpr ⟨e, he, by simpa using hek⟩)

lemma mem_iff_find? : k ∈ m ↔ ∃ v, m.find? k = some v := by
  rw [← not_iff_not, ← find?_eq_none_iff, Option.eq_none_iff_forall_ne_some]
  simp

lemma mem_of_find? (h : m.find? k = some v) : k ∈ m := mem_iff_find?.mpr ⟨v, h⟩

@[simp] lemma not_mem_empty (k : κ) : k ∉ (∅ : UMap κ υ) := find?_eq_none_iff.mp (find?_empty k)

@[simp] lemma find?_erase (m : UMap κ υ) (k k' : κ) :
    (m.erase k).find? k' = if k' = k then none else m.find? k' := by
  ext v
  rw [find?_eq_some_iff]
  by_cases h : k' = k
  · simp [erase, h]
  · simp [erase, h, find?_eq_some_iff]

/-- The entries that satisfy a condition. -/
def filter (m : UMap κ υ) (p : κ → υ → Bool) : UMap κ υ :=
  ⟨m.entries.filter fun e => p e.1 e.2, (Sublist.map fst filter_sublist).nodup m.nodup⟩

@[simp] lemma find?_filter (m : UMap κ υ) (p : κ → υ → Bool) (k : κ) :
    (m.filter p).find? k = (m.find? k).filter (p k) := by
  ext v
  rw [find?_eq_some_iff, Option.filter_eq_some_iff, find?_eq_some_iff]
  exact mem_filter

@[simp] lemma find?_set (m : UMap κ υ) (k k' : κ) (v : υ) :
    (m.set k v).find? k' = if k' = k then some v else m.find? k' := by
  ext w
  rw [find?_eq_some_iff]
  by_cases h : k' = k
  · simp [set, erase, h, eq_comm]
  · simp [set, erase, h, find?_eq_some_iff]

lemma find?_emplace (m : UMap κ υ) (k k' : κ) (v : υ) :
    (m.emplace k v).find? k' = if k' = k ∧ k ∉ m then some v else m.find? k' := by
  rw [emplace]
  by_cases h : k ∈ m
  · simp [h]
  · simp [h]

@[simp] lemma mem_erase : k' ∈ m.erase k ↔ k' ≠ k ∧ k' ∈ m := by
  simp only [mem_iff_find?, find?_erase]
  by_cases h : k' = k <;> simp [h]

@[simp] lemma mem_set : k' ∈ m.set k v ↔ k' = k ∨ k' ∈ m := by
  simp only [mem_iff_find?, find?_set]
  by_cases h : k' = k <;> simp [h]

@[simp] lemma mem_emplace : k' ∈ m.emplace k v ↔ k' = k ∨ k' ∈ m := by
  rw [emplace]
  split_ifs with h
  · exact ⟨Or.inr, fun h' => h'.elim (fun e => e ▸ h) id⟩
  · exact mem_set

/-- The indicator of a map's domain, `1` on its keys and `0` elsewhere. -/
def ind (m : UMap κ υ) (k : κ) : ℕ := if k ∈ m then 1 else 0

lemma ind_of_mem (h : k ∈ m) : m.ind k = 1 := if_pos h

lemma ind_of_not_mem (h : k ∉ m) : m.ind k = 0 := if_neg h

lemma ind_pos_iff : 0 < m.ind k ↔ k ∈ m := by
  rw [ind]; split <;> simp_all

/-- The entries are the one of a key and those of the other keys. -/
lemma entries_perm (h : m.find? k = some v) : m.entries.Perm ((k, v) :: (m.erase k).entries) := by
  obtain ⟨l₁, l₂, hl⟩ := append_of_mem (find?_eq_some_iff.mp h)
  have hnodup : ((l₁ ++ (k, v) :: l₂).map fst).Nodup := hl ▸ m.nodup
  rw [(perm_middle.map fst).nodup_iff, map_cons, nodup_cons] at hnodup
  have hkeep : ∀ e ∈ l₁ ++ l₂, e.1 ≠ k := fun e he hk =>
    hnodup.1 (mem_map.mpr ⟨e, he, hk⟩)
  have herase : (m.erase k).entries = l₁ ++ l₂ := by
    simp only [erase, hl, filter_append, filter_cons_of_neg, ne_eq, not_true_eq_false,
      decide_false, Bool.false_eq_true, not_false_eq_true]
    rw [← filter_append, filter_eq_self]
    exact fun e he => by simpa using hkeep e he
  rw [herase, hl]
  exact perm_middle

omit [DecidableEq κ] in
/-- A map that lost a key is smaller. -/
lemma size_lt {m' : UMap κ υ} (hsub : ∀ k' ∈ m', k' ∈ m) (hk : k ∈ m) (hk' : k ∉ m') :
    m'.size < m.size := by
  have hnodup : (k :: m'.keys).Nodup := nodup_cons.mpr ⟨hk', m'.keys_nodup⟩
  have hle : (k :: m'.keys).length ≤ m.keys.length := by
    refine (subperm_of_subset hnodup fun j hj => ?_).length_le
    obtain rfl | hj := mem_cons.mp hj
    · exact hk
    · exact hsub j hj
  simpa only [length_cons, keys, length_map, size, Nat.succ_le_iff] using hle

/-! ### Weighted totals -/

/-- Removing an absent key changes nothing. -/
lemma erase_of_not_mem (h : k ∉ m) : m.erase k = m := by
  obtain ⟨l, hl⟩ := m
  simp only [erase, UMap.mk.injEq, filter_eq_self]
  intro e he
  have hne : e.1 ≠ k := fun hk => h (hk ▸ mem_map_of_mem he)
  simpa using hne

/-- The weight stored under a key, `0` if it is absent. -/
def weight (m : UMap κ υ) (g : κ → υ → ℕ) (k : κ) : ℕ := ((m.find? k).map (g k)).getD 0

lemma weight_of_find? (g : κ → υ → ℕ) (h : m.find? k = some v) : m.weight g k = g k v := by
  simp [weight, h]

lemma weight_of_not_mem (g : κ → υ → ℕ) (h : k ∉ m) : m.weight g k = 0 := by
  simp [weight, find?_eq_none_iff.mpr h]

section

variable (m : UMap κ υ) (g : κ → υ → ℕ)

lemma weight_set (k k' : κ) (v : υ) :
    (m.set k v).weight g k' = if k' = k then g k v else m.weight g k' := by
  by_cases h : k' = k <;> simp [weight, h]

lemma weight_erase (k k' : κ) : (m.erase k).weight g k' = if k' = k then 0 else m.weight g k' := by
  by_cases h : k' = k <;> simp [weight, h]

/-- The total is the sum of the weights over any finite set that holds the keys. -/
lemma total_eq_sum {t : Finset κ} (ht : m.keys.toFinset ⊆ t) :
    m.total g = ∑ k ∈ t, m.weight g k := by
  have hsub : ∑ k ∈ m.keys.toFinset, m.weight g k = ∑ k ∈ t, m.weight g k :=
    Finset.sum_subset ht fun k _ hk => weight_of_not_mem g fun hm => hk (mem_toFinset.mpr hm)
  rw [← hsub, sum_toFinset _ m.keys_nodup, total, keys, List.map_map]
  refine congrArg sum (map_congr_left fun e he => ?_)
  exact (weight_of_find? g (find?_eq_some_iff.mpr he)).symm

end

/-- Two maps with equal weights away from one key differ in their totals by the weights at
that key. -/
lemma total_update {m m' : UMap κ υ} {g g' : κ → υ → ℕ} (k : κ)
    (h : ∀ k' ≠ k, m'.weight g' k' = m.weight g k') :
    m'.total g' + m.weight g k = m.total g + m'.weight g' k := by
  set t := insert k (m.keys.toFinset ∪ m'.keys.toFinset) with ht
  have h1 : m.keys.toFinset ⊆ t := Finset.subset_union_left.trans (Finset.subset_insert _ _)
  have h2 : m'.keys.toFinset ⊆ t := Finset.subset_union_right.trans (Finset.subset_insert _ _)
  have hk : k ∈ t := Finset.mem_insert_self _ _
  have e1 := Finset.add_sum_erase t (fun k' => m.weight g k') hk
  have e2 := Finset.add_sum_erase t (fun k' => m'.weight g' k') hk
  have e3 : ∑ k' ∈ t.erase k, m'.weight g' k' = ∑ k' ∈ t.erase k, m.weight g k' :=
    Finset.sum_congr rfl fun k' hk' => h k' (Finset.ne_of_mem_erase hk')
  rw [total_eq_sum m g h1, total_eq_sum m' g' h2]
  omega

/-- Equal weights give equal totals. -/
lemma total_congr {m' : UMap κ υ} {g g' : κ → υ → ℕ}
    (h : ∀ k, m'.weight g' k = m.weight g k) : m'.total g' = m.total g := by
  rw [total_eq_sum m g Finset.subset_union_left, total_eq_sum m' g' Finset.subset_union_right]
  exact Finset.sum_congr rfl fun k _ => h k

/-- One entry weighs at most the total. -/
lemma weight_le_total (m : UMap κ υ) (g : κ → υ → ℕ) (k : κ) : m.weight g k ≤ m.total g := by
  have := @total_update _ _ _ (m.erase k) m g g k fun k' hk' => by
    rw [weight_erase, if_neg hk']
  rw [weight_erase, if_pos rfl] at this
  omega

end UMap

/-! ### Sets -/

/-- A finite set, as a map to `Unit`. -/
abbrev USet (α : Type*) := UMap α Unit

namespace USet

variable {α : Type*}

/-- The set of the keys of a map. -/
def ofKeys {υ : Type*} (m : UMap α υ) : USet α :=
  ⟨m.entries.map fun e => (e.1, ()), by rw [List.map_map]; exact m.nodup⟩

@[simp] lemma mem_ofKeys {υ : Type*} {m : UMap α υ} {a : α} : a ∈ ofKeys m ↔ a ∈ m := by
  change a ∈ (m.entries.map fun e => (e.1, ())).map fst ↔ a ∈ m.entries.map fst
  rw [List.map_map]
  rfl

variable [DecidableEq α]

/-- Insertion; a present element stays. -/
def insert (s : USet α) (a : α) : USet α := s.set a ()

@[simp] lemma mem_insert {s : USet α} {a b : α} : b ∈ USet.insert s a ↔ b = a ∨ b ∈ s :=
  UMap.mem_set

end USet

end TrtLlm
