import TrtLlm.Util.UMap

/-!
The dictionaries of Python.

They are finite maps whose entries stand in the order of insertion: `d[k] = v` replaces the
value of a present key in its place and appends an absent key at the end. An ordered dictionary
used as an LRU cache moves the key of an assignment to the end and drops the entries at the front
beyond a limit (`touch`).
-/

namespace TrtLlm.UMap

open List

variable {κ υ ω : Type*}

/-- The comprehension `{k: f(k, v) for k, v in m.items()}`, which keeps the keys. -/
def mapVal (m : UMap κ υ) (f : κ → υ → ω) : UMap κ ω :=
  ⟨m.entries.map fun e => (e.1, f e.1 e.2), by
    rw [map_map]
    exact m.nodup⟩

variable [DecidableEq κ]

variable {k : κ} {m : UMap κ υ} {v : υ}

@[simp] lemma find?_mapVal (m : UMap κ υ) (f : κ → υ → ω) (k : κ) :
    (m.mapVal f).find? k = (m.find? k).map (f k) := by
  ext w
  rw [find?_eq_some_iff, Option.map_eq_some_iff]
  constructor
  · intro h
    obtain ⟨e, he, hw⟩ := mem_map.mp h
    obtain ⟨rfl, rfl⟩ := Prod.mk.inj hw
    exact ⟨e.2, find?_eq_some_iff.mpr he, rfl⟩
  · rintro ⟨v, hv, rfl⟩
    exact mem_map.mpr ⟨(k, v), find?_eq_some_iff.mp hv, rfl⟩

/-- The assignment `m[k] = v`. -/
def assign (m : UMap κ υ) (k : κ) (v : υ) : UMap κ υ :=
  if h : k ∈ m then m.mapVal fun k' v' => if k' = k then v else v'
  else ⟨m.entries ++ [(k, v)], by
    rw [map_append, nodup_append]
    refine ⟨m.nodup, by simp, fun k' hk' j hj heq => ?_⟩
    obtain rfl : j = k := by simpa using hj
    exact h (heq ▸ hk')⟩

@[simp] lemma find?_assign (m : UMap κ υ) (k k' : κ) (v : υ) :
    (m.assign k v).find? k' = if k' = k then some v else m.find? k' := by
  rw [assign]
  split_ifs with hmem hk hk
  · obtain ⟨w, hw⟩ := mem_iff_find?.mp hmem
    rw [find?_mapVal, hk, hw]
    simp
  · rw [find?_mapVal]
    simp [hk]
  · rw [find?_eq_some_iff, hk]
    simp
  · ext w
    simp [find?_eq_some_iff, hk]

@[simp] lemma mem_assign {k' : κ} : k' ∈ m.assign k v ↔ k' = k ∨ k' ∈ m := by
  simp only [mem_iff_find?, find?_assign]
  by_cases h : k' = k <;> simp [h]

/-- An assignment adds an entry for an absent key. -/
lemma size_assign_of_not_mem (v : υ) (h : k ∉ m) : (m.assign k v).size = m.size + 1 := by
  rw [assign, dif_neg h, size, length_append]
  rfl

/-- The keys are in the order of their first assignment. -/
lemma keys_assign_of_not_mem (v : υ) (h : k ∉ m) : (m.assign k v).keys = m.keys ++ [k] := by
  rw [assign, dif_neg h, keys, map_append]
  rfl

lemma keys_erase_sublist (m : UMap κ υ) (k : κ) : (m.erase k).keys.Sublist m.keys :=
  filter_sublist.map Prod.fst

lemma size_le_assign (m : UMap κ υ) (k : κ) (v : υ) : m.size ≤ (m.assign k v).size := by
  by_cases h : k ∈ m
  · rw [assign, dif_pos h, size, size, mapVal, length_map]
  · rw [size_assign_of_not_mem v h]
    exact Nat.le_succ _

/-! ### Least recently used -/

/-- `m[k] = v; m.move_to_end(k)`, and `m.popitem(last=False)` while there are more than `limit`
entries. -/
def touch (m : UMap κ υ) (limit : ℕ) (k : κ) (v : υ) : UMap κ υ :=
  let moved := (m.erase k).assign k v
  ⟨moved.entries.drop (moved.size - limit),
    (Sublist.map Prod.fst (drop_sublist _ _)).nodup moved.nodup⟩

/-- Within the limit nothing is dropped. -/
lemma find?_touch {limit : ℕ} {keys : Finset κ}
    (hm : ∀ k' ∈ m, k' ∈ keys) (hk : k ∈ keys) (hlimit : keys.card ≤ limit) (k' : κ) :
    (m.touch limit k v).find? k' = if k' = k then some v else m.find? k' := by
  have hsize : ((m.erase k).assign k v).size ≤ limit := by
    refine le_trans ?_ hlimit
    have hsub : ((m.erase k).assign k v).keys.toFinset ⊆ keys := by
      intro k' hk'
      rw [mem_toFinset] at hk'
      obtain rfl | hk' := mem_assign.mp (show k' ∈ (m.erase k).assign k v from hk')
      · exact hk
      · exact hm k' (mem_erase.mp hk').2
    calc ((m.erase k).assign k v).size = ((m.erase k).assign k v).keys.length := by
          rw [size, UMap.keys, length_map]
      _ = ((m.erase k).assign k v).keys.toFinset.card :=
          (toFinset_card_of_nodup (keys_nodup _)).symm
      _ ≤ keys.card := Finset.card_le_card hsub
  have htouch : m.touch limit k v = (m.erase k).assign k v := by
    have hdrop : ((m.erase k).assign k v).size - limit = 0 := Nat.sub_eq_zero_of_le hsize
    rw [touch]
    simp only [hdrop, drop_zero]
  rw [htouch, find?_assign, find?_erase]
  split_ifs <;> rfl

lemma mem_of_mem_touch {limit : ℕ} {k' : κ} (h : k' ∈ m.touch limit k v) : k' = k ∨ k' ∈ m := by
  obtain ⟨e, he, rfl⟩ := mem_map.mp h
  have hmem : e.1 ∈ (m.erase k).assign k v := mem_map_of_mem (mem_of_mem_drop he)
  obtain h | h := mem_assign.mp hmem
  · exact .inl h
  · exact .inr (mem_erase.mp h).2

end TrtLlm.UMap
