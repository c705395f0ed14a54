import Mathlib.Tactic

/-!
Items that are put into bins of bounded size.

* `Bins.room`: the free places below a cap. One more item takes one of them at most
  (`room_le_put`), and exactly one if its bin is below the cap (`room_put`); while there is room,
  some bin is below the cap (`room_pos_iff`);
* `Bins.total`: the items in all bins, with multiplicity. The items that are put in are those
  that come out (`total_put`).
-/

namespace TrtLlm

open Function Finset Multiset

/-- The items in each bin, and the number of items that count for it. -/
structure Bins (β ι : Type*) where
  items : β → List ι
  load : β → ℕ

namespace Bins

variable {β ι : Type*} [DecidableEq β]

/-- Empty bins with the given loads. -/
def ofLoads (load : β → ℕ) : Bins β ι := ⟨fun _ => [], load⟩

/-- An item is put into a bin. -/
def put (p : Bins β ι) (b : β) (x : ι) : Bins β ι :=
  ⟨update p.items b (p.items b ++ [x]), update p.load b (p.load b + 1)⟩

variable {p : Bins β ι}

lemma put_items (p : Bins β ι) (b b' : β) (x : ι) :
    (p.put b x).items b' = if b' = b then p.items b ++ [x] else p.items b' :=
  update_apply ..

lemma put_load (p : Bins β ι) (b b' : β) (x : ι) :
    (p.put b x).load b' = if b' = b then p.load b + 1 else p.load b' :=
  update_apply ..

/-- Items stay where they are. -/
lemma mem_put {b b' : β} {x y : ι} :
    y ∈ (p.put b x).items b' ↔ y ∈ p.items b' ∨ (b' = b ∧ y = x) := by
  rw [put_items]
  by_cases h : b' = b
  · simp [h]
  · simp [h]

lemma load_le_put (p : Bins β ι) (b b' : β) (x : ι) : p.load b' ≤ (p.put b x).load b' := by
  rw [put_load]
  split_ifs with h
  · rw [h]
    exact Nat.le_succ _
  · exact le_rfl

/-- A bin below a bound stays within it. -/
lemma put_load_le {b : β} {x : ι} {c : ℕ} (h : ∀ b', p.load b' ≤ c)
    (hb : p.load b < c) (b' : β) : (p.put b x).load b' ≤ c := by
  rw [put_load]
  split_ifs
  · exact hb
  · exact h b'

/-- The loads are those of the start and of the items put in. -/
def Counts (p : Bins β ι) (start : β → ℕ) : Prop := ∀ b, p.load b = start b + (p.items b).length

omit [DecidableEq β] in
lemma Counts.ofLoads (start : β → ℕ) : (ofLoads start : Bins β ι).Counts start := fun b => by
  simp [Bins.ofLoads]

lemma Counts.put {start : β → ℕ} (h : p.Counts start) (b : β) (x : ι) :
    (p.put b x).Counts start := by
  intro b'
  rw [put_load, put_items]
  split_ifs with hb
  · rw [h b, hb, List.length_append]
    rfl
  · exact h b'

variable [Fintype β]

/-- The free places below a cap. -/
def room (cap : ℕ) (load : β → ℕ) : ℕ := ∑ b, (cap - load b)

variable {cap : ℕ}

omit [DecidableEq β] in
lemma room_pos_iff {load : β → ℕ} : 0 < room cap load ↔ ∃ b, load b < cap := by
  rw [room, sum_pos_iff]
  simp

omit [DecidableEq β] in
/-- Bins within the cap are filled up by the room that is left. -/
lemma room_add_sum {load : β → ℕ} (h : ∀ b, load b ≤ cap) :
    room cap load + ∑ b, load b = Fintype.card β * cap := by
  rw [room, ← sum_add_distrib]
  calc ∑ b, (cap - load b + load b) = ∑ _b : β, cap :=
        sum_congr rfl fun b _ => Nat.sub_add_cancel (h b)
    _ = Fintype.card β * cap := by simp

/-- What is left besides one bin. -/
lemma room_put_eq (cap : ℕ) (p : Bins β ι) (b : β) (x : ι) :
    room cap (p.put b x).load + (cap - p.load b)
      = room cap p.load + (cap - (p.load b + 1)) := by
  have h1 := add_sum_erase univ (fun b' => cap - p.load b') (mem_univ b)
  have h2 := add_sum_erase univ (fun b' => cap - (p.put b x).load b')
    (mem_univ b)
  have h3 : ∑ b' ∈ univ.erase b, (cap - (p.put b x).load b')
      = ∑ b' ∈ univ.erase b, (cap - p.load b') :=
    sum_congr rfl fun b' hb' => by
      rw [put_load, if_neg (ne_of_mem_erase hb')]
  have h4 : (p.put b x).load b = p.load b + 1 := by rw [put_load, if_pos rfl]
  rw [room, room]
  omega

lemma room_put {p : Bins β ι} {b : β} (x : ι) (h : p.load b < cap) :
    room cap (p.put b x).load + 1 = room cap p.load := by
  have := room_put_eq cap p b x
  omega

lemma room_le_put (cap : ℕ) (p : Bins β ι) (b : β) (x : ι) :
    room cap p.load ≤ room cap (p.put b x).load + 1 := by
  have := room_put_eq cap p b x
  omega

/-- The items of all bins. -/
def total (items : β → List ι) : Multiset ι := ∑ b, (items b : Multiset ι)

omit [DecidableEq β] in
lemma mem_total {items : β → List ι} {x : ι} : x ∈ total items ↔ ∃ b, x ∈ items b := by
  simp [total, mem_sum]

omit [DecidableEq β] in
@[simp] lemma total_nil : total (fun _ : β => ([] : List ι)) = 0 := by simp [total]

lemma total_put (p : Bins β ι) (b : β) (x : ι) : total (p.put b x).items = x ::ₘ total p.items := by
  have h1 := add_sum_erase univ (fun b' => (p.items b' : Multiset ι))
    (mem_univ b)
  have h2 := add_sum_erase univ (fun b' => ((p.put b x).items b' : Multiset ι))
    (mem_univ b)
  have h3 : ∑ b' ∈ univ.erase b, ((p.put b x).items b' : Multiset ι)
      = ∑ b' ∈ univ.erase b, (p.items b' : Multiset ι) :=
    sum_congr rfl fun b' hb' => by
      rw [put_items, if_neg (ne_of_mem_erase hb')]
  have h4 : ((p.put b x).items b : Multiset ι) = x ::ₘ (p.items b : Multiset ι) := by
    rw [put_items, if_pos rfl, ← Multiset.coe_add, Multiset.coe_singleton, add_comm,
      Multiset.singleton_add]
  rw [total, total, ← h1, ← h2, h3, h4, cons_add]

end Bins

end TrtLlm
