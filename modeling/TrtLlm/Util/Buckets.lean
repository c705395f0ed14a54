import Mathlib.Tactic

/-!
Queues by key: a sorted map from keys to lists, with no empty list.

The first element of the smallest key comes out first.  A queue is read through its buckets
(`bucket`), or as the one list in which its elements come out (`flat`):

* `bucket_push`, `bucket_remove`: what an operation does to the bucket of a key;
* `flat_of_pop`: popping takes the head of `flat`;
* `push_of_pop`: an element that was popped and pushed back to the front is where it was;
* `flat_pairwise`: `flat` is ordered by the key, and within a key as its bucket is.
-/

namespace TrtLlm

open List Option

/-- A list of elements for each key, smallest key first. -/
abbrev Buckets (κ α : Type*) := List (κ × List α)

namespace Buckets

variable {κ α : Type*} [LinearOrder κ]

/-- The elements of a key, in order. -/
def bucket : Buckets κ α → κ → List α
  | [], _ => []
  | (q, l) :: b, p => if q = p then l else bucket b p

/-- An element joins a list, at its front or at its end. -/
def join (front : Bool) (x : α) (l : List α) : List α := if front then x :: l else l ++ [x]

/-- An element joins the bucket of a key, which is made when there is none. -/
def push (p : κ) (x : α) (front : Bool) : Buckets κ α → Buckets κ α
  | [] => [(p, [x])]
  | (q, l) :: b =>
    if p < q then (p, [x]) :: (q, l) :: b
    else if p = q then (q, join front x l) :: b
    else (q, l) :: push p x front b

/-- The first element of the smallest key, and what is left. -/
def pop : Buckets κ α → Option (α × Buckets κ α)
  | (q, x :: l) :: b => some (x, if l = [] then b else (q, l) :: b)
  | _ => none

/-- An element leaves the bucket of a key, which goes when it is empty. -/
def remove [DecidableEq α] (p : κ) (x : α) : Buckets κ α → Buckets κ α
  | [] => []
  | (q, l) :: b =>
    if q = p then (if l.erase x = [] then b else (q, l.erase x) :: b) else (q, l) :: remove p x b

/-- All elements, in the order in which they come out. -/
def flat (b : Buckets κ α) : List α := b.flatMap Prod.snd

/-- The keys are sorted and no bucket is empty. -/
structure WF (b : Buckets κ α) : Prop where
  sorted : b.Pairwise fun e f => e.1 < f.1
  nonempty : ∀ e ∈ b, e.2 ≠ []

variable {b b' : Buckets κ α} {p q : κ} {x y : α} {l : List α}

lemma WF.tail {e : κ × List α} (h : WF (e :: b)) : WF b :=
  ⟨(pairwise_cons.mp h.sorted).2, fun f hf => h.nonempty f (mem_cons_of_mem e hf)⟩

lemma wf_cons_iff {e : κ × List α} : WF (e :: b) ↔ (∀ f ∈ b, e.1 < f.1) ∧ e.2 ≠ [] ∧ WF b := by
  refine ⟨fun h => ⟨(pairwise_cons.mp h.sorted).1, h.nonempty e mem_cons_self, h.tail⟩, ?_⟩
  rintro ⟨hlt, hne, hb⟩
  exact ⟨pairwise_cons.mpr ⟨hlt, hb.sorted⟩, forall_mem_cons.mpr ⟨hne, hb.nonempty⟩⟩

/-- A key below all keys has no bucket. -/
lemma bucket_eq_nil (h : ∀ f ∈ b, p < f.1) : bucket b p = [] := by
  induction b with
  | nil => rfl
  | cons e b ih =>
    obtain ⟨he, hb⟩ := forall_mem_cons.mp h
    rw [bucket, if_neg he.ne', ih hb]

lemma join_ne_nil (front : Bool) : join front x l ≠ [] := by
  cases front <;> simp [join]

/-! ### Pushing -/

lemma keys_push {front : Bool} {r : κ} (hp : r < p) (h : ∀ f ∈ b, r < f.1) :
    ∀ f ∈ push p x front b, r < f.1 := by
  induction b with
  | nil => simpa [push] using hp
  | cons e b ih =>
    obtain ⟨he, hb⟩ := forall_mem_cons.mp h
    rw [push]
    split_ifs
    · exact forall_mem_cons.mpr ⟨hp, h⟩
    · exact forall_mem_cons.mpr ⟨he, hb⟩
    · exact forall_mem_cons.mpr ⟨he, ih hb⟩

lemma WF.push (h : WF b) (p : κ) (x : α) (front : Bool) : WF (push p x front b) := by
  induction b with
  | nil => exact wf_cons_iff.mpr ⟨by simp, by simp, h⟩
  | cons e b ih =>
    obtain ⟨hlt, hne, hb⟩ := wf_cons_iff.mp h
    rw [Buckets.push]
    split_ifs with h1 h2
    · refine wf_cons_iff.mpr ⟨forall_mem_cons.mpr ⟨h1, fun f hf => ?_⟩, by simp, h⟩
      exact h1.trans (hlt f hf)
    · exact wf_cons_iff.mpr ⟨hlt, join_ne_nil front, hb⟩
    · have hgt : e.1 < p := lt_of_le_of_ne (not_lt.mp h1) (Ne.symm h2)
      exact wf_cons_iff.mpr ⟨keys_push hgt hlt, hne, ih hb⟩

lemma bucket_push (h : WF b) (p : κ) (x : α) (front : Bool) (q : κ) :
    bucket (push p x front b) q = if q = p then join front x (bucket b p) else bucket b q := by
  induction b with
  | nil =>
    rw [push, bucket, bucket, bucket]
    cases front <;> simp [join, eq_comm, bucket]
  | cons e b ih =>
    obtain ⟨hlt, hne, hb⟩ := wf_cons_iff.mp h
    rw [push]
    split_ifs with h1 h2 h3 h4 h5
    · subst h2
      have hnil : bucket (e :: b) q = [] :=
        bucket_eq_nil (forall_mem_cons.mpr ⟨h1, fun f hf => h1.trans (hlt f hf)⟩)
      rw [hnil, bucket, if_pos rfl]
      cases front <;> rfl
    · rw [bucket, if_neg (Ne.symm h2)]
    · subst h3 h4
      rw [bucket, if_pos rfl, bucket, if_pos rfl]
    · subst h3
      rw [bucket, if_neg (Ne.symm h4), bucket, if_neg (Ne.symm h4)]
    · subst h5
      rw [bucket, if_neg (Ne.symm h3), ih hb, if_pos rfl, bucket, if_neg (Ne.symm h3)]
    · rw [bucket, bucket, ih hb, if_neg h5]

/-! ### Popping -/

lemma mem_flat (h : WF b) : x ∈ flat b ↔ ∃ p, x ∈ bucket b p := by
  induction b with
  | nil => simp [flat, bucket]
  | cons e b ih =>
    obtain ⟨hlt, -, hb⟩ := wf_cons_iff.mp h
    rw [flat, flatMap_cons, mem_append, ← flat, ih hb]
    constructor
    · rintro (hx | ⟨p, hx⟩)
      · exact ⟨e.1, by rwa [bucket, if_pos rfl]⟩
      · refine ⟨p, ?_⟩
        have hne : e.1 ≠ p := by
          rintro rfl
          rw [bucket_eq_nil hlt] at hx
          cases hx
        rwa [bucket, if_neg hne]
    · rintro ⟨p, hx⟩
      rw [bucket] at hx
      split_ifs at hx
      · exact .inl hx
      · exact .inr ⟨p, hx⟩

omit [LinearOrder κ] in
/-- **Popping** takes the head of the list in which the elements come out. -/
lemma flat_of_pop (h : pop b = some (x, b')) : flat b = x :: flat b' := by
  rcases b with - | ⟨⟨q, - | ⟨y, l⟩⟩, b⟩
  · cases h
  · cases h
  · rw [pop, some.injEq, Prod.mk.injEq] at h
    obtain ⟨rfl, rfl⟩ := h
    split_ifs with hl
    · rw [flat, flatMap_cons, hl]
      rfl
    · rw [flat, flat, flatMap_cons, flatMap_cons]
      rfl

lemma pop_isSome (h : WF b) (hne : flat b ≠ []) : ∃ x b', pop b = some (x, b') := by
  rcases b with - | ⟨⟨q, - | ⟨y, l⟩⟩, b⟩
  · exact absurd rfl hne
  · exact absurd rfl (h.nonempty _ mem_cons_self)
  · exact ⟨_, _, rfl⟩

/-- The popped element is the first of a bucket, and the others are as they were. -/
lemma bucket_of_pop (h : WF b) (hpop : pop b = some (x, b')) :
    ∃ p, bucket b p = x :: bucket b' p ∧ ∀ q, q ≠ p → bucket b' q = bucket b q := by
  rcases b with - | ⟨⟨q, - | ⟨y, l⟩⟩, b⟩
  · cases hpop
  · cases hpop
  · rw [pop, some.injEq, Prod.mk.injEq] at hpop
    obtain ⟨rfl, rfl⟩ := hpop
    obtain ⟨hlt, -, hb⟩ := wf_cons_iff.mp h
    refine ⟨q, ?_, fun r hr => ?_⟩
    · rw [bucket, if_pos rfl]
      split_ifs with hl
      · rw [hl, bucket_eq_nil hlt]
      · rw [bucket, if_pos rfl]
    · rw [bucket, if_neg hr.symm]
      split_ifs with hl
      · rfl
      · rw [bucket, if_neg hr.symm]

/-- **An element that was popped and pushed back to the front** is where it was. -/
lemma push_of_pop (h : WF b) (hpop : pop b = some (x, b')) (hp : x ∈ bucket b p)
    (honce : ∀ q, x ∈ bucket b q → q = p) : push p x true b' = b := by
  rcases b with - | ⟨⟨q, - | ⟨y, l⟩⟩, b⟩
  · cases hpop
  · cases hpop
  · rw [pop, some.injEq, Prod.mk.injEq] at hpop
    obtain ⟨rfl, rfl⟩ := hpop
    obtain ⟨hlt, -, hb⟩ := wf_cons_iff.mp h
    obtain rfl := honce q (by rw [bucket, if_pos rfl]; exact mem_cons_self)
    split_ifs with hl
    · subst hl
      cases b with
      | nil => rfl
      | cons f b => rw [push, if_pos (hlt f mem_cons_self)]
    · rw [push, if_neg (lt_irrefl q), if_pos rfl]
      rfl

/-! ### Removing -/

section
variable [DecidableEq α]

lemma keys_remove {r : κ} (h : ∀ f ∈ b, r < f.1) : ∀ f ∈ remove p x b, r < f.1 := by
  induction b with
  | nil => simp [remove]
  | cons e b ih =>
    obtain ⟨he, hb⟩ := forall_mem_cons.mp h
    rw [remove]
    split_ifs
    · exact hb
    · exact forall_mem_cons.mpr ⟨he, hb⟩
    · exact forall_mem_cons.mpr ⟨he, ih hb⟩

lemma WF.remove (h : WF b) (p : κ) (x : α) : WF (remove p x b) := by
  induction b with
  | nil => exact h
  | cons e b ih =>
    obtain ⟨hlt, hne, hb⟩ := wf_cons_iff.mp h
    rw [Buckets.remove]
    split_ifs with h1 h2
    · exact hb
    · exact wf_cons_iff.mpr ⟨hlt, h2, hb⟩
    · exact wf_cons_iff.mpr ⟨keys_remove hlt, hne, ih hb⟩

lemma bucket_remove (h : WF b) (p : κ) (x : α) (q : κ) :
    bucket (remove p x b) q = if q = p then (bucket b p).erase x else bucket b q := by
  induction b with
  | nil => simp [remove, bucket]
  | cons e b ih =>
    obtain ⟨hlt, hne, hb⟩ := wf_cons_iff.mp h
    rw [remove]
    split_ifs with h1 h2 h3 h4 h5
    · subst h1 h3
      rw [bucket, if_pos rfl, h2, bucket_eq_nil hlt]
    · rw [bucket, if_neg (fun h => h3 (h.symm.trans h1))]
    · subst h1 h4
      rw [bucket, if_pos rfl, bucket, if_pos rfl]
    · rw [bucket, if_neg (fun h => h4 (h.symm.trans h1)), bucket,
        if_neg (fun h => h4 (h.symm.trans h1))]
    · subst h5
      rw [bucket, if_neg h1, ih hb, if_pos rfl, bucket, if_neg h1]
    · rw [bucket, bucket, ih hb, if_neg h5]

/-- The others come out in the same order. -/
lemma flat_remove_sublist (p : κ) (x : α) (b : Buckets κ α) :
    (flat (remove p x b)).Sublist (flat b) := by
  induction b with
  | nil => exact .slnil
  | cons e b ih =>
    rw [remove]
    split_ifs
    · exact sublist_append_right _ _
    · exact erase_sublist.append_right _
    · exact ih.append_left _

/-- Popping removes the head of its bucket. -/
lemma remove_of_pop (hpop : pop b = some (x, b')) (honce : ∀ q, x ∈ bucket b q → q = p) :
    remove p x b = b' := by
  rcases b with - | ⟨⟨q, - | ⟨y, l⟩⟩, b⟩
  · cases hpop
  · cases hpop
  · rw [pop, some.injEq, Prod.mk.injEq] at hpop
    obtain ⟨rfl, rfl⟩ := hpop
    obtain rfl := honce q (by rw [bucket, if_pos rfl]; exact mem_cons_self)
    rw [remove, if_pos rfl, erase_cons_head]

end

/-! ### The order in which the elements come out -/

/-- **Elements come out by their key, and within a key as their bucket is ordered.** -/
lemma flat_pairwise {key : α → κ} {R : α → α → Prop} (h : WF b)
    (hkey : ∀ p, ∀ x ∈ bucket b p, key x = p) (hR : ∀ p, (bucket b p).Pairwise R) :
    (flat b).Pairwise fun x y => key x < key y ∨ (key x = key y ∧ R x y) := by
  induction b with
  | nil => exact .nil
  | cons e b ih =>
    obtain ⟨hlt, -, hb⟩ := wf_cons_iff.mp h
    have hbucket : ∀ p, e.1 ≠ p → bucket (e :: b) p = bucket b p := fun p hp => by
      rw [bucket, if_neg hp]
    have hfirst : bucket (e :: b) e.1 = e.2 := by rw [bucket, if_pos rfl]
    have hne : ∀ p, ∀ x ∈ bucket b p, e.1 < p := by
      intro p x hx
      by_contra hle
      have : ∀ f ∈ b, p < f.1 := fun f hf => (not_lt.mp hle).trans_lt (hlt f hf)
      rw [bucket_eq_nil this] at hx
      cases hx
    have hkeyb : ∀ p, ∀ x ∈ bucket b p, key x = p := fun p x hx =>
      hkey p x (by rwa [hbucket p (hne p x hx).ne])
    have hRb : ∀ p, (bucket b p).Pairwise R := by
      intro p
      by_cases hp : e.1 = p
      · subst hp
        rw [bucket_eq_nil hlt]
        exact .nil
      · rw [← hbucket p hp]
        exact hR p
    rw [flat, flatMap_cons, pairwise_append]
    refine ⟨?_, ih hb hkeyb hRb, ?_⟩
    · have hRe := hR e.1
      rw [hfirst] at hRe
      refine hRe.imp_of_mem fun {x y} hx hy hxy => .inr ⟨?_, hxy⟩
      rw [hkey e.1 x (hfirst ▸ hx), hkey e.1 y (hfirst ▸ hy)]
    · intro x hx y hy
      obtain ⟨p, hy⟩ := (mem_flat hb).mp hy
      refine .inl ?_
      rw [hkey e.1 x (hfirst ▸ hx), hkeyb p y hy]
      exact hne p y hy

end Buckets

end TrtLlm
