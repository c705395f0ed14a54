import Mathlib.Tactic

/-!
Queues whose entries are numbered, and served by class and within a class by number.

An entry that is added gets the next number up from zero, one that is put in front the next number
down from minus one, so that of two entries of a class the one that was put in front last is served
first.

* `PopOrder`: what is popped until nothing is left, and `PutBackNeutral`: what it means that putting
  back some of what was popped changes nothing else;
* `serve`: the entries in the order in which they are served, and `eq_serve`: it is the only such
  order;
* `serve_filter`: entries that leave do not change the order of the others;
* `Numbered.Fresh`: the numbers to come are beyond those that are there, which every operation
  keeps;
* `Numbered.putBackNeutral`: **entries that were taken from the front and are put back in the order
  in which they were served are served as before**.
-/

namespace TrtLlm

open List

/-! ### Popping -/

section Pop

variable {σ α : Type*} (pop : σ → Option (α × σ))

/-- Up to a number of pops, one after the other. -/
def popMany : ℕ → σ → List α × σ
  | 0, q => ([], q)
  | k + 1, q =>
    match pop q with
    | none => ([], q)
    | some (x, q') => (x :: (popMany k q').1, (popMany k q').2)

/-- What is popped until nothing is left. -/
inductive PopOrder : σ → List α → Prop
  | nil {q : σ} (h : pop q = none) : PopOrder q []
  | cons {q q' : σ} {x : α} {xs : List α} (h : pop q = some (x, q')) (hs : PopOrder q' xs) :
      PopOrder q (x :: xs)

/-- **Putting back is neutral**: when some are popped and a subsequence of them is put back, the
order is the one before without those that were not put back. -/
def PutBackNeutral (putBack : List α → σ → σ) (q : σ) : Prop :=
  ∀ k back, back.Sublist (popMany pop k q).1 → ∃ rest, PopOrder pop q ((popMany pop k q).1 ++ rest)
    ∧ PopOrder pop (putBack back (popMany pop k q).2) (back ++ rest)

variable {pop} {q : σ} {xs : List α}

lemma PopOrder.popMany (h : PopOrder pop q xs) (k : ℕ) :
    (popMany pop k q).1 = xs.take k ∧ PopOrder pop (popMany pop k q).2 (xs.drop k) := by
  induction k generalizing q xs with
  | zero => exact ⟨rfl, h⟩
  | succ k ih =>
    cases h with
    | nil h =>
      rw [TrtLlm.popMany, h]
      exact ⟨rfl, .nil h⟩
    | cons h hs =>
      obtain ⟨htake, hdrop⟩ := ih hs
      rw [TrtLlm.popMany, h]
      refine ⟨?_, hdrop⟩
      rw [take_succ_cons, ← htake]

lemma PopOrder.unique {ys : List α} (h : PopOrder pop q xs) (h' : PopOrder pop q ys) : xs = ys := by
  induction h generalizing ys with
  | nil h =>
    cases h' with
    | nil => rfl
    | cons h' => cases h.symm.trans h'
  | cons h _ ih =>
    cases h' with
    | nil h' => cases h.symm.trans h'
    | cons h' hs' =>
      obtain ⟨rfl, rfl⟩ := Prod.mk.inj (Option.some.inj (h.symm.trans h'))
      rw [ih hs']

/-- The order of a queue, from what one pop does to it. -/
lemma PopOrder.of_order {I : σ → Prop} (order : σ → List α)
    (hnone : ∀ q, I q → pop q = none → order q = [])
    (hsome : ∀ q x q', I q → pop q = some (x, q') → I q' ∧ order q = x :: order q') (hq : I q) :
    PopOrder pop q (order q) := by
  induction hlen : (order q).length generalizing q with
  | zero =>
    cases hpop : pop q with
    | none =>
      rw [hnone q hq hpop]
      exact .nil hpop
    | some r =>
      obtain ⟨x, q'⟩ := r
      rw [(hsome q x q' hq hpop).2, length_cons] at hlen
      omega
  | succ len ih =>
    cases hpop : pop q with
    | none =>
      rw [hnone q hq hpop] at hlen
      cases hlen
    | some r =>
      obtain ⟨x, q'⟩ := r
      obtain ⟨hq', horder⟩ := hsome q x q' hq hpop
      rw [horder]
      rw [horder, length_cons] at hlen
      exact .cons hpop (ih hq' (by omega))

/-- What one pop keeps, any number of them keeps. -/
lemma popMany_invariant {I : σ → Prop} (hsome : ∀ q x q', I q → pop q = some (x, q') → I q')
    (hq : I q)
    (k : ℕ) : I (TrtLlm.popMany pop k q).2 := by
  induction k generalizing q with
  | zero => exact hq
  | succ k ih =>
    rw [TrtLlm.popMany]
    cases hpop : pop q with
    | none => exact hq
    | some r => exact ih (hsome q r.1 r.2 hq hpop)

/-- One queue pops what another one does, as long as they are related. -/
structure PopSim {τ β : Type*} (pop : σ → Option (α × σ)) (pop' : τ → Option (β × τ))
    (R : σ → τ → Prop)
    (P : α → Prop) (f : α → β) : Prop where
  none : ∀ q r, R q r → pop q = none → pop' r = none
  some : ∀ q r x q', R q r → pop q = some (x, q') → P x ∧ ∃ r', pop' r = some (f x, r') ∧ R q' r'

namespace PopSim

variable {τ β : Type*} {pop' : τ → Option (β × τ)} {R : σ → τ → Prop} {P : α → Prop} {f : α → β}
    {r : τ}

variable (h : PopSim pop pop' R P f)
include h

lemma popOrder (hR : R q r) (horder : PopOrder pop q xs) : PopOrder pop' r (xs.map f) := by
  induction horder generalizing r with
  | nil hpop => exact .nil (h.none _ _ hR hpop)
  | cons hpop _ ih =>
    obtain ⟨-, r', hpop', hR'⟩ := h.some _ _ _ _ hR hpop
    exact .cons hpop' (ih hR')

lemma popMany (hR : R q r) (k : ℕ) : (TrtLlm.popMany pop' k r).1 = (TrtLlm.popMany pop k q).1.map f
      ∧ (∀ x ∈ (TrtLlm.popMany pop k q).1, P x)
        ∧ R (TrtLlm.popMany pop k q).2 (TrtLlm.popMany pop' k r).2 := by
  induction k generalizing q r with
  | zero => exact ⟨rfl, fun _ hx => (not_mem_nil hx).elim, hR⟩
  | succ k ih =>
    rw [TrtLlm.popMany, TrtLlm.popMany]
    cases hpop : pop q with
    | none =>
      rw [h.none q r hR hpop]
      exact ⟨rfl, fun _ hx => (not_mem_nil hx).elim, hR⟩
    | some p =>
      obtain ⟨hx, r', hpop', hR'⟩ := h.some q r p.1 p.2 hR hpop
      obtain ⟨hmany, hall, hrel⟩ := ih hR'
      rw [hpop']
      exact ⟨congrArg (f p.1 :: ·) hmany, forall_mem_cons.mpr ⟨hx, hall⟩, hrel⟩

/-- Putting back is neutral in both queues if it is in one. -/
lemma putBackNeutral {putBack : List α → σ → σ} {putBack' : List β → τ → τ}
    (hback : ∀ q r back, R q r → (∀ x ∈ back, P x) → R (putBack back q) (putBack' (back.map f) r))
    (hR : R q r)
    (hneutral : PutBackNeutral pop putBack q) : PutBackNeutral pop' putBack' r := by
  intro k back' hsub
  obtain ⟨hmany, hall, hrel⟩ := h.popMany hR k
  rw [hmany] at hsub ⊢
  obtain ⟨back, hsub', rfl⟩ := sublist_map_iff.mp hsub
  obtain ⟨rest, hall', hput⟩ := hneutral k back hsub'
  refine ⟨rest.map f, ?_, ?_⟩
  · rw [← map_append]
    exact h.popOrder hR hall'
  · rw [← map_append]
    exact h.popOrder (hback _ _ back hrel fun x hx => hall x (hsub'.subset hx)) hput

end PopSim

end Pop

/-! ### Serving -/

/-- A value with its number. -/
structure Entry (ι : Type*) where
  seq : ℤ
  value : ι
  deriving DecidableEq

section Serve

variable {ι κ : Type*} [LinearOrder κ] (cls : ι → κ)

/-- One entry is served before another. -/
def Before (a b : Entry ι) : Prop := cls a.value < cls b.value
    ∨ (cls a.value = cls b.value ∧ a.seq < b.seq)

/-- One entry is not served after another. -/
def NotAfter (a b : Entry ι) : Prop :=
  cls a.value < cls b.value ∨ (cls a.value = cls b.value ∧ a.seq ≤ b.seq)

instance : DecidableRel (NotAfter cls) := fun _ _ => inferInstanceAs (Decidable (_ ∨ _))

instance : Std.Total (NotAfter cls) where
  total a b := by
    rcases lt_trichotomy (cls a.value) (cls b.value) with hlt | heq | hgt
    · exact .inl (.inl hlt)
    · rcases le_total a.seq b.seq with hle | hle
      · exact .inl (.inr ⟨heq, hle⟩)
      · exact .inr (.inr ⟨heq.symm, hle⟩)
    · exact .inr (.inl hgt)

instance : IsTrans (Entry ι) (NotAfter cls) where
  trans a b c hab hbc := by
    rcases hab with hab | ⟨hab, hseq⟩ <;> rcases hbc with hbc | ⟨hbc, hseq'⟩
    · exact .inl (hab.trans hbc)
    · exact .inl (hbc ▸ hab)
    · exact .inl (hab ▸ hbc)
    · exact .inr ⟨hab.trans hbc, hseq.trans hseq'⟩

/-- The entries in the order in which they are served. -/
def serve (es : List (Entry ι)) : List (Entry ι) := es.insertionSort (NotAfter cls)

variable {cls} {a b : Entry ι} {es l : List (Entry ι)}

lemma Before.asymm (h : Before cls a b) : ¬ Before cls b a := by
  rcases h with h | ⟨h, hseq⟩
  · rintro (h' | ⟨h', -⟩)
    · exact lt_asymm h h'
    · exact h.ne h'.symm
  · rintro (h' | ⟨-, hseq'⟩)
    · exact h'.ne h.symm
    · omega

lemma Before.trans {c : Entry ι} (hab : Before cls a b)
    (hbc : Before cls b c) : Before cls a c := by
  rcases hab with hab | ⟨hab, hseq⟩ <;> rcases hbc with hbc | ⟨hbc, hseq'⟩
  · exact .inl (hab.trans hbc)
  · exact .inl (hbc ▸ hab)
  · exact .inl (hab ▸ hbc)
  · exact .inr ⟨hab.trans hbc, hseq.trans hseq'⟩

lemma Before.of_not (h : ¬ Before cls a b) (hne : b.seq ≠ a.seq) : Before cls b a := by
  rcases lt_trichotomy (cls a.value) (cls b.value) with hlt | heq | hgt
  · exact absurd (.inl hlt) h
  · refine .inr ⟨heq.symm, lt_of_le_of_ne (not_lt.mp fun hlt => h (.inr ⟨heq, hlt⟩)) hne⟩
  · exact .inl hgt

/-- Two lists in serving order with the same entries are the same. -/
lemma eq_of_before (hperm : l.Perm es) (hl : l.Pairwise (Before cls))
    (hes : es.Pairwise (Before cls)) : l = es :=
  Perm.eq_of_pairwise (fun _ _ _ _ hab hba => absurd hba hab.asymm) hl hes hperm

lemma perm_serve (cls : ι → κ) (es : List (Entry ι)) : (serve cls es).Perm es :=
  perm_insertionSort _ _

section

variable (hseq : (es.map Entry.seq).Nodup)
include hseq

lemma pairwise_serve : (serve cls es).Pairwise (Before cls) := by
  have hsorted : (serve cls es).Pairwise (NotAfter cls) := pairwise_insertionSort _ _
  have hne : (serve cls es).Pairwise fun a b => a.seq ≠ b.seq := by
    have hnodup := ((perm_serve cls es).map Entry.seq).nodup_iff.mpr hseq
    exact pairwise_map.mp hnodup
  refine (hsorted.and hne).imp fun ⟨hle, hseq⟩ => ?_
  rcases hle with hlt | ⟨heq, hle⟩
  · exact .inl hlt
  · exact .inr ⟨heq, lt_of_le_of_ne hle hseq⟩

/-- **The serving order is the only one.** -/
lemma eq_serve (hl : l.Pairwise (Before cls)) (hperm : l.Perm es) : l = serve cls es :=
  eq_of_before (hperm.trans (perm_serve cls es).symm) hl (pairwise_serve hseq)

lemma serve_congr (hperm : l.Perm es) : serve cls l = serve cls es := by
  have hnodup : (l.map Entry.seq).Nodup := (hperm.map Entry.seq).nodup_iff.mpr hseq
  exact eq_serve hseq (pairwise_serve hnodup) ((perm_serve cls l).trans hperm)

end

lemma serve_eq_self (hl : l.Pairwise (Before cls))
    (hseq : (l.map Entry.seq).Nodup) : serve cls l = l :=
  (eq_serve hseq hl (Perm.refl l)).symm

/-- Entries that leave do not change the order of the others. -/
lemma serve_filter (hseq : (es.map Entry.seq).Nodup) (p : Entry ι → Bool) :
    serve cls (es.filter p) = (serve cls es).filter p := by
  have hnodup : ((es.filter p).map Entry.seq).Nodup := hseq.sublist (filter_sublist.map Entry.seq)
  exact (eq_serve hnodup ((pairwise_serve hseq).filter p) ((perm_serve cls es).filter p)).symm

end Serve

/-! ### The queue -/

/-- A queue of numbered entries, with the next number up and the next number down. -/
structure Numbered (ι : Type*) where
  entries : List (Entry ι)
  counter : ℤ
  frontCounter : ℤ

namespace Numbered

variable {ι κ : Type*} [LinearOrder κ]

/-- The empty queue. -/
def empty : Numbered ι := ⟨[], 0, -1⟩

/-- A value is added. -/
def add (x : ι) (q : Numbered ι) : Numbered ι :=
  { q with entries := q.entries ++ [⟨q.counter, x⟩], counter := q.counter + 1 }

/-- A value is put in front. -/
def addFront (x : ι) (q : Numbered ι) : Numbered ι :=
  { q with entries := q.entries ++ [⟨q.frontCounter, x⟩], frontCounter := q.frontCounter - 1 }

/-- The entries with a property stay. -/
def keep (p : Entry ι → Bool) (q : Numbered ι) : Numbered ι :=
  { q with entries := q.entries.filter p }

/-- The entries in the order in which they are served. -/
def order (cls : ι → κ) (q : Numbered ι) : List (Entry ι) := serve cls q.entries

/-- The entry that is served first leaves. -/
def pop? (cls : ι → κ) (q : Numbered ι) : Option (Entry ι × Numbered ι) :=
  match q.order cls with
  | [] => none
  | e :: _ => some (e, q.keep fun e' => e'.seq ≠ e.seq)

/-- The numbers to come are beyond those that are there. -/
structure Fresh (q : Numbered ι) : Prop where
  nodup : (q.entries.map Entry.seq).Nodup
  lt_counter : ∀ e ∈ q.entries, e.seq < q.counter
  frontCounter_lt : ∀ e ∈ q.entries, q.frontCounter < e.seq
  counter_nonneg : 0 ≤ q.counter
  frontCounter_neg : q.frontCounter < 0

variable {q : Numbered ι}

variable {cls : ι → κ}

lemma fresh_empty : (empty : Numbered ι).Fresh :=
  ⟨nodup_nil, fun _ h => (not_mem_nil h).elim, fun _ h => (not_mem_nil h).elim, le_refl _,
    neg_one_lt_zero⟩

section

variable (h : q.Fresh)
include h

lemma Fresh.add (x : ι) : (q.add x).Fresh where
  nodup := by
    rw [Numbered.add, map_append, nodup_append]
    refine ⟨h.nodup, nodup_singleton _, fun seq hseq seq' hseq' => ?_⟩
    obtain ⟨e, he, rfl⟩ := mem_map.mp hseq
    rw [mem_singleton.mp hseq']
    exact (h.lt_counter e he).ne
  lt_counter e he := by
    rcases mem_append.mp he with he | he
    · exact (h.lt_counter e he).trans (lt_add_one _)
    · rw [mem_singleton.mp he]
      exact lt_add_one _
  frontCounter_lt e he := by
    rcases mem_append.mp he with he | he
    · exact h.frontCounter_lt e he
    · rw [mem_singleton.mp he]
      exact h.frontCounter_neg.trans_le h.counter_nonneg
  counter_nonneg := h.counter_nonneg.trans (lt_add_one _).le
  frontCounter_neg := h.frontCounter_neg

lemma Fresh.addFront (x : ι) : (q.addFront x).Fresh where
  nodup := by
    rw [Numbered.addFront, map_append, nodup_append]
    refine ⟨h.nodup, nodup_singleton _, fun seq hseq seq' hseq' => ?_⟩
    obtain ⟨e, he, rfl⟩ := mem_map.mp hseq
    rw [mem_singleton.mp hseq']
    exact (h.frontCounter_lt e he).ne'
  lt_counter e he := by
    rcases mem_append.mp he with he | he
    · exact h.lt_counter e he
    · rw [mem_singleton.mp he]
      exact h.frontCounter_neg.trans_le h.counter_nonneg
  frontCounter_lt e he := by
    rcases mem_append.mp he with he | he
    · exact (sub_one_lt _).trans (h.frontCounter_lt e he)
    · rw [mem_singleton.mp he]
      exact sub_one_lt _
  counter_nonneg := h.counter_nonneg
  frontCounter_neg := (sub_one_lt _).trans h.frontCounter_neg

lemma Fresh.keep (p : Entry ι → Bool) : (q.keep p).Fresh where
  nodup := h.nodup.sublist (filter_sublist.map Entry.seq)
  lt_counter e he := h.lt_counter e (mem_of_mem_filter he)
  frontCounter_lt e he := h.frontCounter_lt e (mem_of_mem_filter he)
  counter_nonneg := h.counter_nonneg
  frontCounter_neg := h.frontCounter_neg

lemma Fresh.foldr_addFront (xs : List ι) : (xs.foldr Numbered.addFront q).Fresh := by
  induction xs with
  | nil => exact h
  | cons x xs ih => exact ih.addFront x

lemma order_keep (cls : ι → κ) (p : Entry ι → Bool) :
    (q.keep p).order cls = (q.order cls).filter p := serve_filter h.nodup p

/-- What is left when the first entry leaves is the rest of the order. -/
lemma order_of_pop? {e : Entry ι} {q' : Numbered ι}
    (hpop : q.pop? cls = some (e, q')) : q.order cls = e :: q'.order cls ∧ q'.Fresh
      ∧ q'.frontCounter = q.frontCounter := by
  rw [pop?] at hpop
  cases horder : q.order cls with
  | nil =>
    rw [horder] at hpop
    cases hpop
  | cons e' rest =>
    rw [horder] at hpop
    obtain ⟨rfl, rfl⟩ := Prod.mk.inj (Option.some.inj hpop)
    refine ⟨?_, h.keep _, rfl⟩
    have hseq : (e' :: rest).map Entry.seq |>.Nodup := by
      rw [← horder]
      exact ((perm_serve cls q.entries).map Entry.seq).nodup_iff.mpr h.nodup
    rw [order_keep h, horder, filter_cons_of_neg (by simp)]
    congr 1
    refine (filter_eq_self.mpr fun e he => ?_).symm
    rw [map_cons, nodup_cons] at hseq
    refine decide_eq_true fun heq => hseq.1 ?_
    rw [← heq]
    exact mem_map_of_mem he

end

lemma order_of_pop?_none (hpop : q.pop? cls = none) : q.order cls = [] := by
  rw [pop?] at hpop
  cases horder : q.order cls with
  | nil => rfl
  | cons e rest =>
    rw [horder] at hpop
    cases hpop

/-- What values that are put in front one after the other, the last one first, become. -/
lemma entries_foldr_addFront (xs : List ι) (q : Numbered ι) :
    ∃ back : List (Entry ι), back.map Entry.value = xs ∧ (back.Pairwise fun a b => a.seq < b.seq)
      ∧ (∀ e ∈ back, (xs.foldr addFront q).frontCounter < e.seq ∧ e.seq ≤ q.frontCounter)
      ∧ (xs.foldr addFront q).frontCounter ≤ q.frontCounter
      ∧ (xs.foldr addFront q).entries = q.entries ++ back.reverse := by
  induction xs with
  | nil => exact ⟨[], rfl, List.Pairwise.nil, fun _ h => (not_mem_nil h).elim, le_refl _, by simp⟩
  | cons x xs ih =>
    obtain ⟨back, hvalue, hpair, hseq, hle, hentries⟩ := ih
    set q' := xs.foldr addFront q
    refine ⟨⟨q'.frontCounter, x⟩ :: back, by rw [map_cons, hvalue], ?_, fun e he => ?_, ?_, ?_⟩
    · exact pairwise_cons.mpr ⟨fun e he => (hseq e he).1, hpair⟩
    · show q'.frontCounter - 1 < e.seq ∧ _
      rcases mem_cons.mp he with rfl | he
      · exact ⟨sub_one_lt _, hle⟩
      · exact ⟨(sub_one_lt _).trans (hseq e he).1, (hseq e he).2⟩
    · exact (sub_one_lt _).le.trans hle
    · show q'.entries ++ [⟨q'.frontCounter, x⟩] = _
      rw [hentries, reverse_cons, append_assoc]

/-- **Putting back is neutral**: after values that were served before all that is left, in the order
in which they were served, are put in front, they are served first, in that order. -/
theorem order_putBack (h : q.Fresh) {back : List ι} (hback : back.Pairwise fun x y => cls x ≤ cls y)
    (hrest : ∀ x ∈ back, ∀ e ∈ q.entries, cls x ≤ cls e.value) :
    ((back.foldr addFront q).order cls).map Entry.value
      = back ++ (q.order cls).map Entry.value := by
  obtain ⟨es, hvalue, hpair, hseq, -, hentries⟩ := entries_foldr_addFront back q
  have hfresh := h.foldr_addFront back
  have hperm : (es ++ q.order cls).Perm (back.foldr addFront q).entries := by
    rw [hentries]
    refine perm_append_comm.trans ?_
    exact (perm_serve cls q.entries).append (reverse_perm es).symm
  have hcls : es.Pairwise fun a b => cls a.value ≤ cls b.value := by
    rw [← hvalue, pairwise_map] at hback
    exact hback
  have hsorted : (es ++ q.order cls).Pairwise (Before cls) := by
    rw [pairwise_append]
    refine ⟨(hcls.and hpair).imp fun {a b} hab => ?_, pairwise_serve h.nodup, fun a ha b hb => ?_⟩
    · rcases hab.1.lt_or_eq with hlt | heq
      · exact .inl hlt
      · exact .inr ⟨heq, hab.2⟩
    · have hb' := (perm_serve cls q.entries).mem_iff.mp hb
      have hmem : a.value ∈ back := hvalue ▸ mem_map_of_mem ha
      rcases (hrest a.value hmem b hb').lt_or_eq with hlt | heq
      · exact .inl hlt
      · exact .inr ⟨heq, (hseq a ha).2.trans_lt (h.frontCounter_lt b hb')⟩
  have horder : (back.foldr addFront q).order cls = es ++ q.order cls :=
    (eq_serve hfresh.nodup hsorted hperm).symm
  rw [horder, map_append, hvalue]

/-- The value that is served first, and the rest. -/
def popValue (cls : ι → κ) (q : Numbered ι) : Option (ι × Numbered ι) :=
  (q.pop? cls).map fun r => (r.1.value, r.2)

lemma popValue_spec (h : q.Fresh) {x : ι} {q' : Numbered ι} (hpop : q.popValue cls = some (x, q')) :
    q'.Fresh ∧ (q.order cls).map Entry.value = x :: (q'.order cls).map Entry.value := by
  obtain ⟨⟨e, q₁⟩, hpop', heq⟩ := Option.map_eq_some_iff.mp hpop
  obtain ⟨rfl, rfl⟩ := Prod.mk.inj heq
  obtain ⟨horder, hfresh, -⟩ := order_of_pop? h hpop'
  rw [horder]
  exact ⟨hfresh, rfl⟩

lemma popOrder (cls : ι → κ) (h : q.Fresh) :
    PopOrder (popValue cls) q ((q.order cls).map Entry.value) := by
  refine PopOrder.of_order (I := Fresh) (fun q => (q.order cls).map Entry.value)
    (fun q _ hpop => ?_) (fun q x q' hq hpop => popValue_spec hq hpop) h
  rw [order_of_pop?_none (Option.map_eq_none_iff.mp hpop)]
  rfl

/-- **Putting back is neutral** in a queue of numbered entries. -/
theorem putBackNeutral (cls : ι → κ) (h : q.Fresh) :
    PutBackNeutral (popValue cls) (fun back q => back.foldr addFront q) q := by
  intro k back hback
  set xs := (q.order cls).map Entry.value with hxs
  obtain ⟨htake, hdrop⟩ := (popOrder cls h).popMany k
  rw [← hxs] at htake hdrop
  rw [htake] at hback ⊢
  set q' := (popMany (popValue cls) k q).2
  have hfresh : q'.Fresh := popMany_invariant (fun q x q' hq hpop => (popValue_spec hq hpop).1) h k
  have hrest : (q'.order cls).map Entry.value = xs.drop k := (popOrder cls hfresh).unique hdrop
  have hsorted : (xs.take k ++ xs.drop k).Pairwise fun x y => cls x ≤ cls y := by
    rw [take_append_drop, hxs, pairwise_map]
    refine (pairwise_serve h.nodup).imp fun {a b} hab => ?_
    rcases hab with hlt | ⟨heq, -⟩
    · exact hlt.le
    · exact heq.le
  obtain ⟨hfirst, -, hcross⟩ := pairwise_append.mp hsorted
  refine ⟨xs.drop k, by rw [take_append_drop]; exact popOrder cls h, ?_⟩
  rw [← hrest, ← order_putBack hfresh (hfirst.sublist hback) fun x hx e he => ?_]
  · exact popOrder cls (hfresh.foldr_addFront back)
  · refine hcross x (hback.subset hx) e.value ?_
    rw [← hrest]
    exact mem_map_of_mem ((perm_serve cls q'.entries).mem_iff.mpr he)

end Numbered

end TrtLlm
