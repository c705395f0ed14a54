import TrtLlm.Scheduler.GenAdmission

/-!
The admission queue of a generation server against the queue that sorts its entries at every call.

* `Refines`: the entries that were not popped are those of the other queue, and the order that is
  kept is what sorting them gives;
* `Refines.step`: a call answers the same on both sides and keeps that;
* `waitingQueues_spec`: **the answers of every run are those of sorting at every call, and putting
  back is neutral in all three queues**.
-/

namespace TrtLlm.Scheduler

open List Option

namespace GenAdmissionWaitingQueue

variable {q : GenAdmissionWaitingQueue} {s : AdmissionSpec}

/-- The entries that were not popped. -/
def live (q : GenAdmissionWaitingQueue) : List (Entry Stamped) :=
  q.entries.filter fun e => e.seq ∉ q.popped

/-- The queue has the entries of the other one, and the order it keeps is the one of sorting
them. -/
structure Refines (q : GenAdmissionWaitingQueue) (s : AdmissionSpec) : Prop where
  adaptive : q.adaptive = s.adaptive
  now : q.now = s.now
  lastKey : q.lastKey = s.lastKey
  counter : q.counter = s.queue.counter
  prependCounter : q.prependCounter = s.queue.frontCounter
  sorted : q.entries.Pairwise (Before Stamped.orig)
  nodup : (q.entries.map Entry.seq).Nodup
  popped : ∀ seq ∈ q.popped, ∃ e ∈ q.entries, e.seq = seq
  perm : q.live.Perm s.queue.entries
  fresh : s.queue.Fresh
  stamped : ∀ e ∈ s.queue.entries, ∀ lastKey, stamp lastKey e.value.item = e.value
  order : ∀ o, q.order = some o → o.reverse = s.order.map fun e => (e, s.tier e.value)

/-! ### The order that is built -/

lemma foldl_place (x guard s2f now : ℚ) (es : List (Entry Stamped)) (t : Stamped → Tier)
    (ht : ∀ v, t v = if guard ≤ now - v.genArrival then .guard else if !v.keyed then .unkeyed
      else if now - v.orig ≤ x - s2f then .slack else .late)
    (guards slack late : List (Entry Stamped × Tier)) :
    es.foldl (place x guard s2f now) (guards, slack, late)
      = (guards ++ (es.filter fun e => (t e.value).rank = 0).map fun e => (e, t e.value),
        slack ++ (es.filter fun e => (t e.value).rank = 1).map fun e => (e, t e.value),
        late ++ (es.filter fun e => (t e.value).rank = 2).map fun e => (e, t e.value)) := by
  induction es generalizing guards slack late with
  | nil => simp
  | cons e es ih =>
    rw [foldl_cons, place]
    have hte := ht e.value
    split_ifs at hte ⊢ with h₁ h₂ h₃
    · rw [ih]
      simp [hte, Tier.rank]
    · rw [ih]
      simp [hte, Tier.rank]
    · rw [ih]
      simp [hte, Tier.rank]
    · rw [ih]
      simp [hte, Tier.rank]

end GenAdmissionWaitingQueue

lemma Tier.rank_lt (t : Tier) : t.rank = 0 ∨ t.rank = 1 ∨ t.rank = 2 := by
  cases t <;> simp [Tier.rank]

/-- A list split by three ranks. -/
lemma perm_filter_ranks {α : Type*} (rank : α → ℕ)
    (hrank : ∀ a, rank a = 0 ∨ rank a = 1 ∨ rank a = 2)
    (l : List α) : ((l.filter fun a => rank a = 0) ++ (l.filter fun a => rank a = 1)
      ++ l.filter fun a => rank a = 2).Perm l := by
  induction l with
  | nil => rfl
  | cons a l ih =>
    rcases hrank a with h | h | h
    · rw [filter_cons_of_pos (by simp [h]), filter_cons_of_neg (by simp [h]),
        filter_cons_of_neg (by simp [h])]
      exact ih.cons a
    · rw [filter_cons_of_neg (by simp [h]), filter_cons_of_pos (by simp [h]),
        filter_cons_of_neg (by simp [h])]
      exact (perm_middle.append_right _).trans (ih.cons a)
    · rw [filter_cons_of_neg (by simp [h]), filter_cons_of_neg (by simp [h]),
        filter_cons_of_pos (by simp [h])]
      exact perm_middle.trans (ih.cons a)

namespace GenAdmissionWaitingQueue

variable {q : GenAdmissionWaitingQueue} {s : AdmissionSpec}

/-- The three tiers one after the other, each by original arrival. -/
lemma pairwise_ranks (s : AdmissionSpec) {es : List (Entry Stamped)} {x guard s2f now : ℚ}
    (hsorted : es.Pairwise (Before Stamped.orig))
    (ht : ∀ v, s.tier v = if guard ≤ now - v.genArrival then .guard else if !v.keyed then .unkeyed
      else if now - v.orig ≤ x - s2f then .slack else .late) :
    ((es.filter fun e => (s.tier e.value).rank = 0)
      ++ (es.filter fun e => (s.tier e.value).rank = 1)
      ++ es.filter fun e => (s.tier e.value).rank = 2).Pairwise (Before s.cls) := by
  have hcls : ∀ v, s.cls v = toLex ((s.tier v).rank, v.orig) := by
    intro v
    have hne : s.tier v ≠ .warmup := by
      rw [ht v]
      split_ifs <;> nofun
    rw [AdmissionSpec.cls, if_neg hne]
  have hsame : ∀ n, (es.filter fun e => (s.tier e.value).rank = n).Pairwise (Before s.cls) := by
    intro n
    refine (hsorted.filter _).imp_of_mem fun {a b} ha hb hab => ?_
    have ha' : (s.tier a.value).rank = n := of_decide_eq_true (mem_filter.mp ha).2
    have hb' : (s.tier b.value).rank = n := of_decide_eq_true (mem_filter.mp hb).2
    rw [Before, hcls, hcls, ha', hb']
    rcases hab with hlt | ⟨heq, hseq⟩
    · exact .inl (Prod.Lex.toLex_lt_toLex.mpr (.inr ⟨rfl, hlt⟩))
    · exact .inr ⟨by rw [heq], hseq⟩
  have hcross : ∀ m n, m < n → ∀ a ∈ es.filter fun e => (s.tier e.value).rank = m,
      ∀ b ∈ es.filter fun e => (s.tier e.value).rank = n, Before s.cls a b := by
    intro m n hlt a ha b hb
    have ha' : (s.tier a.value).rank = m := of_decide_eq_true (mem_filter.mp ha).2
    have hb' : (s.tier b.value).rank = n := of_decide_eq_true (mem_filter.mp hb).2
    rw [Before, hcls, hcls, ha', hb']
    exact .inl (Prod.Lex.toLex_lt_toLex.mpr (.inl hlt))
  rw [pairwise_append, pairwise_append]
  refine ⟨⟨hsame 0, hsame 1, hcross 0 1 (by decide)⟩, hsame 2, fun a ha b hb => ?_⟩
  rcases mem_append.mp ha with ha | ha
  · exact hcross 0 2 (by decide) a ha b hb
  · exact hcross 1 2 (by decide) a ha b hb

/-- **What is built is the order of sorting.** -/
lemma buildOrder_eq (hadaptive : q.adaptive = s.adaptive) (hnow : q.now = s.now)
    (hsorted : q.entries.Pairwise (Before Stamped.orig))
    (hnodup : (q.entries.map Entry.seq).Nodup) :
    q.buildOrder = (serve s.cls q.entries).map fun e => (e, s.tier e.value) := by
  have hplain : ∀ t, t ≠ .warmup → (∀ x, s.tier x = t) → serve s.cls q.entries = q.entries := by
    intro t hne ht
    refine serve_eq_self (hsorted.imp fun {a b} hab => ?_) hnodup
    have hcls : ∀ x, s.cls x = toLex (t.rank, x.orig) :=
      fun x => by rw [AdmissionSpec.cls, ht, if_neg hne]
    rw [Before, hcls, hcls]
    rcases hab with hlt | ⟨heq, hseq⟩
    · exact .inl (Prod.Lex.toLex_lt_toLex.mpr (.inr ⟨rfl, hlt⟩))
    · exact .inr ⟨by rw [heq], hseq⟩
  rw [buildOrder, hadaptive, hnow]
  cases ha : s.adaptive with
  | none =>
    have ht : ∀ x, s.tier x = .oldest := fun x => by rw [AdmissionSpec.tier, ha]
    rw [hplain .oldest (by decide) ht]
    simp only [ht]
  | some a =>
    cases hn : s.now with
    | none =>
      have ht : ∀ x, s.tier x = .late := fun x => by simp only [AdmissionSpec.tier, ha, hn]
      rw [hplain .late (by decide) ht]
      simp only [ht]
    | some now =>
      dsimp only
      cases hx : a.slackAndGuard with
      | none =>
        have ht : ∀ x, s.tier x = .warmup := fun x => by simp only [AdmissionSpec.tier, ha, hn, hx]
        have hcls : ∀ x, s.cls x = toLex (0, x.genArrival) := fun x => by
          rw [AdmissionSpec.cls, ht, if_pos rfl, Tier.rank]
        have hserve : serve Stamped.genArrival q.entries = serve s.cls q.entries := by
          refine eq_serve hnodup ((pairwise_serve hnodup).imp fun {a b} hab => ?_) (perm_serve _ _)
          rw [Before, hcls, hcls]
          rcases hab with hlt | ⟨heq, hseq⟩
          · exact .inl (Prod.Lex.toLex_lt_toLex.mpr (.inr ⟨rfl, hlt⟩))
          · exact .inr ⟨by rw [heq], hseq⟩
        rw [← hserve]
        simp only [ht]
      | some r =>
        obtain ⟨x, guard⟩ := r
        have ht : ∀ v, s.tier v = if guard ≤ now - v.genArrival then .guard
            else if !v.keyed then .unkeyed
            else if now - v.orig ≤ x - a.s2fS then .slack else .late := fun v => by
          simp only [AdmissionSpec.tier, ha, hn, hx]
        dsimp only
        rw [foldl_place x guard a.s2fS now q.entries s.tier ht]
        rw [nil_append, nil_append, nil_append, ← map_append, ← map_append]
        congr 1
        have hperm := perm_filter_ranks (fun e : Entry Stamped => (s.tier e.value).rank)
          (fun e => (s.tier e.value).rank_lt) q.entries
        exact eq_serve hnodup (pairwise_ranks s hsorted ht) hperm

/-! ### The calls -/

lemma compact_eq (q : GenAdmissionWaitingQueue) :
    q.compact = { q with entries := q.live, popped := ∅ } := by
  rw [compact]
  split_ifs with h
  · have hlive : q.live = q.entries := by
      rw [live, h]
      exact filter_eq_self.mpr fun e _ => by simp
    rw [hlive, ← h]
  · rfl

section

variable (h : Refines q s)
include h

lemma Refines.compact : Refines q.compact s := by
  have hlive : q.live.Sublist q.entries := filter_sublist
  rw [compact_eq]
  refine ⟨h.adaptive, h.now, h.lastKey, h.counter, h.prependCounter, h.sorted.sublist hlive,
    h.nodup.sublist (hlive.map Entry.seq), fun seq hseq => ?_, ?_, h.fresh, h.stamped, h.order⟩
  · exact absurd hseq (Finset.notMem_empty seq)
  · have hall : ({ q with entries := q.live, popped := ∅ } : GenAdmissionWaitingQueue).live
      = q.live :=
      filter_eq_self.mpr fun e _ => by simp
    rw [hall]
    exact h.perm

/-- **The number of entries that are there.** -/
lemma Refines.len : q.len = s.queue.entries.length := by
  have hgone : (q.entries.filter fun e => e.seq ∈ q.popped).length = q.popped.card := by
    set gone := (q.entries.filter fun e => e.seq ∈ q.popped).map Entry.seq with hgone
    have hnodup : gone.Nodup := h.nodup.sublist (filter_sublist.map Entry.seq)
    have heq : gone.toFinset = q.popped := by
      ext seq
      rw [List.mem_toFinset, hgone, List.mem_map]
      constructor
      · rintro ⟨e, he, rfl⟩
        exact of_decide_eq_true (mem_filter.mp he).2
      · intro hseq
        obtain ⟨e, he, rfl⟩ := h.popped seq hseq
        exact ⟨e, mem_filter.mpr ⟨he, decide_eq_true hseq⟩, rfl⟩
    have hcard : q.popped.card = gone.length := by rw [← heq, toFinset_card_of_nodup hnodup]
    rw [hcard, hgone, length_map]
  have hsplit := length_eq_length_filter_add (l := q.entries) fun e => decide (e.seq ∈ q.popped)
  have hlive : (q.entries.filter fun e => !decide (e.seq ∈ q.popped)) = q.live := by
    rw [live]
    exact filter_congr fun e _ => by simp
  rw [hlive, hgone, h.perm.length_eq] at hsplit
  rw [GenAdmissionWaitingQueue.len, hsplit]
  push_cast
  ring

lemma Refines.order_live : s.order = serve s.cls q.live :=
  serve_congr (h.nodup.sublist (filter_sublist.map Entry.seq)) h.perm.symm

/-- The order is built when there is none. -/
lemma Refines.refresh : Refines q.refresh s ∧ ∃ o, q.refresh.order = some o := by
  cases ho : q.order with
  | some o =>
    rw [GenAdmissionWaitingQueue.refresh, ho]
    exact ⟨h, o, ho⟩
  | none =>
    rw [GenAdmissionWaitingQueue.refresh, ho]
    have hc := h.compact
    refine ⟨⟨hc.adaptive, hc.now, hc.lastKey, hc.counter, hc.prependCounter, hc.sorted, hc.nodup,
      hc.popped, hc.perm, hc.fresh, hc.stamped, fun o horder => ?_⟩, _, rfl⟩
    obtain rfl := some.inj horder
    have hentries : q.compact.entries = q.live := by rw [compact_eq]
    rw [reverse_reverse, buildOrder_eq hc.adaptive hc.now hc.sorted hc.nodup, hentries,
      h.order_live]

lemma Refines.len_le_iff : q.len ≤ 0 ↔ s.order = [] := by
  have hlen : s.order.length = s.queue.entries.length :=
    (perm_serve s.cls s.queue.entries).length_eq
  rw [h.len, ← hlen, ← length_eq_zero_iff]
  omega

/-- The first entry of the order leaves. -/
lemma Refines.take {e : Entry Stamped} {queue : Numbered Stamped}
    (hpop : s.queue.pop? s.cls = some (e, queue)) {o : List (Entry Stamped × Tier)}
    (ho : q.order = some o) : o.getLast? = some (e, s.tier e.value)
      ∧ Refines { q with order := some o.dropLast, popped := Insert.insert e.seq q.popped }
        { s with queue := queue } := by
  obtain ⟨horder, hfresh, -⟩ := Numbered.order_of_pop? h.fresh hpop
  have hqueue : queue = s.queue.keep fun e' => e'.seq ≠ e.seq := by
    rw [Numbered.pop?, horder] at hpop
    exact (Prod.mk.inj (some.inj hpop)).2.symm
  have hrev : o.reverse = (e, s.tier e.value) :: (queue.order s.cls).map fun e =>
    (e, s.tier e.value) := by
    rw [h.order o ho, AdmissionSpec.order, horder, map_cons]
  have ho' : o = ((queue.order s.cls).map fun e => (e, s.tier e.value)).reverse
      ++ [(e, s.tier e.value)] := by
    rw [← reverse_reverse o, hrev, reverse_cons]
  have hmem : e ∈ q.entries := by
    have hin : e ∈ s.queue.entries := by
      refine (perm_serve s.cls s.queue.entries).mem_iff.mp ?_
      show e ∈ s.queue.order s.cls
      rw [horder]
      exact mem_cons_self
    exact mem_of_mem_filter (h.perm.mem_iff.mpr hin)
  refine ⟨by rw [ho', getLast?_concat], h.adaptive, h.now, h.lastKey, ?_, ?_, h.sorted,
    h.nodup, ?_, ?_,
    hfresh, ?_, fun o' heq => ?_⟩
  · rw [hqueue]
    exact h.counter
  · rw [hqueue]
    exact h.prependCounter
  · intro seq hseq
    rcases Finset.mem_insert.mp hseq with rfl | hseq
    · exact ⟨e, hmem, rfl⟩
    · exact h.popped seq hseq
  · have hlive : ({ q with order := some o.dropLast, popped := Insert.insert e.seq q.popped } :
        GenAdmissionWaitingQueue).live = q.live.filter fun e' => e'.seq ≠ e.seq := by
      rw [live, live, List.filter_filter]
      exact filter_congr fun e' _ => by simp
    rw [hlive, hqueue]
    exact h.perm.filter _
  · rw [hqueue]
    exact fun e he => h.stamped e (mem_of_mem_filter he)
  · obtain rfl := some.inj heq
    rw [ho', dropLast_concat, reverse_reverse]
    rfl

end

/-- **What is popped.** -/
lemma popSim :
    PopSim AdmissionSpec.popRequest popRequest (fun s q => Refines q s) (fun _ => True) id where
  none s q h hpop := by
    have hnil : s.order = [] := Numbered.order_of_pop?_none (map_eq_none_iff.mp hpop)
    rw [popRequest, if_pos (h.len_le_iff.mpr hnil)]
  some s q x s' h hpop := by
    obtain ⟨⟨e, queue⟩, hpop', heq⟩ := map_eq_some_iff.mp hpop
    obtain ⟨rfl, rfl⟩ := Prod.mk.inj heq
    have hlen : ¬ q.len ≤ 0 := fun hle => by
      have hnil := h.len_le_iff.mp hle
      rw [AdmissionSpec.order, (Numbered.order_of_pop? h.fresh hpop').1] at hnil
      cases hnil
    obtain ⟨hr, o, ho⟩ := h.refresh
    obtain ⟨hlast, hrefines⟩ := hr.take hpop' ho
    refine ⟨trivial, _, ?_, hrefines⟩
    rw [popRequest, if_neg hlen]
    dsimp only
    rw [ho]
    dsimp only
    rw [hlast]
    rfl

/-- A new entry is put where its arrival and its number belong. -/
lemma perm_insort (entry : Entry Stamped) (es : List (Entry Stamped)) :
    (insort entry es).Perm (entry :: es) := by
  induction es with
  | nil => rfl
  | cons e es ih =>
    rw [insort]
    split_ifs
    · rfl
    · exact (ih.cons e).trans (Perm.swap entry e es)

lemma pairwise_insort {entry : Entry Stamped} {es : List (Entry Stamped)}
    (hes : es.Pairwise (Before Stamped.orig))
    (hne : ∀ e ∈ es, e.seq ≠ entry.seq) : (insort entry es).Pairwise (Before Stamped.orig) := by
  induction es with
  | nil => exact pairwise_singleton _ _
  | cons e es ih =>
    obtain ⟨hfirst, hrest⟩ := pairwise_cons.mp hes
    rw [insort]
    split_ifs with hbefore
    · refine pairwise_cons.mpr ⟨fun e' he' => ?_, hes⟩
      rcases mem_cons.mp he' with rfl | he'
      · exact hbefore
      · exact Before.trans hbefore (hfirst e' he')
    · refine pairwise_cons.mpr ⟨fun e' he' => ?_,
        ih hrest fun e' he' => hne e' (mem_cons_of_mem e he')⟩
      rcases mem_cons.mp ((perm_insort entry es).mem_iff.mp he') with rfl | he'
      · exact Before.of_not hbefore (hne e mem_cons_self)
      · exact hfirst e' he'

section

variable (h : Refines q s)
include h

/-- A new entry, under a number that no other has. -/
lemma Refines.insert (seq : ℤ) (item : WaitingItem) (queue : Numbered Stamped)
    (hentries : queue.entries = s.queue.entries ++ [⟨seq, stamp s.lastKey item⟩])
    (hfresh : queue.Fresh) : Refines ({ q with
      counter := queue.counter, prependCounter := queue.frontCounter }.insert seq item)
      { s with queue := queue, lastKey := max s.lastKey (stamp s.lastKey item).genArrival } := by
  have hlive : q.live.Sublist q.entries := filter_sublist
  set entry : Entry Stamped := ⟨seq, stamp q.lastKey item⟩ with hentry
  rw [← h.lastKey, ← hentry] at hentries
  have hnodup : ((entry :: q.live).map Entry.seq).Nodup := by
    have hperm : (entry :: q.live).Perm queue.entries := by
      rw [hentries]
      exact (h.perm.cons entry).trans (perm_append_singleton entry _).symm
    exact (hperm.map Entry.seq).nodup_iff.mpr hfresh.nodup
  have hne : ∀ e ∈ q.live, e.seq ≠ entry.seq := fun e he heq => by
    rw [map_cons, nodup_cons] at hnodup
    exact hnodup.1 (heq ▸ List.mem_map_of_mem he)
  rw [GenAdmissionWaitingQueue.insert, compact_eq]
  refine ⟨h.adaptive, h.now, ?_, rfl, rfl, ?_, ?_,
    fun seq hseq => absurd hseq (Finset.notMem_empty seq), ?_, hfresh, ?_, fun o ho => by cases ho⟩
  · show max q.lastKey (stamp q.lastKey item).genArrival = _
    rw [h.lastKey]
  · exact pairwise_insort (h.sorted.sublist hlive) hne
  · exact ((perm_insort entry q.live).map Entry.seq).nodup_iff.mpr hnodup
  · have hall : ((insort entry q.live).filter fun e => e.seq ∉ (∅ : Finset ℤ))
      = insort entry q.live :=
      filter_eq_self.mpr fun e _ => by simp
    show ((insort entry q.live).filter fun e => e.seq ∉ (∅ : Finset ℤ)).Perm queue.entries
    rw [hall, hentries]
    calc insort entry q.live
        |>.Perm (entry :: q.live) := perm_insort entry q.live
      _ |>.Perm (entry :: s.queue.entries) := h.perm.cons entry
      _ |>.Perm (s.queue.entries ++ [entry]) := (perm_append_singleton entry _).symm
  · intro e he
    rw [hentries] at he
    rcases mem_append.mp he with he | he
    · exact h.stamped e he
    · rw [mem_singleton.mp he]
      exact fun lastKey => rfl

lemma Refines.addRequest (request : WaitingItem) :
    Refines (q.addRequest request) (s.addRequest request) := by
  have hins := h.insert q.counter request (s.queue.add (stamp s.lastKey request))
    (by rw [h.counter]; rfl) (h.fresh.add _)
  have hcounter : (s.queue.add (stamp s.lastKey request)).counter = q.counter + 1 := by
    rw [h.counter]
    rfl
  have hfront : (s.queue.add (stamp s.lastKey request)).frontCounter = q.prependCounter := by
    rw [h.prependCounter]
    rfl
  rw [hcounter, hfront] at hins
  exact hins

lemma Refines.prependRequest (request : WaitingItem) :
    Refines (q.prependRequest request) (s.prependRequest request) := by
  have hins := h.insert q.prependCounter request (s.queue.addFront (stamp s.lastKey request))
    (by rw [h.prependCounter]; rfl) (h.fresh.addFront _)
  have hcounter : (s.queue.addFront (stamp s.lastKey request)).counter = q.counter := by
    rw [h.counter]
    rfl
  have hfront : (s.queue.addFront (stamp s.lastKey request)).frontCounter
      = q.prependCounter - 1 := by
    rw [h.prependCounter]
    rfl
  rw [hcounter, hfront] at hins
  exact hins

lemma Refines.prependRequests (requests : List WaitingItem) :
    Refines (q.prependRequests requests) (requests.foldr AdmissionSpec.prependRequest s) := by
  rw [GenAdmissionWaitingQueue.prependRequests, foldl_reverse]
  induction requests with
  | nil => exact h
  | cons request requests ih => exact ih.prependRequest request

lemma Refines.addRequests (requests : List WaitingItem) :
    Refines (requests.foldl (fun q request => q.addRequest request) q)
      (requests.foldl (fun s request => s.addRequest request) s) := by
  induction requests generalizing q s with
  | nil => exact h
  | cons request requests ih => exact ih (h.addRequest request)

lemma Refines.removeByIds (requestIds : Finset ℕ) :
    Refines (q.removeByIds requestIds) { s with queue := s.queue.keep fun e =>
      e.value.item.id ∉ requestIds } := by
  have hlive : q.live.Sublist q.entries := filter_sublist
  set kept := q.live.filter fun e => e.value.item.id ∉ requestIds with hkept
  have hsub : kept.Sublist q.entries := filter_sublist.trans hlive
  rw [GenAdmissionWaitingQueue.removeByIds, compact_eq]
  refine ⟨h.adaptive, h.now, h.lastKey, h.counter, h.prependCounter, h.sorted.sublist hsub,
    h.nodup.sublist (hsub.map Entry.seq), fun seq hseq => absurd hseq (Finset.notMem_empty seq), ?_,
    h.fresh.keep _, fun e he => h.stamped e (mem_of_mem_filter he), fun o ho => by cases ho⟩
  have hall : (kept.filter fun e => e.seq ∉ (∅ : Finset ℤ)) = kept :=
    filter_eq_self.mpr fun e _ => by simp
  show (kept.filter fun e => e.seq ∉ (∅ : Finset ℤ)).Perm _
  rw [hall]
  exact h.perm.filter _

/-- The tiers only read the clock and the target. -/
lemma Refines.setAdaptive (now : Option ℚ) (adaptive : Option AdaptiveSlack)
    (order : Option (List (Entry Stamped × Tier)))
    (horder : ∀ o, order = some o → o.reverse
      = (({ s with now := now, adaptive := adaptive } : AdmissionSpec).order).map fun e =>
        (e, ({ s with now := now, adaptive := adaptive } : AdmissionSpec).tier e.value)) :
    Refines { q with now := now, adaptive := adaptive, order := order }
      { s with now := now, adaptive := adaptive } :=
  ⟨rfl, rfl, h.lastKey, h.counter, h.prependCounter, h.sorted, h.nodup, h.popped, h.perm, h.fresh,
    h.stamped, horder⟩

lemma Refines.setLog (log : Bool) (lastStatsLog : Option ℚ) :
    Refines { q with log := log, lastStatsLog := lastStatsLog } s :=
  ⟨h.adaptive, h.now, h.lastKey, h.counter, h.prependCounter, h.sorted, h.nodup, h.popped, h.perm,
    h.fresh, h.stamped, h.order⟩

lemma Refines.setNow (now s2f : Option ℚ) :
    Refines (q.setNow now s2f) (s.step (.setNow now s2f)).2 := by
  have hset := fun now adaptive => h.setAdaptive now adaptive none fun o ho => by cases ho
  cases now with
  | none =>
    rw [GenAdmissionWaitingQueue.setNow, h.adaptive]
    exact hset none _
  | some t =>
    rw [GenAdmissionWaitingQueue.setNow, h.adaptive]
    split_ifs
    · exact ((hset (some t) _).setLog q.log (some t)).compact
    · exact hset (some t) _

end

lemma slackAndGuard_markOne (now : Option ℚ) (a : AdaptiveSlack) (item : WaitingItem) :
    (markOne now a item).slackAndGuard = a.slackAndGuard ∧ (markOne now a item).s2fS = a.s2fS := by
  unfold markOne
  split
  · split_ifs <;> exact ⟨rfl, rfl⟩
  · exact ⟨rfl, rfl⟩

/-- Admissions do not change the target before the clock does. -/
lemma tier_markAdmitted (s : AdmissionSpec) (items : List WaitingItem) :
    ({ s with adaptive := markAdmitted s.now items s.adaptive } : AdmissionSpec).tier = s.tier := by
  have hfold : ∀ a : AdaptiveSlack, (items.foldl (markOne s.now) a).slackAndGuard = a.slackAndGuard
      ∧ (items.foldl (markOne s.now) a).s2fS = a.s2fS := by
    induction items with
    | nil => exact fun a => ⟨rfl, rfl⟩
    | cons item items ih =>
      intro a
      obtain ⟨hx, hs⟩ := ih (markOne s.now a item)
      obtain ⟨hx', hs'⟩ := slackAndGuard_markOne s.now a item
      exact ⟨hx.trans hx', hs.trans hs'⟩
  funext x
  cases ha : s.adaptive with
  | none => simp only [AdmissionSpec.tier, markAdmitted, ha, map_none]
  | some a => simp only [AdmissionSpec.tier, markAdmitted, ha, map_some, hfold a]

section

variable (h : Refines q s)
include h

lemma Refines.markAdmitted (items : List WaitingItem) :
    Refines { q with adaptive := TrtLlm.Scheduler.markAdmitted q.now items q.adaptive }
      { s with adaptive := TrtLlm.Scheduler.markAdmitted s.now items s.adaptive } := by
  have htier := tier_markAdmitted s items
  have horder : ({ s with adaptive := TrtLlm.Scheduler.markAdmitted s.now items s.adaptive } :
      AdmissionSpec).order = s.order := by
    rw [AdmissionSpec.order, AdmissionSpec.order]
    congr 1
    funext x
    rw [AdmissionSpec.cls, AdmissionSpec.cls, htier]
  have hset := h.setAdaptive s.now (TrtLlm.Scheduler.markAdmitted s.now items s.adaptive) q.order
    fun o ho => by rw [horder, htier, h.order o ho]
  rw [h.adaptive, h.now]
  rw [← h.now] at hset ⊢
  exact hset

/-! ### Runs -/

lemma Refines.peekRequest :
    q.peekRequest.1 = s.order.head?.map (fun e => e.value.item) ∧ Refines q.peekRequest.2 s := by
  rw [GenAdmissionWaitingQueue.peekRequest]
  split_ifs with hlen
  · rw [h.len_le_iff.mp hlen]
    exact ⟨rfl, h⟩
  · obtain ⟨hr, o, ho⟩ := h.refresh
    refine ⟨?_, hr⟩
    show (q.refresh.order.getD []).getLast?.map _ = _
    rw [ho, getD_some, ← head?_reverse, hr.order o ho, head?_map, Option.map_map]
    rfl

lemma Refines.peekRequests (k : ℤ) :
    (q.peekRequests k).1 = (s.order.take k.toNat).map (fun e => e.value.item)
      ∧ Refines (q.peekRequests k).2 s := by
  rw [GenAdmissionWaitingQueue.peekRequests]
  split_ifs with hnone
  · refine ⟨?_, h⟩
    rcases hnone with hk | hlen
    · rw [Int.toNat_of_nonpos hk]
      rfl
    · rw [h.len_le_iff.mp hlen, take_nil]
      rfl
  · obtain ⟨hr, o, ho⟩ := h.refresh
    refine ⟨?_, hr⟩
    show (((q.refresh.order.getD []).reverse.take k.toNat).map _) = _
    rw [ho, getD_some, hr.order o ho, ← map_take, List.map_map]
    rfl

lemma Refines.iter : q.compact.entries = s.queue.order Stamped.orig := by
  have hentries : q.compact.entries = q.live := by rw [compact_eq]
  rw [hentries]
  exact eq_serve h.fresh.nodup (h.sorted.sublist filter_sublist) h.perm

/-- **A call answers what sorting at the call gives.** -/
lemma Refines.queueStep (call : QueueCall) :
    (q.queueStep call).1 = (s.queueStep call).1
      ∧ Refines (q.queueStep call).2 (s.queueStep call).2 := by
  cases call with
  | addRequest request => exact ⟨rfl, h.addRequest request⟩
  | addRequests requests => exact ⟨rfl, h.addRequests requests⟩
  | popRequest =>
    rw [GenAdmissionWaitingQueue.queueStep, AdmissionSpec.queueStep]
    cases hpop : s.popRequest with
    | none =>
      rw [popSim.none s q h hpop]
      exact ⟨rfl, h⟩
    | some r =>
      obtain ⟨-, q', hpop', hr⟩ := popSim.some s q r.1 r.2 h hpop
      rw [hpop']
      exact ⟨rfl, hr⟩
  | peekRequest =>
    obtain ⟨hitem, hr⟩ := h.peekRequest
    rw [GenAdmissionWaitingQueue.queueStep, AdmissionSpec.queueStep]
    rcases hpeek : q.peekRequest with ⟨item, q'⟩
    rw [hpeek] at hitem hr
    cases horder : s.order with
    | nil =>
      rw [horder] at hitem
      subst hitem
      exact ⟨rfl, hr⟩
    | cons e es =>
      rw [horder] at hitem
      subst hitem
      exact ⟨rfl, hr⟩
  | peekRequests k =>
    obtain ⟨hitems, hr⟩ := h.peekRequests k
    exact ⟨congrArg QueueAnswer.requests hitems, hr⟩
  | prependRequest request => exact ⟨rfl, h.prependRequest request⟩
  | prependRequests requests => exact ⟨rfl, h.prependRequests requests⟩
  | removeByIds requestIds => exact ⟨rfl, h.removeByIds requestIds⟩
  | len => exact ⟨congrArg QueueAnswer.length h.len, h⟩
  | iter =>
    refine ⟨?_, h.compact⟩
    show QueueAnswer.requests (q.compact.entries.map _) = _
    rw [h.iter]
    rfl

lemma Refines.step (call : AdmissionCall) :
    (q.step call).1 = (s.step call).1 ∧ Refines (q.step call).2 (s.step call).2 := by
  cases call with
  | queue call =>
    obtain ⟨hanswer, hr⟩ := h.queueStep call
    exact ⟨congrArg ([·]) hanswer, hr⟩
  | setNow now s2f => exact ⟨rfl, h.setNow now s2f⟩
  | markAdmitted items => exact ⟨rfl, h.markAdmitted items⟩
  | enableRank0 => exact ⟨rfl, h.setLog true q.lastStatsLog⟩

end

lemma refines_init (auto : Option AdaptiveSlackConfig) :
    Refines (init auto) (AdmissionSpec.init auto) :=
  ⟨rfl, rfl, rfl, rfl, rfl, List.Pairwise.nil, nodup_nil,
    fun seq h => absurd h (Finset.notMem_empty seq), Perm.refl _, Numbered.fresh_empty,
      fun _ h => (not_mem_nil h).elim, fun o ho => by cases ho⟩

lemma Refines.run (h : Refines q s) (calls : List AdmissionCall) :
    (Machine.run GenAdmissionWaitingQueue.step q calls).1
      = (Machine.run AdmissionSpec.step s calls).1
      ∧ Refines (Machine.run GenAdmissionWaitingQueue.step q calls).2
        (Machine.run AdmissionSpec.step s calls).2 := by
  induction calls generalizing q s with
  | nil => exact ⟨rfl, h⟩
  | cons call calls ih =>
    obtain ⟨hanswer, hr⟩ := h.step call
    obtain ⟨hanswers, hr'⟩ := ih hr
    rw [Machine.run, Machine.run, hanswer, hanswers]
    exact ⟨rfl, hr'⟩

/-! ### Putting back -/

/-- The queue that sorts at every call pops what its numbered entries do. -/
lemma popSim_spec (s₀ : AdmissionSpec) : PopSim (Numbered.popValue s₀.cls) AdmissionSpec.popRequest
    (fun queue s => s.queue = queue ∧ s.adaptive = s₀.adaptive ∧ s.now = s₀.now ∧ queue.Fresh
      ∧ ∀ e ∈ queue.entries, ∀ lastKey, stamp lastKey e.value.item = e.value)
    (fun x => ∀ lastKey, stamp lastKey x.item = x) (fun x => (x.item, s₀.tier x)) := by
  have htier : ∀ s : AdmissionSpec, s.adaptive = s₀.adaptive → s.now = s₀.now →
      s.tier = s₀.tier := by
    intro s hadaptive hnow
    funext x
    simp only [AdmissionSpec.tier, hadaptive, hnow]
  have hcls : ∀ s : AdmissionSpec, s.adaptive = s₀.adaptive → s.now = s₀.now → s.cls = s₀.cls := by
    intro s hadaptive hnow
    funext x
    rw [AdmissionSpec.cls, AdmissionSpec.cls, htier s hadaptive hnow]
  constructor
  · rintro queue s ⟨rfl, hadaptive, hnow, -⟩ hpop
    rw [AdmissionSpec.popRequest, hcls s hadaptive hnow, map_eq_none_iff]
    exact map_eq_none_iff.mp hpop
  · rintro queue s x queue' ⟨rfl, hadaptive, hnow, hfresh, hstamped⟩ hpop
    obtain ⟨⟨e, queue₁⟩, hpop', heq⟩ := map_eq_some_iff.mp hpop
    obtain ⟨rfl, rfl⟩ := Prod.mk.inj heq
    obtain ⟨horder, hfresh', -⟩ := Numbered.order_of_pop? hfresh hpop'
    have hmem : ∀ e' ∈ e :: queue₁.order s₀.cls, e' ∈ s.queue.entries := by
      rw [← horder]
      exact fun e' he' => (perm_serve s₀.cls s.queue.entries).mem_iff.mp he'
    refine ⟨hstamped e (hmem e mem_cons_self), { s with queue := queue₁ }, ?_, rfl, hadaptive, hnow,
      hfresh', fun e' he' => hstamped e' (hmem e' (mem_cons_of_mem e ?_))⟩
    · rw [AdmissionSpec.popRequest, hcls s hadaptive hnow, hpop', htier s hadaptive hnow]
      rfl
    · exact (perm_serve s₀.cls queue₁.entries).mem_iff.mpr he'

lemma spec_putBackNeutral (h : Refines q s) : PutBackNeutral AdmissionSpec.popRequest
    (fun back s => (back.map Prod.fst).foldr AdmissionSpec.prependRequest s) s := by
  refine (popSim_spec s).putBackNeutral (fun queue s' back hR hback => ?_) ⟨rfl, rfl, rfl, h.fresh,
    h.stamped⟩
    (Numbered.putBackNeutral s.cls h.fresh)
  rw [List.map_map]
  induction back with
  | nil => exact hR
  | cons x back ih =>
    obtain ⟨hx, hback⟩ := forall_mem_cons.mp hback
    obtain ⟨hqueue, hadaptive, hnow, hfresh, hstamped⟩ := ih hback
    refine ⟨?_, hadaptive, hnow, hfresh.addFront x, fun e he => ?_⟩
    · rw [foldr_cons, ← hqueue]
      exact congrArg (fun v => Numbered.addFront v _) (hx _)
    · rcases mem_append.mp he with he | he
      · exact hstamped e he
      · rw [mem_singleton.mp he]
        exact hx

end GenAdmissionWaitingQueue

open GenAdmissionWaitingQueue in
/-- **The waiting queues**: whatever is called, the admission queue answers what sorting its entries
at the call gives, by tier, original arrival and number, and its length is the number of its
entries; and in every state that calls lead to, popping some requests and putting back some of them,
in the order in which they were popped, leaves the order as it was without the others, in all three
queues. -/
theorem waitingQueues_spec (auto : Option AdaptiveSlackConfig) (calls : List AdmissionCall)
    (queueCalls : List QueueCall) :
    (Machine.run GenAdmissionWaitingQueue.step (init auto) calls).1
        = (Machine.run AdmissionSpec.step (AdmissionSpec.init auto) calls).1
      ∧ PutBackNeutral FCFSWaitingQueue.popRequest FCFSWaitingQueue.prependRequests
          (FCFSWaitingQueue.after queueCalls)
      ∧ PutBackNeutral PriorityWaitingQueue.popRequest PriorityWaitingQueue.prependRequests
          (PriorityWaitingQueue.after queueCalls)
      ∧ PutBackNeutral GenAdmissionWaitingQueue.popRequest
          (fun back q => q.prependRequests (back.map Prod.fst))
            (GenAdmissionWaitingQueue.after auto calls) := by
  obtain ⟨hanswers, hrefines⟩ := (refines_init auto).run calls
  refine ⟨hanswers, FCFSWaitingQueue.putBackNeutral _,
    PriorityWaitingQueue.putBackNeutral queueCalls, ?_⟩
  refine popSim.putBackNeutral (fun s q back h _ => ?_) hrefines (spec_putBackNeutral hrefines)
  rw [List.map_id]
  exact h.prependRequests _

end TrtLlm.Scheduler
