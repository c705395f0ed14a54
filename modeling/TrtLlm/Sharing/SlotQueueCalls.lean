import TrtLlm.Sharing.SlotQueue

/-!
The calls of the slot queue.

* `QueueOk.tryGrant`, `QueueOk.giveBack`: what a grant and a return do;
* `queueOk_run`: **every sequence of calls** keeps the invariant.
-/

namespace TrtLlm

open FirstFit List Option Nat Prod UMap

namespace SlotQueue

variable {κ : Type} [DecidableEq κ] {q : SlotQueue κ} {wanted : List (κ × ℕ)}

/-! ### One call -/

variable {numSlots : UMap κ ℕ} {s : Held κ}

/-- Every group that the ticket wants has a run that is long enough. -/
def Fits (q : SlotQueue κ) (w : UMap κ ℕ) : Prop :=
  ∀ g c, w.find? g = some c → ∃ a, q.allocators.find? g = some a ∧ ∃ r ∈ a.free, c ≤ r.2

variable {g : κ} {q' : SlotQueue κ} {starts w : UMap κ ℕ} {ticket : ℕ}

lemma find_isSome_iff {c : ℕ} {free : List Run} :
    (FirstFit.find c free).isSome = true ↔ ∃ r ∈ free, c ≤ r.2 := by
  rw [FirstFit.find, isSome_map, find?_isSome]
  simp only [decide_eq_true_eq]

/-- **What a try does**: an error for a ticket that does not wait; nothing unless the ticket is the
first one and its runs fit; and otherwise the runs that were found are taken. -/
lemma QueueOk.tryGrant_cases (h : QueueOk numSlots s) (ticket : ℕ) :
    s.queue.waiting.find? ticket = none ∧ s.queue.tryGrant ticket = (.error .key, s.queue)
    ∨ (∃ w, s.queue.waiting.find? ticket = some w
      ∧ ¬ (s.queue.waiting.keys.head? = some ticket ∧ s.queue.Fits w)
      ∧ s.queue.tryGrant ticket = (.ok none, s.queue))
    ∨ ∃ w starts q', s.queue.waiting.find? ticket = some w
      ∧ s.queue.waiting.keys.head? = some ticket ∧ s.queue.Fits w
      ∧ Taken s.queue starts w.entries q'
      ∧ s.queue.tryGrant ticket
        = (.ok (some (runsOf w starts)), { q' with waiting := q'.waiting.erase ticket }) := by
  cases hw : s.queue.waiting.find? ticket with
  | none =>
    refine .inl ⟨rfl, ?_⟩
    rw [tryGrant, hw]
  | some w =>
    refine .inr ?_
    by_cases hhead : s.queue.waiting.keys.head? = some ticket
    · by_cases hfits : s.queue.Fits w
      · refine .inr ?_
        have hlong : ∀ g c, (g, c) ∈ w.entries → ∃ a, s.queue.allocators.find? g = some a
            ∧ (FirstFit.find c a.free).isSome = true := fun g c hmem => by
          obtain ⟨a, ha, hr⟩ := hfits g c (find?_eq_some_iff.mpr hmem)
          exact ⟨a, ha, find_isSome_iff.mpr hr⟩
        obtain ⟨starts, hstarts⟩ := findStarts_of_long hlong ∅
        obtain ⟨q', htake, htaken⟩ := takeAll_taken w.nodup (findStarts_found w.nodup hstarts).1
        refine ⟨w, starts, q', rfl, hhead, hfits, htaken, ?_⟩
        rw [tryGrant, hw]
        dsimp only
        rw [if_neg (not_not.mpr hhead), hstarts]
        dsimp only
        rw [htake]
      · refine .inl ⟨w, rfl, fun hboth => hfits hboth.2, ?_⟩
        have hknown : ∀ g c, (g, c) ∈ w.entries → g ∈ s.queue.allocators := fun g c hmem => by
          obtain ⟨-, a, ha, -⟩ := (h.wanted ticket w hw).2 g c (find?_eq_some_iff.mpr hmem)
          exact mem_of_find? ha
        have hshort : ∃ g c a, (g, c) ∈ w.entries ∧ s.queue.allocators.find? g = some a
            ∧ FirstFit.find c a.free = none := by
          rw [Fits] at hfits
          push Not at hfits
          obtain ⟨g, c, hc, hnone⟩ := hfits
          have hmem := find?_eq_some_iff.mp hc
          obtain ⟨a, ha⟩ := mem_iff_find?.mp (hknown g c hmem)
          refine ⟨g, c, a, hmem, ha, not_isSome_iff_eq_none.mp fun hsome => ?_⟩
          obtain ⟨r, hr, hle⟩ := find_isSome_iff.mp hsome
          exact absurd hle (not_le.mpr (hnone a ha r hr))
        rw [tryGrant, hw]
        dsimp only
        rw [if_neg (not_not.mpr hhead), findStarts_of_short hknown hshort]
    · refine .inl ⟨w, rfl, fun hboth => hhead hboth.1, ?_⟩
      rw [tryGrant, hw]
      dsimp only
      rw [if_pos hhead]

lemma inRuns_runsOf {k : ℕ} : InRuns (asGiven (runsOf w starts)) g k ↔ ∃ c, w.find? g = some c
      ∧ (starts.find? g).getD 0 ≤ k ∧ k < (starts.find? g).getD 0 + c := by
  rw [InRuns, asGiven, runsOf, find?_mapVal, find?_mapVal]
  cases w.find? g with
  | none => simp
  | some c =>
    simp only [map_some, some.injEq, exists_eq_left', cast_le]
    rw [← cast_add, cast_lt]

/-- What became of a group when runs were taken. -/
lemma Taken.group (h : Taken q starts w.entries q') (g : κ) :
    w.find? g = none ∧ q'.allocators.find? g = q.allocators.find? g
    ∨ ∃ c a free, w.find? g = some c ∧ q.allocators.find? g = some a
      ∧ FirstFit.take ((starts.find? g).getD 0) c a.free = some free
      ∧ q'.allocators.find? g = some { a with free := free } := by
  cases hw : w.find? g with
  | none => exact .inl ⟨rfl, h.others g (find?_eq_none_iff.mp hw)⟩
  | some c =>
    obtain ⟨a, start, free, ha, hstart, htake, ha'⟩ := h.taken g c (find?_eq_some_iff.mp hw)
    refine .inr ⟨c, a, free, rfl, ha, ?_, ha'⟩
    rw [hstart]
    exact htake

section

variable (h : QueueOk numSlots s)
include h

/-- The slots that a grant takes were held by nobody. -/
lemma QueueOk.unheld_of_taken (htaken : Taken s.queue starts w.entries q') {k : ℕ}
    (hk : InRuns (asGiven (runsOf w starts)) g k) : s.owner g k = none := by
  obtain ⟨c, hc, hrun⟩ := inRuns_runsOf.mp hk
  rcases htaken.group g with ⟨hnone, -⟩ | ⟨c', a, free, hc', ha, htake, -⟩
  · rw [hc] at hnone
    cases hnone
  · obtain rfl : c = c' := some.inj (hc.symm.trans hc')
    exact ((h.free_iff g a ha k).mp (has_of_take htake hrun)).2

/-- **A grant keeps the invariant.** -/
lemma QueueOk.taken (hw : s.queue.waiting.find? ticket = some w)
    (htaken : Taken s.queue starts w.entries q') :
    QueueOk numSlots ⟨{ q' with waiting := q'.waiting.erase ticket },
      fun g k => if InRuns (asGiven (runsOf w starts)) g k then some ticket else s.owner g k⟩ := by
  have hsome : ∀ g a, q'.allocators.find? g = some a → ∃ a₀, s.queue.allocators.find? g = some a₀
      ∧ a.numSlots = a₀.numSlots ∧ Canonical a.free
      ∧ ∀ k, Has a.free k ↔ Has a₀.free k ∧ ¬ InRuns (asGiven (runsOf w starts)) g k := by
    intro g a ha
    rcases htaken.group g with ⟨hnone, heq⟩ | ⟨c, a₀, free, hc, ha₀, htake, ha'⟩
    · rw [heq] at ha
      refine ⟨a, ha, rfl, h.canonical g a ha, fun k => (and_iff_left fun hk => ?_).symm⟩
      obtain ⟨c, hc, -⟩ := inRuns_runsOf.mp hk
      rw [hc] at hnone
      cases hnone
    · obtain rfl := some.inj (ha.symm.trans ha')
      have hpos := ((h.wanted ticket w hw).2 g c hc).1
      refine ⟨a₀, ha₀, rfl, take_canonical (h.canonical g a₀ ha₀) hpos htake, fun k => ?_⟩
      rw [take_has (h.canonical g a₀ ha₀) htake k, inRuns_runsOf, hc]
      simp only [some.injEq, exists_eq_left']
  have hkept : ∀ g a₀, s.queue.allocators.find? g = some a₀ → ∃ a, q'.allocators.find? g = some a
      ∧ a.numSlots = a₀.numSlots := by
    intro g a₀ ha₀
    rcases htaken.group g with ⟨-, heq⟩ | ⟨c, a₁, free, hc, ha₁, -, ha'⟩
    · exact ⟨a₀, heq.trans ha₀, rfl⟩
    · obtain rfl := some.inj (ha₀.symm.trans ha₁)
      exact ⟨_, ha', rfl⟩
  refine ⟨fun g => ?_, fun g a ha => ?_, fun g a ha k => ?_, fun g k hheld => ?_,
    fun t w' hw' => ?_, ?_⟩
  · rw [← h.sizes g]
    rcases htaken.group g with ⟨-, heq⟩ | ⟨c, a₀, free, -, ha₀, -, ha'⟩
    · exact congrArg _ heq
    · dsimp only
      rw [ha', ha₀]
      rfl
  · obtain ⟨a₀, -, -, hcan, -⟩ := hsome g a ha
    exact hcan
  · obtain ⟨a₀, ha₀, hsize, -, hhas⟩ := hsome g a ha
    rw [hhas k, h.free_iff g a₀ ha₀ k, hsize]
    dsimp only
    split_ifs with hk
    · simp [hk]
    · simp [hk]
  · dsimp only at hheld
    by_cases hk : InRuns (asGiven (runsOf w starts)) g k
    · obtain ⟨c, hc, hrun⟩ := inRuns_runsOf.mp hk
      rcases htaken.group g with ⟨hnone, -⟩ | ⟨c', a₀, free, hc', ha₀, htake, ha'⟩
      · rw [hc] at hnone
        cases hnone
      · obtain rfl : c = c' := some.inj (hc.symm.trans hc')
        exact ⟨_, ha', ((h.free_iff g a₀ ha₀ k).mp (has_of_take htake hrun)).1⟩
    · rw [if_neg hk] at hheld
      obtain ⟨a₀, ha₀, hlt⟩ := h.held g k hheld
      obtain ⟨a, ha, hsize⟩ := hkept g a₀ ha₀
      exact ⟨a, ha, hsize ▸ hlt⟩
  · dsimp only at hw'
    rw [find?_erase, htaken.waiting] at hw'
    split_ifs at hw' with hne
    obtain ⟨hlt, hgrant⟩ := h.wanted t w' hw'
    refine ⟨htaken.nextTicket ▸ hlt, fun g c hc => ?_⟩
    obtain ⟨hpos, a₀, ha₀, hle⟩ := hgrant g c hc
    obtain ⟨a, ha, hsize⟩ := hkept g a₀ ha₀
    exact ⟨hpos, a, ha, hsize ▸ hle⟩
  · dsimp only
    rw [htaken.waiting]
    exact h.order.sublist (keys_erase_sublist _ _)

lemma QueueOk.enqueue (counts : UMap κ ℤ) :
    QueueOk numSlots { s with queue := (s.queue.enqueue counts).2 } := by
  rw [SlotQueue.enqueue]
  cases hw : s.queue.checkedCounts counts.entries ∅ with
  | error e => exact h
  | ok w =>
    have hgrant : s.queue.Grantable w :=
      checkedCounts_grantable (fun g c hc => by rw [find?_empty] at hc; cases hc) hw
    have hfresh : s.queue.nextTicket ∉ s.queue.waiting := fun hmem => by
      obtain ⟨w', hw'⟩ := mem_iff_find?.mp hmem
      exact lt_irrefl _ (h.wanted _ w' hw').1
    refine ⟨h.sizes, h.canonical, h.free_iff, h.held, fun t w' hw' => ?_, ?_⟩
    · dsimp only at hw' ⊢
      rw [find?_assign] at hw'
      split_ifs at hw' with heq
      · obtain rfl := some.inj hw'
        exact ⟨heq ▸ lt_succ_self _, hgrant⟩
      · exact ⟨lt_succ_of_lt (h.wanted t w' hw').1, (h.wanted t w' hw').2⟩
    · dsimp only
      rw [keys_assign_of_not_mem w hfresh, pairwise_append]
      refine ⟨h.order, pairwise_singleton _ _, fun t ht t' ht' => ?_⟩
      obtain ⟨w', hw'⟩ := mem_iff_find?.mp ht
      exact mem_singleton.mp ht' ▸ (h.wanted t w' hw').1

lemma QueueOk.cancel (ticket : ℕ) : QueueOk numSlots { s with queue := s.queue.cancel ticket } := by
  refine ⟨h.sizes, h.canonical, h.free_iff, h.held, fun t w hw => ?_, ?_⟩
  · rw [SlotQueue.cancel, find?_erase] at hw
    split_ifs at hw with hne
    exact h.wanted t w hw
  · exact h.order.sublist (keys_erase_sublist _ _)

end

/-- Every run is of a group, and if it is not empty it lies inside the group and a grant holds every
slot of it. -/
def Holds (s : Held κ) (runs : UMap κ (ℤ × ℤ)) : Prop :=
  ∀ g start count, runs.find? g = some (start, count) → ∃ a, s.queue.allocators.find? g = some a
    ∧ (count ≠ 0 → 0 ≤ start ∧ 0 < count ∧ start + count ≤ a.numSlots
      ∧ ∀ k : ℕ, start ≤ k → (k : ℤ) < start + count → s.owner g k ≠ none)

section

variable (h : QueueOk numSlots s)
include h

/-- The check of a run is passed if and only if its slots are held. -/
lemma QueueOk.checkRun_eq_none_iff {start count : ℤ} :
    s.queue.checkRun g start count = none ↔ ∃ a, s.queue.allocators.find? g = some a
      ∧ (count ≠ 0 → 0 ≤ start ∧ 0 < count ∧ start + count ≤ a.numSlots
        ∧ ∀ k : ℕ, start ≤ k → (k : ℤ) < start + count → s.owner g k ≠ none) := by
  rw [checkRun]
  cases ha : s.queue.allocators.find? g with
  | none => simp
  | some a =>
    simp only [some.injEq, exists_eq_left']
    by_cases hcount : count = 0
    · simp [hcount]
    · simp only [ne_eq, hcount, not_false_eq_true, true_and, forall_const]
      by_cases hin : 0 ≤ start ∧ 0 < count ∧ start + count ≤ a.numSlots
      · rw [if_neg (by omega)]
        have hfree : overlaps start.toNat count.toNat a.free = false
            ↔ ∀ k, start.toNat ≤ k → k < start.toNat + count.toNat → ¬ Has a.free k :=
          not_overlaps_iff (h.canonical g a ha).pos (by omega)
        have hheld : (overlaps start.toNat count.toNat a.free = false)
            ↔ ∀ k : ℕ, start ≤ k → (k : ℤ) < start + count → s.owner g k ≠ none := by
          rw [hfree]
          refine forall_congr' fun k => ?_
          rw [h.free_iff g a ha k]
          constructor
          · intro hnot hle hlt hnone
            exact hnot (by omega) (by omega) ⟨by omega, hnone⟩
          · rintro hsome hle hlt ⟨-, hnone⟩
            exact hsome (by omega) (by omega) hnone
        rw [← hheld]
        cases overlaps start.toNat count.toNat a.free with
        | false => simp [hin]
        | true => simp
      · rw [if_pos (by omega)]
        simp only [reduceCtorEq, false_iff]
        exact fun hall => hin ⟨hall.1, hall.2.1, hall.2.2.1⟩

/-- **A return succeeds if and only if every slot of its runs is held**; otherwise it changes
nothing. -/
lemma QueueOk.giveBack_cases (runs : UMap κ (ℤ × ℤ)) : Holds s runs ∧ s.queue.giveBack runs
      = (.ok (), runs.entries.foldl (fun q r => q.giveRun r.1 r.2.1 r.2.2) s.queue)
    ∨ ¬ Holds s runs ∧ ∃ e, s.queue.giveBack runs = (.error e, s.queue) := by
  rw [giveBack]
  cases hfirst : runs.entries.findSome? fun r => s.queue.checkRun r.1 r.2.1 r.2.2 with
  | none =>
    refine .inl ⟨fun g start count hfind => ?_, rfl⟩
    rw [findSome?_eq_none_iff] at hfirst
    exact h.checkRun_eq_none_iff.mp (hfirst _ (find?_eq_some_iff.mp hfind))
  | some e =>
    refine .inr ⟨fun hall => ?_, e, rfl⟩
    obtain ⟨r, hr, hbad⟩ := exists_of_findSome?_eq_some hfirst
    rw [h.checkRun_eq_none_iff.mpr (hall r.1 r.2.1 r.2.2 (find?_eq_some_iff.mpr hr))] at hbad
    cases hbad

/-- **A return keeps the invariant.** -/
lemma QueueOk.given {runs : UMap κ (ℤ × ℤ)} (hruns : Holds s runs) :
    QueueOk numSlots ⟨runs.entries.foldl (fun q r => q.giveRun r.1 r.2.1 r.2.2) s.queue,
      fun g k => if InRuns runs g k then none else s.owner g k⟩ := by
  obtain ⟨hgiven, hothers, hwaiting, hticket⟩ := find?_giveAll (q := s.queue) runs.nodup
  set q' := runs.entries.foldl (fun q r => q.giveRun r.1 r.2.1 r.2.2) s.queue
  -- one group: its slots that are in the run are free, the others as before
  have hgroup : ∀ g, (s.queue.allocators.find? g = none ∧ q'.allocators.find? g = none)
      ∨ ∃ a free, s.queue.allocators.find? g = some a
        ∧ q'.allocators.find? g = some { a with free := free } ∧ Canonical free
        ∧ ∀ k, Has free k ↔ Has a.free k ∨ InRuns runs g k := by
    intro g
    cases hrun : runs.find? g with
    | none =>
      have heq := hothers g (find?_eq_none_iff.mp hrun)
      cases ha : s.queue.allocators.find? g with
      | none => exact .inl ⟨rfl, heq.trans ha⟩
      | some a =>
        refine .inr ⟨a, a.free, rfl, heq.trans ha, h.canonical g a ha, fun k => ?_⟩
        simp [InRuns, hrun]
    | some run =>
      obtain ⟨start, count⟩ := run
      obtain ⟨a, ha, hheld⟩ := hruns g start count hrun
      have heq := hgiven g start count (find?_eq_some_iff.mp hrun)
      rw [ha] at heq
      have hin : ∀ k : ℕ, InRuns runs g k ↔ start.toNat ≤ k ∧ k < start.toNat + count.toNat := by
        intro k
        simp only [InRuns, hrun, some.injEq, exists_eq_left']
        by_cases hcount : count = 0
        · subst hcount
          constructor
          · rintro ⟨hle, hlt⟩
            omega
          · rintro ⟨hle, hlt⟩
            exact absurd hlt (by simpa using hle)
        · obtain ⟨h0, hpos, -, -⟩ := hheld hcount
          omega
      refine .inr ⟨a, _, ha, heq, give_canonical (h.canonical g a ha) fun k hle hlt hfree => ?_,
        fun k => ?_⟩
      · by_cases hcount : count = 0
        · subst hcount
          exact absurd hlt (by simpa using hle)
        · obtain ⟨h0, hpos, -, howned⟩ := hheld hcount
          exact howned k (by omega) (by omega) ((h.free_iff g a ha k).mp hfree).2
      · rw [give_has, hin k]
  refine ⟨fun g => ?_, fun g a' ha' => ?_, fun g a' ha' k => ?_, fun g k hheld => ?_,
    fun t w hw => ?_, ?_⟩
  · rw [← h.sizes g]
    rcases hgroup g with ⟨hnone, hnone'⟩ | ⟨a, free, ha, ha', -, -⟩
    · dsimp only
      rw [hnone, hnone']
    · dsimp only
      rw [ha, ha']
      rfl
  · rcases hgroup g with ⟨-, hnone⟩ | ⟨a, free, -, ha, hcan, -⟩
    · rw [hnone] at ha'
      cases ha'
    · obtain rfl := some.inj (ha'.symm.trans ha)
      exact hcan
  · rcases hgroup g with ⟨-, hnone⟩ | ⟨a, free, ha, hfind, -, hhas⟩
    · rw [hnone] at ha'
      cases ha'
    · obtain rfl := some.inj (ha'.symm.trans hfind)
      rw [hhas k, h.free_iff g a ha k]
      dsimp only
      split_ifs with hk
      · have hlt : k < a.numSlots := by
          obtain ⟨run, hrun, hle, hend⟩ := hk
          obtain ⟨a₁, ha₁, hheld⟩ := hruns g run.1 run.2 hrun
          obtain rfl := some.inj (ha.symm.trans ha₁)
          have hcount : run.2 ≠ 0 := by omega
          have := (hheld hcount).2.2.1
          omega
        simp [hk, hlt]
      · simp [hk]
  · dsimp only at hheld
    split_ifs at hheld with hk
    · exact absurd rfl hheld
    · obtain ⟨a, ha, hlt⟩ := h.held g k hheld
      rcases hgroup g with ⟨hnone, -⟩ | ⟨a₁, free, ha₁, ha', -, -⟩
      · rw [hnone] at ha
        cases ha
      · obtain rfl := some.inj (ha.symm.trans ha₁)
        exact ⟨_, ha', hlt⟩
  · dsimp only at hw ⊢
    rw [hwaiting] at hw
    obtain ⟨hlt, hgrant⟩ := h.wanted t w hw
    refine ⟨hticket ▸ hlt, fun g c hc => ?_⟩
    obtain ⟨hpos, a, ha, hle⟩ := hgrant g c hc
    rcases hgroup g with ⟨hnone, -⟩ | ⟨a₁, free, ha₁, ha', -, -⟩
    · rw [hnone] at ha
      cases ha
    · obtain rfl := some.inj (ha.symm.trans ha₁)
      exact ⟨hpos, _, ha', hle⟩
  · dsimp only
    rw [hwaiting]
    exact h.order

/-- **Every call keeps the invariant.** -/
lemma QueueOk.step (call : Call κ) : QueueOk numSlots (SlotQueue.step s call).2 := by
  cases call with
  | enqueue counts => exact h.enqueue counts
  | cancel ticket => exact h.cancel ticket
  | tryGrant ticket =>
    rw [SlotQueue.step]
    rcases h.tryGrant_cases ticket with ⟨-, heq⟩ | ⟨w, -, -, heq⟩
      | ⟨w, starts, q', hw, -, -, htaken, heq⟩
    · rw [heq]
      exact h
    · rw [heq]
      exact h
    · rw [heq]
      exact h.taken hw htaken
  | giveBack runs =>
    rw [SlotQueue.step]
    rcases h.giveBack_cases runs with ⟨hruns, heq⟩ | ⟨-, e, heq⟩
    · rw [heq]
      exact h.given hruns
    · rw [heq]
      exact h

end

/-- A new queue has one free run of every group that has a slot. -/
lemma queueOk_init (numSlots : UMap κ ℕ) : QueueOk numSlots (init numSlots) := by
  have hfind : ∀ g a, (init numSlots).queue.allocators.find? g = some a → ∃ n,
      a = RunAllocator.new n := by
    intro g a ha
    rw [init, new, find?_mapVal] at ha
    obtain ⟨n, -, rfl⟩ := map_eq_some_iff.mp ha
    exact ⟨n, rfl⟩
  refine ⟨fun g => ?_, fun g a ha => ?_, fun g a ha k => ?_, fun g k hheld => absurd rfl hheld,
    fun t w hw => ?_, List.Pairwise.nil⟩
  · rw [init, new, find?_mapVal, Option.map_map]
    exact Option.map_id'
  · obtain ⟨n, rfl⟩ := hfind g a ha
    rw [RunAllocator.new]
    split_ifs with hn
    · exact ⟨fun r hr => by rw [mem_singleton.mp hr]; exact Nat.pos_of_ne_zero hn,
        pairwise_singleton _ _⟩
    · exact ⟨fun r hr => absurd hr not_mem_nil, List.Pairwise.nil⟩
  · obtain ⟨n, rfl⟩ := hfind g a ha
    rw [RunAllocator.new]
    split_ifs with hn
    · simp [Run.Has, init]
    · obtain rfl := not_not.mp hn
      simp
  · rw [init, new, find?_empty] at hw
    cases hw

theorem queueOk_run (numSlots : UMap κ ℕ) (calls : List (Call κ)) :
    QueueOk numSlots (Machine.run SlotQueue.step (init numSlots) calls).2 :=
  Machine.run_invariant (I := QueueOk numSlots) (queueOk_init numSlots)
    (fun _ call h => h.step call) calls

/-! ### The first in line -/

/-- The first key is the oldest ticket. -/
lemma QueueOk.oldest (h : QueueOk numSlots s) (hhead : s.queue.waiting.keys.head? = some ticket)
    {t : ℕ} (ht : t ∈ s.queue.waiting) : ticket ≤ t := by
  have hmem : t ∈ s.queue.waiting.keys := ht
  have horder := h.order
  cases hkeys : s.queue.waiting.keys with
  | nil =>
    rw [hkeys] at hhead
    cases hhead
  | cons t₀ keys =>
    rw [hkeys] at hhead hmem horder
    obtain rfl := some.inj hhead
    rcases mem_cons.mp hmem with rfl | hmem
    · exact le_refl _
    · exact (rel_of_pairwise_cons horder hmem).le

/-- Free runs that are canonical and have every slot are one run. -/
lemma exists_long {free : List Run} {n c : ℕ} (hfree : Canonical free) (h : ∀ k, Has free k ↔ k < n)
    (hc : 0 < c) (hle : c ≤ n) : ∃ r ∈ free, c ≤ r.2 := by
  cases free with
  | nil => exact absurd ((h 0).mpr (by omega)) (has_nil 0)
  | cons r free =>
    refine ⟨r, mem_cons_self, ?_⟩
    have hstart : r.1 = 0 := by
      rcases (has_cons r free 0).mp ((h 0).mpr (by omega)) with hr | hr
      · exact le_zero.mp hr.1
      · exact absurd (hfree.lt_of_has hr) (Nat.not_lt_zero _)
    by_contra hshort
    -- the slot after the first run is in none
    rcases (has_cons r free (r.1 + r.2)).mp ((h _).mpr (by omega)) with hr | hr
    · exact lt_irrefl _ hr.2
    · exact lt_irrefl _ (hfree.lt_of_has hr)

/-- **When nothing is held, what a waiting ticket wants fits.** -/
lemma QueueOk.fits_of_unheld (h : QueueOk numSlots s) (hunheld : ∀ g k, s.owner g k = none)
    (hw : s.queue.waiting.find? ticket = some w) : s.queue.Fits w := by
  intro g c hc
  obtain ⟨hpos, a, ha, hle⟩ := (h.wanted ticket w hw).2 g c hc
  refine ⟨a, ha, exists_long (h.canonical g a ha) (fun k => ?_) hpos hle⟩
  rw [h.free_iff g a ha k, hunheld g k]
  exact and_iff_left rfl

end SlotQueue

end TrtLlm
