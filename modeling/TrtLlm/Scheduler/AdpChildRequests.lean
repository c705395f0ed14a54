import TrtLlm.Scheduler.AdpDefault

/-!
Child requests under the default router.

`get_from_waiting_queue` charges an item with its own request and those of its children, but the
router counts an item as one request of its rank. So the caps of the ranks hold after the items
are expanded exactly for the queues whose items carry no children: for every other queue there
are ranks with free slots for all requests that are popped, one of which is overfilled.

* `WithinCaps`: the caps after a round of `pop_requests` and `route_requests`;
* `withinCaps_iff`: **the queues for which the caps hold** whatever the ranks are.
-/

namespace TrtLlm.Scheduler

open List

variable {n : ℕ}

/-- The requests of a rank after its items are expanded into a request and its children. -/
def expandedLoad (states : Fin (n + 1) → RankState)
    (assigned : Fin (n + 1) → List (RequestQueueItem n)) (r : Fin (n + 1)) : ℕ :=
  activeRequests states r + requestCount (assigned r)

section

variable (states : Fin (n + 1) → RankState) (cap : ℕ) (queue : List (RequestQueueItem n))

/-- The requests that are popped for all free slots. -/
def popFreeSlots : List (RequestQueueItem n) :=
  (getFromWaitingQueue queue (Bins.room cap (activeRequests states)) cap
    (activeRequests states)).1

/-- After a round, no rank holds more requests than it may, nor more than the target. -/
def WithinCaps :
    Prop :=
  ∃ assigned expected, defaultRoute states (popFreeSlots states cap queue) cap
      = some (assigned, expected)
    ∧ ∀ r, expandedLoad states assigned r ≤ cap ∧ expandedLoad states assigned r ≤ expected

end

lemma requestCount_eq_length {items : List (RequestQueueItem n)}
    (h : ∀ item ∈ items, item.childReqIds = []) : requestCount items = items.length := by
  induction items with
  | nil => rfl
  | cons item items ih =>
    have hrest := ih fun x hx => h x (mem_cons_of_mem _ hx)
    rw [requestCount] at hrest
    rw [requestCount, map_cons, sum_cons, hrest, length_cons,
      RequestQueueItem.numRequests, h item mem_cons_self]
    simp [Nat.add_comm]

/-- What is popped is placed by the router. -/
lemma popFreeSlots_routed (states : Fin (n + 1) → RankState) (cap : ℕ)
    (queue : List (RequestQueueItem n)) (hload : ∀ r, activeRequests states r ≤ cap) :
    (popFreeSlots states cap queue).Sublist queue
    ∧ ∃ assigned expected, defaultRoute states (popFreeSlots states cap queue) cap
        = some (assigned, expected)
      ∧ Routed states cap (popFreeSlots states cap queue) assigned expected := by
  obtain ⟨hsub, hbudget, hstrict⟩ := getFromWaitingQueue_spec queue
    (Bins.room cap (activeRequests states)) cap (activeRequests states) hload
  rw [Int.toNat_natCast] at hbudget
  obtain ⟨assigned, expected, hroute, hrouted, -⟩ := defaultRoute_spec states
    (popFreeSlots states cap queue) cap hload
    ((length_le_requestCount _).trans hbudget) hstrict
  exact ⟨hsub, assigned, expected, hroute, hrouted⟩

/-- Without children the caps hold. -/
lemma withinCaps_of_childless {states : Fin (n + 1) → RankState} {cap : ℕ}
    {queue : List (RequestQueueItem n)} (hload : ∀ r, activeRequests states r ≤ cap)
    (hchild : ∀ item ∈ queue, item.childReqIds = []) : WithinCaps states cap queue := by
  obtain ⟨hsub, assigned, expected, hroute, hrouted⟩ := popFreeSlots_routed states cap queue hload
  refine ⟨assigned, expected, hroute, fun r => ?_⟩
  have hcount : requestCount (assigned r) = (assigned r).length := by
    refine requestCount_eq_length fun item hitem => hchild item (hsub.subset ?_)
    have hmem : item ∈ Bins.total assigned := Bins.mem_total.mpr ⟨r, hitem⟩
    rwa [hrouted.total, Multiset.mem_coe] at hmem
  have hle : expandedLoad states assigned r ≤ expected := by
    rw [expandedLoad, hcount]
    exact hrouted.load_le r
  exact ⟨hle.trans hrouted.expected_le, hle⟩

/-! ### Queues with children -/

/-- A queue of such items with the given numbers of children, and ids from `id` on. -/
def plainQueue (n : ℕ) : ℕ → List ℕ → List (RequestQueueItem n)
  | _, [] => []
  | id, c :: children => plainItem n id c :: plainQueue n (id + 1) children

lemma childCounts_plainQueue (n id : ℕ) (children : List ℕ) :
    (plainQueue n id children).map (fun item => item.childReqIds.length) = children := by
  induction children generalizing id with
  | nil => rfl
  | cons c children ih =>
    rw [plainQueue, map_cons, ih]
    simp [plainItem]

/-- An item is popped if the items before it and the item itself fit the budget. -/
lemma mem_popLoop_plain (cap : ℕ) (before after : List ℕ) (c id : ℕ) (budget : ℤ) (reqCount : ℕ)
    (load : Fin (n + 1) → ℕ)
    (hfits : ((reqCount + (before.map (1 + ·)).sum + (1 + c) : ℕ) : ℤ) ≤ budget) :
    plainItem n (id + before.length) c
      ∈ (popLoop budget cap (plainQueue n id (before ++ c :: after)) reqCount load).1 := by
  induction before generalizing id reqCount with
  | nil =>
    have hgo : ¬(¬(reqCount : ℤ) < budget
        ∨ budget < reqCount + ((plainItem n id c).numRequests : ℕ)) := by
      simp only [RequestQueueItem.numRequests, plainItem, length_replicate]
      omega
    rw [nil_append, plainQueue, popLoop, if_neg hgo]
    exact mem_cons_self
  | cons b before ih =>
    rw [map_cons, sum_cons] at hfits
    have hgo : ¬(¬(reqCount : ℤ) < budget
        ∨ budget < reqCount + ((plainItem n id b).numRequests : ℕ)) := by
      simp only [RequestQueueItem.numRequests, plainItem, length_replicate]
      omega
    rw [cons_append, plainQueue, popLoop, if_neg hgo, length_cons, Nat.add_comm before.length,
      ← Nat.add_assoc]
    refine mem_cons_of_mem _ (ih _ _ ?_)
    simp only [RequestQueueItem.numRequests, plainItem, length_replicate]
    omega

/-- Ranks of one slot each, just enough for the first item with children and those before it: the
rank that gets this item is overfilled. -/
lemma not_withinCaps_of_children (before after : List ℕ) {c : ℕ} (hc : 0 < c)
    (hbefore : ∀ b ∈ before, b = 0) :
    ¬WithinCaps (fun _ : Fin (before.length + c + 1) => ⟨0, 0⟩) 1
      (plainQueue (before.length + c) 0 (before ++ c :: after)) := by
  set states : Fin (before.length + c + 1) → RankState := fun _ => ⟨0, 0⟩ with hstates
  set queue := plainQueue (before.length + c) 0 (before ++ c :: after) with hqueue
  rintro ⟨assigned, expected, hroute, hcaps⟩
  obtain ⟨-, assigned', expected', hroute', hrouted⟩ := popFreeSlots_routed states 1 queue
    fun r => Nat.zero_le 1
  rw [hroute, Option.some.injEq, Prod.mk.injEq] at hroute'
  obtain ⟨rfl, rfl⟩ := hroute'
  have hroom : Bins.room 1 (activeRequests states) = before.length + c + 1 := by
    simp [Bins.room, activeRequests, hstates]
  have hsum : (before.map (1 + ·)).sum = before.length := by
    have hone : before.map (1 + ·) = before.map fun _ => 1 :=
      map_congr_left fun b hb => by rw [hbefore b hb]
    rw [hone]
    simp
  have hpopped : plainItem (before.length + c) (0 + before.length) c
      ∈ popFreeSlots states 1 queue := by
    have hpos : ¬((Bins.room 1 (activeRequests states) : ℕ) : ℤ) ≤ 0 := by
      rw [hroom]
      omega
    rw [popFreeSlots, getFromWaitingQueue, if_neg hpos]
    refine mem_popLoop_plain 1 before after c 0 _ 0 _ ?_
    rw [hroom, hsum]
    omega
  rw [← Multiset.mem_coe, ← hrouted.total, Bins.mem_total] at hpopped
  obtain ⟨r, hr⟩ := hpopped
  have hle : (plainItem (before.length + c) (0 + before.length) c).numRequests
      ≤ requestCount (assigned r) :=
    single_le_sum (fun x _ => Nat.zero_le x) _ (mem_map_of_mem hr)
  have hmany : (plainItem (before.length + c) (0 + before.length) c).numRequests = 1 + c := by
    simp [RequestQueueItem.numRequests, plainItem]
  have hcap := (hcaps r).1
  rw [expandedLoad] at hcap
  omega

/-- **The queues for which the caps hold** after the expansion, whatever the number of ranks,
their loads, the cap and the rest of the items: those whose items carry no children. -/
theorem withinCaps_iff (children : List ℕ) :
    (∀ (n cap : ℕ) (states : Fin (n + 1) → RankState) (queue : List (RequestQueueItem n)),
      (∀ r, activeRequests states r ≤ cap) →
      queue.map (fun item => item.childReqIds.length) = children → WithinCaps states cap queue)
    ↔ ∀ c ∈ children, c = 0 := by
  constructor
  · intro h
    by_contra hne
    push Not at hne
    obtain ⟨c, hmem, hc⟩ := hne
    -- the first item with children
    have hsome : (children.find? fun c => decide (c ≠ 0)).isSome := by
      rw [find?_isSome]
      exact ⟨c, hmem, by simpa using hc⟩
    obtain ⟨first, hfirst⟩ := Option.isSome_iff_exists.mp hsome
    obtain ⟨hpos, before, after, rfl, hbefore⟩ := find?_eq_some_iff_append.mp hfirst
    refine not_withinCaps_of_children before after (Nat.pos_of_ne_zero (by simpa using hpos))
      (fun b hb => by simpa using hbefore b hb) (h _ 1 _ _ (fun r => Nat.zero_le 1)
        (childCounts_plainQueue _ 0 _))
  · intro hzero n cap states queue hload hchild
    refine withinCaps_of_childless hload fun item hitem => ?_
    have hmem : item.childReqIds.length ∈ children :=
      hchild ▸ mem_map_of_mem (f := fun item => item.childReqIds.length) hitem
    exact length_eq_zero_iff.mp (hzero _ hmem)

/-- Two idle ranks with one slot each, and an item with one child: both requests are popped for
the two free slots and go to the same rank. -/
theorem not_withinCaps_oneChild : ¬WithinCaps (fun _ : Fin 2 => ⟨0, 0⟩) 1 (plainQueue 1 0 [1]) :=
  not_withinCaps_of_children [] [] Nat.one_pos fun _ hb => absurd hb not_mem_nil

end TrtLlm.Scheduler
