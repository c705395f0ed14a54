import TrtLlm.Scheduler.AdpChildRequests
import TrtLlm.Scheduler.AdpKvAware
import TrtLlm.Scheduler.AdpKvBalanced
import TrtLlm.Scheduler.AdpConversation

/-!
A round of attention-DP routing: `pop_requests` and then `route_requests`, for each of the three
routers.

* `adpRouters_round`: **every popped request is placed once within the caps**, from every state of
  the router;
* `conversation_dropped`: a conversation that is bound before the call may lose its binding to the
  session limit before its turn comes, and then lands on another rank.
-/

namespace TrtLlm.Scheduler

open Option

variable {n : ℕ}

/-- What a round promises: nothing is lost from the queue, every popped item goes to one rank, and
no rank ends above the target, children included, which is within the cap. -/
structure RoundWithin (queue : WaitingQueue n) (states : Fin (n + 1) → RankState) (cap : ℕ)
    (popped rest : List (RequestQueueItem n))
    (assigned : Fin (n + 1) → List (RequestQueueItem n)) (expected : ℕ) : Prop where
  perm : (popped ++ rest).Perm queue.items
  total : Bins.total assigned = popped
  load_le : ∀ r, expandedLoad states assigned r ≤ expected
  expected_le : expected ≤ cap

/-- The strict requests land on their ranks. -/
def StrictPlaced (popped : List (RequestQueueItem n))
    (assigned : Fin (n + 1) → List (RequestQueueItem n)) : Prop :=
  ∀ item ∈ popped, ∀ r, item.StrictTo r → item ∈ assigned r

/-- `ADPRouter.pop_requests`: the requests to admit and the queue after it. -/
def popRequests (queue : WaitingQueue n) (states : Fin (n + 1) → RankState) (maxNewRequests : ℤ)
    (cap : ℕ) : List (RequestQueueItem n) × List (RequestQueueItem n) :=
  getFromWaitingQueue queue.items maxNewRequests cap (activeRequests states)

/-- A round of the KV-aware router; the prefix matches are gathered between the two calls. -/
def KvAwareRouter.round (router : KvAwareRouter n) (shuffle : SeededShuffle n)
    (prefixMatches : List (RequestQueueItem n) → List (UMap ℕ ℕ)) (queue : WaitingQueue n)
    (states : Fin (n + 1) → RankState) (maxNewRequests : ℤ) (cap : ℕ) :
    Option (((Fin (n + 1) → List (RequestQueueItem n)) × ℕ) × KvAwareRouter n) :=
  let popped := (popRequests queue states maxNewRequests cap).1
  { router with allRanksPrefixMatches := prefixMatches popped }.route shuffle states popped cap

/-- A round of the conversation router. -/
def ConversationRouter.round (router : ConversationRouter n) (queue : WaitingQueue n)
    (states : Fin (n + 1) → RankState) (maxNewRequests : ℤ) (cap : ℕ) :
    Option (((Fin (n + 1) → List (RequestQueueItem n)) × ℕ) × ConversationRouter n) :=
  router.route states (popRequests queue states maxNewRequests cap).1 cap

section Round

variable {states : Fin (n + 1) → RankState} {cap : ℕ} {maxNewRequests : ℤ}

lemma Routed.roundWithin {queue : WaitingQueue n} {popped rest : List (RequestQueueItem n)}
    {assigned : Fin (n + 1) → List (RequestQueueItem n)} {expected : ℕ}
    (h : Routed states cap popped assigned expected) (hperm : (popped ++ rest).Perm queue.items)
    (hchild : ∀ item ∈ queue.items, item.childReqIds = []) :
    RoundWithin queue states cap popped rest assigned expected where
  perm := hperm
  total := h.total
  load_le r := by
    have hcount : requestCount (assigned r) = (assigned r).length := by
      refine requestCount_eq_length fun item hitem => hchild item (hperm.mem_iff.mp ?_)
      have hmem : item ∈ Bins.total assigned := Bins.mem_total.mpr ⟨r, hitem⟩
      rw [h.total, Multiset.mem_coe] at hmem
      exact List.mem_append_left _ hmem
    rw [expandedLoad, hcount]
    exact h.load_le r
  expected_le := h.expected_le

/-- What is popped fits the free slots, and the strict requests fit their ranks. -/
lemma popRequests_fits (queue : WaitingQueue n) (hload : ∀ r, activeRequests states r ≤ cap)
    (hmax : maxNewRequests ≤ Bins.room cap (activeRequests states)) :
    (popRequests queue states maxNewRequests cap).1.length
        ≤ Bins.room cap (activeRequests states)
    ∧ ∀ r, activeRequests states r
        + strictCount (popRequests queue states maxNewRequests cap).1 r ≤ cap := by
  obtain ⟨-, hbudget, hstrict⟩ := getFromWaitingQueue_spec queue.items maxNewRequests cap
    (activeRequests states) hload
  refine ⟨?_, hstrict⟩
  have hlen := length_le_requestCount (popRequests queue states maxNewRequests cap).1
  rw [popRequests] at hlen ⊢
  omega

end Round

/-- **Attention-DP routing.** For every number of ranks with free slots for the new requests and
every queue of items without children, from every state of the router: a round raises nothing,
places every popped request once, and leaves no rank above the target, which is within the cap.
The default and the KV-aware router place strict requests on their rank. With the conversation
router, a request whose conversation is bound when its turn comes lands on that rank unless the
rank is full then; this is the binding from before the call as long as the session limit drops
none. -/
theorem adpRouters_round (queue : WaitingQueue n) (states : Fin (n + 1) → RankState) (cap : ℕ)
    (maxNewRequests : ℤ) (hload : ∀ r, activeRequests states r ≤ cap)
    (hchild : ∀ item ∈ queue.items, item.childReqIds = [])
    (hmax : maxNewRequests ≤ Bins.room cap (activeRequests states)) :
    (∀ (router : DefaultRouter) (kvBalance : Bool), ∃ popped assigned expected,
      router.popRequests queue states maxNewRequests cap kvBalance = some popped
      ∧ DefaultRouter.routeRequests states popped.requests cap popped.placement
        = some (assigned, expected)
      ∧ RoundWithin queue states cap popped.requests popped.queue assigned expected
      ∧ StrictPlaced popped.requests assigned)
    ∧ (∀ (router : KvAwareRouter n) (shuffle : SeededShuffle n)
        (prefixMatches : List (RequestQueueItem n) → List (UMap ℕ ℕ)),
          1 ≤ router.fairShareMultiplier →
        ∃ assigned expected router',
          router.round shuffle prefixMatches queue states maxNewRequests cap
            = some ((assigned, expected), router')
          ∧ RoundWithin queue states cap (popRequests queue states maxNewRequests cap).1
            (popRequests queue states maxNewRequests cap).2 assigned expected
          ∧ StrictPlaced (popRequests queue states maxNewRequests cap).1 assigned)
    ∧ ∀ router : ConversationRouter n, ∃ assigned expected router',
        router.round queue states maxNewRequests cap = some ((assigned, expected), router')
        ∧ RoundWithin queue states cap (popRequests queue states maxNewRequests cap).1
          (popRequests queue states maxNewRequests cap).2 assigned expected
        ∧ (∀ before item after,
          (router.firstPass states (popRequests queue states maxNewRequests cap).1 cap).2
            = before ++ item :: after →
          ∃ t, ConversationRouter.loop cap
              (router.softCap states (popRequests queue states maxNewRequests cap).1 cap) before
              (router.loopStart states (popRequests queue states maxNewRequests cap).1 cap) = some t
            ∧ ∀ rank, t.router.boundRank item = some rank →
              item ∈ assigned rank ∨ cap ≤ t.bins.load rank)
        ∧ ((router.convToRank.keys.toFinset
              ∪ ((popRequests queue states maxNewRequests cap).1.filterMap
                RequestQueueItem.conversationKey).toFinset).card ≤ router.maxSessions →
          ∀ item ∈ (popRequests queue states maxNewRequests cap).1, ∀ rank,
            router.boundRank item = some rank →
            item ∈ assigned rank ∨ cap ≤ activeRequests states rank + (assigned rank).length) := by
  obtain ⟨hfits, hstrict⟩ := popRequests_fits queue hload hmax
  have hperm : ((popRequests queue states maxNewRequests cap).1
      ++ (popRequests queue states maxNewRequests cap).2).Perm queue.items :=
    getFromWaitingQueue_perm ..
  refine ⟨fun router kvBalance => ?_, fun router shuffle prefixMatches hm => ?_, fun router => ?_⟩
  · obtain ⟨popped, assigned, expected, hpop, hroute, hround⟩ :=
      DefaultRouter.round_spec queue states cap router maxNewRequests kvBalance hload hmax
    exact ⟨popped, assigned, expected, hpop, hroute, hround.routed.roundWithin hround.perm hchild,
      hround.strict⟩
  · obtain ⟨assigned, expected, router', hroute, hrouted, hplaced⟩ := KvAwareRouter.route_spec
      { router with
        allRanksPrefixMatches := prefixMatches (popRequests queue states maxNewRequests cap).1 }
      shuffle states _ cap hload hfits hstrict hm
    exact ⟨assigned, expected, router', hroute, hrouted.roundWithin hperm hchild, hplaced⟩
  · obtain ⟨assigned, expected, router', hroute, hrouted⟩ :=
      router.route_spec states _ cap hload hfits
    refine ⟨assigned, expected, router', hroute, hrouted.roundWithin hperm hchild, ?_, ?_⟩
    · intro before item after hrest
      obtain ⟨t, s, ht, hs, -, hsticky⟩ := router.route_sticky states _ cap hload hfits hrest
      rw [ConversationRouter.route, hs, map_some, some.injEq, Prod.mk.injEq,
        Prod.mk.injEq] at hroute
      obtain ⟨⟨rfl, -⟩, -⟩ := hroute
      exact ⟨t, ht, hsticky⟩
    · intro hsessions item hitem rank hbound
      obtain ⟨assigned', expected', router'', hroute', hhome⟩ := router.route_home states _ cap
        hload hfits hsessions hitem hbound
      rw [hroute, some.injEq, Prod.mk.injEq, Prod.mk.injEq] at hroute'
      obtain ⟨⟨rfl, -⟩, -⟩ := hroute'
      exact hhome

/-- A request of a conversation. -/
def conversationItem (id : ℕ) (convId : String) : RequestQueueItem 1 :=
  { plainItem 1 id 0 with conversationId := some convId }

/-- A queue of one group. -/
def conversationQueue (convIds : List (ℕ × String)) (h : (convIds.map Prod.fst).Nodup) :
    WaitingQueue 1 where
  items := convIds.map fun e => conversationItem e.1 e.2
  ids_nodup := by
    rw [List.map_map]
    exact h
  admissionGroups _ _ := 0

local instance (priority := 2000) twoRanks_ne : NeZero (1 + 1) := ⟨Nat.succ_ne_zero 1⟩

/-- Two ranks of which the first has the given number of requests, of one token each. -/
def firstRankBusy (active : ℕ) (r : Fin 2) : RankState :=
  if r = 0 then ⟨active, active⟩ else ⟨0, 0⟩

/-- A round of three requests on two ranks with three slots each, one of which is taken. -/
theorem adpRouters_round_threeRequests : ∃ assigned expected router',
      (ConversationRouter.init 1 1 1 "round_robin").round
          (conversationQueue [(1, "b"), (2, "c"), (3, "a")] (by decide)) (firstRankBusy 1) 3 3
        = some ((assigned, expected), router')
      ∧ ∀ r, expandedLoad (firstRankBusy 1) assigned r ≤ 3 := by
  obtain ⟨assigned, expected, router', hround, hwithin, -⟩ := (adpRouters_round
    (conversationQueue [(1, "b"), (2, "c"), (3, "a")] (by decide)) (firstRankBusy 1) 3 3
    (by decide) (by decide) (by decide)).2.2 (ConversationRouter.init 1 1 1 "round_robin")
  exact ⟨assigned, expected, router', hround, fun r =>
    (hwithin.load_le r).trans hwithin.expected_le⟩

/-- The outcome of two rounds with a session limit of one: the first binds conversation `a` to
rank 0, the second handles two other conversations before it. -/
def droppedBinding : Option Bool :=
  ((ConversationRouter.init 1 1 1 "round_robin").round
      (conversationQueue [(0, "a")] (by decide)) (firstRankBusy 0) 3 3).bind fun first =>
    (first.2.round (conversationQueue [(1, "b"), (2, "c"), (3, "a")] (by decide))
      (firstRankBusy 1) 3 3).map fun second =>
        decide (first.2.boundRank (conversationItem 3 "a") = some 0
          ∧ conversationItem 3 "a" ∉ second.1.1 0
          ∧ activeRequests (firstRankBusy 1) 0 + (second.1.1 0).length < 3)

/-- **A binding that is dropped.** With a session limit of one, a conversation that is bound to a
rank before the round does not return to it although the rank has a free slot at the end. -/
theorem conversation_dropped : ∃ first ∈ (ConversationRouter.init 1 1 1 "round_robin").round
        (conversationQueue [(0, "a")] (by decide)) (firstRankBusy 0) 3 3,
      ∃ second ∈ first.2.round (conversationQueue [(1, "b"), (2, "c"), (3, "a")] (by decide))
          (firstRankBusy 1) 3 3,
        first.2.boundRank (conversationItem 3 "a") = some 0
        ∧ conversationItem 3 "a"
          ∈ (popRequests (conversationQueue [(1, "b"), (2, "c"), (3, "a")] (by decide))
            (firstRankBusy 1) 3 3).1
        ∧ conversationItem 3 "a" ∉ second.1.1 0
        ∧ activeRequests (firstRankBusy 1) 0 + (second.1.1 0).length < 3 := by
  have hrun : droppedBinding = some true := by decide +kernel
  rw [droppedBinding, bind_eq_some_iff] at hrun
  obtain ⟨first, hfirst, hrun⟩ := hrun
  rw [map_eq_some_iff] at hrun
  obtain ⟨second, hsecond, hrun⟩ := hrun
  rw [decide_eq_true_eq] at hrun
  exact ⟨first, hfirst, second, hsecond, hrun.1, by decide, hrun.2⟩

end TrtLlm.Scheduler
