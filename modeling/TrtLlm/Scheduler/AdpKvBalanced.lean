import TrtLlm.Scheduler.AdpKvPlan

/-!
KV-balanced admission of the default router: `pop_requests` plans which requests of the window are
admitted and on which rank, and `route_requests` follows the plan.

* `plan_spec`: the plan exists, admits no candidate twice and overfills no rank;
* `DefaultRouter.round_spec`: what is popped is routed within the caps, with or without a plan.
-/

namespace TrtLlm.Scheduler

open List Prod UMap

variable {n m : ℕ}

/-- **The plan** exists, admits no candidate twice, and keeps every rank within the cap. -/
lemma plan_spec (c : Candidates m) (rankTokens start : Fin (n + 1) → ℕ) (cap : ℕ)
    (maxNewRequests : ℤ) (hload : ∀ r, start r ≤ cap) :
    ∃ plan, planKvBalancedAdmission c rankTokens start cap maxNewRequests = some plan
      ∧ (plan.map fst).Nodup
      ∧ ∀ r, start r + plan.countP (fun e => e.2 = r) ≤ cap := by
  obtain ⟨plan, hplan, hfair⟩ := plan_fair c rankTokens start cap maxNewRequests
  refine ⟨plan, hplan, hfair.nodup, fun r => ?_⟩
  have hlimit := hfair.limit r
  rwa [max_eq_right (hload r)] at hlimit

/-! ### The router -/

/-- A waiting queue, in the order in which it is popped. Every request has an id of its own. -/
structure WaitingQueue (n : ℕ) where
  items : List (RequestQueueItem n)
  ids_nodup : (items.map RequestQueueItem.id).Nodup
  /-- `admission_groups`: the group of each request of a window. -/
  admissionGroups : List (RequestQueueItem n) → ℕ → ℕ

/-- What a round of `pop_requests` and `route_requests` promises: nothing is lost from the queue,
the popped requests are routed within the caps, and the strict ones to their rank. -/
structure RoundOk (queue : WaitingQueue n) (states : Fin (n + 1) → RankState) (cap : ℕ)
    (popped rest : List (RequestQueueItem n))
    (assigned : Fin (n + 1) → List (RequestQueueItem n)) (expected : ℕ) : Prop where
  perm : (popped ++ rest).Perm queue.items
  routed : Routed states cap popped assigned expected
  strict : ∀ item ∈ popped, ∀ r, item.StrictTo r → item ∈ assigned r

/-- The fields of `DefaultADPRouter`. -/
structure DefaultRouter where
  kvBalancedAdmission : Bool
  kvBalanceSkippedRounds : UMap ℕ ℕ

/-- `KV_BALANCE_WINDOW`. -/
def kvBalanceWindow : ℕ := 32

/-- `KV_BALANCE_MAX_SKIPPED_ROUNDS`. -/
def kvBalanceMaxSkippedRounds : ℕ := 64

/-- `_is_kv_balanced_request`. -/
def RequestQueueItem.isKvBalancedRequest (item : RequestQueueItem n) : Bool :=
  item.childReqIds = [] ∧ item.generationOnly = true ∧ item.attentionDpRank = none

namespace DefaultRouter

/-- What `pop_requests` leaves: the requests to admit, the ranks planned for them, the queue and
the router. -/
structure Popped (n : ℕ) where
  requests : List (RequestQueueItem n)
  placement : UMap ℕ (Fin (n + 1))
  queue : List (RequestQueueItem n)
  router : DefaultRouter

/-- `pop_requests` of the base class, which plans no ranks. -/
def basePop (router : DefaultRouter) (queue : WaitingQueue n) (states : Fin (n + 1) → RankState)
    (maxNewRequests : ℤ) (cap : ℕ) : Popped n :=
  let r := getFromWaitingQueue queue.items maxNewRequests cap (activeRequests states)
  ⟨r.1, ∅, r.2, router⟩

/-- The requests that KV-balanced admission chooses from. -/
def window (queue : WaitingQueue n) (states : Fin (n + 1) → RankState) (maxNewRequests : ℤ)
    (cap : ℕ) : List (RequestQueueItem n) :=
  queue.items.take (max kvBalanceWindow
    (min maxNewRequests (Bins.room cap (activeRequests states))).toNat)

section

variable (window : List (RequestQueueItem n)) (plan : List (Fin window.length × Fin (n + 1)))

/-- The ranks of a plan by request id. -/
def placementOf : UMap ℕ (Fin (n + 1)) :=
  plan.foldl (fun placement e => placement.assign (window.get e.1).id e.2) ∅

/-- The requests of a plan, in queue order. -/
def chosenOf : List (RequestQueueItem n) :=
  ((plan.map fst).insertionSort (· ≤ ·)).map window.get

end

/-- What remains of `pop_requests` once the plan is made. -/
def popPlanned (router : DefaultRouter) (queue : WaitingQueue n)
    (window : List (RequestQueueItem n)) (plan : List (Fin window.length × Fin (n + 1))) :
    Popped n :=
  let chosen := chosenOf window plan
  let placement := placementOf window plan
  let skipped := if chosen = [] then 0 else 1
  { requests := chosen
    placement := placement
    queue := if placement.size = 0 then queue.items
      else (window.filter fun item => item.id ∉ placement) ++ queue.items.drop window.length
    router := { router with
      kvBalanceSkippedRounds := (window.filter fun item => item.id ∉ placement).foldl
        (fun rounds item =>
          rounds.assign item.id ((router.kvBalanceSkippedRounds.find? item.id).getD 0 + skipped))
        ∅ } }

/-- `pop_requests`; `none` if the plan raises. -/
def popRequests (router : DefaultRouter) (queue : WaitingQueue n)
    (states : Fin (n + 1) → RankState) (maxNewRequests : ℤ) (cap : ℕ) (kvBalance : Bool) :
    Option (Popped n) :=
  if ¬(router.kvBalancedAdmission ∧ kvBalance) ∨ maxNewRequests ≤ 0 ∨ n + 1 ≤ 1 then
    some (router.basePop queue states maxNewRequests cap)
  else
    let window := window queue states maxNewRequests cap
    if window = [] ∨ ¬window.all RequestQueueItem.isKvBalancedRequest then
      some (router.basePop queue states maxNewRequests cap)
    else
      let candidates : Candidates window.length :=
        { tokens := fun i => (window.get i).numInputTokens
          forced := fun i => kvBalanceMaxSkippedRounds
            ≤ (router.kvBalanceSkippedRounds.find? (window.get i).id).getD 0
          groups := fun i => queue.admissionGroups window i }
      (planKvBalancedAdmission candidates (fun r => (states r).numActiveTokens)
        (activeRequests states) cap maxNewRequests).map fun plan =>
          router.popPlanned queue window plan

/-- The requests go to their planned ranks; a request without one raises. -/
def placePlanned (placement : UMap ℕ (Fin (n + 1))) :
    List (RequestQueueItem n) → Bins (Fin (n + 1)) (RequestQueueItem n) →
      Option (Bins (Fin (n + 1)) (RequestQueueItem n))
  | [], bins => some bins
  | item :: items, bins =>
    (placement.find? item.id).bind fun rank => placePlanned placement items (bins.put rank item)

/-- `route_requests`. -/
def routeRequests (states : Fin (n + 1) → RankState) (newRequests : List (RequestQueueItem n))
    (cap : ℕ) (placement : UMap ℕ (Fin (n + 1))) :
    Option ((Fin (n + 1) → List (RequestQueueItem n)) × ℕ) :=
  if placement.size = 0 then defaultRoute states newRequests cap
  else
    (placePlanned placement newRequests (Bins.ofLoads (activeRequests states))).map fun bins =>
      (bins.items, expectedNumActiveRequests bins.load 0 1 cap)

/-! ### The plan is followed -/

section Planned

variable {window : List (RequestQueueItem n)} {plan : List (Fin window.length × Fin (n + 1))}

lemma get_inj (hids : (window.map RequestQueueItem.id).Nodup) {i j : Fin window.length}
    (h : (window.get i).id = (window.get j).id) : i = j := by
  have hitem := inj_on_of_nodup_map hids (get_mem window i) (get_mem window j) h
  exact (Nodup.get_inj_iff hids.of_map).mp hitem

lemma find?_foldl_of_not_mem (placement : UMap ℕ (Fin (n + 1))) {reqId : ℕ}
    (h : ∀ e ∈ plan, (window.get e.1).id ≠ reqId) :
    (plan.foldl (fun placement e => placement.assign (window.get e.1).id e.2) placement).find? reqId
      = placement.find? reqId := by
  induction plan generalizing placement with
  | nil => rfl
  | cons e plan ih =>
    rw [foldl_cons, ih _ fun e' he' => h e' (mem_cons_of_mem _ he'),
      find?_assign, if_neg fun heq => h e mem_cons_self heq.symm]

section

variable (hids : (window.map RequestQueueItem.id).Nodup) (hplan : (plan.map fst).Nodup)
include hids hplan

/-- The planned rank of each request is found under its id. -/
lemma find?_placementOf {e : Fin window.length × Fin (n + 1)} (he : e ∈ plan) :
    (placementOf window plan).find? (window.get e.1).id = some e.2 := by
  rw [placementOf]
  generalize (∅ : UMap ℕ (Fin (n + 1))) = placement
  induction plan generalizing placement with
  | nil => simp at he
  | cons first plan ih =>
    rw [map_cons, nodup_cons] at hplan
    rw [foldl_cons]
    obtain rfl | he := mem_cons.mp he
    · rw [find?_foldl_of_not_mem, find?_assign, if_pos rfl]
      intro e' he' heq
      exact hplan.1 (get_inj hids heq ▸ mem_map_of_mem he')
    · exact ih hplan.2 he _

lemma mem_placementOf {reqId : ℕ} :
    reqId ∈ placementOf window plan ↔ ∃ e ∈ plan, (window.get e.1).id = reqId := by
  constructor
  · intro hmem
    by_contra hnone
    push Not at hnone
    have hfind : (placementOf window plan).find? reqId = none := by
      rw [placementOf, find?_foldl_of_not_mem _ hnone]
      rfl
    exact find?_eq_none_iff.mp hfind hmem
  · rintro ⟨e, he, rfl⟩
    exact mem_of_find? (find?_placementOf hids hplan he)

lemma plan_eq_nil (hzero : (placementOf window plan).size = 0) : plan = [] := by
  by_contra hne
  obtain ⟨e, he⟩ := exists_mem_of_ne_nil _ hne
  have hin := find?_eq_some_iff.mp (find?_placementOf hids hplan he)
  rw [size, length_eq_zero_iff] at hzero
  simp [hzero] at hin

end

lemma chosenOf_perm : (chosenOf window plan).Perm (plan.map fun e => window.get e.1) := by
  have hperm := (perm_insertionSort (· ≤ ·) (plan.map fst)).map window.get
  rw [List.map_map] at hperm
  exact hperm

/-- The chosen requests are those of the window that have a planned rank. -/
lemma chosenOf_perm_filter (hids : (window.map RequestQueueItem.id).Nodup)
    (hplan : (plan.map fst).Nodup) :
    (chosenOf window plan).Perm (window.filter fun item => item.id ∈ placementOf window plan) := by
  have hmap : (plan.map fun e => window.get e.1) = (plan.map fst).map window.get := by
    rw [List.map_map]
    rfl
  have hnodup : (plan.map fun e => window.get e.1).Nodup := by
    rw [hmap]
    exact hplan.map fun i j h => (Nodup.get_inj_iff hids.of_map).mp h
  refine chosenOf_perm.trans ((perm_ext_iff_of_nodup hnodup (hids.of_map.filter _)).mpr ?_)
  intro item
  rw [mem_map, mem_filter, decide_eq_true_eq, mem_placementOf hids hplan]
  constructor
  · rintro ⟨e, he, rfl⟩
    exact ⟨get_mem window e.1, e, he, rfl⟩
  · rintro ⟨hmem, e, he, heq⟩
    exact ⟨e, he, inj_on_of_nodup_map hids (get_mem window e.1) hmem heq⟩

/-- The requests go where the table says, and every rank gets as many as it has entries. -/
lemma placePlanned_spec (placement : UMap ℕ (Fin (n + 1))) (start : Fin (n + 1) → ℕ)
    (items : List (RequestQueueItem n)) (bins : Bins (Fin (n + 1)) (RequestQueueItem n))
    (hfound : ∀ item ∈ items, ∃ rank, placement.find? item.id = some rank) :
    ∃ bins', placePlanned placement items bins = some bins'
      ∧ Bins.total bins'.items = Bins.total bins.items + items
      ∧ (bins.Counts start → bins'.Counts start)
      ∧ ∀ r, bins'.load r
        = bins.load r + items.countP fun item => placement.find? item.id = some r := by
  induction items generalizing bins with
  | nil => exact ⟨bins, rfl, by simp, id, by simp⟩
  | cons item items ih =>
    obtain ⟨rank, hrank⟩ := hfound item mem_cons_self
    obtain ⟨bins', hplace, htotal, hcounts, hload⟩ := ih (bins.put rank item)
      fun x hx => hfound x (mem_cons_of_mem _ hx)
    refine ⟨bins', ?_, ?_, fun hc => hcounts (hc.put rank item), fun r => ?_⟩
    · rw [placePlanned, hrank]
      exact hplace
    · rw [htotal, Bins.total_put, ← Multiset.cons_coe, Multiset.cons_add, Multiset.add_cons]
    · rw [hload, Bins.put_load]
      split_ifs with he
      · subst he
        rw [countP_cons_of_pos (by simpa using hrank)]
        omega
      · rw [countP_cons_of_neg]
        simpa [hrank] using fun h => he h.symm

/-- What is planned is routed within the caps. -/
lemma routePlanned_spec (states : Fin (n + 1) → RankState) {cap : ℕ}
    (hids : (window.map RequestQueueItem.id).Nodup) (hplan : (plan.map fst).Nodup)
    (hcap : ∀ r, activeRequests states r + plan.countP (fun e => e.2 = r) ≤ cap)
    (hne : plan ≠ []) :
    ∃ assigned expected, routeRequests states (chosenOf window plan) cap (placementOf window plan)
        = some (assigned, expected)
      ∧ Routed states cap (chosenOf window plan) assigned expected := by
  have hsize : (placementOf window plan).size ≠ 0 := fun hzero =>
    hne (plan_eq_nil hids hplan hzero)
  obtain ⟨bins, hplace, htotal, hcounts, hload⟩ := placePlanned_spec (placementOf window plan)
    (activeRequests states) (chosenOf window plan)
    (Bins.ofLoads (activeRequests states)) fun item hitem => by
      obtain ⟨e, he, rfl⟩ := mem_map.mp (chosenOf_perm.mem_iff.mp hitem)
      exact ⟨e.2, find?_placementOf hids hplan he⟩
  have hcount : ∀ r, (chosenOf window plan).countP
      (fun item => (placementOf window plan).find? item.id = some r)
        = plan.countP fun e => e.2 = r := by
    intro r
    rw [chosenOf_perm.countP_eq, countP_map]
    refine countP_congr fun e he => ?_
    rw [Function.comp_apply, find?_placementOf hids hplan he]
    simp
  have hle : ∀ r, bins.load r ≤ cap := fun r => by
    rw [hload, hcount]
    exact hcap r
  refine ⟨bins.items, expectedNumActiveRequests bins.load 0 1 cap, ?_, ?_, fun r => ?_, ?_⟩
  · rw [routeRequests, if_neg hsize, hplace]
    rfl
  · rw [htotal]
    simp [Bins.ofLoads]
  · rw [← hcounts (Bins.Counts.ofLoads _) r]
    exact load_le_expected 0 1 hle r
  · exact expected_le_cap ..

end Planned

variable (queue : WaitingQueue n) (states : Fin (n + 1) → RankState) (cap : ℕ)

variable (router : DefaultRouter)

lemma basePop_round (maxNewRequests : ℤ) (hload : ∀ r, activeRequests states r ≤ cap)
    (hmax : maxNewRequests ≤ Bins.room cap (activeRequests states)) :
    ∃ assigned expected,
      routeRequests states (router.basePop queue states maxNewRequests cap).requests cap
          (router.basePop queue states maxNewRequests cap).placement = some (assigned, expected)
      ∧ RoundOk queue states cap (router.basePop queue states maxNewRequests cap).requests
          (router.basePop queue states maxNewRequests cap).queue assigned expected := by
  obtain ⟨-, hbudget, hstrict⟩ := getFromWaitingQueue_spec queue.items maxNewRequests cap
    (activeRequests states) hload
  obtain ⟨assigned, expected, hroute, hrouted, hplaced⟩ := defaultRoute_spec states
    (router.basePop queue states maxNewRequests cap).requests cap hload
    ((length_le_requestCount _).trans (hbudget.trans (by omega))) hstrict
  exact ⟨assigned, expected, hroute, getFromWaitingQueue_perm .., hrouted, hplaced⟩

lemma popPlanned_perm {k : ℕ} {plan : List (Fin (queue.items.take k).length × Fin (n + 1))}
    (hplan : (plan.map fst).Nodup) :
    ((router.popPlanned queue (queue.items.take k) plan).requests
      ++ (router.popPlanned queue (queue.items.take k) plan).queue).Perm queue.items := by
  have hids : ((queue.items.take k).map RequestQueueItem.id).Nodup :=
    ((take_sublist k queue.items).map _).nodup queue.ids_nodup
  have hdrop : queue.items.drop (queue.items.take k).length = queue.items.drop k := by
    rw [length_take]
    obtain hle | hle := le_total k queue.items.length
    · rw [min_eq_left hle]
    · rw [min_eq_right hle, drop_length, drop_of_length_le hle]
  rw [popPlanned]
  dsimp only
  split_ifs with hzero
  · obtain rfl := plan_eq_nil hids hplan hzero
    exact .refl _
  · rw [hdrop, ← append_assoc]
    calc (chosenOf (queue.items.take k) plan
          ++ (queue.items.take k).filter fun item =>
            item.id ∉ placementOf (queue.items.take k) plan) ++ queue.items.drop k
        |>.Perm (queue.items.take k ++ queue.items.drop k) := by
          refine Perm.append_right _ ?_
          refine ((chosenOf_perm_filter hids hplan).append_right _).trans ?_
          have := filter_append_perm
            (fun item => decide (item.id ∈ placementOf (queue.items.take k) plan))
            (queue.items.take k)
          simpa using this
      _ = queue.items := take_append_drop k queue.items

lemma popPlanned_round {k : ℕ} {plan : List (Fin (queue.items.take k).length × Fin (n + 1))}
    (hplan : (plan.map fst).Nodup)
    (hcap : ∀ r, activeRequests states r + plan.countP (fun e => e.2 = r) ≤ cap)
    (hbalanced : (queue.items.take k).all RequestQueueItem.isKvBalancedRequest) :
    ∃ assigned expected,
      routeRequests states (router.popPlanned queue (queue.items.take k) plan).requests cap
          (router.popPlanned queue (queue.items.take k) plan).placement = some (assigned, expected)
      ∧ RoundOk queue states cap (router.popPlanned queue (queue.items.take k) plan).requests
          (router.popPlanned queue (queue.items.take k) plan).queue assigned expected := by
  have hids : ((queue.items.take k).map RequestQueueItem.id).Nodup :=
    ((take_sublist k queue.items).map _).nodup queue.ids_nodup
  have hperm := popPlanned_perm queue router hplan
  have hroute : ∃ assigned expected,
      routeRequests states (chosenOf (queue.items.take k) plan) cap
          (placementOf (queue.items.take k) plan) = some (assigned, expected)
        ∧ Routed states cap (chosenOf (queue.items.take k) plan) assigned expected := by
    by_cases hne : plan = []
    · subst hne
      obtain ⟨assigned, expected, hroute, hrouted, -⟩ := defaultRoute_spec states [] cap
        (fun r => le_trans (Nat.le_add_right _ _) (hcap r)) (Nat.zero_le _)
        (fun r => by simpa [strictCount] using le_trans (Nat.le_add_right _ _) (hcap r))
      exact ⟨assigned, expected, hroute, hrouted⟩
    · exact routePlanned_spec states hids hplan hcap hne
  obtain ⟨assigned, expected, hroute, hrouted⟩ := hroute
  refine ⟨assigned, expected, hroute, hperm, hrouted, fun item hitem r hstrict => ?_⟩
  -- a request that names a rank is not admitted by KV load
  have hmem : item ∈ queue.items.take k :=
    mem_of_mem_filter ((chosenOf_perm_filter hids hplan).mem_iff.mp hitem)
  have hitem' := all_eq_true.mp hbalanced item hmem
  rw [RequestQueueItem.isKvBalancedRequest, decide_eq_true_eq] at hitem'
  rw [hstrict.rank_eq] at hitem'
  exact absurd hitem'.2.2 (Option.some_ne_none r)

/-- **A round of the default router**, with or without KV-balanced admission. -/
theorem round_spec (maxNewRequests : ℤ) (kvBalance : Bool)
    (hload : ∀ r, activeRequests states r ≤ cap)
    (hmax : maxNewRequests ≤ Bins.room cap (activeRequests states)) :
    ∃ popped assigned expected,
      router.popRequests queue states maxNewRequests cap kvBalance = some popped
      ∧ routeRequests states popped.requests cap popped.placement = some (assigned, expected)
      ∧ RoundOk queue states cap popped.requests popped.queue assigned expected := by
  have hbase := basePop_round queue states cap router maxNewRequests hload hmax
  rw [popRequests]
  split_ifs with hfifo
  · obtain ⟨assigned, expected, hround⟩ := hbase
    exact ⟨_, assigned, expected, rfl, hround⟩
  · dsimp only
    split_ifs with hwindow
    · obtain ⟨assigned, expected, hround⟩ := hbase
      exact ⟨_, assigned, expected, rfl, hround⟩
    · rw [not_or, not_not] at hwindow
      obtain ⟨plan, hplan, hnodup, hcap⟩ := plan_spec
        (⟨fun i => ((window queue states maxNewRequests cap).get i).numInputTokens,
          fun i => kvBalanceMaxSkippedRounds ≤ (router.kvBalanceSkippedRounds.find?
            ((window queue states maxNewRequests cap).get i).id).getD 0,
          fun i => queue.admissionGroups (window queue states maxNewRequests cap) i⟩ :
          Candidates (window queue states maxNewRequests cap).length)
        (fun r => (states r).numActiveTokens) (activeRequests states) cap maxNewRequests hload
      obtain ⟨assigned, expected, hround⟩ := popPlanned_round queue states cap router hnodup hcap
        hwindow.2
      refine ⟨_, assigned, expected, ?_, hround⟩
      rw [hplan]
      rfl

end DefaultRouter

end TrtLlm.Scheduler
