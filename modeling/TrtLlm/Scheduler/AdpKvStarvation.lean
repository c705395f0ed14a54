import TrtLlm.Scheduler.AdpKvBalanced
import TrtLlm.Util.Machine

/-!
KV-balanced admission starves no request of a queue that is first come, first served.

A request in the window is passed over for at most as many rounds as
`KV_BALANCE_MAX_SKIPPED_ROUNDS`.  It is forced then, and each round that admits something admits a
forced request that is not behind it.

* `AdmissionStep`: what happens to the queue between and in the rounds;
* `waiting`: the rounds a request has to wait at most, which every round that admits something by
  the plan takes one of;
* `kvBalancedAdmission_spec`: **the plan is fair, and a request of the window is admitted in time**.
-/

namespace TrtLlm.Scheduler

open List Option

variable {n : ℕ}

/-! ### What is ahead in a list -/

/-- What stands before an element. -/
def ahead {α : Type*} [DecidableEq α] (x : α) (l : List α) : List α := l.takeWhile fun y => y ≠ x

section Ahead

variable {α : Type*} [DecidableEq α] {x : α} {l l' : List α}

lemma ahead_cons_self (x : α) (l : List α) : ahead x (x :: l) = [] := by simp [ahead]

lemma ahead_cons_of_ne {y : α} (h : y ≠ x) (l : List α) : ahead x (y :: l) = y :: ahead x l := by
  simp [ahead, h]

lemma ahead_append (hx : x ∈ l) (l' : List α) : ahead x (l ++ l') = ahead x l := by
  induction l with
  | nil => cases hx
  | cons y l ih =>
    by_cases hy : y = x
    · subst hy
      rw [cons_append, ahead_cons_self, ahead_cons_self]
    · rw [cons_append, ahead_cons_of_ne hy, ahead_cons_of_ne hy,
        ih ((mem_cons.mp hx).resolve_left (Ne.symm hy))]

lemma ahead_eq_take (hnodup : l.Nodup) {p : ℕ} (hp : l[p]? = some x) : ahead x l = l.take p := by
  induction l generalizing p with
  | nil => cases hp
  | cons y l ih =>
    obtain ⟨hnot, hnodup⟩ := nodup_cons.mp hnodup
    cases p with
    | zero =>
      rw [getElem?_cons_zero, some.injEq] at hp
      subst hp
      exact ahead_cons_self y l
    | succ p =>
      rw [getElem?_cons_succ] at hp
      have hne : y ≠ x := fun heq => hnot (heq ▸ mem_of_getElem? hp)
      rw [ahead_cons_of_ne hne, take_succ_cons, ih hnodup hp]

/-- Elements that leave do not put others ahead. -/
lemma ahead_sublist (hnodup : l.Nodup) (hsub : l'.Sublist l)
    (hx : x ∈ l') : (ahead x l').Sublist (ahead x l) := by
  induction hsub with
  | slnil => cases hx
  | @cons l₁ l₂ y hsub ih =>
    obtain ⟨hnot, hnodup⟩ := nodup_cons.mp hnodup
    have hne : y ≠ x := fun heq => hnot (heq ▸ hsub.subset hx)
    rw [ahead_cons_of_ne hne]
    exact (ih hnodup hx).cons y
  | @cons_cons l₁ l₂ y hsub ih =>
    obtain ⟨hnot, hnodup⟩ := nodup_cons.mp hnodup
    by_cases hy : y = x
    · subst hy
      rw [ahead_cons_self, ahead_cons_self]
    · rw [ahead_cons_of_ne hy, ahead_cons_of_ne hy]
      exact (ih hnodup ((mem_cons.mp hx).resolve_left (Ne.symm hy))).cons_cons y

/-- One that was ahead and left makes the way shorter. -/
lemma length_ahead_lt (hnodup : l.Nodup) (hsub : l'.Sublist l) (hx : x ∈ l') {y : α}
    (hy : y ∈ ahead x l)
    (hgone : y ∉ l') : (ahead x l').length < (ahead x l).length := by
  have hsub' := ahead_sublist hnodup hsub hx
  refine lt_of_le_of_ne hsub'.length_le fun heq => hgone ?_
  have hmem : y ∈ ahead x l' := by rwa [hsub'.eq_of_length heq]
  exact takeWhile_subset _ hmem

end Ahead

/-! ### Runs -/

/-- The router and a first-come-first-served queue between two calls. -/
structure AdmissionState (n : ℕ) where
  router : DefaultRouter
  items : List (RequestQueueItem n)
  ids_nodup : (items.map RequestQueueItem.id).Nodup

/-- `FCFSWaitingQueue`, all of which is one admission group. -/
def AdmissionState.queue (s : AdmissionState n) : WaitingQueue n :=
  ⟨s.items, s.ids_nodup, fun _ _ => 0⟩

/-- A round of `pop_requests`: what it admits, and whether by the plan. -/
structure AdmissionRound (n : ℕ) where
  admitted : List (RequestQueueItem n)
  planned : Bool

/-- What happens to the queue: requests come, requests other than the one that is watched are taken
out, and `pop_requests` is called. -/
inductive AdmissionStep (item : RequestQueueItem n) :
    AdmissionState n → List (AdmissionRound n) → AdmissionState n → Prop
  | addRequests {s s' : AdmissionState n} (requests : List (RequestQueueItem n))
      (hrouter : s'.router = s.router) (hitems : s'.items = s.items ++ requests) :
      AdmissionStep item s [] s'
  | removeByIds {s s' : AdmissionState n} (requestIds : Finset ℕ) (hitem : item.id ∉ requestIds)
      (hrouter : s'.router = s.router) (hitems : s'.items = s.items.filter fun i =>
        i.id ∉ requestIds) : AdmissionStep item s [] s'
  | popRequests {s s' : AdmissionState n} (states : Fin (n + 1) → RankState) (maxNewRequests : ℤ)
      (cap : ℕ) (kvBalance : Bool) (popped : DefaultRouter.Popped n)
      (hpop : s.router.popRequests s.queue states maxNewRequests cap kvBalance = some popped)
      (hrouter : s'.router = popped.router) (hitems : s'.items = popped.queue) :
      AdmissionStep item s [⟨popped.requests, popped.placement.size ≠ 0⟩] s'

/-- The rounds a request was passed over. -/
def DefaultRouter.skipped (router : DefaultRouter) (item : RequestQueueItem n) : ℕ :=
  (router.kvBalanceSkippedRounds.find? item.id).getD 0

/-- The rounds that admit something by the plan until a request is admitted, at most. -/
def AdmissionState.waiting (s : AdmissionState n) (item : RequestQueueItem n) : ℕ :=
  (kvBalanceMaxSkippedRounds - s.router.skipped item) + (ahead item s.items).length + 1

/-! ### One step -/

/-- What a step leaves of a request that it does not admit. -/
structure PassedOver (item : RequestQueueItem n) (s s' : AdmissionState n)
    (planned : ℕ) : Prop where
  mem : item ∈ s'.items
  ahead_le : (ahead item s'.items).length ≤ (ahead item s.items).length
  waiting_le : planned + s'.waiting item ≤ s.waiting item

variable {s s' : AdmissionState n} {item : RequestQueueItem n}

variable {rounds : List (AdmissionRound n)}

lemma AdmissionState.nodup (s : AdmissionState n) : s.items.Nodup := s.ids_nodup.of_map

/-- Others leave, and the request was not passed over. -/
lemma PassedOver.of_sublist (hsub : s'.items.Sublist s.items) (hmem : item ∈ s'.items)
    (hskipped : s.router.skipped item ≤ s'.router.skipped item) : PassedOver item s s' 0 := by
  have hle := (ahead_sublist s.nodup hsub hmem).length_le
  refine ⟨hmem, hle, ?_⟩
  rw [AdmissionState.waiting, AdmissionState.waiting]
  omega

lemma popLoop_sublist (maxReqCount : ℤ) (cap : ℕ) (queue : List (RequestQueueItem n)) (reqCount : ℕ)
    (load : Fin (n + 1) → ℕ) :
    ((popLoop maxReqCount cap queue reqCount load).2.1
      ++ (popLoop maxReqCount cap queue reqCount load).2.2).Sublist
      queue := by
  induction queue generalizing reqCount load with
  | nil => exact Sublist.refl _
  | cons i queue ih =>
    rw [popLoop]
    split_ifs
    · exact Sublist.refl _
    · split
      · exact (ih _ _).cons i
      · exact (ih _ _).cons_cons i

/-- What the base class leaves in the queue is in the old order. -/
lemma basePop_sublist (s : AdmissionState n) (states : Fin (n + 1) → RankState) (maxNewRequests : ℤ)
    (cap : ℕ) : (s.router.basePop s.queue states maxNewRequests cap).queue.Sublist s.items := by
  show (getFromWaitingQueue s.items maxNewRequests cap (activeRequests states)).2.Sublist s.items
  rw [getFromWaitingQueue]
  split_ifs
  · exact Sublist.refl _
  · exact popLoop_sublist ..

lemma find?_foldl_rounds (value : ℕ → ℕ) (items : List (RequestQueueItem n)) (rounds : UMap ℕ ℕ)
    (h : item ∈ items) :
    (items.foldl (fun rounds i => rounds.assign i.id (value i.id)) rounds).find? item.id
      = some (value item.id) := by
  induction items using reverseRecOn with
  | nil => cases h
  | append_singleton items i ih =>
    rw [foldl_append, foldl_cons, foldl_nil, UMap.find?_assign]
    split_ifs with heq
    · rw [heq]
    · rcases mem_append.mp h with h | h
      · exact ih h
      · exact absurd (congrArg RequestQueueItem.id (mem_singleton.mp h)) heq

/-- The requests of the window that have no rank, and what is behind the window, are in the old
order. -/
lemma window_sublist {items window : List (RequestQueueItem n)} {k : ℕ}
    (hwindow : window = items.take k)
    (p : RequestQueueItem n → Bool) :
    (window.filter p ++ items.drop window.length).Sublist items := by
  subst hwindow
  have hsplit : items.take k ++ items.drop (items.take k).length = items := by
    rw [length_take]
    rcases le_total k items.length with hle | hle
    · rw [min_eq_left hle, take_append_drop]
    · rw [min_eq_right hle, drop_length, append_nil, take_of_length_le hle]
  have hsub := Sublist.append (filter_sublist (p := p) (l := items.take k))
    (Sublist.refl (items.drop (items.take k).length))
  rwa [hsplit] at hsub

/-- **A planned round**: a request of the window is admitted, or it is one round less from it. -/
lemma popPlanned_passedOver {k : ℕ} (hitem : item ∈ s.items) (hk : (ahead item s.items).length < k)
    {window : List (RequestQueueItem n)} (hwindow : window = s.items.take k)
    {plan : List (Fin window.length × Fin (n + 1))} {c : Candidates window.length}
    {start : Fin (n + 1) → ℕ} {cap : ℕ} {maxNewRequests : ℤ}
    (hfair : PlanFair c start cap maxNewRequests plan)
    (hgroups : ∀ i j, c.groups i = c.groups j)
    (hforced : ∀ i, kvBalanceMaxSkippedRounds ≤ s.router.skipped (window.get i) → c.forced i = true)
    (hrouter : s'.router = (s.router.popPlanned s.queue window plan).router)
    (hitems : s'.items = (s.router.popPlanned s.queue window plan).queue) :
    item ∈ (s.router.popPlanned s.queue window plan).requests
      ∨ PassedOver item s s' (if (s.router.popPlanned s.queue window plan).placement.size ≠ 0 then 1
        else 0) := by
  have hids : (window.map RequestQueueItem.id).Nodup := by
    rw [hwindow]
    exact ((take_sublist k s.items).map _).nodup s.ids_nodup
  obtain ⟨q, hq⟩ := mem_iff_getElem?.mp hitem
  have hahead := ahead_eq_take s.nodup hq
  have hqlt : q < s.items.length := (List.getElem?_eq_some_iff.mp hq).1
  have hlen : (ahead item s.items).length = q := by rw [hahead, length_take]; omega
  have hqw : q < window.length := by rw [hwindow, length_take]; omega
  have hget : window.get ⟨q, hqw⟩ = item := by
    have hq' : window[q]? = some item := by rw [hwindow, getElem?_take_of_lt (by omega), hq]
    exact (List.getElem?_eq_some_iff.mp hq').2
  have hin : item ∈ window := hget ▸ List.get_mem window ⟨q, hqw⟩
  by_cases hchosen : item.id ∈ DefaultRouter.placementOf window plan
  · exact .inl ((DefaultRouter.chosenOf_perm_filter hids hfair.nodup).mem_iff.mpr
      (mem_filter.mpr ⟨hin, decide_eq_true hchosen⟩))
  right
  have hkept : item ∈ window.filter fun i => i.id ∉ DefaultRouter.placementOf window plan :=
    mem_filter.mpr ⟨hin, decide_eq_true hchosen⟩
  have hskipped : s'.router.skipped item
      = s.router.skipped item + if DefaultRouter.chosenOf window plan = [] then 0 else 1 := by
    rw [hrouter]
    show (UMap.find? (foldl _ ∅ _) item.id).getD 0 = _
    rw [find?_foldl_rounds (fun id => (s.router.kvBalanceSkippedRounds.find? id).getD 0
      + if DefaultRouter.chosenOf window plan = [] then 0 else 1) _ _ hkept]
    rfl
  have hqueue : s'.items = if (DefaultRouter.placementOf window plan).size = 0 then s.items
      else (window.filter fun i => i.id ∉ DefaultRouter.placementOf window plan)
        ++ s.items.drop window.length :=
    hitems
  show PassedOver item s s' (if (DefaultRouter.placementOf window plan).size ≠ 0 then 1 else 0)
  by_cases hsize : (DefaultRouter.placementOf window plan).size = 0
  · rw [if_neg (not_not_intro hsize)]
    rw [if_pos hsize] at hqueue
    refine PassedOver.of_sublist (by rw [hqueue]) (hqueue ▸ hitem) ?_
    rw [hskipped]
    exact Nat.le_add_right _ _
  · rw [if_pos hsize]
    rw [if_neg hsize] at hqueue
    have hne : plan ≠ [] := by
      rintro rfl
      exact hsize rfl
    have hchosenNe : DefaultRouter.chosenOf window plan ≠ [] := fun hnil => hne (by
      have hperm : (DefaultRouter.chosenOf window plan).Perm (plan.map fun e => window.get e.1) :=
        DefaultRouter.chosenOf_perm
      rw [hnil] at hperm
      exact map_eq_nil_iff.mp hperm.symm.eq_nil)
    rw [if_neg hchosenNe] at hskipped
    have hsub : s'.items.Sublist s.items := by
      rw [hqueue]
      exact window_sublist hwindow _
    have hmem : item ∈ s'.items := by
      rw [hqueue]
      exact mem_append_left _ hkept
    have hle := (ahead_sublist s.nodup hsub hmem).length_le
    refine ⟨hmem, hle, ?_⟩
    rw [AdmissionState.waiting, AdmissionState.waiting, hskipped]
    by_cases hold : s.router.skipped item < kvBalanceMaxSkippedRounds
    · omega
    · -- the request is forced, so that one before it is admitted
      obtain ⟨e, he⟩ := exists_mem_of_ne_nil _ hne
      have hlt : e.1 < ⟨q, hqw⟩ := by
        refine (hfair.forced e.1 (List.mem_map_of_mem he) ⟨q, hqw⟩ (fun hmem' => hchosen ?_)
          (hgroups _ _)
          (hforced _ (by rw [hget]; omega))).2
        obtain ⟨e', he', heq⟩ := List.mem_map.mp hmem'
        refine (DefaultRouter.mem_placementOf hids hfair.nodup).mpr ⟨e', he', ?_⟩
        rw [heq, hget]
      have hplaced : (window.get e.1).id ∈ DefaultRouter.placementOf window plan :=
        (DefaultRouter.mem_placementOf hids hfair.nodup).mpr ⟨e, he, rfl⟩
      have hbefore : window.get e.1 ∈ ahead item s.items := by
        rw [hahead]
        have hlt' : (e.1 : ℕ) < q := hlt
        have hget' : (s.items.take q)[(e.1 : ℕ)]? = some (window.get e.1) := by
          have hw : (s.items.take k)[(e.1 : ℕ)]? = some (window.get e.1) := by
            rw [← hwindow]
            exact getElem?_eq_getElem e.1.2
          rw [getElem?_take_of_lt (by omega)] at hw
          rw [getElem?_take_of_lt hlt', hw]
        exact mem_of_getElem? hget'
      have hgone : window.get e.1 ∉ s'.items := by
        rw [hqueue, mem_append, not_or]
        refine ⟨fun hf => (of_decide_eq_true (mem_filter.mp hf).2) hplaced, fun hd => ?_⟩
        refine disjoint_take_drop s.nodup (le_refl window.length) ?_ hd
        rw [← prefix_iff_eq_take.mp (hwindow ▸ take_prefix k s.items)]
        exact List.get_mem window e.1
      have hless := length_ahead_lt s.nodup hsub hmem hbefore hgone
      omega

/-- **One step**: the request is admitted, or it waits for no longer, and for one round less after a
round that admits something by the plan. -/
lemma AdmissionStep.passedOver (h : AdmissionStep item s rounds s')
    (hitem : item ∈ s.items) (hahead : (ahead item s.items).length < kvBalanceWindow) :
    (∃ r ∈ rounds, item ∈ r.admitted)
      ∨ PassedOver item s s' (rounds.countP AdmissionRound.planned) := by
  cases h with
  | addRequests requests hrouter hitems =>
    refine .inr ⟨?_, ?_, ?_⟩
    · rw [hitems]
      exact mem_append_left _ hitem
    · rw [hitems, ahead_append hitem]
    · rw [AdmissionState.waiting, AdmissionState.waiting, hrouter, hitems, ahead_append hitem,
        countP_nil, Nat.zero_add]
  | removeByIds requestIds hid hrouter hitems =>
    refine .inr (PassedOver.of_sublist ?_ ?_ (by rw [hrouter]))
    · rw [hitems]
      exact filter_sublist
    · rw [hitems]
      exact mem_filter.mpr ⟨hitem, decide_eq_true hid⟩
  | popRequests states maxNewRequests cap kvBalance popped hpop hrouter hitems =>
    have hbase : popped = s.router.basePop s.queue states maxNewRequests cap →
        (∃ r ∈ [(⟨popped.requests, popped.placement.size ≠ 0⟩ : AdmissionRound n)],
          item ∈ r.admitted)
          ∨ PassedOver item s s'
            ([(⟨popped.requests, popped.placement.size ≠ 0⟩ : AdmissionRound n)].countP
              AdmissionRound.planned) := by
      rintro rfl
      have hperm := getFromWaitingQueue_perm s.items maxNewRequests cap (activeRequests states)
      rcases mem_append.mp (hperm.mem_iff.mpr hitem) with hin | hin
      · exact .inl ⟨_, mem_singleton_self _, hin⟩
      · refine .inr (PassedOver.of_sublist ?_ ?_ (by rw [hrouter]; exact le_refl _))
        · rw [hitems]
          exact basePop_sublist s states maxNewRequests cap
        · rw [hitems]
          exact hin
    rw [DefaultRouter.popRequests] at hpop
    split_ifs at hpop with hfifo
    · exact hbase (some.inj hpop).symm
    · dsimp only at hpop
      split_ifs at hpop with hwindow
      · exact hbase (some.inj hpop).symm
      · obtain ⟨plan, hplan, rfl⟩ := map_eq_some_iff.mp hpop
        obtain ⟨plan', hplan', hfair⟩ := plan_fair
          (⟨fun i => ((DefaultRouter.window s.queue states maxNewRequests cap).get
            i).numInputTokens, fun i => kvBalanceMaxSkippedRounds
              ≤ (s.router.kvBalanceSkippedRounds.find?
              ((DefaultRouter.window s.queue states maxNewRequests cap).get i).id).getD 0,
            fun i => s.queue.admissionGroups
              (DefaultRouter.window s.queue states maxNewRequests cap) i⟩ :
            Candidates (DefaultRouter.window s.queue states maxNewRequests cap).length)
          (fun r => (states r).numActiveTokens) (activeRequests states) cap maxNewRequests
        obtain rfl := some.inj (hplan.symm.trans hplan')
        have hpassed :=
          popPlanned_passedOver hitem (lt_of_lt_of_le hahead (le_max_left _ _)) rfl hfair
          (fun _ _ => rfl) (fun i hi => decide_eq_true hi) hrouter hitems
        rcases hpassed with hin | hpassed
        · exact .inl ⟨_, mem_singleton_self _, hin⟩
        · refine .inr ?_
          rw [countP_singleton]
          simp only [decide_eq_true_eq]
          exact hpassed

/-! ### Runs -/

/-- The request was admitted, or it waits for no longer than from its first place on. -/
def InTime (item : RequestQueueItem n) (p : ℕ) (rounds : List (AdmissionRound n))
    (s : AdmissionState n) : Prop :=
  (∃ r ∈ rounds, item ∈ r.admitted) ∨ (item ∈ s.items ∧ (ahead item s.items).length ≤ p
    ∧ rounds.countP AdmissionRound.planned + s.waiting item ≤ kvBalanceMaxSkippedRounds + p + 1)

lemma InTime.step {p : ℕ} (hp : p < kvBalanceWindow) {rounds' : List (AdmissionRound n)}
    (h : InTime item p rounds s) (hstep : AdmissionStep item s rounds' s') :
    InTime item p (rounds ++ rounds') s' := by
  rcases h with ⟨r, hr, hin⟩ | ⟨hmem, hahead, hle⟩
  · exact .inl ⟨r, mem_append_left _ hr, hin⟩
  · rcases hstep.passedOver hmem (by omega) with ⟨r, hr, hin⟩ | hpassed
    · exact .inl ⟨r, mem_append_right _ hr, hin⟩
    · refine .inr ⟨hpassed.mem, hpassed.ahead_le.trans hahead, ?_⟩
      have := hpassed.waiting_le
      rw [countP_append]
      omega

/-- **No request starves**: as long as a request from the first places of the queue is not admitted,
no more rounds admit something by the plan than it may be passed over, and there were requests ahead
of it. -/
lemma starvation_free {p : ℕ} (hp : p < kvBalanceWindow) (hitem : s.items[p]? = some item)
    (hrun : Machine.Steps (AdmissionStep item) s rounds s') :
    (∃ r ∈ rounds, item ∈ r.admitted)
      ∨ rounds.countP AdmissionRound.planned < kvBalanceMaxSkippedRounds + p + 1 := by
  have hlen : (ahead item s.items).length = p := by
    have hlt := (List.getElem?_eq_some_iff.mp hitem).1
    rw [ahead_eq_take s.nodup hitem, length_take]
    omega
  have hstart : InTime item p [] s := by
    refine .inr ⟨mem_of_getElem? hitem, hlen.le, ?_⟩
    rw [AdmissionState.waiting, hlen, countP_nil]
    omega
  have hend := hrun.invariant (J := InTime item p) (fun hJ hstep => hJ.step hp hstep) hstart
  rw [nil_append] at hend
  rcases hend with hin | ⟨-, -, hle⟩
  · exact .inl hin
  · rw [AdmissionState.waiting] at hle
    exact .inr (by omega)

/-- **KV-balanced admission**: the plan exists, admits as many candidates as the limits allow and is
fair to the ranks, the groups and the forced candidates; and in every run of a
first-come-first-served queue a request at a place in the window is admitted, unless fewer than
`KV_BALANCE_MAX_SKIPPED_ROUNDS` and its place and one more rounds admitted something by a plan. The
first part is about one plan by itself, and the second one about runs of the queue that makes them:
neither has a variable of the other but the number of ranks. -/
theorem kvBalancedAdmission_spec {m : ℕ} (c : Candidates m) (rankTokens start : Fin (n + 1) → ℕ)
    (cap : ℕ) (maxNewRequests : ℤ) (s s' : AdmissionState n) (item : RequestQueueItem n) (p : ℕ)
    (rounds : List (AdmissionRound n)) (hp : p < kvBalanceWindow) (hitem : s.items[p]? = some item)
    (hrun : Machine.Steps (AdmissionStep item) s rounds s') :
    (∃ plan, planKvBalancedAdmission c rankTokens start cap maxNewRequests = some plan
        ∧ PlanFair c start cap maxNewRequests plan)
      ∧ ((∃ r ∈ rounds, item ∈ r.admitted)
        ∨ rounds.countP AdmissionRound.planned < kvBalanceMaxSkippedRounds + p + 1) :=
  ⟨plan_fair c rankTokens start cap maxNewRequests, starvation_free hp hitem hrun⟩

/-- A generation request with a number of input tokens. -/
def generationItem (id tokens : ℕ) : RequestQueueItem 1 :=
  { plainItem 1 id 0 with
    inputTokenIds := replicate (tokens + 1) 0
    hasInput := by simp
    generationOnly := true }

/-- Two requests wait for a place on one of two ranks. -/
def sampleAdmission : AdmissionState 1 :=
  ⟨⟨true, ∅⟩, [generationItem 1 5, generationItem 2 3], by decide⟩

/-- What a round with room for one request pops: the shorter one, though it is behind the other. -/
def samplePopped : DefaultRouter.Popped 1 :=
  (sampleAdmission.router.popRequests sampleAdmission.queue (fun _ => ⟨0, 0⟩) 1 1 true).get
    (by decide +kernel)

example : samplePopped.requests = [generationItem 2 3] ∧ samplePopped.placement.size = 1 := by
  decide +kernel

/-- The queue after that round. -/
def sampleAfter : AdmissionState 1 := ⟨samplePopped.router, samplePopped.queue, by decide +kernel⟩

theorem kvBalancedAdmission_spec_sample :
    ∃ r : AdmissionRound 1, r.planned = true
      ∧ Machine.Steps (AdmissionStep (generationItem 1 5)) sampleAdmission [r] sampleAfter
      ∧ (generationItem 1 5 ∈ r.admitted ∨ [r].countP AdmissionRound.planned < 65) := by
  have hstep : AdmissionStep (generationItem 1 5) sampleAdmission
      [⟨samplePopped.requests, samplePopped.placement.size ≠ 0⟩] sampleAfter :=
    .popRequests (fun _ => ⟨0, 0⟩) 1 1 true samplePopped (some_get _).symm rfl rfl
  have hrun := Machine.Steps.single hstep
  have hspec :=
    (kvBalancedAdmission_spec (⟨fun i => i, fun _ => false, fun _ => 0⟩ : Candidates 2) (fun _ => 0)
    (fun _ => 0) 1 1 sampleAdmission sampleAfter (generationItem 1 5) 0 _ (by decide) rfl hrun).2
  refine ⟨_, by decide +kernel, hrun, ?_⟩
  rcases hspec with ⟨r, hr, hin⟩ | hlt
  · rw [mem_singleton.mp hr] at hin
    exact .inl hin
  · exact .inr hlt

end TrtLlm.Scheduler
