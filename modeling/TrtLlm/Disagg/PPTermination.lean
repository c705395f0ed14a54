import TrtLlm.Util.PyDict

/-!
`DisaggPPTerminationHandler`: the agreement of the pipeline ranks on the requests to terminate.

A message goes around the ring of the ranks. On its way it collects one vote of every rank for
the requests that rank 0 proposed, and it carries the requests that had all votes in the round
before. A rank takes these out of its table before it votes, and hands them to the terminator
after it has passed the message on.

* `terminate`, `terminatePendingRequests`: the two entry points, on one rank;
* `popPending_spec`: the requests that are taken out;
* `updateVotes_find?`: the votes that the next rank, or the decision, sees.
-/

namespace TrtLlm.Disagg

open List UMap Prod

/-- The message of the ring. -/
structure TermState where
  /-- Request ids with the number of ranks that voted for them. -/
  ready : UMap ℕ ℕ
  /-- The request ids to be terminated in the current iteration. -/
  term : List ℕ

/-- The handler of a rank. -/
structure PPTerminationHandler (Req : Type*) where
  pendingTermination : UMap ℕ Req
  terminatingIteration : ℕ
  /-- The requests that the call in progress has still to hand to the terminator; `none` between
  two calls. -/
  toTerminate : Option (List Req)

namespace PPTerminationHandler

variable {Req : Type*}

/-- `__init__`. -/
def init : PPTerminationHandler Req := ⟨∅, 0, none⟩

/-- The number of iterations that the rank has begun. -/
def begun (h : PPTerminationHandler Req) : ℕ :=
  h.terminatingIteration + if h.toTerminate.isSome then 1 else 0

/-- `terminate`. -/
def terminate (pyRequestId : Req → ℕ) (h : PPTerminationHandler Req) (request : Req) :
    PPTerminationHandler Req :=
  { h with pendingTermination := h.pendingTermination.assign (pyRequestId request) request }

/-- The comprehension `reqs_to_terminate`: the requests of the message that are pending leave the
table. -/
def popPending (pending : UMap ℕ Req) : List ℕ → List Req × UMap ℕ Req
  | [] => ([], pending)
  | reqId :: ids =>
    match pending.find? reqId with
    | none => popPending pending ids
    | some req =>
      (req :: (popPending (pending.erase reqId) ids).1, (popPending (pending.erase reqId) ids).2)

/-- `ready_req_map` after the vote of a rank. Rank 0 proposes the requests, the others raise the
count of those they have pending. -/
def updateVotes (ppRank : ℕ) (pending : UMap ℕ Req) (ready : UMap ℕ ℕ) : UMap ℕ ℕ :=
  if ppRank = 0 then pending.mapVal fun _ _ => 1
  else ready.mapVal fun reqId numRanks => if reqId ∈ pending then numRanks + 1 else numRanks

/-- `new_term_state`. The last rank decides, so that the votes need not go back to rank 0. -/
def newTermState (ppRank ppSize : ℕ) (ready : UMap ℕ ℕ) (terminateReqIds : List ℕ) : TermState :=
  if ppRank = ppSize - 1 then
    ⟨∅, (ready.entries.filter fun e => e.2 = ppSize).map fst⟩
  else ⟨ready, terminateReqIds⟩

/-- `terminate_pending_requests` from the receipt of a message (none in the first iteration of
rank 0) to `isend_object`. The terminator calls follow one by one. -/
def terminatePendingRequests (ppRank ppSize : ℕ) (h : PPTerminationHandler Req)
    (termState : Option TermState) : TermState × PPTerminationHandler Req :=
  let readyReqMap := (termState.map TermState.ready).getD ∅
  let terminateReqIds := (termState.map TermState.term).getD []
  let popped := popPending h.pendingTermination terminateReqIds
  let readyReqMap := updateVotes ppRank popped.2 readyReqMap
  (newTermState ppRank ppSize readyReqMap terminateReqIds,
    { h with pendingTermination := popped.2, toTerminate := some popped.1 })

/-! ### The entry points, one by one -/

variable {ids : List ℕ}

lemma begun_terminate (pyRequestId : Req → ℕ) (h : PPTerminationHandler Req) (request : Req) :
    (h.terminate pyRequestId request).begun = h.begun := rfl

lemma popPending_find? (pending : UMap ℕ Req) (ids : List ℕ) (id : ℕ) :
    (popPending pending ids).2.find? id = if id ∈ ids then none else pending.find? id := by
  induction ids generalizing pending with
  | nil => simp [popPending]
  | cons reqId ids ih =>
    rw [popPending]
    cases hreq : pending.find? reqId with
    | none =>
      simp only [ih, mem_cons]
      by_cases hid : id = reqId
      · subst hid
        simp [hreq]
      · simp [hid]
    | some req =>
      simp only [ih, mem_cons, find?_erase]
      by_cases hid : id = reqId <;> simp [hid]

/-- A table that holds all the ids gives their requests, in the order of the ids. -/
lemma popPending_ids {pyRequestId : Req → ℕ} {pending : UMap ℕ Req}
    (hkeys : ∀ id req, pending.find? id = some req → pyRequestId req = id) (hnodup : ids.Nodup)
    (hmem : ∀ id ∈ ids, id ∈ pending) : (popPending pending ids).1.map pyRequestId = ids := by
  induction ids generalizing pending with
  | nil => rfl
  | cons reqId ids ih =>
    obtain ⟨req, hreq⟩ := mem_iff_find?.mp (hmem reqId mem_cons_self)
    rw [nodup_cons] at hnodup
    have hrest : (popPending (pending.erase reqId) ids).1.map pyRequestId = ids := by
      refine ih (fun id r hr => ?_) hnodup.2 fun id hid => ?_
      · rw [find?_erase] at hr
        split_ifs at hr
        exact hkeys id r hr
      · exact mem_erase.mpr
          ⟨fun h => hnodup.1 (h ▸ hid), hmem id (mem_cons_of_mem _ hid)⟩
    rw [popPending]
    simp only [hreq, map_cons, hrest, hkeys reqId req hreq]

/-- A request is taken out once at most, and then it is no longer pending. -/
lemma popPending_count [DecidableEq Req] {pyRequestId : Req → ℕ} {pending : UMap ℕ Req}
    (hkeys : ∀ id req, pending.find? id = some req → pyRequestId req = id) (ids : List ℕ)
    (req : Req) :
    (popPending pending ids).1.count req
      + (if (popPending pending ids).2.find? (pyRequestId req) = some req then 1 else 0)
      ≤ if pending.find? (pyRequestId req) = some req then 1 else 0 := by
  induction ids generalizing pending with
  | nil =>
    simp only [popPending, count_nil, Nat.zero_add]
    exact le_rfl
  | cons reqId ids ih =>
    rw [popPending]
    cases hreq : pending.find? reqId with
    | none => exact ih hkeys
    | some first =>
      have hkeys' : ∀ id r, (pending.erase reqId).find? id = some r → pyRequestId r = id := by
        intro id r hr
        rw [find?_erase] at hr
        split_ifs at hr
        exact hkeys id r hr
      have hrest := ih hkeys'
      rw [find?_erase] at hrest
      by_cases hid : pyRequestId req = reqId
      · rw [if_pos hid] at hrest
        have hpend : pending.find? (pyRequestId req) = some first := hid ▸ hreq
        by_cases hfirst : first = req
        · subst hfirst
          simp only [count_cons_self, hpend, if_true]
          simp only [reduceCtorEq, if_false] at hrest
          omega
        · simp only [count_cons_of_ne hfirst, hpend, Option.some.injEq, hfirst, if_false]
          simpa using hrest
      · rw [if_neg hid] at hrest
        have hfirst : first ≠ req := fun h => hid (h ▸ hkeys reqId first hreq)
        simpa [count_cons_of_ne hfirst] using hrest

/-- The votes that a rank passes on. -/
lemma updateVotes_find? (ppRank : ℕ) (pending : UMap ℕ Req) (ready : UMap ℕ ℕ) (id : ℕ) :
    (updateVotes ppRank pending ready).find? id
      = if ppRank = 0 then (if id ∈ pending then some 1 else none)
        else (ready.find? id).map fun c => if id ∈ pending then c + 1 else c := by
  rw [updateVotes]
  by_cases h : ppRank = 0
  · rw [if_pos h, if_pos h, find?_mapVal]
    split_ifs with h'
    · obtain ⟨req, hreq⟩ := mem_iff_find?.mp h'
      simp [hreq]
    · simp [find?_eq_none_iff.mpr h']
  · rw [if_neg h, if_neg h, find?_mapVal]

/-- The ids that the last rank decides on. -/
lemma mem_newTermState_last {ppRank ppSize : ℕ} {ready : UMap ℕ ℕ} {id : ℕ}
    (hlast : ppRank = ppSize - 1) :
    id ∈ (newTermState ppRank ppSize ready ids).term ↔ ready.find? id = some ppSize := by
  rw [newTermState, if_pos hlast, find?_eq_some_iff, mem_map]
  constructor
  · rintro ⟨⟨k, c⟩, he, rfl⟩
    obtain ⟨hmem, hc⟩ := mem_filter.mp he
    obtain rfl : c = ppSize := by simpa using hc
    exact hmem
  · intro h
    exact ⟨(id, ppSize), mem_filter.mpr ⟨h, by simp⟩, rfl⟩

lemma nodup_newTermState_last {ppRank ppSize : ℕ} {ready : UMap ℕ ℕ}
    (hlast : ppRank = ppSize - 1) : (newTermState ppRank ppSize ready ids).term.Nodup := by
  rw [newTermState, if_pos hlast]
  exact (Sublist.map fst filter_sublist).nodup ready.nodup

end PPTerminationHandler

end TrtLlm.Disagg
