import TrtLlm.Util.Numbered
import TrtLlm.Util.Machine

/-!
`waiting_queue.py`: the queues of requests that wait for their admission, first come first served or
by priority.

The heap of the priority queue is kept as its entries; the smallest one is popped, which the
counters make unique.

* `WaitingItem`, `QueueCall`, `QueueAnswer`: the calls that all the queues have;
* `FCFSWaitingQueue.putBackNeutral`, `PriorityWaitingQueue.putBackNeutral`: **requests that were
  popped and are put back come out as before**.
-/

namespace TrtLlm.Scheduler

open List Option Prod

/-- `RequestQueueItem`, as far as the queues read it: an item without a request has no priority, and
the arrival times are those that `stamp_admission_times` gave it. -/
structure WaitingItem where
  id : ℕ
  priority : Option ℚ
  admitArrival : Option ℚ
  admitOrigArrival : Option ℚ
  /-- `_gen_admission_observed`. -/
  observed : Bool
  deriving DecidableEq

/-- The calls of `WaitingQueue`. -/
inductive QueueCall where
  | addRequest (request : WaitingItem)
  | addRequests (requests : List WaitingItem)
  | popRequest
  | peekRequest
  | peekRequests (k : ℤ)
  | prependRequest (request : WaitingItem)
  | prependRequests (requests : List WaitingItem)
  | removeByIds (requestIds : Finset ℕ)
  | len
  | iter

/-- What a call returns, or the text of the error it raises. -/
inductive QueueAnswer where
  | nothing
  | request (item : WaitingItem)
  | requests (items : List WaitingItem)
  | length (n : ℤ)
  | raised (message : String)

/-! ### First come, first served -/

/-- `FCFSWaitingQueue`. -/
structure FCFSWaitingQueue where
  items : List WaitingItem

namespace FCFSWaitingQueue

/-- `add_request`. -/
def addRequest (request : WaitingItem) (q : FCFSWaitingQueue) : FCFSWaitingQueue :=
  ⟨q.items ++ [request]⟩

/-- `add_requests`. -/
def addRequests (requests : List WaitingItem) (q : FCFSWaitingQueue) : FCFSWaitingQueue :=
  ⟨q.items ++ requests⟩

/-- `pop_request`. -/
def popRequest (q : FCFSWaitingQueue) : Option (WaitingItem × FCFSWaitingQueue) :=
  match q.items with
  | [] => none
  | item :: items => some (item, ⟨items⟩)

/-- `prepend_request`. -/
def prependRequest (request : WaitingItem) (q : FCFSWaitingQueue) : FCFSWaitingQueue :=
  ⟨request :: q.items⟩

/-- `prepend_requests`: `extendleft` of the reversed requests. -/
def prependRequests (requests : List WaitingItem) (q : FCFSWaitingQueue) : FCFSWaitingQueue :=
  requests.reverse.foldl (fun q request => q.prependRequest request) q

/-- `remove_by_ids`. -/
def removeByIds (requestIds : Finset ℕ) (q : FCFSWaitingQueue) : FCFSWaitingQueue :=
  ⟨q.items.filter fun item => item.id ∉ requestIds⟩

/-- A call of the queue. -/
def step (q : FCFSWaitingQueue) : QueueCall → List QueueAnswer × FCFSWaitingQueue
  | .addRequest request => ([.nothing], q.addRequest request)
  | .addRequests requests => ([.nothing], q.addRequests requests)
  | .popRequest =>
    match q.popRequest with
    | none => ([.raised "pop from an empty deque"], q)
    | some (item, q') => ([.request item], q')
  | .peekRequest =>
    match q.items with
    | [] => ([.raised "peek from an empty queue"], q)
    | item :: _ => ([.request item], q)
  | .peekRequests k => ([.requests (q.items.take k.toNat)], q)
  | .prependRequest request => ([.nothing], q.prependRequest request)
  | .prependRequests requests => ([.nothing], q.prependRequests requests)
  | .removeByIds requestIds => ([.nothing], q.removeByIds requestIds)
  | .len => ([.length q.items.length], q)
  | .iter => ([.requests q.items], q)

/-- The queue after a list of calls. -/
def after (calls : List QueueCall) : FCFSWaitingQueue := (Machine.run step ⟨[]⟩ calls).2

lemma items_prependRequests (requests : List WaitingItem) (q : FCFSWaitingQueue) :
    (q.prependRequests requests).items = requests ++ q.items := by
  rw [prependRequests, foldl_reverse]
  induction requests with
  | nil => rfl
  | cons request requests ih =>
    show request :: (requests.foldr _ q).items = _
    rw [ih]
    rfl

lemma popOrder (q : FCFSWaitingQueue) : PopOrder popRequest q q.items := by
  refine PopOrder.of_order (I := fun _ => True) items (fun q _ hpop => ?_)
    (fun q x q' _ hpop => ⟨trivial, ?_⟩) trivial
  · cases hitems : q.items with
    | nil => rfl
    | cons item items =>
      rw [popRequest, hitems] at hpop
      cases hpop
  · cases hitems : q.items with
    | nil =>
      rw [popRequest, hitems] at hpop
      cases hpop
    | cons item items =>
      rw [popRequest, hitems] at hpop
      obtain ⟨rfl, rfl⟩ := Prod.mk.inj (some.inj hpop)
      rfl

/-- **Requests that are put back are in front again.** -/
lemma putBackNeutral (q : FCFSWaitingQueue) : PutBackNeutral popRequest prependRequests q := by
  intro k back hback
  obtain ⟨htake, hdrop⟩ := q.popOrder.popMany k
  refine ⟨q.items.drop k, ?_, ?_⟩
  · rw [htake, take_append_drop]
    exact q.popOrder
  · have hrest := (popOrder _).unique hdrop
    have hput := popOrder ((popMany popRequest k q).2.prependRequests back)
    rwa [items_prependRequests, hrest] at hput

end FCFSWaitingQueue

/-! ### By priority -/

/-- `DEFAULT_REQUEST_PRIORITY`. -/
def defaultRequestPriority : ℚ := 1 / 2

/-- `PriorityWaitingQueue`: an entry of the heap has the negated priority and the item, under the
counter. -/
structure PriorityWaitingQueue where
  heap : Numbered (ℚ × WaitingItem)

namespace PriorityWaitingQueue

/-- `_get_priority`. -/
def getPriority (item : WaitingItem) : ℚ := item.priority.getD defaultRequestPriority

/-- The entry of an item, without its counter. -/
def entryOf (item : WaitingItem) : ℚ × WaitingItem := (-getPriority item, item)

/-- `__init__`. -/
def init : PriorityWaitingQueue := ⟨Numbered.empty⟩

/-- `_push`. -/
def addRequest (request : WaitingItem) (q : PriorityWaitingQueue) : PriorityWaitingQueue :=
  ⟨q.heap.add (entryOf request)⟩

/-- `add_requests`. -/
def addRequests (requests : List WaitingItem) (q : PriorityWaitingQueue) : PriorityWaitingQueue :=
  requests.foldl (fun q request => q.addRequest request) q

/-- The sorted heap. -/
def sorted (q : PriorityWaitingQueue) : List WaitingItem :=
  (q.heap.order fst).map fun e => e.value.2

/-- `pop_request`. -/
def popRequest (q : PriorityWaitingQueue) : Option (WaitingItem × PriorityWaitingQueue) :=
  (q.heap.pop? fst).map fun r => (r.1.value.2, ⟨r.2⟩)

/-- `_push_front`. -/
def prependRequest (request : WaitingItem) (q : PriorityWaitingQueue) : PriorityWaitingQueue :=
  ⟨q.heap.addFront (entryOf request)⟩

/-- `prepend_requests`, in reverse. -/
def prependRequests (requests : List WaitingItem)
    (q : PriorityWaitingQueue) : PriorityWaitingQueue :=
  requests.reverse.foldl (fun q request => q.prependRequest request) q

/-- `remove_by_ids`. -/
def removeByIds (requestIds : Finset ℕ) (q : PriorityWaitingQueue) : PriorityWaitingQueue :=
  ⟨q.heap.keep fun e => e.value.2.id ∉ requestIds⟩

/-- A call of the queue. -/
def step (q : PriorityWaitingQueue) : QueueCall → List QueueAnswer × PriorityWaitingQueue
  | .addRequest request => ([.nothing], q.addRequest request)
  | .addRequests requests => ([.nothing], q.addRequests requests)
  | .popRequest =>
    match q.popRequest with
    | none => ([.raised "pop from an empty queue"], q)
    | some (item, q') => ([.request item], q')
  | .peekRequest =>
    match q.sorted with
    | [] => ([.raised "peek from an empty queue"], q)
    | item :: _ => ([.request item], q)
  | .peekRequests k => ([.requests (q.sorted.take k.toNat)], q)
  | .prependRequest request => ([.nothing], q.prependRequest request)
  | .prependRequests requests => ([.nothing], q.prependRequests requests)
  | .removeByIds requestIds => ([.nothing], q.removeByIds requestIds)
  | .len => ([.length q.heap.entries.length], q)
  | .iter => ([.requests q.sorted], q)

/-- The queue after a list of calls. -/
def after (calls : List QueueCall) : PriorityWaitingQueue := (Machine.run step init calls).2

/-- The counters of the heap are fresh, and its entries are those of their items. -/
structure Ok (q : PriorityWaitingQueue) : Prop where
  fresh : q.heap.Fresh
  entry : ∀ e ∈ q.heap.entries, e.value = entryOf e.value.2

variable {q q' : PriorityWaitingQueue} {item : WaitingItem}

section

variable (h : q.Ok)
include h

lemma Ok.addRequest (request : WaitingItem) : (q.addRequest request).Ok where
  fresh := h.fresh.add _
  entry e he := by
    rcases mem_append.mp he with he | he
    · exact h.entry e he
    · rw [mem_singleton.mp he]
      rfl

lemma Ok.prependRequest (request : WaitingItem) : (q.prependRequest request).Ok where
  fresh := h.fresh.addFront _
  entry e he := by
    rcases mem_append.mp he with he | he
    · exact h.entry e he
    · rw [mem_singleton.mp he]
      rfl

lemma Ok.prependRequests (requests : List WaitingItem) : (q.prependRequests requests).Ok := by
  rw [PriorityWaitingQueue.prependRequests, foldl_reverse]
  induction requests with
  | nil => exact h
  | cons request requests ih => exact ih.prependRequest request

lemma Ok.addRequests (requests : List WaitingItem) : (q.addRequests requests).Ok := by
  induction requests generalizing q with
  | nil => exact h
  | cons request requests ih => exact ih (h.addRequest request)

lemma Ok.keep (p : Entry (ℚ × WaitingItem) → Bool) : (PriorityWaitingQueue.mk (q.heap.keep p)).Ok :=
  ⟨h.fresh.keep p, fun e he => h.entry e (mem_of_mem_filter he)⟩

lemma Ok.popRequest (hpop : q.popRequest = some (item, q')) : q'.Ok := by
  obtain ⟨⟨e, heap⟩, hpop', heq⟩ := map_eq_some_iff.mp hpop
  obtain ⟨-, rfl⟩ := Prod.mk.inj heq
  rw [Numbered.pop?] at hpop'
  split at hpop'
  · cases hpop'
  · obtain ⟨-, rfl⟩ := Prod.mk.inj (some.inj hpop')
    exact h.keep _

lemma Ok.step (call : QueueCall) : (q.step call).2.Ok := by
  cases call with
  | addRequest request => exact h.addRequest request
  | addRequests requests => exact h.addRequests requests
  | popRequest =>
    rw [PriorityWaitingQueue.step]
    split
    · exact h
    · exact h.popRequest (by assumption)
  | peekRequest =>
    rw [PriorityWaitingQueue.step]
    split <;> exact h
  | peekRequests | len | iter => exact h
  | prependRequest request => exact h.prependRequest request
  | prependRequests requests => exact h.prependRequests requests
  | removeByIds requestIds => exact h.keep _

end

lemma ok_after (calls : List QueueCall) : (after calls).Ok :=
  Machine.run_invariant (I := Ok) ⟨Numbered.fresh_empty, fun _ h => (not_mem_nil h).elim⟩
    (fun _ call h => h.step call) calls

/-- The queue pops what its heap does. -/
lemma popSim : PopSim (Numbered.popValue fst) popRequest
    (fun heap q => q.heap = heap ∧ q.Ok) (fun x => x = entryOf x.2) snd where
  none heap q hR hpop := by
    obtain ⟨rfl, -⟩ := hR
    rw [popRequest, map_eq_none_iff]
    exact map_eq_none_iff.mp hpop
  some heap q x heap' hR hpop := by
    obtain ⟨rfl, hok⟩ := hR
    obtain ⟨⟨e, heap₁⟩, hpop', heq⟩ := map_eq_some_iff.mp hpop
    obtain ⟨rfl, rfl⟩ := Prod.mk.inj heq
    have hres : q.popRequest = some (e.value.2, ⟨heap₁⟩) := by
      rw [popRequest, hpop']
      rfl
    have hmem : e ∈ q.heap.entries := by
      obtain ⟨horder, -⟩ := Numbered.order_of_pop? hok.fresh hpop'
      refine (perm_serve fst q.heap.entries).mem_iff.mp ?_
      show e ∈ q.heap.order fst
      rw [horder]
      exact mem_cons_self
    exact ⟨hok.entry e hmem, _, hres, rfl, hok.popRequest hres⟩

/-- **Requests that are put back come out as before.** -/
lemma putBackNeutral (calls : List QueueCall) :
    PutBackNeutral popRequest prependRequests (after calls) := by
  have hok := ok_after calls
  refine popSim.putBackNeutral (fun heap q back hR hback => ?_) ⟨rfl, hok⟩
    (Numbered.putBackNeutral fst hok.fresh)
  obtain ⟨rfl, hq⟩ := hR
  refine ⟨?_, hq.prependRequests _⟩
  rw [prependRequests, foldl_reverse]
  induction back with
  | nil => rfl
  | cons x back ih =>
    obtain ⟨hx, hback⟩ := forall_mem_cons.mp hback
    show Numbered.addFront (entryOf x.2) (foldr _ q (back.map snd)).heap = _
    rw [ih hback, ← hx]
    rfl

end PriorityWaitingQueue

end TrtLlm.Scheduler
