import TrtLlm.Util.PyDict
import TrtLlm.Util.Commitment

/-!
`ContextTransferCoordinator`: the ranks agree on the outcome of every context transfer.

The last rank is the coordinator. The others send their votes and time-outs to it, and it sends
time-outs and outcomes back, each over one ordered channel per rank. A check that fails is an
error of the call (`Check`).

* `ContextTransferVoteReducer`: `recordVote`, `recordTimeout` and `takeReady`;
* `Impl`: one rank, with `publishLocalOutcome`, `publishTimeout` and the handling of one packet;
* `World`: all ranks, the packets in flight, and for every request the log of what happened to it.
  `poll` and the loop of `shutdown` receive as many packets of each channel as have arrived.
-/

namespace TrtLlm.Disagg

open Commitment Function Fin

/-- `ContextTransferVote`. -/
abbrev ContextTransferVote := Outcome

/-- The value that a packet carries for a vote. -/
def ContextTransferVote.code : ContextTransferVote → ℕ
  | .completed => 1
  | .failed => 2

/-- The cast of a value to a vote, and the check that it is one. -/
def ContextTransferVote.ofCode : ℕ → Option ContextTransferVote
  | 1 => some .completed
  | 2 => some .failed
  | _ => none

def kTimedOutSignal : ℕ := 3

def kCloseMarker : ℕ := 4

/-- The two fields of a packet. -/
structure Packet where
  requestId : ℕ
  value : ℕ
  deriving DecidableEq

/-- The checks that a call can fail. -/
inductive Check
  | publishAfterShutdown
  | changedLocalVote
  | timeoutAfterVote
  | pollAfterShutdown
  | invalidVote
  | changedVote
  | duplicateClose
  | voteAfterClose
  | duplicateCloseAck
  | invalidOutcome
  | commitBeforeVote
  deriving DecidableEq

/-- The checks on how the object is used. The others are those of `recordVote`, `drainVotes` and
`drainUpdates`. -/
def Check.ofCaller : Check → Bool
  | .publishAfterShutdown | .changedLocalVote | .timeoutAfterVote | .pollAfterShutdown => true
  | _ => false

/-- `ContextTransferConsensusResult`. -/
structure ConsensusResult where
  completedRequestIds : Finset ℕ
  failedRequestIds : Finset ℕ
  timedOutRequestIds : Finset ℕ

/-- The requests that the result reports with an outcome. -/
def ConsensusResult.outcomeIds (result : ConsensusResult) : Outcome → Finset ℕ
  | .completed => result.completedRequestIds
  | .failed => result.failedRequestIds

def ConsensusResult.empty : ConsensusResult := ⟨∅, ∅, ∅⟩

/-- The order in which a set of request ids is iterated. -/
structure IterOrder where
  list : Finset ℕ → List ℕ
  nodup : ∀ ids, (list ids).Nodup
  mem : ∀ ids q, q ∈ list ids ↔ q ∈ ids

variable {n : ℕ}

/-! ### `ContextTransferVoteReducer` -/

/-- `RequestVotes`. -/
abbrev RequestVotes (n : ℕ) := Tally (Fin (n + 1))

/-- `recordVote`. -/
def recordVote (requestVotes : UMap ℕ (RequestVotes n)) (participantRank : Fin (n + 1))
    (requestId vote : ℕ) : Except Check (UMap ℕ (RequestVotes n)) :=
  match ContextTransferVote.ofCode vote with
  | none => .error .invalidVote
  | some v =>
    let votes := (requestVotes.find? requestId).getD .fresh
    match votes.votes participantRank with
    | some recorded =>
      if recorded = v then .ok (requestVotes.set requestId votes) else .error .changedVote
    | none => .ok (requestVotes.set requestId (votes.record participantRank v))

/-- `recordTimeout`. -/
def recordTimeout (requestVotes : UMap ℕ (RequestVotes n)) (requestId : ℕ) :
    UMap ℕ (RequestVotes n) :=
  requestVotes.set requestId ((requestVotes.find? requestId).getD .fresh).expire

/-- All votes are in. -/
def ready (votes : RequestVotes n) : Bool := votes.terminalCount = n + 1

/-- The requests whose votes satisfy a condition. -/
def idsWhere (requestVotes : UMap ℕ (RequestVotes n)) (p : RequestVotes n → Bool) : Finset ℕ :=
  ((requestVotes.filter fun _ votes => p votes).keys).toFinset

/-- `takeReady`: the result, and the entries that stay. -/
def takeReady (requestVotes : UMap ℕ (RequestVotes n)) :
    ConsensusResult × UMap ℕ (RequestVotes n) :=
  (⟨idsWhere requestVotes fun votes => ready votes && !(votes.failed || votes.timedOut),
    idsWhere requestVotes fun votes => ready votes && (votes.failed || votes.timedOut),
    idsWhere requestVotes fun votes => votes.timeoutPending⟩,
   (requestVotes.filter fun _ votes => !ready votes).mapVal fun _ votes =>
     { votes with timeoutPending := false })

/-! ### One rank -/

/-- The fields of `ContextTransferCoordinator::Impl`. The sends that are not completed yet are the
packets in flight. -/
structure Impl (n : ℕ) where
  reducer : UMap ℕ (RequestVotes n)
  publishedLocalVotes : UMap ℕ ContextTransferVote
  publishedTimeouts : USet ℕ
  closedPeers : USet (Fin (n + 1))
  shutdown : Bool
  closeSent : Bool
  closeAcknowledged : Bool

namespace Impl

def init : Impl n := ⟨∅, ∅, ∅, ∅, false, false, false⟩

section

variable (rank : Fin (n + 1)) (impl : Impl n) (requestId : ℕ)

/-- `publishLocalOutcome`, with the packets that are sent. -/
def publishLocalOutcome (failed : Bool) :
    Except Check (Impl n × List Packet) :=
  let vote : ContextTransferVote := if failed then .failed else .completed
  if impl.shutdown then .error .publishAfterShutdown
  else
    match impl.publishedLocalVotes.find? requestId with
    | some published =>
      if published = vote then .ok (impl, []) else .error .changedLocalVote
    | none =>
      let published := { impl with
        publishedLocalVotes := impl.publishedLocalVotes.set requestId vote }
      if rank = last n then
        (recordVote impl.reducer rank requestId (ContextTransferVote.code vote)).map
          fun reducer => ({ published with reducer := reducer }, [])
      else .ok (published, [⟨requestId, ContextTransferVote.code vote⟩])

/-- `publishTimeout`, with the packets that are sent. -/
def publishTimeout :
    Except Check (Impl n × List Packet) :=
  if impl.shutdown then .error .publishAfterShutdown
  else if requestId ∈ impl.publishedLocalVotes then .error .timeoutAfterVote
  else if requestId ∈ impl.publishedTimeouts then .ok (impl, [])
  else
    let published := { impl with publishedTimeouts := impl.publishedTimeouts.insert requestId }
    if rank = last n then
      .ok ({ published with reducer := recordTimeout impl.reducer requestId }, [])
    else .ok (published, [⟨requestId, kTimedOutSignal⟩])

end

/-- One packet in the loop of `drainVotes`. -/
def receiveEvent (peer : Fin (n + 1)) (impl : Impl n) (packet : Packet) :
    Except Check (Impl n) :=
  if packet.value = kCloseMarker then
    if peer ∈ impl.closedPeers then .error .duplicateClose
    else .ok { impl with closedPeers := impl.closedPeers.insert peer }
  else if peer ∈ impl.closedPeers then .error .voteAfterClose
  else if packet.value = kTimedOutSignal then
    .ok { impl with reducer := recordTimeout impl.reducer packet.requestId }
  else
    (recordVote impl.reducer peer packet.requestId packet.value).map fun reducer =>
      { impl with reducer := reducer }

/-- The tables forget some requests. -/
def forget (impl : Impl n) (ids : List ℕ) : Impl n :=
  { impl with
    publishedLocalVotes := ids.foldl UMap.erase impl.publishedLocalVotes
    publishedTimeouts := ids.foldl UMap.erase impl.publishedTimeouts }

/-- `completeCoordinatorUpdates`, with the packets that are sent to every peer. -/
def completeCoordinatorUpdates (order : IterOrder) (impl : Impl n) :
    (Impl n × List Packet) × ConsensusResult :=
  let ready := takeReady impl.reducer
  let timedOut := order.list ready.1.timedOutRequestIds
  let failed := order.list ready.1.failedRequestIds
  let completed := order.list ready.1.completedRequestIds
  (({ impl with reducer := ready.2 }.forget (failed ++ completed),
      timedOut.map (fun q => ⟨q, kTimedOutSignal⟩)
        ++ failed.map (fun q => ⟨q, ContextTransferVote.code .failed⟩)
        ++ completed.map (fun q => ⟨q, ContextTransferVote.code .completed⟩)),
    ready.1)

/-- The end of a shutdown on the coordinator: all peers have closed, and it gives up what is not
decided. The packets are sent to every peer. -/
def closeIfDone (impl : Impl n) : Impl n × List Packet :=
  if impl.shutdown ∧ ¬impl.closeSent ∧ impl.closedPeers.size = n then
    ({ impl with
        reducer := ∅
        publishedLocalVotes := ∅
        publishedTimeouts := ∅
        closeSent := true }, [⟨0, kCloseMarker⟩])
  else (impl, [])

/-- One packet in the loop of `drainUpdates`. -/
def receiveUpdate (impl : Impl n) (result : ConsensusResult) (packet : Packet) :
    Except Check (Impl n × ConsensusResult) :=
  if packet.value = kCloseMarker then
    if impl.closeAcknowledged then .error .duplicateCloseAck
    else .ok ({ impl with
      closeAcknowledged := true
      publishedLocalVotes := ∅
      publishedTimeouts := ∅ }, result)
  else if packet.value = kTimedOutSignal then
    .ok (impl, { result with
      timedOutRequestIds := insert packet.requestId result.timedOutRequestIds })
  else
    match ContextTransferVote.ofCode packet.value with
    | none => .error .invalidOutcome
    | some outcome =>
      if packet.requestId ∉ impl.publishedLocalVotes then .error .commitBeforeVote
      else
        .ok (impl.forget [packet.requestId], match outcome with
          | .failed => { result with
              failedRequestIds := insert packet.requestId result.failedRequestIds }
          | .completed => { result with
              completedRequestIds := insert packet.requestId result.completedRequestIds })

end Impl

/-! ### All ranks -/

/-- The ranks, the packets in flight from each rank to the coordinator and back, oldest first, and
the log of every request, newest event first. -/
structure World (n : ℕ) where
  impls : Fin (n + 1) → Impl n
  events : Fin (n + 1) → List Packet
  updates : Fin (n + 1) → List Packet
  log : ℕ → List (Event (Fin (n + 1)))

namespace World

def init : World n := ⟨fun _ => .init, fun _ => [], fun _ => [], fun _ => []⟩

/-- `queueUpdateForPeers`, for several packets. -/
def queueUpdates (w : World n) (packets : List Packet) : Fin (n + 1) → List Packet :=
  fun peer => if peer = last n then w.updates peer else w.updates peer ++ packets

/-- A call of `publishLocalOutcome`. The log notes the first vote of the rank. -/
def publishLocalOutcome (w : World n) (rank : Fin (n + 1)) (requestId : ℕ) (failed : Bool) :
    Except Check (World n) :=
  ((w.impls rank).publishLocalOutcome rank requestId failed).map fun r =>
    { w with
      impls := update w.impls rank r.1
      events := update w.events rank (w.events rank ++ r.2)
      log := if requestId ∈ (w.impls rank).publishedLocalVotes then w.log
        else update w.log requestId
          (.voted rank (if failed then .failed else .completed) :: w.log requestId) }

/-- A call of `publishTimeout`. The log notes the first one of the rank. -/
def publishTimeout (w : World n) (rank : Fin (n + 1)) (requestId : ℕ) : Except Check (World n) :=
  ((w.impls rank).publishTimeout rank requestId).map fun r =>
    { w with
      impls := update w.impls rank r.1
      events := update w.events rank (w.events rank ++ r.2)
      log := if requestId ∈ (w.impls rank).publishedTimeouts then w.log
        else update w.log requestId (.timedOut rank :: w.log requestId) }

/-- The coordinator receives the packets of a peer that have arrived. -/
def drainPeer (peer : Fin (n + 1)) : ℕ → World n → Except Check (World n)
  | 0, w => .ok w
  | arrived + 1, w =>
    match w.events peer with
    | [] => .ok w
    | packet :: rest =>
      ((w.impls (last n)).receiveEvent peer packet).bind fun impl =>
        drainPeer peer arrived { w with
          impls := update w.impls (last n) impl
          events := update w.events peer rest }

/-- `drainVotes`. -/
def drainVotes (arrived : Fin (n + 1) → ℕ) (w : World n) : Except Check (World n) :=
  ((List.finRange (n + 1)).filter fun peer => peer ≠ last n).foldlM
    (fun w peer => w.drainPeer peer (arrived peer)) w

/-- The coordinator decides. What is handed out is noted for the coordinator as well. -/
def logDecision (shown : Bool) (result : ConsensusResult) (requestId : ℕ)
    (log : List (Event (Fin (n + 1)))) : List (Event (Fin (n + 1))) :=
  let timed := if requestId ∈ result.timedOutRequestIds then
    Slot.logIf shown (.timeoutReported (last n)) log else log
  if requestId ∈ result.failedRequestIds then
    Slot.logIf shown (.reported (last n) .failed) (.decided .failed :: timed)
  else if requestId ∈ result.completedRequestIds then
    Slot.logIf shown (.reported (last n) .completed) (.decided .completed :: timed)
  else timed

/-- `completeCoordinatorUpdates`. -/
def completeUpdates (order : IterOrder) (shown : Bool) (w : World n) : World n × ConsensusResult :=
  let r := (w.impls (last n)).completeCoordinatorUpdates order
  ({ w with
      impls := update w.impls (last n) r.1.1
      updates := w.queueUpdates r.1.2
      log := fun q => logDecision shown r.2 q (w.log q) }, r.2)

/-- The end of a shutdown. -/
def closeIfDone (w : World n) : World n :=
  let r := (w.impls (last n)).closeIfDone
  { w with
    impls := update w.impls (last n) r.1
    updates := w.queueUpdates r.2 }

/-- The log of a request after a packet of the coordinator is handed out. -/
def logUpdate (shown : Bool) (rank : Fin (n + 1)) (packet : Packet)
    (log : ℕ → List (Event (Fin (n + 1)))) : ℕ → List (Event (Fin (n + 1))) :=
  if packet.value = kCloseMarker then log
  else update log packet.requestId
    (if packet.value = kTimedOutSignal then
      Slot.logIf shown (.timeoutReported rank) (log packet.requestId)
    else match ContextTransferVote.ofCode packet.value with
      | some outcome => Slot.logIf shown (.reported rank outcome) (log packet.requestId)
      | none => log packet.requestId)

/-- `drainUpdates`. -/
def drainUpdates (shown : Bool) (rank : Fin (n + 1)) :
    ℕ → World n → ConsensusResult → Except Check (World n × ConsensusResult)
  | 0, w, result => .ok (w, result)
  | arrived + 1, w, result =>
    match w.updates rank with
    | [] => .ok (w, result)
    | packet :: rest =>
      ((w.impls rank).receiveUpdate result packet).bind fun r =>
        drainUpdates shown rank arrived { w with
          impls := update w.impls rank r.1
          updates := update w.updates rank rest
          log := logUpdate shown rank packet w.log } r.2

section

variable (rank : Fin (n + 1)) (arrived : Fin (n + 1) → ℕ) (order : IterOrder)

/-- `progress`, with the numbers of packets that have arrived on the channels; its result is handed
out or not. -/
def progress (shown : Bool)
    (w : World n) : Except Check (World n × ConsensusResult) :=
  if rank = last n then
    (w.drainVotes arrived).map fun w =>
      let r := w.completeUpdates order shown
      (r.1.closeIfDone, r.2)
  else drainUpdates shown rank (arrived rank) w .empty

/-- `poll`. -/
def poll (w : World n) :
    Except Check (World n × ConsensusResult) :=
  if (w.impls rank).shutdown then .error .pollAfterShutdown
  else (w.progress rank arrived order true).map fun r =>
    ({ r.1 with log := fun q => .polled rank :: r.1.log q }, r.2)

end

/-- The start of `shutdown`. -/
def shutdown (rank : Fin (n + 1)) (w : World n) : World n :=
  if (w.impls rank).shutdown then w
  else { w with
    impls := update w.impls rank { w.impls rank with shutdown := true }
    events := if rank = last n then w.events
      else update w.events rank (w.events rank ++ [⟨0, kCloseMarker⟩]) }

/-- What can happen next. -/
inductive Action (n : ℕ)
  | publishLocalOutcome (rank : Fin (n + 1)) (requestId : ℕ) (failed : Bool)
  | publishTimeout (rank : Fin (n + 1)) (requestId : ℕ)
  | poll (rank : Fin (n + 1)) (arrived : Fin (n + 1) → ℕ) (order : IterOrder)
  | shutdown (rank : Fin (n + 1))
  /-- One turn of the loop of `shutdown`. -/
  | shutdownLoop (rank : Fin (n + 1)) (arrived : Fin (n + 1) → ℕ) (order : IterOrder)

def step (w : World n) : Action n → Except Check (World n)
  | .publishLocalOutcome rank requestId failed => w.publishLocalOutcome rank requestId failed
  | .publishTimeout rank requestId => w.publishTimeout rank requestId
  | .poll rank arrived order => (w.poll rank arrived order).map Prod.fst
  | .shutdown rank => .ok (w.shutdown rank)
  | .shutdownLoop rank arrived order =>
    if (w.impls rank).shutdown then (w.progress rank arrived order false).map Prod.fst else .ok w

/-- What the callers promise: no rank publishes for a request that it was told the outcome of, and
no time-out after its vote. -/
def Allowed (w : World n) : Action n → Prop
  | .publishLocalOutcome rank requestId _ => ∀ v, .reported rank v ∉ w.log requestId
  | .publishTimeout rank requestId => ∀ v, .voted rank v ∉ w.log requestId
  | _ => True

/-- The worlds of all runs. A call that fails a check on its use changes nothing. -/
inductive Reachable : World n → Prop
  | init : Reachable .init
  | step {w w' : World n} (a : Action n) (h : Reachable w) (ha : w.Allowed a)
      (hstep : w.step a = .ok w') : Reachable w'

end World

end TrtLlm.Disagg
