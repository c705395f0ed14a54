import TrtLlm.Blob.Attempt
import TrtLlm.Blob.RegionBinding
import TrtLlm.Util.Machine

/-!
The blob backend as a machine (`BlobBackend` in `disaggregation/blob/backend.py`).

An event is one step of one of its threads, with the driver's answer where the step has one. The
threads are the submitting thread of every attempt, the driver threads that call `on_change`, the
progress thread, any number of threads in `shutdown`, and the one that gives the hold back. All
interleavings of their steps are runs, and an event for which no thread is ready does nothing.

* `submit`, `handOver`, `driverReturns`: a submission and its hand-over;
* `notify`, `record`: a notification queries the driver, and its report gets the lock later;
* `progress`: the next step of the progress thread, which forwards cancels and tears down;
* `shutdown`, `shutdownLabels`, `shutdownReturn`: the critical sections of `shutdown`;
* `checkHold`, `releaseHold`: `RegionBinding.release_hold`.

The waits and their conditions are left out: the progress thread may begin a round, and a shutdown
may give up waiting, at any time.
-/

namespace TrtLlm.Blob

/-- What the backend reads of the driver's capabilities, and the regions. -/
structure Config where
  regions : List SlotRegion
  get : Bool
  put : Bool
  cancel : Bool
  hints : Bool
  deviceMemory : Bool
  maxRowsPerOp : Option ℕ

/-- One layer group of a view. -/
structure LayerGroupRows where
  rows : ℕ
  objectKeys : Option (List (List UInt8))
  addresses : Option (List ℤ)
  regionIndex : Option ℕ

structure Submission where
  isFetch : Bool
  hintGiven : Bool
  groups : List LayerGroupRows

/-- `InvalidSubmission`, with the check that failed, and `SubmissionRejected`. -/
inductive Refusal
  | hintForPublish
  | hintNotRead
  | notCapable
  | incompleteGroup
  | badKeys
  | badAddresses
  | regionNotRegistered
  | notASlot
  | sharedDestination
  | shutDown
  | protocolBroken (violation : String)
deriving DecidableEq, Repr

/-! ### Checks of a submission -/

/-- The address is a slot of the region. -/
def isSlot (region : SlotRegion) (address : ℤ) : Bool :=
  let slot := (address - region.address) / region.slotBytes
  let misalignment := (address - region.address) % region.slotBytes
  0 ≤ slot ∧ slot < region.slotCount ∧ misalignment = 0

/-- All keys have one positive width. -/
def keysOk (rows : ℕ) (keys : List (List UInt8)) : Bool :=
  keys.length = rows ∧ keys.all fun key =>
    decide (key ≠ []) && decide (key.length = (keys.headD []).length)

/-- `_checked_group_rows`. -/
def checkedGroupRows (cfg : Config) (group : LayerGroupRows) : Except Refusal GroupRows :=
  match group.objectKeys, group.addresses, group.regionIndex with
  | some keys, some addresses, some regionIndex =>
    if keysOk group.rows keys = false then .error .badKeys
    else if addresses.length ≠ group.rows then .error .badAddresses
    else if regionIndex ∉ servedRegionIndices cfg.regions cfg.deviceMemory then
      .error .regionNotRegistered
    else
      match cfg.regions[regionIndex]? with
      | none => .error .regionNotRegistered
      | some region =>
        if addresses.all (isSlot region) then .ok ⟨keys, addresses, regionIndex⟩
        else .error .notASlot
  | _, _, _ => .error .incompleteGroup

/-- The checks of `_submit` before the lock. -/
def checkedGroups (cfg : Config) (sub : Submission) : Except Refusal (List GroupRows) := do
  if sub.hintGiven && !sub.isFetch then throw .hintForPublish
  if sub.hintGiven && !cfg.hints then throw .hintNotRead
  if !(if sub.isFetch then cfg.get else cfg.put) then throw .notCapable
  let groups ← sub.groups.mapM (checkedGroupRows cfg)
  if sub.isFetch && !decide (groups.flatMap GroupRows.addresses).Nodup then throw .sharedDestination
  return groups

/-! ### The state -/

/-- Where the progress thread stands. -/
inductive Progress
  | forwardCancels
  | readShutdown
  | drain
  | check
  | revoke (todo : List Revocation)
  | forget (r : Revocation) (todo : List Revocation)
  | finish
  | wait
  | done
deriving DecidableEq, Repr

/-- Where a thread in `shutdown` stands. -/
inductive Shutdown
  | forced
  | labelled (attempts : List ℕ)
  | returned
deriving DecidableEq, Repr

structure State where
  attempts : List Attempt
  nextAttemptId : ℕ
  shutdownRequested : Bool
  teardownDone : Bool
  protocolViolation : Option String
  drained : Bool
  binding : RegionBinding
  progress : Progress
  shutdowns : List Shutdown
  /-- A thread in `release_hold` found nothing live. -/
  releasing : Bool

/-- The backend over a binding that is registered. -/
def State.init (b : RegionBinding) : State where
  attempts := []
  nextAttemptId := 0
  shutdownRequested := false
  teardownDone := false
  protocolViolation := none
  drained := false
  binding := b
  progress := .forwardCancels
  shutdowns := []
  releasing := false

inductive Event
  | submit (sub : Submission)
  | handOver (a : ℕ)
  | driverReturns (a : ℕ) (answer : PutAnswer)
  | notify (a i : ℕ) (q : QueryAnswers)
  | record (a i n : ℕ)
  | cancel (a : ℕ)
  /-- With what the driver answers to `drain` or a revocation; no answer is an exception. -/
  | progress (answer : Option Bool)
  | shutdown
  | shutdownLabels (n : ℕ)
  | shutdownReturn (n : ℕ)
  | checkHold
  | releaseHold

/-- What a step shows to the outside. -/
inductive Output
  | raised (refusal : Refusal)
  | revoke (r : Revocation)
  | stillAccessible (attempts regions : List ℕ)
  | holdReleased
deriving DecidableEq, Repr

def shutdownFault : String := "blob backend shut down"

namespace State

def modifyAttempt (s : State) (a : ℕ) (f : Attempt → Attempt) : State :=
  { s with attempts := s.attempts.modify a f }

/-- The violation is latched. -/
def latch (s : State) (violation : Option String) : State :=
  { s with protocolViolation := s.protocolViolation <|> violation }

/-- What the submitting thread is about to record as a violation. -/
def handOverViolation (s : State) (a : ℕ) : Option String :=
  match s.attempts[a]?.map Attempt.thread with
  | some (.failing reason true) => some reason
  | _ => none

/-- What a report is about to record as a violation. -/
def reportViolation (s : State) (a i n : ℕ) : Option String :=
  match (s.attempts[a]?.bind fun A => A.calls[i]?).bind fun c => c.reports[n]? with
  | some (.broken reason) => some reason
  | _ => none

/-- `_submit`. -/
def submit (cfg : Config) (s : State) (sub : Submission) : List Output × State :=
  match checkedGroups cfg sub with
  | .error refusal => ([.raised refusal], s)
  | .ok groups =>
    let attempt := Attempt.init s.nextAttemptId sub.isFetch groups
      (callRanges cfg.maxRowsPerOp groups)
    let s := { s with nextAttemptId := s.nextAttemptId + 1 }
    if s.shutdownRequested then ([.raised .shutDown], s)
    else
      match s.protocolViolation with
      | some violation => ([.raised (.protocolBroken violation)], s)
      | none =>
        ([], { s with attempts := s.attempts ++ [attempt.concludeOrQuiesceAndRetire] })

/-- The next step of `_progress_loop`. -/
def progressStep (cfg : Config) (s : State) (answer : Option Bool) : List Output × State :=
  match s.progress with
  | .forwardCancels =>
    let s := { s with progress := .readShutdown }
    ([], if cfg.cancel then { s with attempts := s.attempts.map Attempt.forwardCancels } else s)
  | .readShutdown => ([], { s with progress := if s.shutdownRequested then .drain else .wait })
  | .drain =>
    if s.drained then ([], { s with progress := .check })
    else
      match answer with
      | some drained => ([], { s with drained := drained, progress := .check })
      | none => ([], { s with progress := .wait })
  | .check =>
    if s.attempts.any fun A => A.tracked && !A.quiesced then ([], { s with progress := .wait })
    else if s.drained then ([], { s with progress := .revoke s.binding.revocations })
    else ([], { s with progress := .wait })
  | .revoke [] =>
    ([], { s with progress := if s.binding.live = [] then .finish else .wait })
  | .revoke (r :: todo) =>
    match answer with
    | some _ =>
      ([.revoke r], { s with binding := s.binding.revoke r, progress := .forget r todo })
    | none => ([.revoke r], { s with progress := .revoke todo })
  | .forget r todo => ([], { s with binding := s.binding.forget r, progress := .revoke todo })
  | .finish => ([], { s with teardownDone := true, progress := .done })
  | .wait => ([], { s with progress := .forwardCancels })
  | .done => ([], s)

/-- `_refuse_new_work_and_force_outcomes`. -/
def forceOutcomes (s : State) : State :=
  { s with
    shutdownRequested := true
    attempts := s.attempts.map (Attempt.forceOutcome shutdownFault)
    shutdowns := s.shutdowns ++ [.forced] }

/-- The labels of the attempts not quiesced. -/
def openLabels (s : State) : List ℕ :=
  (s.attempts.filter fun A => A.tracked && !A.quiesced).map Attempt.label

end State

open State in
/-- One step of the backend. -/
def step (cfg : Config) (s : State) : Event → List Output × State
  | .submit sub => submit cfg s sub
  | .handOver a =>
    ([], (s.latch (s.handOverViolation a)).modifyAttempt a (Attempt.handOver s.protocolViolation))
  | .driverReturns a answer => ([], s.modifyAttempt a (Attempt.driverReturns answer))
  | .notify a i q => ([], s.modifyAttempt a fun A => A.notify i q)
  | .record a i n =>
    ([], (s.latch (s.reportViolation a i n)).modifyAttempt a fun A => A.recordReport i n)
  | .cancel a => ([], s.modifyAttempt a Attempt.cancel)
  | .progress answer => progressStep cfg s answer
  | .shutdown => ([], s.forceOutcomes)
  | .shutdownLabels n =>
    ([], if s.shutdowns[n]? = some .forced then
      { s with shutdowns := s.shutdowns.set n (.labelled s.openLabels) } else s)
  | .shutdownReturn n =>
    match s.shutdowns[n]? with
    | some (.labelled attempts) =>
      ([.stillAccessible attempts s.binding.liveLabels],
        { s with shutdowns := s.shutdowns.set n .returned })
    | _ => ([], s)
  | .checkHold => ([], { s with releasing := s.releasing || decide (s.binding.live = []) })
  | .releaseHold =>
    if s.releasing then ([.holdReleased], { s with binding := s.binding.release }) else ([], s)

end TrtLlm.Blob
