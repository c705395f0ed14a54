import TrtLlm.Blob.Calls

/-!
One submission to the blob backend: its calls, its books and the thread that hands it over
(`_Call`, `BlobAttempt`, `_hand_over`, `_query_and_record`, `_record_locked` in
`disaggregation/blob/backend.py`).

Every function here is one critical section under the backend's lock, or one uninterrupted step of a
thread between two of them. The driver's part is in the arguments: how a `put` or `get` ended
(`PutAnswer`) and what the three queries of a notification answered (`QueryAnswers`). A
notification first queries and only later gets the lock, so that its report waits in
`Call.reports`; other threads may come in between.

The `history` of a call is for the statements only: it keeps in order what the driver did and what
the backend recorded. No function reads it but `Attempt.notify`, whose driver knows only calls that
it was handed. The operations of a driver are numbers. Hints, logging and `wake` are left out.
-/

namespace TrtLlm.Blob

/-- What happened to a call. -/
inductive CallNote
  /-- The driver was called with it. -/
  | handed
  /-- The driver rejected it. -/
  | refused
  /-- The driver broke its protocol on it. -/
  | broke
  /-- A query answered that its access ended. -/
  | reportedEnd
  /-- A query answered with one result for every row, all of them concluded. -/
  | concluded (results : List RowResult)
  /-- The backend recorded its access end. -/
  | recordedEnd
  /-- The backend recorded that the driver broke its protocol on it. -/
  | recordedBreak
deriving DecidableEq, Repr

/-- What a notification has to record once it gets the lock. -/
inductive Report
  | broken (reason : String)
  | answers (results : Option CallResults) (accessEnded unprovable : Bool)
deriving DecidableEq, Repr

structure Call where
  groupPosition : ℕ
  start : ℕ
  stop : ℕ
  op : Option ℕ
  resultsRecorded : Bool
  accessEndRecorded : Bool
  unprovable : Bool
  cancelForwarded : Bool
  /-- The notifications that queried the driver and wait for the lock. -/
  reports : List Report
  history : List CallNote
deriving DecidableEq, Repr

namespace Call

def ofRange (range : ℕ × ℕ × ℕ) : Call where
  groupPosition := range.1
  start := range.2.1
  stop := range.2.2
  op := none
  resultsRecorded := false
  accessEndRecorded := false
  unprovable := false
  cancelForwarded := false
  reports := []
  history := []

def rows (c : Call) : ℕ := c.stop - c.start

def note (n : CallNote) (c : Call) : Call := { c with history := c.history ++ [n] }

end Call

/-- The three queries of a notification: a value, or the exception raised. -/
structure QueryAnswers where
  poll : Except String (List RowResult)
  accessEnded : Except String Bool
  accessUnprovable : Except String Bool

/-- The queries of `_query_and_record`: the report, and what the driver showed. -/
def queryReport (rows : ℕ) (q : QueryAnswers) : Report × List CallNote :=
  let raised (error : String) := "a store driver query raised " ++ error
  match q.poll with
  | .error error => (.broken (raised error), [.broke])
  | .ok results =>
    match q.accessEnded with
    | .error error => (.broken (raised error), [.broke])
    | .ok accessEnded =>
      match if accessEnded then .ok false else q.accessUnprovable with
      | .error error => (.broken (raised error), [.broke])
      | .ok unprovable =>
        let ended := if accessEnded then [CallNote.reportedEnd] else []
        if results.length ≠ rows then
          (.broken ("the store driver gave " ++ toString results.length ++ " results for "
            ++ toString rows ++ " rows"), .broke :: ended)
        else if concluded results then
          (.answers (some (CallResults.of results)) accessEnded unprovable,
            .concluded results :: ended)
        else (.answers none accessEnded unprovable, ended)

/-- How a `put` or `get` ended. -/
inductive PutAnswer
  | returned (op : ℕ)
  | rejected (error : String)
  | raised (error : String)
  | noHandle
deriving DecidableEq, Repr

/-- Where the submitting thread stands; the calls before `taken.length` were taken by the driver. -/
inductive HandOver
  /-- At the next turn of the loop. -/
  | reading
  /-- Inside the driver, with the call `taken.length`. -/
  | calling
  /-- About to record that the call `taken.length` failed as a whole. -/
  | failing (reason : String) (thisCallBrokeProtocol : Bool)
  /-- Recording the calls that never reach the driver. -/
  | skipping (next : ℕ)
  /-- About to give the calls their handles. -/
  | storing
  | returned
deriving DecidableEq, Repr

structure Outcome where
  deliveredMasks : List (List Bool)
  fault : Option String
deriving DecidableEq, Repr

/-- An outcome that landed shares the masks of the attempt; a forced one has a copy. -/
inductive Landed
  | shared (fault : Option String)
  | copied (outcome : Outcome)
deriving DecidableEq, Repr

structure Attempt where
  label : ℕ
  isFetch : Bool
  masks : List (List Bool)
  calls : List Call
  callsAwaitingResults : ℕ
  callsAwaitingAccessEnd : ℕ
  firstFault : Option String
  stopped : Bool
  outcome : Option Landed
  quiesced : Bool
  /-- The backend has it among its `_attempts`. -/
  tracked : Bool
  taken : List ℕ
  thread : HandOver
deriving DecidableEq, Repr

/-- The slice assignment to a mask. -/
def writeRun (start stop : ℕ) (ready mask : List Bool) : List Bool :=
  mask.mapIdx fun row delivered =>
    if start ≤ row ∧ row < stop then ready.getD (row - start) false else delivered

namespace Attempt

def init (label : ℕ) (isFetch : Bool) (groups : List GroupRows) (ranges : List (ℕ × ℕ × ℕ)) :
    Attempt where
  label := label
  isFetch := isFetch
  masks := groups.map fun rows => List.replicate rows.addresses.length false
  calls := ranges.map Call.ofRange
  callsAwaitingResults := ranges.length
  callsAwaitingAccessEnd := ranges.length
  firstFault := none
  stopped := false
  outcome := none
  quiesced := false
  tracked := true
  taken := []
  thread := .reading

section

variable (A : Attempt)

def poll : Option Outcome :=
  A.outcome.map fun landed =>
    match landed with
    | .shared fault => ⟨A.masks, fault⟩
    | .copied outcome => outcome

def modifyCall (i : ℕ) (f : Call → Call) : Attempt :=
  { A with calls := A.calls.modify i f }

/-- `_stop`. -/
def stop : Attempt := { A with stopped := true }

/-- `_cancel`. -/
def cancel : Attempt := if A.outcome = none then A.stop else A

/-! ### Recording -/

/-- The first part of `_record_locked`, with `_record_results`: the results of a call. -/
def recordCallResults (i : ℕ) (results : CallResults) (wholeCallFailed : Bool) :
    Attempt :=
  match A.calls[i]? with
  | none => A
  | some call =>
    if call.resultsRecorded then A
    else
      let A := { A.modifyCall i fun c => { c with resultsRecorded := true } with
        callsAwaitingResults := A.callsAwaitingResults - 1
        masks := A.masks.modify call.groupPosition (writeRun call.start call.stop results.ready) }
      match results.firstFault with
      | none => A
      | some (row, fault) =>
        let where_ := "group " ++ toString call.groupPosition ++ " row "
          ++ toString (call.start + row)
        let A := { A with firstFault := A.firstFault <|> some (where_ ++ ": " ++ fault) }
        if A.isFetch || wholeCallFailed then A.stop else A

/-- The second part: the access end. A call held as unprovable stays held. -/
def recordAccessEnd (i : ℕ) : Attempt :=
  match A.calls[i]? with
  | none => A
  | some call =>
    if call.accessEndRecorded || call.unprovable then A
    else { A.modifyCall i fun c => { c.note .recordedEnd with accessEndRecorded := true } with
        callsAwaitingAccessEnd := A.callsAwaitingAccessEnd - 1 }

/-- The third part: that the access end can never be proven. A recorded access end stands. -/
def recordUnprovable (i : ℕ) : Attempt :=
  A.modifyCall i fun c =>
    if c.unprovable || c.accessEndRecorded then c else { c with unprovable := true }

/-- `_conclude_or_quiesce` and `_conclude_or_quiesce_and_retire`. -/
def concludeOrQuiesceAndRetire : Attempt :=
  let A := if A.outcome = none ∧ A.callsAwaitingResults = 0 then
    { A with outcome := some (.shared A.firstFault) } else A
  let A := if A.quiesced = false ∧ A.callsAwaitingAccessEnd = 0 then
    { A with quiesced := true } else A
  if A.outcome ≠ none ∧ A.quiesced then { A with tracked := false } else A

/-- `_record_locked`, whose results are missing while not all rows concluded. -/
def recordLocked (i : ℕ) (results : Option CallResults)
    (accessEnded unprovable wholeCallFailed : Bool) : Attempt :=
  let A := results.elim A fun results => A.recordCallResults i results wholeCallFailed
  let A := if accessEnded then A.recordAccessEnd i else A
  let A := if unprovable then A.recordUnprovable i else A
  A.concludeOrQuiesceAndRetire

/-- `_fail_call`, without the violation that the backend keeps. -/
def failCall (i : ℕ) (reason : String) (thisCallBrokeProtocol : Bool) : Attempt :=
  let rows := (A.calls[i]?.map Call.rows).getD 0
  let A := A.recordLocked i (some (CallResults.noneDelivered rows (some reason)))
    (!thisCallBrokeProtocol) thisCallBrokeProtocol true
  if thisCallBrokeProtocol then A.modifyCall i (Call.note .recordedBreak) else A

end

/-- `_force_outcome` and what `_refuse_new_work_and_force_outcomes` does around it. -/
def forceOutcome (reason : String) (A : Attempt) : Attempt :=
  if A.tracked ∧ A.outcome = none then
    let fault := match A.firstFault with
      | none => reason
      | some first => reason ++ "; first fault: " ++ first
    { A.stop with outcome := some (.copied ⟨A.masks, some fault⟩) }.concludeOrQuiesceAndRetire
  else A

/-- The part of `_forward_cancels` under the lock. -/
def forwardCancels (A : Attempt) : Attempt :=
  if A.tracked ∧ A.stopped then
    { A with calls := A.calls.map fun c =>
        if c.op ≠ none ∧ c.resultsRecorded = false ∧ c.cancelForwarded = false then
          { c with cancelForwarded := true } else c }
  else A

/-! ### Notifications -/

/-- A notification of a call that the driver was handed queries the driver. -/
def notify (A : Attempt) (i : ℕ) (q : QueryAnswers) : Attempt :=
  A.modifyCall i fun c =>
    if .handed ∈ c.history then
      { c with
        reports := c.reports ++ [(queryReport c.rows q).1]
        history := c.history ++ (queryReport c.rows q).2 }
    else c

/-- The `n`-th report of a call gets the lock. -/
def recordReport (A : Attempt) (i n : ℕ) : Attempt :=
  match A.calls[i]?.bind fun c => c.reports[n]? with
  | none => A
  | some report =>
    let A := A.modifyCall i fun c => { c with reports := c.reports.eraseIdx n }
    match report with
    | .broken reason => A.failCall i reason true
    | .answers results accessEnded unprovable =>
      A.recordLocked i results accessEnded unprovable false

/-! ### The submitting thread -/

/-- The next step of `_hand_over` outside the driver. -/
def handOver (violation : Option String) (A : Attempt) : Attempt :=
  match A.thread with
  | .reading =>
    if A.taken.length < A.calls.length then
      match violation with
      | some reason =>
        let text := "not handed over: the store driver broke its protocol (" ++ reason ++ ")"
        { A with thread := .failing text false }
      | none => { A.modifyCall A.taken.length (Call.note .handed) with thread := .calling }
    else { A with thread := .skipping (A.taken.length + 1) }
  | .calling => A
  | .failing reason broke =>
    { A with thread := .skipping (A.taken.length + 1) }.failCall A.taken.length reason broke
  | .skipping next =>
    match A.calls[next]? with
    | some call =>
      { A with thread := .skipping (next + 1) }.recordLocked next
        (some (CallResults.noneDelivered call.rows none)) true false false
    | none => { A with thread := .storing }
  | .storing =>
    { A with
      calls := A.calls.mapIdx fun i c => { c with op := A.taken[i]? <|> c.op }
      thread := .returned }
  | .returned => A

/-- The driver returns from the `put` or `get` of a call (`_hand_over_call`). -/
def driverReturns (answer : PutAnswer) (A : Attempt) : Attempt :=
  if A.thread = .calling then
    match answer with
    | .returned op => { A with taken := A.taken ++ [op], thread := .reading }
    | .rejected error =>
      { A.modifyCall A.taken.length (Call.note .refused) with
        thread := .failing ("refused: " ++ error) false }
    | .raised error =>
      { A.modifyCall A.taken.length (Call.note .broke) with
        thread := .failing ("the store driver raised " ++ error) true }
    | .noHandle =>
      { A.modifyCall A.taken.length (Call.note .broke) with
        thread := .failing "the store driver returned no handle" true }
  else A

end Attempt

end TrtLlm.Blob
