import TrtLlm.Util.Machine
import TrtLlm.Bounce.Message
import TrtLlm.Bounce.RegionCalls

/-!
The receiving role of the bounce transport (`BounceReceiver` of `BounceTransport.cpp`).

The IO thread grants regions for a WANT, queues a scatter job for a DATA, and gives the
region back when the job is done; the scatter workers take jobs from the queue, run them,
reply with an ACK or a NACK and post a completion.  `mScattering` maps every region with
such a job to whether its flow has been reclaimed meanwhile.

* the handlers are definitions under their own names;
* `step` is the receiver as a machine: the events of the IO thread, of the workers, and
  the calls of the local sender on the shared scheduler, in any order.  The loops of
  `drainScatterDone` and `checkTimeouts` are taken one iteration at a time, so that workers
  and the local sender may come between two iterations;
* `drainScatterDone_eq_run` and `checkTimeouts_eq_run`: what the whole handlers are in its
  events.

What `scatterWorkerLoop` does between taking a job and its reply is the copy itself; its
outcome `ok` is left open.  NVTX ranges and log messages are left out.
-/

namespace TrtLlm

open List

/-- `ScatterJob`. -/
structure ScatterJob where
  key : Bytes
  peer : Bytes
  rid : ℕ
  chunkIdx : ℕ
  offset : ℕ
  regionBytes : ℕ
  entries : List BounceScatterRun
deriving DecidableEq, Repr

/-- `ScatterDone`. -/
structure ScatterDone where
  key : Bytes
  offset : ℕ
deriving DecidableEq, Repr

/-- The members of `BounceReceiver`, with the scheduler it shares with the local sender.
`running` and `replied` are the jobs in the hands of workers, before and after the reply;
`draining` is the part of `mDone` that `drainScatterDone` has swapped out. -/
structure BounceReceiver where
  cfg : BounceConfig
  deviceId : ℕ
  scheduler : CreditScheduler
  mScattering : UMap ℕ Bool := ∅
  mJobs : List ScatterJob := []
  running : List ScatterJob := []
  replied : List ScatterJob := []
  mDone : List ScatterDone := []
  draining : List ScatterDone := []
  mNextSweep : ℤ := 0

/-- What an event of the receiver shows outside: a grant that `schedule` returned, a block
that `acquireLocal` returned, a message, a region that became an orphan, and an orphan that
was given back to the arena. -/
inductive ReceiverOutput where
  | granted (g : Grant)
  | acquired (offset : ℕ)
  | send (peer : Bytes) (msg : BounceMsg)
  | orphaned (offset : ℕ)
  | orphanFreed (offset : ℕ)
deriving DecidableEq

namespace BounceReceiver

open CreditScheduler

/-- The grants of a call of the scheduler, and the messages that carry them. -/
def grantsOut (s : BounceReceiver) (gs : List Grant) : List ReceiverOutput :=
  gs.map .granted ++ (sendGrants s.deviceId gs).map fun m => .send m.1 m.2

def scatteringRegions (s : BounceReceiver) : USet ℕ := USet.ofKeys s.mScattering

/-- `reclaimAndFlagDeferred`, on the results of the reclaim. -/
def reclaimAndFlagDeferred (s : BounceReceiver) (r : List Grant × CreditScheduler × List ℕ) :
    List ReceiverOutput × BounceReceiver :=
  (s.grantsOut r.1 ++ r.2.2.map .orphaned, { s with
      scheduler := r.2.1
      mScattering := r.2.2.foldl (fun m off => m.set off true) s.mScattering })

/-- `onWant`; `reversePathReady` is what the registration of the sender's endpoint says. -/
def onWant (pick : List ℕ → ℕ) (s : BounceReceiver) (peer : Bytes) (rid : ℕ) (chunkBytes : List ℕ)
    (reversePathReady : Bool) : List ReceiverOutput × BounceReceiver :=
  let key := makeKey peer rid
  if isCancelWant chunkBytes then
    s.reclaimAndFlagDeferred (reclaimFlow pick s.scheduler key s.scatteringRegions 0)
  else if !reversePathReady then ([], s)
  else if s.scheduler.knowsFlow key then ([], s)
  else if chunkBytes.any fun bytes => bytes = 0 ∨ s.cfg.maxChunkSizeBytes < bytes then
    ([.send peer (.nack rid 0 0)], s)
  else
    let r := CreditScheduler.onWant pick s.scheduler key chunkBytes
    (s.grantsOut r.1, { s with scheduler := r.2 })

def onData (s : BounceReceiver) (peer : Bytes) (rid chunkIdx regionHandle : ℕ)
    (entries : List BounceScatterRun) : BounceReceiver :=
  let key := makeKey peer rid
  if s.scheduler.heldByFlow key regionHandle then
    if regionHandle ∈ s.mScattering then s
    else
      { s with
        mScattering := s.mScattering.emplace regionHandle false
        mJobs := s.mJobs ++ [{
          key := key
          peer := peer
          rid := rid
          chunkIdx := chunkIdx
          offset := regionHandle
          regionBytes := s.scheduler.regionBytes regionHandle
          entries := entries }] }
  else s

/-- A call of `freeOrphanRegion`. -/
def freeOrphan (pick : List ℕ → ℕ) (s : BounceReceiver) (off : ℕ) :
    List ReceiverOutput × BounceReceiver :=
  let r := freeOrphanRegion pick s.scheduler off
  ((if off ∈ s.scheduler.mOrphans then [.orphanFreed off] else []) ++ s.grantsOut r.1,
    { s with scheduler := r.2 })

/-- The body of the loop of `drainScatterDone`. -/
def drainDone (pick : List ℕ → ℕ) (s : BounceReceiver) (d : ScatterDone) :
    List ReceiverOutput × BounceReceiver :=
  match s.mScattering.find? d.offset with
  | some true => freeOrphan pick { s with mScattering := s.mScattering.erase d.offset } d.offset
  | _ =>
    let r := onScatterDone pick s.scheduler d.key d.offset
    (s.grantsOut r.1, { s with scheduler := r.2, mScattering := s.mScattering.erase d.offset })

/-- The body of the first loop of `forget`, for a job of the peer: its entry of `mScattering`
goes, and the offset is kept if it was flagged. -/
def dropJob (acc : UMap ℕ Bool × List ℕ) (j : ScatterJob) : UMap ℕ Bool × List ℕ :=
  match acc.1.find? j.offset with
  | none => acc
  | some orphaned => (acc.1.erase j.offset, if orphaned then acc.2 ++ [j.offset] else acc.2)

/-- The last loop of `forget`; `picks i` is the choice left to the allocator in the `i`-th
call. -/
def freeOrphans (picks : ℕ → List ℕ → ℕ) : List ℕ → BounceReceiver →
    List ReceiverOutput × BounceReceiver
  | [], s => ([], s)
  | off :: offs, s =>
    let r := freeOrphan (picks offs.length) s off
    (r.1 ++ (freeOrphans picks offs r.2).1, (freeOrphans picks offs r.2).2)

/-- The state and the offsets with which the first loop of `forget` ends. -/
def dropJobs (s : BounceReceiver) (peer : Bytes) : BounceReceiver × List ℕ :=
  let r := (s.mJobs.filter fun j => j.peer = peer).foldl dropJob (s.mScattering, [])
  ({ s with mScattering := r.1, mJobs := s.mJobs.filter fun j => j.peer ≠ peer }, r.2)

def forget (pick : List ℕ → ℕ) (picks : ℕ → List ℕ → ℕ) (s : BounceReceiver) (peer : Bytes) :
    List ReceiverOutput × BounceReceiver :=
  let d := s.dropJobs peer
  let r := d.1.reclaimAndFlagDeferred (reclaimByPrefix pick d.1.scheduler (peer ++ [kSep])
    d.1.scatteringRegions (max 0 s.cfg.quarantineMs))
  let f := freeOrphans picks d.2 r.2
  (r.1 ++ f.1, f.2)

/-- The body of the loop of `checkTimeouts` over the stale flows. -/
def expireLease (pick : List ℕ → ℕ) (s : BounceReceiver) (flow : Bytes) :
    List ReceiverOutput × BounceReceiver :=
  s.reclaimAndFlagDeferred
    (reclaimFlow pick s.scheduler flow s.scatteringRegions (max 0 s.cfg.quarantineMs))

/-- The loop of `drainScatterDone`. -/
def drainLoop (picks : ℕ → List ℕ → ℕ) : List ScatterDone → BounceReceiver →
    List ReceiverOutput × BounceReceiver
  | [], s => ([], s)
  | d :: ds, s =>
    let r := drainDone (picks ds.length) s d
    (r.1 ++ (drainLoop picks ds r.2).1, (drainLoop picks ds r.2).2)

def drainScatterDone (picks : ℕ → List ℕ → ℕ) (s : BounceReceiver) :
    List ReceiverOutput × BounceReceiver :=
  drainLoop picks s.mDone { s with mDone := [] }

/-- The loop of `checkTimeouts` over the stale flows. -/
def expireLoop (picks : ℕ → List ℕ → ℕ) : List Bytes → BounceReceiver →
    List ReceiverOutput × BounceReceiver
  | [], s => ([], s)
  | flow :: flows, s =>
    let r := expireLease (picks flows.length) s flow
    (r.1 ++ (expireLoop picks flows r.2).1, (expireLoop picks flows r.2).2)

/-- The smallest timeout that is enabled, `0` if there is none. -/
def smallestMs (cfg : BounceConfig) : ℤ :=
  let lease := if 0 < cfg.receiverFlowTimeoutMs then cfg.receiverFlowTimeoutMs else 0
  if 0 < cfg.quarantineMs then if 0 < lease then min lease cfg.quarantineMs else cfg.quarantineMs
  else lease

/-- A call of `pollDrain`. -/
def poll (pick : List ℕ → ℕ) (s : BounceReceiver) : List ReceiverOutput × BounceReceiver :=
  let r := CreditScheduler.pollDrain pick s.scheduler
  (s.grantsOut r.1, { s with scheduler := r.2 })

/-- A call of `reapQuarantine`. -/
def reap (pick : List ℕ → ℕ) (s : BounceReceiver) : List ReceiverOutput × BounceReceiver :=
  let r := CreditScheduler.reapQuarantine pick s.scheduler
  (s.grantsOut r.1, { s with scheduler := r.2 })

/-- `checkTimeouts` at the time `now`; `p` and `q` are the choices left to the allocator in
the first two calls. -/
def checkTimeouts (p q : List ℕ → ℕ) (picks : ℕ → List ℕ → ℕ) (now : ℤ) (s : BounceReceiver) :
    List ReceiverOutput × BounceReceiver :=
  if now < s.mNextSweep then ([], s)
  else
    let r := poll p s
    if smallestMs s.cfg ≤ 0 then (r.1, { r.2 with mNextSweep := now + 1000 })
    else
      let sweep := min (max (smallestMs s.cfg / 10) 50) 1000
      let r' := reap q { r.2 with mNextSweep := now + sweep }
      if s.cfg.receiverFlowTimeoutMs ≤ 0 then (r.1 ++ r'.1, r'.2)
      else
        let stale := r'.2.scheduler.staleFlows s.cfg.receiverFlowTimeoutMs
        let e := expireLoop picks stale { r'.2 with scheduler := r'.2.scheduler.tick }
        (r.1 ++ (r'.1 ++ e.1), e.2)

/-! ### The receiver as a machine -/

/-- An event at the receiver. -/
inductive Event where
  | want (pick : List ℕ → ℕ) (peer : Bytes) (rid : ℕ) (chunkBytes : List ℕ)
    (reversePathReady : Bool)
  | data (peer : Bytes) (rid chunkIdx regionHandle : ℕ) (entries : List BounceScatterRun)
  | dequeue
  | reply (i : ℕ) (ok : Bool)
  | finish (i : ℕ)
  | swapDone
  | drainNext (pick : List ℕ → ℕ)
  | forget (pick : List ℕ → ℕ) (picks : ℕ → List ℕ → ℕ) (peer : Bytes)
  | expireLease (pick : List ℕ → ℕ) (flow : Bytes)
  | pollDrain (pick : List ℕ → ℕ)
  | reapQuarantine (pick : List ℕ → ℕ)
  | readClock
  | setNextSweep (t : ℤ)
  | acquireLocal (pick : List ℕ → ℕ) (bytes : ℕ) (eager : Bool)
  | promoteLocal (offset : ℕ)
  | releaseLocal (pick : List ℕ → ℕ) (offset : ℕ)

/-- The reply of a worker. -/
def replyMsg (j : ScatterJob) (ok : Bool) : BounceMsg :=
  if ok then .ack j.rid j.chunkIdx j.offset else .nack j.rid j.chunkIdx j.offset

def step (s : BounceReceiver) : Event → List ReceiverOutput × BounceReceiver
  | .want pick peer rid chunkBytes ready => onWant pick s peer rid chunkBytes ready
  | .data peer rid chunkIdx regionHandle entries =>
    ([], onData s peer rid chunkIdx regionHandle entries)
  | .dequeue =>
    match s.mJobs with
    | [] => ([], s)
    | j :: js => ([], { s with mJobs := js, running := s.running ++ [j] })
  | .reply i ok =>
    match s.running[i]? with
    | none => ([], s)
    | some j => ([.send j.peer (replyMsg j ok)],
        { s with running := s.running.eraseIdx i, replied := s.replied ++ [j] })
  | .finish i =>
    match s.replied[i]? with
    | none => ([], s)
    | some j => ([], { s with
        replied := s.replied.eraseIdx i
        mDone := s.mDone ++ [{ key := j.key, offset := j.offset }] })
  | .swapDone =>
    if s.draining = [] then ([], { s with draining := s.mDone, mDone := [] }) else ([], s)
  | .drainNext pick =>
    match s.draining with
    | [] => ([], s)
    | d :: ds => drainDone pick { s with draining := ds } d
  | .forget pick picks peer => forget pick picks s peer
  | .expireLease pick flow => expireLease pick s flow
  | .pollDrain pick => poll pick s
  | .reapQuarantine pick => reap pick s
  | .readClock => ([], { s with scheduler := s.scheduler.tick })
  | .setNextSweep t => ([], { s with mNextSweep := t })
  | .acquireLocal pick bytes eager =>
    let r := CreditScheduler.acquireLocal pick s.scheduler bytes eager
    (r.1.toList.map .acquired, { s with scheduler := r.2 })
  | .promoteLocal offset => ([], { s with scheduler := s.scheduler.promoteLocal offset })
  | .releaseLocal pick offset =>
    let r := CreditScheduler.releaseLocal pick s.scheduler offset
    (s.grantsOut r.1, { s with scheduler := r.2 })

/-- A new receiver. -/
def ctor (cfg : BounceConfig) (deviceId : ℕ) (scheduler : CreditScheduler) : BounceReceiver :=
  { cfg := cfg, deviceId := deviceId, scheduler := scheduler }

/-- `drainDone` neither reads nor writes the completions that are still to be drained. -/
lemma drainDone_draining (pick : List ℕ → ℕ) (s : BounceReceiver) (d : ScatterDone)
    (ds : List ScatterDone) :
    drainDone pick { s with draining := ds } d
      = ((drainDone pick s d).1, { (drainDone pick s d).2 with draining := ds }) := by
  rw [drainDone, drainDone]
  dsimp only
  split <;> rfl

section

variable (picks : ℕ → List ℕ → ℕ)

lemma drainLoop_eq_run (ds : List ScatterDone) : ∀ s : BounceReceiver,
    s.draining = [] → drainLoop picks ds s
      = Machine.run step { s with draining := ds }
        ((range ds.length).reverse.map fun i => .drainNext (picks i)) := by
  induction ds with
  | nil =>
    intro s h
    have hs : ({ s with draining := [] } : BounceReceiver) = s := by rw [← h]
    rw [hs]
    rfl
  | cons d ds ih =>
    intro s h
    have hd : (drainDone (picks ds.length) s d).2.draining = [] := by
      have := congrArg (fun r => r.2.draining) (drainDone_draining (picks ds.length) s d [])
      rwa [show ({ s with draining := [] } : BounceReceiver) = s by rw [← h]] at this
    rw [length_cons, range_succ, reverse_append, reverse_singleton,
      singleton_append, map_cons, Machine.run, drainLoop]
    dsimp only [step]
    rw [drainDone_draining _ _ _ ds, ih _ hd]

/-- **`drainScatterDone`** is a swap and then one event for every completion. -/
theorem drainScatterDone_eq_run (s : BounceReceiver)
    (h : s.draining = []) : drainScatterDone picks s
      = Machine.run step s (.swapDone ::
        (range s.mDone.length).reverse.map fun i => .drainNext (picks i)) := by
  have hrun := drainLoop_eq_run picks s.mDone { s with mDone := [] } h
  rw [drainScatterDone, hrun, Machine.run]
  dsimp only [step]
  rw [if_pos h]
  rfl

/-- The iterations over the stale flows, as events. -/
def expiries : List Bytes → List Event
  | [] => []
  | flow :: flows => .expireLease (picks flows.length) flow :: expiries flows

lemma expireLoop_eq_run (flows : List Bytes) : ∀ s : BounceReceiver,
    expireLoop picks flows s = Machine.run step s (expiries picks flows) := by
  induction flows with
  | nil => exact fun s => rfl
  | cons flow flows ih =>
    intro s
    rw [expireLoop, expiries, Machine.run]
    dsimp only [step]
    rw [ih]

end

/-- **`checkTimeouts`** that finds the sweep due and the leases enabled polls the drain, reaps the
quarantine and expires the flows that are stale then, in this order. -/
lemma checkTimeouts_eq_run (p q : List ℕ → ℕ) (picks : ℕ → List ℕ → ℕ) {now : ℤ}
    {s : BounceReceiver} (hdue : s.mNextSweep ≤ now) (hlease : 0 < s.cfg.receiverFlowTimeoutMs)
    (henabled : 0 < smallestMs s.cfg) :
    let sweep := now + min (max (smallestMs s.cfg / 10) 50) 1000
    let events := [.pollDrain p, .setNextSweep sweep, .reapQuarantine q]
    let stale := (Machine.run step s events).2.scheduler.staleFlows s.cfg.receiverFlowTimeoutMs
    checkTimeouts p q picks now s
      = Machine.run step s (events ++ .readClock :: expiries picks stale) := by
  rw [checkTimeouts, if_neg hdue.not_gt]
  dsimp only
  rw [if_neg henabled.not_ge, if_neg hlease.not_ge, expireLoop_eq_run]
  simp [Machine.run, step]

end BounceReceiver

end TrtLlm
