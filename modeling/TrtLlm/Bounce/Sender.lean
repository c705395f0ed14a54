import TrtLlm.Bounce.TransferPlan
import TrtLlm.Bounce.RegionOwnership

/-!
The sending role of the bounce transport (`BounceSender` of `BounceTransport.cpp`).

A request announces the sizes of its chunks (WANT), gathers each chunk into a region of the
local arena, writes it into the region of a credit (GRANT), sends DATA once the write has
landed, and is done when every chunk is acknowledged (ACK).  A request that fails gives its
regions back as soon as neither a gather kernel nor the NIC touches them, and cancels its
flow at the receiver once none of its writes is in flight.

* the handlers are definitions under their own names;
* `step` is the sender as a machine.  The loops of the drains over requests, chunks and
  orphans are taken one element at a time, in any order; `submit` is taken lock section by
  lock section; the receiver of the same node calls the shared scheduler at any time;
* `kernels` are the gather kernels that still run, each with its exec context and the region
  it writes, and `writes` the regions that the NIC still reads.  The polls of events, streams
  and transfer handles see these, and only the events of the hardware change them.

NVTX ranges, log messages, the stall warnings and the teardown `failAll` are left out.
-/

namespace TrtLlm

/-- `BounceFailReason`. -/
inductive BounceFailReason where
  | kNone
  | kPlanRejected
  | kNoProgressTimeout
  | kPeerDropped
  | kGatherFailed
  | kWriteFailed
  | kProtocolError
  | kShutdown
  | kPeerNack
deriving DecidableEq, Repr

/-- `BounceResult`. -/
inductive BounceResult where
  | success
  | failure (reason : BounceFailReason)
deriving DecidableEq, Repr

/-- `PostState`. -/
inductive PostState where
  | gathering
  | gatherFailed
  | gathered
  | writing
  | sent
deriving DecidableEq, Repr

/-- What a transfer handle stands for: the peer and the region that the write goes to. -/
structure Transfer where
  peer : Bytes
  remoteHandle : ℕ
deriving DecidableEq, Repr

/-- `Posted`: a chunk from its gather to its ACK. -/
structure Posted where
  chunkIdx : ℕ
  localOffset : ℕ
  ctx : Option ℕ
  xfer : Option Transfer := none
  remoteHandle : ℕ := 0
  remoteAddr : ℕ := 0
  remoteDevId : ℕ := 0
  writeBytes : ℕ
  hasCredit : Bool
  state : PostState
deriving DecidableEq, Repr

/-- `Request`; the promise is known by its number. -/
structure Request where
  peer : Bytes
  numChunks : ℕ
  plan : BounceTransferPlan
  nextPost : ℕ := 0
  nextCredit : ℕ := 0
  acked : ℕ := 0
  posted : List Posted := []
  pendingCredits : List BounceCreditEntry := []
  promise : ℕ
  abandonReason : BounceFailReason := .kNone
  lastProgress : ℤ

/-- `OrphanLocal`: the staging region of a failed request with a write in flight. -/
structure OrphanLocal where
  xfer : Option Transfer
  offset : ℕ
  rid : ℕ
deriving DecidableEq, Repr

/-- `OrphanGather`: the staging region of a failed request whose gather may still run. -/
structure OrphanGather where
  ctx : ℕ
  localOffset : ℕ
  rid : ℕ
deriving DecidableEq, Repr

/-- `ExecPool`: the free exec contexts, all with plan buffers of one size. -/
structure ExecPool where
  scratchBytes : ℕ
  mFree : List ℕ

namespace ExecPool

def ctor (count maxDescsPerChunk : ℕ) : ExecPool :=
  { scratchBytes := maxDescsPerChunk * 20, mFree := List.range count }

/-- `maxPlanEntries`. -/
def maxPlanEntries (p : ExecPool) : ℕ := p.scratchBytes / 20

/-- `release`. -/
def release (p : ExecPool) (ctx : ℕ) : ExecPool := { p with mFree := p.mFree ++ [ctx] }

end ExecPool

/-- The members of `BounceSender`, with what it shares with the rest of its node.
`announcing` are the requests whose `submit` has not sent the WANT yet, `lent` the exec
contexts in the hands of scatter workers, and `promises` the number of promises made. -/
structure BounceSender where
  cfg : BounceConfig
  deviceId : ℕ
  endpoint : Bytes
  scheduler : CreditScheduler
  exec : ExecPool
  mRequests : UMap ℕ Request := ∅
  mNextRid : ℕ := 1
  mOrphanLocal : List OrphanLocal := []
  mOrphanGather : List OrphanGather := []
  mPendingCancel : UMap ℕ Bytes := ∅
  announcing : List (ℕ × Bytes × List ℕ) := []
  lent : List ℕ := []
  kernels : List (ℕ × ℕ) := []
  writes : List ℕ := []
  promises : ℕ := 0
  now : ℤ := 0

/-- What an event of the sender shows: a request that entered the table, a promise that was
resolved, credits that a request received, a credit that a chunk took, a request that was
abandoned, a region that was acquired or given back, a gather that was launched, a write that was
posted, one that was seen to have landed, an ACK that was counted, a grant of the shared scheduler,
a message. -/
inductive SenderOutput where
  | submitted (promise rid : ℕ) (peer : Bytes) (numChunks : ℕ)
  | resolved (promise : ℕ) (result : BounceResult)
  | credited (promise : ℕ) (credits : List BounceCreditEntry)
  | attached (promise chunkIdx : ℕ)
  | abandoned (promise : ℕ)
  | acquired (offset : ℕ)
  | released (offset : ℕ)
  | launched (promise chunkIdx : ℕ)
  | wrote (promise chunkIdx addr handle bytes : ℕ)
  | landed (promise chunkIdx : ℕ)
  | acked (promise chunkIdx handle : ℕ) (peer : Bytes)
  | granted (g : Grant)
  | send (peer : Bytes) (msg : BounceMsg)
deriving DecidableEq

namespace BounceSender

open CreditScheduler

/-- The chunks of the plan of a request. -/
def chunkAt (req : Request) (i : ℕ) : BounceChunk := req.plan.mChunks.getD i {}

/-- The grants of a call of the scheduler, and the messages that carry them. -/
def grantsOut (s : BounceSender) (gs : List Grant) : List SenderOutput :=
  gs.map .granted ++ (sendGrants s.deviceId gs).map fun m => .send m.1 m.2

/-- A call of `releaseLocal`. -/
def release (pick : List ℕ → ℕ) (s : BounceSender) (off : ℕ) : List SenderOutput × BounceSender :=
  let r := releaseLocal pick s.scheduler off
  (.released off :: s.grantsOut r.1, { s with scheduler := r.2 })

/-! ### Credits -/

/-- What the abandon sites do to a request. -/
def abandon (req : Request) : Request :=
  { req with abandonReason := .kProtocolError, pendingCredits := [] }

/-- The remote target of a credit. -/
def credit (p : Posted) (c : BounceCreditEntry) : Posted :=
  { p with
    remoteHandle := c.regionHandle, remoteAddr := c.addr, remoteDevId := c.devId, hasCredit :=
      true }

/-- The first chunk with the index `k` gets the credit. -/
def creditFirst (k : ℕ) (c : BounceCreditEntry) : List Posted → List Posted
  | [] => []
  | p :: ps => if p.chunkIdx = k then credit p c :: ps else p :: creditFirst k c ps

/-- The loop of `attachCredits`; every iteration takes a credit, so that the number of parked
credits is fuel enough. -/
def attachLoop (now : ℤ) : ℕ → CreditScheduler → Request →
    List SenderOutput × CreditScheduler × Request
  | 0, c, req => ([], c, req)
  | fuel + 1, c, req =>
    match req.pendingCredits with
    | [] => ([], c, req)
    | cr :: rest =>
      if req.nextCredit < req.nextPost then
        match req.posted.find? fun p => p.chunkIdx = req.nextCredit with
        | none =>
          attachLoop now fuel c
            { req with pendingCredits := rest, nextCredit := req.nextCredit + 1 }
        | some target =>
          if target.hasCredit then
            attachLoop now fuel c
              { req with pendingCredits := rest, nextCredit := req.nextCredit + 1 }
          else if cr.len < (chunkAt req target.chunkIdx).packedBytes then
            ([.abandoned req.promise], c, abandon req)
          else
            let r := attachLoop now fuel (c.promoteLocal target.localOffset)
              { req with
                posted := creditFirst req.nextCredit cr req.posted
                pendingCredits := rest
                nextCredit := req.nextCredit + 1
                lastProgress := now }
            (.attached req.promise req.nextCredit :: r.1, r.2)
      else ([], c, req)

/-- `attachCredits`. -/
def attachCredits (now : ℤ) (c : CreditScheduler) (req : Request) :
    List SenderOutput × CreditScheduler × Request :=
  let r := attachLoop now req.pendingCredits.length c req
  if r.2.2.numChunks ≤ r.2.2.nextCredit then (r.1, r.2.1, { r.2.2 with pendingCredits := [] })
    else r

/-! ### Gathers -/

/-- What `pumpRequest` leaves to the allocator and to the GPU, by the index of the chunk. -/
structure PumpChoices where
  pick : ℕ → List ℕ → ℕ
  pickRelease : ℕ → List ℕ → ℕ
  launchOk : ℕ → Bool
  recordOk : ℕ → Bool

/-- The front credit, if there is one, leaves the queue for the chunk `nextPost`. -/
def takeCredit (req : Request) : Request :=
  { req with
    pendingCredits := req.pendingCredits.tail
    nextCredit := if req.pendingCredits.head?.isSome then req.nextCredit + 1 else req.nextCredit }

/-- What `takeCredit` shows. -/
def tookCredit (req : Request) : List SenderOutput :=
  if req.pendingCredits.head?.isSome then [.attached req.promise req.nextPost] else []

/-- The chunk `nextPost`, staged at `off` with the exec context `ctx`. -/
def newPosted (ch : PumpChoices) (req : Request) (ctx off : ℕ) : Posted :=
  { chunkIdx := req.nextPost
    localOffset := off
    ctx := some ctx
    writeBytes := (chunkAt req req.nextPost).packedBytes % 2 ^ 32
    hasCredit := false
    state := if ch.launchOk req.nextPost && ch.recordOk req.nextPost then .gathering
      else .gatherFailed }

/-- The gather of the chunk `nextPost` is launched, and the chunk is posted. -/
def launch (ch : PumpChoices) (s : BounceSender) (req : Request) (ctx off : ℕ)
    (cr : Option BounceCreditEntry) : List SenderOutput × BounceSender × Request :=
  let k := req.nextPost
  let p := newPosted ch req ctx off
  ([.launched req.promise k],
    { s with kernels := if ch.launchOk k then s.kernels ++ [(ctx, off)] else s.kernels },
    { req with
      posted := req.posted ++ [match cr with | none => p | some c => credit p c]
      nextPost := k + 1
      lastProgress := s.now })

/-- The loop of `pumpRequest`; every iteration that goes on posts a chunk, so that the number
of chunks left is fuel enough. -/
def pumpLoop (ch : PumpChoices) : ℕ → BounceSender → Request →
    List SenderOutput × BounceSender × Request
  | 0, s, req => ([], s, req)
  | fuel + 1, s, req =>
    if req.abandonReason ≠ .kNone ∨ req.numChunks ≤ req.nextPost then ([], s, req)
    else
      let k := req.nextPost
      let chunk := chunkAt req k
      let cr := req.pendingCredits.head?
      if cr = none ∧ (s.cfg.enableEagerGather = false
          ∨ s.cfg.maxInflightChunksPerRequest ≤ req.posted.length) then ([], s, req)
      else if ∃ c ∈ cr, c.len < chunk.packedBytes then
        ([.abandoned req.promise], s, abandon req)
      else
        match s.exec.mFree with
        | [] => ([], s, req)
        | ctx :: free =>
          match acquireLocal (ch.pick k) s.scheduler chunk.packedBytes cr.isNone with
          | (none, c') =>
            ([], { s with
              scheduler := c', exec := { s.exec with mFree := free ++ [ctx] } }, req)
          | (some off, c') =>
            let s := { s with scheduler := c', exec := { s.exec with mFree := free } }
            let took := tookCredit req
            let req := takeCredit req
            if s.exec.maxPlanEntries
                < planEntries s.exec.maxPlanEntries 0 (chunk.sizes.take chunk.srcPtrs.length)
            then
              -- the plan does not fit the exec context: the flow is abandoned
              let r := release (ch.pickRelease k) { s with exec := s.exec.release ctx } off
              (.acquired off :: (took ++ (r.1 ++ [.abandoned req.promise])), r.2, abandon req)
            else
              let l := launch ch s req ctx off cr
              let r := pumpLoop ch fuel l.2.1 l.2.2
              (.acquired off :: (took ++ (l.1 ++ r.1)), r.2)

section

variable (ch : PumpChoices) (s : BounceSender)

/-- `pumpRequest`. -/
def pumpRequest (req : Request) :
    List SenderOutput × BounceSender × Request :=
  if req.abandonReason ≠ .kNone then ([], s, { req with pendingCredits := [] })
  else
    let a := attachCredits s.now s.scheduler req
    let r := pumpLoop ch (a.2.2.numChunks - a.2.2.nextPost) { s with scheduler := a.2.1 } a.2.2
    (a.1 ++ r.1, r.2)

/-- `pumpRequest` on a request of the table. -/
def pump (rid : ℕ) : List SenderOutput × BounceSender :=
  match s.mRequests.find? rid with
  | none => ([], s)
  | some req =>
    let r := pumpRequest ch s req
    (r.1, { r.2.1 with mRequests := r.2.1.mRequests.set rid r.2.2 })

/-- `onGrant`. -/
def onGrant (peer : Bytes) (rid : ℕ)
    (credits : List BounceCreditEntry) : List SenderOutput × BounceSender :=
  match s.mRequests.find? rid with
  | none => ([], s)
  | some req =>
    if peer = req.peer then
      let r := pumpRequest ch s { req with pendingCredits := req.pendingCredits ++ credits }
      (.credited req.promise credits :: r.1,
        { r.2.1 with mRequests := r.2.1.mRequests.set rid r.2.2 })
    else ([], s)

end

/-! ### Ends of a request -/

/-- What `failRequest` does with one posted chunk. -/
def orphan (pick : List ℕ → ℕ) (rid : ℕ) (s : BounceSender) (p : Posted) :
    List SenderOutput × BounceSender :=
  if p.state = .writing then
    ([], { s with
      mOrphanLocal := s.mOrphanLocal ++ [{ xfer := p.xfer, offset := p.localOffset, rid := rid }] })
  else
    match p.ctx with
    | some ctx =>
      ([], { s with
        mOrphanGather :=
          s.mOrphanGather ++ [{ ctx := ctx, localOffset := p.localOffset, rid := rid }] })
    | none => release pick s p.localOffset

/-- The loop of `failRequest` over the posted chunks. -/
def orphanAll (picks : ℕ → List ℕ → ℕ) (rid : ℕ) : List Posted → BounceSender →
    List SenderOutput × BounceSender
  | [], s => ([], s)
  | p :: ps, s =>
    let r := orphan (picks ps.length) rid s p
    (r.1 ++ (orphanAll picks rid ps r.2).1, (orphanAll picks rid ps r.2).2)

section

variable (picks : ℕ → List ℕ → ℕ) (s : BounceSender)

/-- `failRequest`. -/
def failRequest (rid : ℕ) (req : Request)
    (reason : BounceFailReason) : List SenderOutput × BounceSender :=
  let reason := if req.abandonReason ≠ .kNone then req.abandonReason else reason
  let r := orphanAll picks rid req.posted s
  if req.posted.any fun p => p.state = .writing then
    (r.1 ++ [.resolved req.promise (.failure reason)], { r.2 with
        mPendingCancel := r.2.mPendingCancel.set rid req.peer
        mRequests := r.2.mRequests.erase rid })
  else
    (r.1 ++ [.send req.peer (.cancel rid s.endpoint), .resolved req.promise (.failure reason)],
      { r.2 with mRequests := r.2.mRequests.erase rid })

/-- `onNack`. -/
def onNack (peer : Bytes) (rid : ℕ) :
    List SenderOutput × BounceSender :=
  match s.mRequests.find? rid with
  | none => ([], s)
  | some req => if peer = req.peer then failRequest picks s rid req .kPeerNack else ([], s)

end

/-- `onAck`. -/
def onAck (pick : List ℕ → ℕ) (s : BounceSender) (peer : Bytes) (rid chunkIdx regionHandle : ℕ) :
    List SenderOutput × BounceSender :=
  match s.mRequests.find? rid with
  | none => ([], s)
  | some req =>
    if peer = req.peer then
      match req.posted.findIdx? fun p =>
        p.chunkIdx = chunkIdx ∧ p.remoteHandle = regionHandle ∧ p.state = .sent with
      | none => ([], s)
      | some i =>
        match req.posted[i]? with
        | none => ([], s)
        | some p =>
          let r := release pick s p.localOffset
          let out := r.1 ++ [.acked req.promise chunkIdx regionHandle peer]
          if req.numChunks ≤ req.acked + 1 then
            (out ++ [.resolved req.promise .success],
              { r.2 with mRequests := r.2.mRequests.erase rid })
          else
            (out, { r.2 with
              mRequests := r.2.mRequests.set rid { req with
                posted := req.posted.eraseIdx i
                acked := req.acked + 1
                lastProgress := s.now } })
    else ([], s)

/-- The cap on descriptors that `submit` gives to the plan. -/
def maxDescsPerChunk (maxChunkSizeBytes : ℕ) : ℕ := max 1024 (maxChunkSizeBytes / 256)

/-- The first lock section of `submit`: the plan, and the request in the table. -/
def submit (s : BounceSender) (srcDescs dstDescs : List MemoryDesc) (peer : Bytes) :
    List SenderOutput × BounceSender :=
  let promise := s.promises
  let s : BounceSender := { s with promises := s.promises + 1 }
  match BounceTransferPlan.build srcDescs dstDescs s.cfg.maxChunkSizeBytes
    (maxDescsPerChunk s.cfg.maxChunkSizeBytes) with
  | .error _ => ([.resolved promise (.failure .kPlanRejected)], s)
  | .ok plan =>
    let numChunks := plan.mChunks.length % 2 ^ 32
    if numChunks = 0 then ([.resolved promise .success], s)
    else
      let rid := s.mNextRid
      let chunkBytes := (plan.mChunks.take numChunks).map fun c => c.packedBytes % 2 ^ 32
      let s : BounceSender := { s with
        mNextRid := (s.mNextRid + 1) % 2 ^ 64
        announcing := s.announcing ++ [(rid, peer, chunkBytes)] }
      if rid ∈ s.mRequests then ([], s)
      else
        ([.submitted promise rid peer numChunks], { s with
            mRequests := s.mRequests.set rid
              { peer := peer, numChunks := numChunks, plan := plan, promise := promise,
                lastProgress := s.now } })

/-! ### The sender as a machine -/

/-- An event at the sender.  `rid` and `i` name the chunk number `i` of the posted chunks of a
request. -/
inductive Event where
  | submit (srcDescs dstDescs : List MemoryDesc) (peer : Bytes)
  | announce (i : ℕ)
  | pump (ch : PumpChoices) (rid : ℕ)
  | grant (ch : PumpChoices) (peer : Bytes) (rid : ℕ) (credits : List BounceCreditEntry)
  | ack (pick : List ℕ → ℕ) (peer : Bytes) (rid chunkIdx regionHandle : ℕ)
  | nack (picks : ℕ → List ℕ → ℕ) (peer : Bytes) (rid : ℕ)
  | gatherReady (rid i : ℕ)
  | postWrite (rid i : ℕ) (ok : Bool)
  | pollWrite (rid i : ℕ)
  | gatherFailed (picks : ℕ → List ℕ → ℕ) (rid i : ℕ)
  | writeFailed (picks : ℕ → List ℕ → ℕ) (rid i : ℕ)
  | timeout (picks : ℕ → List ℕ → ℕ) (rid : ℕ)
  | forget (picks : ℕ → List ℕ → ℕ) (peer : Bytes) (rid : ℕ)
  | orphanLocal (pick : List ℕ → ℕ) (i : ℕ)
  | pendingCancel (rid : ℕ)
  | orphanGather (pick : List ℕ → ℕ) (i : ℕ)
  | kernelEnds (i : ℕ)
  | writeEnds (i : ℕ)
  | tick (t : ℤ)
  | receiverCall (pick : List ℕ → ℕ) (c : Call)
  | borrowCtx
  | returnCtx (i : ℕ)

/-- The posted chunk number `i` of a request is replaced. -/
def setPosted (s : BounceSender) (rid : ℕ) (req : Request) (i : ℕ) (p : Posted) : BounceSender :=
  { s with mRequests := s.mRequests.set rid { req with posted := req.posted.set i p } }

section

variable (s : BounceSender) (rid i : ℕ)

/-- Runs `f` on a posted chunk, if it is there. -/
def onPosted
    (f : Request → Posted → List SenderOutput × BounceSender) : List SenderOutput × BounceSender :=
  match s.mRequests.find? rid with
  | none => ([], s)
  | some req =>
    match req.posted[i]? with
    | none => ([], s)
    | some p => f req p

/-- `drainGatherReady`, the poll of a gather: its event is complete once its kernel has ended,
and the exec context goes back. -/
def gatherReady : List SenderOutput × BounceSender :=
  s.onPosted rid i fun req p =>
    match p.state, p.ctx with
    | .gathering, some ctx =>
      if ctx ∈ s.kernels.map Prod.fst then ([], s)
      else
        ([], { s.setPosted rid req i { p with ctx := none, state := .gathered } with
          exec := s.exec.release ctx })
    | _, _ => ([], s)

/-- `drainGatherReady`, the write of a gathered chunk that has its credit; `ok` says whether the
post gave a handle. -/
def postWrite (ok : Bool) : List SenderOutput × BounceSender :=
  s.onPosted rid i fun req p =>
    if p.state = .gathered ∧ p.hasCredit then
      ([.wrote req.promise p.chunkIdx p.remoteAddr p.remoteHandle p.writeBytes],
        { s.setPosted rid { req with lastProgress := s.now } i
            { p with
              xfer := if ok then some ⟨req.peer, p.remoteHandle⟩ else none, state := .writing } with
          writes := if ok then s.writes ++ [p.localOffset] else s.writes })
    else ([], s)

/-- `pollSenderHandles`, a write that is seen to have succeeded: DATA is sent. -/
def pollWrite : List SenderOutput × BounceSender :=
  s.onPosted rid i fun req p =>
    if p.state = .writing ∧ p.xfer.isSome ∧ p.localOffset ∉ s.writes then
      ([.landed req.promise p.chunkIdx,
          .send req.peer (.data rid p.chunkIdx req.numChunks p.remoteHandle
            (chunkAt req p.chunkIdx).scatterRuns)],
        s.setPosted rid req i { p with xfer := none, state := .sent })
    else ([], s)

end

/-- A request of the table fails, if the condition on it holds. -/
def failIf (picks : ℕ → List ℕ → ℕ) (s : BounceSender) (rid : ℕ) (reason : BounceFailReason)
    (cond : Request → Bool) : List SenderOutput × BounceSender :=
  match s.mRequests.find? rid with
  | none => ([], s)
  | some req => if cond req then failRequest picks s rid req reason else ([], s)

/-- `drainOrphanLocal`, one orphan: its region goes back once the write has ended. -/
def drainOrphanLocal (pick : List ℕ → ℕ) (s : BounceSender) (i : ℕ) :
    List SenderOutput × BounceSender :=
  match s.mOrphanLocal[i]? with
  | none => ([], s)
  | some o =>
    if o.xfer.isSome ∧ o.offset ∈ s.writes then ([], s)
    else release pick { s with mOrphanLocal := s.mOrphanLocal.eraseIdx i } o.offset

/-- `drainOrphanLocal`, one deferred cancel: it is sent once no write of the request is left. -/
def drainPendingCancel (s : BounceSender) (rid : ℕ) : List SenderOutput × BounceSender :=
  match s.mPendingCancel.find? rid with
  | none => ([], s)
  | some peer =>
    if s.mOrphanLocal.any fun o => o.rid = rid then ([], s)
    else
      ([.send peer (.cancel rid s.endpoint)],
        { s with mPendingCancel := s.mPendingCancel.erase rid })

/-- `drainOrphanGather`, one orphan: its context and region go back once the stream is idle. -/
def drainOrphanGather (pick : List ℕ → ℕ) (s : BounceSender) (i : ℕ) :
    List SenderOutput × BounceSender :=
  match s.mOrphanGather[i]? with
  | none => ([], s)
  | some o =>
    if o.ctx ∈ s.kernels.map Prod.fst then ([], s)
    else
      release pick { s with
        mOrphanGather := s.mOrphanGather.eraseIdx i
        exec := s.exec.release o.ctx } o.localOffset

/-- The calls of the scheduler that belong to the local sender. -/
def isLocalCall : Call → Bool
  | .acquireLocal _ _ | .promoteLocal _ | .releaseLocal _ => true
  | _ => false

def step (s : BounceSender) : Event → List SenderOutput × BounceSender
  | .submit srcDescs dstDescs peer => submit s srcDescs dstDescs peer
  | .announce i =>
    match s.announcing[i]? with
    | none => ([], s)
    | some (rid, peer, chunkBytes) =>
      ([.send peer (.want rid chunkBytes s.endpoint)],
        { s with announcing := s.announcing.eraseIdx i })
  | .pump ch rid => pump ch s rid
  | .grant ch peer rid credits => onGrant ch s peer rid credits
  | .ack pick peer rid chunkIdx regionHandle => onAck pick s peer rid chunkIdx regionHandle
  | .nack picks peer rid => onNack picks s peer rid
  | .gatherReady rid i => gatherReady s rid i
  | .postWrite rid i ok => postWrite s rid i ok
  | .pollWrite rid i => pollWrite s rid i
  | .gatherFailed picks rid i =>
    failIf picks s rid .kGatherFailed fun req =>
      (req.posted[i]?).any fun p => p.state = .gathering ∨ p.state = .gatherFailed
  | .writeFailed picks rid i =>
    failIf picks s rid .kWriteFailed fun req => (req.posted[i]?).any fun p => p.state = .writing
  | .timeout picks rid =>
    failIf picks s rid .kNoProgressTimeout fun req =>
      0 < s.cfg.requestTimeoutMs ∧ s.cfg.requestTimeoutMs < s.now - req.lastProgress
  | .forget picks peer rid => failIf picks s rid .kPeerDropped fun req => req.peer = peer
  | .orphanLocal pick i => drainOrphanLocal pick s i
  | .pendingCancel rid => drainPendingCancel s rid
  | .orphanGather pick i => drainOrphanGather pick s i
  | .kernelEnds i => ([], { s with kernels := s.kernels.eraseIdx i })
  | .writeEnds i => ([], { s with writes := s.writes.eraseIdx i })
  | .tick t => ([], { s with now := t })
  | .receiverCall pick c =>
    if isLocalCall c then ([], s)
    else
      let r := call pick s.scheduler c
      (s.grantsOut r.1, { s with scheduler := r.2 })
  | .borrowCtx =>
    match s.exec.mFree with
    | [] => ([], s)
    | ctx :: free => ([], { s with exec := { s.exec with mFree := free }, lent := s.lent ++ [ctx] })
  | .returnCtx i =>
    match s.lent[i]? with
    | none => ([], s)
    | some ctx => ([], { s with exec := s.exec.release ctx, lent := s.lent.eraseIdx i })

variable (cfg : BounceConfig) (deviceId : ℕ) (endpoint : Bytes) (scheduler : CreditScheduler)

/-- A new sender. -/
def ctor (exec : ExecPool) : BounceSender :=
  { cfg := cfg, deviceId := deviceId, endpoint := endpoint, scheduler := scheduler, exec := exec }

/-- The sender of an agent: the exec contexts are made for the chunk size of the configuration,
and the constructor of `BounceTransport` clamps that size to the capacity of the arena. -/
def create (copyStreamCount : ℕ) : BounceSender :=
  ctor { cfg with maxChunkSizeBytes := min cfg.maxChunkSizeBytes scheduler.mArena.capacity }
    deviceId endpoint scheduler (.ctor copyStreamCount (maxDescsPerChunk cfg.maxChunkSizeBytes))

end BounceSender

end TrtLlm
