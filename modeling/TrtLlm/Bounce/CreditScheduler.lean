import TrtLlm.Bounce.BuddyAllocator

/-!
The credit scheduler of the bounce receiver (`CreditScheduler.cpp`).

One buddy arena is shared by the flows of all peers, each of which holds the regions
granted to it, and by the local sender, which stages its gathers there.  A flow is a queue
of wanted chunk sizes and a set of held offsets; `schedule` hands out regions round robin
over a ring of flow keys, with a time-boxed drain mode for a head chunk that is bypassed
too often.

* every public member function is a definition under its own name, taking the state and
  returning the grants to send with the new state;
* `mClock` is the injectable time source: a stream of readings, `mTick` counting those
  already taken, so that consecutive readings inside one call may differ;
* the outer loop of `schedule` runs on fuel.  `scheduleLoop_enough` says that the fuel
  given is enough, because every further turn of the loop lowers `scheduleMeasure`.

Log messages and the set of flows already warned about are left out.
-/

namespace TrtLlm

/-- A byte string, the `std::string` of the source. -/
abbrev Bytes := List UInt8

/-- Subtraction of 64-bit words. -/
def sub64 (a b : ℕ) : ℕ := (a + (2 ^ 64 - b % 2 ^ 64)) % 2 ^ 64

/-- A credit handed to a flow: write permission for one arena region. -/
structure Grant where
  flow : Bytes
  offset : ℕ
  addr : ℕ
  len : ℕ
deriving DecidableEq, Repr

/-- The state of one flow. -/
structure FlowState where
  pending : List ℕ := []
  held : USet ℕ := ∅
  blockedAtGrantSequence : Option ℕ := none
  lastProgress : ℤ := 0

/-- The members of `CreditScheduler`. -/
structure CreditScheduler where
  mArena : BuddyAllocator
  mBaseAddr : ℕ
  mMaxInflightChunksPerRequest : ℕ
  mFlows : UMap Bytes FlowState := ∅
  mLocalHeld : USet ℕ := ∅
  mEagerHeld : UMap ℕ ℕ := ∅
  mEagerHeldBytes : ℕ := 0
  mEagerBudgetBytes : ℕ
  mOrphans : USet ℕ := ∅
  mQuarantined : UMap ℕ ℤ := ∅
  mClock : ℕ → ℤ
  mTick : ℕ := 0
  mGrantSequence : ℕ := 0
  mDrainFlow : Option Bytes := none
  mDrainSince : ℤ := 0
  mDrainTimeout : ℤ := 15000
  mRing : List Bytes := []
  mCursor : ℕ := 0

namespace CreditScheduler

def kMinimumBypassGrants : ℕ := 8

def kBypassRounds : ℕ := 2

/-- The constructor; no value where that of the arena has none. -/
def ctor (baseAddr arenaSizeBytes arenaAllocationGranularityBytes maxInflightChunksPerRequest : ℕ)
    (clock : ℕ → ℤ) : Option CreditScheduler :=
  (BuddyAllocator.ctor arenaSizeBytes arenaAllocationGranularityBytes).map fun arena =>
    { mArena := arena
      mBaseAddr := baseAddr
      mMaxInflightChunksPerRequest :=
        if maxInflightChunksPerRequest = 0 then 1 else maxInflightChunksPerRequest
      mEagerBudgetBytes := arena.capacity / 2
      mClock := clock }

section

variable (s : CreditScheduler)

/-- The next reading of the clock. -/
def now : ℤ := s.mClock s.mTick

/-- The state after a reading of the clock. -/
def tick : CreditScheduler := { s with mTick := s.mTick + 1 }

def ensureInRing (flow : Bytes) : CreditScheduler :=
  if flow ∈ s.mRing then s else { s with mRing := s.mRing ++ [flow] }

def dropFromRing (flow : Bytes) : CreditScheduler :=
  let drain := if s.mDrainFlow = some flow then none else s.mDrainFlow
  if flow ∈ s.mRing then
    let idx := s.mRing.idxOf flow
    let ring := s.mRing.eraseIdx idx
    if ring = [] then { s with mDrainFlow := drain, mRing := [], mCursor := 0 }
    else
      let cursor := if idx < s.mCursor then s.mCursor - 1 else s.mCursor
      { s with mDrainFlow := drain, mRing := ring, mCursor := cursor % ring.length }
  else { s with mDrainFlow := drain }

/-- The ring key `k` places after the cursor. -/
def ringAt (k : ℕ) : Bytes :=
  s.mRing.getD ((s.mCursor + k) % s.mRing.length) []

/-- The head chunk of a flow that wants one and is below its in-flight cap. -/
def headWant (st : FlowState) : Option ℕ :=
  match st.pending with
  | [] => none
  | want :: _ => if s.mMaxInflightChunksPerRequest ≤ st.held.size then none else some want

/-- One turn of the scan of `maybeActivateDrain`: the oldest blocked sequence so far, and
its flow. -/
def drainScan (threshold : ℕ) (acc : Option (ℕ × Bytes)) (k : ℕ) :
    Option (ℕ × Bytes) :=
  match s.mFlows.find? (s.ringAt k) with
  | none => acc
  | some st =>
    match s.headWant st, st.blockedAtGrantSequence with
    | some _, some blocked =>
      if sub64 s.mGrantSequence blocked < threshold then acc
      else
        match acc with
        | none => some (blocked, s.ringAt k)
        | some (oldest, _) => if blocked < oldest then some (blocked, s.ringAt k) else acc
    | _, _ => acc

def maybeActivateDrain : CreditScheduler :=
  if s.mDrainFlow.isSome ∨ s.mRing = [] then s
  else
    let threshold := max kMinimumBypassGrants (kBypassRounds * s.mRing.length)
    match (List.range s.mRing.length).foldl (s.drainScan threshold) none with
    | none => s
    | some (_, flow) => { s.tick with mDrainFlow := some flow, mDrainSince := s.now }

/-- `issueGrant`: the head chunk of the flow is granted the region at `offset`. -/
def issueGrant (flow : Bytes) (st : FlowState) (ringIdx offset want : ℕ) :
    CreditScheduler × Grant :=
  ({ s.tick with
      mFlows := s.mFlows.set flow
        { pending := st.pending.tail
          held := USet.insert st.held offset
          blockedAtGrantSequence := none
          lastProgress := s.now }
      mCursor := (ringIdx + 1) % s.mRing.length
      mGrantSequence := (s.mGrantSequence + 1) % 2 ^ 64 },
    { flow := flow, offset := offset, addr := (s.mBaseAddr + offset) % 2 ^ 64, len := want })

end

/-- How one turn of the loop of `schedule` ends: the loop is left, or goes on with a grant
more, or goes on without one. -/
inductive Turn where
  | stop (s : CreditScheduler)
  | granted (s : CreditScheduler) (g : Grant)
  | retry (s : CreditScheduler)

/-- The round-robin sweep over the places `ks` after the cursor. -/
def sweep (pick : List ℕ → ℕ) : List ℕ → CreditScheduler → Turn
  | [], s => .stop s
  | k :: ks, s =>
    match s.mFlows.find? (s.ringAt k) with
    | none => sweep pick ks s
    | some st =>
      match s.headWant st with
      | none => sweep pick ks s
      | some want =>
        match s.mArena.alloc pick want with
        | (none, _) =>
          if st.blockedAtGrantSequence.isSome then sweep pick ks s
          else
            sweep pick ks { s with
              mFlows := s.mFlows.set (s.ringAt k)
                { st with blockedAtGrantSequence := some s.mGrantSequence } }
        | (some off, arena) =>
          let r := issueGrant { s with mArena := arena } (s.ringAt k) st
            ((s.mCursor + k) % s.mRing.length) off want
          .granted r.1 r.2

/-- One turn of the loop of `schedule`, after `maybeActivateDrain`. -/
def drainOrSweep (pick : List ℕ → ℕ) (s : CreditScheduler) : Turn :=
  match s.mDrainFlow with
  | none => sweep pick (List.range s.mRing.length) s
  | some flow =>
    match s.mFlows.find? flow with
    | none => .retry { s with mDrainFlow := none }
    | some st =>
      match s.headWant st with
      | none => .retry { s with mDrainFlow := none }
      | some want =>
        match s.mArena.alloc pick want with
        | (none, _) =>
          if s.now - s.mDrainSince < s.mDrainTimeout then .stop s.tick
          else
            -- the time box is over: the drain is abandoned and the sweep resumes
            sweep pick (List.range s.mRing.length) { s.tick with
              mFlows := s.mFlows.set flow
                { st with blockedAtGrantSequence := some s.mGrantSequence }
              mDrainFlow := none }
        | (some off, arena) =>
          let r := issueGrant { s with mArena := arena } flow st (s.mRing.idxOf flow) off want
          .granted { r.1 with mDrainFlow := none } r.2

def scheduleTurn (pick : List ℕ → ℕ) (s : CreditScheduler) : Turn :=
  if s.mRing = [] then .stop s else drainOrSweep pick s.maybeActivateDrain

def scheduleLoop (pick : List ℕ → ℕ) : ℕ → CreditScheduler → List Grant × CreditScheduler
  | 0, s => ([], s)
  | fuel + 1, s =>
    match scheduleTurn pick s with
    | .stop s' => ([], s')
    | .retry s' => scheduleLoop pick fuel s'
    | .granted s' g => (g :: (scheduleLoop pick fuel s').1, (scheduleLoop pick fuel s').2)

/-- The chunks still wanted by all flows. -/
def totalPending (s : CreditScheduler) : ℕ := s.mFlows.total fun _ st => st.pending.length

/-- What every further turn of the loop of `schedule` lowers. -/
def scheduleMeasure (s : CreditScheduler) : ℕ :=
  2 * s.totalPending + if s.mDrainFlow.isSome then 1 else 0

/-- `schedule`: hand out as many regions as possible now. -/
def schedule (pick : List ℕ → ℕ) (s : CreditScheduler) : List Grant × CreditScheduler :=
  scheduleLoop pick (s.scheduleMeasure + 1) s

def eraseIfDone (s : CreditScheduler) (flow : Bytes) : CreditScheduler :=
  match s.mFlows.find? flow with
  | none => s
  | some st =>
    if st.pending = [] ∧ st.held.size = 0 then
      dropFromRing { s with mFlows := s.mFlows.erase flow } flow
    else s

/-- The state in which `onWant` calls `schedule`. -/
def onWantUpdate (s : CreditScheduler) (flow : Bytes) (chunkBytes : List ℕ) : CreditScheduler :=
  let st := (s.mFlows.find? flow).getD {}
  let s' := { s.tick with
    mFlows := s.mFlows.set flow
      { st with pending := chunkBytes, blockedAtGrantSequence := none, lastProgress := s.now } }
  if chunkBytes = [] then eraseIfDone s' flow else ensureInRing s' flow

def onWant (pick : List ℕ → ℕ) (s : CreditScheduler) (flow : Bytes) (chunkBytes : List ℕ) :
    List Grant × CreditScheduler :=
  schedule pick (onWantUpdate s flow chunkBytes)

/-- The state in which `onScatterDone` calls `schedule`. -/
def onScatterDoneUpdate (s : CreditScheduler) (flow : Bytes) (offset : ℕ) : CreditScheduler :=
  match s.mFlows.find? flow with
  | none => s
  | some st =>
    if offset ∈ st.held then
      eraseIfDone { s.tick with
        mArena := s.mArena.free offset
        mFlows := s.mFlows.set flow
          { st with held := st.held.erase offset, lastProgress := s.now } } flow
    else eraseIfDone s flow

def onScatterDone (pick : List ℕ → ℕ) (s : CreditScheduler) (flow : Bytes) (offset : ℕ) :
    List Grant × CreditScheduler :=
  schedule pick (onScatterDoneUpdate s flow offset)

section

variable (busy : USet ℕ) (quarantineFor : ℤ) (acc : CreditScheduler × List ℕ)

/-- What `dropFlow` does with one held region: a busy one becomes an orphan, another one is
quarantined or freed. -/
def dropRegion (off : ℕ) :
    CreditScheduler × List ℕ :=
  let (s, deferred) := acc
  if off ∈ busy then ({ s with mOrphans := USet.insert s.mOrphans off }, deferred ++ [off])
  else if 0 < quarantineFor then
    ({ s.tick with mQuarantined := s.mQuarantined.emplace off (s.now + quarantineFor) }, deferred)
  else ({ s with mArena := s.mArena.free off }, deferred)

def dropFlow (flow : Bytes) :
    CreditScheduler × List ℕ :=
  match acc.1.mFlows.find? flow with
  | none => acc
  | some st =>
    let r := st.held.keys.foldl (dropRegion busy quarantineFor) acc
    (dropFromRing { r.1 with mFlows := r.1.mFlows.erase flow } flow, r.2)

end

/-- The flows whose key starts with `pfx`. -/
def victims (s : CreditScheduler) (pfx : Bytes) : List Bytes :=
  s.mFlows.keys.filter fun key => pfx.isPrefixOf key

/-- The state in which `reclaimByPrefix` calls `schedule`, and the deferred regions. -/
def reclaimByPrefixUpdate (s : CreditScheduler) (pfx : Bytes) (busy : USet ℕ) (quarantineFor : ℤ) :
    CreditScheduler × List ℕ :=
  (s.victims pfx).foldl (dropFlow busy quarantineFor) (s, [])

/-- `reclaimByPrefix`; the last component is what it appends to `deferredOut`.  The empty
prefix is refused. -/
def reclaimByPrefix (pick : List ℕ → ℕ) (s : CreditScheduler) (pfx : Bytes) (busy : USet ℕ)
    (quarantineFor : ℤ) : List Grant × CreditScheduler × List ℕ :=
  if pfx = [] then ([], s, [])
  else
    let r := reclaimByPrefixUpdate s pfx busy quarantineFor
    ((schedule pick r.1).1, (schedule pick r.1).2, r.2)

def reclaimFlow (pick : List ℕ → ℕ) (s : CreditScheduler) (flow : Bytes) (busy : USet ℕ)
    (quarantineFor : ℤ) : List Grant × CreditScheduler × List ℕ :=
  let r := dropFlow busy quarantineFor (s, []) flow
  ((schedule pick r.1).1, (schedule pick r.1).2, r.2)

/-- `staleFlows`: the flows holding a region without progress for longer than the limit. -/
def staleFlows (s : CreditScheduler) (idleLimit : ℤ) : List Bytes :=
  (s.mFlows.entries.filter fun e => 0 < e.2.held.size ∧ idleLimit < s.now - e.2.lastProgress).map
    Prod.fst

def pollDrain (pick : List ℕ → ℕ) (s : CreditScheduler) : List Grant × CreditScheduler :=
  if s.mDrainFlow.isSome then
    if s.mDrainTimeout ≤ s.now - s.mDrainSince then schedule pick s.tick else ([], s.tick)
  else ([], s)

/-- What `reapQuarantine` does with one quarantined region at the time `t`. -/
def reapRegion (t : ℤ) (s : CreditScheduler) (e : ℕ × ℤ) : CreditScheduler :=
  if e.2 ≤ t then
    { s with mArena := s.mArena.free e.1, mQuarantined := s.mQuarantined.erase e.1 }
  else s

/-- The state in which `reapQuarantine` decides whether to call `schedule`. -/
def reapQuarantineUpdate (s : CreditScheduler) : CreditScheduler :=
  s.mQuarantined.entries.foldl (reapRegion s.now) s.tick

def reapQuarantine (pick : List ℕ → ℕ) (s : CreditScheduler) : List Grant × CreditScheduler :=
  if s.mQuarantined.entries.any fun e => e.2 ≤ s.now then schedule pick s.reapQuarantineUpdate
  else ([], s.reapQuarantineUpdate)

section

variable (s : CreditScheduler)

def heldByFlow (flow : Bytes) (offset : ℕ) : Bool :=
  match s.mFlows.find? flow with
  | none => false
  | some st => offset ∈ st.held

def knowsFlow (flow : Bytes) : Bool := flow ∈ s.mFlows

def regionBytes (offset : ℕ) : ℕ := s.mArena.blockBytes offset

/-- The state in which `freeOrphanRegion` calls `schedule`. -/
def freeOrphanRegionUpdate (offset : ℕ) : CreditScheduler :=
  if offset ∈ s.mOrphans then
    { s with mOrphans := s.mOrphans.erase offset, mArena := s.mArena.free offset }
  else s

end

def freeOrphanRegion (pick : List ℕ → ℕ) (s : CreditScheduler) (offset : ℕ) :
    List Grant × CreditScheduler :=
  schedule pick (freeOrphanRegionUpdate s offset)

/-- `acquireLocal`; an eager acquisition over the budget gives its block back. -/
def acquireLocal (pick : List ℕ → ℕ) (s : CreditScheduler) (bytes : ℕ) (eager : Bool) :
    Option ℕ × CreditScheduler :=
  match s.mArena.alloc pick bytes with
  | (none, _) => (none, s)
  | (some off, arena) =>
    if eager then
      let rounded := arena.blockBytes off
      if s.mEagerBudgetBytes < s.mEagerHeldBytes + rounded then
        (none, { s with mArena := arena.free off })
      else
        (some off, { s with
          mArena := arena
          mEagerHeld := s.mEagerHeld.emplace off rounded
          mEagerHeldBytes := s.mEagerHeldBytes + rounded
          mLocalHeld := USet.insert s.mLocalHeld off })
    else (some off, { s with mArena := arena, mLocalHeld := USet.insert s.mLocalHeld off })

def promoteLocal (s : CreditScheduler) (offset : ℕ) : CreditScheduler :=
  match s.mEagerHeld.find? offset with
  | none => s
  | some bytes =>
    { s with
      mEagerHeldBytes := sub64 s.mEagerHeldBytes bytes
      mEagerHeld := s.mEagerHeld.erase offset }

/-- The state in which `releaseLocal` calls `schedule`. -/
def releaseLocalUpdate (s : CreditScheduler) (offset : ℕ) : CreditScheduler :=
  if offset ∈ s.mLocalHeld then
    let s' := promoteLocal { s with mLocalHeld := s.mLocalHeld.erase offset } offset
    { s' with mArena := s'.mArena.free offset }
  else s

def releaseLocal (pick : List ℕ → ℕ) (s : CreditScheduler) (offset : ℕ) :
    List Grant × CreditScheduler :=
  schedule pick (releaseLocalUpdate s offset)

def setDrainTimeout (s : CreditScheduler) (timeout : ℤ) : CreditScheduler :=
  { s with mDrainTimeout := timeout }

end CreditScheduler

end TrtLlm
