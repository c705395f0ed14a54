import TrtLlm.Scheduler.WaitingQueue

/-!
`gen_admission_queue.py`: the waiting queue of a generation server, in the order of the original
arrivals, with a guard for requests that wait for long and those that are late behind the others.

The order is built from the entries when it is needed, and popped from until the clock or the
entries change; an entry that was popped stays in the list of entries until that is compacted.

* `AdaptiveSlack`: the target and the guard, which are estimated from the admissions;
* `GenAdmissionWaitingQueue`: the queue, and `step`: its calls;
* `AdmissionSpec`: the queue that sorts its entries at every call.
-/

namespace TrtLlm.Scheduler

/-! ### The slack target -/

/-- `AdaptiveSlackConfig`. -/
structure AdaptiveSlackConfig where
  q : ℚ
  n : ℕ
  updS : ℚ
  alpha : ℚ
  capUp : ℚ
  capDn : ℚ
  freeze : ℚ
  queuedS : ℚ
  margin : ℚ
  xLo : ℚ
  xHi : ℚ
  guardK : ℚ
  warmFrac : ℚ
  s2fSeedS : ℚ
  q_nonneg : 0 ≤ q
  q_le_one : q ≤ 1
  n_pos : 0 < n

/-- `_quantile`, of at least one value. -/
def quantile (values : List ℚ) (q : ℚ) : ℚ :=
  let v := values.insertionSort (· ≤ ·)
  let pos := q * (v.length - 1)
  let lo := ⌊pos⌋.toNat
  let hi := min (lo + 1) (v.length - 1)
  v.getD lo 0 + (v.getD hi 0 - v.getD lo 0) * (pos - lo)

/-- `_mean`. -/
def mean (values : List ℚ) : ℚ := if values = [] then 0 else values.sum / values.length

/-- `AdaptiveSlack`. The target `X` and the guard `G` are set together. -/
structure AdaptiveSlack where
  cfg : AdaptiveSlackConfig
  s2fS : ℚ
  obsWork : List ℚ
  obsGw : List ℚ
  slackAndGuard : Option (ℚ × ℚ)
  lastUpd : Option ℚ
  updN : ℕ
  updQ : ℕ
  nQ : ℕ

namespace AdaptiveSlack

/-- `__init__`. -/
def init (cfg : AdaptiveSlackConfig) : AdaptiveSlack :=
  ⟨cfg, cfg.s2fSeedS, [], [], none, none, 0, 0, 0⟩

/-- `_target`. -/
def target (a : AdaptiveSlack) (work gw : List ℚ) : ℚ :=
  quantile work a.cfg.q + mean gw + a.cfg.margin

/-- The last values of a window. -/
def lastOf (k : ℕ) (values : List ℚ) : List ℚ := values.drop (values.length - k)

/-- `on_clock`. -/
def onClock (a : AdaptiveSlack) (now : ℚ) : AdaptiveSlack :=
  let c := a.cfg
  if a.lastUpd.any fun last => now - last < c.updS then a
  else
    let a' := { a with lastUpd := some now, updN := 0, updQ := 0 }
    if a.nQ < c.n then a'
    else
      let tgt := a.target a.obsWork a.obsGw
      let x := match a.slackAndGuard with
        | none =>
          let k := max 1 ⌊c.n * c.warmFrac⌋.toNat
          a.target (lastOf k a.obsWork) (lastOf k a.obsGw)
        | some (x, _) =>
          if 0 < a.updN ∧ c.freeze ≤ (a.updQ : ℚ) / a.updN then
            x + max (-c.capDn) (min c.capUp (c.alpha * (tgt - x)))
          else x
      let x := max c.xLo (min c.xHi x)
      { a' with slackAndGuard := some (x, x + c.guardK * mean a.obsGw) }

/-- `append` to a window of at most `n` values. -/
def observe (n : ℕ) (value : ℚ) (values : List ℚ) : List ℚ := lastOf n (values ++ [value])

/-- `on_admit`. -/
def onAdmit (a : AdaptiveSlack) (now origArrival genArrival : ℚ) : AdaptiveSlack :=
  let gw := now - genArrival
  let queued := if a.cfg.queuedS < gw then 1 else 0
  { a with
    obsWork := observe a.cfg.n (now - origArrival + a.s2fS - gw) a.obsWork
    obsGw := observe a.cfg.n gw a.obsGw
    updN := a.updN + 1
    updQ := a.updQ + queued
    nQ := a.nQ + queued }

end AdaptiveSlack

/-! ### The tiers -/

/-- The tiers of an admission. -/
inductive Tier where
  | guard
  | slack
  | late
  | oldest
  | unkeyed
  | warmup
  deriving DecidableEq

/-- An entry of the queue, without its number. -/
structure Stamped where
  orig : ℚ
  genArrival : ℚ
  keyed : Bool
  item : WaitingItem
  deriving DecidableEq

/-- `_make_entry`, without the number: an item that was never stamped gets the latest arrival so
far. -/
def stamp (lastKey : ℚ) (item : WaitingItem) : Stamped :=
  let genArrival := item.admitArrival.getD lastKey
  { orig := item.admitOrigArrival.getD genArrival
    genArrival := genArrival
    keyed := item.admitOrigArrival.isSome
    item := { item with admitArrival := some genArrival } }

/-! ### The queue -/

/-- `GenAdmissionWaitingQueue`: the order is reversed, and missing when it is stale. -/
structure GenAdmissionWaitingQueue where
  adaptive : Option AdaptiveSlack
  log : Bool
  lastStatsLog : Option ℚ
  entries : List (Entry Stamped)
  order : Option (List (Entry Stamped × Tier))
  popped : Finset ℤ
  counter : ℤ
  prependCounter : ℤ
  now : Option ℚ
  lastKey : ℚ

namespace GenAdmissionWaitingQueue

/-- `STATS_LOG_PERIOD_S`. -/
def statsLogPeriodS : ℚ := 30

/-- `__init__`, with the configuration of the `auto` policy or none for the oldest first. -/
def init (auto : Option AdaptiveSlackConfig) : GenAdmissionWaitingQueue :=
  ⟨auto.map AdaptiveSlack.init, false, none, [], none, ∅, 0, -1, none, 0⟩

/-- `_compact`. -/
def compact (q : GenAdmissionWaitingQueue) : GenAdmissionWaitingQueue :=
  if q.popped = ∅ then q
  else { q with entries := q.entries.filter fun e => e.seq ∉ q.popped, popped := ∅ }

/-- `set_now`, which logs from time to time on the first rank. -/
def setNow (now s2f : Option ℚ) (q : GenAdmissionWaitingQueue) : GenAdmissionWaitingQueue :=
  let adaptive := q.adaptive.map fun a => { a with s2fS := s2f.getD a.s2fS }
  let q := { q with now := now, order := none, adaptive := adaptive }
  match now with
  | none => q
  | some t =>
    let q := { q with adaptive := q.adaptive.map fun a => a.onClock t }
    if q.log ∧ (∀ last, q.lastStatsLog = some last → statsLogPeriodS ≤ t - last) then
      { q with lastStatsLog := some t }.compact
    else q

/-- `bisect.insort` by original arrival and number. -/
def insort (entry : Entry Stamped) : List (Entry Stamped) → List (Entry Stamped)
  | [] => [entry]
  | e :: es =>
    if entry.value.orig < e.value.orig ∨ (entry.value.orig = e.value.orig ∧ entry.seq < e.seq) then
      entry :: e :: es
    else e :: insort entry es

/-- `_insert`, of the entry that `_make_entry` makes. -/
def insert (seq : ℤ) (item : WaitingItem) (q : GenAdmissionWaitingQueue) :
    GenAdmissionWaitingQueue :=
  let value := stamp q.lastKey item
  let q := { q with lastKey := max q.lastKey value.genArrival }.compact
  { q with order := none, entries := insort ⟨seq, value⟩ q.entries }

/-- The loop of `_build_order` over the entries, for the guard, the slack and the late ones. -/
def place (x guard s2f now : ℚ) :
    List (Entry Stamped × Tier) × List (Entry Stamped × Tier) × List (Entry Stamped × Tier) →
      Entry Stamped →
      List (Entry Stamped × Tier) × List (Entry Stamped × Tier) × List (Entry Stamped × Tier)
  | (guards, slack, late), e =>
    if guard ≤ now - e.value.genArrival then (guards ++ [(e, .guard)], slack, late)
    else if !e.value.keyed then (guards, slack ++ [(e, .unkeyed)], late)
    else if now - e.value.orig ≤ x - s2f then (guards, slack ++ [(e, .slack)], late)
    else (guards, slack, late ++ [(e, .late)])

section

variable (q : GenAdmissionWaitingQueue)

/-- `_build_order`. -/
def buildOrder : List (Entry Stamped × Tier) :=
  match q.adaptive with
  | none => q.entries.map fun e => (e, .oldest)
  | some a =>
    match q.now with
    | none => q.entries.map fun e => (e, .late)
    | some now =>
      match a.slackAndGuard with
      | none => (serve Stamped.genArrival q.entries).map fun e => (e, .warmup)
      | some (x, guard) =>
        let (guards, slack, late) := q.entries.foldl (place x guard a.s2fS now) ([], [], [])
        guards ++ slack ++ late

/-- The first half of `_next`: the order is there. -/
def refresh : GenAdmissionWaitingQueue :=
  match q.order with
  | some _ => q
  | none => { q.compact with order := some q.compact.buildOrder.reverse }

/-- `__len__`. -/
def len : ℤ := q.entries.length - q.popped.card

/-- `pop_request`, with the tier it notes at the item. -/
def popRequest : Option ((WaitingItem × Tier) × GenAdmissionWaitingQueue) :=
  if q.len ≤ 0 then none
  else
    let q := q.refresh
    match q.order with
    | none => none
    | some order =>
      match order.getLast? with
      | none => none
      | some (entry, tier) =>
        some ((entry.value.item, tier),
          { q with order := some order.dropLast, popped := Insert.insert entry.seq q.popped })

/-- `peek_request`. -/
def peekRequest : Option WaitingItem × GenAdmissionWaitingQueue :=
  if q.len ≤ 0 then (none, q)
  else ((q.refresh.order.getD []).getLast?.map fun e => e.1.value.item, q.refresh)

end

/-- `peek_requests`: the last entries of the reversed order, from its end. -/
def peekRequests (k : ℤ) (q : GenAdmissionWaitingQueue) :
    List WaitingItem × GenAdmissionWaitingQueue :=
  if k ≤ 0 ∨ q.len ≤ 0 then ([], q)
  else (((q.refresh.order.getD []).reverse.take k.toNat).map fun e => e.1.value.item, q.refresh)

section

variable (request : WaitingItem) (q : GenAdmissionWaitingQueue)

/-- `add_request`. -/
def addRequest : GenAdmissionWaitingQueue :=
  { q with counter := q.counter + 1 }.insert q.counter request

/-- `prepend_request`. -/
def prependRequest : GenAdmissionWaitingQueue :=
  { q with prependCounter := q.prependCounter - 1 }.insert q.prependCounter request

end

/-- `prepend_requests`, in reverse. -/
def prependRequests (requests : List WaitingItem)
    (q : GenAdmissionWaitingQueue) : GenAdmissionWaitingQueue :=
  requests.reverse.foldl (fun q request => q.prependRequest request) q

/-- `remove_by_ids`. -/
def removeByIds (requestIds : Finset ℕ) (q : GenAdmissionWaitingQueue) : GenAdmissionWaitingQueue :=
  let q := q.compact
  { q with order := none, entries := q.entries.filter fun e => e.value.item.id ∉ requestIds }

end GenAdmissionWaitingQueue

/-- `mark_admitted` for one item: what was popped is stamped, and a keyed item is observed once. -/
def markOne (now : Option ℚ) (a : AdaptiveSlack) (item : WaitingItem) : AdaptiveSlack :=
  match now, item.admitArrival, item.admitOrigArrival with
  | some now, some genArrival, some orig => if item.observed then a
    else a.onAdmit now orig genArrival
  | _, _, _ => a

/-- `mark_admitted`, as far as the target depends on it. -/
def markAdmitted (now : Option ℚ) (items : List WaitingItem) (adaptive : Option AdaptiveSlack) :
    Option AdaptiveSlack :=
  adaptive.map fun a => items.foldl (markOne now) a

/-- The calls of the queue: those of all waiting queues, and those of the admission. -/
inductive AdmissionCall where
  | queue (call : QueueCall)
  | setNow (now s2f : Option ℚ)
  | markAdmitted (items : List WaitingItem)
  | enableRank0

namespace GenAdmissionWaitingQueue

/-- A call that all waiting queues have. -/
def queueStep (q : GenAdmissionWaitingQueue) : QueueCall → QueueAnswer × GenAdmissionWaitingQueue
  | .addRequest request => (.nothing, q.addRequest request)
  | .addRequests requests => (.nothing, requests.foldl (fun q request => q.addRequest request) q)
  | .popRequest =>
    match q.popRequest with
    | none => (.raised "pop from an empty queue", q)
    | some ((item, _), q') => (.request item, q')
  | .peekRequest =>
    match q.peekRequest with
    | (none, q') => (.raised "peek from an empty queue", q')
    | (some item, q') => (.request item, q')
  | .peekRequests k => (.requests (q.peekRequests k).1, (q.peekRequests k).2)
  | .prependRequest request => (.nothing, q.prependRequest request)
  | .prependRequests requests => (.nothing, q.prependRequests requests)
  | .removeByIds requestIds => (.nothing, q.removeByIds requestIds)
  | .len => (.length q.len, q)
  | .iter => (.requests (q.compact.entries.map fun e => e.value.item), q.compact)

/-- A call of the queue. -/
def step (q : GenAdmissionWaitingQueue) : AdmissionCall →
    List QueueAnswer × GenAdmissionWaitingQueue
  | .queue call => ([(q.queueStep call).1], (q.queueStep call).2)
  | .setNow now s2f => ([.nothing], q.setNow now s2f)
  | .markAdmitted items =>
    ([.nothing], { q with adaptive := TrtLlm.Scheduler.markAdmitted q.now items q.adaptive })
  | .enableRank0 => ([.nothing], { q with log := true })

/-- The queue after a list of calls. -/
def after (auto : Option AdaptiveSlackConfig)
    (calls : List AdmissionCall) : GenAdmissionWaitingQueue :=
  (Machine.run step (init auto) calls).2

end GenAdmissionWaitingQueue

/-! ### The queue it stands for -/

/-- The queue that sorts its entries at every call. -/
structure AdmissionSpec where
  queue : Numbered Stamped
  adaptive : Option AdaptiveSlack
  now : Option ℚ
  lastKey : ℚ

namespace AdmissionSpec

/-- The tier of an entry: the guard for one that waits for long, then those that can meet the target
or have no original arrival, then the late ones. -/
def tier (s : AdmissionSpec) (x : Stamped) : Tier :=
  match s.adaptive with
  | none => .oldest
  | some a =>
    match s.now with
    | none => .late
    | some now =>
      match a.slackAndGuard with
      | none => .warmup
      | some (target, guard) =>
        if guard ≤ now - x.genArrival then .guard
        else if !x.keyed then .unkeyed
        else if now - x.orig ≤ target - a.s2fS then .slack
        else .late

end AdmissionSpec

/-- The place of a tier in the order. -/
def Tier.rank : Tier → ℕ
  | .guard => 0
  | .unkeyed => 1
  | .slack => 1
  | .late => 2
  | .oldest => 0
  | .warmup => 0

namespace AdmissionSpec

/-- By what the entries are sorted, before their numbers: the tier and the original arrival, and
while there is no target the arrival. -/
def cls (s : AdmissionSpec) (x : Stamped) : ℕ ×ₗ ℚ :=
  toLex ((s.tier x).rank, if s.tier x = .warmup then x.genArrival else x.orig)

/-- The entries in the order in which they are admitted. -/
def order (s : AdmissionSpec) : List (Entry Stamped) := s.queue.order s.cls

/-- The queue without an entry. -/
def init (auto : Option AdaptiveSlackConfig) : AdmissionSpec :=
  ⟨Numbered.empty, auto.map AdaptiveSlack.init, none, 0⟩

/-- A request is added. -/
def addRequest (request : WaitingItem) (s : AdmissionSpec) : AdmissionSpec :=
  let value := stamp s.lastKey request
  { s with queue := s.queue.add value, lastKey := max s.lastKey value.genArrival }

/-- A request is put in front. -/
def prependRequest (request : WaitingItem) (s : AdmissionSpec) : AdmissionSpec :=
  let value := stamp s.lastKey request
  { s with queue := s.queue.addFront value, lastKey := max s.lastKey value.genArrival }

variable (s : AdmissionSpec)

/-- The first request of the order leaves, with its tier. -/
def popRequest : Option ((WaitingItem × Tier) × AdmissionSpec) :=
  (s.queue.pop? s.cls).map fun r => ((r.1.value.item, s.tier r.1.value), { s with queue := r.2 })

/-- A call that all waiting queues have. -/
def queueStep : QueueCall → QueueAnswer × AdmissionSpec
  | .addRequest request => (.nothing, s.addRequest request)
  | .addRequests requests => (.nothing, requests.foldl (fun s request => s.addRequest request) s)
  | .popRequest =>
    match s.popRequest with
    | none => (.raised "pop from an empty queue", s)
    | some ((item, _), s') => (.request item, s')
  | .peekRequest =>
    match s.order with
    | [] => (.raised "peek from an empty queue", s)
    | e :: _ => (.request e.value.item, s)
  | .peekRequests k => (.requests ((s.order.take k.toNat).map fun e => e.value.item), s)
  | .prependRequest request => (.nothing, s.prependRequest request)
  | .prependRequests requests => (.nothing, requests.foldr prependRequest s)
  | .removeByIds requestIds =>
    (.nothing, { s with queue := s.queue.keep fun e => e.value.item.id ∉ requestIds })
  | .len => (.length s.queue.entries.length, s)
  | .iter => (.requests ((s.queue.order Stamped.orig).map fun e => e.value.item), s)

/-- A call. -/
def step : AdmissionCall → List QueueAnswer × AdmissionSpec
  | .queue call => ([(s.queueStep call).1], (s.queueStep call).2)
  | .setNow now s2f =>
    let adaptive := s.adaptive.map fun a => { a with s2fS := s2f.getD a.s2fS }
    let adaptive := match now with
      | none => adaptive
      | some t => adaptive.map fun a => a.onClock t
    ([.nothing], { s with now := now, adaptive := adaptive })
  | .markAdmitted items => ([.nothing], { s with adaptive := markAdmitted s.now items s.adaptive })
  | .enableRank0 => ([.nothing], s)

end AdmissionSpec

end TrtLlm.Scheduler
