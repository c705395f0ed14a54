import Mathlib.Tactic

/-!
Agreement on the outcome of one item among parties that talk to a coordinator.

Every party votes once and may report a time-out before its vote; both travel to the coordinator
in order. The coordinator passes a time-out on to all parties, and once all votes are in it tells
them the outcome, again in order. A party may shut down at any time.

* `Slot`: what the parties and the coordinator hold about one item, what is in flight, and the log
  of what has happened;
* `Slot.Step`: what can happen next;
* `Slot.Inv`: the invariant: where each vote and each time-out is, what the tally counts, and what
  each party has been told.
-/

namespace TrtLlm.Commitment

open List Function Option

/-- The outcome of an item, also what a party votes for. -/
inductive Outcome
  | completed
  | failed
  deriving DecidableEq

/-- What is sent about an item. -/
inductive Signal
  | timedOut
  | vote (v : Outcome)
  deriving DecidableEq

/-- The votes on an item that have reached the coordinator. -/
structure Tally (ι : Type*) where
  votes : ι → Option Outcome
  terminalCount : ℕ
  failed : Bool
  timedOut : Bool
  timeoutPending : Bool

/-- What happens to an item. -/
inductive Event (ι : Type*)
  | voted (r : ι) (v : Outcome)
  | timedOut (r : ι)
  | decided (v : Outcome)
  | timeoutReported (r : ι)
  | reported (r : ι) (v : Outcome)
  | polled (r : ι)
  deriving DecidableEq

variable {ι : Type*} [DecidableEq ι]

/-- The event hands the outcome out at this party. -/
def Event.isReport (r : ι) : Event ι → Bool
  | .reported r' _ => r' = r
  | _ => false

namespace Tally

/-- No vote has arrived. -/
def fresh : Tally ι := ⟨fun _ => none, 0, false, false, false⟩

/-- The first vote of a party is counted. -/
def record (t : Tally ι) (r : ι) (v : Outcome) : Tally ι :=
  { t with
    votes := update t.votes r (some v)
    terminalCount := t.terminalCount + 1
    failed := t.failed || v = .failed }

/-- The first time-out is noted and is to be passed on. -/
def expire (t : Tally ι) : Tally ι :=
  if t.timedOut then t else { t with timedOut := true, timeoutPending := true }

/-- The outcome once all votes are in. -/
def outcome (t : Tally ι) : Outcome := if t.failed || t.timedOut then .failed else .completed

omit [DecidableEq ι] in
@[grind =] lemma fresh_votes (r : ι) : (fresh : Tally ι).votes r = none := rfl

omit [DecidableEq ι] in
@[grind =] lemma fresh_timedOut : (fresh : Tally ι).timedOut = false := rfl

@[grind =] lemma record_votes (t : Tally ι) (r r' : ι) (v : Outcome) :
    (t.record r v).votes r' = if r' = r then some v else t.votes r' :=
  update_apply ..

@[grind =] lemma record_timedOut (t : Tally ι) (r : ι) (v : Outcome) :
    (t.record r v).timedOut = t.timedOut := rfl

@[grind =] lemma record_timeoutPending (t : Tally ι) (r : ι) (v : Outcome) :
    (t.record r v).timeoutPending = t.timeoutPending := rfl

omit [DecidableEq ι] in
@[grind =] lemma expire_votes (t : Tally ι) : t.expire.votes = t.votes := by
  rw [expire]
  split_ifs <;> rfl

omit [DecidableEq ι] in
@[grind =] lemma expire_timeoutPending {t : Tally ι} (h : t.timedOut = true) :
    t.expire.timeoutPending = t.timeoutPending := by
  rw [expire, if_pos h]

omit [DecidableEq ι] in
@[grind =] lemma expire_timedOut (t : Tally ι) : t.expire.timedOut = true := by
  rw [expire]
  split_ifs with h
  · exact h
  · rfl

end Tally

/-- One item: the votes and time-outs that the parties hold on to, the signals in flight to and
from the coordinator, the tally, the log with the newest event first, the parties that have shut
down, and whether the coordinator has closed. -/
@[ext]
structure Slot (ι : Type*) where
  pub : ι → Option Outcome
  tmo : ι → Bool
  toward : ι → List Signal
  back : ι → List Signal
  entry : Option (Tally ι)
  log : List (Event ι)
  shut : ι → Bool
  closed : Bool

namespace Slot

/-- The parties other than the coordinator are sent a signal. -/
def broadcast (c : ι) (back : ι → List Signal) (m : Signal) : ι → List Signal :=
  fun r => if r = c then back r else back r ++ [m]

/-- What a call adds to the log if its result is handed out. -/
def logIf (shown : Bool) (e : Event ι) (log : List (Event ι)) : List (Event ι) :=
  if shown then e :: log else log

@[simp, grind =] lemma mem_broadcast {c r : ι} {back : ι → List Signal} {m m' : Signal} :
    m' ∈ broadcast c back m r ↔ m' ∈ back r ∨ (r ≠ c ∧ m' = m) := by
  rw [broadcast]
  split_ifs with h <;> simp [h]

/-- A signal may follow time-outs. -/
lemma pairwise_broadcast {c r : ι} {back : ι → List Signal} (m : Signal)
    (h : ∀ m' ∈ back r, m' = .timedOut) :
    (broadcast c back m r).Pairwise fun m' _ => m' = .timedOut := by
  have hall : (back r).Pairwise fun m' _ => m' = .timedOut :=
    pairwise_iff_forall_sublist.mpr fun hsub => h _ (hsub.subset mem_cons_self)
  rw [broadcast]
  split_ifs
  · exact hall
  · rw [pairwise_append]
    exact ⟨hall, pairwise_singleton _ _, fun m' hm' _ _ => h m' hm'⟩

omit [DecidableEq ι] in
@[simp, grind =] lemma mem_logIf {shown : Bool} {e e' : Event ι} {log : List (Event ι)} :
    e' ∈ logIf shown e log ↔ (shown = true ∧ e' = e) ∨ e' ∈ log := by
  cases shown <;> simp [logIf]

/-- The party has been told the outcome. -/
def Reported (s : Slot ι) (r : ι) : Prop := ∃ v, .reported r v ∈ s.log

def Voted (s : Slot ι) (r : ι) : Prop := ∃ v, .voted r v ∈ s.log

def Decided (s : Slot ι) : Prop := ∃ v, .decided v ∈ s.log

/-- What can happen next; the coordinator is `c`. -/
inductive Step [Fintype ι] (c : ι) : Slot ι → Slot ι → Prop
  /-- A party votes, and its vote is sent to the coordinator. -/
  | vote {s : Slot ι} (r : ι) (v : Outcome) (hr : r ≠ c) (hpub : s.pub r = none)
      (hshut : s.shut r = false) (hrep : ¬s.Reported r) :
      Step c s { s with
        pub := update s.pub r (some v)
        toward := update s.toward r (s.toward r ++ [.vote v])
        log := .voted r v :: s.log }
  /-- The coordinator votes. -/
  | voteSelf {s : Slot ι} (v : Outcome) (hpub : s.pub c = none) (hshut : s.shut c = false)
      (hrep : ¬s.Reported c) :
      Step c s { s with
        pub := update s.pub c (some v)
        entry := some ((s.entry.getD .fresh).record c v)
        log := .voted c v :: s.log }
  /-- A party that has not voted times out. -/
  | timeout {s : Slot ι} (r : ι) (hr : r ≠ c) (hshut : s.shut r = false) (hvote : ¬s.Voted r) :
      Step c s { s with
        tmo := update s.tmo r true
        toward := update s.toward r (s.toward r ++ [.timedOut])
        log := .timedOut r :: s.log }
  /-- The coordinator, which has not voted, times out. -/
  | timeoutSelf {s : Slot ι} (hshut : s.shut c = false) (hvote : ¬s.Voted c) :
      Step c s { s with
        tmo := update s.tmo c true
        entry := some (s.entry.getD .fresh).expire
        log := .timedOut c :: s.log }
  /-- The coordinator receives a vote. -/
  | receiveVote {s : Slot ι} (r : ι) (v : Outcome) (rest : List Signal)
      (h : s.toward r = .vote v :: rest) :
      Step c s { s with
        toward := update s.toward r rest
        entry := some ((s.entry.getD .fresh).record r v) }
  /-- The coordinator receives a time-out. -/
  | receiveTimeout {s : Slot ι} (r : ι) (rest : List Signal) (h : s.toward r = .timedOut :: rest) :
      Step c s { s with
        toward := update s.toward r rest
        entry := some (s.entry.getD .fresh).expire }
  /-- The coordinator passes a time-out on. -/
  | announce {s : Slot ι} (t : Tally ι) (shown : Bool) (hentry : s.entry = some t)
      (hpending : t.timeoutPending = true) :
      Step c s { s with
        entry := some { t with timeoutPending := false }
        back := broadcast c s.back .timedOut
        log := logIf shown (.timeoutReported c) s.log }
  /-- All votes are in: the coordinator tells the outcome. -/
  | decide {s : Slot ι} (t : Tally ι) (shown : Bool) (hentry : s.entry = some t)
      (hcount : t.terminalCount = Fintype.card ι) (hpending : t.timeoutPending = false)
      (hshown : shown = false → s.shut c = true) :
      Step c s { s with
        entry := none
        pub := update s.pub c none
        tmo := update s.tmo c false
        back := broadcast c s.back (.vote t.outcome)
        log := logIf shown (.reported c t.outcome) (.decided t.outcome :: s.log) }
  /-- A party receives a time-out. -/
  | learnTimeout {s : Slot ι} (r : ι) (rest : List Signal) (shown : Bool)
      (h : s.back r = .timedOut :: rest) :
      Step c s { s with
        back := update s.back r rest
        log := logIf shown (.timeoutReported r) s.log }
  /-- A party receives the outcome. -/
  | learn {s : Slot ι} (r : ι) (v : Outcome) (rest : List Signal) (shown : Bool)
      (h : s.back r = .vote v :: rest) (hshown : shown = false → s.shut r = true) :
      Step c s { s with
        pub := update s.pub r none
        tmo := update s.tmo r false
        back := update s.back r rest
        log := logIf shown (.reported r v) s.log }
  /-- All parties have shut down and nothing is in flight to the coordinator: it gives up. -/
  | close {s : Slot ι} (hshut : ∀ r, s.shut r = true) (htoward : ∀ r, s.toward r = []) :
      Step c s { s with
        entry := none
        pub := update s.pub c none
        tmo := update s.tmo c false
        closed := true }
  /-- A party to which nothing is in flight gives up after the coordinator. -/
  | giveUp {s : Slot ι} (r : ι) (hclosed : s.closed = true) (hback : s.back r = []) :
      Step c s { s with
        pub := update s.pub r none
        tmo := update s.tmo r false }
  | shutdown {s : Slot ι} (r : ι) : Step c s { s with shut := update s.shut r true }
  | poll {s : Slot ι} (r : ι) : Step c s { s with log := .polled r :: s.log }

variable [Fintype ι]

/-- What the parties hold on to. -/
structure Held (s : Slot ι) : Prop where
  unique : ∀ r v w, .voted r v ∈ s.log → .voted r w ∈ s.log → v = w
  pub : ∀ r v, s.pub r = some v → .voted r v ∈ s.log
  voted : ∀ r v, .voted r v ∈ s.log → s.pub r = some v ∨ s.Decided ∨ s.closed = true
  tmo : ∀ r, s.tmo r = true → .timedOut r ∈ s.log
  dropped : ∀ r, s.Reported r → s.pub r = none ∧ s.tmo r = false

/-- Where the votes and the time-outs are on their way to the coordinator. A signal in flight is
not counted yet, and nothing follows a vote. -/
structure Underway (c : ι) (s : Slot ι) : Prop where
  self : s.toward c = []
  last : ∀ r, (s.toward r).Pairwise fun m _ => m = .timedOut
  vote : ∀ r v, .vote v ∈ s.toward r → .voted r v ∈ s.log
  timeout : ∀ r, .timedOut ∈ s.toward r → .timedOut r ∈ s.log
  fresh : ∀ r, s.toward r ≠ [] → ¬s.Decided ∧ ∀ t, s.entry = some t → t.votes r = none
  voteAt : ∀ r v, .voted r v ∈ s.log → .vote v ∈ s.toward r
    ∨ (∃ t, s.entry = some t ∧ t.votes r = some v) ∨ s.Decided ∨ s.closed = true
  timeoutAt : ∀ r, .timedOut r ∈ s.log → .timedOut ∈ s.toward r
    ∨ (∃ t, s.entry = some t ∧ t.timedOut = true) ∨ s.Decided ∨ s.closed = true
  closed : s.closed = true → (∀ r, s.shut r = true) ∧ ∀ r, s.toward r = []

/-- What the tally counts. -/
structure Counted (s : Slot ι) (t : Tally ι) : Prop where
  votes : ∀ r v, t.votes r = some v → .voted r v ∈ s.log
  count : t.terminalCount = (Finset.univ.filter fun r => t.votes r ≠ none).card
  failed : t.failed = true ↔ ∃ r, t.votes r = some .failed
  timedOut : t.timedOut = true → ∃ r, .timedOut r ∈ s.log
  pending : t.timeoutPending = true → t.timedOut = true
  undecided : ¬s.Decided
  unclosed : s.closed = false

/-- What a decision rests on. -/
structure Justified (s : Slot ι) (v : Outcome) : Prop where
  voted : ∀ r, s.Voted r
  completed : v = .completed → (∀ r, .voted r .completed ∈ s.log) ∧ ∀ r, .timedOut r ∉ s.log
  failed : v = .failed → (∃ r, .voted r .failed ∈ s.log) ∨ ∃ r, .timedOut r ∈ s.log

/-- No time-out is handed out at a party after the outcome. -/
def Silent (r : ι) (log : List (Event ι)) : Prop :=
  ∀ v newer older, log = newer ++ .reported r v :: older → .timeoutReported r ∉ newer

/-- A party votes before it is told the outcome. -/
def VotedFirst (r : ι) (log : List (Event ι)) : Prop :=
  ∀ v newer older, log = newer ++ .reported r v :: older → ∃ w, .voted r w ∈ older

/-- What the parties have been told and will be told. The outcome comes last. -/
structure Told (c : ι) (s : Slot ι) : Prop where
  self : s.back c = []
  last : ∀ r, (s.back r).Pairwise fun m _ => m = .timedOut
  vote : ∀ r v, .vote v ∈ s.back r →
    .decided v ∈ s.log ∧ s.pub r ≠ none ∧ ¬s.Reported r
  decidedAt : ∀ v, .decided v ∈ s.log →
    ∀ r, .vote v ∈ s.back r ∨ .reported r v ∈ s.log ∨ s.shut r = true
  reported : ∀ r v, .reported r v ∈ s.log → .decided v ∈ s.log ∧ s.back r = []
  once : ∀ r, s.log.countP (Event.isReport r) ≤ 1
  announced : ∀ r, .timedOut ∈ s.back r ∨ .timeoutReported r ∈ s.log →
    (∀ t, s.entry = some t → t.timedOut = true ∧ t.timeoutPending = false)
    ∧ (s.entry = none → s.Decided ∨ s.closed = true)
  timeoutOnce : ∀ r, (s.back r).count .timedOut + s.log.count (.timeoutReported r) ≤ 1
  silent : ∀ r, Silent r s.log

structure Inv (c : ι) (s : Slot ι) : Prop where
  held : s.Held
  underway : s.Underway c
  counted : ∀ t, s.entry = some t → s.Counted t
  justified : ∀ v, .decided v ∈ s.log → s.Justified v
  told : s.Told c
  ordered : ∀ r, VotedFirst r s.log

end Slot

end TrtLlm.Commitment
