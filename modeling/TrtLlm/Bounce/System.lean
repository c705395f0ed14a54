import TrtLlm.Bounce.ReceiverBudget
import TrtLlm.Bounce.SenderWrites

/-!
One receiver and any number of senders.

The parties are connected by channels, one in each direction for each pair, that keep the order
of the messages and may lose any of them.  `System.step` is the composed machine: a party takes
an event of its own, or the message at the front of a channel, and what it sends goes to the
back of one.  Of its own accord the receiver does not reclaim: leases do not expire, and it
forgets no peer.

A region is written while a sender has a write in flight into it.  `System.inflight` counts all
that may still lead to such a write: the credits on their way, those of the requests, the
writes of failed requests, and the DATA that the receiver has not seen.  It never exceeds what
the receiver keeps for the flow.

* `System.Inv`: the invariant of the composed machine;
* `System.Inv.lose`: a channel that loses messages keeps it.
-/

namespace TrtLlm

open List Function Option UMap

/-- The state of the composed machine; `self` is the name of the receiver, and the senders and
the channels go by the name of the sender. -/
structure System where
  self : Bytes
  receiver : BounceReceiver
  senders : Bytes → BounceSender
  toReceiver : Bytes → List BounceMsg := fun _ => []
  fromReceiver : Bytes → List BounceMsg := fun _ => []

/-- What an event shows, with the party that shows it. -/
inductive SystemOutput where
  | sender (n : Bytes) (o : SenderOutput)
  | receiver (o : ReceiverOutput)

namespace System

/-- An event of the composed machine.  The numbers of `lose` are those of a message in its
channel. -/
inductive Event where
  | sender (n : Bytes) (e : BounceSender.Event)
  | receiver (e : BounceReceiver.Event)
  | toSender (n : Bytes) (ch : BounceSender.PumpChoices) (pick : List ℕ → ℕ)
    (picks : ℕ → List ℕ → ℕ)
  | toReceiver (n : Bytes) (pick : List ℕ → ℕ) (reversePathReady : Bool)
  | loseToSender (n : Bytes) (i : ℕ)
  | loseToReceiver (n : Bytes) (i : ℕ)

/-- The event is a message of the receiver. -/
def isMessageOf (self : Bytes) : BounceSender.Event → Bool
  | .grant _ peer _ _ => peer = self
  | .ack _ peer _ _ _ => peer = self
  | .nack _ peer _ => peer = self
  | _ => false

/-- The event is a message of a sender, or the receiver reclaims. -/
def isMessageOrReclaim : BounceReceiver.Event → Bool
  | .want _ _ _ _ _ | .data _ _ _ _ _ | .forget _ _ _ | .expireLease _ _ => true
  | _ => false

/-- The messages of a sender for the receiver. -/
def sentTo (self : Bytes) (out : List SenderOutput) : List BounceMsg :=
  ((BounceSender.toReceivers out).filter fun m => m.1 = self).map Prod.snd

/-- The messages of the receiver for a sender. -/
def sentBack (n : Bytes) (out : List ReceiverOutput) : List BounceMsg :=
  out.filterMap fun
    | .send peer msg => if peer = n then some msg else none
    | _ => none

/-- A sender takes an event. -/
def senderStep (s : System) (n : Bytes) (e : BounceSender.Event) : List SystemOutput × System :=
  let r := BounceSender.step (s.senders n) e
  (r.1.map (.sender n), { s with
    senders := update s.senders n r.2
    toReceiver := update s.toReceiver n (s.toReceiver n ++ sentTo s.self r.1) })

/-- The receiver takes an event. -/
def receiverStep (s : System) (e : BounceReceiver.Event) : List SystemOutput × System :=
  let r := BounceReceiver.step s.receiver e
  (r.1.map .receiver, { s with
    receiver := r.2
    fromReceiver := fun n => s.fromReceiver n ++ sentBack n r.1 })

/-- The event that a message of the receiver is for a sender, if it is for that role. -/
def senderEvent (self : Bytes) (ch : BounceSender.PumpChoices) (pick : List ℕ → ℕ)
    (picks : ℕ → List ℕ → ℕ) : BounceMsg → Option BounceSender.Event
  | .grant rid credits => some (.grant ch self rid credits)
  | .ack rid k h => some (.ack pick self rid k h)
  | .nack rid _ _ => some (.nack picks self rid)
  | _ => none

/-- The event that a message of a sender is for the receiver, if it is for that role. -/
def receiverEvent (n : Bytes) (pick : List ℕ → ℕ) (ready : Bool) :
    BounceMsg → Option BounceReceiver.Event
  | .want rid chunkBytes _ => some (.want pick n rid chunkBytes ready)
  | .data rid k _ h entries => some (.data n rid k h entries)
  | _ => none

def step (s : System) : Event → List SystemOutput × System
  | .sender n e => if isMessageOf s.self e then ([], s) else s.senderStep n e
  | .receiver e => if isMessageOrReclaim e then ([], s) else s.receiverStep e
  | .toSender n ch pick picks =>
    match s.fromReceiver n with
    | [] => ([], s)
    | msg :: msgs =>
      let s := { s with fromReceiver := update s.fromReceiver n msgs }
      match senderEvent s.self ch pick picks msg with
      | none => ([], s)
      | some e => s.senderStep n e
  | .toReceiver n pick ready =>
    match s.toReceiver n with
    | [] => ([], s)
    | msg :: msgs =>
      let s := { s with toReceiver := update s.toReceiver n msgs }
      match receiverEvent n pick ready msg with
      | none => ([], s)
      | some e => s.receiverStep e
  | .loseToSender n i =>
    ([], { s with
      fromReceiver := update s.fromReceiver n ((s.fromReceiver n).eraseIdx i) })
  | .loseToReceiver n i =>
    ([], { s with
      toReceiver := update s.toReceiver n ((s.toReceiver n).eraseIdx i) })

/-- A new system. -/
def start (self : Bytes) (receiver : BounceReceiver) (senders : Bytes → BounceSender) : System :=
  { self := self, receiver := receiver, senders := senders }

/-! ### Writes in flight -/

/-- The sender `n` has a write in flight into the region `h` of the receiver, for its request
`rid`: one of a posted chunk, or one that the failed request has left behind. -/
def Writes (s : System) (n : Bytes) (rid h : ℕ) : Prop :=
  (∃ req, (s.senders n).mRequests.find? rid = some req ∧ req.peer = s.self
    ∧ ∃ p ∈ req.posted, p.state = .writing ∧ p.remoteHandle = h)
  ∨ ∃ o ∈ (s.senders n).mOrphanLocal, o.rid = rid ∧ o.xfer = some ⟨s.self, h⟩

/-- The requests that senders have put into their tables, each with its sender, in order. -/
def submissions (out : List SystemOutput) : List (Bytes × ℕ) :=
  out.filterMap fun
    | .sender n (.submitted _ rid _ _) => some (n, rid)
    | _ => none

/-- The request ids of the sender `n`. -/
def ridsOf (n : Bytes) (out : List SystemOutput) : List ℕ :=
  (submissions out).filterMap fun p => if p.1 = n then some p.2 else none

/-- The sender `n` has put a request with the id `rid` into its table. -/
def Used (out : List SystemOutput) (n : Bytes) (rid : ℕ) : Prop := rid ∈ ridsOf n out ∧ rid < 2 ^ 64

/-- No sender gives a request id twice. -/
def NeverReused (out : List SystemOutput) : Prop := (submissions out).Nodup

/-- The credits for the region `h` of the request `rid` in a channel to its sender. -/
def creditsIn (rid h : ℕ) (msgs : List BounceMsg) : ℕ := (msgs.map (BounceMsg.credits rid h)).sum

open Classical in
/-- All that may still lead to a write of `rid` into the region `h`, or to its scatter. -/
noncomputable def inflight (s : System) (n : Bytes) (rid h : ℕ) : ℕ :=
  (if (s.senders n).Listens s.self rid then creditsIn rid h (s.fromReceiver n) else 0)
    + ((s.senders n).liveCredits s.self rid h + (s.senders n).orphanWrites s.self rid h)
    + (s.toReceiver n).countP (BounceSender.isData rid h)

/-- The message is the cancel of `rid`. -/
def IsCancel (rid : ℕ) (msg : BounceMsg) : Prop := ∃ endpoint, msg = .cancel rid endpoint

/-- **The invariant of the composed machine.** -/
structure Inv (out : List SystemOutput) (s : System) : Prop where
  receiver : s.receiver.Inv
  known : CreditScheduler.Known (fun key => ∃ n rid, Used out n rid ∧ key = makeKey n rid)
    s.receiver.scheduler
  senders : ∀ n, BounceSender.WriterOk (Used out n) (s.senders n)
  grants : ∀ n rid h, 0 < creditsIn rid h (s.fromReceiver n) → rid ∈ ridsOf n out
  wants : ∀ n rid bytes endpoint, .want rid bytes endpoint ∈ s.toReceiver n →
    Used out n rid ∧ (bytes = [] → (s.senders n).Closed rid)
  order : ∀ n rid h, (s.toReceiver n).Pairwise fun a b =>
    IsCancel rid a → BounceSender.isData rid h b = false
  budget : ∀ n rid h, s.inflight n rid h ≤ s.receiver.spare (makeKey n rid) h

/-! ### Channels -/

lemma creditsIn_append (rid h : ℕ) (msgs msgs' : List BounceMsg) :
    creditsIn rid h (msgs ++ msgs') = creditsIn rid h msgs + creditsIn rid h msgs' := by
  rw [creditsIn, map_append, sum_append]
  rfl

lemma creditsIn_le {msgs msgs' : List BounceMsg} (hsub : msgs.Sublist msgs') (rid h : ℕ) :
    creditsIn rid h msgs ≤ creditsIn rid h msgs' :=
  (hsub.map _).sum_le_sum fun _ _ => Nat.zero_le _

lemma creditsIn_sentBack (n : Bytes) (rid h : ℕ) (out : List ReceiverOutput) :
    creditsIn rid h (sentBack n out) = BounceReceiver.creditsTo n rid h out := by
  induction out with
  | nil => rfl
  | cons o out ih =>
    have hcons : BounceReceiver.creditsTo n rid h (o :: out)
        = BounceReceiver.creditsTo n rid h [o] + BounceReceiver.creditsTo n rid h out :=
      BounceReceiver.creditsTo_append n rid h [o] out
    rw [hcons, ← ih]
    cases o with
    | send peer msg =>
      by_cases hp : peer = n <;> simp [sentBack, creditsIn, BounceReceiver.creditsTo, hp]
    | _ => simp [sentBack, creditsIn, BounceReceiver.creditsTo]

lemma countP_sentTo (self : Bytes) (rid h : ℕ) (out : List SenderOutput) :
    (sentTo self out).countP (BounceSender.isData rid h)
      = BounceSender.WriteStep.dataTo self rid h (BounceSender.toReceivers out) := by
  rw [sentTo, countP_map, countP_filter, BounceSender.WriteStep.dataTo]
  refine countP_congr fun m _ => ?_
  simp [and_comm]

variable {out : List SystemOutput} {s : System}

variable {e : BounceReceiver.Event} {h rid x : ℕ} {msg : BounceMsg} {msgs : List BounceMsg}
  {n : Bytes}

lemma inflight_of_listens (hl : (s.senders n).Listens s.self rid) (h : ℕ) :
    s.inflight n rid h = creditsIn rid h (s.fromReceiver n)
      + ((s.senders n).liveCredits s.self rid h + (s.senders n).orphanWrites s.self rid h)
      + (s.toReceiver n).countP (BounceSender.isData rid h) := by
  rw [inflight, if_pos hl]

lemma inflight_of_not_listens (hl : ¬ (s.senders n).Listens s.self rid) (h : ℕ) : s.inflight n rid h
      = (s.senders n).liveCredits s.self rid h + (s.senders n).orphanWrites s.self rid h
        + (s.toReceiver n).countP (BounceSender.isData rid h) := by
  rw [inflight, if_neg hl, Nat.zero_add]

/-- What the sum of `inflight` leaves out of a channel makes it smaller only. -/
lemma inflight_le {s' : System} (hself : s'.self = s.self) (hsender : s'.senders n = s.senders n)
    (hfrom : (s'.fromReceiver n).Sublist (s.fromReceiver n))
    (hto : (s'.toReceiver n).Sublist (s.toReceiver n)) :
    s'.inflight n rid h ≤ s.inflight n rid h := by
  have h1 := creditsIn_le hfrom rid h
  have h2 : (s'.toReceiver n).countP (BounceSender.isData rid h)
      ≤ (s.toReceiver n).countP (BounceSender.isData rid h) := hto.countP_le
  rw [inflight, inflight, hself, hsender]
  split_ifs <;> omega

/-- Messages are lost, or taken from the front of a channel. -/
lemma Inv.lose (hi : Inv out s) {f t : Bytes → List BounceMsg}
    (hf : ∀ n, (f n).Sublist (s.fromReceiver n)) (ht : ∀ n, (t n).Sublist (s.toReceiver n)) :
    Inv out { s with fromReceiver := f, toReceiver := t } where
  receiver := hi.receiver
  known := hi.known
  senders := hi.senders
  grants n rid h hpos := hi.grants n rid h (hpos.trans_le (creditsIn_le (hf n) rid h))
  wants n rid bytes endpoint hm := hi.wants n rid bytes endpoint ((ht n).subset hm)
  order n rid h := (hi.order n rid h).sublist (ht n)
  budget n rid h := by
    have hle : inflight { s with fromReceiver := f, toReceiver := t } n rid h
        ≤ s.inflight n rid h :=
      inflight_le rfl rfl (hf n) (ht n)
    exact hle.trans (hi.budget n rid h)

lemma sublist_update {f : Bytes → List BounceMsg} (h : msgs.Sublist (f n))
    (m : Bytes) : (update f n msgs m).Sublist (f m) := by
  by_cases hm : m = n
  · subst hm
    rwa [update_self]
  · rw [update_of_ne hm]

end System

end TrtLlm
