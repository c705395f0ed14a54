import TrtLlm.Util.CommitmentOutcome
import TrtLlm.Disagg.ContextTransfer

/-!
Every request of the context transfer runs the protocol of `Commitment` on its own: the world as
one request sees it is a `Slot` (`World.slot`), and whatever the ranks do is for each request a
few steps of that protocol.

The close markers are shared by all requests. `World.Closing` says where they can be: a marker is
the last packet of its channel, it is sent once, and nothing is sent after it.
-/

namespace TrtLlm.Disagg

open Commitment List Function UMap

variable {n : ℕ}

/-! ### One request -/

/-- What a packet says about a request. -/
def signal (q : ℕ) (p : Packet) : Option Signal :=
  if p.requestId = q ∧ p.value ≠ kCloseMarker then
    some (match ContextTransferVote.ofCode p.value with
      | some v => .vote v
      | none => .timedOut)
  else none

/-- What a channel says about a request. -/
def signals (q : ℕ) (packets : List Packet) : List Signal := packets.filterMap (signal q)

variable {q : ℕ}

lemma signals_append (q : ℕ) (packets packets' : List Packet) :
    signals q (packets ++ packets') = signals q packets ++ signals q packets' :=
  filterMap_append

lemma signals_cons (q : ℕ) (p : Packet) (packets : List Packet) :
    signals q (p :: packets) = (signal q p).toList ++ signals q packets := by
  rw [signals, filterMap_cons]
  cases signal q p <;> rfl

@[simp] lemma signals_nil (q : ℕ) : signals q [] = [] := rfl

lemma signal_close {p : Packet} (h : p.value = kCloseMarker) : signal q p = none :=
  if_neg fun h' => h'.2 h

lemma signal_other {p : Packet} (h : p.requestId ≠ q) : signal q p = none :=
  if_neg fun h' => h h'.1

lemma timedOut_ne_close : kTimedOutSignal ≠ kCloseMarker := by decide

lemma code_ne_close (v : ContextTransferVote) : ContextTransferVote.code v ≠ kCloseMarker := by
  cases v <;> decide

lemma code_ne_timedOut (v : ContextTransferVote) :
    ContextTransferVote.code v ≠ kTimedOutSignal := by
  cases v <;> decide

lemma signal_timedOut : signal q ⟨q, kTimedOutSignal⟩ = some .timedOut :=
  if_pos ⟨rfl, timedOut_ne_close⟩

lemma ofCode_code (v : ContextTransferVote) :
    ContextTransferVote.ofCode (ContextTransferVote.code v) = some v := by
  cases v <;> rfl

lemma signal_vote (v : ContextTransferVote) :
    signal q ⟨q, ContextTransferVote.code v⟩ = some (.vote v) := by
  rw [signal, if_pos ⟨rfl, code_ne_close v⟩, ofCode_code]

/-- A packet is a time-out, a vote or a close marker. -/
def Packet.Valid (p : Packet) : Prop :=
  p.value = kCloseMarker ∨ p.value = kTimedOutSignal ∨ ∃ v, p.value = ContextTransferVote.code v

namespace World

/-- The world as one request sees it. -/
def slot (w : World n) (q : ℕ) : Commitment.Slot (Fin (n + 1)) where
  pub r := (w.impls r).publishedLocalVotes.find? q
  tmo r := q ∈ (w.impls r).publishedTimeouts
  toward r := signals q (w.events r)
  back r := signals q (w.updates r)
  entry := (w.impls (Fin.last n)).reducer.find? q
  log := w.log q
  shut r := (w.impls r).shutdown
  closed := (w.impls (Fin.last n)).closeSent

variable {impl : Impl n} {p : Packet} {peer : Fin (n + 1)} {q : ℕ} {w : World n}

/-- One rank changes. -/
lemma slot_update (w : World n) (r : Fin (n + 1)) (impl : Impl n)
    (events updates : Fin (n + 1) → List Packet) (log : ℕ → List (Event (Fin (n + 1)))) (q : ℕ) :
    (⟨update w.impls r impl, events, updates, log⟩ : World n).slot q
      = { pub := update (w.slot q).pub r (impl.publishedLocalVotes.find? q)
          tmo := update (w.slot q).tmo r (q ∈ impl.publishedTimeouts)
          toward := fun r' => signals q (events r')
          back := fun r' => signals q (updates r')
          entry := if r = Fin.last n then impl.reducer.find? q else (w.slot q).entry
          log := log q
          shut := update (w.slot q).shut r impl.shutdown
          closed := if r = Fin.last n then impl.closeSent else (w.slot q).closed } := by
  ext1
  · funext r'
    simp only [slot, update_apply]
    split_ifs <;> rfl
  · funext r'
    simp only [slot, update_apply]
    split_ifs <;> rfl
  · rfl
  · rfl
  · simp only [slot, update_apply, eq_comm (a := Fin.last n)]
    split_ifs <;> rfl
  · rfl
  · funext r'
    simp only [slot, update_apply]
    split_ifs <;> rfl
  · simp only [slot, update_apply, eq_comm (a := Fin.last n)]
    split_ifs <;> rfl

/-- Where the close markers are. -/
structure Closing (w : World n) : Prop where
  self : w.events (Fin.last n) = [] ∧ w.updates (Fin.last n) = []
  marker : ∀ r, ∀ p ∈ w.events r, p.value = kCloseMarker → (w.impls r).shutdown = true
  markerLast : ∀ r, (w.events r).Pairwise fun p _ => p.value ≠ kCloseMarker
  peer : ∀ r ∈ (w.impls (Fin.last n)).closedPeers,
    r ≠ Fin.last n ∧ (w.impls r).shutdown = true ∧ w.events r = []
  sent : (w.impls (Fin.last n)).closeSent = true → (w.impls (Fin.last n)).shutdown = true
    ∧ ∀ r ≠ Fin.last n, r ∈ (w.impls (Fin.last n)).closedPeers
  ack : ∀ r, ∀ p ∈ w.updates r, p.value = kCloseMarker →
    (w.impls (Fin.last n)).closeSent = true ∧ (w.impls r).closeAcknowledged = false
  ackLast : ∀ r, (w.updates r).Pairwise fun p _ => p.value ≠ kCloseMarker
  acked : ∀ r, (w.impls r).closeAcknowledged = true →
    (w.impls (Fin.last n)).closeSent = true ∧ w.updates r = []

/-- The invariant of all runs. -/
structure Ok (w : World n) : Prop where
  slots : ∀ q, (w.slot q).Inv (Fin.last n)
  validEvents : ∀ r, ∀ p ∈ w.events r, p.Valid
  validUpdates : ∀ r, ∀ p ∈ w.updates r, p.Valid
  closing : w.Closing

/-! ### The coordinator receives a packet -/

section

variable (w : World n) (peer : Fin (n + 1)) (rest : List Packet)

/-- The world after the coordinator has handled the first packet of a peer. -/
def afterEvent (impl : Impl n) : World n :=
  { w with
    impls := update w.impls (Fin.last n) impl
    events := update w.events peer rest }

lemma slot_afterEvent
    (hvotes : impl.publishedLocalVotes = (w.impls (Fin.last n)).publishedLocalVotes)
    (htimeouts : impl.publishedTimeouts = (w.impls (Fin.last n)).publishedTimeouts)
    (hshut : impl.shutdown = (w.impls (Fin.last n)).shutdown)
    (hsent : impl.closeSent = (w.impls (Fin.last n)).closeSent) (q : ℕ) :
    (w.afterEvent peer rest impl).slot q
      = { w.slot q with
          toward := update (w.slot q).toward peer (signals q rest)
          entry := impl.reducer.find? q } := by
  rw [afterEvent, slot_update]
  ext1
  · rw [hvotes]
    exact update_eq_self _ _
  · simp only [htimeouts]
    exact update_eq_self _ _
  · funext r
    simp only [slot, update_apply]
    split_ifs <;> rfl
  · rfl
  · rw [if_pos rfl]
  · rfl
  · rw [hshut]
    exact update_eq_self _ _
  · exact (if_pos rfl).trans hsent

end

/-- What the other ranks look at stays as it was when the coordinator keeps it. -/
lemma flags_update_last (hshut : impl.shutdown = (w.impls (Fin.last n)).shutdown)
    (hack : impl.closeAcknowledged = (w.impls (Fin.last n)).closeAcknowledged)
    (r : Fin (n + 1)) :
    (update w.impls (Fin.last n) impl r).shutdown = (w.impls r).shutdown
      ∧ (update w.impls (Fin.last n) impl r).closeAcknowledged
        = (w.impls r).closeAcknowledged := by
  rw [update_apply]
  split_ifs with he
  · exact ⟨he ▸ hshut, he ▸ hack⟩
  · exact ⟨rfl, rfl⟩

/-- The parts of the invariant that a packet from a peer leaves alone. -/
lemma Ok.afterEvent (h : w.Ok) (hpeer : peer ≠ Fin.last n)
    {rest : List Packet} (hevents : w.events peer = p :: rest)
    (hslots : ∀ q, ((w.afterEvent peer rest impl).slot q).Inv (Fin.last n))
    (hshut : impl.shutdown = (w.impls (Fin.last n)).shutdown)
    (hsent : impl.closeSent = (w.impls (Fin.last n)).closeSent)
    (hack : impl.closeAcknowledged = (w.impls (Fin.last n)).closeAcknowledged)
    (hclosed : ∀ r, r ∈ impl.closedPeers ↔ r ∈ (w.impls (Fin.last n)).closedPeers
      ∨ (p.value = kCloseMarker ∧ r = peer)) :
    (w.afterEvent peer rest impl).Ok := by
  have himpl : ∀ r, ((w.afterEvent peer rest impl).impls r).shutdown = (w.impls r).shutdown
      ∧ ((w.afterEvent peer rest impl).impls r).closeAcknowledged
        = (w.impls r).closeAcknowledged := flags_update_last hshut hack
  have hlast : (w.afterEvent peer rest impl).impls (Fin.last n) = impl := update_self ..
  have hsub : ∀ r, ((w.afterEvent peer rest impl).events r).Sublist (w.events r) := by
    intro r
    simp only [World.afterEvent, update_apply]
    split_ifs with he
    · rw [he, hevents]
      exact sublist_cons_self p rest
    · exact .refl _
  obtain ⟨c1, c2, c3, c4, c5, c6, c7, c8⟩ := h.closing
  -- a close marker is the last packet
  have hrest : p.value = kCloseMarker → rest = [] := by
    intro hp
    have hpw := c3 peer
    rw [hevents, pairwise_cons] at hpw
    exact eq_nil_iff_forall_not_mem.mpr fun p' hp' => hpw.1 p' hp' hp
  refine ⟨hslots, fun r p' hp' => h.validEvents r p' ((hsub r).subset hp'), h.validUpdates, ?_⟩
  refine ⟨⟨?_, c1.2⟩, fun r p' hp' hv => ?_, fun r => (c3 r).sublist (hsub r), fun r hr => ?_,
    fun hs => ?_, fun r p' hp' hv => ?_, c7, fun r hr => ?_⟩
  · exact sublist_nil.mp (c1.1 ▸ hsub (Fin.last n))
  · rw [(himpl r).1]
    exact c2 r p' ((hsub r).subset hp') hv
  · rw [hlast, hclosed] at hr
    rw [(himpl r).1]
    obtain hr | ⟨hp, rfl⟩ := hr
    · obtain ⟨h1, h2, h3⟩ := c4 r hr
      exact ⟨h1, h2, sublist_nil.mp (h3 ▸ hsub r)⟩
    · refine ⟨hpeer, c2 r p (by rw [hevents]; exact mem_cons_self) hp, ?_⟩
      rw [← hrest hp]
      exact update_self ..
  · rw [hlast, hsent] at hs
    obtain ⟨h1, h2⟩ := c5 hs
    rw [(himpl _).1]
    refine ⟨h1, fun r hr => ?_⟩
    rw [hlast, hclosed]
    exact .inl (h2 r hr)
  · rw [hlast, hsent, (himpl r).2]
    exact c6 r p' hp' hv
  · rw [hlast, hsent]
    rw [(himpl r).2] at hr
    exact c8 r hr

lemma recordVote_ok {votes : UMap ℕ (RequestVotes n)} {rank : Fin (n + 1)} {requestId : ℕ}
    {v : ContextTransferVote}
    (h : ((votes.find? requestId).getD .fresh).votes rank = none) :
    recordVote votes rank requestId (ContextTransferVote.code v)
      = .ok (votes.set requestId (((votes.find? requestId).getD .fresh).record rank v)) := by
  rw [recordVote, ofCode_code]
  dsimp only
  rw [h]

/-- The coordinator handles the first packet of a peer without failing a check. -/
lemma Ok.receiveEvent (h : w.Ok) (hpeer : peer ≠ Fin.last n)
    {rest : List Packet} (hevents : w.events peer = p :: rest) :
    ∃ impl, (w.impls (Fin.last n)).receiveEvent peer p = .ok impl
      ∧ (w.afterEvent peer rest impl).Ok := by
  have hopen : peer ∉ (w.impls (Fin.last n)).closedPeers := fun hin => by
    simp [(h.closing.peer peer hin).2.2] at hevents
  have htoward : ∀ q, (w.slot q).toward peer = (signal q p).toList ++ signals q rest := fun q => by
    rw [← signals_cons, ← hevents]
    rfl
  -- requests that the packet says nothing about
  have hother : ∀ (impl : Impl n) q, signal q p = none →
      impl.reducer.find? q = (w.slot q).entry →
      impl.publishedLocalVotes = (w.impls (Fin.last n)).publishedLocalVotes →
      impl.publishedTimeouts = (w.impls (Fin.last n)).publishedTimeouts →
      impl.shutdown = (w.impls (Fin.last n)).shutdown →
      impl.closeSent = (w.impls (Fin.last n)).closeSent →
      ((w.afterEvent peer rest impl).slot q).Inv (Fin.last n) := by
    intro impl q hsig hentry h1 h2 h3 h4
    have hsame : signals q rest = (w.slot q).toward peer := by simp [htoward, hsig]
    rw [slot_afterEvent w peer rest h1 h2 h3 h4 q, hentry, hsame, update_eq_self]
    exact h.slots q
  -- the request that the packet is about
  have hhere : ∀ (impl : Impl n) q (t : Tally (Fin (n + 1))),
      Slot.Step (Fin.last n) (w.slot q) { w.slot q with
        toward := update (w.slot q).toward peer (signals q rest)
        entry := some t } →
      impl.reducer.find? q = some t →
      impl.publishedLocalVotes = (w.impls (Fin.last n)).publishedLocalVotes →
      impl.publishedTimeouts = (w.impls (Fin.last n)).publishedTimeouts →
      impl.shutdown = (w.impls (Fin.last n)).shutdown →
      impl.closeSent = (w.impls (Fin.last n)).closeSent →
      ((w.afterEvent peer rest impl).slot q).Inv (Fin.last n) := by
    intro impl q t hstep hentry h1 h2 h3 h4
    rw [slot_afterEvent w peer rest h1 h2 h3 h4 q, hentry]
    exact (h.slots q).step hstep
  obtain hclose | htimeout | ⟨v, hvote⟩ := h.validEvents peer p (by simp [hevents])
  · refine ⟨{ w.impls (Fin.last n) with
      closedPeers := (w.impls (Fin.last n)).closedPeers.insert peer }, ?_, ?_⟩
    · rw [Impl.receiveEvent, if_pos hclose, if_neg hopen]
    · refine h.afterEvent hpeer hevents (fun q => ?_) rfl rfl rfl fun r => ?_
      · exact hother _ q (signal_close hclose) rfl rfl rfl rfl rfl
      · simp [hclose, or_comm]
  · obtain ⟨q₀, value⟩ := p
    obtain rfl : value = kTimedOutSignal := htimeout
    refine ⟨{ w.impls (Fin.last n) with
      reducer := recordTimeout (w.impls (Fin.last n)).reducer q₀ }, ?_, ?_⟩
    · rw [Impl.receiveEvent, if_neg timedOut_ne_close, if_neg hopen, if_pos rfl]
    · refine h.afterEvent hpeer hevents (fun q => ?_) rfl rfl rfl fun r => ?_
      · by_cases hq : q₀ = q
        · subst hq
          have hstep := Slot.Step.receiveTimeout (c := Fin.last n) peer (signals q₀ rest)
            (by rw [htoward, signal_timedOut]; rfl)
          refine hhere _ q₀ _ hstep ?_ rfl rfl rfl rfl
          simp only [recordTimeout, find?_set, if_pos]
          rfl
        · refine hother _ q (signal_other hq) ?_ rfl rfl rfl rfl
          simp only [recordTimeout, find?_set, if_neg (Ne.symm hq)]
          rfl
      · simp [timedOut_ne_close]
  · obtain ⟨q₀, value⟩ := p
    obtain rfl : value = ContextTransferVote.code v := hvote
    have hne : (w.slot q₀).toward peer ≠ [] := by
      rw [htoward, signal_vote]
      exact cons_ne_nil _ _
    have hnone := Slot.getD_votes ((h.slots q₀).underway.fresh peer hne).2
    refine ⟨{ w.impls (Fin.last n) with
      reducer := (w.impls (Fin.last n)).reducer.set q₀
        ((((w.impls (Fin.last n)).reducer.find? q₀).getD .fresh).record peer v) }, ?_, ?_⟩
    · rw [Impl.receiveEvent, if_neg (code_ne_close v), if_neg hopen, if_neg (code_ne_timedOut v),
        recordVote_ok hnone]
      rfl
    · refine h.afterEvent hpeer hevents (fun q => ?_) rfl rfl rfl fun r => ?_
      · by_cases hq : q₀ = q
        · subst hq
          have hstep := Slot.Step.receiveVote (c := Fin.last n) peer v (signals q₀ rest)
            (by rw [htoward, signal_vote]; rfl)
          refine hhere _ q₀ _ hstep ?_ rfl rfl rfl rfl
          simp only [find?_set, if_pos]
          rfl
        · refine hother _ q (signal_other hq) ?_ rfl rfl rfl rfl
          simp only [find?_set, if_neg (Ne.symm hq)]
          rfl
      · simp [code_ne_close v]

lemma receiveEvent_shutdown {impl' : Impl n} (h : impl.receiveEvent peer p = .ok impl') :
    impl'.shutdown = impl.shutdown := by
  rw [Impl.receiveEvent] at h
  split_ifs at h
  · obtain rfl := Except.ok.inj h
    rfl
  · obtain rfl := Except.ok.inj h
    rfl
  · cases hvote : recordVote impl.reducer peer p.requestId p.value with
    | error e => simp [hvote, Except.map] at h
    | ok votes =>
      rw [hvote] at h
      obtain rfl := Except.ok.inj h
      rfl

lemma Ok.drainPeer (h : w.Ok) (hpeer : peer ≠ Fin.last n) (arrived : ℕ) :
    ∃ w', w.drainPeer peer arrived = .ok w' ∧ w'.Ok
      ∧ ∀ r, (w'.impls r).shutdown = (w.impls r).shutdown := by
  induction arrived generalizing w with
  | zero => exact ⟨w, rfl, h, fun _ => rfl⟩
  | succ arrived ih =>
    rw [World.drainPeer]
    cases hevents : w.events peer with
    | nil => exact ⟨w, rfl, h, fun _ => rfl⟩
    | cons p rest =>
      obtain ⟨impl, himpl, hok⟩ := h.receiveEvent hpeer hevents
      obtain ⟨w', hw', hok', hshut⟩ := ih hok
      refine ⟨w', ?_, hok', fun r => (hshut r).trans ?_⟩
      · dsimp only
        rw [himpl]
        exact hw'
      · simp only [World.afterEvent, update_apply]
        split_ifs with he
        · rw [he]
          exact receiveEvent_shutdown himpl
        · rfl

lemma Ok.drainVotes (h : w.Ok) (arrived : Fin (n + 1) → ℕ) :
    ∃ w', w.drainVotes arrived = .ok w' ∧ w'.Ok
      ∧ ∀ r, (w'.impls r).shutdown = (w.impls r).shutdown := by
  have hpeers : ∀ peer ∈ (finRange (n + 1)).filter fun peer => peer ≠ Fin.last n,
      peer ≠ Fin.last n := fun peer hpeer => by simpa using hpeer
  rw [World.drainVotes]
  generalize (finRange (n + 1)).filter _ = peers at hpeers
  induction peers generalizing w with
  | nil => exact ⟨w, rfl, h, fun _ => rfl⟩
  | cons peer peers ih =>
    obtain ⟨w₁, hw₁, hok₁, hshut₁⟩ := h.drainPeer (hpeers peer mem_cons_self) (arrived peer)
    obtain ⟨w', hw', hok', hshut'⟩ := ih hok₁ fun r hr => hpeers r (mem_cons_of_mem _ hr)
    refine ⟨w', ?_, hok', fun r => (hshut' r).trans (hshut₁ r)⟩
    rw [foldlM_cons, hw₁]
    exact hw'

/-! ### The coordinator decides -/

lemma mem_idsWhere {votes : UMap ℕ (RequestVotes n)} {p : RequestVotes n → Bool} :
    q ∈ idsWhere votes p ↔ ∃ t, votes.find? q = some t ∧ p t = true := by
  rw [idsWhere, mem_toFinset]
  refine (show q ∈ (votes.filter fun _ votes => p votes) ↔ _ from mem_iff_find?).trans ?_
  simp only [UMap.find?_filter, Option.filter_eq_some_iff]

lemma find?_foldl_erase {υ : Type*} (m : UMap ℕ υ) (ids : List ℕ) (q : ℕ) :
    (ids.foldl erase m).find? q = if q ∈ ids then none else m.find? q := by
  induction ids generalizing m with
  | nil => simp
  | cons id ids ih =>
    rw [foldl_cons, ih, find?_erase]
    by_cases h1 : q ∈ ids
    · simp [h1]
    · by_cases h2 : q = id
      · simp [h2]
      · simp [h1, h2]

/-- The packets about some requests say one thing about each of them. -/
lemma signals_map {ids : List ℕ} (hids : ids.Nodup) {value : ℕ} {m : Signal}
    (hm : signal q ⟨q, value⟩ = some m) :
    signals q (ids.map fun q => ⟨q, value⟩) = if q ∈ ids then [m] else [] := by
  induction ids with
  | nil => simp
  | cons id ids ih =>
    rw [nodup_cons] at hids
    rw [map_cons, signals_cons, ih hids.2]
    by_cases h : id = q
    · subst h
      simp [hm, hids.1]
    · rw [signal_other (by exact h)]
      simp [Ne.symm h]

/-- What the coordinator tells the peers about a request. -/
def told (result : ConsensusResult) (q : ℕ) : List Signal :=
  (if q ∈ result.timedOutRequestIds then [.timedOut] else [])
    ++ (if q ∈ result.failedRequestIds then [.vote .failed] else [])
    ++ (if q ∈ result.completedRequestIds then [.vote .completed] else [])

/-- The result of the next decision. -/
def nextResult (w : World n) : ConsensusResult := (takeReady (w.impls (Fin.last n)).reducer).1

lemma slot_completeUpdates (order : IterOrder) (shown : Bool) (w : World n) (q : ℕ) :
    (w.completeUpdates order shown).1.slot q
      = { w.slot q with
          pub := update (w.slot q).pub (Fin.last n)
            (if q ∈ w.nextResult.failedRequestIds ∨ q ∈ w.nextResult.completedRequestIds then none
              else (w.slot q).pub (Fin.last n))
          tmo := update (w.slot q).tmo (Fin.last n)
            (if q ∈ w.nextResult.failedRequestIds ∨ q ∈ w.nextResult.completedRequestIds then false
              else (w.slot q).tmo (Fin.last n))
          back := fun r => if r = Fin.last n then (w.slot q).back r
            else (w.slot q).back r ++ told w.nextResult q
          entry := ((w.slot q).entry.filter fun t => !ready t).map fun t =>
            { t with timeoutPending := false }
          log := logDecision shown w.nextResult q (w.slot q).log } := by
  have hsame : (w.completeUpdates order shown).1
      = ⟨update w.impls (Fin.last n)
          ((w.impls (Fin.last n)).completeCoordinatorUpdates order).1.1, w.events,
          w.queueUpdates ((w.impls (Fin.last n)).completeCoordinatorUpdates order).1.2,
          fun q => logDecision shown w.nextResult q (w.log q)⟩ := rfl
  have hmem : q ∈ order.list w.nextResult.failedRequestIds
        ++ order.list w.nextResult.completedRequestIds
      ↔ q ∈ w.nextResult.failedRequestIds ∨ q ∈ w.nextResult.completedRequestIds := by
    rw [mem_append, order.mem, order.mem]
  rw [hsame, slot_update]
  ext1
  · show update (w.slot q).pub _ ((foldl erase
      (w.impls (Fin.last n)).publishedLocalVotes (order.list w.nextResult.failedRequestIds
        ++ order.list w.nextResult.completedRequestIds)).find? q) = _
    rw [find?_foldl_erase]
    simp only [hmem]
    rfl
  · show update (w.slot q).tmo _ (decide (q ∈ foldl erase
      (w.impls (Fin.last n)).publishedTimeouts (order.list w.nextResult.failedRequestIds
        ++ order.list w.nextResult.completedRequestIds))) = _
    congr 1
    simp only [mem_iff_find?, find?_foldl_erase, hmem]
    split_ifs with hin
    · simp
    · simp [slot, mem_iff_find?]
  · rfl
  · funext r
    show signals q (w.queueUpdates _ r) = if r = Fin.last n then (w.slot q).back r
      else (w.slot q).back r ++ told w.nextResult q
    rw [queueUpdates]
    split_ifs
    · rfl
    · rw [signals_append]
      congr 1
      show signals q ((order.list w.nextResult.timedOutRequestIds).map _
        ++ (order.list w.nextResult.failedRequestIds).map _
        ++ (order.list w.nextResult.completedRequestIds).map _) = _
      rw [signals_append, signals_append, signals_map (order.nodup _) signal_timedOut,
        signals_map (order.nodup _) (signal_vote _), signals_map (order.nodup _) (signal_vote _),
        told]
      simp only [order.mem]
  · rw [if_pos rfl]
    show (takeReady (w.impls (Fin.last n)).reducer).2.find? q = _
    rw [takeReady, find?_mapVal, UMap.find?_filter]
    rfl
  · rfl
  · exact update_eq_self _ _
  · exact if_pos rfl

/-- What a tally without a pending time-out looks like. -/
def settled (t : RequestVotes n) : RequestVotes n := { t with timeoutPending := false }

lemma mem_nextResult {t : RequestVotes n} (ht : (w.slot q).entry = some t) :
    (q ∈ w.nextResult.timedOutRequestIds ↔ t.timeoutPending = true)
    ∧ (q ∈ w.nextResult.failedRequestIds ↔ ready t = true ∧ t.outcome = .failed)
    ∧ (q ∈ w.nextResult.completedRequestIds ↔ ready t = true ∧ t.outcome = .completed) := by
  have ht' : (w.impls (Fin.last n)).reducer.find? q = some t := ht
  refine ⟨mem_idsWhere.trans ?_, mem_idsWhere.trans ?_, mem_idsWhere.trans ?_⟩
  · simp [ht']
  · simp only [ht', Option.some.injEq, exists_eq_left', Bool.and_eq_true, Tally.outcome]
    cases t.failed || t.timedOut <;> simp
  · simp only [ht', Option.some.injEq, exists_eq_left', Bool.and_eq_true, Tally.outcome]
    cases t.failed || t.timedOut <;> simp

lemma not_mem_nextResult (hnone : (w.slot q).entry = none) :
    q ∉ w.nextResult.timedOutRequestIds ∧ q ∉ w.nextResult.failedRequestIds
    ∧ q ∉ w.nextResult.completedRequestIds := by
  have hnone' : (w.impls (Fin.last n)).reducer.find? q = none := hnone
  refine ⟨fun h => ?_, fun h => ?_, fun h => ?_⟩ <;>
    · obtain ⟨t, ht, -⟩ := mem_idsWhere.mp h
      simp [hnone'] at ht

/-- A request whose votes are not all in is told of a time-out at most. -/
lemma steps_announce {t : RequestVotes n} (ht : (w.slot q).entry = some t) (shown : Bool) :
    Relation.ReflTransGen (Slot.Step (Fin.last n)) (w.slot q) { w.slot q with
        entry := some (settled t)
        back := if t.timeoutPending = true then
          Slot.broadcast (Fin.last n) (w.slot q).back .timedOut else (w.slot q).back
        log := if t.timeoutPending = true then
          Slot.logIf shown (.timeoutReported (Fin.last n)) (w.slot q).log
            else (w.slot q).log } := by
  by_cases hp : t.timeoutPending = true
  · simp only [hp, if_true]
    exact .single (.announce t shown ht hp)
  · have hsettled : settled t = t := by
      obtain ⟨votes, count, failed, timedOut, pending⟩ := t
      rw [Bool.not_eq_true] at hp
      simp only [settled] at hp ⊢
      rw [hp]
    simp only [hp, hsettled, ← ht]
    exact .refl

lemma steps_completeUpdates (order : IterOrder) {shown : Bool}
    (hshown : shown = false → (w.impls (Fin.last n)).shutdown = true) (q : ℕ) :
    Relation.ReflTransGen (Slot.Step (Fin.last n)) (w.slot q)
      ((w.completeUpdates order shown).1.slot q) := by
  rw [slot_completeUpdates]
  cases hentry : (w.slot q).entry with
  | none =>
    obtain ⟨hT, hF, hC⟩ := not_mem_nextResult hentry
    convert Relation.ReflTransGen.refl using 1
    ext1
    · simp [hF, hC]
    · simp [hF, hC]
    · rfl
    · simp [told, hT, hF, hC]
    · simp [hentry]
    · simp [logDecision, hT, hF, hC]
    · rfl
    · rfl
  | some t =>
    obtain ⟨hT, hF, hC⟩ := mem_nextResult hentry
    have hannounce := steps_announce hentry shown
    by_cases hready : ready t = true
    · -- all votes are in: the decision follows
      have hdecide := Slot.Step.decide (c := Fin.last n)
        (s := { w.slot q with
          entry := some (settled t)
          back := if t.timeoutPending = true then
            Slot.broadcast (Fin.last n) (w.slot q).back .timedOut else (w.slot q).back
          log := if t.timeoutPending = true then
            Slot.logIf shown (.timeoutReported (Fin.last n)) (w.slot q).log
            else (w.slot q).log }) (settled t) shown rfl
        (by simpa [ready, settled] using hready) rfl hshown
      refine hannounce.tail ?_
      convert hdecide using 1
      have hout : (settled t).outcome = t.outcome := rfl
      ext1
      · cases hv : t.outcome <;> simp [hF, hC, hready, hv]
      · cases hv : t.outcome <;> simp [hF, hC, hready, hv]
      · rfl
      · funext r
        by_cases hr : r = Fin.last n
        · by_cases hp : t.timeoutPending = true <;> simp [hr, hp, Slot.broadcast]
        · by_cases hp : t.timeoutPending = true <;> cases hv : t.outcome <;>
            simp [hr, hp, hF, hC, hT, hready, hv, told, Slot.broadcast, hout]
      · simp [hready]
      · cases hv : t.outcome <;> simp [logDecision, hF, hC, hT, hready, hv, hout]
      · rfl
      · rfl
    · convert hannounce using 1
      ext1
      · simp [hF, hC, hready]
      · simp [hF, hC, hready]
      · rfl
      · funext r
        by_cases hr : r = Fin.last n
        · by_cases hp : t.timeoutPending = true <;> simp [hr, hp, Slot.broadcast]
        · by_cases hp : t.timeoutPending = true <;>
            simp [hr, hp, hF, hC, hT, hready, told, Slot.broadcast]
      · simp [hready, settled]
      · simp [logDecision, hF, hC, hT, hready]
      · rfl
      · rfl

/-- After it has closed, the coordinator has nothing to tell. -/
lemma Ok.nextResult_empty (h : w.Ok) (hsent : (w.impls (Fin.last n)).closeSent = true) :
    w.nextResult = .empty := by
  have hnone : ∀ q, (w.slot q).entry = none := by
    intro q
    cases hentry : (w.slot q).entry with
    | none => rfl
    | some t =>
      have hopen : (w.impls (Fin.last n)).closeSent = false :=
        ((h.slots q).counted t hentry).unclosed
      simp [hsent] at hopen
  have hempty : ∀ ids : Finset ℕ, (∀ q, q ∉ ids) → ids = ∅ := fun ids =>
    Finset.eq_empty_of_forall_notMem
  have h1 := hempty w.nextResult.completedRequestIds fun q => (not_mem_nextResult (hnone q)).2.2
  have h2 := hempty w.nextResult.failedRequestIds fun q => (not_mem_nextResult (hnone q)).2.1
  have h3 := hempty w.nextResult.timedOutRequestIds fun q => (not_mem_nextResult (hnone q)).1
  exact congr (congr (congrArg ConsensusResult.mk h1) h2) h3

/-- The packets of a decision. -/
def decisionPackets (order : IterOrder) (w : World n) : List Packet :=
  ((w.impls (Fin.last n)).completeCoordinatorUpdates order).1.2

lemma mem_decisionPackets {order : IterOrder} (hp : p ∈ w.decisionPackets order) :
    p.Valid ∧ p.value ≠ kCloseMarker := by
  rw [decisionPackets, Impl.completeCoordinatorUpdates] at hp
  simp only [mem_append, mem_map] at hp
  obtain (⟨q, -, rfl⟩ | ⟨q, -, rfl⟩) | ⟨q, -, rfl⟩ := hp
  · exact ⟨.inr (.inl rfl), timedOut_ne_close⟩
  · exact ⟨.inr (.inr ⟨.failed, rfl⟩), code_ne_close .failed⟩
  · exact ⟨.inr (.inr ⟨.completed, rfl⟩), code_ne_close .completed⟩

lemma Ok.decisionPackets_nil (h : w.Ok) (order : IterOrder)
    (hsent : (w.impls (Fin.last n)).closeSent = true) : w.decisionPackets order = [] := by
  have hlist : order.list ∅ = [] := eq_nil_iff_forall_not_mem.mpr fun q hq => by
    simpa using (order.mem ∅ q).mp hq
  have hresult : (takeReady (w.impls (Fin.last n)).reducer).1 = .empty := h.nextResult_empty hsent
  rw [decisionPackets, Impl.completeCoordinatorUpdates]
  simp [hresult, ConsensusResult.empty, hlist]

lemma mem_queueUpdates {packets : List Packet} {r : Fin (n + 1)}
    (hp : p ∈ w.queueUpdates packets r) : p ∈ w.updates r ∨ p ∈ packets := by
  rw [World.queueUpdates] at hp
  split_ifs at hp
  · exact .inl hp
  · exact mem_append.mp hp

/-- Packets are sent to the peers and the coordinator changes, but not what the close markers
depend on. -/
lemma Closing.queueUpdates (h : w.Closing) {packets : List Packet}
    {log : ℕ → List (Event (Fin (n + 1)))}
    (hpeers : impl.closedPeers = (w.impls (Fin.last n)).closedPeers)
    (hshut : impl.shutdown = (w.impls (Fin.last n)).shutdown)
    (hsent : impl.closeSent = (w.impls (Fin.last n)).closeSent)
    (hack : impl.closeAcknowledged = (w.impls (Fin.last n)).closeAcknowledged)
    (hpackets : ∀ p ∈ packets, p.value ≠ kCloseMarker)
    (hnil : (w.impls (Fin.last n)).closeSent = true → packets = []) :
    Closing (⟨update w.impls (Fin.last n) impl, w.events, w.queueUpdates packets, log⟩ :
      World n) := by
  obtain ⟨c1, c2, c3, c4, c5, c6, c7, c8⟩ := h
  have himpl := flags_update_last hshut hack
  refine ⟨⟨c1.1, ?_⟩, fun r p hp hv => ?_, c3, fun r hr => ?_, fun hs => ?_,
    fun r p hp hv => ?_, fun r => ?_, fun r hr => ?_⟩
  · exact (if_pos rfl).trans c1.2
  · rw [(himpl r).1]
    exact c2 r p hp hv
  · dsimp only at hr ⊢
    rw [update_self, hpeers] at hr
    rw [(himpl r).1]
    exact c4 r hr
  · dsimp only at hs ⊢
    rw [update_self, hsent] at hs
    rw [(himpl _).1, update_self, hpeers]
    exact c5 hs
  · dsimp only
    rw [update_self, hsent, (himpl r).2]
    obtain hp | hp := mem_queueUpdates hp
    · exact c6 r p hp hv
    · exact absurd hv (hpackets p hp)
  · show (w.queueUpdates packets r).Pairwise _
    rw [World.queueUpdates]
    split_ifs
    · exact c7 r
    · rw [pairwise_append]
      refine ⟨c7 r, pairwise_iff_forall_sublist.mpr fun hsub =>
        hpackets _ (hsub.subset mem_cons_self), fun p hp p' hp' hv => ?_⟩
      have hnone := hnil (c6 r p hp hv).1
      simp [hnone] at hp'
  · dsimp only at hr ⊢
    rw [(himpl r).2] at hr
    obtain ⟨hs, hupdates⟩ := c8 r hr
    rw [update_self, hsent]
    refine ⟨hs, ?_⟩
    show w.queueUpdates packets r = []
    rw [World.queueUpdates, hnil hs, hupdates]
    simp

lemma Ok.completeUpdates (h : w.Ok) (order : IterOrder) {shown : Bool}
    (hshown : shown = false → (w.impls (Fin.last n)).shutdown = true) :
    (w.completeUpdates order shown).1.Ok where
  slots q := (h.slots q).steps (steps_completeUpdates order hshown q)
  validEvents := h.validEvents
  validUpdates r p hp := by
    obtain hp | hp := mem_queueUpdates hp
    · exact h.validUpdates r p hp
    · exact (mem_decisionPackets hp).1
  closing := h.closing.queueUpdates rfl rfl rfl rfl
    (fun p hp => (mem_decisionPackets (w := w) hp).2) (h.decisionPackets_nil order)

/-- If as many peers have closed as there are, all of them have. -/
lemma Closing.all_closed (h : w.Closing)
    (hsize : (w.impls (Fin.last n)).closedPeers.size = n) (r : Fin (n + 1))
    (hr : r ≠ Fin.last n) : r ∈ (w.impls (Fin.last n)).closedPeers := by
  set peers := (w.impls (Fin.last n)).closedPeers with hpeers
  have hsub : peers.keys.toFinset ⊆ Finset.univ.erase (Fin.last n) := by
    intro r' hr'
    exact Finset.mem_erase.mpr ⟨(h.peer r' (mem_toFinset.mp hr')).1, Finset.mem_univ _⟩
  have hcard : peers.keys.toFinset.card = n := by
    rw [toFinset_card_of_nodup (keys_nodup _), UMap.keys, length_map]
    exact hsize
  have heq : peers.keys.toFinset = Finset.univ.erase (Fin.last n) := by
    refine Finset.eq_of_subset_of_card_le hsub ?_
    rw [Finset.card_erase_of_mem (Finset.mem_univ _), Finset.card_univ, Fintype.card_fin, hcard]
    exact le_rfl
  have hmem : r ∈ peers.keys.toFinset := by
    rw [heq]
    exact Finset.mem_erase.mpr ⟨hr, Finset.mem_univ _⟩
  exact mem_toFinset.mp hmem

end World

end TrtLlm.Disagg
