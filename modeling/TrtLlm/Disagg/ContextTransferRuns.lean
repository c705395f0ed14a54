import TrtLlm.Disagg.ContextTransferUpdates

/-!
The runs of the context transfer: every call of a rank keeps `World.Ok`.

* `publishLocalOutcome_cases`, `publishTimeout_cases`: what the calls can do;
* `Ok.votedWorld`, `Ok.timedOutWorld`, `Ok.shutdown`, `Ok.polled`: they keep the invariant.
-/

namespace TrtLlm.Disagg

open Commitment List Function Bool Fin UMap

variable {n : ℕ}

namespace World

variable {impl : Impl n} {p : Packet} {q : ℕ} {rank : Fin (n + 1)} {rest : List Packet}
  {w : World n}

/-! ### The calls of a rank -/

section

variable (w : World n) (rank : Fin (n + 1)) (impl : Impl n) (packets : List Packet)
  (log : ℕ → List (Event (Fin (n + 1))))

/-- The world after a rank has published something. -/
def afterPublish : World n :=
  { w with
    impls := update w.impls rank impl
    events := update w.events rank (w.events rank ++ packets)
    log := log }

lemma slot_afterPublish (hshut : impl.shutdown = (w.impls rank).shutdown)
    (hsent : impl.closeSent = (w.impls rank).closeSent) (q : ℕ) :
    (w.afterPublish rank impl packets log).slot q
      = { w.slot q with
          pub := update (w.slot q).pub rank (impl.publishedLocalVotes.find? q)
          tmo := update (w.slot q).tmo rank (q ∈ impl.publishedTimeouts)
          toward := update (w.slot q).toward rank
            ((w.slot q).toward rank ++ signals q packets)
          entry := if rank = last n then impl.reducer.find? q else (w.slot q).entry
          log := log q } := by
  rw [afterPublish, slot_update]
  ext1
  · rfl
  · rfl
  · funext r
    simp only [slot, update_apply]
    split_ifs
    · rw [signals_append]
    · rfl
  · rfl
  · rfl
  · rfl
  · rw [hshut]
    exact update_eq_self _ _
  · show (if rank = last n then impl.closeSent else (w.slot q).closed) = (w.slot q).closed
    split_ifs with he
    · rw [hsent, he]
      rfl
    · rfl

end

/-- What a rank publishes is kept apart from the close markers, as it has not shut down. -/
lemma Ok.afterPublish (h : w.Ok) {packets : List Packet} {log : ℕ → List (Event (Fin (n + 1)))}
    (hslots : ∀ q, ((w.afterPublish rank impl packets log).slot q).Inv (last n))
    (hopen : (w.impls rank).shutdown = false)
    (hpackets : ∀ p ∈ packets, p.Valid ∧ p.value ≠ kCloseMarker)
    (hself : rank = last n → packets = []) (hshut : impl.shutdown = (w.impls rank).shutdown)
    (hsent : impl.closeSent = (w.impls rank).closeSent)
    (hack : impl.closeAcknowledged = (w.impls rank).closeAcknowledged)
    (hpeers : impl.closedPeers = (w.impls rank).closedPeers) :
    (w.afterPublish rank impl packets log).Ok := by
  obtain ⟨c1, c2, c3, c4, c5, c6, c7, c8⟩ := h.closing
  have himpl : ∀ r, ((w.afterPublish rank impl packets log).impls r).shutdown
        = (w.impls r).shutdown
      ∧ ((w.afterPublish rank impl packets log).impls r).closeSent = (w.impls r).closeSent
      ∧ ((w.afterPublish rank impl packets log).impls r).closeAcknowledged
        = (w.impls r).closeAcknowledged
      ∧ ((w.afterPublish rank impl packets log).impls r).closedPeers
        = (w.impls r).closedPeers := by
    intro r
    simp only [World.afterPublish, update_apply]
    split_ifs with he
    · exact ⟨he ▸ hshut, he ▸ hsent, he ▸ hack, he ▸ hpeers⟩
    · exact ⟨rfl, rfl, rfl, rfl⟩
  have hmem : ∀ r p, p ∈ (w.afterPublish rank impl packets log).events r →
      p ∈ w.events r ∨ (r = rank ∧ p ∈ packets) := by
    intro r p hp
    simp only [World.afterPublish, update_apply] at hp
    split_ifs at hp with he
    · subst he
      simpa using hp
    · exact .inl hp
  refine ⟨hslots, fun r p hp => ?_, h.validUpdates, ⟨?_, c1.2⟩, fun r p hp hv => ?_, fun r => ?_,
    fun r hr => ?_, fun hs => ?_, fun r p hp hv => ?_, c7, fun r hr => ?_⟩
  · obtain hp | ⟨-, hp⟩ := hmem r p hp
    · exact h.validEvents r p hp
    · exact (hpackets p hp).1
  · refine eq_nil_iff_forall_not_mem.mpr fun p hp => ?_
    obtain hp | ⟨he, hp⟩ := hmem _ p hp
    · simp [c1.1] at hp
    · simp [hself he.symm] at hp
  · rw [(himpl r).1]
    obtain hp | ⟨-, hp⟩ := hmem r p hp
    · exact c2 r p hp hv
    · exact absurd hv (hpackets p hp).2
  · simp only [World.afterPublish, update_apply]
    split_ifs with he
    · rw [pairwise_append]
      refine ⟨c3 rank, pairwise_iff_forall_sublist.mpr fun hsub =>
        (hpackets _ (hsub.subset mem_cons_self)).2, fun p hp _ _ hv => ?_⟩
      simp [c2 rank p hp hv] at hopen
    · exact c3 r
  · rw [(himpl _).2.2.2] at hr
    rw [(himpl r).1]
    obtain ⟨h1, h2, h3⟩ := c4 r hr
    refine ⟨h1, h2, ?_⟩
    have hne : r ≠ rank := fun he => by simp [he ▸ h2] at hopen
    exact (update_of_ne hne _ _).trans h3
  · rw [(himpl _).2.1] at hs
    rw [(himpl _).1, (himpl _).2.2.2]
    exact c5 hs
  · rw [(himpl _).2.1, (himpl r).2.2.1]
    exact c6 r p hp hv
  · rw [(himpl r).2.2.1] at hr
    rw [(himpl _).2.1]
    exact c8 r hr

/-- A request that is not published about. -/
lemma slot_afterPublish_other (impl : Impl n)
    {packets : List Packet} {log : ℕ → List (Event (Fin (n + 1)))}
    (hshut : impl.shutdown = (w.impls rank).shutdown)
    (hsent : impl.closeSent = (w.impls rank).closeSent)
    (hvotes : impl.publishedLocalVotes.find? q = (w.slot q).pub rank)
    (htimeouts : q ∈ impl.publishedTimeouts ↔ q ∈ (w.impls rank).publishedTimeouts)
    (hpackets : ∀ p ∈ packets, p.requestId ≠ q)
    (hreducer : impl.reducer.find? q = (w.impls rank).reducer.find? q) (hlog : log q = w.log q) :
    (w.afterPublish rank impl packets log).slot q = w.slot q := by
  have htmo : decide (q ∈ impl.publishedTimeouts) = (w.slot q).tmo rank :=
    decide_eq_decide.mpr htimeouts
  have hnil : signals q packets = [] := filterMap_eq_nil_iff.mpr fun p hp =>
    signal_other (hpackets p hp)
  rw [slot_afterPublish w rank impl packets log hshut hsent q, hvotes, htmo, hnil, hlog, hreducer,
    append_nil, update_eq_self, update_eq_self, update_eq_self]
  ext1
  · rfl
  · rfl
  · rfl
  · rfl
  · show (if rank = last n then (w.impls rank).reducer.find? q else (w.slot q).entry)
      = (w.slot q).entry
    split_ifs with he
    · rw [he]
      rfl
    · rfl
  · rfl
  · rfl
  · rfl

section

variable (w : World n) (rank : Fin (n + 1)) (q : ℕ) (v : ContextTransferVote)

/-- What a vote leaves in the tables of a rank. -/
def afterVote : Impl n :=
  { w.impls rank with
    publishedLocalVotes := (w.impls rank).publishedLocalVotes.set q v
    reducer := if rank = last n then
      (w.impls rank).reducer.set q
        ((((w.impls rank).reducer.find? q).getD .fresh).record rank v)
      else (w.impls rank).reducer }

/-- The world after the first vote of a rank on a request. -/
def votedWorld : World n :=
  w.afterPublish rank (w.afterVote rank q v)
    (if rank = last n then [] else [⟨q, ContextTransferVote.code v⟩])
    (update w.log q (.voted rank v :: w.log q))

end

/-- A call of `publishLocalOutcome` is used wrongly, is repeated, or is the first vote. -/
lemma Ok.publishLocalOutcome_cases (h : w.Ok) (ha : ∀ v, .reported rank v ∉ w.log q)
    (failed : Bool) : (∃ e, w.publishLocalOutcome rank q failed = .error e ∧ e.ofCaller = true)
    ∨ w.publishLocalOutcome rank q failed = .ok w
    ∨ ((w.impls rank).shutdown = false ∧ (w.slot q).pub rank = none
      ∧ w.publishLocalOutcome rank q failed
        = .ok (w.votedWorld rank q (if failed then .failed else .completed))) := by
  rw [World.publishLocalOutcome, Impl.publishLocalOutcome]
  generalize (if failed = true then Outcome.failed else Outcome.completed) = v
  by_cases hshut : (w.impls rank).shutdown = true
  · rw [if_pos hshut]
    exact .inl ⟨_, rfl, rfl⟩
  rw [if_neg hshut]
  rw [not_eq_true] at hshut
  cases hpub : (w.impls rank).publishedLocalVotes.find? q with
  | some published =>
    have hmem : q ∈ (w.impls rank).publishedLocalVotes := mem_iff_find?.mpr ⟨_, hpub⟩
    dsimp only
    by_cases hsame : published = v
    · rw [if_pos hsame, if_pos hmem]
      refine .inr (.inl ?_)
      simp only [Except.map, update_eq_self, append_nil]
    · rw [if_neg hsame]
      exact .inl ⟨_, rfl, rfl⟩
  | none =>
    have hmem : q ∉ (w.impls rank).publishedLocalVotes := UMap.find?_eq_none_iff.mp hpub
    refine .inr (.inr ⟨hshut, hpub, ?_⟩)
    rw [if_neg hmem]
    by_cases hrank : rank = last n
    · subst hrank
      have hnot := (h.slots q).not_voted hpub hshut fun hv => hv.elim ha
      have hnone := Slot.getD_votes ((h.slots q).unvoted hnot).2.1
      rw [if_pos rfl, recordVote_ok hnone, votedWorld, afterVote, if_pos rfl, if_pos rfl]
      rfl
    · rw [if_neg hrank, votedWorld, afterVote, if_neg hrank, if_neg hrank]
      rfl

lemma Ok.votedWorld (h : w.Ok) (ha : ∀ v, .reported rank v ∉ w.log q) (v : ContextTransferVote)
    (hshut : (w.impls rank).shutdown = false) (hpub : (w.slot q).pub rank = none) :
    (w.votedWorld rank q v).Ok := by
  refine h.afterPublish (fun q' => ?_) hshut ?_ (fun hr => if_pos hr) rfl rfl rfl rfl
  · have hslot := slot_afterPublish w rank (w.afterVote rank q v)
      (if rank = last n then [] else [⟨q, ContextTransferVote.code v⟩])
      (update w.log q (.voted rank v :: w.log q)) rfl rfl q'
    by_cases hq : q' = q
    · subst hq
      refine (h.slots q').step ?_
      rw [hslot]
      by_cases hrank : rank = last n
      · subst hrank
        have hstep := Slot.Step.voteSelf (c := last n) v hpub hshut fun hv => hv.elim ha
        convert hstep using 1
        ext1
        · simp [afterVote]
        · exact update_eq_self _ _
        · simp
        · rfl
        · simp [afterVote, slot]
        · exact update_self ..
        · rfl
        · rfl
      · have hstep := Slot.Step.vote (c := last n) rank v hrank hpub hshut
          fun hv => hv.elim ha
        convert hstep using 1
        ext1
        · simp [afterVote]
        · exact update_eq_self _ _
        · simp [hrank, signals_cons, signal_vote]
        · rfl
        · simp [hrank]
        · exact update_self ..
        · rfl
        · rfl
    · have hother : (w.votedWorld rank q v).slot q' = w.slot q' := by
        refine slot_afterPublish_other (w.afterVote rank q v) rfl rfl ?_ Iff.rfl
          (fun p hp => ?_) ?_ ?_
        · simp [afterVote, slot, hq]
        · split_ifs at hp
          · simp at hp
          · obtain rfl := mem_singleton.mp hp
            exact Ne.symm hq
        · simp only [afterVote]
          split_ifs
          · rw [find?_set, if_neg hq]
          · rfl
        · exact update_of_ne hq _ _
      exact hother ▸ h.slots q'
  · intro p hp
    split_ifs at hp
    · simp at hp
    · obtain rfl := mem_singleton.mp hp
      exact ⟨.inr (.inr ⟨v, rfl⟩), code_ne_close v⟩

section

variable (w : World n) (rank : Fin (n + 1)) (q : ℕ)

/-- What a time-out leaves in the tables of a rank. -/
def afterTimeout : Impl n :=
  { w.impls rank with
    publishedTimeouts := (w.impls rank).publishedTimeouts.insert q
    reducer := if rank = last n then recordTimeout (w.impls rank).reducer q
      else (w.impls rank).reducer }

/-- The world after the first time-out of a rank on a request. -/
def timedOutWorld : World n :=
  w.afterPublish rank (w.afterTimeout rank q)
    (if rank = last n then [] else [⟨q, kTimedOutSignal⟩])
    (update w.log q (.timedOut rank :: w.log q))

/-- A call of `publishTimeout` is used wrongly, is repeated, or is the first time-out. -/
lemma publishTimeout_cases :
    (∃ e, w.publishTimeout rank q = .error e ∧ e.ofCaller = true)
    ∨ w.publishTimeout rank q = .ok w
    ∨ ((w.impls rank).shutdown = false
      ∧ w.publishTimeout rank q = .ok (w.timedOutWorld rank q)) := by
  rw [World.publishTimeout, Impl.publishTimeout]
  by_cases hshut : (w.impls rank).shutdown = true
  · rw [if_pos hshut]
    exact .inl ⟨_, rfl, rfl⟩
  rw [if_neg hshut]
  rw [not_eq_true] at hshut
  by_cases hpub : q ∈ (w.impls rank).publishedLocalVotes
  · rw [if_pos hpub]
    exact .inl ⟨_, rfl, rfl⟩
  rw [if_neg hpub]
  by_cases htmo : q ∈ (w.impls rank).publishedTimeouts
  · rw [if_pos htmo, if_pos htmo]
    refine .inr (.inl ?_)
    simp only [Except.map, update_eq_self, append_nil]
  · rw [if_neg htmo, if_neg htmo]
    refine .inr (.inr ⟨hshut, ?_⟩)
    rw [timedOutWorld, afterTimeout]
    by_cases hrank : rank = last n
    · simp only [if_pos hrank]
      rfl
    · simp only [if_neg hrank]
      rfl

end

lemma Ok.timedOutWorld (h : w.Ok) (ha : ∀ v, .voted rank v ∉ w.log q)
    (hshut : (w.impls rank).shutdown = false) : (w.timedOutWorld rank q).Ok := by
  refine h.afterPublish (fun q' => ?_) hshut ?_ (fun hr => if_pos hr) rfl rfl rfl rfl
  · by_cases hq : q' = q
    · subst hq
      have hslot := slot_afterPublish w rank (w.afterTimeout rank q')
        (if rank = last n then [] else [⟨q', kTimedOutSignal⟩])
        (update w.log q' (.timedOut rank :: w.log q')) rfl rfl q'
      refine (h.slots q').step ?_
      rw [hslot]
      by_cases hrank : rank = last n
      · subst hrank
        have hstep := Slot.Step.timeoutSelf (c := last n) (s := w.slot q') hshut
          fun hv => hv.elim ha
        convert hstep using 1
        ext1
        · exact update_eq_self _ _
        · simp [afterTimeout]
        · simp
        · rfl
        · simp [afterTimeout, recordTimeout, slot]
        · exact update_self ..
        · rfl
        · rfl
      · have hstep := Slot.Step.timeout (c := last n) (s := w.slot q') rank hrank hshut
          fun hv => hv.elim ha
        convert hstep using 1
        ext1
        · exact update_eq_self _ _
        · simp [afterTimeout]
        · simp [hrank, signals_cons, signal_timedOut]
        · rfl
        · simp [hrank]
        · exact update_self ..
        · rfl
        · rfl
    · have hother : (w.timedOutWorld rank q).slot q' = w.slot q' := by
        refine slot_afterPublish_other (w.afterTimeout rank q) rfl rfl rfl ?_ (fun p hp => ?_) ?_ ?_
        · simp [afterTimeout, hq]
        · split_ifs at hp
          · simp at hp
          · obtain rfl := mem_singleton.mp hp
            exact Ne.symm hq
        · simp only [afterTimeout]
          split_ifs
          · rw [recordTimeout, find?_set, if_neg hq]
          · rfl
        · exact update_of_ne hq _ _
      exact hother ▸ h.slots q'
  · intro p hp
    split_ifs at hp
    · simp at hp
    · obtain rfl := mem_singleton.mp hp
      exact ⟨.inr (.inl rfl), timedOut_ne_close⟩

section

variable (hshut : (w.impls rank).shutdown = false)
include hshut

lemma impls_shutdown (r : Fin (n + 1)) :
    ((w.shutdown rank).impls r).closeSent = (w.impls r).closeSent
      ∧ ((w.shutdown rank).impls r).closeAcknowledged = (w.impls r).closeAcknowledged
      ∧ ((w.shutdown rank).impls r).closedPeers = (w.impls r).closedPeers
      ∧ ((w.shutdown rank).impls r).shutdown = ((w.impls r).shutdown || decide (r = rank)) := by
  simp only [World.shutdown, hshut, false_eq_true, if_false, update_apply]
  split_ifs with he
  · subst he
    simp
  · simp [he]

/-- A peer tells the coordinator that it closes. -/
lemma events_shutdown (r : Fin (n + 1)) : (w.shutdown rank).events r = w.events r
    ∨ (r = rank ∧ r ≠ last n
      ∧ (w.shutdown rank).events r = w.events r ++ [⟨0, kCloseMarker⟩]) := by
  simp only [World.shutdown, hshut, false_eq_true, if_false]
  by_cases hrank : rank = last n
  · simp [hrank]
  · rw [if_neg hrank, update_apply]
    split_ifs with he
    · exact .inr ⟨he, he ▸ hrank, he ▸ rfl⟩
    · exact .inl rfl

lemma updates_shutdown : (w.shutdown rank).updates = w.updates := by
  simp [World.shutdown, hshut]

lemma mem_events_shutdown {r : Fin (n + 1)} (hp : p ∈ (w.shutdown rank).events r) :
    p ∈ w.events r ∨ (r = rank ∧ p = ⟨0, kCloseMarker⟩) := by
  obtain he | ⟨hr, -, he⟩ := events_shutdown hshut r
  · exact .inl (he ▸ hp)
  · rw [he] at hp
    obtain hp | hp := mem_append.mp hp
    · exact .inl hp
    · exact .inr ⟨hr, mem_singleton.mp hp⟩

lemma Ok.slot_shutdown (h : w.Ok) (q : ℕ) : ((w.shutdown rank).slot q).Inv (last n) := by
  refine (h.slots q).step ?_
  have hstep := Slot.Step.shutdown (c := last n) (s := w.slot q) rank
  convert hstep using 1
  have hsame : w.shutdown rank = ⟨update w.impls rank
      { w.impls rank with shutdown := true }, (w.shutdown rank).events, w.updates, w.log⟩ := by
    simp [World.shutdown, hshut]
  rw [hsame, slot_update]
  ext1
  · exact update_eq_self _ _
  · exact update_eq_self _ _
  · funext r
    show signals q ((w.shutdown rank).events r) = signals q (w.events r)
    obtain he | ⟨-, -, he⟩ := events_shutdown hshut r
    · rw [he]
    · rw [he, signals_append, signals_cons, signal_close rfl]
      simp
  · rfl
  · show (if rank = last n then (w.impls rank).reducer.find? q else _) = _
    split_ifs with he
    · rw [he]
      rfl
    · rfl
  · rfl
  · rfl
  · show (if rank = last n then (w.impls rank).closeSent else _) = _
    split_ifs with he
    · rw [he]
      rfl
    · rfl

lemma Closing.shutdown (h : w.Closing) : (w.shutdown rank).Closing := by
  obtain ⟨c1, c2, c3, c4, c5, c6, c7, c8⟩ := h
  have himpl := impls_shutdown hshut
  have hevents := events_shutdown hshut
  have hupdates := updates_shutdown hshut
  have hlater : ∀ r, (w.impls r).shutdown = true →
      ((w.shutdown rank).impls r).shutdown = true := fun r hr => by simp [himpl r, hr]
  refine ⟨⟨?_, ?_⟩, fun r p hp hv => ?_, fun r => ?_, fun r hr => ?_, fun hs => ?_,
    fun r p hp hv => ?_, fun r => ?_, fun r hr => ?_⟩
  · obtain he | ⟨-, hne, -⟩ := hevents (last n)
    · exact he.trans c1.1
    · exact absurd rfl hne
  · rw [hupdates]
    exact c1.2
  · obtain hp | ⟨rfl, -⟩ := mem_events_shutdown hshut hp
    · exact hlater r (c2 r p hp hv)
    · simp [himpl r]
  · obtain he | ⟨hr, -, he⟩ := hevents r
    · rw [he]
      exact c3 r
    · rw [he, pairwise_append]
      refine ⟨c3 r, pairwise_singleton _ _, fun p hp _ _ hv => ?_⟩
      have hclosed := c2 r p hp hv
      simp [hr, hshut] at hclosed
  · rw [(himpl _).2.2.1] at hr
    obtain ⟨h1, h2, h3⟩ := c4 r hr
    refine ⟨h1, hlater r h2, ?_⟩
    obtain he | ⟨rfl, -, -⟩ := hevents r
    · exact he.trans h3
    · simp [hshut] at h2
  · rw [(himpl _).1] at hs
    rw [(himpl _).2.2.1]
    exact ⟨hlater _ (c5 hs).1, (c5 hs).2⟩
  · rw [(himpl _).1, (himpl r).2.1]
    exact c6 r p (hupdates ▸ hp) hv
  · rw [hupdates]
    exact c7 r
  · rw [(himpl r).2.1] at hr
    rw [(himpl _).1, hupdates]
    exact c8 r hr

end

lemma Ok.shutdown (h : w.Ok) (rank : Fin (n + 1)) : (w.shutdown rank).Ok := by
  by_cases hshut : (w.impls rank).shutdown = true
  · rw [World.shutdown, if_pos hshut]
    exact h
  rw [not_eq_true] at hshut
  refine ⟨h.slot_shutdown hshut, fun r p hp => ?_, fun r p hp => ?_, h.closing.shutdown hshut⟩
  · obtain hp | ⟨-, rfl⟩ := mem_events_shutdown hshut hp
    · exact h.validEvents r p hp
    · exact .inl rfl
  · exact h.validUpdates r p (updates_shutdown hshut ▸ hp)

/-- A rank has polled. -/
lemma Ok.polled (h : w.Ok) (rank : Fin (n + 1)) :
    ({ w with log := fun q => .polled rank :: w.log q } : World n).Ok where
  slots q := (h.slots q).step (.poll rank)
  validEvents := h.validEvents
  validUpdates := h.validUpdates
  closing := ⟨h.closing.self, h.closing.marker, h.closing.markerLast, h.closing.peer,
    h.closing.sent, h.closing.ack, h.closing.ackLast, h.closing.acked⟩

end World

end TrtLlm.Disagg
