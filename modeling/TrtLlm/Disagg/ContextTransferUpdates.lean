import TrtLlm.Disagg.ContextTransferSlots

/-!
The packets of the coordinator of a context transfer.

* `Ok.closeIfDone`, `Ok.receiveUpdate`: the end of a shutdown, and a rank that is told something,
  keep `World.Ok`.
-/

namespace TrtLlm.Disagg

open Commitment List Function Bool Fin UMap

variable {n : ℕ}

namespace World

/-! ### The end of a shutdown -/

variable {impl : Impl n} {p : Packet} {q : ℕ} {rank : Fin (n + 1)} {rest : List Packet}
  {w : World n}

/-- The coordinator has sent the close marker. -/
def closedWorld (w : World n) : World n :=
  ⟨update w.impls (last n) { w.impls (last n) with
      reducer := ∅
      publishedLocalVotes := ∅
      publishedTimeouts := ∅
      closeSent := true }, w.events, w.queueUpdates [⟨0, kCloseMarker⟩], w.log⟩

section

variable (h : w.Ok) (hshut : (w.impls (last n)).shutdown = true)
  (hall : ∀ r ≠ last n, r ∈ (w.impls (last n)).closedPeers)
include h hshut hall

/-- The marker is sent when all ranks have shut down and no packet is on its way to the
coordinator. -/
lemma Ok.slot_closedWorld (q : ℕ) : (w.closedWorld.slot q).Inv (last n) := by
  refine (h.slots q).step ?_
  have hstep := Slot.Step.close (c := last n) (s := w.slot q) (fun r => ?_) (fun r => ?_)
  · convert hstep using 1
    rw [closedWorld, slot_update]
    ext1
    · rfl
    · simp
    · rfl
    · funext r
      show signals q (w.queueUpdates [⟨0, kCloseMarker⟩] r) = signals q (w.updates r)
      rw [World.queueUpdates]
      split_ifs
      · rfl
      · rw [signals_append, signals_cons, signal_close rfl]
        simp
    · exact if_pos rfl
    · rfl
    · exact update_eq_self _ _
    · exact if_pos rfl
  · show (w.impls r).shutdown = true
    by_cases hr : r = last n
    · rw [hr]
      exact hshut
    · exact (h.closing.peer r (hall r hr)).2.1
  · show signals q (w.events r) = []
    by_cases hr : r = last n
    · rw [hr, h.closing.self.1]
      rfl
    · rw [(h.closing.peer r (hall r hr)).2.2]
      rfl

/-- It is the first marker of the coordinator, and no rank has acknowledged one. -/
lemma Ok.closing_closedWorld (hsent : ¬(w.impls (last n)).closeSent = true) :
    w.closedWorld.Closing := by
  obtain ⟨c1, c2, c3, c4, c5, c6, c7, c8⟩ := h.closing
  have hflags : ∀ r, (w.closedWorld.impls r).shutdown = (w.impls r).shutdown
      ∧ (w.closedWorld.impls r).closeAcknowledged = (w.impls r).closeAcknowledged :=
    flags_update_last rfl rfl
  have hnoack : ∀ r, (w.impls r).closeAcknowledged = false := by
    intro r
    by_contra hr
    rw [not_eq_false] at hr
    exact hsent (c8 r hr).1
  have hnoclose : ∀ r, ∀ p ∈ w.updates r, p.value ≠ kCloseMarker := fun r p hp hv =>
    hsent (c6 r p hp hv).1
  have hlast : w.closedWorld.impls (last n) = _ := update_self ..
  refine ⟨⟨c1.1, (if_pos rfl).trans c1.2⟩, fun r p hp hv => ?_, c3, fun r hr => ?_, fun _ => ?_,
    fun r p hp hv => ?_, fun r => ?_, fun r hr => ?_⟩
  · rw [(hflags r).1]
    exact c2 r p hp hv
  · rw [hlast] at hr
    rw [(hflags r).1]
    exact c4 r hr
  · rw [hlast]
    exact ⟨hshut, hall⟩
  · rw [hlast, (hflags r).2]
    exact ⟨rfl, hnoack r⟩
  · show (w.queueUpdates [⟨0, kCloseMarker⟩] r).Pairwise _
    rw [World.queueUpdates]
    split_ifs
    · exact c7 r
    · rw [pairwise_append]
      exact ⟨c7 r, pairwise_singleton _ _, fun p hp _ _ => hnoclose r p hp⟩
  · rw [(hflags r).2, hnoack r] at hr
    simp at hr

end

lemma Ok.closeIfDone (h : w.Ok) : w.closeIfDone.Ok := by
  by_cases hdone : (w.impls (last n)).shutdown = true
      ∧ ¬(w.impls (last n)).closeSent = true
      ∧ (w.impls (last n)).closedPeers.size = n
  · have heq : w.closeIfDone = w.closedWorld := by
      rw [World.closeIfDone, Impl.closeIfDone, if_pos hdone]
      rfl
    obtain ⟨hshut, hsent, hsize⟩ := hdone
    have hall := h.closing.all_closed hsize
    rw [heq]
    refine ⟨h.slot_closedWorld hshut hall, h.validEvents, fun r p hp => ?_,
      h.closing_closedWorld hshut hall hsent⟩
    obtain hp | hp := mem_queueUpdates hp
    · exact h.validUpdates r p hp
    · exact .inl (mem_singleton.mp hp ▸ rfl)
  · have heq : w.closeIfDone = w := by
      rw [World.closeIfDone, Impl.closeIfDone, if_neg hdone]
      have hupdates : w.queueUpdates [] = w.updates := by
        funext r
        rw [World.queueUpdates, append_nil, ite_self]
      simp only [update_eq_self, hupdates]
    rw [heq]
    exact h

/-! ### A rank is told something -/

/-- The world after a rank has handled the first packet of the coordinator. -/
def afterUpdate (w : World n) (shown : Bool) (rank : Fin (n + 1)) (p : Packet)
    (rest : List Packet) (impl : Impl n) : World n :=
  { w with
    impls := update w.impls rank impl
    updates := update w.updates rank rest
    log := logUpdate shown rank p w.log }

lemma slot_afterUpdate (w : World n) (shown : Bool) (hrank : rank ≠ last n) (p : Packet)
    (rest : List Packet) (hshut : impl.shutdown = (w.impls rank).shutdown) (q : ℕ) :
    (w.afterUpdate shown rank p rest impl).slot q
      = { w.slot q with
          pub := update (w.slot q).pub rank (impl.publishedLocalVotes.find? q)
          tmo := update (w.slot q).tmo rank (q ∈ impl.publishedTimeouts)
          back := update (w.slot q).back rank (signals q rest)
          log := logUpdate shown rank p w.log q } := by
  rw [afterUpdate, slot_update]
  ext1
  · rfl
  · rfl
  · rfl
  · funext r
    simp only [slot, update_apply]
    split_ifs <;> rfl
  · exact if_neg hrank
  · rfl
  · rw [hshut]
    exact update_eq_self _ _
  · exact if_neg hrank

lemma Ok.afterUpdate (h : w.Ok) {shown : Bool} (hrank : rank ≠ last n)
    (hupdates : w.updates rank = p :: rest)
    (hslots : ∀ q, ((w.afterUpdate shown rank p rest impl).slot q).Inv (last n))
    (hshut : impl.shutdown = (w.impls rank).shutdown) (hack : impl.closeAcknowledged = true ↔
      (w.impls rank).closeAcknowledged = true ∨ p.value = kCloseMarker) :
    (w.afterUpdate shown rank p rest impl).Ok := by
  obtain ⟨c1, c2, c3, c4, c5, c6, c7, c8⟩ := h.closing
  have hlast : (w.afterUpdate shown rank p rest impl).impls (last n)
      = w.impls (last n) := update_of_ne (Ne.symm hrank) _ _
  have himpl : ∀ r, ((w.afterUpdate shown rank p rest impl).impls r).shutdown
      = (w.impls r).shutdown := by
    intro r
    simp only [World.afterUpdate, update_apply]
    split_ifs with he
    · exact he ▸ hshut
    · rfl
  have hack' : ∀ r, ((w.afterUpdate shown rank p rest impl).impls r).closeAcknowledged = true ↔
      (w.impls r).closeAcknowledged = true ∨ (r = rank ∧ p.value = kCloseMarker) := by
    intro r
    simp only [World.afterUpdate, update_apply]
    split_ifs with he
    · subst he
      simpa using hack
    · simp [he]
  have hsub : ∀ r, ((w.afterUpdate shown rank p rest impl).updates r).Sublist (w.updates r) := by
    intro r
    simp only [World.afterUpdate, update_apply]
    split_ifs with he
    · rw [he, hupdates]
      exact sublist_cons_self p rest
    · exact .refl _
  have hrest : p.value = kCloseMarker →
      (w.afterUpdate shown rank p rest impl).updates rank = [] := by
    intro hp
    have hpw := c7 rank
    rw [hupdates, pairwise_cons] at hpw
    have hnil : rest = [] := eq_nil_iff_forall_not_mem.mpr fun p' hp' => hpw.1 p' hp' hp
    rw [← hnil]
    exact update_self ..
  refine ⟨hslots, h.validEvents, fun r p' hp' => h.validUpdates r p' ((hsub r).subset hp'),
    ⟨c1.1, ?_⟩, fun r p' hp' hv => ?_, c3, fun r hr => ?_, fun hs => ?_, fun r p' hp' hv => ?_,
    fun r => (c7 r).sublist (hsub r), fun r hr => ?_⟩
  · exact sublist_nil.mp (c1.2 ▸ hsub (last n))
  · rw [himpl]
    exact c2 r p' hp' hv
  · rw [hlast] at hr
    rw [himpl]
    exact c4 r hr
  · rw [hlast] at hs ⊢
    exact c5 hs
  · rw [hlast]
    obtain ⟨hs, hno⟩ := c6 r p' ((hsub r).subset hp') hv
    refine ⟨hs, ?_⟩
    rw [← not_eq_true, hack']
    rintro (hr | ⟨rfl, hp⟩)
    · simp [hno] at hr
    · rw [hrest hp] at hp'
      simp at hp'
  · rw [hlast]
    rw [hack'] at hr
    obtain hr | ⟨rfl, hp⟩ := hr
    · obtain ⟨hs, hnil⟩ := c8 r hr
      exact ⟨hs, sublist_nil.mp (hnil ▸ hsub r)⟩
    · exact ⟨(c6 r p (by rw [hupdates]; exact mem_cons_self) hp).1, hrest hp⟩

/-- A packet about another request. -/
lemma Ok.inv_afterUpdate_other (h : w.Ok) (shown : Bool) (hrank : rank ≠ last n)
    (hupdates : w.updates rank = p :: rest) (hq : p.requestId ≠ q)
    (hshut : impl.shutdown = (w.impls rank).shutdown)
    (hvotes : impl.publishedLocalVotes.find? q = (w.slot q).pub rank)
    (htimeouts : q ∈ impl.publishedTimeouts ↔ q ∈ (w.impls rank).publishedTimeouts) :
    ((w.afterUpdate shown rank p rest impl).slot q).Inv (last n) := by
  have hback : signals q rest = (w.slot q).back rank := by
    show _ = signals q (w.updates rank)
    rw [hupdates, signals_cons, signal_other hq]
    rfl
  have hlog : logUpdate shown rank p w.log q = (w.slot q).log := by
    rw [logUpdate]
    by_cases hclose : p.value = kCloseMarker
    · rw [if_pos hclose]
      rfl
    · rw [if_neg hclose]
      exact update_of_ne (Ne.symm hq) _ _
  have htmo : decide (q ∈ impl.publishedTimeouts) = (w.slot q).tmo rank :=
    decide_eq_decide.mpr htimeouts
  rw [slot_afterUpdate w shown hrank p rest hshut q, hvotes, htmo, hback, hlog,
    update_eq_self, update_eq_self, update_eq_self]
  exact h.slots q

/-- A rank handles the first packet of the coordinator without failing a check. -/
lemma Ok.receiveUpdate (h : w.Ok) (shown : Bool) (hrank : rank ≠ last n)
    (hshown : shown = false → (w.impls rank).shutdown = true)
    (hupdates : w.updates rank = p :: rest) (result : ConsensusResult) :
    ∃ impl result', (w.impls rank).receiveUpdate result p = .ok (impl, result')
      ∧ (w.afterUpdate shown rank p rest impl).Ok
      ∧ impl.shutdown = (w.impls rank).shutdown := by
  have hback : ∀ q, (w.slot q).back rank = (signal q p).toList ++ signals q rest := fun q => by
    rw [← signals_cons, ← hupdates]
    rfl
  obtain hclose | htimeout | ⟨v, hvote⟩ := h.validUpdates rank p (by simp [hupdates])
  · obtain ⟨hsent, hack⟩ := h.closing.ack rank p (by simp [hupdates]) hclose
    have hrest : rest = [] := by
      have hpw := h.closing.ackLast rank
      rw [hupdates, pairwise_cons] at hpw
      exact eq_nil_iff_forall_not_mem.mpr fun p' hp' => hpw.1 p' hp' hclose
    subst hrest
    refine ⟨{ w.impls rank with
        closeAcknowledged := true
        publishedLocalVotes := ∅
        publishedTimeouts := ∅ }, result,
      by rw [Impl.receiveUpdate, if_pos hclose, if_neg (by simp [hack])], ?_, rfl⟩
    refine h.afterUpdate hrank hupdates (fun q => ?_) rfl (by simp [hclose])
    have hnil : (w.slot q).back rank = [] := by simp [hback, signal_close hclose]
    refine (h.slots q).step ?_
    have hstep := Slot.Step.giveUp (c := last n) (s := w.slot q) rank hsent hnil
    convert hstep using 1
    refine (slot_afterUpdate w shown hrank p [] (by rfl) q).trans ?_
    rw [signals_nil, ← hnil, update_eq_self]
    ext1
    · rfl
    · simp
    · rfl
    · rfl
    · rfl
    · simp [logUpdate, hclose, slot]
    · rfl
    · rfl
  · obtain ⟨q₀, value⟩ := p
    obtain rfl : value = kTimedOutSignal := htimeout
    refine ⟨w.impls rank, _, by rw [Impl.receiveUpdate, if_neg timedOut_ne_close, if_pos rfl], ?_,
      rfl⟩
    refine h.afterUpdate hrank hupdates (fun q => ?_) rfl (by simp [timedOut_ne_close])
    by_cases hq : q₀ = q
    · subst hq
      refine (h.slots q₀).step ?_
      have hstep := Slot.Step.learnTimeout (c := last n) (s := w.slot q₀) rank
        (signals q₀ rest) shown (by rw [hback, signal_timedOut]; rfl)
      convert hstep using 1
      refine (slot_afterUpdate w shown hrank _ rest (by rfl) q₀).trans ?_
      ext1
      · exact update_eq_self _ _
      · exact update_eq_self _ _
      · rfl
      · rfl
      · rfl
      · simp [logUpdate, timedOut_ne_close, slot]
      · rfl
      · rfl
    · exact h.inv_afterUpdate_other shown hrank hupdates hq rfl rfl Iff.rfl
  · obtain ⟨q₀, value⟩ := p
    obtain rfl : value = ContextTransferVote.code v := hvote
    have hmem : Signal.vote v ∈ (w.slot q₀).back rank := by
      rw [hback, signal_vote]
      exact mem_cons_self
    have hpub : q₀ ∈ (w.impls rank).publishedLocalVotes := by
      by_contra hno
      exact ((h.slots q₀).told.vote rank v hmem).2.1 (UMap.find?_eq_none_iff.mpr hno)
    refine ⟨(w.impls rank).forget [q₀], _, by
      rw [Impl.receiveUpdate, if_neg (code_ne_close v), if_neg (code_ne_timedOut v), ofCode_code]
      dsimp only
      rw [if_neg (not_not.mpr hpub)], ?_, rfl⟩
    refine h.afterUpdate hrank hupdates (fun q => ?_) rfl (by simp [Impl.forget, code_ne_close])
    by_cases hq : q₀ = q
    · subst hq
      refine (h.slots q₀).step ?_
      have hstep := Slot.Step.learn (c := last n) (s := w.slot q₀) rank v
        (signals q₀ rest) shown (by rw [hback, signal_vote]; rfl) hshown
      convert hstep using 1
      refine (slot_afterUpdate w shown hrank _ rest (by rfl) q₀).trans ?_
      ext1
      · simp [Impl.forget]
      · simp [Impl.forget]
      · rfl
      · rfl
      · rfl
      · simp [logUpdate, code_ne_close, code_ne_timedOut, ofCode_code, slot]
      · rfl
      · rfl
    · refine h.inv_afterUpdate_other shown hrank hupdates hq rfl ?_ ?_
      · simp [Impl.forget, Ne.symm hq, slot]
      · simp [Impl.forget, Ne.symm hq]

lemma Ok.drainUpdates (h : w.Ok) {shown : Bool} (hrank : rank ≠ last n)
    (hshown : shown = false → (w.impls rank).shutdown = true)
    (arrived : ℕ) (result : ConsensusResult) :
    ∃ w' result', w.drainUpdates shown rank arrived result = .ok (w', result') ∧ w'.Ok := by
  induction arrived generalizing w result with
  | zero => exact ⟨w, result, rfl, h⟩
  | succ arrived ih =>
    rw [World.drainUpdates]
    cases hupdates : w.updates rank with
    | nil => exact ⟨w, result, rfl, h⟩
    | cons p rest =>
      obtain ⟨impl, result₁, himpl, hok, hshut⟩ :=
        h.receiveUpdate shown hrank hshown hupdates result
      have hshown' : shown = false →
          ((w.afterUpdate shown rank p rest impl).impls rank).shutdown = true := fun hs => by
        simp only [World.afterUpdate, update_self, hshut]
        exact hshown hs
      obtain ⟨w', result', hw', hok'⟩ := ih hok hshown' result₁
      refine ⟨w', result', ?_, hok'⟩
      dsimp only
      rw [himpl]
      exact hw'

end World

end TrtLlm.Disagg
