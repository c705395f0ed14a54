import TrtLlm.Util.CommitmentVotes

/-!
The outcome of an item, and what the parties are told of it.

* `Inv.justified_outcome`: what a full tally says rests on the votes and the time-outs;
* `Inv.told_step`: every step keeps what is known of the signals to the parties;
* `Inv.step`: **every step keeps the invariant**;
* `Inv.decided_unique`, `Inv.completed_iff`: there is one outcome, and what it says of the votes.
-/

namespace TrtLlm.Commitment.Slot

open List Function Option

variable {ι : Type*} [DecidableEq ι] [Fintype ι]

namespace Justified

variable {s s' : Slot ι} {v : Outcome}

omit [DecidableEq ι] [Fintype ι] in
/-- No vote and no time-out comes after a decision. -/
lemma mono (h : s.Justified v) (hlog : ∀ e ∈ s.log, e ∈ s'.log)
    (htimeout : ∀ r, .timedOut r ∈ s'.log → .timedOut r ∈ s.log) : s'.Justified v where
  voted r := by
    obtain ⟨w, hw⟩ := h.voted r
    exact ⟨w, hlog _ hw⟩
  completed hv := ⟨fun r => hlog _ ((h.completed hv).1 r),
    fun r hr => (h.completed hv).2 r (htimeout r hr)⟩
  failed hv := by
    obtain ⟨r, hr⟩ | ⟨r, hr⟩ := h.failed hv
    · exact .inl ⟨r, hlog _ hr⟩
    · exact .inr ⟨r, hlog _ hr⟩

end Justified

variable {c r : ι} {s s' : Slot ι}

/-- The outcome of a full tally. -/
lemma Inv.justified_outcome (h : Inv c s) {t : Tally ι}
    (hentry : s.entry = some t) (hcount : t.terminalCount = Fintype.card ι) :
    s.Justified t.outcome := by
  have hcounted := h.counted t hentry
  have hall : ∀ r, ∃ v, t.votes r = some v := fun r =>
    ne_none_iff_exists'.mp (hcounted.all hcount r)
  refine ⟨fun r => ?_, fun hv => ⟨fun r => ?_, fun r hr => ?_⟩, fun hv => ?_⟩
  · obtain ⟨v, hv⟩ := hall r
    exact ⟨v, hcounted.votes r v hv⟩
  · rw [Tally.outcome] at hv
    split_ifs at hv with hbad
    obtain ⟨w, hw⟩ := hall r
    cases w with
    | completed => exact hcounted.votes r _ hw
    | failed => simp [hcounted.failed.mpr ⟨r, hw⟩] at hbad
  · rw [Tally.outcome] at hv
    split_ifs at hv with hbad
    obtain hin | ⟨t', ht', htimed⟩ | hd | hc := h.underway.timeoutAt r hr
    · simp [h.toward_nil hentry hcount r] at hin
    · obtain rfl := some.inj (hentry.symm.trans ht')
      simp [htimed] at hbad
    · exact hcounted.undecided hd
    · simp [hcounted.unclosed] at hc
  · rw [Tally.outcome] at hv
    split_ifs at hv with hbad
    rw [Bool.or_eq_true] at hbad
    obtain hfailed | htimed := hbad
    · obtain ⟨r, hr⟩ := hcounted.failed.mp hfailed
      exact .inl ⟨r, hcounted.votes r _ hr⟩
    · exact .inr (hcounted.timedOut htimed)

lemma Inv.justified_step (h : Inv c s) (hstep : Step c s s') :
    ∀ v, .decided v ∈ s'.log → s'.Justified v := by
  have hj := h.justified
  cases hstep with
  | vote | voteSelf | poll =>
    intro w hw
    exact (hj w (by simpa using hw)).mono (fun _ => mem_cons_of_mem _) (by simp)
  | timeout r hr hshut hvote =>
    intro w hw
    exact absurd ((hj w (by simpa using hw)).voted r) hvote
  | timeoutSelf hshut hvote =>
    intro w hw
    exact absurd ((hj w (by simpa using hw)).voted c) hvote
  | receiveVote | receiveTimeout | close | giveUp
    | shutdown => exact fun w hw => (hj w hw).mono (fun _ => id) fun _ => id
  | announce | learnTimeout | learn =>
    intro w hw
    exact (hj w (by simpa using hw)).mono (fun e he => mem_logIf.mpr (.inr he)) (by simp)
  | decide t shown hentry hcount hpending hshown =>
    intro w hw
    have hlog : ∀ e ∈ s.log,
        e ∈ logIf shown (.reported c t.outcome) (.decided t.outcome :: s.log) := fun e he =>
      mem_logIf.mpr (.inr (mem_cons_of_mem _ he))
    obtain rfl | hw : w = t.outcome ∨ Event.decided w ∈ s.log := by simpa using hw
    · exact (h.justified_outcome hentry hcount).mono hlog (by simp)
    · exact (hj w hw).mono hlog (by simp)

omit [DecidableEq ι] [Fintype ι] in
lemma Silent.cons {r : ι} {log : List (Event ι)} (h : Silent r log) {e : Event ι}
    (he : e = .timeoutReported r → ∀ v, .reported r v ∉ log) : Silent r (e :: log) := by
  intro v newer older hlog hmem
  cases newer with
  | nil => simp at hmem
  | cons e' newer =>
    rw [cons_append, List.cons.injEq] at hlog
    obtain ⟨rfl, hlog⟩ := hlog
    obtain hmem | hmem := mem_cons.mp hmem
    · exact he hmem.symm v (hlog ▸ mem_append_right _ mem_cons_self)
    · exact h v newer older hlog hmem

omit [DecidableEq ι] [Fintype ι] in
lemma Silent.logIf {log : List (Event ι)} (h : Silent r log) {e : Event ι}
    (he : e = .timeoutReported r → ∀ v, .reported r v ∉ log) (shown : Bool) :
    Silent r (logIf shown e log) := by
  cases shown with
  | false => exact h
  | true => exact h.cons he

/-- A time-out that was passed on is in the tally while nothing is decided. -/
lemma Inv.announced_getD (h : Inv c s) (hd : ¬s.Decided)
    (hc : s.closed = false) (hr : .timedOut ∈ s.back r ∨ .timeoutReported r ∈ s.log) :
    (s.entry.getD .fresh).timedOut = true ∧ (s.entry.getD .fresh).timeoutPending = false := by
  obtain ⟨hsome, hnone⟩ := h.told.announced r hr
  cases hentry : s.entry with
  | none =>
    obtain hdec | hclosed := hnone hentry
    · exact absurd hdec hd
    · simp [hc] at hclosed
  | some t => exact hsome t hentry

/-- Before the decision nothing but time-outs is on its way to a party, and no party has been told
an outcome. -/
lemma Inv.back_of_entry (h : Inv c s) {t : Tally ι} (hentry : s.entry = some t) :
    (∀ r, ∀ m ∈ s.back r, m = .timedOut) ∧ ∀ r v, .reported r v ∉ s.log := by
  have hnot := (h.counted t hentry).undecided
  refine ⟨fun r m hm => ?_, fun r v hv => hnot ⟨v, (h.told.reported r v hv).1⟩⟩
  cases m with
  | timedOut => rfl
  | vote v => exact absurd ⟨v, (h.told.vote r v hm).1⟩ hnot

omit [Fintype ι] in
lemma countP_isReport_eq_zero {log : List (Event ι)} (h : ∀ v, .reported r v ∉ log) :
    log.countP (Event.isReport r) = 0 := by
  rw [countP_eq_zero]
  intro e he
  cases e with
  | reported r' v =>
    intro heq
    rw [Event.isReport, decide_eq_true_eq] at heq
    exact h v (heq ▸ he)
  | _ => simp [Event.isReport]

/-- A time-out is passed on: it was not before, and nothing is decided. -/
lemma Inv.told_announce (h : Inv c s) {t : Tally ι} (hentry : s.entry = some t)
    (hpending : t.timeoutPending = true) (shown : Bool) : Told c { s with
      entry := some { t with timeoutPending := false }
      back := broadcast c s.back .timedOut
      log := logIf shown (.timeoutReported c) s.log } := by
  have htimed := (h.counted t hentry).pending hpending
  obtain ⟨hvotes, hunreported⟩ := h.back_of_entry hentry
  have hnot := (h.counted t hentry).undecided
  obtain ⟨t1, t2, t3, t4, t5, t6, t7, t8, t9⟩ := h.told
  have hnew : ∀ r, Signal.timedOut ∉ s.back r ∧ Event.timeoutReported r ∉ s.log := by
    intro r
    rw [← not_or]
    intro hr
    exact absurd ((t7 r hr).1 t hentry).2 (by simp [hpending])
  clear h
  refine ⟨?_, fun r => pairwise_broadcast _ (hvotes r), ?_, ?_, ?_, ?_, ?_, fun r => ?_,
    fun r => (t9 r).logIf (fun _ => hunreported r) shown⟩
  · show broadcast c s.back .timedOut c = []
    rw [broadcast, if_pos rfl, t1]
  · grind -linarith [Reported]
  · grind -linarith [Decided]
  · grind
  · grind -linarith [logIf, Event.isReport]
  · grind
  · have h1 : (s.back r).count .timedOut = 0 := count_eq_zero.mpr (hnew r).1
    have h2 : s.log.count (.timeoutReported r) = 0 := count_eq_zero.mpr (hnew r).2
    grind -linarith [broadcast, logIf]

/-- The outcome is told: all parties still hold on to their votes, and none has been told before. -/
lemma Inv.told_decide (h : Inv c s) {t : Tally ι} (hentry : s.entry = some t)
    (hcount : t.terminalCount = Fintype.card ι) {shown : Bool}
    (hshown : shown = false → s.shut c = true) : Told c { s with
      entry := none
      pub := update s.pub c none
      tmo := update s.tmo c false
      back := broadcast c s.back (.vote t.outcome)
      log := logIf shown (.reported c t.outcome) (.decided t.outcome :: s.log) } := by
  have hnot := (h.counted t hentry).undecided
  obtain ⟨hvotes, hunreported⟩ := h.back_of_entry hentry
  have hzero := fun r => countP_isReport_eq_zero (hunreported r)
  have hpub : ∀ r, s.pub r ≠ none := by
    intro r
    obtain ⟨v, hv⟩ := (h.justified_outcome hentry hcount).voted r
    obtain hp | hd | hc := h.held.voted r v hv
    · simp [hp]
    · exact absurd hd hnot
    · simp [(h.counted t hentry).unclosed] at hc
  obtain ⟨t1, t2, t3, t4, t5, t6, t7, t8, t9⟩ := h.told
  clear h
  refine ⟨?_, fun r => pairwise_broadcast _ (hvotes r), ?_, ?_, ?_, ?_, ?_, fun r => ?_,
    fun r => ((t9 r).cons (by simp)).logIf (by simp) shown⟩
  · show broadcast c s.back _ c = []
    rw [broadcast, if_pos rfl, t1]
  · grind -linarith [Reported, update_apply]
  · grind -linarith [Decided]
  · grind -linarith [broadcast]
  · grind -linarith [logIf, Event.isReport]
  · grind -linarith [Decided]
  · have h1 := t8 r
    grind -linarith [broadcast, logIf]

lemma Inv.told_learnTimeout (h : Inv c s) {rest : List Signal} (hr : s.back r = .timedOut :: rest)
    (shown : Bool) : Told c { s with
      back := update s.back r rest
      log := logIf shown (.timeoutReported r) s.log } := by
  obtain ⟨t1, t2, t3, t4, t5, t6, t7, t8, t9⟩ := h.told
  have hr' : Signal.timedOut ∈ s.back r := by simp [hr]
  have hunreported : ∀ v, Event.reported r v ∉ s.log := fun v hv => by
    simp [(t5 r v hv).2] at hr'
  have hcount : (s.back r).count .timedOut = rest.count .timedOut + 1 := by
    rw [hr, count_cons_self]
  have hlast := t2 r
  rw [hr, pairwise_cons] at hlast
  clear h
  refine ⟨?_, ?_, ?_, ?_, ?_, ?_, ?_, fun r' => ?_, fun r' => (t9 r').logIf (fun he => ?_) shown⟩
  · grind -linarith [update_apply]
  · grind -linarith [update_apply]
  · grind -linarith [Reported, update_apply]
  · grind -linarith [update_apply]
  · grind -linarith [update_apply]
  · grind -linarith [logIf, Event.isReport]
  · grind -linarith [Decided, update_apply]
  · have h1 := t8 r'
    grind -linarith [logIf, update_apply]
  · simp only [Event.timeoutReported.injEq] at he
    exact he ▸ hunreported

/-- A party is told the outcome, for the first time; nothing follows it. -/
lemma Inv.told_learn (h : Inv c s) {v : Outcome} {rest : List Signal}
    (hr : s.back r = .vote v :: rest) {shown : Bool} (hshown : shown = false → s.shut r = true) :
    Told c { s with
      pub := update s.pub r none
      tmo := update s.tmo r false
      back := update s.back r rest
      log := logIf shown (.reported r v) s.log } := by
  obtain ⟨t1, t2, t3, t4, t5, t6, t7, t8, t9⟩ := h.told
  obtain rfl := rest_nil (t2 r) hr
  obtain ⟨hdec, hpub, hunreported⟩ := t3 r v (by simp [hr])
  have hzero : s.log.countP (Event.isReport r) = 0 :=
    countP_isReport_eq_zero fun w hw => hunreported ⟨w, hw⟩
  clear h
  refine ⟨?_, ?_, ?_, ?_, ?_, ?_, ?_, fun r' => ?_, fun r' => (t9 r').logIf (by simp) shown⟩
  · grind -linarith [update_apply]
  · grind -linarith [update_apply]
  · grind -linarith [Reported, update_apply]
  · grind -linarith [update_apply]
  · grind -linarith [update_apply]
  · grind -linarith [logIf, Event.isReport]
  · grind -linarith [Decided, update_apply]
  · have h1 := t8 r'
    grind -linarith [logIf, update_apply]

lemma Inv.told_step (h : Inv c s) (hstep : Step c s s') : s'.Told c := by
  obtain ⟨t1, t2, t3, t4, t5, t6, t7, t8, t9⟩ := h.told
  cases hstep with
  | vote | timeout =>
    have hdropped := h.held.dropped
    clear h
    refine ⟨t1, t2, ?_, ?_, ?_, ?_, ?_, ?_, fun r' => (t9 r').cons (by simp)⟩ <;>
      grind -linarith [Reported, Decided, Event.isReport, update_apply]
  | voteSelf v hpub hshut hrep =>
    have hbase := fun r => h.announced_getD (h.unvoted (h.not_voted hpub hshut hrep)).2.2
      (h.not_closed (.inl hshut)) (r := r)
    clear h
    refine ⟨t1, t2, ?_, ?_, ?_, ?_, ?_, ?_, fun r' => (t9 r').cons (by simp)⟩ <;>
      grind -linarith [Reported, Decided, Event.isReport, update_apply]
  | timeoutSelf hshut hvote =>
    have hbase := fun r => h.announced_getD (h.unvoted hvote).2.2
      (h.not_closed (.inl hshut)) (r := r)
    clear h
    refine ⟨t1, t2, ?_, ?_, ?_, ?_, ?_, ?_, fun r' => (t9 r').cons (by simp)⟩ <;>
      grind -linarith [Reported, Decided, Event.isReport]
  | receiveVote r v rest hr | receiveTimeout r rest hr =>
    have hne : s.toward r ≠ [] := by simp [hr]
    have hbase := fun r' => h.announced_getD (h.underway.fresh r hne).1
      (h.not_closed (.inr hne)) (r := r')
    clear h
    refine ⟨t1, t2, t3, t4, t5, t6, ?_, t8, t9⟩
    grind
  | announce t shown hentry hpending => exact h.told_announce hentry hpending shown
  | decide t shown hentry hcount _ hshown =>
    exact h.told_decide hentry hcount hshown
  | learnTimeout r rest shown hr => exact h.told_learnTimeout hr shown
  | learn r v rest shown hr hshown => exact h.told_learn hr hshown
  | close hshut htoward =>
    clear h
    refine ⟨t1, t2, ?_, t4, t5, t6, ?_, t8, t9⟩ <;> grind -linarith [Reported, update_apply]
  | giveUp r hclosed hback =>
    clear h
    refine ⟨t1, t2, ?_, t4, t5, t6, t7, t8, t9⟩
    grind -linarith [Reported, update_apply]
  | shutdown r =>
    clear h
    refine ⟨t1, t2, t3, ?_, t5, t6, t7, t8, t9⟩
    grind -linarith [update_apply]
  | poll r =>
    clear h
    refine ⟨t1, t2, ?_, ?_, ?_, ?_, ?_, ?_, fun r' => (t9 r').cons (by simp)⟩ <;>
      grind -linarith [Reported, Decided, Event.isReport]

omit [DecidableEq ι] [Fintype ι] in
lemma VotedFirst.cons {r : ι} {log : List (Event ι)} (h : VotedFirst r log) {e : Event ι}
    (he : ∀ v, e = .reported r v → ∃ w, .voted r w ∈ log) : VotedFirst r (e :: log) := by
  intro v newer older hlog
  cases newer with
  | nil =>
    rw [nil_append, List.cons.injEq] at hlog
    exact hlog.2 ▸ he v hlog.1
  | cons e' newer =>
    rw [cons_append, List.cons.injEq] at hlog
    exact h v newer older hlog.2

omit [DecidableEq ι] [Fintype ι] in
lemma VotedFirst.logIf {log : List (Event ι)} (h : VotedFirst r log) {e : Event ι}
    (he : ∀ v, e = .reported r v → ∃ w, .voted r w ∈ log) (shown : Bool) :
    VotedFirst r (logIf shown e log) := by
  cases shown with
  | false => exact h
  | true => exact h.cons he

lemma Inv.ordered_step (h : Inv c s) (hstep : Step c s s') (r' : ι) : VotedFirst r' s'.log := by
  have ho := h.ordered r'
  cases hstep with
  | vote | voteSelf | timeout | timeoutSelf | poll => exact ho.cons (by simp)
  | announce t shown hentry hpending => exact ho.logIf (by simp) shown
  | decide t shown hentry hcount hpending hshown =>
    refine (ho.cons (by simp)).logIf (fun v _ => ?_) shown
    obtain ⟨w, hw⟩ := (h.justified_outcome hentry hcount).voted r'
    exact ⟨w, mem_cons_of_mem _ hw⟩
  | learnTimeout r rest shown hr => exact ho.logIf (by simp) shown
  | learn r v rest shown hr hshown =>
    refine ho.logIf (fun _ _ => ?_) shown
    exact (h.justified v (h.told.vote r v (by simp [hr])).1).voted r'
  | receiveVote | receiveTimeout | close | giveUp | shutdown => exact ho

/-- **Every step keeps the invariant.** -/
theorem Inv.step (h : Inv c s) (hstep : Step c s s') : Inv c s' :=
  ⟨h.held_step hstep, h.underway_step hstep, h.counted_step hstep, h.justified_step hstep,
    h.told_step hstep, h.ordered_step hstep⟩

theorem Inv.steps (h : Inv c s) (hsteps : Relation.ReflTransGen (Step c) s s') : Inv c s' := by
  induction hsteps with
  | refl => exact h
  | tail _ hstep ih => exact ih.step hstep

/-- Nothing has happened. -/
def start : Slot ι :=
  ⟨fun _ => none, fun _ => false, fun _ => [], fun _ => [], none, [], fun _ => false, false⟩

theorem Inv.start (c : ι) : Inv c (start : Slot ι) where
  held := by constructor <;> simp [Slot.start, Reported]
  underway := by constructor <;> simp [Slot.start]
  counted t ht := by simp [Slot.start] at ht
  justified v hv := by simp [Slot.start] at hv
  told := by constructor <;> simp [Slot.start, Silent]
  ordered r := by simp [Slot.start, VotedFirst]

/-! ### What the invariant says -/

/-- There is one decision. -/
lemma Inv.decided_unique (h : Inv c s) {v w : Outcome}
    (hv : .decided v ∈ s.log) (hw : .decided w ∈ s.log) : v = w := by
  have key : ∀ {v w : Outcome}, .decided v ∈ s.log → .decided w ∈ s.log →
      v = .completed → w = .completed := by
    intro v w hv hw hcompleted
    cases w with
    | completed => rfl
    | failed =>
      obtain ⟨hvotes, htimeouts⟩ := (h.justified v hv).completed hcompleted
      obtain ⟨r, hr⟩ | ⟨r, hr⟩ := (h.justified _ hw).failed rfl
      · exact h.held.unique r _ _ hr (hvotes r)
      · exact absurd hr (htimeouts r)
  cases v with
  | completed => exact (key hv hw rfl).symm
  | failed =>
    cases w with
    | completed => exact key hw hv rfl
    | failed => rfl

/-- What is completed was voted for by all, without a time-out, and conversely. -/
lemma Inv.completed_iff (h : Inv c s) {v : Outcome} (hv : .decided v ∈ s.log) :
    v = .completed ↔ (∀ r, .voted r .completed ∈ s.log) ∧ ∀ r, .timedOut r ∉ s.log := by
  refine ⟨(h.justified v hv).completed, fun ⟨hvotes, htimeouts⟩ => ?_⟩
  cases v with
  | completed => rfl
  | failed =>
    obtain ⟨r, hr⟩ | ⟨r, hr⟩ := (h.justified _ hv).failed rfl
    · exact h.held.unique r _ _ hr (hvotes r)
    · exact absurd hr (htimeouts r)

end TrtLlm.Commitment.Slot
