import TrtLlm.Util.Commitment

/-!
The votes on an item, on their way to the coordinator and in its tally.

* `Inv.held_step`, `Inv.underway_step`: every step keeps what is known of the votes that the parties
  hold on to, and of those in flight;
* `Inv.counted_step`: **the tally counts the votes that have arrived**.
-/

namespace TrtLlm.Commitment.Slot

open List Function Option

variable {ι : Type*} [DecidableEq ι] [Fintype ι]

variable {c r : ι} {s : Slot ι}

/-- Who has been told the outcome has voted, as all have. -/
lemma Inv.voted_of_reported (h : Inv c s) (hr : s.Reported r) (r' : ι) : s.Voted r' := by
  obtain ⟨v, hv⟩ := hr
  exact (h.justified v (h.told.reported r v hv).1).voted r'

/-- A party that has not voted has no vote underway, and neither its vote is counted nor the
outcome decided. -/
lemma Inv.unvoted (h : Inv c s) (hr : ¬s.Voted r) :
    (∀ v, .vote v ∉ s.toward r) ∧ (∀ t, s.entry = some t → t.votes r = none) ∧ ¬s.Decided := by
  refine ⟨fun v hv => hr ⟨v, h.underway.vote r v hv⟩, fun t ht => ?_, fun ⟨v, hv⟩ => ?_⟩
  · cases hvote : t.votes r with
    | none => rfl
    | some v => exact absurd ⟨v, (h.counted t ht).votes r v hvote⟩ hr
  · exact hr ((h.justified v hv).voted r)

/-- A party that may vote has not voted. -/
lemma Inv.not_voted (h : Inv c s) (hpub : s.pub r = none)
    (hshut : s.shut r = false) (hrep : ¬s.Reported r) : ¬s.Voted r := by
  rintro ⟨v, hv⟩
  obtain hp | ⟨w, hw⟩ | hc := h.held.voted r v hv
  · simp [hpub] at hp
  · obtain hback | hr | hs := h.told.decidedAt w hw r
    · exact (h.told.vote r w hback).2.1 hpub
    · exact hrep ⟨w, hr⟩
    · simp [hshut] at hs
  · simp [(h.underway.closed hc).1 r] at hshut

lemma Inv.held_step {s' : Slot ι} (h : Inv c s) (hstep : Step c s s') : s'.Held := by
  have hvoted := fun r => h.voted_of_reported (r := r)
  obtain ⟨h1, h2, h3, h4, h5⟩ := h.held
  cases hstep with
  | vote r v hr hpub hshut hrep =>
    have hnot := h.not_voted hpub hshut hrep
    clear h
    constructor <;> grind -linarith [Reported, Voted, Decided, update_apply]
  | voteSelf v hpub hshut hrep =>
    have hnot := h.not_voted hpub hshut hrep
    clear h
    constructor <;> grind -linarith [Reported, Voted, Decided, update_apply]
  | timeout r hr hshut hvote =>
    have hnot : ¬s.Reported r := fun hrep => hvote (hvoted r hrep r)
    clear h
    constructor <;> grind -linarith [Reported, Decided, update_apply]
  | timeoutSelf hshut hvote =>
    have hnot : ¬s.Reported c := fun hrep => hvote (hvoted c hrep c)
    clear h
    constructor <;> grind -linarith [Reported, Decided, update_apply]
  | receiveVote | receiveTimeout | shutdown => exact ⟨h1, h2, h3, h4, h5⟩
  | announce | learnTimeout | poll =>
    clear h
    constructor <;> grind -linarith [Reported, Decided]
  | decide t shown hentry hcount hpending hshown =>
    clear h
    constructor <;> grind -linarith [Reported, Decided, update_apply]
  | learn r v rest shown hr hshown =>
    have hdec : s.Decided := ⟨v, (h.told.vote r v (by simp [hr])).1⟩
    clear h
    constructor <;> grind -linarith [Reported, Decided, update_apply]
  | close | giveUp =>
    clear h
    constructor <;> grind -linarith [Reported, update_apply]

omit [DecidableEq ι] in
/-- If the count is full, every vote is in. -/
lemma Counted.all {t : Tally ι} (h : s.Counted t)
    (hcount : t.terminalCount = Fintype.card ι) (r : ι) : t.votes r ≠ none := by
  have huniv : (Finset.univ.filter fun r => t.votes r ≠ none) = Finset.univ := by
    rw [← Finset.card_eq_iff_eq_univ, ← h.count, hcount]
  have hmem := Finset.mem_univ r
  rw [← huniv] at hmem
  exact (Finset.mem_filter.mp hmem).2

/-- Then nothing is underway to the coordinator. -/
lemma Inv.toward_nil (h : Inv c s) {t : Tally ι} (hentry : s.entry = some t)
    (hcount : t.terminalCount = Fintype.card ι) (r : ι) : s.toward r = [] := by
  by_contra hne
  exact (h.counted t hentry).all hcount r ((h.underway.fresh r hne).2 t hentry)

omit [DecidableEq ι] [Fintype ι] in
lemma getD_votes {entry : Option (Tally ι)} (h : ∀ t, entry = some t → t.votes r = none) :
    (entry.getD .fresh).votes r = none := by
  cases entry with
  | none => rfl
  | some t => exact h t rfl

/-- Nothing follows a vote. -/
lemma rest_nil {l rest : List Signal} {v : Outcome} (hl : l.Pairwise fun m _ => m = .timedOut)
    (h : l = .vote v :: rest) : rest = [] := by
  rw [h, pairwise_cons] at hl
  refine eq_nil_iff_forall_not_mem.mpr fun m hm => ?_
  exact absurd (hl.1 m hm) (by simp)

lemma Inv.underway_step {s' : Slot ι} (h : Inv c s) (hstep : Step c s s') : s'.Underway c := by
  have hunvoted := fun r => h.unvoted (r := r)
  have hnot := fun r => h.not_voted (r := r)
  have hopen := fun t ht => (h.counted t ht).unclosed
  have hund := fun t ht => (h.counted t ht).undecided
  obtain ⟨u1, u2, u3, u4, u5, u6, u7, u8⟩ := h.underway
  have hnone := fun r hr => getD_votes (u5 r hr).2
  cases hstep with
  | vote r v hr hpub hshut hrep =>
    obtain ⟨a, b, d⟩ := hunvoted r (hnot r hpub hshut hrep)
    have hall : ∀ m ∈ s.toward r, m = .timedOut := fun m hm => by
      cases m with
      | timedOut => rfl
      | vote w => exact absurd hm (a w)
    clear hunvoted hnot
    constructor <;> grind -linarith [Decided, update_apply]
  | voteSelf v hpub hshut hrep =>
    obtain ⟨a, b, d⟩ := hunvoted c (hnot c hpub hshut hrep)
    clear hunvoted hnot h
    constructor <;> grind -linarith [Decided]
  | timeout r hr hshut hvote =>
    obtain ⟨a, b, d⟩ := hunvoted r hvote
    have hall : ∀ m ∈ s.toward r, m = .timedOut := fun m hm => by
      cases m with
      | timedOut => rfl
      | vote w => exact absurd hm (a w)
    clear hunvoted hnot
    constructor <;> grind -linarith [Decided, update_apply]
  | timeoutSelf hshut hvote =>
    obtain ⟨a, b, d⟩ := hunvoted c hvote
    clear hunvoted hnot
    constructor <;> grind -linarith [Decided, update_apply]
  | receiveVote r v rest hr =>
    obtain rfl := rest_nil (u2 r) hr
    clear hunvoted hnot h
    constructor <;> grind -linarith [Decided, update_apply]
  | receiveTimeout r rest hr =>
    clear hunvoted hnot h
    constructor <;> grind -linarith [Decided, update_apply]
  | announce | learnTimeout | learn =>
    clear hunvoted hnot
    constructor <;> grind -linarith [Decided, logIf]
  | decide t shown hentry hcount hpending hshown =>
    have hnil := h.toward_nil hentry hcount
    clear hunvoted hnot h
    constructor <;> grind -linarith [Decided, logIf]
  | close | poll =>
    clear hunvoted hnot
    constructor <;> grind -linarith [Decided]
  | giveUp r hclosed hback => exact ⟨u1, u2, u3, u4, u5, u6, u7, u8⟩
  | shutdown r =>
    clear hunvoted hnot
    constructor <;> grind -linarith [Decided, update_apply]

namespace Counted

variable {s s' : Slot ι} {t : Tally ι}

omit [DecidableEq ι] in
lemma fresh (hd : ¬s.Decided) (hc : s.closed = false) : s.Counted .fresh where
  votes r v h := by simp [Tally.fresh] at h
  count := by simp [Tally.fresh]
  failed := by simp [Tally.fresh]
  timedOut h := by simp [Tally.fresh] at h
  pending h := by simp [Tally.fresh] at h
  undecided := hd
  unclosed := hc

omit [DecidableEq ι] in
/-- The tally counts the same if the log only grows and nothing is decided. -/
lemma mono (h : s.Counted t) (hlog : ∀ e ∈ s.log, e ∈ s'.log) (hd : ¬s'.Decided)
    (hc : s'.closed = false) : s'.Counted t where
  votes r v hv := hlog _ (h.votes r v hv)
  count := h.count
  failed := h.failed
  timedOut ht := by
    obtain ⟨r, hr⟩ := h.timedOut ht
    exact ⟨r, hlog _ hr⟩
  pending := h.pending
  undecided := hd
  unclosed := hc

lemma record (h : s.Counted t) {r : ι} {v : Outcome} (hnone : t.votes r = none)
    (hvoted : .voted r v ∈ s.log) : s.Counted (t.record r v) where
  votes r' v' hv := by
    rw [Tally.record_votes] at hv
    split_ifs at hv with he
    · obtain rfl := some.inj hv
      exact he ▸ hvoted
    · exact h.votes r' v' hv
  count := by
    have hset : (Finset.univ.filter fun r' => (t.record r v).votes r' ≠ none)
        = insert r (Finset.univ.filter fun r' => t.votes r' ≠ none) := by
      ext r'
      simp only [Finset.mem_filter, Finset.mem_univ, true_and, Finset.mem_insert,
        Tally.record_votes]
      split_ifs with he <;> simp [he]
    rw [hset, Finset.card_insert_of_notMem (by simp [hnone]), ← h.count]
    rfl
  failed := by
    show (t.failed || decide (v = .failed)) = true ↔ _
    rw [Bool.or_eq_true, decide_eq_true_eq, h.failed]
    constructor
    · rintro (⟨r', hr'⟩ | rfl)
      · refine ⟨r', ?_⟩
        rw [Tally.record_votes, if_neg fun he => ?_]
        · exact hr'
        · simp [he ▸ hnone] at hr'
      · exact ⟨r, by rw [Tally.record_votes, if_pos rfl]⟩
    · rintro ⟨r', hr'⟩
      rw [Tally.record_votes] at hr'
      split_ifs at hr' with he
      · exact .inr (some.inj hr')
      · exact .inl ⟨r', hr'⟩
  timedOut ht := h.timedOut ht
  pending := h.pending
  undecided := h.undecided
  unclosed := h.unclosed

omit [DecidableEq ι] in
lemma expire (h : s.Counted t) {r : ι} (hlog : .timedOut r ∈ s.log) : s.Counted t.expire := by
  rw [Tally.expire]
  split_ifs
  · exact h
  · exact ⟨h.votes, h.count, h.failed, fun _ => ⟨r, hlog⟩, fun _ => rfl, h.undecided, h.unclosed⟩

end Counted

variable {c : ι} {s : Slot ι}

/-- The tally that the next signal is added to. -/
lemma Inv.counted_getD (h : Inv c s) (hd : ¬s.Decided)
    (hc : s.closed = false) : s.Counted (s.entry.getD .fresh) := by
  cases hentry : s.entry with
  | none => exact .fresh hd hc
  | some t => exact h.counted t hentry

lemma Inv.not_closed (h : Inv c s) {r : ι}
    (hr : s.shut r = false ∨ s.toward r ≠ []) : s.closed = false := by
  by_contra hc
  rw [Bool.not_eq_false] at hc
  obtain ⟨hshut, hnil⟩ := h.underway.closed hc
  obtain hr | hr := hr
  · simp [hshut r] at hr
  · exact hr (hnil r)

lemma Inv.counted_step {s' : Slot ι} (h : Inv c s) (hstep : Step c s s') :
    ∀ t, s'.entry = some t → s'.Counted t := by
  have hkeep : ∀ (e : Event ι) (t : Tally ι), s.entry = some t → (∀ v, e ≠ .decided v) →
      ¬∃ v, .decided v ∈ e :: s.log := by
    rintro e t ht he ⟨v, hv⟩
    obtain hv | hv := mem_cons.mp hv
    · exact he v hv.symm
    · exact (h.counted t ht).undecided ⟨v, hv⟩
  have hmem : ∀ (shown : Bool) (e : Event ι), ∀ e' ∈ s.log, e' ∈ logIf shown e s.log :=
    fun shown e e' he' => mem_logIf.mpr (.inr he')
  cases hstep with
  | vote | timeout | poll =>
    intro t ht
    exact (h.counted t ht).mono (fun _ => mem_cons_of_mem _)
      (hkeep _ t ht (by simp)) (h.counted t ht).unclosed
  | voteSelf v hpub hshut hrep =>
    rintro t ht
    obtain rfl := some.inj ht
    have hnv := h.not_voted hpub hshut hrep
    obtain ⟨-, hnone, hd⟩ := h.unvoted hnv
    have hbase := h.counted_getD hd (h.not_closed (.inl hshut))
    have hd' : ¬∃ w, Event.decided w ∈ Event.voted c v :: s.log := by
      rintro ⟨w, hw⟩
      exact hd ⟨w, by simpa using hw⟩
    refine Counted.record ?_ (getD_votes hnone) mem_cons_self
    exact hbase.mono (fun _ => mem_cons_of_mem _) hd' hbase.unclosed
  | timeoutSelf hshut hvote =>
    rintro t ht
    obtain rfl := some.inj ht
    obtain ⟨-, hnone, hd⟩ := h.unvoted hvote
    have hbase := h.counted_getD hd (h.not_closed (.inl hshut))
    have hd' : ¬∃ w, Event.decided w ∈ Event.timedOut c :: s.log := by
      rintro ⟨w, hw⟩
      exact hd ⟨w, by simpa using hw⟩
    refine Counted.expire ?_ mem_cons_self
    exact hbase.mono (fun _ => mem_cons_of_mem _) hd' hbase.unclosed
  | receiveVote r v rest hr =>
    rintro t ht
    obtain rfl := some.inj ht
    have hne : s.toward r ≠ [] := by simp [hr]
    obtain ⟨hd, hnone⟩ := h.underway.fresh r hne
    have hbase := h.counted_getD hd (h.not_closed (.inr hne))
    have hrecord := hbase.record (getD_votes hnone) (h.underway.vote r v (by simp [hr]))
    exact hrecord.mono (fun _ => id) hd hbase.unclosed
  | receiveTimeout r rest hr =>
    rintro t ht
    obtain rfl := some.inj ht
    have hne : s.toward r ≠ [] := by simp [hr]
    obtain ⟨hd, hnone⟩ := h.underway.fresh r hne
    have hbase := h.counted_getD hd (h.not_closed (.inr hne))
    have hexpire := hbase.expire (h.underway.timeout r (by simp [hr]))
    exact hexpire.mono (fun _ => id) hd hbase.unclosed
  | announce t shown hentry hpending =>
    rintro t' ht'
    obtain rfl := some.inj ht'
    obtain ⟨c1, c2, c3, c4, c5, c6, c7⟩ := h.counted t hentry
    have hcount : s.Counted { t with timeoutPending := false } :=
      ⟨c1, c2, c3, c4, by simp, c6, c7⟩
    refine hcount.mono (hmem _ _) ?_ c7
    rw [Decided, logIf]
    split_ifs
    · exact hkeep _ t hentry (by simp)
    · exact c6
  | decide t shown hentry hcount hpending hshown =>
    intro t ht
    simp at ht
  | learnTimeout | learn =>
    intro t ht
    refine (h.counted t ht).mono (hmem _ _) ?_ (h.counted t ht).unclosed
    rw [Decided, logIf]
    split_ifs
    · exact hkeep _ t ht (by simp)
    · exact (h.counted t ht).undecided
  | close hshut htoward =>
    intro t ht
    simp at ht
  | giveUp | shutdown =>
    intro t ht
    exact (h.counted t ht).mono (fun _ => id) (h.counted t ht).undecided
      (h.counted t ht).unclosed

end TrtLlm.Commitment.Slot
