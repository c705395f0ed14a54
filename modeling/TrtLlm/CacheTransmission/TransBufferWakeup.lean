import TrtLlm.CacheTransmission.TransBuffer

/-!
Which threads are woken for the transfer buffers (`baseTransBuffer.cpp`).

A free that lowers the counter between the test and the block of another thread notifies before
that thread is blocked, and so does not wake it. In the runs where this does not happen every
blocked thread whose predicate holds has a notification to come, or another thread is on its way
to the buffers: with several threads blocked, `notify_one` wakes one of them.

* `Resource.Awake`: the invariant of these runs;
* `transBuffer_spec`: **exclusion, the counter, the search and the wake-ups**.
-/

namespace TrtLlm.TransBuffer

open Function Finset

namespace Resource

variable {T : Type} {n : ℕ} [DecidableEq T]

/-- The step lowers the counter at no time when a thread is between its test and its block. -/
def Calm (s : Resource T n) (a : Action T n) : Prop :=
  ∀ t, a = .lower t → ∀ u, s.phase u ≠ .refused

/-- A step that does not come between the test and the block of another thread. -/
def CalmStep (s s' : Resource T n) : Prop := ∃ a, s.Enabled a ∧ s.Calm a ∧ s' = s.next a

/-- The states of the interleavings with such steps only. These leave out also the runs in which
only the lowering falls between a test and a block: the notification that follows it may come after
the block, and is then not lost. -/
def CalmReaches : Resource T n → Resource T n → Prop := Relation.ReflTransGen CalmStep

omit [DecidableEq T] in
/-- A thread has a notification to come that the blocked ones do not miss. -/
def NotifyComes (s : Resource T n) : Prop :=
  ∃ u, (∃ i, s.phase u = .poisoning i) ∨ s.phase u = .marked

variable [Fintype T]

/-- The invariant of calm runs. A thread about to block has tested a full pool, or one that is
being poisoned. As long as threads are blocked, the room of the pool is spoken for. -/
structure Awake (s : Resource T n) : Prop where
  inv : s.Inv
  full : ∀ t, s.phase t = .refused → s.poisoned = false → n ≤ s.concurrence
  late : ∀ t, s.phase t = .refused → s.poisoned → ∃ u i, s.phase u = .poisoning i
  room : ∀ t, s.phase t = .blocked → s.poisoned = false →
    n ≤ s.concurrence + tally s.phase (· = .lowered) + tally s.phase Phase.Proceeds
  told : ∀ t, s.phase t = .blocked → s.poisoned → s.NotifyComes

namespace Awake

variable {s : Resource T n} (h : s.Awake)
include h

variable {t : T}

/-- One thread goes from phase `q` to phase `p`. -/
lemma change {s' : Resource T n} {q p : Phase n} (hinv : s'.Inv) (hq : s.phase t = q)
    (hphase : s'.phase = update s.phase t p) (hpoisoned : s'.poisoned = s.poisoned)
    (hrefused : p = .refused → s.poisoned = false ∧ n ≤ s'.concurrence)
    (hcalm : s'.concurrence < s.concurrence → ∀ u, s.phase u ≠ .refused)
    (hblocked : p = .blocked → q = .refused)
    (hpoisoning : ∀ i, q = .poisoning i → p = .marked ∧ ∀ u, s.phase u ≠ .refused)
    (hmarked : q ≠ .marked) (hroom : s.poisoned = false → (∃ u, s.phase u = .blocked) →
      n ≤ s'.concurrence + tally s'.phase (· = .lowered) + tally s'.phase Phase.Proceeds ∨
      s.concurrence + (if q = .lowered then 1 else 0) + (if q.Proceeds then 1 else 0)
        ≤ s'.concurrence + (if p = .lowered then 1 else 0) + if p.Proceeds then 1 else 0) :
    s'.Awake := by
  have hat : ∀ {u x}, s'.phase u = x → (u = t ∧ p = x) ∨ (u ≠ t ∧ s.phase u = x) := by
    intro u x hu
    rw [hphase, update_apply] at hu
    split_ifs at hu with hut
    · exact .inl ⟨hut, hu⟩
    · exact .inr ⟨hut, hu⟩
  have hkeep : ∀ {u x}, s.phase u = x → q ≠ x → s'.phase u = x := by
    intro u x hu hne
    rw [hphase, update_of_ne, hu]
    rintro rfl
    exact hne (hq.symm.trans hu)
  refine ⟨hinv, fun u hu hp => ?_, fun u hu hp => ?_, fun u hu hp => ?_, fun u hu hp => ?_⟩
  · rw [hpoisoned] at hp
    obtain ⟨-, hu⟩ | ⟨-, hu⟩ := hat hu
    · exact (hrefused hu).2
    · have hfull := h.full u hu hp
      by_contra hlt
      exact hcalm (by omega) u hu
  · rw [hpoisoned] at hp
    obtain ⟨-, hu⟩ | ⟨-, hu⟩ := hat hu
    · rw [(hrefused hu).1] at hp
      cases hp
    · obtain ⟨v, i, hv⟩ := h.late u hu hp
      exact ⟨v, i, hkeep hv fun hqi => (hpoisoning i hqi).2 u hu⟩
  · rw [hpoisoned] at hp
    have hlowered := tally_update (p := (· = .lowered)) s.phase t p
    have hproceeds := tally_update (p := Phase.Proceeds) s.phase t p
    rw [← hphase, hq] at hlowered hproceeds
    obtain ⟨-, hu⟩ | ⟨-, hu⟩ := hat hu
    · have hrefused := hq.trans (hblocked hu)
      have hfull := h.full t hrefused hp
      have : ¬ s'.concurrence < s.concurrence := fun hlt => hcalm hlt t hrefused
      omega
    · have hold := h.room u hu hp
      obtain hfull | hle := hroom hp ⟨u, hu⟩
      · exact hfull
      · split_ifs at hlowered hproceeds hle <;> omega
  · rw [hpoisoned] at hp
    obtain ⟨-, hu⟩ | ⟨-, hu⟩ := hat hu
    · obtain ⟨v, i, hv⟩ := h.late t (hq.trans (hblocked hu)) hp
      exact ⟨v, .inl ⟨i, hkeep hv (by simp [hblocked hu])⟩⟩
    · obtain ⟨v, ⟨i, hv⟩ | hv⟩ := h.told u hu hp
      · by_cases hqi : q = .poisoning i
        · refine ⟨t, .inr ?_⟩
          rw [hphase, update_self, (hpoisoning i hqi).1]
        · exact ⟨v, .inl ⟨i, hkeep hv hqi⟩⟩
      · exact ⟨v, .inr (hkeep hv hmarked)⟩

omit [DecidableEq T] in
/-- No thread is between its test and its block while the mutex is free. -/
lemma not_refused (hmutex : s.mutex = none) (u : T) : s.phase u ≠ .refused :=
  fun hu => h.inv.not_hasMutex hmutex u (.inr hu)

lemma test (hen : s.Enabled (.test t)) : (s.next (.test t)).Awake := by
  have hinv := h.inv.test hen
  obtain ⟨hphase, hmutex⟩ := hen
  have hnonneg : 0 ≤ s.concurrence := by
    have := h.inv.count
    omega
  by_cases hpred : s.predicate
  · have hnext : (s.next (.test t)).phase = update s.phase t .admitted := by
      simp [next, hpred]
    obtain hphase | hphase := hphase <;>
    · refine h.change hinv hphase hnext rfl (by simp) (fun hlt => absurd hlt (lt_irrefl _))
        (by simp)
        (by simp) (by simp) fun _ _ => .inr ?_
      simp [next, Phase.Proceeds]
  · have hnext : (s.next (.test t)).phase = update s.phase t .refused := by
      simp [next, hpred]
    have hfull : s.poisoned = false ∧ n ≤ s.concurrence := by
      simp only [predicate, Bool.or_eq_true, Bool.and_eq_true, decide_eq_true_eq, not_or,
        not_and, not_lt] at hpred
      exact ⟨by simpa using hpred.1, hpred.2 hnonneg⟩
    have hroom : ∀ a b : ℕ, (n : ℤ) ≤ s.concurrence + a + b := fun a b => by
      have := hfull.2
      omega
    obtain hphase | hphase := hphase <;>
      exact h.change hinv hphase hnext rfl (fun _ => hfull) (fun hlt => absurd hlt (lt_irrefl _))
        (by simp) (by simp) (by simp) fun _ _ => .inl (hroom _ _)

lemma block (hen : s.Enabled (.block t)) : (s.next (.block t)).Awake := by
  refine h.change (h.inv.block hen) hen rfl rfl (by simp) (fun hlt => absurd hlt (lt_irrefl _))
    (fun _ => rfl) (by simp) (by simp) fun _ _ => .inr ?_
  simp [next, Phase.Proceeds]

lemma wake (hen : s.Enabled (.wake t)) : (s.next (.wake t)).Awake := by
  refine h.change (h.inv.wake hen) hen rfl rfl (by simp) (fun hlt => absurd hlt (lt_irrefl _))
    (by simp) (by simp) (by simp) fun _ _ => .inr ?_
  simp [next, Phase.Proceeds]

lemma assign (hen : s.Enabled (.assign t)) : (s.next (.assign t)).Awake := by
  have hinv := h.inv.assign hen
  change s.phase t = .admitted at hen
  by_cases hpoisoned : s.poisoned
  · have hnext : s.next (.assign t) = { s.setPhase t .outside with mutex := none } := by
      simp [next, hpoisoned]
    rw [hnext] at hinv ⊢
    exact h.change hinv hen rfl rfl (by simp) (fun hlt => absurd hlt (lt_irrefl _)) (by simp)
      (by simp) (by simp) fun hfalse => absurd hpoisoned (by simp [hfalse])
  · obtain ⟨i, hi⟩ := h.inv.room t hen (by simpa using hpoisoned)
    cases hsearch : s.search with
    | none =>
      have := List.find?_eq_none.1 hsearch i (List.mem_finRange i)
      simp [hi] at this
    | some j =>
      have hconc : (s.next (.assign t)).concurrence = s.concurrence + 1 := by
        simp [next, hpoisoned, hsearch]
      refine h.change (p := .outside) hinv hen (by simp [next, hpoisoned, hsearch])
        (by simp [next, hpoisoned, hsearch, setPhase]) (by simp) (fun hlt => by omega) (by simp)
        (by simp) (by simp) fun _ _ => .inr ?_
      simp [hconc, Phase.Proceeds]

lemma clear {i : Fin n} (hen : s.Enabled (.clear t i)) : (s.next (.clear t i)).Awake := by
  have hinv := h.inv.clear hen
  obtain ⟨hphase, hheld, hmutex⟩ := hen
  have hflag : s.flag i ≠ .poisoned := by simp [h.inv.flag_of_mem hheld]
  refine h.change (p := .cleared) hinv hphase (by simp [next, hflag])
    (by simp [next, hflag, setPhase]) (by simp) (fun hlt => ?_) (by simp) (by simp) (by simp)
    fun _ _ => .inr ?_
  · simp [next, hflag] at hlt
  · simp [next, hflag, Phase.Proceeds]

lemma lower (hen : s.Enabled (.lower t)) (hcalm : s.Calm (.lower t)) :
    (s.next (.lower t)).Awake := by
  refine h.change (h.inv.lower hen) hen rfl rfl (by simp) (fun _ => hcalm t rfl) (by simp)
    (by simp) (by simp) fun _ _ => .inr ?_
  simp [next, Phase.Proceeds]

lemma mark (hen : s.Enabled (.mark t)) : (s.next (.mark t)).Awake := by
  have hinv := h.inv.mark hen
  obtain ⟨⟨i, hphase⟩, hmutex⟩ := hen
  refine h.change (p := .marked) hinv hphase (by simp [next, hphase])
    (by simp [next, hphase, setPhase]) (by simp) (fun _ => h.not_refused hmutex) (by simp)
    (fun _ _ => ⟨rfl, h.not_refused hmutex⟩) (by simp) fun _ _ => .inr ?_
  simp [next, hphase, Phase.Proceeds]

lemma notifyOne {woken : Option T} (hen : s.Enabled (.notifyOne t woken)) :
    (s.next (.notifyOne t woken)).Awake := by
  have hinv := h.inv.notifyOne hen
  cases woken with
  | none =>
    obtain ⟨hphase, hnone⟩ := hen
    exact h.change hinv hphase rfl rfl (by simp) (fun hlt => absurd hlt (lt_irrefl _)) (by simp)
      (by simp) (by simp) fun _ ⟨u, hu⟩ => absurd hu (hnone u)
  | some v =>
    obtain ⟨hphase, hv⟩ := hen
    have hne : t ≠ v := by
      rintro rfl
      simp [hphase] at hv
    have hphase' : update s.phase v .woken t = .lowered := by
      rw [update_of_ne hne, hphase]
    have hnext : (s.next (.notifyOne t (some v))).phase
        = update (update s.phase v .woken) t .outside :=
      update_comm hne _ _ _
    refine (h.wake hv).change hinv hphase' hnext rfl (by simp)
      (fun hlt => absurd hlt (lt_irrefl _)) (by simp) (by simp) (by simp)
      fun hpoisoned _ => .inl ?_
    -- One notification less is still to come, and one thread more is on its way.
    have hroom := h.room v hv hpoisoned
    have hlowered := tally_update (p := (· = .lowered)) s.phase v .woken
    have hproceeds := tally_update (p := Phase.Proceeds) s.phase v .woken
    have hlowered' := tally_update (p := (· = .lowered)) (update s.phase v .woken) t
      .outside
    have hproceeds' := tally_update (p := Phase.Proceeds) (update s.phase v .woken) t
      .outside
    rw [← hnext, hphase'] at hlowered' hproceeds'
    rw [hv] at hlowered hproceeds
    rw [if_neg (by simp), if_neg (by simp)] at hlowered
    rw [if_neg (by simp [Phase.Proceeds]), if_pos (.inl rfl)] at hproceeds
    rw [if_pos rfl, if_neg (by simp)] at hlowered'
    rw [if_neg (by simp [Phase.Proceeds]), if_neg (by simp [Phase.Proceeds])] at hproceeds'
    change n ≤ s.concurrence + _ + _
    omega

lemma store {i : Fin n} (hen : s.Enabled (.store t i)) : (s.next (.store t i)).Awake := by
  have ht : (s.next (.store t i)).phase t = .poisoning i := update_self _ _ _
  exact ⟨h.inv.store hen, fun _ _ hp => Bool.noConfusion hp, fun _ _ _ => ⟨t, i, ht⟩,
    fun _ _ hp => Bool.noConfusion hp, fun _ _ _ => ⟨t, .inl ⟨i, ht⟩⟩⟩

lemma notifyAll (hen : s.Enabled (.notifyAll t)) : (s.next (.notifyAll t)).Awake := by
  have hinv := h.inv.notifyAll hen
  change s.phase t = .marked at hen
  have hnone : ∀ u, (s.next (.notifyAll t)).phase u ≠ .blocked := by
    intro u hu
    dsimp only [next] at hu
    split_ifs at hu with hut hblocked
    exact hblocked hu
  have hrefused : ∀ u, (s.next (.notifyAll t)).phase u = .refused → s.phase u = .refused := by
    intro u hu
    dsimp only [next] at hu
    split_ifs at hu
    exact hu
  refine ⟨hinv, fun u hu => h.full u (hrefused u hu), fun u hu hp => ?_,
    fun u hu => absurd hu (hnone u), fun u hu => absurd hu (hnone u)⟩
  obtain ⟨v, i, hv⟩ := h.late u (hrefused u hu) hp
  refine ⟨v, i, ?_⟩
  dsimp only [next]
  rw [if_neg (by rintro rfl; simp [hen] at hv), if_neg (by simp [hv]), hv]

/-- **Every calm step keeps the invariant.** -/
theorem step {s' : Resource T n} (hstep : CalmStep s s') : s'.Awake := by
  obtain ⟨a, hen, hcalm, rfl⟩ := hstep
  cases a with
  | test t => exact h.test hen
  | block t => exact h.block hen
  | assign t => exact h.assign hen
  | wake t => exact h.wake hen
  | clear t i => exact h.clear hen
  | lower t => exact h.lower hen hcalm
  | notifyOne t woken => exact h.notifyOne hen
  | store t i => exact h.store hen
  | mark t => exact h.mark hen
  | notifyAll t => exact h.notifyAll hen

end Awake

variable {s : Resource T n}

omit [DecidableEq T] in
lemma awake_init : (init T n).Awake := by
  refine ⟨inv_init, ?_, ?_, ?_, ?_⟩ <;> exact fun _ h => nomatch h

/-- The invariant holds in every calm run. -/
lemma awake_of_calmReaches (h : CalmReaches (init T n) s) : s.Awake := by
  induction h with
  | refl => exact awake_init
  | tail _ hstep ih => exact ih.step hstep

omit [DecidableEq T] in
/-- **The wake-ups of calm runs**: a blocked thread whose predicate holds has a notification to
come, or another thread is on its way. -/
lemma Awake.wakes (h : s.Awake) {t : T} (ht : s.phase t = .blocked) (hpred : s.predicate) :
    (∃ u, u ≠ t ∧ (s.phase u).Notifies) ∨ ∃ u, (s.phase u).Proceeds := by
  have hne : ∀ {u}, (s.phase u).Notifies → u ≠ t := by
    rintro u hu rfl
    rw [ht] at hu
    exact hu
  cases hpoisoned : s.poisoned with
  | true =>
    obtain ⟨u, hu⟩ := h.told t ht hpoisoned
    have hnotifies : (s.phase u).Notifies := by
      obtain ⟨i, hu⟩ | hu := hu <;> rw [hu] <;> trivial
    exact .inl ⟨u, hne hnotifies, hnotifies⟩
  | false =>
    have hroom := h.room t ht hpoisoned
    simp only [predicate, hpoisoned, Bool.false_or, Bool.and_eq_true, decide_eq_true_eq] at hpred
    obtain hlowered | hproceeds : 0 < tally s.phase (· = .lowered)
        ∨ 0 < tally s.phase Phase.Proceeds := by omega
    · obtain ⟨u, hu⟩ := exists_of_tally_pos hlowered
      have hnotifies : (s.phase u).Notifies := by
        rw [hu]
        trivial
      exact .inl ⟨u, hne hnotifies, hnotifies⟩
    · exact .inr (exists_of_tally_pos hproceeds)

/-! ### After poisoning -/

/-- What stays so after poisoning. -/
structure Later (s s' : Resource T n) : Prop where
  flag : ∀ i, s.flag i = .poisoned → s'.flag i = .poisoned
  poisoned : s.poisoned → s'.poisoned
  held : s.poisoned → ∀ t, s'.held t ⊆ s.held t

omit [DecidableEq T] [Fintype T] in
lemma Later.refl (s : Resource T n) : s.Later s :=
  ⟨fun _ => id, id, fun _ _ => subset_rfl⟩

omit [DecidableEq T] [Fintype T] in
lemma Later.trans {s₁ s' : Resource T n} (h : s.Later s₁) (h' : s₁.Later s') : s.Later s' :=
  ⟨fun i hi => h'.flag i (h.flag i hi), fun hp => h'.poisoned (h.poisoned hp),
    fun hp t => (h'.held (h.poisoned hp) t).trans (h.held hp t)⟩

omit [Fintype T] in
lemma drop_subset (s : Resource T n) (t : T) (i : Fin n) (u : T) : s.drop t i u ⊆ s.held u :=
  fun j hj => ((s.mem_drop t u i j).1 hj).1

omit [Fintype T] in
/-- A step changes no poisoned flag, and a poisoned pool assigns nothing. -/
lemma later_next (s : Resource T n) (a : Action T n) : s.Later (s.next a) := by
  cases a with
  | test | block | wake | lower | notifyAll => exact ⟨fun _ => id, id, fun _ _ => subset_rfl⟩
  | notifyOne t woken =>
    cases woken <;> exact ⟨fun _ => id, id, fun _ _ => subset_rfl⟩
  | store t i => exact ⟨fun _ => id, fun _ => rfl, fun _ _ => subset_rfl⟩
  | assign t =>
    dsimp only [next]
    split_ifs with hpoisoned
    · exact ⟨fun _ => id, id, fun _ _ => subset_rfl⟩
    · cases hsearch : s.search with
      | none => exact ⟨fun _ => id, id, fun _ _ => subset_rfl⟩
      | some j =>
        have hfree : s.flag j = .free := by simpa using List.find?_some hsearch
        refine ⟨fun i hi => ?_, id, fun hp => absurd hp hpoisoned⟩
        dsimp only
        rw [update_of_ne, hi]
        rintro rfl
        simp [hfree] at hi
  | clear t i =>
    dsimp only [next]
    split_ifs with hflag
    · exact ⟨fun _ => id, id, fun _ u => s.drop_subset t i u⟩
    · refine ⟨fun j hj => ?_, id, fun _ u => s.drop_subset t i u⟩
      dsimp only
      rw [update_of_ne, hj]
      rintro rfl
      exact hflag hj
  | mark t =>
    dsimp only [next]
    split
    · rename_i i _
      refine ⟨fun j hj => ?_, id, fun _ u => s.drop_subset t i u⟩
      dsimp only
      split_ifs with hflag
      · rw [update_apply]
        split_ifs
        · rfl
        · exact hj
      · exact hj
    · exact Later.refl s

omit [Fintype T] in
lemma later_of_reaches {s' : Resource T n} (h : Reaches s s') : s.Later s' := by
  induction h with
  | refl => exact Later.refl s
  | tail _ hstep ih =>
    obtain ⟨a, -, rfl⟩ := hstep
    exact ih.trans (later_next _ a)

omit [DecidableEq T] in
/-- The flags that are set are those of the indices that threads hold and of the poisoned ones. -/
lemma Inv.tally_flag (h : s.Inv) : tally s.flag (· ≠ .free)
      = (univ.filter fun i => (∃ t, i ∈ s.held t) ∨ s.flag i = .poisoned).card := by
  unfold tally
  congr 1
  refine filter_congr fun i _ => ?_
  rw [← h.assigned_iff]
  cases s.flag i <;> simp

end Resource

open Resource in
/-- **The pool of transfer buffers in every interleaving.** No two threads hold one index. An index
that is poisoned while a thread holds it is never held again, and nothing is assigned after
poisoning. The counter is the number of indices held or poisoned as long as no free is between its
two updates. The search of `assignBufferIndex` never fails. In the runs in which no free lowers the
counter between the test and the block of a thread, a blocked thread whose predicate holds has a
notification of another thread to come, or a thread is on its way to the buffers. -/
theorem transBuffer_spec {T : Type} [DecidableEq T] [Fintype T] {n : ℕ} {s : Resource T n}
    (h : Reaches (init T n) s) :
    (∀ t u i, i ∈ s.held t → i ∈ s.held u → t = u)
      ∧ (∀ t i, s.phase t = .poisoning i → (s.next (.mark t)).flag i = .poisoned)
      ∧ (∀ s', Reaches s s' → (∀ i, s.flag i = .poisoned → ∀ t, i ∉ s'.held t)
        ∧ (s.poisoned → ∀ t, s'.held t ⊆ s.held t))
      ∧ ((∀ t, s.phase t ≠ .cleared) → s.concurrence
        = (univ.filter fun i => (∃ t, i ∈ s.held t) ∨ s.flag i = .poisoned).card)
      ∧ (∀ t, s.phase t ≠ .failed)
      ∧ (CalmReaches (init T n) s → ∀ t, s.phase t = .blocked → s.predicate →
        (∃ u, u ≠ t ∧ (s.phase u).Notifies) ∨ ∃ u, (s.phase u).Proceeds) := by
  have hinv := inv_of_reaches h
  refine ⟨hinv.exclusive, fun t i hphase => ?_, fun s' hs' => ⟨fun i hi t ht => ?_, ?_⟩,
    fun hcleared => ?_, hinv.searched, fun hcalm t ht => (awake_of_calmReaches hcalm).wakes ht⟩
  · have hflag := hinv.flag_of_mem (hinv.poisoning t i hphase).1
    simp [next, hphase, hflag]
  · have hassigned := (inv_of_reaches (h.trans hs')).flag_of_mem ht
    simp [(later_of_reaches hs').flag i hi] at hassigned
  · exact (later_of_reaches hs').held
  · have hcount := hinv.count
    have hphases : tally s.phase (· = .cleared) = 0 := tally_eq_zero hcleared
    rw [hinv.tally_flag, hphases] at hcount
    simpa using hcount

/-! ### Missed wake-ups -/

section Runs

local instance (priority := 2000) oneBuffer : NeZero (0 + 1) := ⟨Nat.succ_ne_zero 0⟩

local instance (priority := 2000) twoThreads : NeZero (1 + 1) := ⟨Nat.succ_ne_zero 1⟩

/-- One thread has the only buffer, another one is blocked, and the first one frees it. -/
def oneWaits : List (Action (Fin 2) 1) :=
  [.test 0, .assign 0, .test 1, .block 1, .clear 0 0, .lower 0]

local instance (priority := 2000) threeThreads : NeZero (2 + 1) := ⟨Nat.succ_ne_zero 2⟩

/-- As before, with a third thread that is blocked as well, and one of the two woken. -/
def twoWait : List (Action (Fin 3) 1) :=
  [.test 0, .assign 0, .test 1, .block 1, .test 2, .block 2, .clear 0 0, .lower 0,
    .notifyOne 0 (some 1)]

/-- The counter goes down, and the notification out, between a test and a block. -/
def lateBlock : List (Action (Fin 2) 1) :=
  [.test 0, .assign 0, .clear 0 0, .test 1, .lower 0, .notifyOne 0 none, .block 1]

end Runs

open Resource in
/-- The theorem where a blocked thread waits for the notification of the other one. -/
theorem transBuffer_spec_oneWaits :
    (∃ u, u ≠ 1 ∧ ((oneWaits.foldl next (init (Fin 2) 1)).phase u).Notifies)
      ∨ ∃ u, ((oneWaits.foldl next (init (Fin 2) 1)).phase u).Proceeds := by
  have hcalm : CalmReaches (init (Fin 2) 1) (oneWaits.foldl next (init (Fin 2) 1)) := by
    refine .head ⟨.test 0, by decide, (fun t ht => nomatch ht), rfl⟩ ?_
    refine .head ⟨.assign 0, by decide, (fun t ht => nomatch ht), rfl⟩ ?_
    refine .head ⟨.test 1, by decide, (fun t ht => nomatch ht), rfl⟩ ?_
    refine .head ⟨.block 1, by decide, (fun t ht => nomatch ht), rfl⟩ ?_
    refine .head ⟨.clear 0 0, by decide, (fun t ht => nomatch ht), rfl⟩ ?_
    exact .single ⟨.lower 0, by decide, fun t _ => by decide, rfl⟩
  exact (transBuffer_spec (reaches_foldl (by decide))).2.2.2.2.2 hcalm 1 (by decide) (by decide)

open Resource in
/-- **Blocked threads that no notification is to come for.** With two of them and one buffer freed,
the one that is not woken is in such a state while the other is on its way. And when the counter is
lowered between the test and the block of a thread, no thread is on its way. -/
theorem transBuffer_missed :
    (∃ s : Resource (Fin 3) 1, Reaches (init _ _) s ∧ s.phase 2 = .blocked ∧ s.predicate
      ∧ ∀ u, ¬ (s.phase u).Notifies)
    ∧ ∃ s : Resource (Fin 2) 1, Reaches (init _ _) s ∧ s.phase 1 = .blocked ∧ s.predicate
      ∧ ∀ u, ¬ (s.phase u).Notifies ∧ ¬ (s.phase u).Proceeds := by
  refine ⟨⟨twoWait.foldl next (init _ _), reaches_foldl (by decide), ?_⟩,
    ⟨lateBlock.foldl next (init _ _), reaches_foldl (by decide), ?_⟩⟩
  · decide
  · decide

end TrtLlm.TransBuffer
