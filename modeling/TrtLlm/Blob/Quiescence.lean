import TrtLlm.Blob.Recording

/-!
What an attempt knows when it quiesces and when its outcome lands.

* `Attempt.Ok.handOver`, `Attempt.Ok.driverReturns` and their like: every function of an attempt
  keeps the invariant;
* `Attempt.Ok.accessOver`: **a quiesced attempt has the evidence for each of its calls**;
* `Attempt.Ok.delivered_of_poll`: **a row of a polled outcome was delivered**.
-/

namespace TrtLlm.Blob.Attempt

open List Option Nat

variable {A : Attempt} {g i row : ℕ}

section

variable (h : A.Ok)
include h

/-- **A call that fails as a whole**: without a break it was refused or never handed over. -/
lemma Ok.failCall (hlt : i < A.freshFrom) {reason : String}
    {broke : Bool} (hover : broke = false → ∀ call, A.calls[i]? = some call →
      .refused ∈ call.history ∨ .handed ∉ call.history) : A.Good (A.failCall i reason broke) := by
  have hgood : A.Good (A.recordLocked i
      (some (CallResults.noneDelivered ((A.calls[i]?.map Call.rows).getD 0) (some reason)))
        (!broke) broke true) := by
    refine h.recordLocked hlt (fun R hR call _ row _ _ hmark => ?_) fun hended call hcall _ _ => ?_
    · obtain rfl := some.inj hR
      exact absurd hmark noneDelivered_ready
    · refine AccessOver.append ?_ (by simp)
      exact (hover (by simpa using hended) call hcall).imp_right Or.inl
  simp only [Attempt.failCall]
  split_ifs with hbroke
  · subst hbroke
    refine hgood.trans (hgood.ok.modifyCall (fun c hc => ?_) fun c hle _ => ?_)
    · exact c.quiet_note nofun fun _ => held_of_recordLocked c hc
    · rw [freshFrom_recordLocked] at hle
      exact absurd hle hlt.not_ge
  · exact hgood

/-! ### Every step of an attempt -/

/-- A call that has a history is behind the submitting thread. -/
lemma Ok.lt_freshFrom {c : Call} (hc : A.calls[i]? = some c)
    (hused : c.history ≠ [] ∨ c.reports ≠ []) : i < A.freshFrom := by
  by_contra hle
  have hf := h.fresh i c (not_lt.mp hle) hc
  exact hused.elim (fun hne => hne hf.history) fun hne => hne hf.reports

/-- The outcome is forced on an attempt that has none. -/
lemma Ok.forceOutcome (reason : String) : A.Good (A.forceOutcome reason) := by
  rw [Attempt.forceOutcome]
  split_ifs with hdue
  · have hgood : ∀ fault,
      A.Good { A.stop with outcome := some (.copied ⟨A.masks, some fault⟩) } := by
      intro fault
      refine ⟨⟨h.call, h.awaitingResults, h.awaitingEnd, h.quiesced, nofun, h.delivered,
        fun o ho => ?_, h.tracked, h.fresh, h.failing⟩,
        extends_of_calls_eq rfl rfl id fun o ho => ?_⟩
      · obtain rfl := Landed.copied.inj (some.inj ho)
        exact h.delivered
      · rw [poll, hdue.2] at ho
        exact absurd ho.symm (some_ne_none o)
    exact (hgood _).trans (hgood _).ok.concludeOrQuiesceAndRetire
  · exact h.good

lemma Ok.forwardCancels : A.Good A.forwardCancels := by
  rw [Attempt.forwardCancels]
  split_ifs
  · have hall : ∀ (i : ℕ) (c c' : Call), A.calls[i]? = some c → (A.calls.map fun c =>
        if c.op ≠ none ∧ c.resultsRecorded = false ∧ c.cancelForwarded = false then
          { c with cancelForwarded := true } else c)[i]? = some c' → c.Quiet c' := by
      intro i c c' hc hc'
      rw [getElem?_map, hc] at hc'
      obtain rfl := some.inj hc'
      beta_reduce
      split_ifs
      · exact c.quiet_op c.op true
      · exact Call.Quiet.refl c
    refine h.mapCalls (length_map ..) (fun i c c' hc hc' => (hall i c c' hc hc').toKeeps)
      (fun i c c' _ hc hc' hf => ?_) fun reason _ c c' hc hc' => hall _ c c' hc hc'
    · rw [getElem?_map, hc] at hc'
      obtain rfl := some.inj hc'
      beta_reduce
      split_ifs
      · exact ⟨hf.history, hf.reports, hf.accessEndRecorded⟩
      · exact hf
  · exact h.good

/-- A notification of the driver. -/
lemma Ok.notify (i : ℕ) (q : QueryAnswers) : A.Good (A.notify i q) := by
  refine h.modifyCall (fun c hc => ?_) fun c _ hf => ?_
  · split_ifs with hhanded
    · obtain ⟨h₁, h₂, h₃⟩ := queryReport_spec c.rows q
      refine c.quiet_reported h₁ (fun hbreak => absurd hbreak h₂) fun r hr => ?_
      obtain hr | hr := mem_append.mp hr
      · exact Or.inl hr
      · obtain rfl := mem_singleton.mp hr
        exact Or.inr h₃
    · exact Call.Quiet.refl c
  · have hnot : .handed ∉ c.history := by
      rw [hf.history]
      exact not_mem_nil
    rwa [if_neg hnot]

/-- A report gets the lock. -/
lemma Ok.recordReport (i n : ℕ) : A.Good (A.recordReport i n) := by
  rw [Attempt.recordReport]
  cases hreport : A.calls[i]?.bind fun c => c.reports[n]? with
  | none => exact h.good
  | some report =>
    obtain ⟨c, hc, hr⟩ := bind_eq_some_iff.mp hreport
    have hmem : report ∈ c.reports := mem_of_getElem? hr
    have hbacked := (h.call c (mem_of_getElem? hc)).backed report hmem
    have hlt := h.lt_freshFrom hc (Or.inr (ne_nil_of_mem hmem))
    have hdrop : A.Good (A.modifyCall i fun c => { c with reports := c.reports.eraseIdx n }) :=
      h.modifyCall (fun c _ => c.quiet_dropReport n) fun c hle _ => absurd hle hlt.not_ge
    have hget : ∀ call,
        (A.modifyCall i fun c => { c with reports := c.reports.eraseIdx n }).calls[i]?
        = some call → call = { c with reports := c.reports.eraseIdx n } := by
      intro call hcall
      obtain ⟨c', hc', rfl⟩ := getElem?_modify_iff.mp hcall
      obtain rfl := some.inj (hc.symm.trans hc')
      rw [if_pos rfl]
    have hlt' :
        i < (A.modifyCall i fun c => { c with reports := c.reports.eraseIdx n }).freshFrom := by
      rwa [freshFrom_modifyCall]
    cases report with
    | broken reason => exact hdrop.trans (hdrop.ok.failCall hlt' nofun)
    | answers results ended unprovable =>
      refine hdrop.trans (hdrop.ok.recordLocked hlt' (fun R hR call hcall row h₁ h₂ hmark => ?_)
        fun hended call hcall hopen hprovable => ?_)
      · obtain ⟨rows, hrows, rfl⟩ := hbacked.2 R hR
        rw [CallResults.ready_of, getElem?_map, map_eq_some_iff] at hmark
        obtain ⟨r, hr, hready⟩ := hmark
        obtain rfl := of_decide_eq_true hready
        refine ⟨call, mem_of_getElem? hcall, rfl, h₁, h₂, rows, ?_, hr⟩
        rw [hget call hcall]
        exact hrows
      · rw [hget call hcall] at hopen hprovable ⊢
        refine Or.inr (Or.inr ⟨c.history, [], rfl, hbacked.1 hended, fun hbreak => ?_⟩)
        have hheld := (h.call c (mem_of_getElem? hc)).broken hbreak
        exact hheld.elim (fun h' => Bool.false_ne_true (hprovable.symm.trans h'))
          fun h' => Bool.false_ne_true (hopen.symm.trans h')

/-- A call is handed over. -/
lemma Ok.handed (hthread : A.thread = .reading) :
    A.Good { A.modifyCall A.taken.length (Call.note .handed) with thread := .calling } := by
  have hfrom : A.freshFrom = A.taken.length := by rw [freshFrom, hthread]
  have hgo : A.Good { A with thread := .calling } :=
    h.goOn (fun i _ hle => hfrom.le.trans (le_of_succ_le hle)) fun _ => HandOver.noConfusion
  refine hgo.trans (hgo.ok.mapCalls (length_modify ..) (fun i c c' hc hc' => ?_)
    (fun i c c' hle hc hc' hf => ?_) fun _ => HandOver.noConfusion)
  · obtain ⟨x, hx, rfl⟩ := getElem?_modify_iff.mp hc'
    obtain rfl := some.inj (hx.symm.trans hc)
    split_ifs with hi
    · have hf := h.fresh i x (hfrom.trans hi).le hx
      refine ⟨⟨rfl, rfl, rfl, fun _ hn => mem_append_left _ hn⟩, rfl, rfl, fun hok => ?_⟩
      refine ⟨fun hend => absurd (hf.accessEndRecorded.symm.trans hend) Bool.false_ne_true,
        fun hbreak => ?_, fun r hr => ?_⟩
      · exact (mem_append.mp hbreak).elim hok.broken (by simp)
      · exact (hok.backed r hr).mono fun _ hn => mem_append_left _ hn
    · exact (Call.Quiet.refl x).toKeeps
  · obtain ⟨x, hx, rfl⟩ := getElem?_modify_iff.mp hc'
    obtain rfl := some.inj (hx.symm.trans hc)
    have hne : A.taken.length ≠ i := (lt_of_succ_le hle).ne
    rwa [if_neg hne]

/-- The calls get their handles. -/
lemma Ok.storeOps (hthread : A.thread = .storing) : A.Good { A with
      calls := A.calls.mapIdx fun i c => { c with op := A.taken[i]? <|> c.op }
      thread := .returned } := by
  have hfrom : A.freshFrom = A.calls.length := by rw [freshFrom, hthread]
  have hgo : A.Good { A with thread := .returned } :=
    h.goOn (fun i hlt hle => hfrom.le.trans hle) fun _ => HandOver.noConfusion
  have hall : ∀ (i : ℕ) (c c' : Call), A.calls[i]? = some c →
      (A.calls.mapIdx fun i c => { c with op := A.taken[i]? <|> c.op })[i]? = some c' →
        c' = { c with op := A.taken[i]? <|> c.op } := by
    intro i c c' hc hc'
    rw [getElem?_mapIdx, hc] at hc'
    exact (some.inj hc').symm
  refine hgo.trans (hgo.ok.mapCalls (length_mapIdx ..) (fun i c c' hc hc' => ?_)
    (fun i c c' hle hc hc' hf => ?_) fun _ => HandOver.noConfusion)
  · rw [hall i c c' hc hc']
    exact (c.quiet_op _ c.cancelForwarded).toKeeps
  · rw [hall i c c' hc hc']
    exact ⟨hf.history, hf.reports, hf.accessEndRecorded⟩

/-- The next step of the submitting thread. -/
lemma Ok.handOver (violation : Option String) : A.Good (A.handOver violation) := by
  unfold Attempt.handOver
  cases hthread : A.thread with
  | reading =>
    have hfrom : A.freshFrom = A.taken.length := by rw [freshFrom, hthread]
    simp only
    split_ifs with hnext
    · cases violation with
      | some reason =>
        refine h.goOn (fun i _ hle => hfrom.le.trans (le_of_succ_le hle))
          fun _ _ c hc => Or.inr ?_
        rw [(h.fresh _ c hfrom.le hc).history]
        exact not_mem_nil
      | none => exact h.handed hthread
    · exact h.goOn (fun i _ hle => hfrom.le.trans (le_of_succ_le hle)) fun _ =>
        HandOver.noConfusion
  | calling | returned => exact h.good
  | failing reason broke =>
    have hfrom : A.freshFrom = A.taken.length + 1 := by rw [freshFrom, hthread]
    have hgo : A.Good { A with thread := .skipping (A.taken.length + 1) } :=
      h.goOn (fun i _ hle => hfrom.le.trans hle) fun _ => HandOver.noConfusion
    refine hgo.trans (hgo.ok.failCall (lt_succ_self _) fun hbroke call hcall => ?_)
    exact h.failing reason (hthread.trans (by rw [hbroke])) call hcall
  | skipping next =>
    have hfrom : A.freshFrom = next := by rw [freshFrom, hthread]
    simp only
    cases hcall : A.calls[next]? with
    | none =>
      exact h.goOn (fun i hlt hle => absurd hlt (not_lt.mpr hle)) fun _ => HandOver.noConfusion
    | some call =>
      have hgo : A.Good { A with thread := .skipping (next + 1) } :=
        h.goOn (fun i _ hle => hfrom.le.trans (le_of_succ_le hle)) fun _ => HandOver.noConfusion
      refine hgo.trans (hgo.ok.recordLocked (lt_succ_self _) (fun R hR c _ row _ _ hmark => ?_)
        fun _ c hc _ _ => ?_)
      · obtain rfl := some.inj hR
        exact absurd hmark noneDelivered_ready
      · have hf := h.fresh next c hfrom.le hc
        refine Or.inr (Or.inl ?_)
        rw [hf.history]
        simp
  | storing => exact h.storeOps hthread

/-- The driver returns from a call. -/
lemma Ok.driverReturns (answer : PutAnswer) : A.Good (A.driverReturns answer) := by
  unfold Attempt.driverReturns
  by_cases hthread : A.thread = .calling
  · rw [if_pos hthread]
    have hfrom : A.freshFrom = A.taken.length + 1 := by rw [freshFrom, hthread]
    have hlt : A.taken.length < A.freshFrom := hfrom ▸ lt_succ_self _
    -- the call fails: the driver showed how
    have hnote : ∀ (n : CallNote) (reason : String) (broke : Bool), n ≠ .handed →
        n ≠ .recordedBreak → (broke = false → n = .refused) → A.Good
          { A.modifyCall A.taken.length (Call.note n) with thread := .failing reason broke } := by
      intro n reason broke hhanded hbreak hrefused
      have hmod : A.Good (A.modifyCall A.taken.length (Call.note n)) :=
        h.modifyCall (fun c _ => c.quiet_note hhanded fun hn => absurd hn hbreak)
          fun c hle _ => absurd hle hlt.not_ge
      have hfrom' : (A.modifyCall A.taken.length (Call.note n)).freshFrom = A.taken.length + 1 :=
        (freshFrom_modifyCall ..).trans hfrom
      refine hmod.trans (hmod.ok.goOn (fun i _ hle => hfrom'.le.trans hle) fun reason' heq c hc =>
        ?_)
      obtain ⟨c', hc', rfl⟩ := getElem?_modify_iff.mp hc
      have hsame : A.taken.length = (A.modifyCall A.taken.length (Call.note n)).taken.length := rfl
      rw [if_pos hsame]
      obtain rfl := hrefused (HandOver.failing.inj heq).2
      exact Or.inl (mem_append_right _ mem_cons_self)
    cases answer with
    | returned op =>
      refine h.goOn (fun i _ hle => ?_) fun _ => HandOver.noConfusion
      rw [hfrom]
      simpa [freshFrom] using hle
    | rejected error => exact hnote .refused _ false (by simp) (by simp) fun _ => rfl
    | raised | noHandle => exact hnote .broke _ true (by simp) (by simp) (by simp)
  · rw [if_neg hthread]
    exact h.good

end

/-- A new attempt. -/
lemma ok_init (label : ℕ) (isFetch : Bool) (groups : List GroupRows) (ranges : List (ℕ × ℕ × ℕ)) :
    (init label isFetch groups ranges).Ok := by
  have hcalls : ∀ c ∈ (init label isFetch groups ranges).calls,
      c.Fresh ∧ c.resultsRecorded = false := by
    intro c hc
    obtain ⟨range, -, rfl⟩ := List.mem_map.mp hc
    exact ⟨⟨rfl, rfl, rfl⟩, rfl⟩
  have hcount : ∀ p : Call → Bool, (∀ c, c.Fresh ∧ c.resultsRecorded = false → p c = true) →
      ranges.length = (init label isFetch groups ranges).calls.countP p := by
    intro p hp
    rw [countP_eq_length.mpr fun c hc => hp c (hcalls c hc)]
    exact (length_map ..).symm
  have hmarks : ∀ g row, ¬ Marked (init label isFetch groups ranges).masks g row := by
    intro g row hmark
    obtain ⟨mask, hmask, hrow⟩ := bind_eq_some_iff.mp hmark
    obtain ⟨rows, -, rfl⟩ := List.mem_map.mp (mem_of_getElem? hmask)
    rw [getElem?_replicate] at hrow
    split_ifs at hrow
    exact absurd (some.inj hrow) Bool.false_ne_true
  refine ⟨fun c hc => ?_, ?_, ?_, nofun, nofun, fun g row h => absurd h (hmarks g row), nofun,
    nofun, fun i c _ hc => (hcalls c (mem_of_getElem? hc)).1, nofun⟩
  · obtain ⟨hf, -⟩ := hcalls c hc
    refine ⟨fun hend => ?_, fun hbreak => ?_, fun r hr => ?_⟩
    · exact absurd (hf.accessEndRecorded.symm.trans hend) Bool.false_ne_true
    · rw [hf.history] at hbreak
      exact absurd hbreak not_mem_nil
    · rw [hf.reports] at hr
      exact absurd hr not_mem_nil
  · exact hcount _ fun c hc => by rw [hc.2]; rfl
  · exact hcount _ fun c hc => by rw [hc.1.accessEndRecorded]; rfl

/-- **A quiesced attempt** has the evidence for each of its calls. -/
theorem Ok.accessOver (h : A.Ok) (hquiesced : A.quiesced) :
    ∀ c ∈ A.calls, AccessOver c.history := by
  intro c hc
  have hzero := (h.awaitingEnd.symm.trans (h.quiesced hquiesced))
  rw [countP_eq_zero] at hzero
  exact (h.call c hc).access (by simpa using hzero c hc)

/-- **A delivered row** of an outcome has its result. -/
theorem Ok.delivered_of_poll (h : A.Ok) {o : Outcome} (ho : A.poll = some o)
    (hmark : Marked o.deliveredMasks g row) : A.Delivered g row := by
  obtain ⟨landed, hlanded, rfl⟩ := map_eq_some_iff.mp ho
  cases landed with
  | shared fault => exact h.delivered g row hmark
  | copied outcome => exact h.copied outcome hlanded g row hmark

end TrtLlm.Blob.Attempt
