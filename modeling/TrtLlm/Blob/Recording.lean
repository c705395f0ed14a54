import TrtLlm.Blob.Evidence

/-!
What an attempt records: the results of its calls, the ends of their accesses, and its outcome.

* `Attempt.Ok.recordLocked`: **recording keeps the invariant** of an attempt;
* `freshFrom_recordLocked`: the submitting thread goes on where it was.
-/

namespace TrtLlm.Blob.Attempt

open List Option Nat

variable {A A' : Attempt} {g i row : ℕ} {ready : List Bool} {whole : Bool}

/-! ### Recording -/

/-- An attempt that is stopped. -/
lemma Ok.stop {A : Attempt} (h : A.Ok) : A.Good A.stop :=
  ⟨⟨h.call, h.awaitingResults, h.awaitingEnd, h.quiesced, h.shared, h.delivered, h.copied,
    h.tracked, h.fresh, h.failing⟩, extends_of_calls_eq rfl rfl id fun _ => id⟩

lemma Ok.cancel (h : A.Ok) : A.Good A.cancel := by
  rw [Attempt.cancel]
  split_ifs
  · exact h.stop
  · exact h.good

lemma getElem?_writeRun {start stop : ℕ} {mask : List Bool}
    (h : (writeRun start stop ready mask)[row]? = some true) :
    mask[row]? = some true ∨ start ≤ row ∧ row < stop ∧ ready[row - start]? = some true := by
  rw [writeRun, getElem?_mapIdx, map_eq_some_iff] at h
  obtain ⟨delivered, hdelivered, heq⟩ := h
  split_ifs at heq with hin
  · refine Or.inr ⟨hin.1, hin.2, ?_⟩
    rw [getD_eq_getElem?_getD] at heq
    cases hready : ready[row - start]? with
    | none =>
      rw [hready] at heq
      exact absurd heq Bool.false_ne_true
    | some b =>
      rw [hready] at heq
      exact congrArg some heq
  · exact Or.inl (heq ▸ hdelivered)

/-- A mark is an old one, or comes from the results that are written. -/
lemma marked_modify {masks : List (List Bool)} {g' start stop : ℕ}
    (h : Marked (masks.modify g (writeRun start stop ready)) g' row) : Marked masks g' row ∨
      g' = g ∧ start ≤ row ∧ row < stop ∧ ready[row - start]? = some true := by
  obtain ⟨mask', hmask', hrow⟩ := bind_eq_some_iff.mp h
  obtain ⟨mask, hmask, rfl⟩ := getElem?_modify_iff.mp hmask'
  by_cases hg : g = g'
  · rw [if_pos hg] at hrow
    obtain hold | hnew := getElem?_writeRun hrow
    · exact Or.inl (bind_eq_some_iff.mpr ⟨mask, hmask, hold⟩)
    · exact Or.inr ⟨hg.symm, hnew⟩
  · rw [if_neg hg] at hrow
    exact Or.inl (bind_eq_some_iff.mpr ⟨mask, hmask, hrow⟩)

/-- The results of a call are recorded once: every ready row has to be backed. -/
lemma Ok.writeResults (h : A.Ok) {call : Call} (hcall : A.calls[i]? = some call)
    (hopen : call.resultsRecorded = false)
    (hready : ∀ row, call.start ≤ row → row < call.stop → ready[row - call.start]? = some true →
      A.Delivered call.groupPosition row) :
    A.Good { A.modifyCall i fun c => { c with resultsRecorded := true } with
      callsAwaitingResults := A.callsAwaitingResults - 1
      masks := A.masks.modify call.groupPosition (writeRun call.start call.stop ready) } := by
  have hpos : A.callsAwaitingResults ≠ 0 := by
    rw [h.awaitingResults, Nat.ne_zero_iff_zero_lt, countP_pos_iff]
    exact ⟨call, mem_of_getElem? hcall, by rw [hopen]; rfl⟩
  have hext : A.Extends { A.modifyCall i fun c => { c with resultsRecorded := true } with
      callsAwaitingResults := A.callsAwaitingResults - 1
      masks := A.masks.modify call.groupPosition (writeRun call.start call.stop ready) } := by
    refine ⟨rfl, length_modify .., fun j c hc => ?_, id, fun o ho => ?_⟩
    · refine ⟨_, getElem?_modify_iff.mpr ⟨c, hc, rfl⟩, ?_⟩
      split_ifs
      · exact ⟨rfl, rfl, rfl, fun _ hn => hn⟩
      · exact Call.Extends.refl c
    · -- an outcome that shares the masks has landed after all results
      rw [poll, map_eq_some_iff] at ho ⊢
      obtain ⟨landed, hlanded, rfl⟩ := ho
      refine ⟨landed, hlanded, ?_⟩
      cases landed with
      | shared fault => exact absurd (h.shared fault hlanded) hpos
      | copied outcome => rfl
  have hcalls : ∀ c ∈ A.calls.modify i fun c => { c with resultsRecorded := true },
      ∃ c' ∈ A.calls, c.history = c'.history ∧ c.Ok := by
    intro c hc
    obtain hc | ⟨c', hc', rfl⟩ := mem_modify hc
    · exact ⟨c, hc, rfl, h.call c hc⟩
    · have hok := h.call c' (mem_of_getElem? hc')
      exact ⟨c', mem_of_getElem? hc', rfl, hok.access, hok.broken, hok.backed⟩
  refine ⟨⟨?_, ?_, ?_, h.quiesced, ?_, ?_, ?_, h.tracked, ?_, ?_⟩, hext⟩
  · intro c hc
    obtain ⟨-, -, -, hok⟩ := hcalls c hc
    exact hok
  · change A.callsAwaitingResults - 1 = _
    rw [h.awaitingResults]
    exact (countP_modify_of_flip hcall (by rw [hopen]; rfl) rfl).symm
  · have hcount : (A.calls.modify i fun c => { c with resultsRecorded := true }).countP
        (fun c => !c.accessEndRecorded) = A.calls.countP fun c => !c.accessEndRecorded :=
      countP_modify_of_eq fun _ _ => rfl
    exact h.awaitingEnd.trans hcount.symm
  · intro fault hfault
    exact absurd (h.shared fault hfault) hpos
  · intro g row hmark
    obtain hold | ⟨rfl, hstart, hstop, hmark⟩ := marked_modify hmark
    · exact (h.delivered g row hold).mono hext
    · exact (hready row hstart hstop hmark).mono hext
  · intro o ho g row hmark
    exact (h.copied o ho g row hmark).mono hext
  · intro j c hle hc
    have hle' : A.freshFrom ≤ j := by
      revert hle
      rw [freshFrom, freshFrom]
      simp only [Attempt.modifyCall, length_modify]
      exact id
    obtain ⟨c', hc', rfl⟩ := getElem?_modify_iff.mp hc
    have hf := h.fresh j c' hle' hc'
    split_ifs
    · exact ⟨hf.history, hf.reports, hf.accessEndRecorded⟩
    · exact hf
  · intro reason hthread c hc
    obtain ⟨c', hc', rfl⟩ := getElem?_modify_iff.mp hc
    have := h.failing reason hthread c' hc'
    split_ifs <;> exact this

lemma Ok.recordCallResults (h : A.Ok) {results : CallResults}
    (hready : ∀ call, A.calls[i]? = some call → ∀ row, call.start ≤ row → row < call.stop →
      results.ready[row - call.start]? = some true → A.Delivered call.groupPosition row) :
    A.Good (A.recordCallResults i results whole) := by
  rw [Attempt.recordCallResults]
  cases hcall : A.calls[i]? with
  | none => exact h.good
  | some call =>
    simp only
    by_cases hrecorded : call.resultsRecorded
    · rw [if_pos hrecorded]
      exact h.good
    · have hgood := h.writeResults hcall (by simpa using hrecorded) (hready call hcall)
      rw [if_neg hrecorded]
      cases results.firstFault with
      | none => exact hgood
      | some fault =>
        -- the first fault is of no account
        have hok := hgood.ok
        have hfault : ∀ text, A.Good { A.modifyCall i fun c => { c with resultsRecorded := true }
            with
            callsAwaitingResults := A.callsAwaitingResults - 1
            masks := A.masks.modify call.groupPosition
              (writeRun call.start call.stop results.ready)
            firstFault := text } := fun text =>
          ⟨⟨hok.call, hok.awaitingResults, hok.awaitingEnd, hok.quiesced, hok.shared,
            hok.delivered, hok.copied, hok.tracked, hok.fresh, hok.failing⟩,
            hgood.ext.trans (extends_of_calls_eq rfl rfl id fun _ => id)⟩
        simp only
        split_ifs
        · exact (hfault _).trans (hfault _).ok.stop
        · exact hfault _

/-- An access end is recorded: it needs its evidence. -/
lemma Ok.recordAccessEnd (h : A.Ok) (hlt : i < A.freshFrom)
    (hover : ∀ call, A.calls[i]? = some call → call.accessEndRecorded = false →
      call.unprovable = false → AccessOver (call.history ++ [.recordedEnd])) :
    A.Good (A.recordAccessEnd i) := by
  rw [Attempt.recordAccessEnd]
  cases hcall : A.calls[i]? with
  | none => exact h.good
  | some call =>
    simp only
    by_cases hrecorded : call.accessEndRecorded || call.unprovable
    · rw [if_pos hrecorded]
      exact h.good
    · rw [if_neg hrecorded]
      obtain ⟨hopen, hprovable⟩ : call.accessEndRecorded = false ∧ call.unprovable = false := by
        simpa using hrecorded
      have hext : A.Extends { A.modifyCall i fun c =>
          { c.note .recordedEnd with accessEndRecorded := true } with
            callsAwaitingAccessEnd := A.callsAwaitingAccessEnd - 1 } := by
        refine ⟨rfl, length_modify .., fun j c hc => ?_, id, fun _ => id⟩
        refine ⟨_, getElem?_modify_iff.mpr ⟨c, hc, rfl⟩, ?_⟩
        split_ifs
        · exact ⟨rfl, rfl, rfl, fun _ hn => mem_append_left _ hn⟩
        · exact Call.Extends.refl c
      refine ⟨⟨?_, ?_, ?_, ?_, h.shared, ?_, ?_, h.tracked, ?_, ?_⟩, hext⟩
      · intro c hc
        obtain hc | ⟨c', hc', rfl⟩ := mem_modify hc
        · exact h.call c hc
        · obtain rfl := some.inj (hcall.symm.trans hc')
          exact (h.call _ (mem_of_getElem? hcall)).recordedEnd
            (hover _ hcall hopen hprovable)
      · have hcount : (A.calls.modify i fun c =>
            { c.note .recordedEnd with accessEndRecorded := true }).countP
            (fun c => !c.resultsRecorded) = A.calls.countP fun c => !c.resultsRecorded :=
          countP_modify_of_eq fun _ _ => rfl
        exact h.awaitingResults.trans hcount.symm
      · change A.callsAwaitingAccessEnd - 1 = _
        rw [h.awaitingEnd]
        exact (countP_modify_of_flip hcall (by rw [hopen]; rfl) rfl).symm
      · intro hquiesced
        change A.callsAwaitingAccessEnd - 1 = 0
        rw [h.quiesced hquiesced]
      · intro g row hmark
        exact (h.delivered g row hmark).mono hext
      · intro o ho g row hmark
        exact (h.copied o ho g row hmark).mono hext
      · intro j c hle hc
        have hle' : A.freshFrom ≤ j := by
          revert hle
          rw [freshFrom, freshFrom]
          simp only [Attempt.modifyCall, length_modify]
          exact id
        obtain ⟨c', hc', rfl⟩ := getElem?_modify_iff.mp hc
        have hne : i ≠ j := by omega
        rw [if_neg hne]
        exact h.fresh j c' hle' hc'
      · intro reason hthread c hc
        obtain ⟨c', hc', rfl⟩ := getElem?_modify_iff.mp hc
        have := h.failing reason hthread c' hc'
        split_ifs
        · refine this.imp (mem_append_left _) fun hnot hmem => ?_
          exact (mem_append.mp hmem).elim hnot (by simp)
        · exact this

lemma Ok.recordUnprovable (h : A.Ok) (hlt : i < A.freshFrom) : A.Good (A.recordUnprovable i) := by
  refine h.modifyCall (fun c _ => ?_) fun c hle _ => absurd hle hlt.not_ge
  split_ifs
  · exact Call.Quiet.refl c
  · exact c.quiet_unprovable

/-- The outcome lands, the attempt quiesces and the backend lets it go. -/
lemma Ok.concludeOrQuiesceAndRetire (h : A.Ok) : A.Good A.concludeOrQuiesceAndRetire := by
  have hland : ∀ {A : Attempt}, A.Ok → A.Good
      (if A.outcome = none ∧ A.callsAwaitingResults = 0 then
        { A with outcome := some (.shared A.firstFault) } else A) := by
    intro A h
    split_ifs with hdue
    · refine ⟨⟨h.call, h.awaitingResults, h.awaitingEnd, h.quiesced, fun _ _ => hdue.2, h.delivered,
        nofun, h.tracked, h.fresh, h.failing⟩, extends_of_calls_eq rfl rfl id fun o ho => ?_⟩
      rw [poll, hdue.1] at ho
      exact absurd ho nofun
    · exact h.good
  have hquiesce : ∀ {A : Attempt}, A.Ok → A.Good
      (if A.quiesced = false ∧ A.callsAwaitingAccessEnd = 0 then { A with quiesced := true }
        else A) := by
    intro A h
    split_ifs with hdue
    · exact ⟨⟨h.call, h.awaitingResults, h.awaitingEnd, fun _ => hdue.2, h.shared, h.delivered,
        h.copied, fun _ => rfl, h.fresh, h.failing⟩,
        extends_of_calls_eq rfl rfl (fun _ => rfl) fun _ => id⟩
    · exact h.good
  have hretire : ∀ {A : Attempt}, A.Ok → A.Good
      (if A.outcome ≠ none ∧ A.quiesced then { A with tracked := false } else A) := by
    intro A h
    split_ifs with hdue
    · exact ⟨⟨h.call, h.awaitingResults, h.awaitingEnd, h.quiesced, h.shared, h.delivered, h.copied,
        fun _ => hdue.2, h.fresh, h.failing⟩, extends_of_calls_eq rfl rfl id fun _ => id⟩
    · exact h.good
  exact ((hland h).trans (hquiesce (hland h).ok)).trans (hretire (hquiesce (hland h).ok).ok)

/-- The books do not move the thread. -/
lemma freshFrom_congr (hthread : A'.thread = A.thread) (htaken : A'.taken = A.taken)
    (hlen : A'.calls.length = A.calls.length) : A'.freshFrom = A.freshFrom := by
  rw [freshFrom, freshFrom, hthread, htaken, hlen]

section

variable (A : Attempt) (i : ℕ)

lemma freshFrom_modifyCall (f : Call → Call) :
    (A.modifyCall i f).freshFrom = A.freshFrom := freshFrom_congr rfl rfl (length_modify ..)

/-- Recording results changes nothing else of a call. -/
lemma recordCallResults_frame (results : CallResults) (whole : Bool) :
    (A.recordCallResults i results whole).freshFrom = A.freshFrom ∧
      ∀ c', (A.recordCallResults i results whole).calls[i]? = some c' → ∃ c, A.calls[i]? = some c ∧
        c'.history = c.history ∧ c'.accessEndRecorded = c.accessEndRecorded ∧
          c'.unprovable = c.unprovable := by
  have hmodify : ∀ A' : Attempt, A'.thread = A.thread → A'.taken = A.taken →
      A'.calls = (A.modifyCall i fun c => { c with resultsRecorded := true }).calls →
      A'.freshFrom = A.freshFrom ∧ ∀ c', A'.calls[i]? = some c' → ∃ c, A.calls[i]? = some c ∧
        c'.history = c.history ∧ c'.accessEndRecorded = c.accessEndRecorded ∧
          c'.unprovable = c.unprovable := by
    intro A' hthread htaken hcalls
    refine ⟨freshFrom_congr hthread htaken ?_, fun c' hc' => ?_⟩
    · rw [hcalls]
      exact length_modify ..
    · rw [hcalls] at hc'
      obtain ⟨c, hc, rfl⟩ := getElem?_modify_iff.mp hc'
      exact ⟨c, hc, by rw [if_pos rfl]; exact ⟨rfl, rfl, rfl⟩⟩
  rw [Attempt.recordCallResults]
  cases hcall : A.calls[i]? with
  | none =>
    refine ⟨rfl, fun c' hc' => ?_⟩
    simp only [hcall] at hc'
    exact absurd hc' nofun
  | some call =>
    simp only
    by_cases hrecorded : call.resultsRecorded
    · rw [if_pos hrecorded]
      exact ⟨rfl, fun c' hc' => ⟨c', hcall ▸ hc', rfl, rfl, rfl⟩⟩
    · have := hmodify
      rw [hcall] at this
      rw [if_neg hrecorded]
      cases results.firstFault with
      | none => exact this _ rfl rfl rfl
      | some fault =>
        simp only
        split_ifs
        · exact this _ rfl rfl rfl
        · exact this _ rfl rfl rfl

lemma freshFrom_recordAccessEnd : (A.recordAccessEnd i).freshFrom = A.freshFrom := by
  rw [Attempt.recordAccessEnd]
  cases A.calls[i]? with
  | none => rfl
  | some call =>
    simp only
    split_ifs
    · rfl
    · exact freshFrom_congr rfl rfl (length_modify ..)

lemma freshFrom_recordLocked (results : Option CallResults) (ended unprovable whole : Bool) :
    (A.recordLocked i results ended unprovable whole).freshFrom = A.freshFrom := by
  have hresults : (results.elim A fun results => A.recordCallResults i results whole).freshFrom
      = A.freshFrom := by
    cases results with
    | none => rfl
    | some R => exact (recordCallResults_frame A i R whole).1
  have hend : ∀ B : Attempt, (if ended then B.recordAccessEnd i else B).freshFrom
      = B.freshFrom := by
    intro B
    split_ifs
    · exact freshFrom_recordAccessEnd B i
    · rfl
  have hunprovable : ∀ B : Attempt,
      (if unprovable then B.recordUnprovable i else B).freshFrom = B.freshFrom := by
    intro B
    split_ifs
    · exact freshFrom_congr rfl rfl (length_modify ..)
    · rfl
  have hconclude : ∀ B : Attempt, B.concludeOrQuiesceAndRetire.freshFrom = B.freshFrom := by
    intro B
    simp only [Attempt.concludeOrQuiesceAndRetire]
    split_ifs <;> rfl
  rw [Attempt.recordLocked, hconclude, hunprovable, hend, hresults]

end

/-- **A record** keeps the invariant if the driver showed what it says. -/
lemma Ok.recordLocked (h : A.Ok) (hlt : i < A.freshFrom)
    {results : Option CallResults} {ended unprovable : Bool}
    (hready : ∀ R, results = some R → ∀ call, A.calls[i]? = some call → ∀ row, call.start ≤ row →
      row < call.stop → R.ready[row - call.start]? = some true → A.Delivered call.groupPosition row)
    (hover : ended = true → ∀ call, A.calls[i]? = some call → call.accessEndRecorded = false →
      call.unprovable = false → AccessOver (call.history ++ [.recordedEnd])) :
    A.Good (A.recordLocked i results ended unprovable whole) := by
  -- the three parts, one after the other
  obtain ⟨A₁, hA₁, hgood₁, hfresh₁, hframe₁⟩ : ∃ A₁,
      (results.elim A fun results => A.recordCallResults i results whole) = A₁ ∧
      A.Good A₁ ∧ A₁.freshFrom = A.freshFrom ∧
        ∀ c', A₁.calls[i]? = some c' → ∃ c, A.calls[i]? = some c ∧ c'.history = c.history ∧
          c'.accessEndRecorded = c.accessEndRecorded ∧ c'.unprovable = c.unprovable := by
    cases results with
    | none => exact ⟨A, rfl, h.good, rfl, fun c' hc' => ⟨c', hc', rfl, rfl, rfl⟩⟩
    | some R =>
      obtain ⟨hfresh, hframe⟩ := recordCallResults_frame A i R whole
      exact ⟨_, rfl, h.recordCallResults (hready R rfl), hfresh, hframe⟩
  have hgood₂ : A₁.Good (if ended then A₁.recordAccessEnd i else A₁) := by
    split_ifs with hended
    · refine hgood₁.ok.recordAccessEnd (hfresh₁ ▸ hlt) fun call hcall hopen hprovable => ?_
      obtain ⟨c, hc, hhistory, haccess, hunprovable⟩ := hframe₁ call hcall
      rw [hhistory]
      exact hover hended c hc (haccess ▸ hopen) (hunprovable ▸ hprovable)
    · exact hgood₁.ok.good
  have hfresh₂ : (if ended then A₁.recordAccessEnd i else A₁).freshFrom = A.freshFrom := by
    split_ifs
    · rw [freshFrom_recordAccessEnd, hfresh₁]
    · exact hfresh₁
  rw [Attempt.recordLocked, hA₁]
  generalize (if ended then A₁.recordAccessEnd i else A₁) = A₂ at hgood₂ hfresh₂
  have hgood₃ : A₂.Good (if unprovable then A₂.recordUnprovable i else A₂) := by
    split_ifs
    · exact hgood₂.ok.recordUnprovable (hfresh₂ ▸ hlt)
    · exact hgood₂.ok.good
  exact ((hgood₁.trans hgood₂).trans hgood₃).trans hgood₃.ok.concludeOrQuiesceAndRetire

/-- A call that is not taken delivers nothing. -/
lemma noneDelivered_ready {rows k : ℕ} {fault : Option String} :
    (CallResults.noneDelivered rows fault).ready[k]? ≠ some true := by
  rw [CallResults.noneDelivered, getElem?_replicate]
  split_ifs
  · exact nofun
  · exact nofun

/-- After a break is recorded, the call is held, unless its access end was recorded. -/
lemma held_of_recordLocked {results : Option CallResults} {ended : Bool} :
    ∀ c, (A.recordLocked i results ended true whole).calls[i]? = some c →
      c.unprovable ∨ c.accessEndRecorded := by
  intro c hc
  obtain ⟨A', hA'⟩ : ∃ A', A.recordLocked i results ended true whole
      = (Attempt.recordUnprovable A' i).concludeOrQuiesceAndRetire := ⟨_, rfl⟩
  have hcalls : ∀ B : Attempt, B.concludeOrQuiesceAndRetire.calls = B.calls := by
    intro B
    simp only [Attempt.concludeOrQuiesceAndRetire]
    split_ifs <;> rfl
  rw [hA', hcalls] at hc
  obtain ⟨c', -, rfl⟩ := getElem?_modify_iff.mp hc
  rw [if_pos rfl]
  split_ifs with hheld
  · exact (Bool.or_eq_true _ _).mp hheld
  · exact Or.inl rfl

end TrtLlm.Blob.Attempt
