import TrtLlm.Disagg.ReceiveOwner

/-!
The evidence of a receive owner over whole runs.

A run records every call with the owner before and after it. `EvidenceHolds` says what a
release of the destination relies on. The code lets two kinds of calls break it, and they are
the only ones: evidence of a rank that the destination was not published to, while the cohort
is unknown, and a success that completes the results while a writer is in doubt. `Sound` rules
these out, and `evidence_holds_iff` is the equivalence.
-/

namespace TrtLlm.Disagg

open List Option UMap

namespace ReceiveOperationOwner

/-- A call in a run. -/
structure OwnerCall where
  before : ReceiveOperationOwner
  op : OwnerOp
  reply : OwnerReply
  after : ReceiveOperationOwner

/-- A call, recorded. -/
def recordedStep (s : ReceiveOperationOwner) (op : OwnerOp) :
    List OwnerCall × ReceiveOperationOwner :=
  ([⟨s, op, (s.step op).1, (s.step op).2⟩], (s.step op).2)

/-- The calls of a run, and the owner after it. -/
def calls (ops : List OwnerOp) : List OwnerCall := (Machine.run recordedStep init ops).1

def after (ops : List OwnerOp) : ReceiveOperationOwner := (Machine.run recordedStep init ops).2

/-- The evidence was contradictory or came from an unknown writer. -/
def OwnerCall.Contradicts (c : OwnerCall) : Prop :=
  IsEvidence c.op ∧ ∃ e, c.reply = .raised e

/-- The call announced that all writers succeeded. -/
def OwnerCall.announces (c : OwnerCall) : Bool :=
  match c.reply with
  | .result _ b => b
  | _ => false

/-- The destination was published to the rank at some time. -/
def EverPublished (out : List OwnerCall) (rank : ℕ) : Prop :=
  ∃ c ∈ out, rank ∈ c.after.published

/-- Evidence of the rank is on record. -/
def Counted (s : ReceiveOperationOwner) (rank : ℕ) : Prop :=
  rank ∈ s.writerResults ∨ rank ∈ s.inDoubtWriters ∨ rank ∈ s.quiescedSessions

/-- The results come from published ranks and cover every expected writer. -/
structure Covered (s : ReceiveOperationOwner) : Prop where
  published : ∀ rank ∈ s.writerResults, rank ∈ s.published
  count : s.expectedWriters = some s.writerResults.size
  cohort : ∀ cohort ∈ s.writerCohort, ∀ rank ∈ cohort, rank ∈ s.writerResults

/-- What the release of the destination relies on, for a run and the owner after it. -/
structure EvidenceHolds (out : List OwnerCall) (s : ReceiveOperationOwner) : Prop where
  pending : ∀ canRetire, s.resourcesDrained canRetire → s.publicationPending = false
  consistent : ∀ canRetire, s.resourcesDrained canRetire → ∀ c ∈ out, ¬c.Contradicts
  doubt : ∀ canRetire, s.resourcesDrained canRetire → s.inDoubtWriters = ∅
  complete : ∀ canRetire, s.resourcesDrained canRetire →
    Covered s ∨ ∃ p ∈ s.publishedWriters, p ⊆ s.quiescedSessions
  counted : ∀ rank, Counted s rank → EverPublished out rank
  once : out.countP OwnerCall.announces ≤ 1
  success : ∀ c ∈ out, c.announces → c.after.expectedWriters = some c.after.writerResults.size
    ∧ (∀ cohort ∈ c.after.writerCohort, ∀ rank ∈ cohort, rank ∈ c.after.writerResults)
    ∧ (∀ rank b, c.after.writerResults.find? rank = some b → b = true)
    ∧ c.after.inDoubtWriters = ∅

/-! ### The calls that break it -/

/-- A call for which the evidence stays sound. While the cohort is unknown, new evidence of a
writer comes from a rank that the destination is published to; and the success that completes
the results comes when no writer is in doubt. -/
def Sound (s : ReceiveOperationOwner) : OwnerOp → Prop
  | .recordWriterInDoubt rank =>
    s.expectedWriters ≠ none → s.writerCohort = none → rank ∉ s.inDoubtWriters →
      rank ∉ s.settledWriters → rank ∈ s.published
  | .recordWriterResult rank succeeded =>
    (∀ expected ∈ s.expectedWriters, s.writerCohort = none → rank ∉ s.inDoubtWriters →
      rank ∉ s.writerResults → s.writerResults.size < expected → rank ∈ s.published)
    ∧ (∀ expected ∈ s.expectedWriters, s.InCohort rank → rank ∉ s.inDoubtWriters →
      rank ∉ s.writerResults → s.writerResults.size + 1 = expected → succeeded = true →
      s.publicationFailed = false → (∀ r b, s.writerResults.find? r = some b → b = true) →
      s.inDoubtWriters = ∅)
  | _ => True

/-! ### What every run keeps -/

/-- The bookkeeping of every run, sound or not. -/
structure Books (out : List OwnerCall) (s : ReceiveOperationOwner) : Prop where
  fresh : s.expectedWriters = none → s.publishedWriters = none ∧ s.writerCohort = none
    ∧ (∀ rank, rank ∉ s.writerResults) ∧ s.inDoubtWriters = ∅
  cohort : ∀ c ∈ s.writerCohort, s.expectedWriters = some c.card ∧ c ⊆ s.published
    ∧ (∀ rank ∈ s.writerResults, rank ∈ c) ∧ s.inDoubtWriters ⊆ c
  ever : ∀ rank ∈ s.published, EverPublished out rank
  known : s.writerCohort = none → ∀ rank, EverPublished out rank → rank ∈ s.published
  quiesced : ∀ rank ∈ s.quiescedSessions, EverPublished out rank
  invalid : (∃ c ∈ out, c.Contradicts) → s.invalidEvidence = true
  announced : 0 < out.countP OwnerCall.announces →
    ∃ e, s.expectedWriters = some e ∧ (e ≤ s.writerResults.size ∨ s.publicationFailed = true)
  once : out.countP OwnerCall.announces ≤ 1
  success : ∀ c ∈ out, c.announces → c.after.expectedWriters = some c.after.writerResults.size
    ∧ (∀ cohort ∈ c.after.writerCohort, ∀ rank ∈ cohort, rank ∈ c.after.writerResults)
    ∧ (∀ rank b, c.after.writerResults.find? rank = some b → b = true)

variable {out : List OwnerCall} {s s' : ReceiveOperationOwner} {op : OwnerOp}
  {reply : OwnerReply}

variable {ops : List OwnerOp} {rank : ℕ}

lemma everPublished_concat {c : OwnerCall} :
    EverPublished (out ++ [c]) rank ↔ EverPublished out rank ∨ rank ∈ c.after.published := by
  simp only [EverPublished, mem_append, mem_singleton]
  constructor
  · rintro ⟨d, hd | rfl, hrank⟩
    · exact .inl ⟨d, hd, hrank⟩
    · exact .inr hrank
  · rintro (⟨d, hd, hrank⟩ | hrank)
    · exact ⟨d, .inl hd, hrank⟩
    · exact ⟨c, .inr rfl, hrank⟩

/-- The results of a full cohort are those of all its members. -/
lemma mem_results_of_full {c : Finset ℕ} {m : UMap ℕ Bool} (hsub : ∀ rank ∈ m, rank ∈ c)
    (hcard : m.size = c.card) : ∀ rank ∈ c, rank ∈ m := by
  have hle : m.keys.toFinset ⊆ c := fun rank hrank => hsub rank (List.mem_toFinset.mp hrank)
  have hkeys : m.keys.toFinset.card = m.size := by
    rw [toFinset_card_of_nodup m.keys_nodup, UMap.keys, length_map]
    rfl
  have heq : m.keys.toFinset = c := Finset.eq_of_subset_of_card_le hle (by omega)
  intro rank hrank
  rw [← heq] at hrank
  exact List.mem_toFinset.mp hrank

lemma allSucceeded_iff {expected : ℕ} :
    s.allSucceeded expected = true ↔ s.writerResults.size = expected
      ∧ s.publicationFailed = false
      ∧ ∀ rank b, s.writerResults.find? rank = some b → b = true := by
  simp only [allSucceeded, Bool.and_eq_true, decide_eq_true_eq, Bool.not_eq_true',
    List.all_eq_true, UMap.find?_eq_some_iff, and_assoc, Prod.forall]

lemma Books.fresh_step (h : Books out s) (he : Effect s op reply s')
    (hnone : s'.expectedWriters = none) : s'.publishedWriters = none ∧ s'.writerCohort = none
      ∧ (∀ rank, rank ∉ s'.writerResults) ∧ s'.inDoubtWriters = ∅ := by
  cases he with
  | idle | rejected | pending | quiesced => exact h.fresh hnone
  | sealed | aborted | cancelled => simp at hnone
  | doubted hsealed => exact absurd hnone hsealed
  | @settled rank hdoubt =>
    obtain ⟨-, -, -, hempty⟩ := h.fresh hnone
    simp [hempty] at hdoubt
  | counted hsealed =>
    rw [show s.expectedWriters = none from hnone] at hsealed
    exact absurd hsealed (by simp)

lemma Books.cohort_step (h : Books out s) (he : Effect s op reply s') :
    ∀ c ∈ s'.writerCohort, s'.expectedWriters = some c.card ∧ c ⊆ s'.published
      ∧ (∀ rank ∈ s'.writerResults, rank ∈ c) ∧ s'.inDoubtWriters ⊆ c := by
  cases he with
  | idle | rejected | pending | quiesced => exact h.cohort
  | sealed hnew hcard hcover =>
    intro c hc
    obtain ⟨-, -, hresults, hdoubt⟩ := h.fresh hnew
    refine ⟨congrArg some (hcard c hc).symm, hcover c hc, fun rank hrank => ?_, ?_⟩
    · exact absurd hrank (hresults rank)
    · simp [hdoubt]
  | aborted hcohort hresults hdoubt =>
    rintro c ⟨⟩
    exact ⟨rfl, Finset.Subset.refl _, hresults, hdoubt⟩
  | cancelled hnew =>
    rintro c ⟨⟩
    obtain ⟨-, -, hresults, hdoubt⟩ := h.fresh hnew
    exact ⟨rfl, Finset.Subset.refl _, fun rank hrank => absurd hrank (hresults rank),
      by simp [hdoubt]⟩
  | doubted hsealed hcohort =>
    intro c hc
    obtain ⟨hexp, hpub, hresults, hdoubt⟩ := h.cohort c hc
    exact ⟨hexp, hpub, hresults, Finset.insert_subset (hcohort c hc) hdoubt⟩
  | @settled rank hin =>
    intro c hc
    obtain ⟨hexp, hpub, hresults, hdoubt⟩ := h.cohort c hc
    refine ⟨hexp, hpub, fun r hr => ?_, (Finset.erase_subset _ _).trans hdoubt⟩
    obtain rfl | hr := mem_assign.mp hr
    · exact hdoubt hin
    · exact hresults r hr
  | counted hsealed hcohort =>
    intro c hc
    obtain ⟨hexp, hpub, hresults, hdoubt⟩ := h.cohort c hc
    refine ⟨hexp, hpub, fun r hr => ?_, hdoubt⟩
    obtain rfl | hr := mem_assign.mp hr
    · exact hcohort c hc
    · exact hresults r hr

/-- Before the cohort is sealed nothing was published. -/
lemma Books.not_everPublished (h : Books out s) (hnew : s.expectedWriters = none) (rank : ℕ) :
    ¬EverPublished out rank := by
  intro hever
  obtain ⟨hpub, hcohort, -⟩ := h.fresh hnew
  have hmem := h.known hcohort rank hever
  simp [published, hpub] at hmem

/-- The published ranks stay, or the cohort becomes known, or they are sealed for the first
time. -/
lemma Effect.published_cases (he : Effect s op reply s') :
    (s'.published = s.published ∧ s'.writerCohort = s.writerCohort) ∨ s'.writerCohort ≠ none
      ∨ s.expectedWriters = none := by
  cases he with
  | sealed hnew => exact .inr (.inr hnew)
  | aborted => exact .inr (.inl (by simp))
  | cancelled hnew => exact .inr (.inr hnew)
  | _ => exact .inl ⟨rfl, rfl⟩

section

variable (h : Books out s) (he : Effect s op reply s')
include h he

lemma Books.known_step (hcohort : s'.writerCohort = none) (rank : ℕ)
    (hever : EverPublished (out ++ [⟨s, op, reply, s'⟩]) rank) : rank ∈ s'.published := by
  obtain hever | hmem := everPublished_concat.mp hever
  · obtain ⟨hpub, hsame⟩ | hknown | hnew := he.published_cases
    · rw [hpub]
      exact h.known (hsame ▸ hcohort) rank hever
    · exact absurd hcohort hknown
    · exact absurd hever (h.not_everPublished hnew rank)
  · exact hmem

lemma Books.quiesced_step :
    ∀ rank ∈ s'.quiescedSessions, EverPublished (out ++ [⟨s, op, reply, s'⟩]) rank := by
  intro rank hrank
  refine everPublished_concat.mpr (.inl ?_)
  cases he with
  | quiesced hmem =>
    obtain rfl | hrank := Finset.mem_insert.mp hrank
    · exact h.ever rank hmem
    · exact h.quiesced rank hrank
  | _ => exact h.quiesced rank hrank

lemma Books.invalid_step
    (hbad : ∃ c ∈ out ++ [⟨s, op, reply, s'⟩], c.Contradicts) : s'.invalidEvidence = true := by
  have hcases : s.invalidEvidence = true ∨ (IsEvidence op ∧ ∃ e, reply = .raised e) := by
    obtain ⟨c, hc, hcon⟩ := hbad
    obtain hc | hc := mem_append.mp hc
    · exact .inl (h.invalid ⟨c, hc, hcon⟩)
    · rw [mem_singleton] at hc
      subst hc
      exact .inr hcon
  obtain hold | ⟨hop, e, rfl⟩ := hcases
  · cases he <;> first | exact hold | rfl
  · cases he with
    | idle _ hraised => exact absurd hop (hraised e rfl)
    | rejected => rfl

end

/-- Only the result that completes the cohort is announced, and only if all of them are
successes and the publication did not fail. -/
lemma Effect.announces (he : Effect s op reply s') (hann : OwnerCall.announces ⟨s, op, reply, s'⟩) :
    ∃ rank succeeded expected, op = .recordWriterResult rank succeeded
      ∧ s.expectedWriters = some expected ∧ s.InCohort rank ∧ rank ∉ s.inDoubtWriters
      ∧ rank ∉ s.writerResults ∧ s.writerResults.size + 1 = expected
      ∧ s' = s.setResult rank succeeded ∧ s'.allSucceeded expected = true := by
  cases he with
  | idle hresult =>
    rw [OwnerCall.announces] at hann
    split at hann
    · rename_i accepted b heq
      simp only at heq
      subst heq
      exact absurd (congrArg _ hann) (hresult accepted)
    · exact absurd hann (by simp)
  | @counted rank succeeded expected hsealed hcohort hdoubt hnew hopen =>
    have hall : (s.setResult rank succeeded).allSucceeded expected = true := hann
    have hsize : (s.setResult rank succeeded).writerResults.size = s.writerResults.size + 1 :=
      size_assign_of_not_mem succeeded hnew
    refine ⟨rank, succeeded, expected, rfl, hsealed, hcohort, hdoubt, hnew, ?_, rfl, hall⟩
    rw [← hsize]
    exact (allSucceeded_iff.mp hall).1
  | _ => exact absurd hann (by simp [OwnerCall.announces])

/-- After an announcement the results stay full, or the publication is known to have failed. -/
lemma Books.full_step (he : Effect s op reply s') (hfull : ∃ e, s.expectedWriters = some e
      ∧ (e ≤ s.writerResults.size ∨ s.publicationFailed = true)) :
    ∃ e, s'.expectedWriters = some e
      ∧ (e ≤ s'.writerResults.size ∨ s'.publicationFailed = true) := by
  obtain ⟨e, hexp, hfull⟩ := hfull
  cases he with
  | sealed hnew => simp [hnew] at hexp
  | aborted => exact ⟨_, rfl, .inr rfl⟩
  | cancelled hnew => simp [hnew] at hexp
  | settled | counted =>
    exact ⟨e, hexp, hfull.imp_left fun hle => hle.trans (size_le_assign ..)⟩
  | _ => exact ⟨e, hexp, hfull⟩

lemma Books.step (h : Books out s) (he : Effect s op reply s') :
    Books (out ++ [⟨s, op, reply, s'⟩]) s' := by
  have hcohort := h.cohort_step he
  refine
    { fresh := h.fresh_step he
      cohort := hcohort
      ever := fun rank hrank => everPublished_concat.mpr (.inr hrank)
      known := h.known_step he
      quiesced := h.quiesced_step he
      invalid := h.invalid_step he
      announced := fun hpos => ?_
      once := ?_
      success := fun c hc hann => ?_ }
  · rw [countP_append, countP_singleton] at hpos
    by_cases hann : OwnerCall.announces ⟨s, op, reply, s'⟩
    · obtain ⟨rank, b, e, -, hexp, -, -, -, -, rfl, hall⟩ := he.announces hann
      exact ⟨e, hexp, .inl (allSucceeded_iff.mp hall).1.ge⟩
    · rw [if_neg hann] at hpos
      exact Books.full_step he (h.announced hpos)
  · rw [countP_append, countP_singleton]
    by_cases hann : OwnerCall.announces ⟨s, op, reply, s'⟩
    · -- an earlier announcement left the results full or the publication failed
      obtain ⟨rank, b, e, -, hexp, -, -, -, hsize, rfl, hall⟩ := he.announces hann
      have hzero : out.countP OwnerCall.announces = 0 := by
        by_contra hne
        obtain ⟨e', hexp', hfull⟩ := h.announced (Nat.pos_of_ne_zero hne)
        obtain rfl : e = e' := some.inj (hexp.symm.trans hexp')
        obtain hfull | hfailed := hfull
        · omega
        · have hok : s.publicationFailed = false := (allSucceeded_iff.mp hall).2.1
          exact absurd (hok.symm.trans hfailed) (by simp)
      rw [hzero, if_pos hann]
    · rw [if_neg hann]
      exact h.once
  · obtain hc | hc := mem_append.mp hc
    · exact h.success c hc hann
    · rw [mem_singleton] at hc
      subst hc
      obtain ⟨rank, b, e, -, hexp, -, -, -, -, rfl, hall⟩ := he.announces hann
      obtain ⟨hsize, -, htrue⟩ := allSucceeded_iff.mp hall
      refine ⟨hexp.trans (congrArg some hsize.symm), fun c hc => ?_, htrue⟩
      obtain ⟨hcard, -, hsub, -⟩ := hcohort c hc
      refine mem_results_of_full hsub ?_
      have hcard' : e = c.card := some.inj (hexp.symm.trans hcard)
      exact hsize.trans hcard'

lemma Books.nil : Books [] init where
  fresh _ := ⟨rfl, rfl, by simp [init], rfl⟩
  cohort c hc := by simp [init] at hc
  ever rank hrank := by simp [init, published] at hrank
  known _ rank h := by simp [EverPublished] at h
  quiesced rank hrank := by simp [init] at hrank
  invalid h := by simp at h
  announced h := by simp at h
  once := by simp
  success c hc := by simp at hc

section

variable (ops : List OwnerOp)

lemma books : Books (calls ops) (after ops) :=
  Machine.run_induction (J := Books) Books.nil
    (fun _ s op h => h.step (s.step_effect op)) ops

lemma calls_concat (op : OwnerOp) : calls (ops ++ [op])
      = calls ops ++ [⟨after ops, op, ((after ops).step op).1, ((after ops).step op).2⟩] := by
  rw [calls, Machine.run_concat]
  rfl

lemma after_concat (op : OwnerOp) :
    after (ops ++ [op]) = ((after ops).step op).2 := by
  rw [after, Machine.run_concat]
  rfl

/-! ### Sound runs -/

/-- Every call of the run is sound. -/
def SoundRun : Prop :=
  ∀ pre op post, ops = pre ++ op :: post → Sound (after pre) op

end

/-- Results and doubts come from published ranks. -/
def Members (s : ReceiveOperationOwner) : Prop :=
  ∀ rank, rank ∈ s.writerResults ∨ rank ∈ s.inDoubtWriters → rank ∈ s.published

/-- The rank of a call is published if it is in a known cohort, or if the call is sound. -/
lemma Books.mem_published (h : Books out s) (hcohort : s.InCohort rank)
    (hunknown : s.writerCohort = none → rank ∈ s.published) : rank ∈ s.published := by
  cases hc : s.writerCohort with
  | none => exact hunknown hc
  | some c => exact (h.cohort c hc).2.1 (hcohort c hc)

lemma Members.step (hm : Members s) (h : Books out s) (he : Effect s op reply s')
    (hsound : Sound s op) : Members s' := by
  intro rank hrank
  cases he with
  | sealed hnew =>
    obtain ⟨-, -, hresults, hdoubt⟩ := h.fresh hnew
    obtain hrank | hrank := hrank
    · exact absurd hrank (hresults rank)
    · simp [hdoubt] at hrank
  | aborted hcohort hresults hdoubt =>
    exact hrank.elim (hresults rank) fun hrank => hdoubt hrank
  | cancelled hnew =>
    obtain ⟨-, -, hresults, hdoubt⟩ := h.fresh hnew
    obtain hrank | hrank := hrank
    · exact absurd hrank (hresults rank)
    · simp [hdoubt] at hrank
  | @doubted r hsealed hcohort hnew hsettled =>
    obtain hrank | hrank := hrank
    · exact hm rank (.inl hrank)
    · obtain rfl | hrank := Finset.mem_insert.mp hrank
      · exact h.mem_published hcohort fun hc => hsound hsealed hc hnew hsettled
      · exact hm rank (.inr hrank)
  | settled hdoubt =>
    obtain hrank | hrank := hrank
    · obtain rfl | hrank := mem_assign.mp hrank
      · exact hm rank (.inr hdoubt)
      · exact hm rank (.inl hrank)
    · exact hm rank (.inr (Finset.mem_of_mem_erase hrank))
  | counted hsealed hcohort hdoubt hnew hopen =>
    obtain hrank | hrank := hrank
    · obtain rfl | hrank := mem_assign.mp hrank
      · exact h.mem_published hcohort fun hc => hsound.1 _ hsealed hc hdoubt hnew hopen
      · exact hm rank (.inl hrank)
    · exact hm rank (.inr hrank)
  | _ => exact hm rank hrank

/-- A sound call that announces success finds no writer in doubt. -/
lemma Effect.announces_sound (he : Effect s op reply s') (hsound : Sound s op)
    (hann : OwnerCall.announces ⟨s, op, reply, s'⟩) : s'.inDoubtWriters = ∅ := by
  obtain ⟨rank, b, e, rfl, hexp, hcohort, hdoubt, hnew, hsize, rfl, hall⟩ := he.announces hann
  obtain ⟨-, hfailed, htrue⟩ := allSucceeded_iff.mp hall
  refine hsound.2 e hexp hcohort hdoubt hnew hsize ?_ hfailed fun r c hr => ?_
  · refine htrue rank b ?_
    simp [setResult]
  · refine htrue r c ?_
    have hne : r ≠ rank := fun he => hnew (he ▸ mem_of_find? hr)
    simpa [setResult, hne] using hr

lemma SoundRun.members (h : SoundRun ops) :
    Members (after ops) ∧ ∀ c ∈ calls ops, c.announces → c.after.inDoubtWriters = ∅ := by
  induction ops using reverseRecOn with
  | nil =>
    refine ⟨fun rank hrank => ?_, fun c hc => ?_⟩
    · simp [after, init] at hrank
    · simp [calls] at hc
  | append_singleton ops op ih =>
    have hops : SoundRun ops := fun pre op' post he =>
      h pre op' (post ++ [op]) (by rw [he]; simp)
    have hlast : Sound (after ops) op := h ops op [] rfl
    obtain ⟨hm, hdoubt⟩ := ih hops
    have heff := (after ops).step_effect op
    rw [after_concat, calls_concat]
    refine ⟨hm.step (books ops) heff hlast, fun c hc hann => ?_⟩
    obtain hc | hc := mem_append.mp hc
    · exact hdoubt c hc hann
    · rw [mem_singleton] at hc
      subst hc
      exact heff.announces_sound hlast hann

/-- A drained owner has the evidence that `resources_drained` reads. -/
lemma drained_locked {canRetire : Option Bool} (h : s.resourcesDrained canRetire = true) :
    s.resourcesDrainedLocked := by
  rw [resourcesDrained, Bool.and_eq_true, decide_eq_true_eq] at h
  exact h.1

lemma Books.covered (h : Books out s) (hm : Members s)
    (hcount : s.expectedWriters = some s.writerResults.size) : Covered s where
  published rank hrank := hm rank (.inl hrank)
  count := hcount
  cohort c hc := by
    obtain ⟨hcard, -, hsub, -⟩ := h.cohort c hc
    exact mem_results_of_full hsub (some.inj (hcount.symm.trans hcard))

lemma SoundRun.holds (h : SoundRun ops) : EvidenceHolds (calls ops) (after ops) := by
  obtain ⟨hm, hdoubt⟩ := h.members
  have hb := books ops
  refine
    { pending := fun r hd => (drained_locked hd).2.2.1
      consistent := fun r hd c hc hcon => ?_
      doubt := fun r hd => (drained_locked hd).2.2.2.1
      complete := fun r hd => (drained_locked hd).2.1.imp_left fun hcount =>
        hb.covered hm hcount
      counted := fun rank hrank => ?_
      once := hb.once
      success := fun c hc hann => ?_ }
  · have hinvalid := hb.invalid ⟨c, hc, hcon⟩
    exact absurd ((drained_locked hd).2.2.2.2.symm.trans hinvalid) (by simp)
  · obtain hrank | hrank | hrank := hrank
    · exact hb.ever rank (hm rank (.inl hrank))
    · exact hb.ever rank (hm rank (.inr hrank))
    · exact hb.quiesced rank hrank
  · obtain ⟨hsize, hcohort, htrue⟩ := hb.success c hc hann
    exact ⟨hsize, hcohort, htrue, hdoubt c hc hann⟩

/-- Evidence of an unpublished rank that is recorded while the cohort is unknown stays without
publication. -/
lemma Books.not_everPublished_of_unknown (h : Books out s) {c : OwnerCall}
    (hcohort : s.writerCohort = none) (hrank : rank ∉ s.published)
    (hsame : c.after.published = s.published) : ¬EverPublished (out ++ [c]) rank := by
  intro hever
  obtain hever | hmem := everPublished_concat.mp hever
  · exact hrank (h.known hcohort rank hever)
  · exact hrank (hsame ▸ hmem)

/-- A call after which the evidence still holds was sound. -/
lemma sound_of_holds {op : OwnerOp}
    (h : EvidenceHolds (calls (ops ++ [op])) (after (ops ++ [op]))) : Sound (after ops) op := by
  have hb := books ops
  rw [calls_concat, after_concat] at h
  cases op with
  | recordWriterInDoubt rank =>
    intro hsealed hcohort hnew hsettled
    by_contra hrank
    have hnot : ¬∃ cohort ∈ (after ops).writerCohort, rank ∉ cohort := by simp [hcohort]
    have hstep : ((after ops).step (.recordWriterInDoubt rank)).2
        = { after ops with inDoubtWriters := insert rank (after ops).inDoubtWriters } := by
      rw [step, recordWriterInDoubt, if_neg hsealed, if_neg hnot,
        if_neg (not_or.mpr ⟨hnew, hsettled⟩)]
    rw [hstep] at h
    exact hb.not_everPublished_of_unknown hcohort hrank rfl
      (h.counted rank (.inr (.inl (Finset.mem_insert_self _ _))))
  | recordWriterResult rank succeeded =>
    have hstep : ∀ expected ∈ (after ops).expectedWriters, (after ops).InCohort rank →
        rank ∉ (after ops).inDoubtWriters → rank ∉ (after ops).writerResults →
        (after ops).writerResults.size < expected →
        (after ops).step (.recordWriterResult rank succeeded)
          = (.result true (((after ops).setResult rank succeeded).allSucceeded expected),
              (after ops).setResult rank succeeded) := by
      intro expected hexp hcohort hdoubt hnew hopen
      rw [step, recordWriterResult, show (after ops).expectedWriters = some expected from hexp]
      dsimp only
      rw [if_neg (inCohort_iff.mp hcohort), if_neg hdoubt, find?_eq_none_iff.mpr hnew]
      rw [if_neg (not_le.mpr hopen)]
    refine ⟨fun expected hexp hcohort hdoubt hnew hopen => ?_,
      fun expected hexp hcohort hdoubt hnew hsize hsucc hfailed htrue => ?_⟩
    · by_contra hrank
      have hin : (after ops).InCohort rank := by simp [InCohort, hcohort]
      rw [hstep expected hexp hin hdoubt hnew hopen] at h
      exact hb.not_everPublished_of_unknown hcohort hrank rfl
        (h.counted rank (.inl (mem_assign.mpr (.inl rfl))))
    · rw [hstep expected hexp hcohort hdoubt hnew (by omega)] at h
      refine (h.success _ (mem_append_right _ (mem_singleton.mpr rfl)) ?_).2.2.2
      change ((after ops).setResult rank succeeded).allSucceeded expected = true
      refine allSucceeded_iff.mpr ⟨?_, hfailed, fun r b hr => ?_⟩
      · exact (size_assign_of_not_mem succeeded hnew).trans hsize
      · rw [setResult, find?_assign] at hr
        split_ifs at hr with heq
        · rw [← hsucc]
          exact (some.inj hr).symm
        · exact htrue r b hr
  | _ => trivial

/-- **The evidence of a receive owner.** Over all prefixes of a run of calls with arbitrary
arguments, the release of the destination rests on complete evidence exactly if every call is
sound. -/
theorem evidence_holds_iff (ops : List OwnerOp) :
    (∀ pre, pre <+: ops → EvidenceHolds (calls pre) (after pre)) ↔ SoundRun ops := by
  constructor
  · rintro h pre op post rfl
    refine sound_of_holds (h (pre ++ [op]) ⟨post, ?_⟩)
    simp
  · rintro h pre ⟨post, rfl⟩
    refine SoundRun.holds fun pre' op post' he => h pre' op (post' ++ post) ?_
    rw [he]
    simp

/-- The destination is published to ranks 7 and 8, one of which is to write; then rank 99
reports. -/
def reportOfStranger : List OwnerOp :=
  [.beginPublication, .sealWriterCohort 1 none (some {7, 8}), .finishPublication,
    .recordWriterResult 99 true]

/-- Rank 7 succeeds, is then in doubt, and rank 5 completes the cohort. -/
def successInDoubt : List OwnerOp :=
  [.beginPublication, .sealWriterCohort 2 (some {5, 7}) none, .finishPublication,
    .recordWriterResult 7 true, .recordWriterInDoubt 7, .recordWriterResult 5 true]

/-- The destination is released on the result of a rank that it was never published to, and
success is announced while a writer is in doubt. -/
theorem evidence_of_stranger_and_doubt : ((after reportOfStranger).resourcesDrained none = true
      ∧ ¬EvidenceHolds (calls reportOfStranger) (after reportOfStranger))
    ∧ (((calls successInDoubt).map fun c => (c.announces, c.after.inDoubtWriters)).getLast?
        = some (true, {7})
      ∧ ¬EvidenceHolds (calls successInDoubt) (after successInDoubt)) := by
  refine ⟨⟨by decide, fun h => ?_⟩, by decide, fun h => ?_⟩
  · obtain ⟨c, hc, hmem⟩ := h.counted 99 (.inl (by decide))
    have hnone : ∀ c ∈ calls reportOfStranger, 99 ∉ c.after.published := by decide
    exact hnone c hc hmem
  · have hall : ¬∀ c ∈ calls successInDoubt, c.announces → c.after.inDoubtWriters = ∅ := by decide
    exact hall fun c hc hann => (h.success c hc hann).2.2.2

end ReceiveOperationOwner

end TrtLlm.Disagg
