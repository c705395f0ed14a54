import TrtLlm.Util.Machine
import TrtLlm.Util.PyDict

/-!
`ReceiveOperationOwner`: who may still write into the destination memory of a receive task.

The owner publishes the destination to a set of writers and collects their evidence: terminal
results, reports of doubt, settlements of earlier doubts, and acknowledgments that a session is
quiet. The memory may be released once the evidence is complete.

* `ReceiveOperationOwner.step`: the entry points, with what the caller gets;
* `Effect`, `step_effect`: everything that a call can do to the owner.

The shared deadline enters through the answer of `can_retire` alone: its calls stand at the end
of the entry points and do not change the owner.
-/

namespace TrtLlm.Disagg

/-- The exceptions that are raised. -/
inductive OwnershipError where
  | valueError (message : String)
  | runtimeError (message : String)
  deriving DecidableEq

/-- What a caller gets. -/
inductive OwnerReply where
  | done
  | flag (b : Bool)
  | result (accepted allSucceeded : Bool)
  | raised (error : OwnershipError)
  deriving DecidableEq

/-- The fields of the owner. -/
structure ReceiveOperationOwner where
  publicationPending : Bool
  cancelledUnpublished : Bool
  expectedWriters : Option ℕ
  writerCohort : Option (Finset ℕ)
  writerCandidates : Option (Finset ℕ)
  publishedWriters : Option (Finset ℕ)
  quiescedSessions : Finset ℕ
  writerResults : UMap ℕ Bool
  inDoubtWriters : Finset ℕ
  settledWriters : Finset ℕ
  publicationFailed : Bool
  invalidEvidence : Bool

/-- The entry points with their arguments. -/
inductive OwnerOp where
  | beginPublication
  | sealWriterCohort (expectedWriters : ℤ) (writerCohort publishedWriters : Option (Finset ℕ))
  | finishPublication
  | abortPublication (publishedWriters : Finset ℕ)
  | cancelUnpublished
  | recordSessionQuiesced (peerRank : ℕ)
  | recordWriterInDoubt (peerRank : ℕ)
  | recordWriterSettlement (peerRank : ℕ)
  | recordWriterResult (peerRank : ℕ) (succeeded : Bool)

namespace ReceiveOperationOwner

/-- `__init__`. -/
def init : ReceiveOperationOwner where
  publicationPending := false
  cancelledUnpublished := false
  expectedWriters := none
  writerCohort := none
  writerCandidates := none
  publishedWriters := none
  quiescedSessions := ∅
  writerResults := ∅
  inDoubtWriters := ∅
  settledWriters := ∅
  publicationFailed := false
  invalidEvidence := false

section

variable (s : ReceiveOperationOwner)

/-- `_invalidate_evidence_locked`, followed by the exception. -/
def reject (message : String) : OwnerReply × ReceiveOperationOwner :=
  (.raised (.runtimeError message), { s with invalidEvidence := true })

def beginPublication : OwnerReply × ReceiveOperationOwner :=
  if s.publicationPending ∨ s.expectedWriters ≠ none then
    (.raised (.runtimeError "destination publication was already started"), s)
  else (.done, { s with publicationPending := true })

def sealWriterCohort (expectedWriters : ℤ)
    (writerCohort publishedWriters : Option (Finset ℕ)) : OwnerReply × ReceiveOperationOwner :=
  let candidates := publishedWriters.or writerCohort
  if expectedWriters < 0 then
    (.raised (.valueError s!"expected_writers must be non-negative, got {expectedWriters}"), s)
  else if ∃ cohort ∈ writerCohort, (cohort.card : ℤ) ≠ expectedWriters then
    let members := (writerCohort.map Finset.card).getD 0
    (.raised (.valueError
      s!"writer cohort has {members} member(s), expected {expectedWriters}"), s)
  else if ∃ published ∈ candidates, (published.card : ℤ) < expectedWriters
      ∨ ∃ cohort ∈ writerCohort, ¬cohort ⊆ published then
    (.raised (.valueError "published candidates must cover every eligible writer"), s)
  else
    match s.expectedWriters with
    | some expected =>
      if expected ≠ expectedWriters.toNat ∨ s.writerCohort ≠ writerCohort
          ∨ s.writerCandidates ≠ candidates then
        (.raised (.runtimeError "writer cohort was already sealed differently"), s)
      else (.done, s)
    | none =>
      (.done, { s with
          expectedWriters := some expectedWriters.toNat
          writerCohort := writerCohort
          writerCandidates := candidates
          publishedWriters := candidates })

def finishPublication : OwnerReply × ReceiveOperationOwner :=
  (.done, { s with publicationPending := false })

def abortPublication (published : Finset ℕ) :
    OwnerReply × ReceiveOperationOwner :=
  if ∃ cohort ∈ s.writerCohort, ¬published ⊆ cohort then
    s.reject "publication recorded a writer outside the sealed cohort"
  else if ¬(s.writerResults.keys.toFinset ∪ s.inDoubtWriters ⊆ published) then
    s.reject "terminal evidence came from an unpublished writer"
  else
    (.done, { s with
        expectedWriters := some published.card
        writerCohort := some published
        publishedWriters := some published
        publicationFailed := true
        cancelledUnpublished := decide (published = ∅)
        publicationPending := false })

def cancelUnpublished : OwnerReply × ReceiveOperationOwner :=
  if s.invalidEvidence then (.flag false, s)
  else if s.expectedWriters ≠ none then (.flag s.cancelledUnpublished, s)
  else
    (.flag true, { s with
        cancelledUnpublished := true
        expectedWriters := some 0
        writerCohort := some ∅
        publishedWriters := some ∅
        publicationPending := false })

def recordSessionQuiesced (peerRank : ℕ) :
    OwnerReply × ReceiveOperationOwner :=
  if ¬∃ candidates ∈ s.writerCandidates, peerRank ∈ candidates then
    s.reject s!"session acknowledgment from unknown writer {peerRank}"
  else if ∃ published ∈ s.publishedWriters, peerRank ∈ published then
    (.done, { s with quiescedSessions := insert peerRank s.quiescedSessions })
  else (.done, s)

def recordWriterInDoubt (peerRank : ℕ) :
    OwnerReply × ReceiveOperationOwner :=
  if s.expectedWriters = none then
    s.reject s!"writer {peerRank} reported ambiguous evidence before publication"
  else if ∃ cohort ∈ s.writerCohort, peerRank ∉ cohort then
    s.reject s!"writer {peerRank} is outside the sealed cohort"
  else if peerRank ∈ s.inDoubtWriters ∨ peerRank ∈ s.settledWriters then (.flag false, s)
  else (.flag true, { s with inDoubtWriters := insert peerRank s.inDoubtWriters })

def recordWriterSettlement (peerRank : ℕ) :
    OwnerReply × ReceiveOperationOwner :=
  if s.expectedWriters = none ∨ ∃ cohort ∈ s.writerCohort, peerRank ∉ cohort then
    s.reject s!"writer {peerRank} settled outside the published cohort"
  else if peerRank ∈ s.settledWriters then (.flag false, s)
  else if peerRank ∉ s.inDoubtWriters then
    s.reject s!"writer {peerRank} settled without prior ambiguous evidence"
  else if s.writerResults.find? peerRank = some true then
    s.reject s!"writer {peerRank} settled after contradictory success"
  else
    (.flag true, { s with
        writerResults := s.writerResults.assign peerRank false
        inDoubtWriters := s.inDoubtWriters.erase peerRank
        settledWriters := insert peerRank s.settledWriters })

/-- `all_succeeded`, after the result has been recorded. -/
def allSucceeded (expected : ℕ) : Bool :=
  s.writerResults.size = expected && !s.publicationFailed
    && s.writerResults.entries.all Prod.snd

/-- `_writer_results[peer_rank] = succeeded`. -/
def setResult (peerRank : ℕ) (succeeded : Bool) :
    ReceiveOperationOwner :=
  { s with writerResults := s.writerResults.assign peerRank succeeded }

def recordWriterResult (peerRank : ℕ) (succeeded : Bool) :
    OwnerReply × ReceiveOperationOwner :=
  match s.expectedWriters with
  | none => s.reject s!"writer {peerRank} reported terminal evidence before publication"
  | some expected =>
    if ∃ cohort ∈ s.writerCohort, peerRank ∉ cohort then
      s.reject s!"writer {peerRank} is outside the sealed cohort"
    else if peerRank ∈ s.inDoubtWriters then
      if succeeded then s.reject s!"writer {peerRank} reported success while in doubt"
      else (.result false false, s)
    else
      match s.writerResults.find? peerRank with
      | some previous =>
        if previous ≠ succeeded then
          s.reject s!"writer {peerRank} reported contradictory terminal evidence"
        else (.result false false, s)
      | none =>
        if expected ≤ s.writerResults.size then (.result false false, s)
        else
          (.result true ((s.setResult peerRank succeeded).allSucceeded expected),
            s.setResult peerRank succeeded)

/-- `_resources_drained_locked`. -/
def resourcesDrainedLocked : Prop :=
  s.expectedWriters ≠ none
    ∧ (s.expectedWriters = some s.writerResults.size
      ∨ ∃ published ∈ s.publishedWriters, published ⊆ s.quiescedSessions)
    ∧ s.publicationPending = false ∧ s.inDoubtWriters = ∅ ∧ s.invalidEvidence = false

end

instance (s : ReceiveOperationOwner) : Decidable s.resourcesDrainedLocked :=
  inferInstanceAs (Decidable (_ ∧ (_ ∨ _) ∧ _ ∧ _ ∧ _))

/-- `resources_drained`; the argument is the answer of `can_retire`, or `none` without a
deadline. -/
def resourcesDrained (s : ReceiveOperationOwner) (canRetire : Option Bool) : Bool :=
  s.resourcesDrainedLocked && canRetire.getD true

/-- A call of an entry point. -/
def step (s : ReceiveOperationOwner) : OwnerOp → OwnerReply × ReceiveOperationOwner
  | .beginPublication => s.beginPublication
  | .sealWriterCohort expected cohort published => s.sealWriterCohort expected cohort published
  | .finishPublication => s.finishPublication
  | .abortPublication published => s.abortPublication published
  | .cancelUnpublished => s.cancelUnpublished
  | .recordSessionQuiesced peerRank => s.recordSessionQuiesced peerRank
  | .recordWriterInDoubt peerRank => s.recordWriterInDoubt peerRank
  | .recordWriterSettlement peerRank => s.recordWriterSettlement peerRank
  | .recordWriterResult peerRank succeeded => s.recordWriterResult peerRank succeeded

/-! ### Everything that a call can do -/

/-- The calls that bring evidence about writers. -/
def IsEvidence : OwnerOp → Prop
  | .abortPublication _ => True
  | .recordSessionQuiesced _ => True
  | .recordWriterInDoubt _ => True
  | .recordWriterSettlement _ => True
  | .recordWriterResult _ _ => True
  | _ => False

/-- The ranks that the destination is published to. -/
def published (s : ReceiveOperationOwner) : Finset ℕ := s.publishedWriters.getD ∅

lemma mem_published {s : ReceiveOperationOwner} {rank : ℕ} :
    rank ∈ s.published ↔ ∃ p ∈ s.publishedWriters, rank ∈ p := by
  rw [published]
  cases s.publishedWriters <;> simp

/-- The rank is in the sealed cohort, if that is known. -/
def InCohort (s : ReceiveOperationOwner) (rank : ℕ) : Prop :=
  ∀ cohort ∈ s.writerCohort, rank ∈ cohort

lemma inCohort_iff {s : ReceiveOperationOwner} {rank : ℕ} :
    s.InCohort rank ↔ ¬∃ cohort ∈ s.writerCohort, rank ∉ cohort := by
  simp [InCohort]

/-- The effects of a call, each with what was checked before it. -/
inductive Effect (s : ReceiveOperationOwner) :
    OwnerOp → OwnerReply → ReceiveOperationOwner → Prop
  | idle {op : OwnerOp} {reply : OwnerReply} (hresult : ∀ accepted, reply ≠ .result accepted true)
      (hraised : ∀ e, reply = .raised e → ¬IsEvidence op) : Effect s op reply s
  | rejected {op : OwnerOp} (e : OwnershipError) (hop : IsEvidence op) :
      Effect s op (.raised e) { s with invalidEvidence := true }
  | pending {op : OwnerOp} (b : Bool) (hop : ¬IsEvidence op) :
      Effect s op .done { s with publicationPending := b }
  | sealed {expected : ℤ} {cohort published : Option (Finset ℕ)} (hnew : s.expectedWriters = none)
      (hcard : ∀ c ∈ cohort, c.card = expected.toNat)
      (hcover : ∀ c ∈ cohort, c ⊆ (published.or cohort).getD ∅) :
      Effect s (.sealWriterCohort expected cohort published) .done
        { s with
          expectedWriters := some expected.toNat
          writerCohort := cohort
          writerCandidates := published.or cohort
          publishedWriters := published.or cohort }
  | aborted {published : Finset ℕ} (hcohort : ∀ c ∈ s.writerCohort, published ⊆ c)
      (hresults : ∀ rank ∈ s.writerResults, rank ∈ published)
      (hdoubt : s.inDoubtWriters ⊆ published) :
      Effect s (.abortPublication published) .done
        { s with
          expectedWriters := some published.card
          writerCohort := some published
          publishedWriters := some published
          publicationFailed := true
          cancelledUnpublished := decide (published = ∅)
          publicationPending := false }
  | cancelled (hnew : s.expectedWriters = none) :
      Effect s .cancelUnpublished (.flag true)
        { s with
          cancelledUnpublished := true
          expectedWriters := some 0
          writerCohort := some ∅
          publishedWriters := some ∅
          publicationPending := false }
  | quiesced {rank : ℕ} (hmem : rank ∈ s.published) :
      Effect s (.recordSessionQuiesced rank) .done
        { s with quiescedSessions := insert rank s.quiescedSessions }
  | doubted {rank : ℕ} (hsealed : s.expectedWriters ≠ none) (hcohort : s.InCohort rank)
      (hnew : rank ∉ s.inDoubtWriters) (hsettled : rank ∉ s.settledWriters) :
      Effect s (.recordWriterInDoubt rank) (.flag true)
        { s with inDoubtWriters := insert rank s.inDoubtWriters }
  | settled {rank : ℕ} (hdoubt : rank ∈ s.inDoubtWriters) :
      Effect s (.recordWriterSettlement rank) (.flag true)
        { s with
          writerResults := s.writerResults.assign rank false
          inDoubtWriters := s.inDoubtWriters.erase rank
          settledWriters := insert rank s.settledWriters }
  | counted {rank : ℕ} {succeeded : Bool} {expected : ℕ}
    (hsealed : s.expectedWriters = some expected)
      (hcohort : s.InCohort rank) (hdoubt : rank ∉ s.inDoubtWriters)
      (hnew : rank ∉ s.writerResults) (hopen : s.writerResults.size < expected) :
      Effect s (.recordWriterResult rank succeeded)
        (.result true ((s.setResult rank succeeded).allSucceeded expected))
        (s.setResult rank succeeded)

variable (s : ReceiveOperationOwner)

lemma beginPublication_effect :
    Effect s .beginPublication s.beginPublication.1 s.beginPublication.2 := by
  rw [beginPublication]
  split_ifs with h
  · exact .idle (by simp) fun e _ => id
  · exact .pending true id

lemma sealWriterCohort_effect (expected : ℤ) (cohort published : Option (Finset ℕ)) :
    Effect s (.sealWriterCohort expected cohort published)
      (s.sealWriterCohort expected cohort published).1
      (s.sealWriterCohort expected cohort published).2 := by
  rw [sealWriterCohort]
  split_ifs with hneg hcard hcover
  · exact .idle (by simp) fun e _ => id
  · exact .idle (by simp) fun e _ => id
  · exact .idle (by simp) fun e _ => id
  · cases hexp : s.expectedWriters with
    | some e =>
      dsimp only
      split_ifs
      · exact .idle (by simp) fun e _ => id
      · exact .idle (by simp) fun e _ => id
    | none =>
      refine .sealed hexp (fun c hc => ?_) fun c hc => ?_
      · have hc' : (c.card : ℤ) = expected := by
          by_contra hne
          exact hcard ⟨c, hc, hne⟩
        omega
      · cases hcand : published.or cohort with
        | none =>
          obtain ⟨-, hnone⟩ := Option.or_eq_none_iff.mp hcand
          simp [hnone] at hc
        | some p =>
          by_contra hsub
          exact hcover ⟨p, hcand, .inr ⟨c, hc, hsub⟩⟩

lemma abortPublication_effect (published : Finset ℕ) :
    Effect s (.abortPublication published) (s.abortPublication published).1
      (s.abortPublication published).2 := by
  rw [abortPublication]
  split_ifs with hcohort hresults
  · exact .rejected _ trivial
  · rw [Finset.union_subset_iff] at hresults
    refine .aborted (fun c hc => ?_) (fun rank hrank => ?_) hresults.2
    · by_contra hsub
      exact hcohort ⟨c, hc, hsub⟩
    · exact hresults.1 (List.mem_toFinset.mpr hrank)
  · exact .rejected _ trivial

lemma cancelUnpublished_effect :
    Effect s .cancelUnpublished s.cancelUnpublished.1 s.cancelUnpublished.2 := by
  rw [cancelUnpublished]
  split_ifs with hinvalid hexp
  · exact .idle (by simp) (by simp)
  · exact .idle (by simp) (by simp)
  · exact .cancelled (not_not.mp hexp)

lemma recordSessionQuiesced_effect (rank : ℕ) :
    Effect s (.recordSessionQuiesced rank) (s.recordSessionQuiesced rank).1
      (s.recordSessionQuiesced rank).2 := by
  rw [recordSessionQuiesced]
  split_ifs with hknown hpub
  · exact .quiesced (mem_published.mpr hpub)
  · exact .idle (by simp) (by simp)
  · exact .rejected _ trivial

lemma recordWriterInDoubt_effect (rank : ℕ) :
    Effect s (.recordWriterInDoubt rank) (s.recordWriterInDoubt rank).1
      (s.recordWriterInDoubt rank).2 := by
  rw [recordWriterInDoubt]
  split_ifs with hexp hcohort hknown
  · exact .rejected _ trivial
  · exact .rejected _ trivial
  · exact .idle (by simp) (by simp)
  · rw [not_or] at hknown
    exact .doubted hexp (inCohort_iff.mpr hcohort) hknown.1 hknown.2

lemma recordWriterSettlement_effect (rank : ℕ) :
    Effect s (.recordWriterSettlement rank) (s.recordWriterSettlement rank).1
      (s.recordWriterSettlement rank).2 := by
  rw [recordWriterSettlement]
  split_ifs with hout hsettled hdoubt hsuccess
  · exact .rejected _ trivial
  · exact .idle (by simp) (by simp)
  · exact .rejected _ trivial
  · exact .settled hdoubt
  · exact .rejected _ trivial

lemma recordWriterResult_effect (rank : ℕ) (succeeded : Bool) :
    Effect s (.recordWriterResult rank succeeded) (s.recordWriterResult rank succeeded).1
      (s.recordWriterResult rank succeeded).2 := by
  rw [recordWriterResult]
  cases hexp : s.expectedWriters with
  | none => exact .rejected _ trivial
  | some expected =>
    dsimp only
    by_cases hcohort : ∃ cohort ∈ s.writerCohort, rank ∉ cohort
    · rw [if_pos hcohort]
      exact .rejected _ trivial
    rw [if_neg hcohort]
    by_cases hdoubt : rank ∈ s.inDoubtWriters
    · rw [if_pos hdoubt]
      split_ifs
      · exact .rejected _ trivial
      · exact .idle (by simp) (by simp)
    rw [if_neg hdoubt]
    cases hprev : s.writerResults.find? rank with
    | some previous =>
      dsimp only
      split_ifs
      · exact .rejected _ trivial
      · exact .idle (by simp) (by simp)
    | none =>
      split_ifs with hfull
      · exact .idle (by simp) (by simp)
      · exact .counted hexp (inCohort_iff.mpr hcohort) hdoubt
          (UMap.find?_eq_none_iff.mp hprev) (not_le.mp hfull)

/-- Every call has one of the effects. -/
theorem step_effect (op : OwnerOp) : Effect s op (s.step op).1 (s.step op).2 := by
  cases op with
  | beginPublication => exact s.beginPublication_effect
  | sealWriterCohort expected cohort published =>
    exact s.sealWriterCohort_effect expected cohort published
  | finishPublication => exact .pending false id
  | abortPublication published => exact s.abortPublication_effect published
  | cancelUnpublished => exact s.cancelUnpublished_effect
  | recordSessionQuiesced rank => exact s.recordSessionQuiesced_effect rank
  | recordWriterInDoubt rank => exact s.recordWriterInDoubt_effect rank
  | recordWriterSettlement rank => exact s.recordWriterSettlement_effect rank
  | recordWriterResult rank succeeded => exact s.recordWriterResult_effect rank succeeded

end ReceiveOperationOwner

end TrtLlm.Disagg
