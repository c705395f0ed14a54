import TrtLlm.SchedulerV2.ContextTurns

/-!
A pass of the V2 scheduler stays within its budgets, but for the draft tokens of a last chunk.

What a pass has scheduled is bounded by what the budget is charged, and the budget is charged only
after a check, with one exception: the draft tokens of the chunk that ends a context. While phase 2
schedules the requests that are not starved, the budget also holds the shares of the starved ones;
these are released before the latter run.

* `WithinBudget`: the invariant, with the tokens and requests held at the moment;
* `scheduleRequest_withinBudget`: **the batches of a call fit the budgets exactly when the draft
  tokens fit in every turn that ends a context**;
* `last_chunk_exceeds`: they need not.
-/

namespace TrtLlm.SchedulerV2

open Outcome List Option

variable {Ω : Type}

namespace Iteration

variable (t : Iteration Ω)

/-- The pages of the adapters that requests about to complete hold on the device. -/
def preClaimedPages : ℕ := t.preClaimedBudget.claimedPeftPages

/-- The pages claimed are those the pass began with, or they fit the device. -/
def PeftWithin (preClaimed claimed : ℕ) : Prop :=
  claimed = preClaimed ∨ ∀ m, t.config.peftCacheManager = some m → claimed ≤ m.maxDevicePages

/-- The invariant of a pass that has `heldTokens` and `heldRequests` set aside; `preClaimed` are
the adapter pages it began with. The tokens are within the limit when the drafts fit. -/
structure WithinBudget (draftsFit : Prop) (preClaimed : ℕ) (heldTokens : ℤ) (heldRequests : ℕ)
    (s : Pass Ω) : Prop where
  held_nonneg : 0 ≤ heldTokens
  tokens : t.scheduledTokens s + heldTokens ≤ s.budget.numTokens
  tokens_le : draftsFit → ∀ m, t.config.maxNumTokens = some m → t.scheduledTokens s ≤ m
  requests : s.scheduledEncoder.length + s.scheduledCtx.length + s.scheduledGen.length
    + heldRequests = s.budget.numRequests
  requests_le : s.scheduledEncoder.length + s.scheduledCtx.length + s.scheduledGen.length
    ≤ t.config.maxNumRequests
  chunks : ∀ k ∈ s.scheduledCtx, 0 < k.chunkSize ∧ k.chunkSize ≤ k.contextRemaining
  peft : t.PeftWithin preClaimed s.budget.claimedPeftPages
  pending : ∀ i ∈ s.pendingCtx, t.IsPending i

variable {t} {draftsFit : Prop} {preClaimed : ℕ} {heldTokens : ℤ} {heldRequests : ℕ}
  {s s' : Pass Ω}

/-! ### The invariant under a charge -/

variable {pages : ℕ} {r : Request}

lemma PeftWithin.charge {b : BudgetTracker} (h : t.PeftWithin preClaimed b.claimedPeftPages)
    (hpages : b.peftPagesNeeded t.config r = some pages) :
    t.PeftWithin preClaimed (b.claimedPeftPages + pages) := by
  obtain hzero | hfits := b.peftPagesNeeded_le hpages
  · rwa [hzero]
  · exact .inr hfits

section

variable (h : t.WithinBudget draftsFit preClaimed heldTokens heldRequests s)
include h

/-- What is charged and fits the budget fits beside what is scheduled. -/
lemma WithinBudget.le_of_fits {k : ℕ} (hfits : s.budget.canFitTokens t.config k = true) (m : ℕ)
    (hm : t.config.maxNumTokens = some m) : t.scheduledTokens s + k ≤ m := by
  have htokens := h.tokens
  have hheld := h.held_nonneg
  simp only [BudgetTracker.canFitTokens, hm, all_some, decide_eq_true_eq] at hfits
  omega

/-- **A request that fits is added**, and the budget is charged for it. -/
lemma WithinBudget.add {n : ℤ} {k : ℕ} (hfull : s.budget.requestsFull t.config = false)
    (hpages : s.budget.peftPagesNeeded t.config r = some pages)
    (hbudget : s'.budget = s.budget.commit r n pages) (hcharged : (k : ℤ) ≤ n)
    (htokens : t.scheduledTokens s' = t.scheduledTokens s + k)
    (hle : draftsFit → ∀ m, t.config.maxNumTokens = some m → t.scheduledTokens s + k ≤ m)
    (hcount : s'.scheduledEncoder.length + s'.scheduledCtx.length + s'.scheduledGen.length
      = s.scheduledEncoder.length + s.scheduledCtx.length + s.scheduledGen.length + 1)
    (hchunks : ∀ k ∈ s'.scheduledCtx, k ∈ s.scheduledCtx
      ∨ 0 < k.chunkSize ∧ k.chunkSize ≤ k.contextRemaining)
    (hpending : s'.pendingCtx = s.pendingCtx) :
    t.WithinBudget draftsFit preClaimed heldTokens heldRequests s' := by
  have htok := h.tokens
  have hreq := h.requests
  simp only [BudgetTracker.requestsFull, decide_eq_false_iff_not, not_le] at hfull
  refine ⟨h.held_nonneg, ?_, htokens ▸ hle, ?_, ?_, ?_, ?_, hpending ▸ h.pending⟩
  · rw [hbudget, BudgetTracker.commit_numTokens]
    omega
  · rw [hbudget, BudgetTracker.commit_numRequests]
    omega
  · omega
  · intro k hk
    obtain hold | hnew := hchunks k hk
    · exact h.chunks k hold
    · exact hnew
  · rw [hbudget, BudgetTracker.commit_claimedPeftPages]
    exact PeftWithin.charge h.peft hpages

/-- What the invariant does not speak of may change. -/
lemma WithinBudget.of_same (hencoder : s'.scheduledEncoder = s.scheduledEncoder)
    (hctx : s'.scheduledCtx = s.scheduledCtx) (hgen : s'.scheduledGen = s.scheduledGen)
    (hpending : s'.pendingCtx = s.pendingCtx) (hbudget : s'.budget = s.budget) :
    t.WithinBudget draftsFit preClaimed heldTokens heldRequests s' := by
  have hsame : t.scheduledTokens s' = t.scheduledTokens s := by
    rw [scheduledTokens, hencoder, hctx, hgen]
    rfl
  exact ⟨h.held_nonneg, by rw [hsame, hbudget]; exact h.tokens, hsame ▸ h.tokens_le,
    by rw [hencoder, hctx, hgen, hbudget]; exact h.requests,
    by rw [hencoder, hctx, hgen]; exact h.requests_le, hctx ▸ h.chunks, hbudget ▸ h.peft,
    hpending ▸ h.pending⟩

lemma WithinBudget.of_keeps (hk : s.Keeps s') :
    t.WithinBudget draftsFit preClaimed heldTokens heldRequests s' :=
  h.of_same hk.scheduledEncoder hk.scheduledCtx hk.scheduledGen
    ((congrArg Pass.pendingCtx hk).trans rfl) hk.budget

/-- Adapter pages are charged alone for a request that does not run in the forward pass. -/
lemma WithinBudget.chargePeft (hpages : s.budget.peftPagesNeeded t.config r = some pages) :
    t.WithinBudget draftsFit preClaimed heldTokens heldRequests
      { s with budget := s.budget.chargePeft r pages } :=
  ⟨h.held_nonneg, by rw [BudgetTracker.chargePeft_numTokens]; exact h.tokens, h.tokens_le,
    by simpa using h.requests, h.requests_le, h.chunks,
    by simpa using PeftWithin.charge h.peft hpages, h.pending⟩

/-! ### Phase 1 -/

lemma disaggStep_within (i : ℕ) :
    Proceeds (t.WithinBudget draftsFit preClaimed heldTokens heldRequests)
      (t.WithinBudget draftsFit preClaimed heldTokens heldRequests) (t.disaggStep i s) := by
  unfold disaggStep
  split
  · exact h
  · rename_i pages hpages
    have hcharged := h.chargePeft hpages
    dsimp only
    split_ifs
    · exact hcharged
    · exact hcharged.of_same rfl rfl rfl rfl rfl
    · exact h.of_same rfl rfl rfl rfl rfl

end

/-- A scheduled generation request is charged for what it has in the forward pass. -/
lemma tryScheduleGeneration_tokens (i : ℕ) (b : BudgetTracker) (beam : ℕ) (v : Victims Ω) :
    Meets Raise.IsReport (fun a => a.action = .scheduled →
        a.tokens = (t.generationTokens i : ℤ) ∧ b.canFitTokens t.config a.tokens = true)
      (t.tryScheduleGeneration i b beam v) := by
  unfold tryScheduleGeneration
  dsimp only
  split_ifs with hfit hbeam hhelix hroom
  · simp
  · simp
  · simp [Raise.IsReport]
  · intro _
    refine ⟨by simp [generationTokens], by simpa using hfit⟩
  · simp

section

variable (h : t.WithinBudget draftsFit preClaimed 0 0 s)
include h

lemma generationTurn_within {i : ℕ} (hfull : s.budget.requestsFull t.config = false) :
    Meets Raise.IsReport (Proceeds (t.WithinBudget draftsFit preClaimed 0 0)
      (t.WithinBudget draftsFit preClaimed 0 0)) (t.generationTurn i s) := by
  unfold generationTurn
  split
  · exact h
  · rename_i pages hpages
    refine (tryScheduleGeneration_tokens i _ _ _).bind fun a ha => ?_
    have hsame : t.WithinBudget draftsFit preClaimed 0 0
        { s with victims := a.victims, scheduledBeamWidth := a.scheduledBeamWidth } :=
      h.of_same rfl rfl rfl rfl rfl
    split
    · exact hsame
    · exact hsame
    · rename_i haction
      obtain ⟨htokens, hfits⟩ := ha haction
      refine hsame.add hfull hpages rfl htokens.ge ?_
        (fun _ => hsame.le_of_fits (htokens ▸ hfits)) ?_ (fun k hk => .inl hk) rfl
      · simp only [scheduledTokens, forwardTokens, map_append, sum_append, map_cons, map_nil,
          sum_cons, sum_nil]
        omega
      · simp only [length_append, length_singleton]
        omega

/-- A turn of phase 1 keeps the invariant. -/
lemma generationStep_within {i : ℕ}
    (hi : i < t.requests.length) (exclusive : Option RemoteTailMode) :
    Meets Raise.IsReport (Proceeds (t.WithinBudget draftsFit preClaimed 0 0)
      (t.WithinBudget draftsFit preClaimed 0 0)) (t.generationStep exclusive i s) := by
  unfold generationStep
  dsimp only
  split_ifs with hend hvictim hinflight hdisagg hfull hrange hpending hexclusive
  · exact h
  · exact h
  · exact h
  · exact disaggStep_within h i
  · exact h
  · exact h
  · refine ⟨h.held_nonneg, h.tokens, h.tokens_le, h.requests, h.requests_le, h.chunks, h.peft, ?_⟩
    intro j hj
    rw [mem_append, mem_singleton] at hj
    obtain hj | rfl := hj
    · exact h.pending j hj
    · refine ⟨hi, by simpa using hinflight, ?_⟩
      exact hpending.imp (fun h => (state_eq h (by decide)).2) fun h => (state_eq h (by decide)).2
  · exact h
  · exact generationTurn_within h (by simpa using hfull)

lemma generationPhase_within (exclusive : Option RemoteTailMode) :
    Meets Raise.IsReport (t.WithinBudget draftsFit preClaimed 0 0)
      (t.generationPhase exclusive s) := by
  refine Meets.forIn (I := fun rest s => t.WithinBudget draftsFit preClaimed 0 0 s
    ∧ ∀ i ∈ rest, i < t.requests.length) (V := fun _ _ => True) (fun _ _ _ => trivial) ?_
    (fun s hs => hs.1) ⟨h, fun i hi => mem_range.mp hi⟩
  intro i rest s _ hs
  refine (generationStep_within hs.1 (hs.2 i mem_cons_self) exclusive).imp fun r hr => ?_
  cases r with
  | yield s' => exact ⟨hr, fun j hj => hs.2 j (mem_cons_of_mem i hj)⟩
  | done s' => exact hr

end

/-! ### Phase 2 -/

lemma tryScheduleEncoder_tokens (i : ℕ) (b : BudgetTracker) :
    Meets Raise.IsReport (fun a => ∀ tokens, a = some tokens →
        tokens = t.encoderTokens i ∧ b.canFitTokens t.config tokens = true)
      (t.tryScheduleEncoder i b) := by
  unfold tryScheduleEncoder
  split_ifs
  · simp [Raise.IsReport]
  · split
    · simp [Raise.IsReport]
    · rename_i n hn
      split_ifs with hfit
      · simp
      · simp [Raise.IsReport]
      · rintro _ ⟨⟩
        exact ⟨by simp [encoderTokens, hn], by simpa using hfit⟩

section ContextPhase

variable (hp : t.Prepares) {w : Ω} {o : ContextOrder}

include hp

/-- The attempt of a turn keeps the invariant. -/
lemma contextTurn_within {entry : ℕ × Option ℤ}
    (h : t.WithinBudget (t.DraftsFit w) preClaimed heldTokens heldRequests s)
    (hi : t.IsPending entry.1) (hturn : t.CallTurn w o entry s) (htakes : t.TakesUp o entry s)
    (hpages : s.budget.peftPagesNeeded t.config (t.req entry.1) = some pages) :
    Meets (RaisesFor (t.ComesToParked w))
      (Proceeds (t.WithinBudget (t.DraftsFit w) preClaimed heldTokens heldRequests)
        (t.WithinBudget (t.DraftsFit w) preClaimed heldTokens heldRequests))
      (t.contextTurn o entry.1 (t.entryCap entry s) pages (shareTaken entry s)) := by
  have hshare : t.WithinBudget (t.DraftsFit w) preClaimed heldTokens heldRequests
      (shareTaken entry s) := h.of_same rfl rfl rfl rfl rfl
  unfold contextTurn
  split_ifs with hencoder
  · refine ((tryScheduleEncoder_tokens entry.1 _).imp_error
      fun _ he => raisesFor_of_isReport he).bind fun a ha => ?_
    cases a with
    | none => exact hshare.of_same rfl rfl rfl rfl rfl
    | some tokens =>
      obtain ⟨rfl, hfits⟩ := ha tokens rfl
      refine hshare.add htakes.notFull hpages rfl (le_refl _) ?_ (fun _ => hshare.le_of_fits hfits)
        ?_ (fun k hk => .inl hk) rfl
      · simp only [scheduledTokens, forwardTokens, map_append, sum_append, map_cons, map_nil,
          sum_cons, sum_nil]
        omega
      · simp only [length_append, length_singleton]
        omega
  · have hattempt := ((tryScheduleContext_fits (o := o) hp hi hencoder).and
      (t.tryScheduleContext_keeps o entry.1 (t.entryCap entry s) (shareTaken entry s))).imp_error
        fun e he hphase => (⟨o, entry, s, hturn, he hphase⟩ : t.ComesToParked w)
    refine hattempt.bind ?_
    rintro ⟨attempt, s'⟩ ⟨hfit, hkeeps⟩
    have hsame := hshare.of_keeps hkeeps
    cases attempt with
    | skip => exact hsame
    | stop => exact hsame.of_same rfl rfl rfl rfl rfl
    | scheduled tokens k flag =>
      have hk := hfit tokens k flag rfl
      have hbudget := hkeeps.budget
      have hscheduled := scheduledTokens_of_keeps (t := t) hkeeps
      have hbefore : t.scheduledTokens (shareTaken entry s) = t.scheduledTokens s := rfl
      refine hsame.add (by rw [hbudget]; exact htakes.notFull) (by rw [hbudget]; exact hpages) rfl
        hk.charged ?_ ?_ ?_ ?_ rfl
      · simp only [scheduledTokens, forwardTokens, map_append, sum_append, map_cons, map_nil,
          sum_cons, sum_nil]
        omega
      · intro hdrafts m hm
        obtain hfits | ⟨hends, htokens⟩ := hk.fits
        · have := hshare.le_of_fits hfits m hm
          omega
        · have := hdrafts o entry s hturn htakes hends m hm
          have hlast : t.lastChunkTokens entry.1 (shareTaken entry s)
              = t.lastChunkTokens entry.1 s := rfl
          omega
      · simp only [length_append, length_singleton]
        omega
      · intro k' hk'
        rw [mem_append, mem_singleton] at hk'
        obtain hk' | rfl := hk'
        · exact .inl hk'
        · exact .inr ⟨hk.pos, hk.le⟩

/-- A turn of phase 2 keeps the invariant, whatever is held. -/
lemma contextStep_within {entry : ℕ × Option ℤ}
    (h : t.WithinBudget (t.DraftsFit w) preClaimed heldTokens heldRequests s)
    (hi : t.IsPending entry.1) (hturn : t.CallTurn w o entry s) :
    Meets (RaisesFor (t.ComesToParked w))
      (Proceeds (t.WithinBudget (t.DraftsFit w) preClaimed heldTokens heldRequests)
        (t.WithinBudget (t.DraftsFit w) preClaimed heldTokens heldRequests))
      (t.contextStep o entry s) := by
  obtain htakes | ⟨step, deferred, hstep, hvalue⟩ := t.takesUp_or_passes o entry s
  · obtain ⟨pages, hpages, heq⟩ := htakes.contextStep_eq
    rw [heq]
    exact contextTurn_within hp h hi hturn htakes hpages
  · rw [hstep, meets_ok]
    have hsame : t.WithinBudget (t.DraftsFit w) preClaimed heldTokens heldRequests step.value := by
      rw [hvalue]
      exact h.of_same rfl rfl rfl rfl rfl
    cases step with
    | yield s' => exact hsame
    | done s' => exact hsame

/-- The loop over some pending requests keeps the invariant. -/
lemma contextLoop_within {entries : List (ℕ × Option ℤ)}
    (h : t.WithinBudget (t.DraftsFit w) preClaimed heldTokens heldRequests s)
    (hentries : ∀ e ∈ entries, t.IsPending e.1)
    (hturns : ∀ e u, Visits (t.contextStep o) entries s e u → t.CallTurn w o e u) :
    Meets (RaisesFor (t.ComesToParked w))
      (t.WithinBudget (t.DraftsFit w) preClaimed heldTokens heldRequests)
      (forIn entries s (t.contextStep o)) := by
  refine Meets.forIn
    (I := fun rest s => t.WithinBudget (t.DraftsFit w) preClaimed heldTokens heldRequests s
      ∧ ∀ e ∈ rest, t.IsPending e.1) hturns ?_ (fun s hs => hs.1) ⟨h, hentries⟩
  intro e rest s hturn hs
  refine (contextStep_within hp hs.1 (hs.2 e mem_cons_self) hturn).imp fun r hr => ?_
  cases r with
  | yield s' => exact ⟨hr, fun e' he' => hs.2 e' (mem_cons_of_mem e he')⟩
  | done s' => exact hr

end ContextPhase

/-! ### The shares of the starved -/

lemma starvedShare_nonneg (w : Ω) (left : ℤ) (i : ℕ) : 0 ≤ t.starvedShare w left i := by
  unfold starvedShare
  dsimp only
  split_ifs
  · exact mul_nonneg (Int.ediv_nonneg (le_max_left _ _) (by omega)) (by omega)
  · exact le_max_left _ _

lemma starvedCtxShares_sum_nonneg (w : Ω) (left : ℤ) (starved : List ℕ) :
    0 ≤ (t.starvedCtxShares w left starved).sum := by
  induction starved generalizing left with
  | nil => exact le_refl 0
  | cons i starved ih =>
    have hshare := t.starvedShare_nonneg w left i
    have hrest := ih (left - t.starvedShare w left i)
    simp only [starvedCtxShares, sum_cons]
    omega

/-! ### A pass -/

/-- Tokens and requests are held back. -/
lemma WithinBudget.hold (h : t.WithinBudget draftsFit preClaimed 0 0 s) {n : ℤ} (hn : 0 ≤ n)
    (k : ℕ) : t.WithinBudget draftsFit preClaimed n k { s with budget := s.budget.hold n k } := by
  have htokens := h.tokens
  have hrequests := h.requests
  refine ⟨hn, ?_, h.tokens_le, ?_, h.requests_le, h.chunks, h.peft, h.pending⟩
  · dsimp only [BudgetTracker.hold, scheduledTokens] at htokens ⊢
    omega
  · dsimp only [BudgetTracker.hold]
    omega

lemma WithinBudget.release {n : ℤ} {k : ℕ} (h : t.WithinBudget draftsFit preClaimed n k s) :
    t.WithinBudget draftsFit preClaimed 0 0
      { s with budget := s.budget.release n k, held := n } := by
  have htokens := h.tokens
  have hrequests := h.requests
  refine ⟨le_refl 0, ?_, h.tokens_le, ?_, h.requests_le, h.chunks, h.peft, h.pending⟩
  · dsimp only [BudgetTracker.release, scheduledTokens] at htokens ⊢
    omega
  · dsimp only [BudgetTracker.release]
    omega

lemma preClaimed_foldl (requests : List Request) (b : BudgetTracker) :
    (requests.foldl (fun b r => b.preClaimPeft t.config r) b).numTokens = b.numTokens
      ∧ (requests.foldl (fun b r => b.preClaimPeft t.config r) b).numRequests
        = b.numRequests := by
  induction requests generalizing b with
  | nil => exact ⟨rfl, rfl⟩
  | cons r requests ih =>
    rw [foldl_cons]
    exact ⟨(ih _).1.trans (b.preClaimPeft_numTokens _ r),
      (ih _).2.trans (b.preClaimPeft_numRequests _ r)⟩

variable (t) in
lemma startPass_within (draftsFit : Prop) (w : Ω) (parked : List ℕ) :
    t.WithinBudget draftsFit t.preClaimedPages 0 0 (t.startPass w parked) := by
  obtain ⟨htokens, hrequests⟩ := t.preClaimed_foldl
    (t.requests.filter fun r => r.state = .kGENERATION_TO_COMPLETE) {}
  have hnone : t.scheduledTokens (t.startPass w parked) = 0 := rfl
  refine ⟨le_refl 0, ?_, fun _ m _ => ?_, ?_, Nat.zero_le _, by simp [startPass], .inl rfl,
    by simp [startPass]⟩
  · rw [hnone]
    simp only [startPass, preClaimedBudget, htokens]
    omega
  · omega
  · simp only [startPass, preClaimedBudget, hrequests]
    simp

section Pass

variable (hp : t.Prepares) {w : Ω} {deferRemote : Bool} {waits : Option (ℕ → Option (Option ℕ))}

include hp

lemma contextPhase_within {exclusive : Option RemoteTailMode}
    (h : t.WithinBudget (t.DraftsFit w) preClaimed 0 0 s)
    (hturns : ∀ o e u, t.PhaseTurn deferRemote exclusive waits s o e u → t.CallTurn w o e u) :
    Meets (RaisesFor (t.ComesToParked w))
      (fun r => t.WithinBudget (t.DraftsFit w) preClaimed 0 0 r.2)
      (t.contextPhase deferRemote exclusive waits s) := by
  have hperm := t.orderContext_perm s.victims s.pendingCtx
  have hfirst : ∀ e ∈ (t.contextOrder deferRemote exclusive waits s).pendingCtx.map
      (·, (none : Option ℤ)), t.IsPending e.1 := by
    intro e he
    obtain ⟨i, hi, rfl⟩ := List.mem_map.mp he
    exact h.pending i (hperm.subset (mem_append_left _ hi))
  have hstarved : ∀ e ∈ (t.starvedCtx s).zip ((t.starvedShares s).map some), t.IsPending e.1 :=
    fun e he => h.pending _ (hperm.subset (mem_append_right _ (of_mem_zip he).1))
  have hhold := h.hold (t.starvedCtxShares_sum_nonneg s.world
    ((s.budget.remainingTokens t.config).getD 0) (t.starvedCtx s)) (t.starvedCtx s).length
  have henter : t.WithinBudget (t.DraftsFit w) preClaimed (t.starvedShares s).sum
      (t.starvedCtx s).length (t.enterContextPhase s) := hhold.of_same rfl rfl rfl rfl rfl
  refine (contextLoop_within hp henter hfirst fun e u hv =>
    hturns _ e u ⟨rfl, .inl hv⟩).bind_of_eq fun s' hs' hwithin => ?_
  have hreleased := hwithin.release
  dsimp only
  split_ifs with hstopped
  · exact hreleased
  · have hgoes : s'.ctxStopped = false := eq_false_of_ne_true hstopped
    exact (contextLoop_within hp hreleased hstarved fun e u hv =>
      hturns _ e u ⟨rfl, .inr ⟨s', hs', hgoes, hv⟩⟩).bind fun s'' hs'' => hs''

lemma schedulePass_within {w' : Ω} {parked : List ℕ}
    (hturns : ∀ o e u, t.PassTurn deferRemote waits w' parked o e u → t.CallTurn w o e u) :
    Meets (RaisesFor (t.ComesToParked w))
      (fun r => t.WithinBudget (t.DraftsFit w) t.preClaimedPages 0 0 r.2)
      (t.schedulePass deferRemote waits w' parked) :=
  ((generationPhase_within (t.startPass_within (t.DraftsFit w) w' parked) _).imp_error
    fun _ he => raisesFor_of_isReport he).bind_of_eq fun s hs hwithin =>
      contextPhase_within hp hwithin fun o e u hturn => hturns o e u ⟨s, hs, hturn⟩

lemma scheduleLoop_within (w : Ω) :
    Meets (RaisesFor (t.ComesToParked w)) (t.WithinBudget (t.DraftsFit w) t.preClaimedPages 0 0)
      (t.scheduleLoop w) := by
  refine (schedulePass_within hp fun o e u hturn => .inl hturn).bind_of_eq fun r hr hwithin => ?_
  have hfinal : Meets (RaisesFor (t.ComesToParked w))
      (fun r => t.WithinBudget (t.DraftsFit w) t.preClaimedPages 0 0 r.2)
      (if t.config.remoteTailPhase.isNone && r.1.exclusiveRemoteMode.isSome
          && !madeProgress r.2 then
        t.schedulePass true (some r.1.prefixWaits) r.2.world r.2.victims.parked
      else .ok r) := by
    split_ifs with hagain
    · simp only [Bool.and_eq_true, Bool.not_eq_true'] at hagain
      exact schedulePass_within hp fun o e u hturn =>
        .inr ⟨r, hr, hagain.1.1, hagain.1.2, hagain.2, hturn⟩
    · exact hwithin
  refine hfinal.bind fun r hr => ?_
  split_ifs
  · simp [RaisesFor]
  · exact hr

end Pass

end Iteration

/-! ### The result -/

/-- **The budgets of a call**, of the lists it returns and the adapter pages it has claimed. -/
structure BudgetsHold (t : Iteration Ω) (out : SchedulerOutput) (claimedPeftPages : ℕ) : Prop where
  tokens : ∀ m, t.config.maxNumTokens = some m →
    t.forwardTokens out.encoderRequests out.generationRequests out.contextRequests ≤ m
  requests : out.encoderRequests.length + out.contextRequests.length
    + out.generationRequests.length ≤ t.config.maxNumRequests
  chunks : ∀ k ∈ out.contextRequests, 0 < k.chunkSize ∧ k.chunkSize ≤ k.contextRemaining
  peft : t.PeftWithin t.preClaimedPages claimedPeftPages

namespace Iteration

variable {t : Iteration Ω} {s : Pass Ω}

variable (t s) in
/-- The lists are sorted, and no tokens are lost. -/
lemma output_tokens : t.forwardTokens (t.output s).encoderRequests (t.output s).generationRequests
      (t.output s).contextRequests = t.scheduledTokens s := by
  have hencoder : (t.output s).encoderRequests.Perm s.scheduledEncoder := perm_insertionSort _ _
  have hgen : (t.output s).generationRequests.Perm s.scheduledGen := perm_insertionSort _ _
  have hctx : (t.output s).contextRequests.Perm s.scheduledCtx := t.sortedContext_perm s
  rw [scheduledTokens, forwardTokens, forwardTokens, (hencoder.map _).sum_eq, (hgen.map _).sum_eq,
    (hctx.map _).sum_eq]

lemma WithinBudget.budgetsHold {draftsFit : Prop}
    (h : t.WithinBudget draftsFit t.preClaimedPages 0 0 s) (hdrafts : draftsFit) :
    BudgetsHold t (t.output s) s.budget.claimedPeftPages := by
  have hencoder : (t.output s).encoderRequests.Perm s.scheduledEncoder := perm_insertionSort _ _
  have hgen : (t.output s).generationRequests.Perm s.scheduledGen := perm_insertionSort _ _
  have hctx : (t.output s).contextRequests.Perm s.scheduledCtx := t.sortedContext_perm s
  refine ⟨fun m hm => ?_, ?_, fun k hk => h.chunks k (hctx.subset hk), h.peft⟩
  · rw [t.output_tokens s]
    exact h.tokens_le hdrafts m hm
  · rw [hencoder.length_eq, hctx.length_eq, hgen.length_eq]
    exact h.requests_le

end Iteration

/-- Managers with room for everything and nothing to reuse. -/
def Managers.roomy : Managers Unit where
  isRequestActive _ _ := true
  hasPendingLoad _ _ := false
  contextCurrentPosition _ _ := 0
  contextReplayTokens _ _ := none
  capacity _ _ := none
  holdsContextCache _ _ := false
  probeFirstNewBlockKey _ _ := none
  probeContextReuse _ := none
  planPrefixWaits _ _ _ := none
  gateClosed _ := false
  hasPendingPreemption _ := false
  hasInflightTransfers := false
  tryAllocateGeneration _ w := (true, w)
  suspendRequest _ w := w
  preemptRequest _ w := (true, w)
  prepareDisaggGenInit _ w := (true, w)
  prepareContextPair _ w := (true, w)
  tryAllocateContext _ _ w := (true, w)
  tryAllocateCrossContext _ _ w := (true, w)
  releaseContextAdmission _ w := w

/-- Chunks of whole blocks of four tokens, and eight tokens in an iteration. -/
def Config.eightTokens : Config where
  maxNumTokens := some 8
  maxNumRequests := 4
  chunking := some ⟨.kFIRST_COME_FIRST_SERVED, 4, Nat.le_add_right 1 3⟩

/-- A new request with some prompt tokens and some draft tokens. -/
def Request.newPrompt (promptLen draft : ℕ) : Request where
  requestId := 0
  state := .kCONTEXT_INIT
  isFirstContextChunk := true
  promptLen := promptLen
  draftTokenLength := draft

lemma newPrompt_prepares {promptLen : ℕ} (hpos : 0 < promptLen) (draft : ℕ) :
    (iteration .eightTokens .roomy [.newPrompt promptLen draft] []).Prepares := by
  refine ⟨fun i w hi _ => ?_, fun _ i w _ _ => le_refl 0⟩
  obtain rfl : i = 0 := Nat.lt_one_iff.mp hi
  exact ⟨hpos, hpos⟩

end TrtLlm.SchedulerV2
