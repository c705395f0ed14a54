import TrtLlm.SchedulerV2.ScheduleLoop

/-!
What an attempt to schedule a context request leaves alone, and what it takes from the budget.

* `Pass.Keeps`: the frame of an attempt, which touches neither the budget nor a scheduled list;
* `Iteration.Prepares`: what is assumed of the preparation of a context;
* `EndsContext`: the attempt takes a chunk that ends the context, and its draft tokens with it;
* `tryScheduleContext_fits`: **a scheduled chunk is positive, lies within the remaining context, and
  fits the budget** unless it ends the context;
* `EndsContext.schedules`: a chunk that ends the context is scheduled whatever draft tokens it has.
-/

namespace TrtLlm.SchedulerV2

open Outcome

variable {Ω : Type}

/-! ### The frame of an attempt -/

/-- The second pass differs from the first in the caches, the preempted requests and the snapshot
rows at most. -/
def Pass.Keeps (s s' : Pass Ω) : Prop :=
  s' = { s with
    victims := s'.victims
    preemptedIds := s'.preemptedIds
    inforwardSnapshotRowsLeft := s'.inforwardSnapshotRowsLeft }

namespace Pass.Keeps

variable {s s' : Pass Ω}

lemma refl (s : Pass Ω) : s.Keeps s := rfl

lemma withWorld (s : Pass Ω) (w : Ω) : s.Keeps (s.withWorld w) := rfl

lemma withRows (s : Pass Ω) (n : ℕ) : s.Keeps { s with inforwardSnapshotRowsLeft := n } := rfl

variable (h : s.Keeps s')
include h

lemma trans {s'' : Pass Ω} (h' : s'.Keeps s'') : s.Keeps s'' := by
  unfold Pass.Keeps at *
  rw [h'] at *
  rw [h]

lemma budget : s'.budget = s.budget := (congrArg Pass.budget h).trans rfl

lemma scheduledEncoder :
    s'.scheduledEncoder = s.scheduledEncoder := (congrArg Pass.scheduledEncoder h).trans rfl

lemma scheduledCtx : s'.scheduledCtx = s.scheduledCtx := (congrArg Pass.scheduledCtx h).trans rfl

lemma scheduledGen : s'.scheduledGen = s.scheduledGen := (congrArg Pass.scheduledGen h).trans rfl

end Pass.Keeps

namespace Iteration

variable (t : Iteration Ω)

lemma tryPreemptForPages_keeps (protectedIds : List ℕ) (requester : ℕ) (s : Pass Ω) :
    s.Keeps (t.tryPreemptForPages protectedIds requester s).2 := by
  unfold tryPreemptForPages
  split_ifs
  · exact .refl s
  · split
    · exact .refl s
    · dsimp only
      split_ifs <;> rfl

lemma tryScheduleCrossContext_keeps (req : ℕ) (s : Pass Ω) :
    s.Keeps (t.tryScheduleCrossContext req s).2 := by
  unfold tryScheduleCrossContext
  split
  · exact .refl s
  · split_ifs
    · exact .refl s
    · exact .refl s
    · exact .withWorld s _

lemma allocateChunk_keeps (o : ContextOrder) (req : ℕ) (resizeTokens : ℤ) (s : Pass Ω) :
    s.Keeps (t.allocateChunk o req resizeTokens s).2 := by
  unfold allocateChunk
  dsimp only
  split_ifs
  · exact (Pass.Keeps.withWorld s _).trans (t.tryScheduleCrossContext_keeps req _)
  · exact ((Pass.Keeps.withWorld s _).trans (t.tryScheduleCrossContext_keeps req _)).trans
      (.withWorld _ _)
  · exact (Pass.Keeps.withWorld s _).trans (t.tryPreemptForPages_keeps _ req _)
  · exact (Pass.Keeps.withWorld s _).trans (t.tryPreemptForPages_keeps _ req _)

lemma scheduleWholeContext_keeps (o : ContextOrder) (req prePrepare : ℕ) (s : Pass Ω) :
    Meets (fun _ => True) (fun r => s.Keeps r.2) (t.scheduleWholeContext o req prePrepare s) := by
  unfold scheduleWholeContext
  dsimp only
  split_ifs
  · exact .refl s
  · trivial
  · exact (meets_true _).bind fun _ _ => t.allocateChunk_keeps o req _ s

lemma scheduleChunk_keeps (o : ContextOrder) (req : ℕ) (plan : ChunkPlan) (s : Pass Ω) :
    Meets (fun _ => True) (fun r => s.Keeps r.2) (t.scheduleChunk o req plan s) :=
  (meets_true _).bind fun _ _ => (t.allocateChunk_keeps o req _ s).trans (.withRows _ _)

/-- **The frame of an attempt.** -/
theorem tryScheduleContext_keeps (o : ContextOrder) (req : ℕ) (tokenCap : Option ℤ) (s : Pass Ω) :
    Meets (fun _ => True) (fun r => s.Keeps r.2) (t.tryScheduleContext o req tokenCap s) := by
  have hfull : Meets (fun _ => True) (fun r => s.Keeps r.2) (t.tryScheduleContextFull o req s) := by
    unfold tryScheduleContextFull
    dsimp only
    split_ifs
    · exact .refl s
    · trivial
    · exact (t.scheduleWholeContext_keeps o req _ _).imp fun _ h =>
        (Pass.Keeps.withWorld s _).trans h
    · exact .withWorld s _
  have hchunked : Meets (fun _ => True) (fun r => s.Keeps r.2)
      (t.tryScheduleContextChunked o req tokenCap s) := by
    unfold tryScheduleContextChunked
    dsimp only
    split_ifs
    · exact .refl s
    · refine (meets_true _).bind fun plan _ => ?_
      cases plan with
      | none => exact .withWorld s _
      | some plan =>
        exact (t.scheduleChunk_keeps o req plan _).imp fun _ h => (Pass.Keeps.withWorld s _).trans h
    · exact .withWorld s _
  unfold tryScheduleContext
  dsimp only
  split
  · exact .refl s
  · have hattempt : Meets (fun _ => True) (fun r => s.Keeps r.2)
        (if t.config.chunking.isSome then t.tryScheduleContextChunked o req tokenCap s
          else t.tryScheduleContextFull o req s) := by
      split_ifs
      · exact hchunked
      · exact hfull
    refine hattempt.bind fun r hr => ?_
    rw [meets_ok]
    split_ifs
    · exact hr.trans (.withWorld _ _)
    · exact hr

/-! ### A chunk that fits -/

/-- What the preparation of a context does to its position: part of the prompt is left to compute,
and where tokens are counted before the preparation, it does not go back. -/
structure Prepares : Prop where
  leaves : ∀ i w, i < t.requests.length → (t.managers.prepareContextPair i w).1 = true →
    t.managers.contextCurrentPosition (t.managers.prepareContextPair i w).2 i < (t.req i).promptLen
      ∧ t.managers.contextCurrentPosition (t.managers.prepareContextPair i w).2 i
        < (t.req i).contextEnd
  advances : t.config.enablePrefixAwareScheduling = false → ∀ i w, i < t.requests.length →
    (t.managers.prepareContextPair i w).1 = true → t.managers.contextCurrentPosition w i
      ≤ t.managers.contextCurrentPosition (t.managers.prepareContextPair i w).2 i

/-- A request that phase 1 puts aside. -/
def IsPending (i : ℕ) : Prop :=
  i < t.requests.length ∧ t.isInflight i = false
    ∧ ((t.req i).state = .kENCODER_INIT ∨ (t.req i).state = .kCONTEXT_INIT)

/-- The tokens of the chunk that ends a context, once the context is prepared. -/
def lastChunkTokens (i : ℕ) (s : Pass Ω) : ℕ :=
  let w := (t.managers.prepareContextPair i s.world).2
  t.contextRemainingLength w i + t.replayTokens w i + (t.req i).draftTokenLength

/-- The attempt takes a chunk that ends the context: the tokens left are enough for a chunk, the
chunk sized for the prepared context has all that remains of it, and it gets its pages. -/
structure EndsContext (o : ContextOrder) (i : ℕ) (tokenCap : Option ℤ) (s : Pass Ω) : Prop where
  chunked : t.config.chunking.isSome = true
  inContext : t.state s.victims i = .kCONTEXT_INIT
  attempted : (t.config.ctxShortestFirst && (t.req i).isFirstContextChunk
    && !t.managers.holdsContextCache s.world i
    && !t.firstChunkFitsBudget s.world i s.budget tokenCap) = false
  budget : t.hasContextChunkBudget s.budget = true
  prepared : (t.managers.prepareContextPair i s.world).1 = true
  endsInPrompt : (t.req i).contextEnd ≤ (t.req i).promptLen
  sized : ∃ plan, t.chunkPlan (t.managers.prepareContextPair i s.world).2 i s.budget tokenCap
      (t.contextRemainingLength s.world i) s.inforwardSnapshotRowsLeft = .ok (some plan)
    ∧ (t.contextRemainingLength (t.managers.prepareContextPair i s.world).2 i : ℤ) ≤ plan.size
  pages : (t.allocateChunk o i
    (t.contextRemainingLength (t.managers.prepareContextPair i s.world).2 i
      + (t.req i).draftTokenLength)
    (s.withWorld (t.managers.prepareContextPair i s.world).2)).1 = .scheduled

/-- What a scheduled chunk satisfies, with the tokens that the budget is charged for it. -/
structure Fits (o : ContextOrder) (req : ℕ) (tokenCap : Option ℤ) (s : Pass Ω) (tokens : ℤ)
    (k : ContextChunk) : Prop where
  pos : 0 < k.chunkSize
  le : k.chunkSize ≤ k.contextRemaining
  charged : (k.forwardTokens : ℤ) ≤ tokens
  fits : s.budget.canFitTokens t.config k.forwardTokens = true
    ∨ t.EndsContext o req tokenCap s ∧ k.forwardTokens = t.lastChunkTokens req s

/-- What an attempt schedules fits. -/
def AttemptFits (o : ContextOrder) (req : ℕ) (tokenCap : Option ℤ) (s : Pass Ω)
    (r : ContextAttempt × Pass Ω) : Prop :=
  ∀ tokens k flag, r.1 = .scheduled tokens k flag → t.Fits o req tokenCap s tokens k

/-- Every exception is a report, but for the check that the chunk of a parked request fails. -/
def RaisesFor (parked : Prop) (e : Raise) : Prop := e = .chunkSizeOutsideContextPhase → parked

lemma raisesFor_of_isReport {parked : Prop} {e : Raise} (h : e.IsReport) : RaisesFor parked e :=
  fun he => absurd he h

lemma ofAction_eq_scheduled {a : ScheduleAction} {x : ContextAttempt} {tokens : ℤ}
    {k : ContextChunk} {flag : Bool} (h : ContextAttempt.ofAction a x = .scheduled tokens k flag) :
    a = .scheduled ∧ x = .scheduled tokens k flag := by
  cases a with
  | scheduled => exact ⟨rfl, h⟩
  | skip | stop => cases h

lemma remainingTokens_le_iff (b : BudgetTracker) (n : ℤ) :
    b.canFitTokens t.config n = true ↔ ∀ m, b.remainingTokens t.config = some m → n ≤ m := by
  unfold BudgetTracker.canFitTokens BudgetTracker.remainingTokens
  cases t.config.maxNumTokens with
  | none => simp
  | some m =>
    simp only [Option.all_some, decide_eq_true_eq, Option.map_some, Option.some.injEq]
    constructor
    · rintro h _ rfl
      omega
    · intro h
      have := h _ rfl
      omega

variable {t}

variable {req : ℕ} {w : Ω} {o : ContextOrder} {tokenCap : Option ℤ} {s : Pass Ω}

/-- The setter accepts a chunk of a pending request in the context phase only. -/
lemma setContextChunkSize_meets {v : Victims Ω} {size : ℤ} (hreq : t.IsPending req)
    (hencoder : t.state v req ≠ .kENCODER_INIT) :
    Meets (RaisesFor (req ∈ v.parked))
      (fun c => t.state v req = .kCONTEXT_INIT
        ∧ c = min size.toNat
          ((t.req req).promptLen - t.managers.contextCurrentPosition v.world req))
      (t.setContextChunkSize v req size) := by
  by_cases hparked : req ∈ v.parked
  · have hstate : t.state v req = .kDISAGG_CONTEXT_TRANS_IN_PROGRESS := if_pos hparked
    simp [setContextChunkSize, isContextInitState, hstate, RaisesFor, hparked]
  · have hstate : t.state v req = .kCONTEXT_INIT := by
      rw [state, if_neg hparked] at hencoder ⊢
      exact hreq.2.2.resolve_left hencoder
    simp [setContextChunkSize, isContextInitState, hstate]

section

variable (hp : t.Prepares) (hreq : t.IsPending req)
  (h : (t.managers.prepareContextPair req w).1 = true)
include hp hreq h

/-- A chunk cut to the rest of the prompt is positive once the context is prepared. -/
lemma Prepares.chunk_pos (size : ℕ) (hsize : 0 < size) : 0 < min size ((t.req req).promptLen
      - t.managers.contextCurrentPosition (t.managers.prepareContextPair req w).2 req) := by
  have := (hp.leaves req w hreq.1 h).1
  omega

lemma Prepares.remaining_pos :
    0 < t.contextRemainingLength (t.managers.prepareContextPair req w).2 req := by
  have := (hp.leaves req w hreq.1 h).2
  unfold contextRemainingLength
  omega

/-- Tokens counted before the preparation still cover the context after it. -/
lemma Prepares.wholeContextTokens_ge :
    (t.contextRemainingLength (t.managers.prepareContextPair req w).2 req
        + t.replayTokens (t.managers.prepareContextPair req w).2 req
        + (t.req req).draftTokenLength : ℤ)
      ≤ t.wholeContextTokens (t.contextRemainingLength w req)
          (t.managers.prepareContextPair req w).2 req := by
  unfold wholeContextTokens
  split_ifs with hc
  · omega
  · simp only [countsPrepared, Bool.or_eq_true, Option.isSome_iff_ne_none, not_or, ne_eq,
      not_not, Bool.not_eq_true] at hc
    have hadvance := hp.advances hc.1 req w hreq.1 h
    have hreplay : t.replayTokens (t.managers.prepareContextPair req w).2 req = 0 := by
      simp [replayTokens, hc.2]
    unfold contextRemainingLength
    omega

end

lemma lastChunkDraft_le (w : Ω) (req chunkSize : ℕ) :
    t.lastChunkDraft w req chunkSize ≤ (t.req req).draftTokenLength := by
  unfold lastChunkDraft
  split_ifs <;> omega

lemma canFitTokens_of_le {b : BudgetTracker} {n n' : ℤ} (h : b.canFitTokens t.config n = true)
    (hle : n' ≤ n) : b.canFitTokens t.config n' = true :=
  (t.remainingTokens_le_iff b n').mpr fun m hm =>
    hle.trans ((t.remainingTokens_le_iff b n).mp h m hm)

section Attempt

variable (hp : t.Prepares) (hreq : t.IsPending req)
  (hencoder : t.state s.victims req ≠ .kENCODER_INIT)
include hp hreq hencoder

/-- Without chunking the budget is checked for the whole of the remaining context. -/
lemma tryScheduleContextFull_fits : Meets (RaisesFor (req ∈ s.victims.parked))
      (t.AttemptFits o req tokenCap s) (t.tryScheduleContextFull o req s) := by
  unfold tryScheduleContextFull
  dsimp only
  split_ifs with hearly hlimit hprepared
  · simp [AttemptFits]
  · simp [RaisesFor]
  · unfold scheduleWholeContext
    dsimp only
    split_ifs with hlate hlimit'
    · simp [AttemptFits]
    · simp [RaisesFor]
    · refine (setContextChunkSize_meets (v := (s.withWorld
        (t.managers.prepareContextPair req s.world).2).victims) hreq hencoder).bind ?_
      rintro chunkSize ⟨-, hchunk⟩
      intro tokens k flag hk
      obtain ⟨-, hk⟩ := ofAction_eq_scheduled hk
      cases hk
      have hpos := hp.chunk_pos hreq hprepared _ (hp.remaining_pos hreq hprepared)
      have hwhole := hp.wholeContextTokens_ge hreq hprepared
      have hdraft := t.lastChunkDraft_le (t.managers.prepareContextPair req s.world).2 req chunkSize
      rw [Int.toNat_natCast] at hchunk
      have hle : chunkSize ≤ t.contextRemainingLength
          (t.managers.prepareContextPair req s.world).2 req := hchunk ▸ min_le_left _ _
      have hcharged : (ContextChunk.forwardTokens ⟨req, chunkSize,
          t.contextRemainingLength (t.managers.prepareContextPair req s.world).2 req,
          t.replayTokens (t.managers.prepareContextPair req s.world).2 req,
          t.lastChunkDraft (t.managers.prepareContextPair req s.world).2 req chunkSize⟩ : ℤ)
          ≤ t.wholeContextTokens (t.contextRemainingLength s.world req)
            (t.managers.prepareContextPair req s.world).2 req := by
        simp only [ContextChunk.forwardTokens]
        push_cast
        omega
      refine ⟨hchunk ▸ hpos, hle, hcharged, .inl (canFitTokens_of_le ?_ hcharged)⟩
      by_cases hc : t.countsPrepared (t.managers.prepareContextPair req s.world).2 req = true
      · simpa [hc] using hlate
      · have hoff : t.config.enablePrefixAwareScheduling = false := by
          simp only [countsPrepared, Bool.or_eq_true, not_or, Bool.not_eq_true] at hc
          exact hc.1
        simpa [wholeContextTokens, hc, hoff] using hearly
  · simp [AttemptFits]

end Attempt

/-- The part of an attempt that follows the sizing of the chunk. -/
lemma scheduleChunk_fits {plan : ChunkPlan} (hreq : t.IsPending req)
    (hencoder : t.state s.victims req ≠ .kENCODER_INIT) (hsize : 0 < plan.size)
    (hprompt : t.managers.contextCurrentPosition w req < (t.req req).promptLen)
    (hend : t.managers.contextCurrentPosition w req < (t.req req).contextEnd)
    (hwithin : ∀ m, s.budget.remainingTokens t.config = some m →
      plan.size + t.replayTokens w req ≤ m) :
    Meets (RaisesFor (req ∈ s.victims.parked))
      (fun r => ∀ tokens k flag, r.1 = .scheduled tokens k flag →
        0 < k.chunkSize ∧ k.chunkSize ≤ k.contextRemaining ∧ (k.forwardTokens : ℤ) ≤ tokens
          ∧ (s.budget.canFitTokens t.config k.forwardTokens = true
            ∨ t.state s.victims req = .kCONTEXT_INIT
              ∧ (t.req req).contextEnd ≤ (t.req req).promptLen
              ∧ (t.contextRemainingLength w req : ℤ) ≤ plan.size
              ∧ (t.allocateChunk o req (t.contextRemainingLength w req
                + (t.req req).draftTokenLength) (s.withWorld w)).1 = .scheduled
              ∧ k.forwardTokens = t.contextRemainingLength w req + t.replayTokens w req
                + (t.req req).draftTokenLength))
      (t.scheduleChunk o req plan (s.withWorld w)) := by
  unfold scheduleChunk
  refine (setContextChunkSize_meets (v := (s.withWorld w).victims) hreq hencoder).bind ?_
  rintro chunkSize ⟨hstate, hchunk⟩
  intro tokens k flag hk
  obtain ⟨hpages, hk⟩ := ofAction_eq_scheduled hk
  cases hk
  simp only [Pass.withWorld_world, Pass.withWorld_victims_world] at hchunk hpages ⊢
  have hremaining : t.contextRemainingLength w req
      = (t.req req).contextEnd - t.managers.contextCurrentPosition w req := rfl
  dsimp only [ContextChunk.forwardTokens]
  refine ⟨by omega, by omega, by push_cast; omega, ?_⟩
  by_cases hlast : t.managers.contextCurrentPosition w req + chunkSize = (t.req req).contextEnd
  · have hall : chunkSize = t.contextRemainingLength w req := by omega
    have hdraft : t.lastChunkDraft w req chunkSize = (t.req req).draftTokenLength := if_pos hlast
    rw [hdraft, hall] at hpages
    exact .inr ⟨hstate, by omega, by omega, hpages, by rw [hdraft, hall]⟩
  · have hdraft : t.lastChunkDraft w req chunkSize = 0 := if_neg hlast
    refine .inl ((t.remainingTokens_le_iff _ _).mpr fun m hm => ?_)
    have := hwithin m hm
    rw [hdraft]
    push_cast
    omega

section Attempt

variable (hp : t.Prepares) (hreq : t.IsPending req)
  (hencoder : t.state s.victims req ≠ .kENCODER_INIT)
include hp hreq hencoder

/-- With chunking the chunk is sized by the budget, and the draft tokens go with the chunk that ends
the context. -/
lemma tryScheduleContextChunked_fits (hchunking : t.config.chunking.isSome = true)
    (hattempted : (t.config.ctxShortestFirst && (t.req req).isFirstContextChunk
      && !t.managers.holdsContextCache s.world req
      && !t.firstChunkFitsBudget s.world req s.budget tokenCap) = false) :
    Meets (RaisesFor (req ∈ s.victims.parked)) (t.AttemptFits o req tokenCap s)
      (t.tryScheduleContextChunked o req tokenCap s) := by
  unfold tryScheduleContextChunked
  dsimp only
  split_ifs with hbudget hprepared
  · simp [AttemptFits]
  · obtain ⟨hprompt, hend⟩ := hp.leaves req s.world hreq.1 hprepared
    have hplanned := t.chunkPlan_within (t.managers.prepareContextPair req s.world).2 req s.budget
      tokenCap (t.contextRemainingLength s.world req) s.inforwardSnapshotRowsLeft
    cases hplan : t.chunkPlan (t.managers.prepareContextPair req s.world).2 req s.budget tokenCap
        (t.contextRemainingLength s.world req) s.inforwardSnapshotRowsLeft with
    | error e =>
      rw [hplan] at hplanned
      exact raisesFor_of_isReport hplanned
    | ok plan =>
      cases plan with
      | none => exact fun _ _ _ hk => nomatch hk
      | some plan =>
        rw [hplan] at hplanned
        obtain ⟨hsize, hwithin⟩ := hplanned plan rfl
        refine (scheduleChunk_fits hreq hencoder hsize hprompt hend hwithin).imp ?_
        intro r hfits tokens k flag hk
        obtain ⟨hpos, hle, hcharged, hfit | ⟨hstate, hprompt, hlast, hpages, htokens⟩⟩ :=
          hfits tokens k flag hk
        · exact ⟨hpos, hle, hcharged, .inl hfit⟩
        · exact ⟨hpos, hle, hcharged, .inr ⟨⟨hchunking, hstate, hattempted, by simpa using hbudget,
            hprepared, hprompt, ⟨plan, hplan, hlast⟩, hpages⟩, htokens⟩⟩
  · simp [AttemptFits]

/-- **A scheduled chunk fits**: it is positive, lies within the remaining context, and is charged
for what the forward pass processes; and that is within the budget unless it ends the context. -/
theorem tryScheduleContext_fits : Meets (RaisesFor (req ∈ s.victims.parked))
      (t.AttemptFits o req tokenCap s) (t.tryScheduleContext o req tokenCap s) := by
  unfold tryScheduleContext
  dsimp only
  split
  · simp [AttemptFits]
  rename_i hskip
  have hattempt : Meets (RaisesFor (req ∈ s.victims.parked)) (t.AttemptFits o req tokenCap s)
      (if t.config.chunking.isSome then t.tryScheduleContextChunked o req tokenCap s
        else t.tryScheduleContextFull o req s) := by
    split_ifs with hchunking
    · exact tryScheduleContextChunked_fits hp hreq hencoder hchunking
        (by simpa [hchunking] using hskip)
    · exact tryScheduleContextFull_fits hp hreq hencoder
  exact hattempt.bind fun r hr => hr

end Attempt

/-- A chunk with all that remains of the context gets the draft tokens. -/
lemma scheduleChunk_last {plan : ChunkPlan} (hstate : t.state s.victims req = .kCONTEXT_INIT)
    (hprompt : (t.req req).contextEnd ≤ (t.req req).promptLen)
    (hend : t.managers.contextCurrentPosition w req < (t.req req).contextEnd)
    (hsize : (t.contextRemainingLength w req : ℤ) ≤ plan.size)
    (hpages : (t.allocateChunk o req (t.contextRemainingLength w req
      + (t.req req).draftTokenLength) (s.withWorld w)).1 = .scheduled) :
    ∃ tokens k flag s', t.scheduleChunk o req plan (s.withWorld w)
        = .ok (.scheduled tokens k flag, s')
      ∧ k.forwardTokens = t.contextRemainingLength w req + t.replayTokens w req
        + (t.req req).draftTokenLength := by
  have hremaining : t.contextRemainingLength w req
      = (t.req req).contextEnd - t.managers.contextCurrentPosition w req := rfl
  have hcontext : t.isContextInitState (s.withWorld w).victims req = true := by
    simp only [isContextInitState, show t.state (s.withWorld w).victims req = .kCONTEXT_INIT
      from hstate, decide_true, Bool.true_or]
  have hset : t.setContextChunkSize (s.withWorld w).victims req
      (min plan.size (t.contextRemainingLength w req)) = .ok (t.contextRemainingLength w req) := by
    rw [setContextChunkSize, hcontext]
    exact congrArg Except.ok (by rw [Pass.withWorld_victims_world]; omega)
  have hdraft : t.lastChunkDraft w req (t.contextRemainingLength w req)
      = (t.req req).draftTokenLength := if_pos (by omega)
  simp only [scheduleChunk, Pass.withWorld_world, hset, bind, Except.bind, hdraft, hpages,
    ContextAttempt.ofAction]
  exact ⟨_, _, _, _, rfl, rfl⟩

/-- **A chunk that ends the context is scheduled**, whatever draft tokens it has. -/
theorem EndsContext.schedules (h : t.EndsContext o req tokenCap s)
    (hend : t.managers.contextCurrentPosition (t.managers.prepareContextPair req s.world).2 req
      < (t.req req).contextEnd) :
    ∃ tokens k flag s', t.tryScheduleContext o req tokenCap s
        = .ok (.scheduled tokens k flag, s') ∧ k.forwardTokens = t.lastChunkTokens req s := by
  obtain ⟨plan, hplan, hsize⟩ := h.sized
  obtain ⟨tokens, k, flag, s', hchunk, htokens⟩ :=
    scheduleChunk_last h.inContext h.endsInPrompt hend hsize h.pages
  have hchunked : t.tryScheduleContextChunked o req tokenCap s
      = .ok (.scheduled tokens k flag, s') := by
    unfold tryScheduleContextChunked
    dsimp only
    rw [h.budget, h.prepared, hplan]
    exact hchunk
  refine ⟨tokens, k, flag, s', ?_, htokens⟩
  unfold tryScheduleContext
  dsimp only
  rw [h.chunked, Bool.true_and, h.attempted, if_neg Bool.false_ne_true, if_pos rfl, hchunked]
  simp [ContextAttempt.isScheduled, bind, Except.bind]

end Iteration

end TrtLlm.SchedulerV2
