import TrtLlm.SchedulerV2.ContextBudget

/-!
The turns of phase 2 in a call of the scheduler, and the tokens they add to the batch.

A turn that takes a request up for the chunk that ends its context adds the draft tokens of the
request without a further look at the budget. No turn takes tokens away, so what one of them adds
is in the batch the call returns.

* `CallTurn`: the turns of phase 2 that a call comes to, with the state before each;
* `DraftFits`: the chunk that ends a context fits the token limit, draft tokens included;
* `draftsFit_of_within`: **a batch within the limit has let the draft tokens of every turn fit**.
-/

namespace TrtLlm.SchedulerV2

open Outcome List

variable {Ω : Type}

namespace Iteration

variable (t : Iteration Ω)

/-! ### The tokens of a batch -/

/-- The tokens of a generation request in the forward pass. -/
def generationTokens (i : ℕ) : ℕ := (t.req i).beamWidth + (t.req i).draftTokenLength

/-- The tokens of an encoder request in the forward pass. -/
def encoderTokens (i : ℕ) : ℕ := (t.req i).encoderOutputLen.getD 0

/-- The tokens that some requests have in the forward pass. -/
def forwardTokens (encoder gen : List ℕ) (ctx : List ContextChunk) : ℕ :=
  (encoder.map t.encoderTokens).sum + (ctx.map ContextChunk.forwardTokens).sum
    + (gen.map t.generationTokens).sum

/-- The tokens of what a pass has scheduled. -/
def scheduledTokens (s : Pass Ω) : ℕ :=
  t.forwardTokens s.scheduledEncoder s.scheduledGen s.scheduledCtx

variable {t} in
lemma scheduledTokens_of_keeps {s s' : Pass Ω} (h : s.Keeps s') :
    t.scheduledTokens s' = t.scheduledTokens s := by
  rw [scheduledTokens, h.scheduledEncoder, h.scheduledGen, h.scheduledCtx]
  rfl

/-! ### The turns of a call -/

/-- Phase 2 comes to a request, with or without a share of its own, in some state. -/
def PhaseTurn (deferRemote : Bool) (exclusive : Option RemoteTailMode)
    (waits : Option (ℕ → Option (Option ℕ))) (s : Pass Ω) (o : ContextOrder)
    (entry : ℕ × Option ℤ) (u : Pass Ω) : Prop :=
  o = t.contextOrder deferRemote exclusive waits s ∧
    (Visits (t.contextStep o) (o.pendingCtx.map (·, none)) (t.enterContextPhase s) entry u ∨
      ∃ s', forIn (o.pendingCtx.map (·, none)) (t.enterContextPhase s) (t.contextStep o) = .ok s'
        ∧ s'.ctxStopped = false
        ∧ Visits (t.contextStep o) ((t.starvedCtx s).zip ((t.starvedShares s).map some))
          (releaseShares (t.starvedShares s) (t.starvedCtx s) s') entry u)

/-- Phase 2 of a pass comes to a request. -/
def PassTurn (deferRemote : Bool) (waits : Option (ℕ → Option (Option ℕ))) (w : Ω)
    (parked : List ℕ) (o : ContextOrder) (entry : ℕ × Option ℤ) (u : Pass Ω) : Prop :=
  let s := t.startPass w parked
  let exclusive := t.exclusiveRemoteMode deferRemote s.victims
  ∃ s', t.generationPhase exclusive s = .ok s'
    ∧ t.PhaseTurn deferRemote exclusive waits s' o entry u

/-- A call comes to a request in phase 2 of its first pass, or of the second one. -/
def CallTurn (w : Ω) (o : ContextOrder) (entry : ℕ × Option ℤ) (u : Pass Ω) : Prop :=
  t.PassTurn false none w [] o entry u ∨
    ∃ r, t.schedulePass false none w [] = .ok r ∧ t.config.remoteTailPhase.isNone = true
      ∧ r.1.exclusiveRemoteMode.isSome = true ∧ madeProgress r.2 = false
      ∧ t.PassTurn true (some r.1.prefixWaits) r.2.world r.2.victims.parked o entry u

/-! ### A turn that ends a context -/

/-- The share of a request is no longer held when its turn comes. -/
def shareTaken (entry : ℕ × Option ℤ) (s : Pass Ω) : Pass Ω :=
  { s with held := s.held - entry.2.getD 0 }

/-- The tokens a starved request may take. -/
def entryCap (entry : ℕ × Option ℤ) (s : Pass Ω) : Option ℤ :=
  if entry.2.isSome then
    (s.budget.remainingTokens t.config).map (· - (shareTaken entry s).held)
  else none

/-- The turn makes an attempt for the request. -/
structure TakesUp (o : ContextOrder) (entry : ℕ × Option ℤ) (s : Pass Ω) : Prop where
  notFull : s.budget.requestsFull t.config = false
  notPassed : t.passesOver o entry.1 (shareTaken entry s) = false
  notDuplicate : t.duplicatesPrefix entry.1 (shareTaken entry s) = false
  pages : (s.budget.peftPagesNeeded t.config (t.req entry.1)).isSome = true

/-- **The draft tokens fit**: a request taken up for the chunk that ends its context has room in the
batch for the chunk, the replayed tokens and the draft tokens. -/
def DraftFits (o : ContextOrder) (entry : ℕ × Option ℤ) (s : Pass Ω) : Prop :=
  t.TakesUp o entry s → t.EndsContext o entry.1 (t.entryCap entry s) (shareTaken entry s) →
    ∀ m, t.config.maxNumTokens = some m →
      t.scheduledTokens s + t.lastChunkTokens entry.1 s ≤ m

/-- The draft tokens fit in every turn of a call. -/
def DraftsFit (w : Ω) : Prop := ∀ o entry u, t.CallTurn w o entry u → t.DraftFits o entry u

/-- A call comes to a request that is parked behind the connector's saves. -/
def ComesToParked (w : Ω) : Prop :=
  ∃ o entry u, t.CallTurn w o entry u ∧ entry.1 ∈ u.victims.parked

variable {t} {o : ContextOrder} {entry : ℕ × Option ℤ} {s : Pass Ω}

lemma TakesUp.contextStep_eq (h : t.TakesUp o entry s) :
    ∃ pages, s.budget.peftPagesNeeded t.config (t.req entry.1) = some pages
      ∧ t.contextStep o entry s
        = t.contextTurn o entry.1 (t.entryCap entry s) pages (shareTaken entry s) := by
  obtain ⟨pages, hpages⟩ := Option.isSome_iff_exists.mp h.pages
  refine ⟨pages, hpages, ?_⟩
  have hpassed := h.notPassed
  have hduplicate := h.notDuplicate
  unfold contextStep
  dsimp only [shareTaken] at hpassed hduplicate ⊢
  rw [h.notFull, hpassed, hduplicate, hpages]
  rfl

/-- A turn makes an attempt, or lets the request go by. -/
lemma takesUp_or_passes (t : Iteration Ω) (o : ContextOrder) (entry : ℕ × Option ℤ) (s : Pass Ω) :
    t.TakesUp o entry s ∨ ∃ step deferred, t.contextStep o entry s = .ok step
      ∧ step.value = { shareTaken entry s with deferredBehindContributor := deferred } := by
  by_cases htakes : t.TakesUp o entry s
  · exact .inl htakes
  right
  unfold contextStep
  dsimp only
  split
  · exact ⟨_, _, rfl, rfl⟩
  split
  · exact ⟨_, _, rfl, rfl⟩
  split
  · exact ⟨_, _, rfl, rfl⟩
  split
  · exact ⟨_, _, rfl, rfl⟩
  · rename_i hfull hpassed hduplicate _ pages hpages
    exact absurd ⟨eq_false_of_ne_true hfull, eq_false_of_ne_true hpassed,
      eq_false_of_ne_true hduplicate, by rw [hpages, Option.isSome_some]⟩ htakes

/-- A turn that ends a context adds the draft tokens. -/
lemma TakesUp.adds (hp : t.Prepares) (h : t.TakesUp o entry s)
    (hends : t.EndsContext o entry.1 (t.entryCap entry s) (shareTaken entry s))
    {step : ForInStep (Pass Ω)} (hstep : t.contextStep o entry s = .ok step) :
    t.scheduledTokens s + t.lastChunkTokens entry.1 s = t.scheduledTokens step.value := by
  obtain ⟨pages, -, hturn⟩ := h.contextStep_eq
  have hlt : entry.1 < t.requests.length := by
    by_contra hge
    have hstate := (state_eq hends.inContext (by decide)).2
    rw [req, getD_eq_default _ _ (not_lt.mp hge)] at hstate
    cases hstate
  obtain ⟨tokens, k, flag, s', hattempt, htokens⟩ :=
    hends.schedules (hp.leaves entry.1 _ hlt hends.prepared).2
  have hkeeps := t.tryScheduleContext_keeps o entry.1 (t.entryCap entry s) (shareTaken entry s)
  rw [hattempt] at hkeeps
  have hsame := scheduledTokens_of_keeps (t := t) hkeeps
  have hencoder : t.state (shareTaken entry s).victims entry.1 ≠ .kENCODER_INIT := by
    rw [hends.inContext]
    decide
  rw [hturn, contextTurn, if_neg hencoder, hattempt] at hstep
  cases hstep
  have htotal : t.lastChunkTokens entry.1 (shareTaken entry s) = t.lastChunkTokens entry.1 s := rfl
  simp only [scheduledTokens, forwardTokens, ForInStep.value_yield, map_append, map_cons, map_nil,
    sum_append, sum_cons, sum_nil, shareTaken] at hsame htokens htotal ⊢
  omega

/-! ### No turn takes tokens away -/

variable (t) in
lemma contextTurn_grows (o : ContextOrder) (i : ℕ) (tokenCap : Option ℤ) (pages : ℕ)
    (s : Pass Ω) : Meets (fun _ => True)
      (fun step => t.scheduledTokens s ≤ t.scheduledTokens step.value)
      (t.contextTurn o i tokenCap pages s) := by
  unfold contextTurn
  split_ifs
  · refine (meets_true _).bind fun tokens _ => ?_
    cases tokens with
    | none => exact le_refl _
    | some tokens =>
      simp only [Option.elim_some, meets_ok, ForInStep.value_yield, scheduledTokens, forwardTokens,
        map_append, sum_append]
      omega
  · refine (t.tryScheduleContext_keeps o i tokenCap s).bind ?_
    rintro ⟨attempt, s'⟩ hkeeps
    have hsame := scheduledTokens_of_keeps (t := t) hkeeps
    cases attempt with
    | skip => exact hsame.ge
    | stop => exact hsame.ge
    | scheduled tokens k flag =>
      refine hsame.ge.trans ?_
      simp only [ForInStep.value_yield, scheduledTokens, forwardTokens, map_append, sum_append]
      omega

lemma contextStep_grows (o : ContextOrder) (entry : ℕ × Option ℤ) (s : Pass Ω)
    (step : ForInStep (Pass Ω)) (hstep : t.contextStep o entry s = .ok step) :
    t.scheduledTokens s ≤ t.scheduledTokens step.value := by
  obtain htakes | ⟨step', deferred, hstep', hvalue⟩ := t.takesUp_or_passes o entry s
  · obtain ⟨pages, -, hturn⟩ := htakes.contextStep_eq
    have hgrows := t.contextTurn_grows o entry.1 (t.entryCap entry s) pages (shareTaken entry s)
    rwa [← hturn, hstep] at hgrows
  · cases hstep.symm.trans hstep'
    rw [hvalue]
    exact le_refl _

variable {w : Ω} {parked : List ℕ} {deferRemote : Bool} {waits : Option (ℕ → Option (Option ℕ))}
  {u : Pass Ω}

/-- What a turn of phase 2 adds is there at the end of the phase. -/
lemma PhaseTurn.le {exclusive : Option RemoteTailMode} {r : ContextOrder × Pass Ω}
    (h : t.PhaseTurn deferRemote exclusive waits s o entry u)
    (hr : t.contextPhase deferRemote exclusive waits s = .ok r) :
    ∃ step, t.contextStep o entry u = .ok step
      ∧ t.scheduledTokens step.value ≤ t.scheduledTokens r.2 := by
  obtain ⟨rfl, hvisits⟩ := h
  obtain ⟨s', hfirst, hr⟩ := of_bind_eq_ok hr
  have hstays : t.scheduledTokens (releaseShares (t.starvedShares s) (t.starvedCtx s) s')
      = t.scheduledTokens s' := rfl
  dsimp only at hr
  obtain hvisits | ⟨s'', hs'', hgoes, hvisits⟩ := hvisits
  · obtain ⟨step, hstep, hle⟩ :=
      hvisits.le_of_forIn (f := t.scheduledTokens) (contextStep_grows _) hfirst
    refine ⟨step, hstep, hle.trans (hstays.ge.trans ?_)⟩
    split_ifs at hr
    · cases hr
      exact le_refl _
    · obtain ⟨s'', hsecond, hr⟩ := of_bind_eq_ok hr
      cases hr
      exact le_of_forIn (contextStep_grows _) hsecond
  · cases hfirst.symm.trans hs''
    rw [if_neg (by simp [releaseShares, hgoes])] at hr
    obtain ⟨s'', hsecond, hr⟩ := of_bind_eq_ok hr
    cases hr
    exact hvisits.le_of_forIn (contextStep_grows _) hsecond

/-- What a turn of a pass adds is there at its end. -/
lemma PassTurn.le {r : ContextOrder × Pass Ω} (h : t.PassTurn deferRemote waits w parked o entry u)
    (hr : t.schedulePass deferRemote waits w parked = .ok r) :
    ∃ step, t.contextStep o entry u = .ok step
      ∧ t.scheduledTokens step.value ≤ t.scheduledTokens r.2 := by
  obtain ⟨s', hs', hturn⟩ := h
  obtain ⟨s'', hs'', hr⟩ := of_bind_eq_ok hr
  cases hs'.symm.trans hs''
  exact hturn.le hr

lemma scheduledTokens_eq_zero {s : Pass Ω} (h : madeProgress s = false) :
    t.scheduledTokens s = 0 := by
  simp only [madeProgress, Bool.or_eq_false_iff, decide_eq_false_iff_not, not_not,
    Bool.not_eq_false', List.isEmpty_iff, ne_eq] at h
  simp [scheduledTokens, forwardTokens, h]

/-- **A batch within the limit has let the draft tokens fit**, in every turn of the call. -/
theorem draftsFit_of_within (hp : t.Prepares) (hs : t.scheduleLoop w = .ok s)
    (hwithin : ∀ m, t.config.maxNumTokens = some m → t.scheduledTokens s ≤ m) :
    t.DraftsFit w := by
  intro o entry u h htakes hends m hm
  obtain ⟨r, hfirst, hs⟩ := of_bind_eq_ok hs
  obtain ⟨r', hretry, hs⟩ := of_bind_eq_ok hs
  have hfinal : s = r'.2 := by
    split_ifs at hs
    cases hs
    rfl
  subst hfinal
  obtain hturn | ⟨r'', hfirst', htail, hmode, hidle, hturn⟩ := h
  · obtain ⟨step, hstep, hle⟩ := hturn.le hfirst
    have hadds := htakes.adds hp hends hstep
    split_ifs at hretry with hagain
    · -- a pass that is made once more has scheduled nothing
      simp only [Bool.and_eq_true, Bool.not_eq_true'] at hagain
      have := scheduledTokens_eq_zero (t := t) hagain.2
      omega
    · cases hretry
      have := hwithin m hm
      omega
  · cases hfirst.symm.trans hfirst'
    rw [if_pos (by simp [htail, hmode, hidle])] at hretry
    obtain ⟨step, hstep, hle⟩ := hturn.le hretry
    have hadds := htakes.adds hp hends hstep
    have := hwithin m hm
    omega

end Iteration

end TrtLlm.SchedulerV2
