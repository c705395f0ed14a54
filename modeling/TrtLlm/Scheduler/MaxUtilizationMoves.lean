import TrtLlm.Scheduler.CapacityScheduler

/-!
The pass of `MaxUtilizationScheduler` as moves on the requests that are left and the state.

`Move` says everything that one turn of the loop can do, `maxUtilLoop_moves` that a pass is a
sequence of moves up to a stop, and `moves_induction` is the rule by which the results about
a pass are proved: what the moves keep, of the split of the active requests into those done
with, those left and those cut off, holds at the end.
-/

namespace TrtLlm.CapacityScheduler.PassContext

open Relation

variable {Key : Type} [DecidableEq Key] {ctx : PassContext Key}

/-- The check whether to skip a request applies to it. -/
def maxUtilTracked (ctx : PassContext Key) (req : LlmRequest) : Bool :=
  ctx.maxUtilSkippingIsRelevant && req.isFirstChunkContext

/-- The request is skipped in a state. -/
def maxUtilSkips (ctx : PassContext Key) (req : LlmRequest) (s : MaxUtilState Key) : Bool :=
  ctx.maxUtilTracked req && beneficialToSkip (ctx.maxUtilSummary req) none s.contributed

/-- The request is looked at and takes part in the pass. -/
structure Tried (ctx : PassContext Key) (req : LlmRequest) (s : MaxUtilState Key) : Prop where
  eligible : eligible ctx.cfg req
  settled : req.isDisaggGenerationTransmissionInProgress = false
  kept : ¬ ctx.maxUtilSkips req s

section

variable (ctx : PassContext Key) (req : LlmRequest) (s : MaxUtilState Key)

/-- A transmitted request is counted, with its PEFT pages. -/
def countTransmission :
    MaxUtilState Key :=
  { s with
    numScheduledPeftPages := s.numScheduledPeftPages + requiredPeftPages ctx.peft req s.seenTaskIds
    seenTaskIds := seeTask req s.seenTaskIds
    numAdmittedRequests := s.numAdmittedRequests + 1 }

/-- The blocks of a scheduled request are registered. -/
def register :
    MaxUtilState Key :=
  { s with
    contributed :=
      if ctx.maxUtilTracked req then
        registerContributedBlocks (ctx.maxUtilSummary req) none s.contributed
      else s.contributed }

end

/-- A turn of the loop that goes on to the next request. -/
inductive Turn (ctx : PassContext Key) (req : LlmRequest) :
    MaxUtilState Key → MaxUtilState Key → Prop
  | ignored {s} (h : eligible ctx.cfg req = false) : Turn ctx req s s
  | transmitted {s} (h : req.isDisaggGenerationTransmissionInProgress)
      (hlimit : s.numAdmittedRequests < ctx.cfg.maxNumRequests) :
      Turn ctx req s (ctx.countTransmission req s)
  | deferred {s} (h : eligible ctx.cfg req) (hskips : ctx.maxUtilSkips req s) : Turn ctx req s s
  | scheduled {s s'} (ht : Tried ctx req s)
      (h : ctx.trySchedulingRequestMaxUtilization req (ctx.maxUtilSummary req) s = some s') :
      Turn ctx req s (ctx.register req s')

/-- One turn of the loop: on to the next request, or the last started request is paused. -/
inductive Move (ctx : PassContext Key) :
    List LlmRequest × MaxUtilState Key → List LlmRequest × MaxUtilState Key → Prop
  | next {req rest s s'} (h : Turn ctx req s s') : Move ctx (req :: rest, s) (rest, s')
  | paused {req rest s before last s'} (ht : Tried ctx req s)
      (h : ctx.trySchedulingRequestMaxUtilization req (ctx.maxUtilSummary req) s = none)
      (hlast : ctx.lastStarted (req :: rest) = some (before, last))
      (hpause : ctx.pause last s = some s') : Move ctx (req :: rest, s) (before, s')

/-- The turns at which a pass ends. -/
inductive Stop (ctx : PassContext Key) : List LlmRequest × MaxUtilState Key → Prop
  | done {s} : Stop ctx ([], s)
  | limit {req rest s} (h : req.isDisaggGenerationTransmissionInProgress)
      (hlimit : ctx.cfg.maxNumRequests ≤ s.numAdmittedRequests) : Stop ctx (req :: rest, s)
  | stuck {req rest s} (ht : Tried ctx req s)
      (h : ctx.trySchedulingRequestMaxUtilization req (ctx.maxUtilSummary req) s = none)
      (hlast : ctx.lastStarted (req :: rest) = none) : Stop ctx (req :: rest, s)

section

variable (ctx : PassContext Key) (c : List LlmRequest × MaxUtilState Key)

/-- The turn at which a pass throws: the blocks of the request to pause cannot be given
back. -/
def Throws : Prop :=
  ∃ before last, ctx.lastStarted c.1 = some (before, last) ∧ ctx.pause last c.2 = none

/-- How a pass from a configuration ends: a stop, reached by moves, or a turn that throws. -/
def Ends :
    Option (MaxUtilState Key) → Prop
  | some s' => ∃ l', ReflTransGen (Move ctx) c (l', s') ∧ Stop ctx (l', s')
  | none => ∃ c', ReflTransGen (Move ctx) c c' ∧ Throws ctx c'

end

lemma Ends.head {c c₁ : List LlmRequest × MaxUtilState Key} {r : Option (MaxUtilState Key)}
    (h : Ends ctx c₁ r) (hm : Move ctx c c₁) : Ends ctx c r := by
  cases r with
  | some s' =>
    obtain ⟨l', hmoves, hstop⟩ := h
    exact ⟨l', .head hm hmoves, hstop⟩
  | none =>
    obtain ⟨c', hmoves, hthrows⟩ := h
    exact ⟨c', .head hm hmoves, hthrows⟩

lemma Ends.stop {l : List LlmRequest} {s : MaxUtilState Key} (h : Stop ctx (l, s)) :
    Ends ctx (l, s) (some s) := ⟨l, .refl, h⟩

/-- **A pass is a sequence of moves.** -/
lemma maxUtilLoop_ends (l : List LlmRequest) (s : MaxUtilState Key) :
    Ends ctx (l, s) (ctx.maxUtilLoop l s) := by
  fun_induction maxUtilLoop ctx l s with
  | case1 s => exact .stop .done
  | case2 s req rest h ih => exact ih.head (.next <| .ignored (by simpa using h))
  | case3 s req rest h ht hl => exact .stop (.limit ht hl)
  | case4 s req rest h ht hl ih => exact ih.head (.next <| .transmitted ht (by omega))
  | case5 s req rest h ht summary tracked hskip ih =>
    exact ih.head (.next <| .deferred (by simpa using h) hskip)
  | case6 s req rest h ht summary tracked hskip s' htry ih =>
    exact ih.head (.next <| .scheduled ⟨by simpa using h, by simpa using ht, hskip⟩ htry)
  | case7 s req rest h ht summary tracked hskip htry hlast =>
    exact .stop (.stuck ⟨by simpa using h, by simpa using ht, hskip⟩ htry hlast)
  | case8 s req rest h ht summary tracked hskip htry before last hlast s' hpause ih =>
    exact ih.head (.paused ⟨by simpa using h, by simpa using ht, hskip⟩ htry hlast hpause)
  | case9 s req rest h ht summary tracked hskip htry before last hlast hpause =>
    exact ⟨_, .refl, before, last, hlast, hpause⟩

/-! ### Induction over a pass -/

section Induction

variable {I : List LlmRequest → List LlmRequest → List LlmRequest → MaxUtilState Key → Prop}
  {l l' : List LlmRequest} {s s' : MaxUtilState Key}

/-- **Induction over the moves**: what holds of the requests done with, left and cut off and
of the state, and is kept by every turn and every pause, holds after any number of moves. -/
theorem moves_induction (h₀ : I [] l [] s)
    (hturn : ∀ {d req rest cut s s'}, I d (req :: rest) cut s → Turn ctx req s s' →
      I (d ++ [req]) rest cut s')
    (hpause : ∀ {d req rest before last after cut s s'}, I d (req :: rest) cut s →
      req :: rest = before ++ last :: after → Tried ctx req s →
      ctx.trySchedulingRequestMaxUtilization req (ctx.maxUtilSummary req) s = none →
      ctx.started last → (∀ r ∈ after, ctx.started r = false) → ctx.pause last s = some s' →
      I d before (last :: after ++ cut) s')
    (h : ReflTransGen (Move ctx) (l, s) (l', s')) :
    ∃ d cut, l = d ++ l' ++ cut ∧ I d l' cut s' := by
  suffices hall : ∀ c, ReflTransGen (Move ctx) (l, s) c →
      ∃ d cut, l = d ++ c.1 ++ cut ∧ I d c.1 cut c.2 from hall _ h
  intro c hc
  induction hc with
  | refl => exact ⟨[], [], by simp, h₀⟩
  | tail _ hm ih =>
    obtain ⟨d, cut, hsplit, hi⟩ := ih
    cases hm with
    | next ht => exact ⟨_, cut, by simpa using hsplit, hturn hi ht⟩
    | paused ht h hlast hp =>
      obtain ⟨after, hl, hstarted, hafter⟩ := ctx.lastStarted_eq_some hlast
      refine ⟨d, _, ?_, hpause hi hl ht h hstarted hafter hp⟩
      simp only [hl] at hsplit
      simpa using hsplit

end Induction

end TrtLlm.CapacityScheduler.PassContext
