import TrtLlm.Blob.Backend
import TrtLlm.Blob.Quiescence

/-!
Regions are revoked only after the access to them is proven to have ended.

* `State.Ok`: the invariant of the backend. Every attempt satisfies its own, the store holds no
  region that is not accounted for, the progress thread revokes only after a shutdown and once all
  attempts quiesced, and the labels that a shutdown collected include every attempt that is open;
* `State.Extends`: attempts are not lost, and none is accepted after a shutdown was requested;
* `step_good`: every event of every thread keeps the first and satisfies the second.
-/

namespace TrtLlm.Blob

open List Bool

namespace State

/-- What the progress thread may rely on where it stands. -/
def ProgressOk (s : State) : Prop :=
  match s.progress with
  | .drain => s.shutdownRequested
  | .check => s.shutdownRequested
  | .revoke todo => s.shutdownRequested ∧ (∀ A ∈ s.attempts, A.quiesced) ∧
      ∀ r ∈ todo, s.binding.Covers r
  | .forget r todo => s.shutdownRequested ∧ (∀ A ∈ s.attempts, A.quiesced) ∧
      (∀ r' ∈ r :: todo, s.binding.Covers r') ∧ ∀ i ∈ r.indices, i ∉ s.binding.registered
  | _ => True

structure Ok (s : State) : Prop where
  attempt : ∀ A ∈ s.attempts, A.Ok
  binding : s.binding.Ok
  releasing : s.releasing → s.binding.live = []
  progress : s.ProgressOk
  forced : .forced ∈ s.shutdowns → s.shutdownRequested
  labelled : ∀ labels, .labelled labels ∈ s.shutdowns → s.shutdownRequested ∧
    ∀ A ∈ s.attempts, A.quiesced = false → A.label ∈ labels

structure Extends (s s' : State) : Prop where
  attempt : ∀ (a : ℕ) (A : Attempt), s.attempts[a]? = some A →
    ∃ A', s'.attempts[a]? = some A' ∧ A.Extends A'
  shutdownRequested : s.shutdownRequested → s'.shutdownRequested

/-- A step that keeps the invariant. -/
structure Good (s s' : State) : Prop where
  ok : s'.Ok
  ext : s.Extends s'

variable {cfg : Config} {s : State}

variable {f : Attempt → Attempt}

lemma extends_of_attempts_eq {s' : State} (hattempts : s'.attempts = s.attempts)
    (hshutdown : s.shutdownRequested → s'.shutdownRequested) : s.Extends s' :=
  ⟨fun _ A hA => ⟨A, hattempts ▸ hA, Attempt.Extends.refl A⟩, hshutdown⟩

lemma Ok.good (h : s.Ok) : s.Good s := ⟨h, extends_of_attempts_eq rfl id⟩

/-- The ranges of the calls do not change. -/
lemma map_range_eq {A A' : Attempt} (h : A.Extends A') :
    (A'.calls.map fun c => (c.groupPosition, c.start, c.stop))
      = A.calls.map fun c => (c.groupPosition, c.start, c.stop) := by
  refine ext_getElem? fun i => ?_
  rw [getElem?_map, getElem?_map]
  cases hc : A.calls[i]? with
  | none =>
    have : A'.calls[i]? = none := by
      rw [List.getElem?_eq_none_iff] at hc ⊢
      rwa [h.length]
    rw [this]
  | some c =>
    obtain ⟨c', hc', e⟩ := h.calls i c hc
    rw [hc', Option.map_some, Option.map_some, e.groupPosition, e.start, e.stop]

variable (h : s.Ok)
include h

/-- **Attempts go on**, each by steps of its own. -/
lemma Ok.mapAttempts {attempts : List Attempt} (hlen : attempts.length = s.attempts.length)
    (hgood : ∀ (a : ℕ) (A A' : Attempt), s.attempts[a]? = some A → attempts[a]? = some A' →
      A.Good A') : s.Good { s with attempts := attempts } := by
  have hback : ∀ A' ∈ attempts, ∃ A ∈ s.attempts, A.Good A' := by
    intro A' hA'
    obtain ⟨a, ha⟩ := mem_iff_getElem?.mp hA'
    have hlt : a < s.attempts.length := hlen ▸ (List.getElem?_eq_some_iff.mp ha).1
    exact ⟨_, getElem_mem hlt, hgood a _ A' (getElem?_eq_getElem hlt) ha⟩
  have hquiesced : (∀ A ∈ s.attempts, A.quiesced) → ∀ A' ∈ attempts, A'.quiesced := by
    intro hall A' hA'
    obtain ⟨A, hA, hg⟩ := hback A' hA'
    exact hg.ext.quiesced (hall A hA)
  refine ⟨⟨?_, h.binding, h.releasing, ?_, h.forced, ?_⟩, ?_, id⟩
  · intro A' hA'
    obtain ⟨A, -, hg⟩ := hback A' hA'
    exact hg.ok
  · have hp := h.progress
    revert hp
    rw [ProgressOk, ProgressOk]
    simp only
    cases s.progress with
    | revoke | forget => exact fun hp => ⟨hp.1, hquiesced hp.2.1, hp.2.2⟩
    | _ => exact id
  · intro labels hlabels
    obtain ⟨hshutdown, hopen⟩ := h.labelled labels hlabels
    refine ⟨hshutdown, fun A' hA' hq => ?_⟩
    obtain ⟨A, hA, hg⟩ := hback A' hA'
    rw [hg.ext.label]
    refine hopen A hA (eq_false_iff.mpr fun hq' => ?_)
    exact absurd (hg.ext.quiesced hq') (eq_false_iff.mp hq)
  · intro a A hA
    have hlt : a < attempts.length := hlen ▸ (List.getElem?_eq_some_iff.mp hA).1
    exact ⟨_, getElem?_eq_getElem hlt, (hgood a A _ hA (getElem?_eq_getElem hlt)).ext⟩

lemma Ok.modifyAttempt (a : ℕ) (hf : ∀ A : Attempt, A.Ok → A.Good (f A)) :
    s.Good (s.modifyAttempt a f) := by
  refine h.mapAttempts (length_modify ..) fun b A A' hA hA' => ?_
  obtain ⟨B, hB, rfl⟩ := getElem?_modify_iff.mp hA'
  obtain rfl := Option.some.inj (hB.symm.trans hA)
  have hok := h.attempt B (mem_of_getElem? hA)
  split_ifs
  · exact hf B hok
  · exact hok.good

lemma Ok.latch (violation : Option String) : (s.latch violation).Ok :=
  ⟨h.attempt, h.binding, h.releasing, h.progress, h.forced, h.labelled⟩

/-- A step of one attempt that may latch a violation. -/
lemma Ok.latchAndModify (violation : Option String) (a : ℕ)
    (hf : ∀ A : Attempt, A.Ok → A.Good (f A)) : s.Good ((s.latch violation).modifyAttempt a f) := by
  obtain ⟨hok, hext⟩ := (h.latch violation).modifyAttempt a hf
  exact ⟨hok, hext.attempt, hext.shutdownRequested⟩

/-- All attempts make a step. -/
lemma Ok.mapAll (hf : ∀ A : Attempt, A.Ok → A.Good (f A)) :
    s.Good { s with attempts := s.attempts.map f } := by
  refine h.mapAttempts (length_map ..) fun a A A' hA hA' => ?_
  rw [getElem?_map, hA] at hA'
  obtain rfl := Option.some.inj hA'
  exact hf A (h.attempt A (mem_of_getElem? hA))

/-- The progress thread stands elsewhere. -/
lemma Ok.moveProgress {progress : Progress} {drained teardownDone : Bool}
    (hprogress : ProgressOk { s with progress := progress }) :
    s.Good { s with progress := progress, drained := drained, teardownDone := teardownDone } :=
  ⟨⟨h.attempt, h.binding, h.releasing, hprogress, h.forced, h.labelled⟩,
    extends_of_attempts_eq rfl id⟩

/-- An attempt is accepted before a shutdown. -/
lemma Ok.accept (hshutdown : s.shutdownRequested ≠ true) (isFetch : Bool)
    (groups : List GroupRows) :
    s.Good { s with
      nextAttemptId := s.nextAttemptId + 1
      attempts := s.attempts ++ [(Attempt.init s.nextAttemptId isFetch groups
        (callRanges cfg.maxRowsPerOp groups)).concludeOrQuiesceAndRetire] } := by
  have hnew := (Attempt.ok_init s.nextAttemptId isFetch groups
    (callRanges cfg.maxRowsPerOp groups)).concludeOrQuiesceAndRetire
  refine ⟨⟨fun A hA => ?_, h.binding, h.releasing, ?_, h.forced, ?_⟩, ?_, id⟩
  · obtain hA | hA := mem_append.mp hA
    · exact h.attempt A hA
    · obtain rfl := mem_singleton.mp hA
      exact hnew.ok
  · have hp := h.progress
    revert hp
    rw [ProgressOk, ProgressOk]
    simp only
    cases s.progress with
    | revoke | forget => exact fun hp => absurd hp.1 hshutdown
    | _ => exact id
  · intro labels hlabels
    exact absurd (h.labelled labels hlabels).1 hshutdown
  · intro a A hA
    have hlt := (List.getElem?_eq_some_iff.mp hA).1
    exact ⟨A, (getElem?_append_left hlt).trans hA, Attempt.Extends.refl A⟩

lemma Ok.submit (sub : Submission) : s.Good (s.submit cfg sub).2 := by
  rw [State.submit]
  cases checkedGroups cfg sub with
  | error refusal => exact h.good
  | ok groups =>
    have hnext : s.Good { s with nextAttemptId := s.nextAttemptId + 1 } :=
      ⟨⟨h.attempt, h.binding, h.releasing, h.progress, h.forced, h.labelled⟩,
        extends_of_attempts_eq rfl id⟩
    simp only
    split_ifs with hshutdown
    · exact hnext
    · split
      · exact hnext
      · exact h.accept hshutdown sub.isFetch groups

/-- The binding changes under the progress thread. -/
lemma Ok.setBinding {binding : RegionBinding} {progress : Progress}
    (hbinding : binding.Ok) (hlive : s.binding.live = [] → binding.live = [])
    (hprogress : ProgressOk { s with binding := binding, progress := progress }) :
    s.Good { s with binding := binding, progress := progress } :=
  ⟨⟨h.attempt, hbinding, fun hreleasing => hlive (h.releasing hreleasing), hprogress,
    h.forced, h.labelled⟩, extends_of_attempts_eq rfl id⟩

/-- **The progress thread** revokes only what is proven. -/
lemma Ok.progressStep (answer : Option Bool) : s.Good (s.progressStep cfg answer).2 := by
  have hp := h.progress
  rw [ProgressOk] at hp
  unfold State.progressStep
  cases hprogress : s.progress with
  | forwardCancels =>
    have hmove : s.Good { s with progress := .readShutdown } := h.moveProgress trivial
    simp only
    split_ifs
    · obtain ⟨hok, hext⟩ := hmove.ok.mapAll fun A hA => hA.forwardCancels
      exact ⟨hok, hext.attempt, hext.shutdownRequested⟩
    · exact hmove
  | readShutdown =>
    simp only
    split_ifs with hshutdown
    · exact h.moveProgress hshutdown
    · exact h.moveProgress trivial
  | drain =>
    rw [hprogress] at hp
    simp only
    split_ifs with hdrained
    · exact h.moveProgress hp
    · cases answer with
      | none => exact h.moveProgress trivial
      | some drained => exact h.moveProgress hp
  | check =>
    rw [hprogress] at hp
    simp only
    split_ifs with hopen hdrained
    · exact h.moveProgress trivial
    · refine h.moveProgress ⟨hp, fun A hA => ?_, fun r hr => ?_⟩
      · -- an attempt that the backend let go has quiesced before
        by_contra hq
        have hq' := eq_false_iff.mpr hq
        refine hopen (any_eq_true.mpr ⟨A, hA, ?_⟩)
        cases htracked : A.tracked with
        | false => exact absurd ((h.attempt A hA).tracked htracked) hq
        | true => rw [hq']; rfl
      · exact RegionBinding.covers_of_mem_revocations hr
    · exact h.moveProgress trivial
  | revoke todo =>
    rw [hprogress] at hp
    obtain ⟨hshutdown, hquiesced, hcovers⟩ := hp
    cases todo with
    | nil =>
      simp only
      split_ifs
      · exact h.moveProgress trivial
      · exact h.moveProgress trivial
    | cons r todo =>
      cases answer with
      | none =>
        exact h.moveProgress
          ⟨hshutdown, hquiesced, fun r' hr' => hcovers r' (mem_cons_of_mem r hr')⟩
      | some _ =>
        exact h.setBinding (h.binding.revoke r) id
          ⟨hshutdown, hquiesced, hcovers, s.binding.notMem_registered_revoke r⟩
  | forget r todo =>
    rw [hprogress] at hp
    obtain ⟨hshutdown, hquiesced, hcovers, hrevoked⟩ := hp
    refine h.setBinding (h.binding.forget (hcovers r mem_cons_self) hrevoked) ?_
      ⟨hshutdown, hquiesced, fun r' hr' => (hcovers r' (mem_cons_of_mem r hr')).forget r⟩
    intro hlive
    refine eq_nil_iff_forall_not_mem.mpr fun entry hentry => ?_
    have := s.binding.live_forget_subset r entry hentry
    rw [hlive] at this
    exact absurd this not_mem_nil
  | finish | wait => exact h.moveProgress trivial
  | done => exact h.good

/-- A shutdown refuses new work and forces the outcomes. -/
lemma Ok.forceOutcomes : s.Good s.forceOutcomes := by
  obtain ⟨hok, hext⟩ := h.mapAll fun A hA => hA.forceOutcome shutdownFault
  refine ⟨⟨hok.attempt, hok.binding, hok.releasing, ?_, fun _ => rfl, ?_⟩,
    hext.attempt, fun _ => rfl⟩
  · have hp := hok.progress
    revert hp
    rw [ProgressOk, ProgressOk]
    simp only [State.forceOutcomes]
    cases s.progress with
    | drain | check => exact fun _ => trivial
    | revoke | forget => exact fun hp => ⟨trivial, hp.2⟩
    | _ => exact id
  · intro labels hlabels
    obtain hlabels | hlabels := mem_append.mp hlabels
    · exact ⟨rfl, (hok.labelled labels hlabels).2⟩
    · exact absurd (mem_singleton.mp hlabels) nofun

/-- The labels that a shutdown collects include every attempt not quiesced. -/
lemma Ok.label_mem_openLabels {A : Attempt} (hA : A ∈ s.attempts)
    (hq : A.quiesced = false) : A.label ∈ s.openLabels := by
  refine mem_map.mpr ⟨A, mem_filter.mpr ⟨hA, ?_⟩, rfl⟩
  cases htracked : A.tracked with
  | false => exact absurd ((h.attempt A hA).tracked htracked) (eq_false_iff.mp hq)
  | true => rw [hq]; rfl

/-- A thread in `shutdown` moves on. -/
lemma Ok.setShutdown (n : ℕ) {shutdown : Shutdown} (hforced : shutdown ≠ .forced)
    (hlabelled : ∀ labels, shutdown = .labelled labels → s.shutdownRequested ∧
      ∀ A ∈ s.attempts, A.quiesced = false → A.label ∈ labels) :
    s.Good { s with shutdowns := s.shutdowns.set n shutdown } := by
  refine ⟨⟨h.attempt, h.binding, h.releasing, h.progress, fun hmem => ?_,
    fun labels hmem => ?_⟩, extends_of_attempts_eq rfl id⟩
  · exact (mem_or_eq_of_mem_set hmem).elim h.forced fun heq => absurd heq.symm hforced
  · exact (mem_or_eq_of_mem_set hmem).elim (h.labelled labels) fun heq =>
      hlabelled labels heq.symm

end State

open State

/-- **Every event** of every thread keeps the invariant. -/
theorem step_good {cfg : Config} {s : State} (h : s.Ok) (e : Event) :
    s.Good (step cfg s e).2 := by
  cases e with
  | submit sub => exact h.submit sub
  | handOver a => exact h.latchAndModify _ a fun A hA => hA.handOver _
  | driverReturns a answer => exact h.modifyAttempt a fun A hA => hA.driverReturns answer
  | notify a i q => exact h.modifyAttempt a fun A hA => hA.notify i q
  | record a i n => exact h.latchAndModify _ a fun A hA => hA.recordReport i n
  | cancel a => exact h.modifyAttempt a fun A hA => hA.cancel
  | progress answer => exact h.progressStep answer
  | shutdown => exact h.forceOutcomes
  | shutdownLabels n =>
    simp only [step]
    split_ifs with hn
    · refine h.setShutdown n nofun fun labels heq => ?_
      obtain rfl := Shutdown.labelled.inj heq
      exact ⟨h.forced (mem_of_getElem? hn), fun A hA hq => h.label_mem_openLabels hA hq⟩
    · exact h.good
  | shutdownReturn n =>
    simp only [step]
    split
    · exact h.setShutdown n nofun nofun
    · exact h.good
  | checkHold =>
    refine ⟨⟨h.attempt, h.binding, fun hreleasing => ?_, h.progress, h.forced,
      h.labelled⟩, extends_of_attempts_eq rfl id⟩
    obtain hold | hnew := (or_eq_true _ _).mp hreleasing
    · exact h.releasing hold
    · exact of_decide_eq_true hnew
  | releaseHold =>
    simp only [step]
    split_ifs with hreleasing
    · exact h.setBinding (h.binding.release (h.releasing hreleasing)) id h.progress
    · exact h.good

/-- What a step shows, and where its thread stands then. -/
lemma mem_step_output {cfg : Config} {s : State} {e : Event} {o : Output}
    (h : o ∈ (step cfg s e).1) :
    (∃ refusal, o = .raised refusal) ∨
      (∃ r todo, o = .revoke r ∧ s.progress = .revoke (r :: todo)) ∨
        (∃ labels, o = .stillAccessible labels s.binding.liveLabels ∧
          .labelled labels ∈ s.shutdowns) ∨ o = .holdReleased ∧ s.releasing := by
  cases e with
  | submit sub =>
    refine Or.inl ?_
    simp only [step, State.submit] at h
    cases hgroups : checkedGroups cfg sub with
    | error refusal =>
      rw [hgroups] at h
      exact ⟨refusal, mem_singleton.mp h⟩
    | ok groups =>
      rw [hgroups] at h
      simp only at h
      split_ifs at h with hshutdown
      · exact ⟨.shutDown, mem_singleton.mp h⟩
      · split at h
        · exact ⟨_, mem_singleton.mp h⟩
        · exact absurd h not_mem_nil
  | progress answer =>
    refine Or.inr (Or.inl ?_)
    simp only [step, State.progressStep] at h
    cases hprogress : s.progress with
    | revoke todo =>
      rw [hprogress] at h
      cases todo with
      | nil => exact absurd h not_mem_nil
      | cons r todo =>
        cases answer with
        | none | some => exact ⟨r, todo, mem_singleton.mp h, rfl⟩
    | drain =>
      rw [hprogress] at h
      simp only at h
      split_ifs at h
      · exact absurd h not_mem_nil
      · cases answer with
        | none | some => exact absurd h not_mem_nil
    | check =>
      rw [hprogress] at h
      simp only at h
      split_ifs at h <;> exact absurd h not_mem_nil
    | _ =>
      rw [hprogress] at h
      exact absurd h not_mem_nil
  | shutdownReturn n =>
    refine Or.inr (Or.inr (Or.inl ?_))
    simp only [step] at h
    split at h
    next labels hlabels =>
      exact ⟨labels, mem_singleton.mp h, mem_of_getElem? hlabels⟩
    next => exact absurd h not_mem_nil
  | releaseHold =>
    refine Or.inr (Or.inr (Or.inr ?_))
    simp only [step] at h
    split_ifs at h with hreleasing
    · exact ⟨mem_singleton.mp h, hreleasing⟩
    · exact absurd h not_mem_nil
  | _ => exact absurd h not_mem_nil

/-! ### Submissions and their attempts -/

/-- The calls of the attempt partition the rows of the submission into runs that keep the limit of
the driver and name no key twice. -/
structure Attempt.Serves (cfg : Config) (sub : Submission) (A : Attempt) : Prop where
  partition : (A.calls.flatMap fun c =>
      (runRows (c.start, c.stop)).map fun row => (c.groupPosition, row))
    = sub.groups.zipIdx.flatMap fun group => (range group.1.rows).map fun row => (group.2, row)
  within : ∀ c ∈ A.calls, ∃ group keys, sub.groups[c.groupPosition]? = some group ∧
    group.objectKeys = some keys ∧ (∀ limit, cfg.maxRowsPerOp = some (limit + 1) →
      c.rows ≤ limit + 1) ∧ ((keys.drop c.start).take c.rows).Nodup

lemma objectKeys_of_checkedGroupRows {cfg : Config} {group : LayerGroupRows} {rows : GroupRows}
    (h : checkedGroupRows cfg group = .ok rows) :
    group.objectKeys = some rows.objectKeys ∧ rows.objectKeys.length = group.rows := by
  rw [checkedGroupRows] at h
  split at h
  next keys addresses regionIndex hkeys haddresses hregion =>
    split_ifs at h with hok hlength hserved
    split at h
    next => exact absurd h nofun
    next region =>
      split_ifs at h
      obtain rfl := Except.ok.inj h
      have hkeysOk : keysOk group.rows keys = true := eq_true_of_ne_false hok
      rw [keysOk, decide_eq_true_iff] at hkeysOk
      exact ⟨hkeys, hkeysOk.1⟩
  next => exact absurd h nofun

lemma forall₂_of_mapM {α β ε : Type*} {f : α → Except ε β} {as : List α} {bs : List β}
    (h : as.mapM f = .ok bs) : Forall₂ (fun a b => f a = .ok b) as bs := by
  induction as generalizing bs with
  | nil =>
    obtain rfl := Except.ok.inj h
    exact .nil
  | cons a as ih =>
    rw [mapM_cons] at h
    cases ha : f a with
    | error e =>
      rw [ha] at h
      exact absurd h nofun
    | ok b =>
      rw [ha] at h
      change (as.mapM f).bind (fun bs => .ok (b :: bs)) = .ok _ at h
      cases has : as.mapM f with
      | error e =>
        rw [has] at h
        exact absurd h nofun
      | ok bs' =>
        rw [has] at h
        obtain rfl := Except.ok.inj h
        exact .cons ha (ih has)

/-- The checked groups are those of the submission. -/
lemma checkedGroups_forall₂ {cfg : Config} {sub : Submission} {groups : List GroupRows}
    (h : checkedGroups cfg sub = .ok groups) :
    Forall₂ (fun group rows => checkedGroupRows cfg group = .ok rows) sub.groups groups := by
  refine forall₂_of_mapM ?_
  cases hmap : sub.groups.mapM (checkedGroupRows cfg) with
  | error refusal =>
    simp only [checkedGroups, hmap, bind, Except.bind, throw, throwThe, MonadExceptOf.throw] at h
    split_ifs at h
  | ok checked =>
    simp only [checkedGroups, hmap, bind, Except.bind, pure, Except.pure, throw, throwThe,
      MonadExceptOf.throw] at h
    split_ifs at h
    · exact h
    · exact h

lemma flatMap_rows_eq {cfg : Config} {given : List LayerGroupRows} {groups : List GroupRows}
    (h : Forall₂ (fun group rows => checkedGroupRows cfg group = .ok rows) given groups) :
    ∀ k, ((groups.zipIdx k).flatMap fun group =>
        (range group.1.objectKeys.length).map fun row => (group.2, row))
      = (given.zipIdx k).flatMap fun group => (range group.1.rows).map fun row =>
        (group.2, row) := by
  induction h with
  | nil => exact fun _ => rfl
  | cons hgroup _ ih =>
    intro k
    rw [zipIdx_cons, zipIdx_cons, flatMap_cons, flatMap_cons, ih,
      (objectKeys_of_checkedGroupRows hgroup).2]

lemma serves_of_checkedGroups {cfg : Config} {sub : Submission} {groups : List GroupRows}
    {A : Attempt} (h : checkedGroups cfg sub = .ok groups)
    (hranges : (A.calls.map fun c => (c.groupPosition, c.start, c.stop))
      = callRanges cfg.maxRowsPerOp groups) : A.Serves cfg sub := by
  have hgroups := checkedGroups_forall₂ h
  have hget : ∀ (g : ℕ) rows, groups[g]? = some rows → ∃ group, sub.groups[g]? = some group ∧
      group.objectKeys = some rows.objectKeys ∧ rows.objectKeys.length = group.rows := by
    intro g rows hrows
    obtain ⟨hlt, rfl⟩ := List.getElem?_eq_some_iff.mp hrows
    have hlt' : g < sub.groups.length := hgroups.length_eq ▸ hlt
    exact ⟨sub.groups[g], getElem?_eq_getElem hlt',
      objectKeys_of_checkedGroupRows (hgroups.get hlt' hlt)⟩
  refine ⟨?_, fun c hc => ?_⟩
  · rw [show (A.calls.flatMap fun c =>
          (runRows (c.start, c.stop)).map fun row => (c.groupPosition, row))
        = (callRanges cfg.maxRowsPerOp groups).flatMap fun range =>
            (runRows range.2).map fun row => (range.1, row) by rw [← hranges, flatMap_map],
      callRanges_partition]
    exact flatMap_rows_eq hgroups 0
  · have hmem : (c.groupPosition, c.start, c.stop) ∈ callRanges cfg.maxRowsPerOp groups := by
      rw [← hranges]
      exact mem_map.mpr ⟨c, hc, rfl⟩
    obtain ⟨rows, hrows, hlimit, hnodup⟩ := callRanges_within hmem
    obtain ⟨group, hgroup, hkeys, -⟩ := hget _ rows hrows
    refine ⟨group, rows.objectKeys, hgroup, hkeys, fun limit heq => ?_, hnodup⟩
    rw [heq] at hlimit
    exact hlimit

/-- A submission that raises nothing is accepted. -/
lemma exists_attempt_of_silent {cfg : Config} {s : State} {sub : Submission}
    (h : (step cfg s (.submit sub)).1 = []) :
    ∃ groups A, checkedGroups cfg sub = .ok groups ∧
      (step cfg s (.submit sub)).2.attempts[s.attempts.length]? = some A ∧
        (A.calls.map fun c => (c.groupPosition, c.start, c.stop))
          = callRanges cfg.maxRowsPerOp groups := by
  simp only [step, State.submit] at h ⊢
  cases hgroups : checkedGroups cfg sub with
  | error refusal =>
    rw [hgroups] at h
    exact absurd h nofun
  | ok groups =>
    rw [hgroups] at h
    simp only at h ⊢
    split_ifs at h with hshutdown
    rw [if_neg hshutdown]
    split at h
    next => exact absurd h nofun
    next hviolation =>
      have hnew := (Attempt.ok_init s.nextAttemptId sub.isFetch groups
        (callRanges cfg.maxRowsPerOp groups)).concludeOrQuiesceAndRetire
      simp only
      refine ⟨groups, _, rfl, getElem?_concat_length, (map_range_eq hnew.ext).trans ?_⟩
      rw [Attempt.init, map_map]
      exact map_id _

/-- Only a submission that raises nothing adds an attempt. -/
lemma length_attempts_step (cfg : Config) (s : State) (e : Event) :
    (step cfg s e).2.attempts.length = s.attempts.length ∨
      ∃ sub, e = .submit sub ∧ (step cfg s e).1 = [] ∧
        (step cfg s e).2.attempts.length = s.attempts.length + 1 := by
  cases e with
  | submit sub =>
    simp only [step, State.submit]
    cases checkedGroups cfg sub with
    | error refusal => exact Or.inl rfl
    | ok groups =>
      simp only
      split_ifs
      · exact Or.inl rfl
      · split
        · exact Or.inl rfl
        · exact Or.inr ⟨sub, rfl, rfl, length_append⟩
  | handOver | driverReturns | notify | record | cancel => exact Or.inl (length_modify ..)
  | progress answer =>
    refine Or.inl ?_
    simp only [step, State.progressStep]
    cases s.progress with
    | forwardCancels =>
      simp only
      split_ifs
      · exact length_map ..
      · rfl
    | drain =>
      simp only
      split_ifs
      · rfl
      · cases answer with
        | none | some => rfl
    | check =>
      simp only
      split_ifs <;> rfl
    | revoke todo =>
      cases todo with
      | nil => rfl
      | cons r todo =>
        cases answer with
        | none | some => rfl
    | _ => rfl
  | shutdown => exact Or.inl (length_map ..)
  | shutdownLabels n =>
    simp only [step]
    split_ifs <;> exact Or.inl rfl
  | shutdownReturn n =>
    simp only [step]
    split <;> exact Or.inl rfl
  | checkHold => exact Or.inl rfl
  | releaseHold =>
    simp only [step]
    split_ifs <;> exact Or.inl rfl

/-! ### Runs -/

section Runs

variable (cfg : Config) (b : RegionBinding)

/-- The state after a run of the backend over a binding. -/
def stateAfter (es : List Event) : State := (Machine.run (step cfg) (State.init b) es).2

variable {cfg b}

lemma stateAfter_ok (hb : b.Ok) (es : List Event) : (stateAfter cfg b es).Ok := by
  refine Machine.run_invariant (I := fun s : State => s.Ok) ?_ (fun s e h => (step_good h e).ok) es
  exact ⟨nofun, hb, nofun, trivial, nofun, nofun⟩

lemma stateAfter_concat (es : List Event) (e : Event) :
    stateAfter cfg b (es ++ [e]) = (step cfg (stateAfter cfg b es) e).2 := by
  rw [stateAfter, Machine.run_concat]
  rfl

/-- Attempts only grow along a run. -/
lemma exists_attempt_later (hb : b.Ok) {es : List Event} {a : ℕ} {A : Attempt}
    (hA : (stateAfter cfg b es).attempts[a]? = some A) (fs : List Event) :
    ∃ A', (stateAfter cfg b (es ++ fs)).attempts[a]? = some A' ∧ A.Extends A' := by
  induction fs using reverseRecOn with
  | nil =>
    rw [append_nil]
    exact ⟨A, hA, Attempt.Extends.refl A⟩
  | append_singleton fs f ih =>
    obtain ⟨A₁, hA₁, hext₁⟩ := ih
    have hok : (stateAfter cfg b (es ++ fs)).Ok := stateAfter_ok hb _
    obtain ⟨A₂, hA₂, hext₂⟩ := (step_good hok f).ext.attempt a A₁ hA₁
    rw [← append_assoc, stateAfter_concat]
    exact ⟨A₂, hA₂, hext₁.trans hext₂⟩

/-- An attempt comes from a submission of the run. -/
lemma exists_submit {es : List Event} {a : ℕ} (ha : a < (stateAfter cfg b es).attempts.length) :
    ∃ es₁ sub es₂, es = es₁ ++ .submit sub :: es₂ ∧
      (step cfg (stateAfter cfg b es₁) (.submit sub)).1 = [] ∧
        (stateAfter cfg b es₁).attempts.length = a := by
  induction es using reverseRecOn with
  | nil => exact absurd ha (Nat.not_lt_zero a)
  | append_singleton es e ih =>
    rw [stateAfter_concat] at ha
    have hold : a < (stateAfter cfg b es).attempts.length → ∃ es₁ sub es₂,
        es ++ [e] = es₁ ++ .submit sub :: es₂ ∧
          (step cfg (stateAfter cfg b es₁) (.submit sub)).1 = [] ∧
            (stateAfter cfg b es₁).attempts.length = a := by
      intro hlt
      obtain ⟨es₁, sub, es₂, rfl, hsilent, hlength⟩ := ih hlt
      exact ⟨es₁, sub, es₂ ++ [e], by simp, hsilent, hlength⟩
    obtain hsame | ⟨sub, rfl, hsilent, hmore⟩ := length_attempts_step cfg (stateAfter cfg b es) e
    · exact hold (hsame ▸ ha)
    · obtain hlt | heq := Nat.lt_succ_iff_lt_or_eq.mp (hmore ▸ ha)
      · exact hold hlt
      · exact ⟨es, sub, [], rfl, hsilent, heq.symm⟩

/-- What holds after a run of the backend over a binding. -/
structure Safe (cfg : Config) (b : RegionBinding) (es : List Event) : Prop where
  /-- A quiesced attempt has the evidence of every call. -/
  quiesced : ∀ A ∈ (stateAfter cfg b es).attempts, A.quiesced → ∀ c ∈ A.calls, AccessOver c.history
  /-- The next step revokes only after a shutdown, with every attempt quiesced. -/
  revoked : ∀ e r, .revoke r ∈ (step cfg (stateAfter cfg b es) e).1 →
    (stateAfter cfg b es).shutdownRequested ∧ ∀ A ∈ (stateAfter cfg b es).attempts, A.quiesced
  /-- The next step gives the hold back only if nothing may be registered. -/
  released : ∀ e, .holdReleased ∈ (step cfg (stateAfter cfg b es) e).1 →
    (stateAfter cfg b es).binding.registered = ∅
  /-- An outcome does not change. -/
  outcome : ∀ (a : ℕ) (A : Attempt) (o : Outcome), (stateAfter cfg b es).attempts[a]? = some A →
    A.poll = some o → ∀ fs, ∃ A', (stateAfter cfg b (es ++ fs)).attempts[a]? = some A' ∧
      A'.poll = some o
  /-- A row is delivered only if its call concluded with the row ready. -/
  delivered : ∀ A ∈ (stateAfter cfg b es).attempts, ∀ o, A.poll = some o →
    ∀ g row, Marked o.deliveredMasks g row → A.Delivered g row
  /-- A shutdown that returns names every attempt not quiesced and every region that may be
  registered. -/
  labels : ∀ e attempts regions,
    .stillAccessible attempts regions ∈ (step cfg (stateAfter cfg b es) e).1 →
      (∀ A ∈ (stateAfter cfg b es).attempts, A.quiesced = false → A.label ∈ attempts) ∧
        ∀ i ∈ (stateAfter cfg b es).binding.registered, i ∈ regions
  /-- Every attempt comes from a submission of the run that raised nothing. -/
  accepted : ∀ a < (stateAfter cfg b es).attempts.length, ∃ es₁ sub es₂,
    es = es₁ ++ .submit sub :: es₂ ∧ (step cfg (stateAfter cfg b es₁) (.submit sub)).1 = [] ∧
      (stateAfter cfg b es₁).attempts.length = a
  /-- Every submission that raised nothing has its attempt, whose calls are those of its rows. -/
  calls : ∀ es₁ sub es₂, es = es₁ ++ .submit sub :: es₂ →
    (step cfg (stateAfter cfg b es₁) (.submit sub)).1 = [] →
      ∃ A, (stateAfter cfg b es).attempts[(stateAfter cfg b es₁).attempts.length]? = some A ∧
        A.Serves cfg sub

lemma safe_of_ok (hb : b.Ok) (es : List Event) : Safe cfg b es := by
  have hok : (stateAfter cfg b es).Ok := stateAfter_ok hb es
  refine ⟨?_, ?_, ?_, ?_, ?_, ?_, ?_, ?_⟩
  · intro A hA hq
    exact (hok.attempt A hA).accessOver hq
  · intro e r hr
    obtain ⟨_, h⟩ | ⟨r', todo, h, hprogress⟩ | ⟨_, h, -⟩ | ⟨h, -⟩ := mem_step_output hr
    · exact absurd h nofun
    · have hp := hok.progress
      rw [ProgressOk, hprogress] at hp
      exact ⟨hp.1, hp.2.1⟩
    · exact absurd h nofun
    · exact absurd h nofun
  · intro e he
    obtain ⟨_, h⟩ | ⟨_, _, h, -⟩ | ⟨_, h, -⟩ | ⟨-, hreleasing⟩ := mem_step_output he
    · exact absurd h nofun
    · exact absurd h nofun
    · exact absurd h nofun
    · exact hok.binding.registered_eq_empty (hok.releasing hreleasing)
  · intro a A o hA ho fs
    obtain ⟨A', hA', hext⟩ := exists_attempt_later hb hA fs
    exact ⟨A', hA', hext.poll o ho⟩
  · intro A hA o ho g row hmark
    exact (hok.attempt A hA).delivered_of_poll ho hmark
  · intro e attempts regions he
    obtain ⟨_, h⟩ | ⟨_, _, h, -⟩ | ⟨labels, h, hlabels⟩ | ⟨h, -⟩ := mem_step_output he
    · exact absurd h nofun
    · exact absurd h nofun
    · obtain ⟨rfl, rfl⟩ := Output.stillAccessible.inj h
      exact ⟨(hok.labelled _ hlabels).2, hok.binding.accounted⟩
    · exact absurd h nofun
  · exact fun a ha => exists_submit ha
  · rintro es₁ sub es₂ rfl hsilent
    obtain ⟨groups, A, hchecked, hA, hranges⟩ := exists_attempt_of_silent hsilent
    rw [← stateAfter_concat] at hA
    obtain ⟨A', hA', hext⟩ := exists_attempt_later hb hA es₂
    rw [append_assoc, singleton_append] at hA'
    exact ⟨A', hA', serves_of_checkedGroups hchecked ((map_range_eq hext).trans hranges)⟩

end Runs

/-- **Regions are revoked only after proven access end**, for every driver and every interleaving:
the construction gives the hold back only with nothing registered, and a run of the backend over
what it registered is safe. -/
theorem blobBackend_safe (cfg : Config) (together : Bool) (answer : ℕ → RegisterAnswer)
    (batchAnswer : RegisterAnswer) (revoked : Revocation → Bool) :
    let c := register cfg.regions cfg.deviceMemory together answer batchAnswer revoked
    (c.binding.holdReleased ∨ c.binding.releaseHold ≠ none → c.binding.registered = ∅) ∧
      ∀ b, c = .registered b → ∀ es, Safe cfg b es := by
  intro c
  have hc : c.Ok := register_ok cfg.regions cfg.deviceMemory together answer batchAnswer revoked
  have hbinding : c.binding.Ok := by
    revert hc
    cases c with
    | registered | rejected | failed => exact And.left
  refine ⟨fun h => ?_, fun b hb es => ?_⟩
  · refine hbinding.registered_eq_empty (h.elim hbinding.released fun hhold => ?_)
    by_contra hlive
    exact hhold (if_neg hlive)
  · rw [hb] at hbinding
    exact safe_of_ok hbinding es

/-- One host region of four slots. -/
def oneRegion : Config where
  regions := [⟨4096, 64, 16, 4, .host⟩]
  get := true
  put := true
  cancel := false
  hints := false
  deviceMemory := false
  maxRowsPerOp := some 2

/-- The binding after the region is registered under the handle 7. -/
def oneBinding : RegionBinding where
  together := false
  live := [(0, some 7)]
  registered := {0}
  holdReleased := false

lemma register_oneRegion :
    register oneRegion.regions oneRegion.deviceMemory false (fun _ => .returned (some 7)) .raised
      (fun _ => false) = .registered oneBinding := rfl

/-- A publish of one row. -/
def publishOne : Submission where
  isFetch := false
  hintGiven := false
  groups := [⟨1, some [[1]], some [4096], some 0⟩]

/-- The row is published and its access ends; then a shutdown lets the progress thread drain the
driver and check the attempts. -/
def teardownEvents : List Event :=
  [.submit publishOne, .handOver 0, .driverReturns 0 (.returned 1),
    .notify 0 0 ⟨.ok [.ready], .ok true, .ok false⟩, .record 0 0 0, .shutdown, .progress none,
    .progress none, .progress (some true), .progress none]

theorem blobBackend_safe_teardown : .revoke ⟨[0], 7⟩
        ∈ (step oneRegion (stateAfter oneRegion oneBinding teardownEvents)
          (.progress (some true))).1 ∧
      (stateAfter oneRegion oneBinding teardownEvents).shutdownRequested ∧
        ∀ A ∈ (stateAfter oneRegion oneBinding teardownEvents).attempts, A.quiesced := by
  have hrevoke : .revoke ⟨[0], 7⟩
      ∈ (step oneRegion (stateAfter oneRegion oneBinding teardownEvents)
        (.progress (some true))).1 := by
    decide
  have hsafe := (blobBackend_safe oneRegion false (fun _ => .returned (some 7)) .raised
    (fun _ => false)).2 oneBinding register_oneRegion teardownEvents
  exact ⟨hrevoke, hsafe.revoked _ _ hrevoke⟩

/-- The driver raises from `put`; before that is recorded it reports on another thread that the
access ended. -/
def raceEvents : List Event :=
  [.submit publishOne, .handOver 0, .driverReturns 0 (.raised "boom"),
    .notify 0 0 ⟨.ok [.ready], .ok true, .ok false⟩, .record 0 0 0]

/-- The driver refused the call, was never handed it, or reported its access end before it broke the
protocol on it, whenever the backend recorded either. -/
def ReportedBeforeBreak (history : List CallNote) : Prop :=
  .refused ∈ history ∨ .handed ∉ history ∨
    .reportedEnd ∈ history ∧ .broke ∉ history.takeWhile fun n => n ≠ .reportedEnd

instance (history : List CallNote) : Decidable (ReportedBeforeBreak history) :=
  inferInstanceAs (Decidable (_ ∨ _ ∨ _ ∧ _))

/-- The attempt quiesces although the driver broke its protocol on the call first. -/
theorem quiesced_after_break :
    ∃ A ∈ (stateAfter oneRegion oneBinding raceEvents).attempts, A.quiesced = true ∧
      ∃ c ∈ A.calls, ¬ ReportedBeforeBreak c.history := by
  decide

end TrtLlm.Blob
