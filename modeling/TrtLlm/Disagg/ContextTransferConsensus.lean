import TrtLlm.Disagg.ContextTransferRuns

/-!
The consensus on context transfers.

The calls on the ranks interleave in any order. A call first receives and then sends, so it is one
step here. `World.step` fails only the checks on its use (`Ok.step`), and the log of a request
notes exactly what `poll` returns (`Noted`).

* `Prompt`: an entry with all votes in is there only until the next poll of the coordinator;
* `contextTransfer_consensus`: **the ranks agree on every context transfer**.
-/

namespace TrtLlm.Disagg

open Commitment List UMap

variable {n : ℕ}

namespace World

/-! ### What a call leaves alone -/

/-- The rank has polled since it voted. -/
def PolledSince (r : Fin (n + 1)) (log : List (Event (Fin (n + 1)))) : Prop :=
  ∀ v newer older, log = newer ++ .voted r v :: older → .polled r ∈ newer

lemma not_polledSince_append {r : Fin (n + 1)} {log : List (Event (Fin (n + 1)))}
    (newer : List (Event (Fin (n + 1)))) (h : ¬PolledSince r log)
    (hnewer : .polled r ∉ newer) : ¬PolledSince r (newer ++ log) := by
  simp only [PolledSince, not_forall] at h ⊢
  obtain ⟨v, since, older, rfl, hsince⟩ := h
  refine ⟨v, newer ++ since, older, (append_assoc ..).symm, ?_⟩
  rw [mem_append, not_or]
  exact ⟨hnewer, hsince⟩

/-- What a call adds to the log of a request: at the rank itself, what it hands out. -/
def Noted (rank : Fin (n + 1)) (shown : Bool) (result : ConsensusResult) (q : ℕ)
    (newer : List (Event (Fin (n + 1)))) : Prop :=
  (∀ r v, .reported r v ∈ newer ↔ shown = true ∧ r = rank ∧ q ∈ result.outcomeIds v)
  ∧ ∀ r, .timeoutReported r ∈ newer ↔ shown = true ∧ r = rank ∧ q ∈ result.timedOutRequestIds

/-- No entry of the coordinator waits for a poll, and no other rank has entries. -/
structure Prompt (w : World n) : Prop where
  waiting : ∀ q t, (w.impls (Fin.last n)).reducer.find? q = some t → ready t = true →
    ¬PolledSince (Fin.last n) (w.log q)
  others : ∀ r ≠ Fin.last n, (w.impls r).reducer = ∅

/-- While a rank receives updates, what it is told is written to the log, and to nothing else that
others see. -/
structure Heard (rank : Fin (n + 1)) (shown : Bool) (w w' : World n)
    (result result' : ConsensusResult) : Prop where
  impls : ∀ r ≠ rank, w'.impls r = w.impls r
  reducer : (w'.impls rank).reducer = (w.impls rank).reducer
  log : ∀ q, ∃ newer, w'.log q = newer ++ w.log q
    ∧ (∀ e ∈ newer, e = .timeoutReported rank ∨ ∃ v, e = .reported rank v)
    ∧ (shown = true →
      (∀ v, q ∈ result'.outcomeIds v ↔ q ∈ result.outcomeIds v ∨ .reported rank v ∈ newer)
      ∧ (q ∈ result'.timedOutRequestIds ↔
        q ∈ result.timedOutRequestIds ∨ .timeoutReported rank ∈ newer))
    ∧ (shown = false → newer = [])

lemma Heard.refl (rank : Fin (n + 1)) (shown : Bool) (w : World n) (result : ConsensusResult) :
    Heard rank shown w w result result :=
  ⟨fun _ _ => rfl, rfl, fun _ => ⟨[], rfl, by simp, by simp, fun _ => rfl⟩⟩

lemma Heard.trans {rank : Fin (n + 1)} {shown : Bool} {w₁ w₂ w₃ : World n}
    {result₁ result₂ result₃ : ConsensusResult} (h : Heard rank shown w₁ w₂ result₁ result₂)
    (h' : Heard rank shown w₂ w₃ result₂ result₃) : Heard rank shown w₁ w₃ result₁ result₃ where
  impls r hr := (h'.impls r hr).trans (h.impls r hr)
  reducer := h'.reducer.trans h.reducer
  log q := by
    obtain ⟨newer, hlog, hkind, hshown, hhidden⟩ := h.log q
    obtain ⟨newer', hlog', hkind', hshown', hhidden'⟩ := h'.log q
    refine ⟨newer' ++ newer, ?_, ?_, ?_, ?_⟩
    · rw [hlog', hlog, append_assoc]
    · intro e he
      obtain he | he := mem_append.mp he
      · exact hkind' e he
      · exact hkind e he
    · intro hs
      refine ⟨fun v => ?_, ?_⟩
      · rw [(hshown' hs).1 v, (hshown hs).1 v, mem_append, or_assoc]
        exact or_congr Iff.rfl or_comm
      · rw [(hshown' hs).2, (hshown hs).2, mem_append, or_assoc]
        exact or_congr Iff.rfl or_comm
    · intro hs
      rw [hhidden hs, hhidden' hs, append_nil]

lemma Heard.receiveUpdate {w : World n} {shown : Bool} {rank : Fin (n + 1)} {p : Packet}
    (rest : List Packet) {impl : Impl n} {result result' : ConsensusResult}
    (h : (w.impls rank).receiveUpdate result p = .ok (impl, result')) :
    Heard rank shown w (w.afterUpdate shown rank p rest impl) result result' := by
  have hframe : impl.reducer = (w.impls rank).reducer → ∀ newer : ℕ → List (Event (Fin (n + 1))),
      (∀ q, logUpdate shown rank p w.log q = newer q ++ w.log q) →
      (∀ q, ∀ e ∈ newer q, e = .timeoutReported rank ∨ ∃ v, e = .reported rank v) →
      (shown = true → ∀ q, (∀ v, q ∈ result'.outcomeIds v ↔
          q ∈ result.outcomeIds v ∨ .reported rank v ∈ newer q)
        ∧ (q ∈ result'.timedOutRequestIds ↔
          q ∈ result.timedOutRequestIds ∨ .timeoutReported rank ∈ newer q)) →
      (shown = false → ∀ q, newer q = []) →
      Heard rank shown w (w.afterUpdate shown rank p rest impl) result result' := by
    intro hred newer h1 h2 h3 h4
    refine ⟨fun r hr => Function.update_of_ne hr _ _, ?_, fun q => ⟨newer q, h1 q, h2 q,
      fun hs => h3 hs q, fun hs => h4 hs q⟩⟩
    simp only [World.afterUpdate, Function.update_self]
    exact hred
  rw [Impl.receiveUpdate] at h
  by_cases hclose : p.value = kCloseMarker
  · rw [if_pos hclose] at h
    split_ifs at h
    obtain ⟨rfl, rfl⟩ := Prod.mk.inj (Except.ok.inj h)
    refine hframe rfl (fun _ => []) (fun q => ?_) (by simp) (by simp) (by simp)
    rw [logUpdate, if_pos hclose]
    rfl
  rw [if_neg hclose] at h
  by_cases htimeout : p.value = kTimedOutSignal
  · rw [if_pos htimeout] at h
    obtain ⟨rfl, rfl⟩ := Prod.mk.inj (Except.ok.inj h)
    refine hframe rfl (fun q => if q = p.requestId ∧ shown = true then
      [.timeoutReported rank] else []) (fun q => ?_) (fun q e he => ?_) (fun hs q => ?_)
      (fun hs q => by simp [hs])
    · rw [logUpdate, if_neg hclose, if_pos htimeout, Function.update_apply]
      by_cases hq : q = p.requestId <;> cases shown <;> simp [hq, Slot.logIf]
    · split_ifs at he
      · exact .inl (mem_singleton.mp he)
      · simp at he
    · by_cases hq : q = p.requestId
      · refine ⟨fun v => ?_, ?_⟩
        · cases v <;> simp [hq, hs, ConsensusResult.outcomeIds]
        · simp [hq, hs]
      · refine ⟨fun v => ?_, ?_⟩
        · cases v <;> simp [hq, ConsensusResult.outcomeIds]
        · simp [hq]
  rw [if_neg htimeout] at h
  cases hcode : ContextTransferVote.ofCode p.value with
  | none => simp [hcode] at h
  | some outcome =>
    rw [hcode] at h
    split_ifs at h
    obtain ⟨rfl, rfl⟩ := Prod.mk.inj (Except.ok.inj h)
    refine hframe rfl (fun q => if q = p.requestId ∧ shown = true then
      [.reported rank outcome] else []) (fun q => ?_) (fun q e he => ?_) (fun hs q => ?_)
      (fun hs q => by simp [hs])
    · rw [logUpdate, if_neg hclose, if_neg htimeout, hcode, Function.update_apply]
      by_cases hq : q = p.requestId <;> cases shown <;> simp [hq, Slot.logIf]
    · split_ifs at he
      · exact .inr ⟨outcome, mem_singleton.mp he⟩
      · simp at he
    · by_cases hq : q = p.requestId
      · refine ⟨fun v => ?_, ?_⟩
        · cases v <;> cases outcome <;> simp [hq, hs, ConsensusResult.outcomeIds]
        · cases outcome <;> simp [hq, hs]
      · refine ⟨fun v => ?_, ?_⟩
        · cases v <;> cases outcome <;> simp [hq, ConsensusResult.outcomeIds]
        · cases outcome <;> simp [hq]

lemma Heard.drainUpdates {w w' : World n} {shown : Bool} {rank : Fin (n + 1)} {arrived : ℕ}
    {result result' : ConsensusResult}
    (h : w.drainUpdates shown rank arrived result = .ok (w', result')) :
    Heard rank shown w w' result result' := by
  induction arrived generalizing w result with
  | zero =>
    obtain ⟨rfl, rfl⟩ := Prod.mk.inj (Except.ok.inj h)
    exact .refl rank shown w result
  | succ arrived ih =>
    rw [World.drainUpdates] at h
    cases hupdates : w.updates rank with
    | nil =>
      rw [hupdates] at h
      obtain ⟨rfl, rfl⟩ := Prod.mk.inj (Except.ok.inj h)
      exact .refl rank shown w result
    | cons p rest =>
      rw [hupdates] at h
      dsimp only at h
      cases himpl : (w.impls rank).receiveUpdate result p with
      | error e => simp [himpl, Except.bind] at h
      | ok r =>
        rw [himpl] at h
        exact (Heard.receiveUpdate rest himpl).trans (ih h)

lemma drainPeer_frame {w w' : World n} {peer : Fin (n + 1)} {arrived : ℕ}
    (h : w.drainPeer peer arrived = .ok w') :
    w'.log = w.log ∧ ∀ r ≠ Fin.last n, w'.impls r = w.impls r := by
  induction arrived generalizing w with
  | zero =>
    obtain rfl := Except.ok.inj h
    exact ⟨rfl, fun _ _ => rfl⟩
  | succ arrived ih =>
    rw [World.drainPeer] at h
    cases hevents : w.events peer with
    | nil =>
      rw [hevents] at h
      obtain rfl := Except.ok.inj h
      exact ⟨rfl, fun _ _ => rfl⟩
    | cons p rest =>
      rw [hevents] at h
      dsimp only at h
      cases himpl : (w.impls (Fin.last n)).receiveEvent peer p with
      | error e => simp [himpl, Except.bind] at h
      | ok impl =>
        rw [himpl] at h
        obtain ⟨hlog, hothers⟩ := ih h
        exact ⟨hlog, fun r hr => (hothers r hr).trans (Function.update_of_ne hr _ _)⟩

lemma drainVotes_frame {w w' : World n} {arrived : Fin (n + 1) → ℕ}
    (h : w.drainVotes arrived = .ok w') :
    w'.log = w.log ∧ ∀ r ≠ Fin.last n, w'.impls r = w.impls r := by
  rw [World.drainVotes] at h
  generalize (finRange (n + 1)).filter _ = peers at h
  induction peers generalizing w with
  | nil =>
    obtain rfl := Except.ok.inj h
    exact ⟨rfl, fun _ _ => rfl⟩
  | cons peer peers ih =>
    rw [foldlM_cons] at h
    cases hdrain : w.drainPeer peer (arrived peer) with
    | error e =>
      rw [hdrain] at h
      cases h
    | ok w₁ =>
      rw [hdrain] at h
      obtain ⟨hlog₁, hothers₁⟩ := drainPeer_frame hdrain
      obtain ⟨hlog, hothers⟩ := ih h
      exact ⟨hlog.trans hlog₁, fun r hr => (hothers r hr).trans (hothers₁ r hr)⟩

/-- What the coordinator decides is written to the log. -/
lemma logDecision_eq (w : World n) (shown : Bool) (q : ℕ) :
    ∃ newer, logDecision shown w.nextResult q (w.log q) = newer ++ w.log q
      ∧ (∀ r, .polled r ∉ newer) ∧ Noted (Fin.last n) shown w.nextResult q newer := by
  cases hentry : (w.slot q).entry with
  | none =>
    obtain ⟨hT, hF, hC⟩ := not_mem_nextResult hentry
    refine ⟨[], ?_, by simp, fun r v => ?_, fun r => ?_⟩
    · simp [logDecision, hT, hF, hC]
    · cases v <;> simp [ConsensusResult.outcomeIds, hF, hC]
    · simp [hT]
  | some t =>
    obtain ⟨hT, hF, hC⟩ := mem_nextResult hentry
    have hout : ∀ v, q ∈ w.nextResult.outcomeIds v ↔ ready t = true ∧ t.outcome = v := by
      intro v
      cases v with
      | completed => exact hC
      | failed => exact hF
    refine ⟨(if ready t = true then
        Slot.logIf shown (.reported (Fin.last n) t.outcome) [.decided t.outcome] else [])
      ++ if t.timeoutPending = true then Slot.logIf shown (.timeoutReported (Fin.last n)) []
        else [], ?_, fun r => ?_, fun r v => ?_, fun r => ?_⟩
    · rw [logDecision]
      cases hv : t.outcome <;> cases shown <;> by_cases hr : ready t = true <;>
        by_cases hp : t.timeoutPending = true <;> simp [hT, hF, hC, hr, hp, hv, Slot.logIf]
    · by_cases hr : ready t = true <;> by_cases hp : t.timeoutPending = true <;> simp [hr, hp]
    · rw [hout]
      by_cases hr : ready t = true <;> by_cases hp : t.timeoutPending = true <;>
        simp [hr, hp, eq_comm]
    · rw [hT]
      by_cases hr : ready t = true <;> by_cases hp : t.timeoutPending = true <;> simp [hr, hp]

/-- One call of `progress`. -/
structure Progressed (rank : Fin (n + 1)) (shown : Bool) (w w' : World n)
    (result : ConsensusResult) : Prop where
  log : ∀ q, ∃ newer, w'.log q = newer ++ w.log q ∧ (∀ r, .polled r ∉ newer)
    ∧ Noted rank shown result q newer
  others : ∀ r ≠ Fin.last n, (w'.impls r).reducer = (w.impls r).reducer
  taken : rank = Fin.last n →
    ∀ q t, (w'.impls (Fin.last n)).reducer.find? q = some t → ready t = false
  kept : rank ≠ Fin.last n → w'.impls (Fin.last n) = w.impls (Fin.last n)

lemma Heard.progressed {rank : Fin (n + 1)} (hrank : rank ≠ Fin.last n) {shown : Bool}
    {w w' : World n} {result : ConsensusResult} (h : Heard rank shown w w' .empty result) :
    Progressed rank shown w w' result where
  log q := by
    obtain ⟨newer, hlog, hkind, hshown, hhidden⟩ := h.log q
    refine ⟨newer, hlog, fun r hr => ?_, fun r v => ?_, fun r => ?_⟩
    · obtain he | ⟨v, he⟩ := hkind _ hr <;> simp at he
    · cases shown with
      | false => simp [hhidden rfl]
      | true =>
        rw [((hshown rfl).1 v)]
        refine ⟨fun hr => ?_, fun hr => ?_⟩
        · obtain he | ⟨w, he⟩ := hkind _ hr
          · simp at he
          · obtain ⟨rfl, rfl⟩ := Event.reported.inj he
            exact ⟨rfl, rfl, .inr hr⟩
        · obtain ⟨_, he, hr⟩ := hr
          subst he
          obtain hr | hr := hr
          · cases v <;> simp [ConsensusResult.outcomeIds, ConsensusResult.empty] at hr
          · exact hr
    · cases shown with
      | false => simp [hhidden rfl]
      | true =>
        rw [(hshown rfl).2]
        refine ⟨fun hr => ?_, fun hr => ?_⟩
        · obtain he | ⟨w, he⟩ := hkind _ hr
          · obtain rfl := Event.timeoutReported.inj he
            exact ⟨rfl, rfl, .inr hr⟩
          · simp at he
        · obtain ⟨_, he, hr⟩ := hr
          subst he
          obtain hr | hr := hr
          · simp [ConsensusResult.empty] at hr
          · exact hr
  others r _ := by
    by_cases hr : r = rank
    · rw [hr]
      exact h.reducer
    · rw [h.impls r hr]
  taken he := absurd he hrank
  kept _ := h.impls _ (Ne.symm hrank)

/-- The coordinator keeps no entry with all votes in. -/
lemma completeUpdates_taken (w : World n) (order : IterOrder) (shown : Bool) {q : ℕ}
    {t : RequestVotes n}
    (ht : (((w.completeUpdates order shown).1.closeIfDone).impls (Fin.last n)).reducer.find? q
      = some t) : ready t = false := by
  set w₁ := (w.completeUpdates order shown).1
  have hentry : (w₁.slot q).entry = some t := by
    simp only [World.closeIfDone, Function.update_self, Impl.closeIfDone] at ht
    split_ifs at ht
    · simp at ht
    · exact ht
  rw [slot_completeUpdates] at hentry
  obtain ⟨t', ht', rfl⟩ := Option.map_eq_some_iff.mp hentry
  simpa [ready] using (Option.filter_eq_some_iff.mp ht').2

lemma progressed {w w' : World n} {rank : Fin (n + 1)} {arrived : Fin (n + 1) → ℕ}
    {order : IterOrder} {shown : Bool} {result : ConsensusResult}
    (h : w.progress rank arrived order shown = .ok (w', result)) :
    Progressed rank shown w w' result := by
  rw [World.progress] at h
  by_cases hrank : rank = Fin.last n
  · rw [if_pos hrank] at h
    subst hrank
    cases hdrain : w.drainVotes arrived with
    | error e => simp [hdrain, Except.map] at h
    | ok w₁ =>
      rw [hdrain] at h
      obtain ⟨rfl, rfl⟩ := Prod.mk.inj (Except.ok.inj h)
      obtain ⟨hlog, hothers⟩ := drainVotes_frame hdrain
      refine ⟨fun q => ?_, fun r hr => ?_, fun _ q t ht => completeUpdates_taken w₁ order shown ht,
        fun hne => absurd rfl hne⟩
      · rw [← hlog]
        exact logDecision_eq w₁ shown q
      · rw [← hothers r hr]
        simp only [World.closeIfDone, World.completeUpdates, Function.update_of_ne hr]
  · rw [if_neg hrank] at h
    exact (Heard.drainUpdates h).progressed hrank

lemma Ok.progress {w : World n} (h : w.Ok) (rank : Fin (n + 1)) (arrived : Fin (n + 1) → ℕ)
    (order : IterOrder) (shown : Bool) (hshown : shown = false → (w.impls rank).shutdown = true) :
    ∃ w' result, w.progress rank arrived order shown = .ok (w', result) ∧ w'.Ok := by
  rw [World.progress]
  by_cases hrank : rank = Fin.last n
  · rw [if_pos hrank]
    subst hrank
    obtain ⟨w₁, hw₁, hok, hshut⟩ := h.drainVotes arrived
    refine ⟨(w₁.completeUpdates order shown).1.closeIfDone, (w₁.completeUpdates order shown).2,
      by rw [hw₁]; rfl, ?_⟩
    exact (hok.completeUpdates order fun hs => (hshut _).trans (hshown hs)).closeIfDone
  · rw [if_neg hrank]
    exact h.drainUpdates hrank hshown (arrived rank) .empty

lemma Prompt.progress {w w' : World n} (h : w.Prompt) {rank : Fin (n + 1)} {shown : Bool}
    {result : ConsensusResult} (hp : Progressed rank shown w w' result) : w'.Prompt where
  waiting q t ht hready := by
    by_cases hrank : rank = Fin.last n
    · simp [hp.taken hrank q t ht] at hready
    · rw [hp.kept hrank] at ht
      obtain ⟨newer, hlog, hpolled, -⟩ := hp.log q
      rw [hlog]
      exact not_polledSince_append newer (h.waiting q t ht hready) (hpolled _)
  others r hr := (hp.others r hr).trans (h.others r hr)

/-- What a call of `poll` does. -/
lemma poll_cases (w : World n) (rank : Fin (n + 1)) (arrived : Fin (n + 1) → ℕ)
    (order : IterOrder) (h : w.Ok) (hprompt : w.Prompt) :
    w.poll rank arrived order = .error .pollAfterShutdown
    ∨ ∃ w' result, w.poll rank arrived order = .ok (w', result) ∧ w'.Ok ∧ w'.Prompt
      ∧ ∀ q, ∃ newer, w'.log q = newer ++ w.log q ∧ Noted rank true result q newer := by
  rw [World.poll]
  by_cases hshut : (w.impls rank).shutdown = true
  · rw [if_pos hshut]
    exact .inl rfl
  rw [if_neg hshut]
  obtain ⟨w₁, result, heq, hok⟩ := h.progress rank arrived order true (by simp)
  have hp := progressed heq
  rw [heq]
  refine .inr ⟨_, result, rfl, hok.polled rank, ?_, fun q => ?_⟩
  · refine ⟨fun q t ht hready => ?_, fun r hr => (hprompt.progress hp).others r hr⟩
    by_cases hrank : rank = Fin.last n
    · simp [hp.taken hrank q t ht] at hready
    · refine not_polledSince_append [.polled rank]
        ((hprompt.progress hp).waiting q t ht hready) ?_
      simp [Ne.symm hrank]
  · obtain ⟨newer, hlog, -, hreports, htimeouts⟩ := hp.log q
    refine ⟨.polled rank :: newer, ?_, fun r v => ?_, fun r => ?_⟩
    · simp only [hlog, cons_append]
    · simpa using hreports r v
    · simpa using htimeouts r

lemma Prompt.votedWorld {w : World n} (h : w.Prompt) (rank : Fin (n + 1)) (q : ℕ)
    (v : ContextTransferVote) : (w.votedWorld rank q v).Prompt where
  waiting q' t ht hready := by
    simp only [World.votedWorld, World.afterPublish, afterVote] at ht ⊢
    by_cases hq : q' = q
    · subst hq
      rw [Function.update_self]
      by_cases hrank : rank = Fin.last n
      · exact fun hpolled => by simpa using hpolled v [] (w.log q') (by rw [hrank]; rfl)
      · rw [Function.update_of_ne (Ne.symm hrank)] at ht
        exact not_polledSince_append [_] (h.waiting q' t ht hready) (by simp)
    · rw [Function.update_of_ne hq]
      refine h.waiting q' t ?_ hready
      by_cases hrank : rank = Fin.last n
      · subst hrank
        simpa [hq] using ht
      · rwa [Function.update_of_ne (Ne.symm hrank)] at ht
  others r hr := by
    simp only [World.votedWorld, World.afterPublish, afterVote, Function.update_apply]
    split_ifs with he he'
    · exact absurd (he.trans he') hr
    · exact he ▸ h.others r hr
    · exact h.others r hr

lemma expire_terminalCount (t : RequestVotes n) : t.expire.terminalCount = t.terminalCount := by
  rw [Tally.expire]
  split_ifs <;> rfl

lemma Prompt.timedOutWorld {w : World n} (h : w.Prompt) (rank : Fin (n + 1)) (q : ℕ) :
    (w.timedOutWorld rank q).Prompt where
  waiting q' t ht hready := by
    simp only [World.timedOutWorld, World.afterPublish, afterTimeout] at ht ⊢
    -- a time-out does not count as a vote
    have hbefore : ∃ t', (w.impls (Fin.last n)).reducer.find? q' = some t' ∧ ready t' = true := by
      by_cases hrank : rank = Fin.last n
      · subst hrank
        rw [Function.update_self, if_pos rfl, recordTimeout, find?_set] at ht
        split_ifs at ht with hq
        · obtain rfl := Option.some.inj ht
          rw [hq]
          rw [ready, expire_terminalCount] at hready
          cases hentry : (w.impls (Fin.last n)).reducer.find? q with
          | none => simp [hentry, Tally.fresh] at hready
          | some t' => exact ⟨t', rfl, by simpa [hentry, ready] using hready⟩
        · exact ⟨t, ht, hready⟩
      · rw [Function.update_of_ne (Ne.symm hrank)] at ht
        exact ⟨t, ht, hready⟩
    obtain ⟨t', ht', hready'⟩ := hbefore
    rw [Function.update_apply]
    split_ifs with hq
    · subst hq
      exact not_polledSince_append [_] (h.waiting q' t' ht' hready') (by simp)
    · exact h.waiting q' t' ht' hready'
  others r hr := by
    simp only [World.timedOutWorld, World.afterPublish, afterTimeout, Function.update_apply]
    split_ifs with he he'
    · exact absurd (he.trans he') hr
    · exact he ▸ h.others r hr
    · exact h.others r hr

lemma Prompt.shutdown {w : World n} (h : w.Prompt) (rank : Fin (n + 1)) :
    (w.shutdown rank).Prompt := by
  have hsame : ∀ r, ((w.shutdown rank).impls r).reducer = (w.impls r).reducer := by
    intro r
    by_cases hshut : (w.impls rank).shutdown = true
    · rw [World.shutdown, if_pos hshut]
    · rw [World.shutdown, if_neg hshut]
      simp only [Function.update_apply]
      split_ifs with he
      · rw [he]
      · rfl
  have hlog : (w.shutdown rank).log = w.log := by
    rw [World.shutdown]
    split_ifs <;> rfl
  refine ⟨fun q t ht hready => ?_, fun r hr => (hsame r).trans (h.others r hr)⟩
  rw [hlog]
  exact h.waiting q t (hsame _ ▸ ht) hready

/-- The rank that acts. -/
def Action.rank : Action n → Fin (n + 1)
  | .publishLocalOutcome rank _ _ | .publishTimeout rank _ | .poll rank _ _ | .shutdown rank
  | .shutdownLoop rank _ _ => rank

/-- The result that an action hands out. -/
def returned (w : World n) : Action n → ConsensusResult
  | .poll rank arrived order => match w.poll rank arrived order with
    | .ok r => r.2
    | .error _ => .empty
  | _ => .empty

lemma noted_empty {rank : Fin (n + 1)} {q : ℕ} {newer : List (Event (Fin (n + 1)))}
    (h : ∀ r v, .reported r v ∉ newer) (h' : ∀ r, .timeoutReported r ∉ newer) :
    Noted rank true .empty q newer := by
  refine ⟨fun r v => ?_, fun r => ?_⟩
  · cases v <;> simp [h, ConsensusResult.outcomeIds, ConsensusResult.empty]
  · simp [h', ConsensusResult.empty]

/-- **Every step.** It fails no check but those on its use, and the log notes what it hands out. -/
lemma Ok.step {w : World n} (h : w.Ok) (hprompt : w.Prompt) {a : Action n} (ha : w.Allowed a) :
    (∃ e, w.step a = .error e ∧ e.ofCaller = true)
    ∨ ∃ w', w.step a = .ok w' ∧ w'.Ok ∧ w'.Prompt
      ∧ ∀ q, ∃ newer, w'.log q = newer ++ w.log q ∧ Noted a.rank true (w.returned a) q newer := by
  have hnothing : ∀ w' : World n, w'.log = w.log → w.returned a = .empty → ∀ q, ∃ newer,
      w'.log q = newer ++ w.log q ∧ Noted a.rank true (w.returned a) q newer := by
    intro w' hlog hret q
    rw [hlog, hret]
    exact ⟨[], rfl, noted_empty (by simp) (by simp)⟩
  have hone : ∀ (q₀ : ℕ) (e : Event (Fin (n + 1))), (∀ r v, e ≠ .reported r v) →
      (∀ r, e ≠ .timeoutReported r) → w.returned a = .empty → ∀ q, ∃ newer,
      Function.update w.log q₀ (e :: w.log q₀) q = newer ++ w.log q
        ∧ Noted a.rank true (w.returned a) q newer := by
    intro q₀ e he he' hret q
    rw [Function.update_apply, hret]
    split_ifs with hq
    · subst hq
      refine ⟨[e], rfl, noted_empty (fun r v => ?_) fun r => ?_⟩
      · exact fun hm => he r v (mem_singleton.mp hm).symm
      · exact fun hm => he' r (mem_singleton.mp hm).symm
    · exact ⟨[], rfl, noted_empty (by simp) (by simp)⟩
  cases a with
  | publishLocalOutcome rank q failed =>
    obtain ⟨e, herr, hcaller⟩ | heq | ⟨hshut, hpub, heq⟩ := h.publishLocalOutcome_cases ha failed
    · exact .inl ⟨e, herr, hcaller⟩
    · exact .inr ⟨w, heq, h, hprompt, hnothing w rfl rfl⟩
    · exact .inr ⟨_, heq, h.votedWorld ha _ hshut hpub, hprompt.votedWorld rank q _,
        hone q _ (by simp) (by simp) rfl⟩
  | publishTimeout rank q =>
    obtain ⟨e, herr, hcaller⟩ | heq | ⟨hshut, heq⟩ := w.publishTimeout_cases rank q
    · exact .inl ⟨e, herr, hcaller⟩
    · exact .inr ⟨w, heq, h, hprompt, hnothing w rfl rfl⟩
    · exact .inr ⟨_, heq, h.timedOutWorld ha hshut, hprompt.timedOutWorld rank q,
        hone q _ (by simp) (by simp) rfl⟩
  | poll rank arrived order =>
    obtain herr | ⟨w', result, heq, hok, hprompt', hlog⟩ :=
      w.poll_cases rank arrived order h hprompt
    · exact .inl ⟨_, by rw [World.step, herr]; rfl, rfl⟩
    · refine .inr ⟨w', by rw [World.step, heq]; rfl, hok, hprompt', fun q => ?_⟩
      obtain ⟨newer, hnewer, hnoted⟩ := hlog q
      refine ⟨newer, hnewer, ?_⟩
      rw [returned, heq]
      exact hnoted
  | shutdown rank =>
    refine .inr ⟨w.shutdown rank, rfl, h.shutdown rank, hprompt.shutdown rank, hnothing _ ?_ rfl⟩
    rw [World.shutdown]
    split_ifs <;> rfl
  | shutdownLoop rank arrived order =>
    rw [World.step]
    by_cases hshut : (w.impls rank).shutdown = true
    · rw [if_pos hshut]
      obtain ⟨w', result, heq, hok⟩ := h.progress rank arrived order false fun _ => hshut
      have hp := progressed heq
      refine .inr ⟨w', by rw [heq]; rfl, hok, hprompt.progress hp, fun q => ?_⟩
      obtain ⟨newer, hnewer, -, hreports, htimeouts⟩ := hp.log q
      refine ⟨newer, hnewer, noted_empty (fun r v hr => ?_) fun r hr => ?_⟩
      · simpa using (hreports r v).mp hr
      · simpa using (htimeouts r).mp hr
    · rw [if_neg hshut]
      exact .inr ⟨w, rfl, h, hprompt, hnothing w rfl rfl⟩

lemma Reachable.ok {w : World n} (h : w.Reachable) : w.Ok ∧ w.Prompt := by
  induction h with
  | init =>
    refine ⟨⟨fun q => Slot.Inv.start _, by simp [World.init], by simp [World.init],
      ⟨rfl, rfl⟩, by simp [World.init], by simp [World.init], ?_, ?_, by simp [World.init],
      by simp [World.init], ?_⟩, ?_, fun _ _ => rfl⟩
    all_goals simp [World.init, Impl.init]
  | step a h ha hstep ih =>
    obtain ⟨e, herr, -⟩ | ⟨w', heq, hok, hprompt, -⟩ := ih.1.step ih.2 ha
    · simp [herr] at hstep
    · obtain rfl := Except.ok.inj (heq.symm.trans hstep)
      exact ⟨hok, hprompt⟩

/-! ### The consensus -/

/-- Nothing is in flight, and no rank has shut down. -/
def Quiet (w : World n) : Prop :=
  ∀ r, w.events r = [] ∧ w.updates r = [] ∧ (w.impls r).shutdown = false

/-- No table of a rank has an entry for the request. -/
def Forgotten (w : World n) (q : ℕ) (r : Fin (n + 1)) : Prop :=
  q ∉ (w.impls r).publishedLocalVotes ∧ q ∉ (w.impls r).publishedTimeouts
    ∧ q ∉ (w.impls r).reducer

/-- When nothing is in flight, what all ranks have voted on is decided. -/
lemma decided_of_quiet {w : World n} (h : w.Ok) (hprompt : w.Prompt) (hquiet : w.Quiet) {q : ℕ}
    (hvoted : ∀ r, ∃ v, .voted r v ∈ w.log q) (hpolled : PolledSince (Fin.last n) (w.log q)) :
    ∃ v, .decided v ∈ w.log q := by
  have hunclosed : ¬(w.slot q).closed = true := fun hc => by
    have hs : (w.impls (Fin.last n)).shutdown = true :=
      ((h.slots q).underway.closed hc).1 (Fin.last n)
    simp [(hquiet (Fin.last n)).2.2] at hs
  by_contra hno
  -- otherwise all votes are in the entry of the coordinator, which has polled
  have hcounted : ∀ r, ∃ t v, (w.slot q).entry = some t ∧ t.votes r = some v := by
    intro r
    obtain ⟨v, hv⟩ := hvoted r
    obtain hin | ⟨t, ht, hvote⟩ | hd | hc := (h.slots q).underway.voteAt r v hv
    · simp [slot, (hquiet r).1] at hin
    · exact ⟨t, v, ht, hvote⟩
    · exact absurd hd hno
    · exact absurd hc hunclosed
  obtain ⟨t, -, ht, -⟩ := hcounted (Fin.last n)
  refine hprompt.waiting q t ht ?_ hpolled
  have hall : (Finset.univ.filter fun r => t.votes r ≠ none) = Finset.univ := by
    refine Finset.filter_true_of_mem fun r _ => ?_
    obtain ⟨t', v, ht', hvote⟩ := hcounted r
    obtain rfl := Option.some.inj (ht.symm.trans ht')
    simp [hvote]
  simp [ready, ((h.slots q).counted t ht).count, hall]

/-- What the callers of all ranks can rely on. -/
structure Consensus (w : World n) : Prop where
  /-- No check of `recordVote`, `drainVotes` or `drainUpdates` fails. -/
  checks : ∀ a e, w.Allowed a → w.step a = .error e → e.ofCaller = true
  /-- The log grows with every step, and its reports are what `poll` returns. -/
  noted : ∀ a w', w.Allowed a → w.step a = .ok w' →
    ∀ q, ∃ newer, w'.log q = newer ++ w.log q ∧ Noted a.rank true (w.returned a) q newer
  once : ∀ q r, (w.log q).countP (Event.isReport r) ≤ 1
  votedFirst : ∀ q r v newer older, w.log q = newer ++ .reported r v :: older →
    ∃ w, .voted r w ∈ older
  agreement : ∀ q r r' v v', .reported r v ∈ w.log q → .reported r' v' ∈ w.log q → v = v'
  completed : ∀ q r v, .reported r v ∈ w.log q →
    (v = .completed ↔ (∀ r', .voted r' .completed ∈ w.log q) ∧ ∀ r', .timedOut r' ∉ w.log q)
  timeoutOnce : ∀ q r, (w.log q).count (.timeoutReported r) ≤ 1
  silent : ∀ q r v newer older, w.log q = newer ++ .reported r v :: older →
    .timeoutReported r ∉ newer
  quiet : w.Quiet → ∀ q, (∀ r, ∃ v, .voted r v ∈ w.log q) → (∀ r, PolledSince r (w.log q)) →
    ∀ r, (∃ v, .reported r v ∈ w.log q) ∧ w.Forgotten q r

end World

/-- **The ranks agree on every context transfer**, in all runs. -/
theorem contextTransfer_consensus {w : World n} (h : w.Reachable) : w.Consensus := by
  obtain ⟨hok, hprompt⟩ := h.ok
  have hinv := hok.slots
  refine ⟨fun a e ha herr => ?_, fun a w' ha hstep => ?_, fun q => (hinv q).told.once,
    fun q r v newer older => (hinv q).ordered r v newer older, fun q r r' v v' hv hv' => ?_,
    fun q r v hv => (hinv q).completed_iff ((hinv q).told.reported r v hv).1, fun q r => ?_,
    fun q r v newer older => (hinv q).told.silent r v newer older,
    fun hquiet q hvoted hpolled r => ?_⟩
  · obtain ⟨e', herr', hcaller⟩ | ⟨w', heq, -⟩ := hok.step hprompt ha
    · obtain rfl := Except.error.inj (herr'.symm.trans herr)
      exact hcaller
    · simp [heq] at herr
  · obtain ⟨e, herr, -⟩ | ⟨w₁, heq, -, -, hnoted⟩ := hok.step hprompt ha
    · simp [herr] at hstep
    · obtain rfl := Except.ok.inj (heq.symm.trans hstep)
      exact hnoted
  · exact (hinv q).decided_unique ((hinv q).told.reported r v hv).1
      ((hinv q).told.reported r' v' hv').1
  · exact le_trans (Nat.le_add_left _ _) ((hinv q).told.timeoutOnce r)
  · obtain ⟨v, hv⟩ := World.decided_of_quiet hok hprompt hquiet hvoted (hpolled _)
    have hreported : ∀ r, .reported r v ∈ w.log q := by
      intro r
      obtain hback | hr | hs := (hinv q).told.decidedAt v hv r
      · simp [World.slot, (hquiet r).2.1] at hback
      · exact hr
      · have hs' : (w.impls r).shutdown = true := hs
        simp [(hquiet r).2.2] at hs'
    obtain ⟨hpub, htmo⟩ := (hinv q).held.dropped r ⟨v, hreported r⟩
    refine ⟨⟨v, hreported r⟩, find?_eq_none_iff.mp hpub, of_decide_eq_false htmo, ?_⟩
    by_cases hr : r = Fin.last n
    · subst hr
      rw [← find?_eq_none_iff]
      cases hentry : (w.slot q).entry with
      | none => exact hentry
      | some t => exact absurd ⟨v, hv⟩ ((hinv q).counted t hentry).undecided
    · rw [hprompt.others r hr]
      simp

/-- Requests in the order of their ids. -/
def sortedIds : IterOrder where
  list ids := ids.sort (· ≤ ·)
  nodup _ := Finset.sort_nodup ..
  mem _ _ := Finset.mem_sort _

/-- The world after a call, which changes nothing if it fails. -/
def World.after (w : World n) (a : World.Action n) : World n :=
  match w.step a with
  | .ok w' => w'
  | .error _ => w

lemma World.Reachable.after {w : World n} (h : w.Reachable) {a : World.Action n}
    (ha : w.Allowed a) : (w.after a).Reachable := by
  rw [World.after]
  cases hstep : w.step a with
  | ok w' => exact h.step a ha hstep
  | error e => exact h

local instance (priority := 2000) twoParties : NeZero (1 + 1) := ⟨Nat.succ_ne_zero 1⟩

/-- Both ranks vote, the coordinator polls, and the other rank polls. -/
def votedBoth : World 1 :=
  (((World.init.after (.publishLocalOutcome 0 7 false)).after
    (.publishLocalOutcome 1 7 false)).after
    (.poll 1 (fun _ => 1) sortedIds)).after (.poll 0 (fun _ => 1) sortedIds)

theorem contextTransfer_consensus_twoRanks :
    votedBoth.Reachable ∧ votedBoth.Consensus ∧ votedBoth.Quiet
      ∧ ∀ r, .reported r .completed ∈ votedBoth.log 7 := by
  have hreachable : votedBoth.Reachable := by
    refine (((World.Reachable.init.after ?_).after ?_).after ?_).after ?_
    · intro v
      simp [World.init]
    · intro v
      cases v <;> decide +kernel
    · trivial
    · trivial
  refine ⟨hreachable, contextTransfer_consensus hreachable, ?_, ?_⟩
  · show ∀ r, _ ∧ _ ∧ _
    decide +kernel
  · decide +kernel

end TrtLlm.Disagg
