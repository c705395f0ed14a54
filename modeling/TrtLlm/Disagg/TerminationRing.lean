import TrtLlm.Disagg.PPTermination

/-!
The ring of the termination handlers, in every interleaving.

One message travels in the ring at any time: rank 0 cannot begin its next iteration before the
last rank has passed on the message of the current one. So the ranks before the message have
begun one iteration more than the others, what the message is to terminate is pending on every
rank that it has still to visit, and a request with a vote of every rank so far is pending on
each of them.

* `Ring.step`: a call of `terminate`, the first part of `terminate_pending_requests`, and the
  calls of the terminator one after another;
* `Token`: the message, the votes it carries, and the ids of each iteration;
* `Token.terminate`, `Token.proceed`: calls of `terminate` and of the terminator keep it;
* `Token.sync_cases`: a rank that goes on has nothing to terminate, and takes the message.
-/

namespace TrtLlm.Disagg

open PPTerminationHandler List Function Option Fin UMap

variable {n : ℕ} {Req : Type*}

/-- The handlers of the ranks, and the messages on the way from each rank to the next. -/
structure Ring (n : ℕ) (Req : Type*) where
  ranks : Fin (n + 1) → PPTerminationHandler Req
  channel : Fin (n + 1) → List TermState

/-- What happens on a rank. -/
inductive RingEvent (n : ℕ) (Req : Type*) where
  | terminate (rank : Fin (n + 1)) (request : Req)
  /-- `terminate_pending_requests` up to `isend_object`; nothing happens while the receive
  blocks. -/
  | sync (rank : Fin (n + 1))
  /-- The next call of the terminator, or the end of `terminate_pending_requests`. -/
  | proceed (rank : Fin (n + 1))

/-- What is observed of a run. -/
inductive RingObs (n : ℕ) (Req : Type*) where
  /-- `terminate`, by a rank that has begun so many iterations. -/
  | called (rank : Fin (n + 1)) (iteration : ℕ) (request : Req)
  /-- An iteration begins, with its `reqs_to_terminate`. -/
  | began (rank : Fin (n + 1)) (iteration : ℕ) (requests : List Req)
  | terminator (rank : Fin (n + 1)) (iteration : ℕ) (request : Req)
  deriving DecidableEq

namespace Ring

/-- No request is pending and no message on its way. -/
def init : Ring n Req := ⟨fun _ => PPTerminationHandler.init, fun _ => []⟩

/-- The handler of one rank changes. -/
def setRank (s : Ring n Req) (rank : Fin (n + 1)) (h : PPTerminationHandler Req) : Ring n Req :=
  { s with ranks := update s.ranks rank h }

/-- A rank has got its message (`none` for the first iteration of rank 0) and passes it on. -/
def exchange (s : Ring n Req) (rank : Fin (n + 1)) (termState : Option TermState)
    (channel : Fin (n + 1) → List TermState) : List (RingObs n Req) × Ring n Req :=
  let h := s.ranks rank
  let next := terminatePendingRequests rank (n + 1) h termState
  ([.began rank h.terminatingIteration (next.2.toTerminate.getD [])], ⟨update s.ranks rank next.2,
      update channel rank (channel rank ++ [next.1])⟩)

/-- The step of an event. The wait for the previous send leaves no trace: a message may lie in
its channel for any time. -/
def step (pyRequestId : Req → ℕ) (s : Ring n Req) :
    RingEvent n Req → List (RingObs n Req) × Ring n Req
  | .terminate rank request =>
    ([.called rank (s.ranks rank).begun request],
      s.setRank rank ((s.ranks rank).terminate pyRequestId request))
  | .sync rank =>
    if (s.ranks rank).toTerminate.isSome then ([], s)
    else if rank = 0 ∧ (s.ranks rank).terminatingIteration = 0 then
      s.exchange rank none s.channel
    else
      match s.channel (rank - 1) with
      | [] => ([], s)
      | m :: rest => s.exchange rank (some m) (update s.channel (rank - 1) rest)
  | .proceed rank =>
    let h := s.ranks rank
    match h.toTerminate with
    | none => ([], s)
    | some [] =>
      ([], s.setRank rank
        { h with terminatingIteration := h.terminatingIteration + 1, toTerminate := none })
    | some (request :: requests) =>
      ([.terminator rank h.terminatingIteration request],
        s.setRank rank { h with toTerminate := some requests })

end Ring

/-! ### What a run shows -/

/-- A rank called `terminate` for an id before its own iteration `t`. -/
def CalledBefore (pyRequestId : Req → ℕ) (out : List (RingObs n Req)) (rank : Fin (n + 1))
    (t id : ℕ) : Prop :=
  ∃ i ≤ t, ∃ request, .called rank i request ∈ out ∧ pyRequestId request = id

/-- A rank called `terminate` for an id. -/
def Called (pyRequestId : Req → ℕ) (out : List (RingObs n Req)) (rank : Fin (n + 1))
    (id : ℕ) : Prop :=
  ∃ t, CalledBefore pyRequestId out rank t id

/-- A rank ran the terminator for an id in iteration `t`. -/
def TerminatedIn (pyRequestId : Req → ℕ) (out : List (RingObs n Req)) (rank : Fin (n + 1))
    (t id : ℕ) : Prop :=
  ∃ request, .terminator rank t request ∈ out ∧ pyRequestId request = id

/-- The calls of `terminate` with a request on a rank. -/
def calls [DecidableEq Req] (out : List (RingObs n Req)) (rank : Fin (n + 1)) (request : Req) :
    ℕ :=
  out.countP fun
    | .called r _ q => r = rank ∧ q = request
    | _ => false

/-- The calls of the terminator with a request on a rank. -/
def terminations [DecidableEq Req] (out : List (RingObs n Req)) (rank : Fin (n + 1))
    (request : Req) : ℕ :=
  out.countP fun
    | .terminator r _ q => r = rank ∧ q = request
    | _ => false

variable {pyRequestId : Req → ℕ} {out : List (RingObs n Req)} {s : Ring n Req}

lemma CalledBefore.append {o : List (RingObs n Req)} {rank : Fin (n + 1)} {t id : ℕ}
    (h : CalledBefore pyRequestId out rank t id) :
    CalledBefore pyRequestId (out ++ o) rank t id := by
  obtain ⟨i, hi, q, hq, hid⟩ := h
  exact ⟨i, hi, q, mem_append_left _ hq, hid⟩

lemma Called.append {o : List (RingObs n Req)} {rank : Fin (n + 1)} {id : ℕ}
    (h : Called pyRequestId out rank id) : Called pyRequestId (out ++ o) rank id := by
  obtain ⟨t, ht⟩ := h
  exact ⟨t, ht.append⟩

/-- Calls that are observed later, or none, leave the earlier ones as they are. -/
lemma CalledBefore.of_append {o : List (RingObs n Req)} {rank : Fin (n + 1)} {t id : ℕ}
    (h : CalledBefore pyRequestId (out ++ o) rank t id)
    (ho : ∀ i q, .called rank i q ∈ o → t < i) : CalledBefore pyRequestId out rank t id := by
  obtain ⟨i, hi, q, hq, hid⟩ := h
  obtain hq | hq := mem_append.mp hq
  · exact ⟨i, hi, q, hq, hid⟩
  · exact absurd hi (not_le.mpr (ho i q hq))

/-! ### The message in the ring -/

/-- The votes that a message carries after the ranks below `p` in iteration `k`. -/
structure Votes (pyRequestId : Req → ℕ) (k p : ℕ) (T : ℕ → List ℕ) (out : List (RingObs n Req))
    (s : Ring n Req) (ready : UMap ℕ ℕ) : Prop where
  bound : ∀ id c, ready.find? id = some c → c ≤ p
  agree : ∀ id, ready.find? id = some p →
    ∀ j : Fin (n + 1), j.val < p → id ∈ (s.ranks j).pendingTermination
  full : ∀ id, (∀ j : Fin (n + 1), j.val < p → CalledBefore pyRequestId out j k id) →
    (∀ t ≤ k, id ∉ T t) → ready.find? id = some p

/-- What the tables of the ranks and the iterations so far say, where `T t` are the ids of
iteration `t`. -/
structure History (pyRequestId : Req → ℕ) (T : ℕ → List ℕ) (out : List (RingObs n Req))
    (s : Ring n Req) : Prop where
  keys : ∀ j id q, (s.ranks j).pendingTermination.find? id = some q → pyRequestId q = id
  pending : ∀ j id, id ∈ (s.ranks j).pendingTermination → Called pyRequestId out j id
  called : ∀ j i q, .called j i q ∈ out →
    pyRequestId q ∈ (s.ranks j).pendingTermination
      ∨ ∃ t < (s.ranks j).begun, pyRequestId q ∈ T t
  began : ∀ j t reqs, .began j t reqs ∈ out → t < (s.ranks j).begun
    ∧ reqs.map pyRequestId = T t
  exec : ∀ j, ∀ t < (s.ranks j).begun, ∃ reqs, .began j t reqs ∈ out

/-- The message of iteration `k` is on its way to rank `p`. -/
structure Token (pyRequestId : Req → ℕ) (k : ℕ) (p : Fin (n + 1)) (T : ℕ → List ℕ)
    (out : List (RingObs n Req)) (s : Ring n Req) : Prop where
  begun : ∀ j, (s.ranks j).begun = if j < p then k + 1 else k
  quiet : ∀ j, j ≠ p - 1 → s.channel j = []
  start : k = 0 → p = 0 → s.channel (p - 1) = []
  flight : ¬(k = 0 ∧ p = 0) → ∃ m, s.channel (p - 1) = [m] ∧ m.term = T k
    ∧ (p ≠ 0 → Votes pyRequestId k p T out s m.ready)
  first : T 0 = []
  nodup : (T k).Nodup
  held : ∀ id ∈ T k, ∀ j, p ≤ j → id ∈ (s.ranks j).pendingTermination
  history : History pyRequestId T out s
  valid : ∀ t ≤ k, ∀ id ∈ T t, ∀ j, Called pyRequestId out j id
  due : ∀ t < k, ∀ id, (∀ j, CalledBefore pyRequestId out j t id) → ∃ i ≤ t + 1, id ∈ T i

lemma History.congr {T T' : ℕ → List ℕ} (h : History pyRequestId T out s)
    (hT : ∀ j, ∀ t < (s.ranks j).begun, T' t = T t) : History pyRequestId T' out s where
  keys := h.keys
  pending := h.pending
  called j i q hq := by
    obtain hq | ⟨t, ht, hmem⟩ := h.called j i q hq
    · exact .inl hq
    · exact .inr ⟨t, ht, hT j t ht ▸ hmem⟩
  began j t reqs hb := by
    obtain ⟨ht, hreqs⟩ := h.began j t reqs hb
    exact ⟨ht, hreqs.trans (hT j t ht).symm⟩
  exec := h.exec

/-! ### Calls of `terminate` and of the terminator -/

/-- A step that neither begins an iteration nor calls `terminate` is not seen by the message. -/
lemma Token.frame {k : ℕ} {p : Fin (n + 1)} {T : ℕ → List ℕ} {o : List (RingObs n Req)}
    {s' : Ring n Req} (h : Token pyRequestId k p T out s)
    (hbegun : ∀ j, (s'.ranks j).begun = (s.ranks j).begun)
    (hpending : ∀ j, (s'.ranks j).pendingTermination = (s.ranks j).pendingTermination)
    (hchannel : s'.channel = s.channel) (hcalled : ∀ j i q, .called j i q ∉ o)
    (hbegan : ∀ j t reqs, .began j t reqs ∉ o) : Token pyRequestId k p T (out ++ o) s' where
  begun j := by rw [hbegun, h.begun]
  quiet := by rw [hchannel]; exact h.quiet
  start := by rw [hchannel]; exact h.start
  flight hk := by
    obtain ⟨m, hm, hterm, hvotes⟩ := h.flight hk
    refine ⟨m, hchannel ▸ hm, hterm, fun hp => ?_⟩
    refine ⟨(hvotes hp).bound, fun id hid j hj => ?_, fun id hcall hT => ?_⟩
    · rw [hpending]
      exact (hvotes hp).agree id hid j hj
    · refine (hvotes hp).full id (fun j hj => ?_) hT
      exact (hcall j hj).of_append fun i q hq => absurd hq (hcalled j i q)
  first := h.first
  nodup := h.nodup
  held id hid j hj := by rw [hpending]; exact h.held id hid j hj
  history :=
    { keys := fun j => by rw [hpending]; exact h.history.keys j
      pending := fun j id hid => (h.history.pending j id (hpending j ▸ hid)).append
      called := fun j i q hq => by
        rw [hpending, hbegun]
        refine h.history.called j i q ((mem_append.mp hq).resolve_right (hcalled j i q))
      began := fun j t reqs hb => by
        rw [hbegun]
        exact h.history.began j t reqs ((mem_append.mp hb).resolve_right (hbegan j t reqs))
      exec := fun j t ht => by
        obtain ⟨reqs, hb⟩ := h.history.exec j t (hbegun j ▸ ht)
        exact ⟨reqs, mem_append_left _ hb⟩ }
  valid t ht id hid j := (h.valid t ht id hid j).append
  due t ht id hcall := by
    refine h.due t ht id fun j => ?_
    exact (hcall j).of_append fun i q hq => absurd hq (hcalled j i q)

@[simp] lemma Ring.setRank_ranks (s : Ring n Req) (rank j : Fin (n + 1))
    (h : PPTerminationHandler Req) :
    (s.setRank rank h).ranks j = if j = rank then h else s.ranks j := by
  exact update_apply s.ranks rank h j

section

variable (rank : Fin (n + 1))

@[simp] lemma Ring.setRank_channel (s : Ring n Req)
    (h : PPTerminationHandler Req) : (s.setRank rank h).channel = s.channel := rfl

/-- `terminate` adds to the table of one rank, and it is seen by the votes of later iterations
only. -/
lemma Token.terminate {k : ℕ} {p : Fin (n + 1)} {T : ℕ → List ℕ}
    (h : Token pyRequestId k p T out s) (request : Req) :
    Token pyRequestId k p T (out ++ (s.step pyRequestId (.terminate rank request)).1)
      (s.step pyRequestId (.terminate rank request)).2 := by
  set s' := (s.step pyRequestId (.terminate rank request)).2 with hs'
  have hranks : ∀ j, s'.ranks j
      = if j = rank then (s.ranks rank).terminate pyRequestId request else s.ranks j :=
    fun j => Ring.setRank_ranks ..
  have hbegun : ∀ j, (s'.ranks j).begun = (s.ranks j).begun := by
    intro j
    rw [hranks]
    split_ifs with hj
    · rw [begun_terminate, hj]
    · rfl
  have hfind : ∀ j id, (s'.ranks j).pendingTermination.find? id
      = if j = rank ∧ id = pyRequestId request then some request
        else (s.ranks j).pendingTermination.find? id := by
    intro j id
    rw [hranks]
    by_cases hj : j = rank
    · simp [hj, PPTerminationHandler.terminate]
    · simp [hj]
  have hmem : ∀ j id, id ∈ (s'.ranks j).pendingTermination
      ↔ (j = rank ∧ id = pyRequestId request) ∨ id ∈ (s.ranks j).pendingTermination := by
    intro j id
    simp only [mem_iff_find?, hfind]
    by_cases hc : j = rank ∧ id = pyRequestId request <;> simp [hc]
  have ho : (s.step pyRequestId (.terminate rank request)).1
      = [.called rank (s.ranks rank).begun request] := rfl
  -- the new call is made by a rank that has begun `k` iterations at least
  have hold : ∀ t < k, ∀ j id, CalledBefore pyRequestId
      (out ++ [.called rank (s.ranks rank).begun request]) j t id →
      CalledBefore pyRequestId out j t id := by
    intro t ht j id hc
    refine hc.of_append fun i q hq => ?_
    obtain ⟨rfl, rfl, rfl⟩ : j = rank ∧ i = (s.ranks rank).begun ∧ q = request := by
      simpa using hq
    rw [h.begun]
    split_ifs <;> omega
  rw [ho]
  refine
    { begun := fun j => (hbegun j).trans (h.begun j)
      quiet := h.quiet
      start := h.start
      flight := fun hk => ?_
      first := h.first
      nodup := h.nodup
      held := fun id hid j hj => (hmem j id).mpr (.inr (h.held id hid j hj))
      history := ?_
      valid := fun t ht id hid j => (h.valid t ht id hid j).append
      due := fun t ht id hcall => h.due t ht id fun j => hold t ht j id (hcall j) }
  · obtain ⟨m, hm, hterm, hvotes⟩ := h.flight hk
    refine ⟨m, hm, hterm, fun hp => ⟨(hvotes hp).bound, fun id hid j hj => ?_,
      fun id hcall hT => ?_⟩⟩
    · exact (hmem j id).mpr (.inr ((hvotes hp).agree id hid j hj))
    · -- a rank that has voted has begun one iteration more
      refine (hvotes hp).full id (fun j hj => (hcall j hj).of_append fun i q hq => ?_) hT
      obtain ⟨rfl, rfl, rfl⟩ : j = rank ∧ i = (s.ranks rank).begun ∧ q = request := by
        simpa using hq
      rw [h.begun, if_pos (lt_def.mpr hj)]
      omega
  · refine
      { keys := fun j id q hq => ?_
        pending := fun j id hid => ?_
        called := fun j i q hq => ?_
        began := fun j t reqs hb => ?_
        exec := fun j t ht => ?_ }
    · rw [hfind] at hq
      split_ifs at hq with hc
      · obtain rfl : request = q := by simpa using hq
        exact hc.2.symm
      · exact h.history.keys j id q hq
    · obtain ⟨rfl, rfl⟩ | hid := (hmem j id).mp hid
      · exact ⟨(s.ranks j).begun, (s.ranks j).begun, le_rfl, request, by simp, rfl⟩
      · exact (h.history.pending j id hid).append
    · rw [hmem, hbegun]
      obtain hq | hq := mem_append.mp hq
      · exact (h.history.called j i q hq).imp_left .inr
      · obtain ⟨rfl, rfl, rfl⟩ : j = rank ∧ i = (s.ranks rank).begun ∧ q = request := by
          simpa using hq
        exact .inl (.inl ⟨rfl, rfl⟩)
    · rw [hbegun]
      exact h.history.began j t reqs (by simpa using hb)
    · obtain ⟨reqs, hb⟩ := h.history.exec j t (hbegun j ▸ ht)
      exact ⟨reqs, mem_append_left _ hb⟩

/-- A call of the terminator, or the end of an iteration, is not seen by the message. -/
lemma Token.proceed {k : ℕ} {p : Fin (n + 1)} {T : ℕ → List ℕ}
    (h : Token pyRequestId k p T out s) :
    Token pyRequestId k p T (out ++ (s.step pyRequestId (.proceed rank)).1)
      (s.step pyRequestId (.proceed rank)).2 := by
  rw [Ring.step]
  cases hrun : (s.ranks rank).toTerminate with
  | none => simpa [hrun] using h
  | some reqs =>
    cases reqs with
    | nil =>
      simp only
      refine h.frame (fun j => ?_) (fun j => ?_) rfl (by simp) (by simp)
      · rw [Ring.setRank_ranks]
        split_ifs with hj
        · simp [PPTerminationHandler.begun, hrun, hj]
        · rfl
      · rw [Ring.setRank_ranks]
        split_ifs with hj
        · rw [hj]
        · rfl
    | cons request requests =>
      simp only
      refine h.frame (fun j => ?_) (fun j => ?_) rfl (by simp) (by simp)
      · rw [Ring.setRank_ranks]
        split_ifs with hj
        · simp [PPTerminationHandler.begun, hrun, hj]
        · rfl
      · rw [Ring.setRank_ranks]
        split_ifs with hj
        · rw [hj]
        · rfl

/-! ### The message is passed on -/

/-- A rank that is not blocked is the one that the message is on its way to. -/
lemma Token.sync_cases {k : ℕ} {p : Fin (n + 1)} {T : ℕ → List ℕ}
    (h : Token pyRequestId k p T out s) :
    s.step pyRequestId (.sync rank) = ([], s)
    ∨ (rank = p ∧ (s.ranks p).toTerminate = none ∧ ∃ termState channel,
        s.step pyRequestId (.sync rank) = s.exchange p termState channel
        ∧ (∀ j, channel j = []) ∧ (termState.map TermState.term).getD [] = T k
        ∧ (p ≠ 0 → Votes pyRequestId k p T out s ((termState.map TermState.ready).getD ∅))) := by
  rw [Ring.step]
  by_cases hrun : (s.ranks rank).toTerminate.isSome
  · exact .inl (if_pos hrun)
  have hidle : (s.ranks rank).toTerminate = none := by simpa using hrun
  rw [if_neg hrun]
  by_cases hfirst : rank = 0 ∧ (s.ranks rank).terminatingIteration = 0
  · -- rank 0 has begun no iteration, so that the message does not exist yet
    rw [if_pos hfirst]
    have hzero : (s.ranks rank).begun = 0 := by
      simp [PPTerminationHandler.begun, hidle, hfirst.2]
    rw [h.begun] at hzero
    have hp : p = 0 := by
      by_contra hp
      rw [if_pos (hfirst.1 ▸ Fin.pos_of_ne_zero hp)] at hzero
      omega
    have hk : k = 0 := by
      split_ifs at hzero
      exact hzero
    obtain rfl : rank = p := hfirst.1.trans hp.symm
    refine .inr ⟨rfl, hidle, none, s.channel, rfl, fun j => ?_, ?_, fun hne => absurd hp hne⟩
    · by_cases hj : j = rank - 1
      · rw [hj]
        exact h.start hk hp
      · exact h.quiet j hj
    · rw [hk]
      exact h.first.symm
  · rw [if_neg hfirst]
    cases hch : s.channel (rank - 1) with
    | nil => exact .inl rfl
    | cons m rest =>
      have hrank : rank = p := by
        by_contra hne
        have hquiet := h.quiet (rank - 1) fun he => hne (sub_left_injective he)
        rw [hch] at hquiet
        exact cons_ne_nil _ _ hquiet
      subst hrank
      have hk : ¬(k = 0 ∧ rank = 0) := by
        rintro ⟨hk, hr⟩
        have hstart := h.start hk hr
        rw [hch] at hstart
        exact cons_ne_nil _ _ hstart
      obtain ⟨m', hm', hterm, hvotes⟩ := h.flight hk
      obtain ⟨rfl, rfl⟩ : m = m' ∧ rest = [] := by
        rw [hch] at hm'
        simpa using hm'
      refine .inr ⟨rfl, hidle, some m, _, rfl, fun j => ?_, hterm, hvotes⟩
      rw [update_apply]
      split_ifs with hj
      · rfl
      · exact h.quiet j hj

end

end TrtLlm.Disagg
