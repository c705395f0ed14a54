import TrtLlm.Util.Machine
import TrtLlm.Disagg.TerminationExchange

/-!
Agreement of the ranks on terminations.

* `Ran`: what the terminator was called for on each rank, beside what the rank still holds;
* `Ran.step`: every event keeps it;
* `ring_terminations`: **agreement of the ranks** over whole runs.
-/

namespace TrtLlm.Disagg

open PPTerminationHandler List Function Option Fin UMap

variable {n : ℕ} {Req : Type*}

variable {pyRequestId : Req → ℕ} {out : List (RingObs n Req)} {s : Ring n Req}

/-! ### The calls of the terminator -/

/-- The terminator calls of a run, and those still to come in the iterations in progress. -/
structure Ran [DecidableEq Req] (pyRequestId : Req → ℕ) (out : List (RingObs n Req))
    (s : Ring n Req) : Prop where
  sound : ∀ j t q, .terminator j t q ∈ out → ∃ reqs, .began j t reqs ∈ out ∧ q ∈ reqs
  waiting : ∀ j reqs, (s.ranks j).toTerminate = some reqs → ∀ q ∈ reqs,
    ∃ all, .began j (s.ranks j).terminatingIteration all ∈ out ∧ q ∈ all
  complete : ∀ j t reqs q, .began j t reqs ∈ out → q ∈ reqs → .terminator j t q ∈ out
    ∨ (t = (s.ranks j).terminatingIteration ∧ q ∈ (s.ranks j).toTerminate.getD [])
  once : ∀ j q, terminations out j q + ((s.ranks j).toTerminate.getD []).count q
    + (if (s.ranks j).pendingTermination.find? (pyRequestId q) = some q then 1 else 0)
      ≤ calls out j q
  before : ∀ pre post j t q, out = pre ++ .terminator j t q :: post →
    ∀ j', Called pyRequestId pre j' (pyRequestId q)

section Ran

variable [DecidableEq Req]

section

variable (out o : List (RingObs n Req)) (j : Fin (n + 1)) (q : Req)

lemma calls_append : calls (out ++ o) j q = calls out j q + calls o j q := countP_append

lemma terminations_append :
    terminations (out ++ o) j q = terminations out j q + terminations o j q :=
  countP_append

end

section

variable (h : Ran pyRequestId out s)
include h

/-- An observation that is not a terminator call keeps what is known of those before it. -/
lemma Ran.before_append {x : RingObs n Req}
    (hx : ∀ j t q, x = .terminator j t q → ∀ j', Called pyRequestId out j' (pyRequestId q))
    (pre post : List (RingObs n Req)) (j : Fin (n + 1)) (t : ℕ) (q : Req)
    (hsplit : out ++ [x] = pre ++ .terminator j t q :: post) (j' : Fin (n + 1)) :
    Called pyRequestId pre j' (pyRequestId q) := by
  obtain ⟨rest, rfl, hrest⟩ | ⟨rest, rfl, hrest⟩ := append_eq_append_iff.mp hsplit
  · -- the new observation is this call
    cases rest with
    | nil =>
      obtain ⟨rfl, rfl⟩ : x = .terminator j t q ∧ post = [] := by simpa using hrest
      simpa using hx j t q rfl j'
    | cons y rest => simp at hrest
  · cases rest with
    | nil =>
      obtain ⟨rfl, rfl⟩ : .terminator j t q = x ∧ post = [] := by simpa using hrest
      simpa using hx j t q rfl j'
    | cons y rest =>
      obtain ⟨rfl, rfl⟩ : .terminator j t q = y ∧ post = rest ++ [x] := by simpa using hrest
      exact h.before pre rest j t q rfl j'

lemma Ran.terminate (rank : Fin (n + 1)) (request : Req) :
    Ran pyRequestId (out ++ (s.step pyRequestId (.terminate rank request)).1)
      (s.step pyRequestId (.terminate rank request)).2 := by
  set s' := (s.step pyRequestId (.terminate rank request)).2 with hs'
  have hranks : ∀ j, s'.ranks j
      = if j = rank then (s.ranks rank).terminate pyRequestId request else s.ranks j :=
    fun j => Ring.setRank_ranks ..
  have hto : ∀ j, (s'.ranks j).toTerminate = (s.ranks j).toTerminate := by
    intro j
    rw [hranks]
    split_ifs with hj
    · rw [hj]
      rfl
    · rfl
  have hit : ∀ j, (s'.ranks j).terminatingIteration = (s.ranks j).terminatingIteration := by
    intro j
    rw [hranks]
    split_ifs with hj
    · rw [hj]
      rfl
    · rfl
  have ho : (s.step pyRequestId (.terminate rank request)).1
      = [.called rank (s.ranks rank).begun request] := rfl
  rw [ho]
  refine
    { sound := fun j t q hq => ?_
      waiting := fun j reqs hreqs q hq => ?_
      complete := fun j t reqs q hb hq => ?_
      once := fun j q => ?_
      before := h.before_append fun j t q he => by simp at he }
  · obtain ⟨reqs, hb, hmem⟩ := h.sound j t q (by simpa using hq)
    exact ⟨reqs, mem_append_left _ hb, hmem⟩
  · rw [hto] at hreqs
    obtain ⟨all, hb, hmem⟩ := h.waiting j reqs hreqs q hq
    exact ⟨all, by rw [hit]; exact mem_append_left _ hb, hmem⟩
  · rw [hto, hit]
    exact (h.complete j t reqs q (by simpa using hb) hq).imp_left (mem_append_left _)
  · have honce := h.once j q
    rw [hto, calls_append, terminations_append, hranks]
    have hterm : terminations [RingObs.called rank (s.ranks rank).begun request] j q = 0 := rfl
    by_cases hj : j = rank
    · subst hj
      rw [if_pos rfl, PPTerminationHandler.terminate]
      simp only [find?_assign, hterm]
      by_cases hq : request = q
      · subst hq
        have hcall : calls [RingObs.called j (s.ranks j).begun request] j request = 1 := by
          simp [calls]
        rw [hcall, if_pos rfl, if_pos rfl]
        omega
      · by_cases hid : pyRequestId q = pyRequestId request
        · rw [if_pos hid, if_neg (by simpa using hq)]
          omega
        · rw [if_neg hid]
          omega
    · rw [if_neg hj, hterm]
      omega

lemma Ran.exchange {k : ℕ} {p : Fin (n + 1)} {T : ℕ → List ℕ}
    (ht : Token pyRequestId k p T out s) (hidle : (s.ranks p).toTerminate = none)
    (termState : Option TermState) (channel : Fin (n + 1) → List TermState) :
    Ran pyRequestId (out ++ (s.exchange p termState channel).1)
      (s.exchange p termState channel).2 := by
  set s' := (s.exchange p termState channel).2 with hs'
  set popped := popPending (s.ranks p).pendingTermination
    ((termState.map TermState.term).getD []) with hpopped
  have ho : (s.exchange p termState channel).1
      = [.began p (s.ranks p).terminatingIteration popped.1] := rfl
  have hother : ∀ j, j ≠ p → s'.ranks j = s.ranks j := fun j hj => by
    rw [hs', exchange_ranks, if_neg hj]
  have hto : (s'.ranks p).toTerminate = some popped.1 := by
    rw [hs', exchange_ranks, if_pos rfl]
    rfl
  have hpend : (s'.ranks p).pendingTermination = popped.2 := by
    rw [hs', exchange_ranks, if_pos rfl]
    rfl
  have hit : ∀ j, (s'.ranks j).terminatingIteration = (s.ranks j).terminatingIteration := by
    intro j
    rw [hs', exchange_ranks]
    split_ifs with hj
    · rw [hj]
      rfl
    · rfl
  rw [ho]
  refine
    { sound := fun j t q hq => ?_
      waiting := fun j reqs hreqs q hq => ?_
      complete := fun j t reqs q hb hq => ?_
      once := fun j q => ?_
      before := h.before_append fun j t q he => by simp at he }
  · obtain ⟨reqs, hb, hmem⟩ := h.sound j t q (by simpa using hq)
    exact ⟨reqs, mem_append_left _ hb, hmem⟩
  · rw [hit]
    by_cases hj : j = p
    · subst hj
      obtain rfl : popped.1 = reqs := by simpa [hto] using hreqs
      exact ⟨popped.1, by simp, hq⟩
    · rw [hother j hj] at hreqs
      obtain ⟨all, hb, hmem⟩ := h.waiting j reqs hreqs q hq
      exact ⟨all, mem_append_left _ hb, hmem⟩
  · rw [hit]
    obtain hb | hb := mem_append.mp hb
    · obtain hdone | ⟨htj, hwait⟩ := h.complete j t reqs q hb hq
      · exact .inl (mem_append_left _ hdone)
      · -- an idle rank has nothing left of its earlier iterations
        have hj : j ≠ p := by
          rintro rfl
          simp [hidle] at hwait
        rw [hother j hj]
        exact .inr ⟨htj, hwait⟩
    · obtain ⟨rfl, rfl, rfl⟩ :
          j = p ∧ t = (s.ranks p).terminatingIteration ∧ reqs = popped.1 := by simpa using hb
      exact .inr ⟨rfl, by simpa [hto] using hq⟩
  · have honce := h.once j q
    rw [calls_append, terminations_append]
    have hzero : terminations [RingObs.began p (s.ranks p).terminatingIteration popped.1] j q = 0 :=
      rfl
    rw [hzero]
    by_cases hj : j = p
    · subst hj
      have hcount := popPending_count (ht.history.keys j)
        ((termState.map TermState.term).getD []) q
      rw [← hpopped] at hcount
      rw [hto, hpend, getD_some]
      simp only [hidle, getD_none, count_nil] at honce
      omega
    · rw [hother j hj]
      omega

/-- The end of an iteration, with nothing left for the terminator. -/
lemma Ran.finish (rank : Fin (n + 1))
    (hrun : (s.ranks rank).toTerminate = some []) :
    Ran pyRequestId out (s.setRank rank
      { s.ranks rank with
        terminatingIteration := (s.ranks rank).terminatingIteration + 1, toTerminate :=
          none }) := by
  refine
    { sound := h.sound
      waiting := fun j reqs hreqs q hq => ?_
      complete := fun j t reqs q hb hq => ?_
      once := fun j q => ?_
      before := h.before }
  · by_cases hj : j = rank
    · rw [Ring.setRank_ranks, if_pos hj] at hreqs
      exact absurd hreqs (by simp)
    · rw [Ring.setRank_ranks, if_neg hj] at hreqs ⊢
      exact h.waiting j reqs hreqs q hq
  · obtain hdone | ⟨htj, hwait⟩ := h.complete j t reqs q hb hq
    · exact .inl hdone
    · have hj : j ≠ rank := by
        rintro rfl
        simp [hrun] at hwait
      rw [Ring.setRank_ranks, if_neg hj]
      exact .inr ⟨htj, hwait⟩
  · have honce := h.once j q
    rw [Ring.setRank_ranks]
    by_cases hj : j = rank
    · subst hj
      rw [if_pos rfl]
      simpa [hrun] using honce
    · rw [if_neg hj]
      exact honce

/-- A call of the terminator. Its id is one of an iteration that has begun, so that every rank
called `terminate` for it. -/
lemma Ran.call {k : ℕ} {p : Fin (n + 1)} {T : ℕ → List ℕ}
    (ht : Token pyRequestId k p T out s) (rank : Fin (n + 1)) {request : Req}
    {requests : List Req} (hrun : (s.ranks rank).toTerminate = some (request :: requests)) :
    Ran pyRequestId (out ++ [.terminator rank (s.ranks rank).terminatingIteration request])
      (s.setRank rank { s.ranks rank with toTerminate := some requests }) := by
  have hit : ∀ j, ((s.setRank rank { s.ranks rank with toTerminate := some requests }).ranks
      j).terminatingIteration = (s.ranks j).terminatingIteration := by
    intro j
    rw [Ring.setRank_ranks]
    split_ifs with hj
    · rw [hj]
    · rfl
  obtain ⟨all, hall, hin⟩ := h.waiting rank _ hrun request mem_cons_self
  refine
    { sound := fun j t q hq => ?_
      waiting := fun j reqs hreqs q hq => ?_
      complete := fun j t reqs q hb hq => ?_
      once := fun j q => ?_
      before := h.before_append fun j t q he j' => ?_ }
  · obtain hq | hq := mem_append.mp hq
    · obtain ⟨reqs, hb, hmem⟩ := h.sound j t q hq
      exact ⟨reqs, mem_append_left _ hb, hmem⟩
    · obtain ⟨rfl, rfl, rfl⟩ :
          j = rank ∧ t = (s.ranks rank).terminatingIteration ∧ q = request := by simpa using hq
      exact ⟨all, mem_append_left _ hall, hin⟩
  · rw [hit]
    rw [Ring.setRank_ranks] at hreqs
    split_ifs at hreqs with hj
    · obtain rfl : requests = reqs := by simpa using hreqs
      subst hj
      obtain ⟨all', hb, hmem⟩ := h.waiting j _ hrun q (mem_cons_of_mem _ hq)
      exact ⟨all', mem_append_left _ hb, hmem⟩
    · obtain ⟨all', hb, hmem⟩ := h.waiting j reqs hreqs q hq
      exact ⟨all', mem_append_left _ hb, hmem⟩
  · rw [hit]
    obtain hdone | ⟨htj, hwait⟩ := h.complete j t reqs q (by simpa using hb) hq
    · exact .inl (mem_append_left _ hdone)
    · rw [Ring.setRank_ranks]
      split_ifs with hj
      · subst hj
        rw [hrun, getD_some] at hwait
        obtain rfl | hwait := mem_cons.mp hwait
        · exact .inl (by simp [htj])
        · exact .inr ⟨htj, hwait⟩
      · exact .inr ⟨htj, hwait⟩
  · have honce := h.once j q
    rw [calls_append, terminations_append, Ring.setRank_ranks]
    by_cases hj : j = rank
    · subst hj
      rw [if_pos rfl]
      rw [hrun, getD_some, count_cons] at honce
      have hone : terminations
          [RingObs.terminator j (s.ranks j).terminatingIteration request] j q
          = if request == q then 1 else 0 := by
        by_cases hq : request = q <;> simp [terminations, hq]
      rw [hone, getD_some]
      dsimp only
      omega
    · have hzero : terminations
          [RingObs.terminator rank (s.ranks rank).terminatingIteration request] j q = 0 := by
        simp [terminations, Ne.symm hj]
      rw [if_neg hj, hzero]
      omega
  · obtain ⟨rfl, rfl, rfl⟩ :
        rank = j ∧ (s.ranks rank).terminatingIteration = t ∧ request = q := by simpa using he
    obtain ⟨hlt, hids⟩ := ht.history.began _ _ _ hall
    rw [ht.begun] at hlt
    have hk : (s.ranks rank).terminatingIteration ≤ k := by
      split_ifs at hlt <;> omega
    exact ht.valid _ hk _ (hids ▸ List.mem_map_of_mem hin) j'

lemma Ran.step {k : ℕ} {p : Fin (n + 1)} {T : ℕ → List ℕ}
    (ht : Token pyRequestId k p T out s) (e : RingEvent n Req) :
    Ran pyRequestId (out ++ (s.step pyRequestId e).1) (s.step pyRequestId e).2 := by
  cases e with
  | terminate rank request => exact h.terminate rank request
  | sync rank =>
    obtain hstep | ⟨rfl, hidle, termState, channel, hstep, -⟩ := ht.sync_cases rank
    · rw [hstep]
      simpa using h
    · rw [hstep]
      exact h.exchange ht hidle termState channel
  | proceed rank =>
    rw [Ring.step]
    cases hrun : (s.ranks rank).toTerminate with
    | none => simpa [hrun] using h
    | some reqs =>
      cases reqs with
      | nil => simpa using h.finish rank hrun
      | cons request requests => exact h.call ht rank hrun

end

lemma Ran.init : Ran pyRequestId [] (Ring.init : Ring n Req) where
  sound _ _ _ h := absurd h not_mem_nil
  waiting j reqs h := by simp [Ring.init, PPTerminationHandler.init] at h
  complete _ _ _ _ h := absurd h not_mem_nil
  once j q := by simp [Ring.init, PPTerminationHandler.init, terminations]
  before pre post j t q h := absurd h.symm (by simp)

/-- An iteration that is over ran the terminator for its ids exactly. -/
lemma Ran.terminatedIn_iff (h : Ran pyRequestId out s) {k : ℕ} {p : Fin (n + 1)}
    {T : ℕ → List ℕ} (ht : Token pyRequestId k p T out s) {rank : Fin (n + 1)} {t : ℕ}
    (hdone : t < (s.ranks rank).terminatingIteration) (id : ℕ) :
    TerminatedIn pyRequestId out rank t id ↔ id ∈ T t := by
  constructor
  · rintro ⟨q, hq, rfl⟩
    obtain ⟨reqs, hb, hmem⟩ := h.sound rank t q hq
    exact (ht.history.began rank t reqs hb).2 ▸ List.mem_map_of_mem hmem
  · intro hid
    have hbegun : t < (s.ranks rank).begun := hdone.trans_le (Nat.le_add_right _ _)
    obtain ⟨reqs, hb⟩ := ht.history.exec rank t hbegun
    rw [← (ht.history.began rank t reqs hb).2] at hid
    obtain ⟨q, hq, rfl⟩ := List.mem_map.mp hid
    obtain hterm | ⟨heq, -⟩ := h.complete rank t reqs q hb hq
    · exact ⟨q, hterm, rfl⟩
    · exact absurd heq hdone.ne

end Ran

/-! ### Whole runs -/

/-- **Agreement of the ranks.** In every interleaving of the calls on all ranks: the terminator
runs for an id only after every rank called `terminate` for it; the ranks that have executed an
iteration terminated the same ids in it; no request is handed to the terminator more often than
to `terminate`; and what every rank called for before its iteration `t` is terminated on every
rank by the end of its iteration `t + 1`. -/
theorem ring_terminations [DecidableEq Req] (pyRequestId : Req → ℕ)
    (events : List (RingEvent n Req)) :
    let out := (Machine.run (Ring.step pyRequestId) Ring.init events).1
    let s := (Machine.run (Ring.step pyRequestId) Ring.init events).2
    (∀ pre post rank t request, out = pre ++ .terminator rank t request :: post →
      ∀ rank', Called pyRequestId pre rank' (pyRequestId request))
    ∧ (∀ t rank rank', t < (s.ranks rank).terminatingIteration →
      t < (s.ranks rank').terminatingIteration →
      ∀ id, TerminatedIn pyRequestId out rank t id ↔ TerminatedIn pyRequestId out rank' t id)
    ∧ (∀ rank request, terminations out rank request ≤ calls out rank request)
    ∧ (∀ t id, (∀ rank, CalledBefore pyRequestId out rank t id) →
      ∀ rank, t + 1 < (s.ranks rank).terminatingIteration →
        ∃ i ≤ t + 1, TerminatedIn pyRequestId out rank i id) := by
  intro out s
  obtain ⟨⟨k, p, T, htoken⟩, hran⟩ :
      (∃ k p T, Token pyRequestId k p T out s) ∧ Ran pyRequestId out s := by
    refine Machine.run_induction (J := fun out s =>
      (∃ k p T, Token pyRequestId k p T out s) ∧ Ran pyRequestId out s)
      ⟨⟨0, 0, _, Token.init⟩, Ran.init⟩ ?_ events
    rintro out s e ⟨⟨k, p, T, htoken⟩, hran⟩
    exact ⟨htoken.step e, hran.step htoken e⟩
  refine ⟨hran.before, fun t rank rank' h h' id => ?_, fun rank request => ?_,
    fun t id hcall rank hdone => ?_⟩
  · rw [hran.terminatedIn_iff htoken h, hran.terminatedIn_iff htoken h']
  · exact le_trans (by omega) (hran.once rank request)
  · have hk : t < k := by
      have hbegun : t + 1 < (s.ranks rank).begun := hdone.trans_le (Nat.le_add_right _ _)
      rw [htoken.begun] at hbegun
      split_ifs at hbegun <;> omega
    obtain ⟨i, hi, hid⟩ := htoken.due t hk id hcall
    exact ⟨i, hi, (hran.terminatedIn_iff htoken (hi.trans_lt hdone) id).mpr hid⟩

local instance (priority := 2000) twoRanks_ne : NeZero (1 + 1) := ⟨Nat.succ_ne_zero 1⟩

/-- Two iterations of two ranks, both of which want to terminate request 7. -/
def twoRanks : List (RingEvent 1 ℕ) :=
  [.terminate 0 7, .terminate 1 7, .sync 0, .sync 1, .proceed 1, .proceed 0, .sync 0, .sync 1,
    .proceed 1, .proceed 0, .proceed 0, .proceed 1]

/-- Request 7 is terminated on rank 1 in the second iteration. -/
theorem ring_terminations_twoRanks :
    ∃ i ≤ 1, TerminatedIn id (Machine.run (Ring.step id) Ring.init twoRanks).1 1 i 7 :=
  (ring_terminations id twoRanks).2.2.2 0 7
    (fun rank => ⟨0, le_rfl, 7, by revert rank; decide, rfl⟩) 1 (by decide)

end TrtLlm.Disagg
