import TrtLlm.Disagg.TerminationRing

/-!
The message of the termination handlers is passed on.

A rank that begins its next iteration adds its votes to the message, and the last rank turns the
ids with the votes of all ranks into those to terminate.

* `Token.exchange_history`, `Token.exchange_votes`: what a rank knows afterwards;
* `Token.advance`, `Token.wrap`: the message goes to the next rank, or back to rank 0;
* `Token.step`: **one message is in the ring after every event**.
-/

namespace TrtLlm.Disagg

open PPTerminationHandler List Function Option Fin UMap

variable {n : ℕ} {Req : Type*}

variable {pyRequestId : Req → ℕ} {out : List (RingObs n Req)} {s : Ring n Req}

section Exchange

variable {p : Fin (n + 1)} {termState : Option TermState}
  {channel : Fin (n + 1) → List TermState}

/-- The votes after rank `p`. -/
def readyAfter (s : Ring n Req) (p : Fin (n + 1)) (termState : Option TermState) : UMap ℕ ℕ :=
  updateVotes p (popPending (s.ranks p).pendingTermination
    ((termState.map TermState.term).getD [])).2 ((termState.map TermState.ready).getD ∅)

lemma exchange_ranks (s : Ring n Req) (p : Fin (n + 1)) (termState : Option TermState)
    (channel : Fin (n + 1) → List TermState) (j : Fin (n + 1)) :
    (s.exchange p termState channel).2.ranks j
      = if j = p then (terminatePendingRequests p (n + 1) (s.ranks p) termState).2
        else s.ranks j :=
  update_apply ..

lemma exchange_channel (hempty : ∀ j, channel j = []) (j : Fin (n + 1)) :
    (s.exchange p termState channel).2.channel j
      = if j = p then [newTermState p (n + 1) (readyAfter s p termState)
          ((termState.map TermState.term).getD [])] else [] := by
  change update channel p _ j = _
  rw [update_apply, hempty, hempty]
  rfl

section

variable (s : Ring n Req) (p : Fin (n + 1)) (termState : Option TermState)
  (channel : Fin (n + 1) → List TermState) (j : Fin (n + 1)) (id : ℕ)

lemma exchange_find? : ((s.exchange p termState channel).2.ranks j).pendingTermination.find? id
      = if j = p ∧ id ∈ (termState.map TermState.term).getD [] then none
        else (s.ranks j).pendingTermination.find? id := by
  rw [exchange_ranks]
  by_cases hj : j = p
  · subst hj
    rw [if_pos rfl]
    simp only [true_and]
    exact popPending_find? ..
  · simp [hj]

lemma mem_exchange : id ∈ ((s.exchange p termState channel).2.ranks j).pendingTermination
      ↔ ¬(j = p ∧ id ∈ (termState.map TermState.term).getD [])
        ∧ id ∈ (s.ranks j).pendingTermination := by
  simp only [mem_iff_find?, exchange_find?]
  split_ifs with hc <;> simp [hc]

end

lemma exchange_begun (hidle : (s.ranks p).toTerminate = none) (j : Fin (n + 1)) :
    ((s.exchange p termState channel).2.ranks j).begun
      = if j = p then (s.ranks p).begun + 1 else (s.ranks j).begun := by
  rw [exchange_ranks]
  split_ifs
  · simp [PPTerminationHandler.begun, terminatePendingRequests, hidle]
  · rfl

variable {k : ℕ} {T : ℕ → List ℕ}

section

variable (h : Token pyRequestId k p T out s) (channel : Fin (n + 1) → List TermState)
  (hidle : (s.ranks p).toTerminate = none) (hterm : (termState.map TermState.term).getD [] = T k)
include h hidle hterm

/-- The requests of the iteration are those of the message. -/
lemma Token.exchange_out : ∃ reqs, (s.exchange p termState channel).1 = [.began p k reqs]
      ∧ reqs.map pyRequestId = T k := by
  have hk : (s.ranks p).terminatingIteration = k := by
    have hbegun := h.begun p
    simpa [PPTerminationHandler.begun, hidle] using hbegun
  refine ⟨(popPending (s.ranks p).pendingTermination (T k)).1, ?_, ?_⟩
  · simp only [Ring.exchange, terminatePendingRequests, hterm, hk, getD_some]
  · exact popPending_ids (h.history.keys p) h.nodup fun id hid => h.held id hid p le_rfl

lemma Token.exchange_history : History pyRequestId T (out ++ (s.exchange p termState channel).1)
      (s.exchange p termState channel).2 := by
  obtain ⟨reqs, hout, hreqs⟩ := h.exchange_out channel hidle hterm
  have hpk : (s.ranks p).begun = k := by simp [h.begun]
  have hbegun : ∀ j, (s.ranks j).begun
      ≤ ((s.exchange p termState channel).2.ranks j).begun := by
    intro j
    rw [exchange_begun hidle]
    split_ifs with hj
    · rw [hj]
      exact Nat.le_succ _
    · exact le_rfl
  have hp : ((s.exchange p termState channel).2.ranks p).begun = k + 1 := by
    rw [exchange_begun hidle, if_pos rfl, hpk]
  rw [hout]
  refine
    { keys := fun j id q hq => ?_
      pending := fun j id hid => ?_
      called := fun j i q hq => ?_
      began := fun j t r hb => ?_
      exec := fun j t ht => ?_ }
  · rw [exchange_find?] at hq
    split_ifs at hq
    exact h.history.keys j id q hq
  · exact (h.history.pending j id ((mem_exchange ..).mp hid).2).append
  · rw [mem_exchange, hterm]
    have hold : .called j i q ∈ out := by simpa using hq
    obtain hmem | ⟨t, ht, hmem⟩ := h.history.called j i q hold
    · by_cases hc : j = p ∧ pyRequestId q ∈ T k
      · obtain ⟨rfl, hc⟩ := hc
        exact .inr ⟨k, by omega, hc⟩
      · exact .inl ⟨hc, hmem⟩
    · exact .inr ⟨t, ht.trans_le (hbegun j), hmem⟩
  · obtain hb | hb := mem_append.mp hb
    · obtain ⟨ht, hr⟩ := h.history.began j t r hb
      exact ⟨ht.trans_le (hbegun j), hr⟩
    · obtain ⟨rfl, rfl, rfl⟩ : j = p ∧ t = k ∧ r = reqs := by simpa using hb
      exact ⟨by omega, hreqs⟩
  · by_cases hj : j = p ∧ t = k
    · exact ⟨reqs, by simp [hj]⟩
    · have hold : t < (s.ranks j).begun := by
        rw [exchange_begun hidle] at ht
        split_ifs at ht with hjp
        · subst hjp
          have hne : t ≠ k := fun he => hj ⟨rfl, he⟩
          omega
        · exact ht
      obtain ⟨r, hr⟩ := h.history.exec j t hold
      exact ⟨r, mem_append_left _ hr⟩

/-- Rank `p` votes for what is still pending after it has taken out the requests of the
message. -/
lemma Token.exchange_votes
    (hvotes : p ≠ 0 → Votes pyRequestId k p T out s ((termState.map TermState.ready).getD ∅)) :
    Votes pyRequestId k (p + 1 : ℕ) T (out ++ (s.exchange p termState channel).1)
      (s.exchange p termState channel).2 (readyAfter s p termState) := by
  obtain ⟨reqs, hout, -⟩ := h.exchange_out channel hidle hterm
  set s' := (s.exchange p termState channel).2 with hs'
  set pending' := (popPending (s.ranks p).pendingTermination
    ((termState.map TermState.term).getD [])).2 with hpending'
  set ready := (termState.map TermState.ready).getD ∅ with hready
  have hnew : (s'.ranks p).pendingTermination = pending' := by
    rw [hs', exchange_ranks, if_pos rfl]
    rfl
  have hother : ∀ j : Fin (n + 1), j.val < p.val →
      (s'.ranks j).pendingTermination = (s.ranks j).pendingTermination := by
    intro j hj
    rw [hs', exchange_ranks, if_neg (Fin.ne_of_lt (lt_def.mpr hj))]
  have hfind : ∀ id, (readyAfter s p termState).find? id
      = if p.val = 0 then (if id ∈ pending' then some 1 else none)
        else (ready.find? id).map fun c => if id ∈ pending' then c + 1 else c :=
    fun id => updateVotes_find? ..
  refine ⟨fun id c hc => ?_, fun id hid j hj => ?_, fun id hcall hT => ?_⟩
  · rw [hfind] at hc
    by_cases hp : p.val = 0
    · rw [if_pos hp] at hc
      split_ifs at hc
      simp only [some.injEq] at hc
      omega
    · rw [if_neg hp] at hc
      obtain ⟨c₀, hc₀, rfl⟩ := map_eq_some_iff.mp hc
      have hbound := (hvotes (fun he => hp (by simp [he]))).bound id c₀ hc₀
      split_ifs <;> omega
  · -- a full count has the vote of this rank, and a full count before it
    rw [hfind] at hid
    by_cases hp : p.val = 0
    · rw [if_pos hp] at hid
      split_ifs at hid with hmem
      obtain rfl : j = p := Fin.ext (by omega)
      rw [hnew]
      exact hmem
    · rw [if_neg hp] at hid
      have hp' : p ≠ 0 := fun he => hp (by simp [he])
      obtain ⟨c₀, hc₀, hc⟩ := map_eq_some_iff.mp hid
      have hbound := (hvotes hp').bound id c₀ hc₀
      have hmem : id ∈ pending' := by
        by_contra hmem
        rw [if_neg hmem] at hc
        omega
      rw [if_pos hmem] at hc
      obtain rfl : c₀ = p.val := by omega
      by_cases hj' : j.val < p.val
      · rw [hother j hj']
        exact (hvotes hp').agree id hc₀ j hj'
      · obtain rfl : j = p := Fin.ext (by omega)
        rw [hnew]
        exact hmem
  · rw [hout] at hcall
    have hcall' : ∀ j : Fin (n + 1), j.val < p.val + 1 → CalledBefore pyRequestId out j k id :=
      fun j hj => (hcall j hj).of_append fun i q hq => by simp at hq
    have hmem : id ∈ pending' := by
      obtain ⟨i, hi, q, hq, rfl⟩ := hcall' p (by omega)
      obtain hmem | ⟨t, ht, hmem⟩ := h.history.called p i q hq
      · rw [← hnew, hs', mem_exchange, hterm]
        exact ⟨fun hc => hT k le_rfl hc.2, hmem⟩
      · rw [h.begun, if_neg (lt_irrefl p)] at ht
        exact absurd hmem (hT t ht.le)
    rw [hfind]
    by_cases hp : p.val = 0
    · rw [if_pos hp, if_pos hmem, hp]
    · rw [if_neg hp]
      have hfull := (hvotes (fun he => hp (by simp [he]))).full id
        (fun j hj => hcall' j (by omega)) hT
      rw [hfull, map_some, if_pos hmem]

end

/-- Nothing is called while the message is passed on. -/
lemma Token.calledBefore_of_exchange (h : Token pyRequestId k p T out s)
    (hidle : (s.ranks p).toTerminate = none)
    (hterm : (termState.map TermState.term).getD [] = T k) {j : Fin (n + 1)} {t id : ℕ}
    (hc : CalledBefore pyRequestId (out ++ (s.exchange p termState channel).1) j t id) :
    CalledBefore pyRequestId out j t id := by
  obtain ⟨reqs, hout, -⟩ := h.exchange_out channel hidle hterm
  exact hc.of_append fun i q hq => by simp [hout] at hq

variable (h : Token pyRequestId k p T out s) (hidle : (s.ranks p).toTerminate = none)
  (hempty : ∀ j, channel j = []) (hterm : (termState.map TermState.term).getD [] = T k)
  (hvotes : p ≠ 0 → Votes pyRequestId k p T out s ((termState.map TermState.ready).getD ∅))
include h hidle hempty hterm hvotes

/-- A rank before the last passes the message to its successor. -/
lemma Token.advance (hp : p ≠ last n) :
    Token pyRequestId k (p + 1) T (out ++ (s.exchange p termState channel).1)
      (s.exchange p termState channel).2 := by
  have hval : (p + 1).val = p.val + 1 := val_add_one_of_lt (lt_last_iff_ne_last.mpr hp)
  have hpred : p + 1 - 1 = p := add_sub_cancel_right p 1
  have hrank : p.val ≠ n + 1 - 1 := fun he => hp (Fin.ext (by simpa using he))
  refine
    { begun := fun j => ?_
      quiet := fun j hj => ?_
      start := fun _ hz => absurd hz (ne_of_val_ne (by rw [hval]; simp))
      flight := fun _ => ?_
      first := h.first
      nodup := h.nodup
      held := fun id hid j hj => ?_
      history := h.exchange_history channel hidle hterm
      valid := fun t ht id hid j => (h.valid t ht id hid j).append
      due := fun t ht id hcall => h.due t ht id fun j =>
        h.calledBefore_of_exchange hidle hterm (hcall j) }
  · rw [exchange_begun hidle, h.begun, h.begun, if_neg (lt_irrefl p)]
    have hlt : j < p + 1 ↔ j = p ∨ j < p := by
      rw [lt_def, lt_def, Fin.ext_iff, hval]
      omega
    simp only [hlt]
    by_cases hj : j = p <;> simp [hj]
  · rw [hpred] at hj
    rw [exchange_channel hempty, if_neg hj]
  · refine ⟨⟨readyAfter s p termState, T k⟩, ?_, rfl, fun _ => ?_⟩
    · rw [hpred, exchange_channel hempty, if_pos rfl, newTermState, if_neg hrank, hterm]
    · rw [hval]
      exact h.exchange_votes channel hidle hterm hvotes
  · have hlt : p < j := by
      rw [le_def, hval] at hj
      exact lt_def.mpr hj
    exact (mem_exchange ..).mpr ⟨fun hc => hlt.ne' hc.1, h.held id hid j hlt.le⟩

/-- The last rank decides on the ids of the next iteration. -/
lemma Token.wrap (hp : p = last n) :
    ∃ T', Token pyRequestId (k + 1) 0 T' (out ++ (s.exchange p termState channel).1)
      (s.exchange p termState channel).2 := by
  have hrank : p.val = n + 1 - 1 := by simp [hp]
  have hpred : (0 : Fin (n + 1)) - 1 = p := by
    rw [hp, sub_eq_iff_eq_add, last_add_one]
  set m := newTermState p (n + 1) (readyAfter s p termState)
    ((termState.map TermState.term).getD []) with hm
  set T' := update T (k + 1) m.term with hT'
  have hnew : T' (k + 1) = m.term := update_self ..
  have hold : ∀ t ≤ k, T' t = T t := fun t ht => update_of_ne (by omega) ..
  have hbegun : ∀ j, ((s.exchange p termState channel).2.ranks j).begun = k + 1 := by
    intro j
    rw [exchange_begun hidle, h.begun, h.begun, if_neg (lt_irrefl p)]
    have hj : j = p ∨ j < p := hp ▸ (le_last j).eq_or_lt
    split_ifs <;> simp_all
  have hdecided : ∀ id, id ∈ m.term ↔ (readyAfter s p termState).find? id = some (p.val + 1) := by
    intro id
    rw [mem_newTermState_last hrank, show p.val + 1 = n + 1 by omega]
  have hall := h.exchange_votes channel hidle hterm hvotes
  have hheld : ∀ id ∈ m.term, ∀ j,
      id ∈ ((s.exchange p termState channel).2.ranks j).pendingTermination :=
    fun id hid j => hall.agree id ((hdecided id).mp hid) j (by have := j.isLt; omega)
  have hhistory := h.exchange_history channel hidle hterm
  refine ⟨T',
    { begun := fun j => ?_
      quiet := fun j hj => ?_
      start := fun hk => absurd hk (Nat.succ_ne_zero k)
      flight := fun _ => ⟨m, ?_, hnew.symm, fun hz => absurd rfl hz⟩
      first := (hold 0 (Nat.zero_le k)).trans h.first
      nodup := hnew ▸ nodup_newTermState_last hrank
      held := fun id hid j _ => hheld id (hnew ▸ hid) j
      history := hhistory.congr fun j t ht => hold t (by rw [hbegun] at ht; omega)
      valid := fun t ht id hid j => ?_
      due := fun t ht id hcall => ?_ }⟩
  · rw [hbegun, if_neg (Fin.not_lt_zero j)]
  · rw [hpred] at hj
    rw [exchange_channel hempty, if_neg hj]
  · rw [hpred, exchange_channel hempty, if_pos rfl]
  · obtain hlt | rfl := Nat.lt_or_eq_of_le ht
    · rw [hold t (by omega)] at hid
      exact (h.valid t (by omega) id hid j).append
    · exact hhistory.pending j id (hheld id (hnew ▸ hid) j)
  · have hcall' := fun j => h.calledBefore_of_exchange hidle hterm (hcall j)
    obtain hlt | rfl := Nat.lt_or_eq_of_le (Nat.le_of_lt_succ ht)
    · obtain ⟨i, hi, hid⟩ := h.due t hlt id hcall'
      exact ⟨i, hi, (hold i (by omega)).symm ▸ hid⟩
    · by_cases hdone : ∃ i ≤ t, id ∈ T i
      · obtain ⟨i, hi, hid⟩ := hdone
        exact ⟨i, by omega, (hold i hi).symm ▸ hid⟩
      · push Not at hdone
        have hfull := hall.full id (fun j _ => hcall j) hdone
        exact ⟨t + 1, le_rfl, hnew.symm ▸ (hdecided id).mpr hfull⟩

end Exchange

/-- There is one message in the ring after every step. -/
lemma Token.step {k : ℕ} {p : Fin (n + 1)} {T : ℕ → List ℕ} (h : Token pyRequestId k p T out s)
    (e : RingEvent n Req) :
    ∃ k' p' T', Token pyRequestId k' p' T' (out ++ (s.step pyRequestId e).1)
      (s.step pyRequestId e).2 := by
  cases e with
  | terminate rank request => exact ⟨k, p, T, h.terminate rank request⟩
  | proceed rank => exact ⟨k, p, T, h.proceed rank⟩
  | sync rank =>
    obtain hstep | ⟨rfl, hidle, termState, channel, hstep, hempty, hterm, hvotes⟩ :=
      h.sync_cases rank
    · rw [hstep]
      exact ⟨k, p, T, by simpa using h⟩
    · rw [hstep]
      by_cases hlast : rank = last n
      · obtain ⟨T', hT'⟩ := h.wrap hidle hempty hterm hvotes hlast
        exact ⟨k + 1, 0, T', hT'⟩
      · exact ⟨k, rank + 1, T, h.advance hidle hempty hterm hvotes hlast⟩

lemma Token.init : Token pyRequestId 0 0 (fun _ => []) [] (Ring.init : Ring n Req) where
  begun _ := rfl
  quiet _ _ := rfl
  start _ _ := rfl
  flight h := absurd ⟨rfl, rfl⟩ h
  first := rfl
  nodup := nodup_nil
  held _ h := absurd h not_mem_nil
  history :=
    { keys := fun _ _ _ h => by simp [Ring.init, PPTerminationHandler.init] at h
      pending := fun _ _ h => by simp [Ring.init, PPTerminationHandler.init] at h
      called := fun _ _ _ h => absurd h not_mem_nil
      began := fun _ _ _ h => absurd h not_mem_nil
      exec := fun _ _ h => absurd h (Nat.not_lt_zero _) }
  valid _ _ _ h := absurd h not_mem_nil
  due _ h := absurd h (Nat.not_lt_zero _)

end TrtLlm.Disagg
