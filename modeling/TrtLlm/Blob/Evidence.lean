import TrtLlm.Blob.Attempt

/-!
What an attempt knows of its calls.

* `Call.AccessOver`: the evidence that the driver touches the rows of a call no more;
* `Attempt.Ok`: the invariant of an attempt. Its counters count, a recorded access end has its
  evidence, a mark in a mask has the result that it comes from, and the calls that the submitting
  thread has not come to are untouched;
* `Attempt.Extends`: what every step of an attempt keeps. Histories grow, a quiesced attempt stays
  quiesced, and an outcome that can be polled does not change.

A change that the books do not see keeps the first and satisfies the second (`Good`).
-/

namespace TrtLlm.Blob

open List Option Nat

/-! ### Lists with one entry changed -/

section Modify

variable {α : Type*} {l : List α} {i : ℕ} {f : α → α} {p : α → Bool}

lemma getElem?_modify_iff {j : ℕ} {y : α} :
    (l.modify i f)[j]? = some y ↔ ∃ x, l[j]? = some x ∧ (if i = j then f x else x) = y := by
  rw [getElem?_modify]
  exact map_eq_some_iff

lemma mem_modify {x : α} (h : x ∈ l.modify i f) : x ∈ l ∨ ∃ y, l[i]? = some y ∧ x = f y := by
  obtain ⟨j, hj⟩ := mem_iff_getElem?.mp h
  obtain ⟨y, hy, rfl⟩ := getElem?_modify_iff.mp hj
  by_cases hij : i = j
  · subst hij
    exact Or.inr ⟨y, hy, by rw [if_pos rfl]⟩
  · rw [if_neg hij]
    exact Or.inl (mem_of_getElem? hy)

/-- The count does not see the change. -/
lemma countP_modify_of_eq (h : ∀ x, l[i]? = some x → p (f x) = p x) :
    (l.modify i f).countP p = l.countP p := by
  induction l generalizing i with
  | nil => rw [modify_nil]
  | cons x l ih =>
    cases i with
    | zero => rw [modify_zero_cons, countP_cons, countP_cons, h x rfl]
    | succ i => rw [modify_succ_cons, countP_cons, countP_cons, ih fun y hy => h y hy]

/-- The entry is counted no more. -/
lemma countP_modify_of_flip {x : α} (hx : l[i]? = some x) (h : p x = true)
    (hf : p (f x) = false) : (l.modify i f).countP p = l.countP p - 1 := by
  induction l generalizing i with
  | nil => exact absurd hx (by simp)
  | cons y l ih =>
    cases i with
    | zero =>
      obtain rfl : y = x := by simpa using hx
      rw [modify_zero_cons, countP_cons_of_pos h, countP_cons_of_neg (by simp [hf])]
      rfl
    | succ i =>
      have hx' : l[i]? = some x := by simpa using hx
      have hpos : 0 < l.countP p := countP_pos_iff.mpr ⟨x, mem_of_getElem? hx', h⟩
      rw [modify_succ_cons, countP_cons, countP_cons, ih hx']
      omega

end Modify

/-! ### Calls -/

/-- **The evidence of an access end**: the driver refused the call, was never handed it, or reported
the end of its access; the last was recorded before it was recorded that the driver broke its
protocol on the call. -/
def AccessOver (history : List CallNote) : Prop :=
  .refused ∈ history ∨ .handed ∉ history ∨
    ∃ pre post, history = pre ++ .recordedEnd :: post ∧ .reportedEnd ∈ pre ∧ .recordedBreak ∉ pre

lemma AccessOver.append {history : List CallNote} (h : AccessOver history) {notes : List CallNote}
    (hnotes : .handed ∉ notes) : AccessOver (history ++ notes) := by
  obtain h | h | ⟨pre, post, heq, hend, hbreak⟩ := h
  · exact Or.inl (mem_append_left _ h)
  · refine Or.inr (Or.inl fun hmem => ?_)
    exact (mem_append.mp hmem).elim h hnotes
  · refine Or.inr (Or.inr ⟨pre, post ++ notes, ?_, hend, hbreak⟩)
    rw [heq, append_assoc, cons_append]

/-- The driver showed what the report says. -/
def Report.Backed (history : List CallNote) : Report → Prop
  | .broken _ => True
  | .answers results accessEnded _ =>
    (accessEnded = true → .reportedEnd ∈ history) ∧
      ∀ R, results = some R → ∃ rows, .concluded rows ∈ history ∧ R = CallResults.of rows

lemma Report.Backed.mono {history history' : List CallNote} {r : Report} (h : r.Backed history)
    (hsub : ∀ n ∈ history, n ∈ history') : r.Backed history' := by
  cases r with
  | broken reason => trivial
  | answers results accessEnded unprovable =>
    refine ⟨fun hended => hsub _ (h.1 hended), fun R hR => ?_⟩
    obtain ⟨rows, hrows, hready⟩ := h.2 R hR
    exact ⟨rows, hsub _ hrows, hready⟩

/-- The queries of a notification back its report. -/
lemma queryReport_spec (rows : ℕ) (q : QueryAnswers) :
    .handed ∉ (queryReport rows q).2 ∧ .recordedBreak ∉ (queryReport rows q).2 ∧
      (queryReport rows q).1.Backed (queryReport rows q).2 := by
  rw [queryReport]
  cases q.poll with
  | error error => exact ⟨by simp, by simp, trivial⟩
  | ok results =>
    cases q.accessEnded with
    | error error => exact ⟨by simp, by simp, trivial⟩
    | ok accessEnded =>
      simp only
      cases (if accessEnded then Except.ok false else q.accessUnprovable) with
      | error error => exact ⟨by simp, by simp, trivial⟩
      | ok unprovable =>
        simp only
        split_ifs with hlen hend hconcluded hend hend <;>
          simp_all [Report.Backed]

namespace Call

structure Ok (c : Call) : Prop where
  access : c.accessEndRecorded → AccessOver c.history
  broken : .recordedBreak ∈ c.history → c.unprovable ∨ c.accessEndRecorded
  backed : ∀ r ∈ c.reports, r.Backed c.history

/-- The submitting thread has not come to the call. -/
structure Fresh (c : Call) : Prop where
  history : c.history = []
  reports : c.reports = []
  accessEndRecorded : c.accessEndRecorded = false

structure Extends (c c' : Call) : Prop where
  groupPosition : c'.groupPosition = c.groupPosition
  start : c'.start = c.start
  stop : c'.stop = c.stop
  history : ∀ n ∈ c.history, n ∈ c'.history

lemma Extends.refl (c : Call) : c.Extends c := ⟨rfl, rfl, rfl, fun _ h => h⟩

/-- A change of a call that the books of its attempt do not see. -/
structure Keeps (c c' : Call) : Prop extends Extends c c' where
  resultsRecorded : c'.resultsRecorded = c.resultsRecorded
  accessEndRecorded : c'.accessEndRecorded = c.accessEndRecorded
  ok : c.Ok → c'.Ok

/-- The same, and the call is not handed over. -/
structure Quiet (c c' : Call) : Prop extends Keeps c c' where
  handed : .handed ∈ c'.history → .handed ∈ c.history

section

variable (c : Call)

/-- The driver shows something of a call, and a notification that saw it waits for the lock. -/
lemma quiet_reported {notes : List CallNote} {reports : List Report} (hhanded : .handed ∉ notes)
    (hbreak : .recordedBreak ∈ notes → c.unprovable ∨ c.accessEndRecorded)
    (hreports : ∀ r ∈ reports, r ∈ c.reports ∨ r.Backed notes) :
    c.Quiet { c with reports := reports, history := c.history ++ notes } where
  groupPosition := rfl
  start := rfl
  stop := rfl
  history n hn := mem_append_left notes hn
  resultsRecorded := rfl
  accessEndRecorded := rfl
  handed h := (mem_append.mp h).resolve_right hhanded
  ok hok := by
    refine ⟨fun h => (hok.access h).append hhanded, fun h => ?_, fun r hr => ?_⟩
    · exact (mem_append.mp h).elim hok.broken hbreak
    · obtain hr | hr := hreports r hr
      · exact (hok.backed r hr).mono fun n hn => mem_append_left notes hn
      · exact hr.mono fun n hn => mem_append_right c.history hn

lemma quiet_note {n : CallNote} (hhanded : n ≠ .handed)
    (hbreak : n = .recordedBreak → c.unprovable ∨ c.accessEndRecorded) : c.Quiet (c.note n) :=
  c.quiet_reported (fun h => hhanded (mem_singleton.mp h).symm)
    (fun h => hbreak (mem_singleton.mp h).symm) fun _ hr => Or.inl hr

lemma quiet_dropReport (n : ℕ) : c.Quiet { c with reports := c.reports.eraseIdx n } where
  groupPosition := rfl
  start := rfl
  stop := rfl
  history _ hn := hn
  resultsRecorded := rfl
  accessEndRecorded := rfl
  handed h := h
  ok hok := ⟨hok.access, hok.broken, fun r hr => hok.backed r (mem_of_mem_eraseIdx hr)⟩

lemma quiet_unprovable : c.Quiet { c with unprovable := true } where
  groupPosition := rfl
  start := rfl
  stop := rfl
  history _ hn := hn
  resultsRecorded := rfl
  accessEndRecorded := rfl
  handed h := h
  ok hok := ⟨hok.access, fun _ => Or.inl rfl, hok.backed⟩

/-- The handle and the cancel mark are of no account. -/
lemma quiet_op (op : Option ℕ) (forwarded : Bool) :
    c.Quiet { c with op := op, cancelForwarded := forwarded } where
  groupPosition := rfl
  start := rfl
  stop := rfl
  history _ hn := hn
  resultsRecorded := rfl
  accessEndRecorded := rfl
  handed h := h
  ok hok := ⟨hok.access, hok.broken, hok.backed⟩

lemma Quiet.refl : c.Quiet c := c.quiet_op c.op c.cancelForwarded

end

/-- A recorded access end needs its evidence. -/
lemma Ok.recordedEnd {c : Call} (h : c.Ok) (hover : AccessOver (c.history ++ [.recordedEnd])) :
    Ok { c.note .recordedEnd with accessEndRecorded := true } :=
  ⟨fun _ => hover, fun _ => Or.inr rfl, fun r hr =>
    (h.backed r hr).mono fun _ hn => mem_append_left _ hn⟩

end Call

/-! ### Attempts -/

/-- A row is marked. -/
def Marked (masks : List (List Bool)) (g row : ℕ) : Prop :=
  (masks[g]?.bind fun m => m[row]?) = some true

namespace Attempt

/-- **The evidence of a delivered row**: its call concluded with the row ready. -/
def Delivered (A : Attempt) (g row : ℕ) : Prop :=
  ∃ c ∈ A.calls, c.groupPosition = g ∧ c.start ≤ row ∧ row < c.stop ∧
    ∃ results, .concluded results ∈ c.history ∧ results[row - c.start]? = some .ready

/-- The first call that the submitting thread has not come to. -/
def freshFrom (A : Attempt) : ℕ :=
  match A.thread with
  | .reading => A.taken.length
  | .calling => A.taken.length + 1
  | .failing _ _ => A.taken.length + 1
  | .skipping next => next
  | .storing => A.calls.length
  | .returned => A.calls.length

structure Ok (A : Attempt) : Prop where
  call : ∀ c ∈ A.calls, c.Ok
  awaitingResults : A.callsAwaitingResults = A.calls.countP fun c => !c.resultsRecorded
  awaitingEnd : A.callsAwaitingAccessEnd = A.calls.countP fun c => !c.accessEndRecorded
  quiesced : A.quiesced → A.callsAwaitingAccessEnd = 0
  shared : ∀ fault, A.outcome = some (.shared fault) → A.callsAwaitingResults = 0
  delivered : ∀ g row, Marked A.masks g row → A.Delivered g row
  copied : ∀ o, A.outcome = some (.copied o) → ∀ g row, Marked o.deliveredMasks g row →
    A.Delivered g row
  tracked : A.tracked = false → A.quiesced
  fresh : ∀ i c, A.freshFrom ≤ i → A.calls[i]? = some c → c.Fresh
  failing : ∀ reason, A.thread = .failing reason false → ∀ c, A.calls[A.taken.length]? = some c →
    .refused ∈ c.history ∨ .handed ∉ c.history

structure Extends (A A' : Attempt) : Prop where
  label : A'.label = A.label
  length : A'.calls.length = A.calls.length
  calls : ∀ (i : ℕ) (c : Call), A.calls[i]? = some c → ∃ c', A'.calls[i]? = some c' ∧ c.Extends c'
  quiesced : A.quiesced → A'.quiesced
  poll : ∀ o, A.poll = some o → A'.poll = some o

variable {A A' : Attempt} {g i row : ℕ} {ready : List Bool} {whole : Bool}

/-- The calls stay as they are. -/
lemma extends_of_calls_eq (hlabel : A'.label = A.label) (hcalls : A'.calls = A.calls)
    (hquiesced : A.quiesced → A'.quiesced) (hpoll : ∀ o, A.poll = some o → A'.poll = some o) :
    A.Extends A' :=
  ⟨hlabel, congrArg List.length hcalls, fun _ c hc => ⟨c, hcalls ▸ hc, Call.Extends.refl c⟩,
    hquiesced, hpoll⟩

lemma Extends.refl (A : Attempt) : A.Extends A := extends_of_calls_eq rfl rfl id fun _ => id

lemma Extends.trans {B C : Attempt} (h : A.Extends B) (h' : B.Extends C) : A.Extends C where
  label := h'.label.trans h.label
  length := h'.length.trans h.length
  calls i c hc := by
    obtain ⟨c₁, hc₁, e₁⟩ := h.calls i c hc
    obtain ⟨c₂, hc₂, e₂⟩ := h'.calls i c₁ hc₁
    exact ⟨c₂, hc₂, e₂.groupPosition.trans e₁.groupPosition, e₂.start.trans e₁.start,
      e₂.stop.trans e₁.stop, fun n hn => e₂.history n (e₁.history n hn)⟩
  quiesced hq := h'.quiesced (h.quiesced hq)
  poll o ho := h'.poll o (h.poll o ho)

lemma Delivered.mono (h : A.Delivered g row) (hext : A.Extends A') : A'.Delivered g row := by
  obtain ⟨c, hc, hg, hstart, hstop, results, hresults, hready⟩ := h
  obtain ⟨i, hi⟩ := mem_iff_getElem?.mp hc
  obtain ⟨c', hc', e⟩ := hext.calls i c hi
  refine ⟨c', mem_of_getElem? hc', e.groupPosition.trans hg, ?_, ?_, results,
    e.history _ hresults, ?_⟩
  · rwa [e.start]
  · rwa [e.stop]
  · rwa [e.start]

/-- A step of an attempt that keeps the invariant. -/
structure Good (A A' : Attempt) : Prop where
  ok : A'.Ok
  ext : A.Extends A'

lemma Good.trans {B C : Attempt} (h : A.Good B) (h' : B.Good C) : A.Good C :=
  ⟨h'.ok, h.ext.trans h'.ext⟩

lemma Ok.good (h : A.Ok) : A.Good A := ⟨h, Extends.refl A⟩

/-! ### Changes that the books do not see -/

/-- Calls change behind the submitting thread. -/
lemma Ok.mapCalls (h : A.Ok) {calls : List Call} (hlen : calls.length = A.calls.length)
    (hkeeps : ∀ (i : ℕ) (c c' : Call), A.calls[i]? = some c → calls[i]? = some c' → c.Keeps c')
    (hfresh : ∀ (i : ℕ) (c c' : Call), A.freshFrom ≤ i → A.calls[i]? = some c →
      calls[i]? = some c' → c.Fresh → c'.Fresh)
    (hquiet : ∀ reason, A.thread = .failing reason false → ∀ c c',
      A.calls[A.taken.length]? = some c →
      calls[A.taken.length]? = some c' → c.Quiet c') :
    A.Good { A with calls := calls } := by
  have hback : ∀ (i : ℕ) (c' : Call), calls[i]? = some c' → ∃ c, A.calls[i]? = some c := by
    intro i c' hc'
    have hi : i < A.calls.length := hlen ▸ (List.getElem?_eq_some_iff.mp hc').1
    exact ⟨_, getElem?_eq_getElem hi⟩
  have hforth : ∀ (i : ℕ) (c : Call), A.calls[i]? = some c → ∃ c', calls[i]? = some c' := by
    intro i c hc
    have hi : i < calls.length := hlen ▸ (List.getElem?_eq_some_iff.mp hc).1
    exact ⟨_, getElem?_eq_getElem hi⟩
  have hcount : ∀ p : Call → Bool, (∀ c c', Call.Keeps c c' → p c' = p c) →
      calls.countP p = A.calls.countP p := by
    intro p hp
    have hmap : calls.map p = A.calls.map p := by
      refine ext_getElem? fun i => ?_
      rw [getElem?_map, getElem?_map]
      cases hc : A.calls[i]? with
      | none =>
        have : calls[i]? = none := by
          rw [List.getElem?_eq_none_iff] at hc ⊢
          rwa [hlen]
        rw [this]
      | some c =>
        obtain ⟨c', hc'⟩ := hforth i c hc
        rw [hc', map_some, map_some, hp c c' (hkeeps i c c' hc hc')]
    have hid : ∀ l : List Call, l.countP p = (l.map p).countP id := fun l => by
      rw [countP_map]
      rfl
    rw [hid, hmap, ← hid]
  have hext : A.Extends { A with calls := calls } := by
    refine ⟨rfl, hlen, fun i c hc => ?_, id, fun _ => id⟩
    obtain ⟨c', hc'⟩ := hforth i c hc
    exact ⟨c', hc', (hkeeps i c c' hc hc').toExtends⟩
  refine ⟨⟨?_, ?_, ?_, h.quiesced, h.shared, ?_, ?_, h.tracked, ?_, ?_⟩, hext⟩
  · intro c' hc'
    obtain ⟨i, hi⟩ := mem_iff_getElem?.mp hc'
    obtain ⟨c, hc⟩ := hback i c' hi
    exact (hkeeps i c c' hc hi).ok (h.call c (mem_of_getElem? hc))
  · rw [hcount _ fun c c' hk => by rw [hk.resultsRecorded]]
    exact h.awaitingResults
  · rw [hcount _ fun c c' hk => by rw [hk.accessEndRecorded]]
    exact h.awaitingEnd
  · intro g row hmark
    exact (h.delivered g row hmark).mono hext
  · intro o ho g row hmark
    exact (h.copied o ho g row hmark).mono hext
  · intro i c' hle hc'
    have hle' : A.freshFrom ≤ i := by
      revert hle
      rw [freshFrom, freshFrom]
      cases A.thread <;> simp only [hlen, imp_self]
    obtain ⟨c, hc⟩ := hback i c' hc'
    exact hfresh i c c' hle' hc hc' (h.fresh i c hle' hc)
  · intro reason hthread c' hc'
    obtain ⟨c, hc⟩ := hback _ c' hc'
    have hq := hquiet reason hthread c c' hc hc'
    exact (h.failing reason hthread c hc).imp (hq.history _) fun hnot hmem => hnot (hq.handed hmem)

/-- One call behind the submitting thread changes. -/
lemma Ok.modifyCall (h : A.Ok) {f : Call → Call}
    (hquiet : ∀ c, A.calls[i]? = some c → c.Quiet (f c))
    (hfresh : ∀ c, A.freshFrom ≤ i → c.Fresh → (f c).Fresh) : A.Good (A.modifyCall i f) := by
  have hget : ∀ j c c', A.calls[j]? = some c → (A.calls.modify i f)[j]? = some c' →
      c' = if i = j then f c else c := by
    intro j c c' hc hc'
    obtain ⟨x, hx, rfl⟩ := getElem?_modify_iff.mp hc'
    obtain rfl := some.inj (hc.symm.trans hx)
    rfl
  have hall : ∀ (j : ℕ) (c c' : Call), A.calls[j]? = some c → (A.calls.modify i f)[j]? = some c' →
      c.Quiet c' := by
    intro j c c' hc hc'
    rw [hget j c c' hc hc']
    split_ifs with hij
    · exact hquiet c (hij ▸ hc)
    · exact Call.Quiet.refl c
  refine h.mapCalls (length_modify ..) (fun j c c' hc hc' => (hall j c c' hc hc').toKeeps)
    (fun j c c' hle hc hc' hf => ?_) fun reason _ c c' hc hc' => hall _ c c' hc hc'
  · rw [hget j c c' hc hc']
    split_ifs with hij
    · exact hfresh c (hij ▸ hle) hf
    · exact hf

/-- The thread goes on. -/
lemma Ok.goOn (h : A.Ok) {taken : List ℕ} {thread : HandOver}
    (hfresh : ∀ i < A.calls.length, freshFrom { A with taken := taken, thread := thread } ≤ i →
      A.freshFrom ≤ i)
    (hfailing : ∀ reason, thread = .failing reason false → ∀ c, A.calls[taken.length]? = some c →
      .refused ∈ c.history ∨ .handed ∉ c.history) :
    A.Good { A with taken := taken, thread := thread } :=
  ⟨⟨h.call, h.awaitingResults, h.awaitingEnd, h.quiesced, h.shared, h.delivered, h.copied,
    h.tracked, fun i c hle hc => h.fresh i c (hfresh i (List.getElem?_eq_some_iff.mp hc).1 hle) hc,
      hfailing⟩,
    extends_of_calls_eq rfl rfl id fun _ => id⟩

end Attempt

end TrtLlm.Blob
