import TrtLlm.Bounce.SenderWriteSteps

/-!
The writes that a sender may still post, and when it says that they are over.

* `WriteStep.credits`: **an event opens no credit but those of a GRANT**, and a DATA closes one;
* `WriteStep.ok`, `WriteStep.closed`: a request that has left stays away, and with the last of
  its writes the request is closed; a cancel is sent for closed requests only.
-/

namespace TrtLlm.BounceSender

open List Function UMap CreditScheduler

/-! ### Requests that are over -/

/-- The invariant of the tables; `U` are the request ids that have been given out. -/
structure WriterOk (U : ℕ → Prop) (s : BounceSender) : Prop where
  nextRid : s.mNextRid < 2 ^ 64
  table : ∀ rid req, s.mRequests.find? rid = some req → U rid ∧ WritesOk req
  locals : ∀ o ∈ s.mOrphanLocal, U o.rid ∧ o.rid ∉ s.mRequests
  cancels : ∀ rid, rid ∈ s.mPendingCancel → U rid ∧ rid ∉ s.mRequests
  announcing : ∀ a ∈ s.announcing, U a.1 ∧ a.2.2 ≠ []

/-- The event gives out no request id twice. -/
def Fresh (U U' : ℕ → Prop) (s : BounceSender) (out : List SenderOutput) : Prop :=
  (∀ rid, U rid → U' rid)
    ∧ ∀ π peer n, .submitted π s.mNextRid peer n ∈ out → U' s.mNextRid ∧ ¬ U s.mNextRid

namespace WriteStep

variable {U U' : ℕ → Prop} {s s' : BounceSender} {e : Event} {out : List SenderOutput}

variable {h rid : ℕ} {peer : Bytes} {req : Request}

lemma rid_used (hs : WriterOk U s) (h : rid ∈ s.mRequests) : U rid := by
  obtain ⟨req, hr⟩ := mem_iff_find?.mp h
  exact (hs.table rid req hr).1

section

variable (hs : WriterOk U s) (hup : ∀ rid, U rid → U' rid)
include hs hup

/-- What is in a table after the event was there before, or is new and in order. -/
lemma ok_of (nextRid : s'.mNextRid < 2 ^ 64) (table : ∀ rid req, s'.mRequests.find? rid = some req →
      s.mRequests.find? rid = some req ∨ (U' rid ∧ WritesOk req))
    (keys : ∀ rid, rid ∈ s'.mRequests → rid ∈ s.mRequests ∨ ¬ U rid)
    (locals : ∀ o ∈ s'.mOrphanLocal, o ∈ s.mOrphanLocal ∨ (U' o.rid ∧ o.rid ∉ s'.mRequests))
    (cancels : ∀ rid, rid ∈ s'.mPendingCancel →
      rid ∈ s.mPendingCancel ∨ (U' rid ∧ rid ∉ s'.mRequests))
    (announcing : ∀ a ∈ s'.announcing, a ∈ s.announcing ∨ (U' a.1 ∧ a.2.2 ≠ [])) :
    WriterOk U' s' := by
  have haway : ∀ rid, U rid → rid ∉ s.mRequests → rid ∉ s'.mRequests := fun rid hu hn hin =>
    (keys rid hin).elim hn fun h => h hu
  refine ⟨nextRid, fun rid req hr => ?_, fun o ho => ?_, fun rid hr => ?_, fun a ha => ?_⟩
  · exact (table rid req hr).elim (fun h => (hs.table rid req h).imp_left (hup rid)) id
  · refine (locals o ho).elim (fun h => ?_) id
    obtain ⟨h1, h2⟩ := hs.locals o h
    exact ⟨hup _ h1, haway _ h1 h2⟩
  · refine (cancels rid hr).elim (fun h => ?_) id
    obtain ⟨h1, h2⟩ := hs.cancels rid h
    exact ⟨hup _ h1, haway _ h1 h2⟩
  · exact (announcing a ha).elim (fun h => (hs.announcing a h).imp_left (hup _)) id

/-- A request of the table is replaced. -/
lemma ok_of_set {req' : Request} (found : s.mRequests.find? rid = some req) (hw : WritesOk req')
    (table : s'.mRequests = s.mRequests.set rid req') (rest : SameRest s s') : WriterOk U' s' := by
  have hrid := mem_of_find? found
  refine ok_of hs hup (rest.nextRid ▸ hs.nextRid) (fun r q hq => ?_) (fun r hr => ?_)
    (fun o ho => .inl (rest.locals ▸ ho)) (fun r hr => .inl (rest.cancels ▸ hr))
    fun a ha => .inl (rest.announcing ▸ ha)
  · rw [table, find?_set] at hq
    split_ifs at hq with he
    · obtain rfl := Option.some.inj hq
      exact .inr ⟨hup _ (he ▸ rid_used hs hrid), hw⟩
    · exact .inl hq
  · rw [table, UMap.mem_set] at hr
    exact .inl (hr.elim (fun he => he ▸ hrid) id)

/-- A request leaves the table. -/
lemma ok_of_erase (table : s'.mRequests = s.mRequests.erase rid)
    (nextRid : s'.mNextRid = s.mNextRid)
    (announcing : s'.announcing = s.announcing)
    (locals : ∀ o ∈ s'.mOrphanLocal, o ∈ s.mOrphanLocal ∨ (U' o.rid ∧ o.rid ∉ s'.mRequests))
    (cancels : ∀ rid, rid ∈ s'.mPendingCancel →
      rid ∈ s.mPendingCancel ∨ (U' rid ∧ rid ∉ s'.mRequests)) : WriterOk U' s' := by
  refine ok_of hs hup (nextRid ▸ hs.nextRid) (fun r q hq => ?_) (fun r hr => ?_) locals cancels
    fun a ha => .inl (announcing ▸ ha)
  · rw [table, find?_erase] at hq
    split_ifs at hq
    exact .inl hq
  · rw [table, mem_erase] at hr
    exact .inl hr.2

end

/-- **An event keeps the invariant of the tables.** -/
theorem ok (w : WriteStep s e out s') (hs : WriterOk U s)
    (hf : Fresh U U' s out) : WriterOk U' s' := by
  have hup := hf.1
  cases w with
  | idle table locals cancels announcing nextRid msgs =>
    exact ok_of hs hup (nextRid ▸ hs.nextRid) (fun r q hq => .inl (table ▸ hq))
      (fun r hr => .inl (table ▸ hr)) (fun o ho => .inl (locals.subset ho))
      (fun r hr => .inl (cancels ▸ hr)) fun a ha => .inl (announcing ▸ ha)
  | refused table locals cancels announcing nextRid msgs =>
    refine ok_of hs hup (nextRid.elim (fun h => h ▸ hs.nextRid) id)
      (fun r q hq => .inl (table ▸ hq))
      (fun r hr => .inl (table ▸ hr)) (fun o ho => .inl (locals ▸ ho))
      (fun r hr => .inl (cancels ▸ hr)) fun a ha => ?_
    rcases announcing with h | ⟨peer, bytes, hne, hin, h⟩
    · exact .inl (h ▸ ha)
    · rw [h, mem_append, mem_singleton] at ha
      rcases ha with ha | rfl
      · exact .inl ha
      · exact .inr ⟨hup _ (rid_used hs hin), hne⟩
  | entered req bytes n new wants shown table locals cancels announcing nextRid msgs =>
    obtain ⟨hnew, hnot⟩ := hf.2 _ _ _ shown
    refine ok_of hs hup nextRid (fun r q hq => ?_) (fun r hr => ?_) (fun o ho => .inl (locals ▸ ho))
      (fun r hr => .inl (cancels ▸ hr)) fun a ha => ?_
    · rw [table, find?_set] at hq
      split_ifs at hq with he
      · obtain rfl := Option.some.inj hq
        refine .inr ⟨he ▸ hnew, fun p hp => ?_⟩
        rw [new.2] at hp
        cases hp
      · exact .inl hq
    · rw [table, UMap.mem_set] at hr
      exact hr.elim (fun he => .inr (he ▸ hnot)) .inl
    · rw [announcing, mem_append, mem_singleton] at ha
      rcases ha with ha | rfl
      · exact .inl ha
      · exact .inr ⟨hnew, wants⟩
  | announced i rid peer bytes at_i table locals cancels announcing nextRid msgs =>
    refine ok_of hs hup (nextRid ▸ hs.nextRid) (fun r q hq => .inl (table ▸ hq))
      (fun r hr => .inl (table ▸ hr)) (fun o ho => .inl (locals ▸ ho))
      (fun r hr => .inl (cancels ▸ hr)) fun a ha => .inl ?_
    rw [announcing] at ha
    exact (eraseIdx_sublist _ _).subset ha
  | moved rid req req' found peer writes credits table rest msgs =>
    exact ok_of_set hs hup found (writes (hs.table rid req found).2) table rest
  | sent rid i req p found at_i state table rest msgs =>
    refine ok_of_set hs hup found (fun q hq hst => ?_) table rest
    rcases mem_or_eq_of_mem_set hq with hq | rfl
    · exact (hs.table rid req found).2 q hq hst
    · cases hst
  | left rid table rest msgs =>
    exact ok_of_erase hs hup table rest.nextRid rest.announcing
      (fun o ho => .inl (rest.locals ▸ ho))
      fun r hr => .inl (rest.cancels ▸ hr)
  | deferred rid req found table locals cancels announcing nextRid msgs =>
    have hused := hup _ (hs.table rid req found).1
    have haway : rid ∉ s'.mRequests := by
      rw [table, mem_erase]
      exact fun h => h.1 rfl
    refine ok_of_erase hs hup table nextRid announcing (fun o ho => ?_) fun r hr => ?_
    · rw [locals, mem_append] at ho
      refine ho.imp_right fun ho => ?_
      obtain ⟨p, -, rfl⟩ := mem_map.mp ho
      exact ⟨hused, haway⟩
    · rw [cancels, UMap.mem_set] at hr
      rcases hr with rfl | hr
      · exact .inr ⟨hused, haway⟩
      · exact .inl hr
  | failed rid req found table rest msgs =>
    exact ok_of_erase hs hup table rest.nextRid rest.announcing
      (fun o ho => .inl (rest.locals ▸ ho))
      fun r hr => .inl (rest.cancels ▸ hr)
  | cancelled rid peer found gone table locals cancels announcing nextRid msgs =>
    refine ok_of hs hup (nextRid ▸ hs.nextRid) (fun r q hq => .inl (table ▸ hq))
      (fun r hr => .inl (table ▸ hr)) (fun o ho => .inl (locals ▸ ho)) (fun r hr => .inl ?_)
      fun a ha => .inl (announcing ▸ ha)
    rw [cancels, mem_erase] at hr
    exact hr.2

/-- A WANT is for a request id that was given out; if it is a cancel, the request is closed. -/
theorem want (w : WriteStep s e out s') (hs : WriterOk U s) {endpoint : Bytes} {bytes : List ℕ}
    (hm : (peer, .want rid bytes endpoint) ∈ toReceivers out) :
    U rid ∧ (bytes = [] → Closed s' rid) := by
  cases w with
  | announced i rid' peer' bytes' at_i table locals cancels announcing nextRid msgs =>
    rw [msgs, mem_singleton] at hm
    cases hm
    obtain ⟨h1, h2⟩ := hs.announcing _ (mem_of_getElem? at_i)
    exact ⟨h1, fun h => absurd h h2⟩
  | failed rid' req found table rest msgs =>
    rw [msgs, mem_singleton] at hm
    cases hm
    refine ⟨(hs.table rid req found).1, fun _ => ⟨?_, fun o ho hrid => ?_⟩⟩
    · rw [table, mem_erase]
      exact fun h => h.1 rfl
    · rw [rest.locals] at ho
      exact (hs.locals o ho).2 (hrid ▸ mem_of_find? found)
  | cancelled rid' peer' found gone table locals cancels announcing nextRid msgs =>
    rw [msgs, mem_singleton] at hm
    cases hm
    obtain ⟨h1, h2⟩ := hs.cancels rid (mem_of_find? found)
    exact ⟨h1, fun _ => ⟨table ▸ h2, fun o ho => gone o (locals ▸ ho)⟩⟩
  | sent rid' i req p found at_i state table rest msgs =>
    rw [msgs, mem_singleton] at hm
    cases hm
  | moved rid' req req' found peer' writes credits table rest msgs =>
    rw [msgs (hs.table rid' req found).2] at hm
    cases hm
  | idle _ _ _ _ _ msgs | refused _ _ _ _ _ msgs | entered _ _ _ _ _ _ _ _ _ _ _ msgs
  | left _ _ _ msgs | deferred _ _ _ _ _ _ _ _ msgs =>
    rw [msgs] at hm
    cases hm

/-- An event has at most one message for a receiver. -/
lemma length_toReceivers (w : WriteStep s e out s') (hs : WriterOk U s) :
    (toReceivers out).length ≤ 1 := by
  cases w with
  | moved rid' req req' found peer' writes credits table rest msgs =>
    rw [msgs (hs.table rid' req found).2]
    simp
  | idle _ _ _ _ _ msgs | refused _ _ _ _ _ msgs | entered _ _ _ _ _ _ _ _ _ _ _ msgs
  | left _ _ _ msgs | deferred _ _ _ _ _ _ _ _ msgs | announced _ _ _ _ _ _ _ _ _ _ msgs
  | sent _ _ _ _ _ _ _ _ _ msgs | failed _ _ _ _ _ msgs | cancelled _ _ _ _ _ _ _ _ _ msgs =>
    rw [msgs]
    simp

/-- A DATA is for a request of the table. -/
theorem data (w : WriteStep s e out s') (hs : WriterOk U s) {msg : BounceMsg}
    (hm : (peer, msg) ∈ toReceivers out) (hd : isData rid h msg = true) : rid ∈ s.mRequests := by
  cases w with
  | sent rid' i req p found at_i state table rest msgs =>
    rw [msgs, mem_singleton] at hm
    cases hm
    have hrid : rid' = rid := by
      simp only [isData, Bool.and_eq_true, decide_eq_true_iff] at hd
      exact hd.1
    exact hrid ▸ mem_of_find? found
  | announced _ _ _ _ _ _ _ _ _ _ msgs | failed _ _ _ _ _ msgs | cancelled _ _ _ _ _ _ _ _ _ msgs =>
    rw [msgs, mem_singleton] at hm
    cases hm
    cases hd
  | moved rid' req req' found peer' writes credits table rest msgs =>
    rw [msgs (hs.table rid' req found).2] at hm
    cases hm
  | idle _ _ _ _ _ msgs | refused _ _ _ _ _ msgs | entered _ _ _ _ _ _ _ _ _ _ _ msgs
  | left _ _ _ msgs | deferred _ _ _ _ _ _ _ _ msgs =>
    rw [msgs] at hm
    cases hm

/-- **A closed request stays closed.** -/
theorem closed (w : WriteStep s e out s') (hf : Fresh U U' s out) (hu : U rid)
    (hc : Closed s rid) : Closed s' rid := by
  obtain ⟨haway, hgone⟩ := hc
  have hne : ∀ {rid' req}, s.mRequests.find? rid' = some req → rid' ≠ rid := fun hr he =>
    haway (he ▸ mem_of_find? hr)
  have hset : ∀ {rid' req}, rid' ≠ rid → rid ∉ s.mRequests.set rid' req := fun hr hin =>
    (UMap.mem_set.mp hin).elim (fun he => hr he.symm) haway
  have herase : ∀ {rid'}, rid ∉ s.mRequests.erase rid' := fun hin => haway (mem_erase.mp hin).2
  cases w with
  | idle table locals cancels announcing nextRid msgs =>
    exact ⟨table ▸ haway, fun o ho => hgone o (locals.subset ho)⟩
  | refused table locals cancels announcing nextRid msgs =>
    exact ⟨table ▸ haway, fun o ho => hgone o (locals ▸ ho)⟩
  | entered req bytes n new wants shown table locals cancels announcing nextRid msgs =>
    refine ⟨table ▸ hset fun he => (hf.2 _ _ _ shown).2 (he ▸ hu), fun o ho => ?_⟩
    exact hgone o (locals ▸ ho)
  | announced i rid' peer bytes at_i table locals cancels announcing nextRid msgs =>
    exact ⟨table ▸ haway, fun o ho => hgone o (locals ▸ ho)⟩
  | moved rid' req req' found peer writes credits table rest msgs =>
    exact ⟨table ▸ hset (hne found), fun o ho => hgone o (rest.locals ▸ ho)⟩
  | sent rid' i req p found at_i state table rest msgs =>
    exact ⟨table ▸ hset (hne found), fun o ho => hgone o (rest.locals ▸ ho)⟩
  | left rid' table rest msgs =>
    exact ⟨table ▸ herase, fun o ho => hgone o (rest.locals ▸ ho)⟩
  | deferred rid' req found table locals cancels announcing nextRid msgs =>
    refine ⟨table ▸ herase, fun o ho => ?_⟩
    rw [locals, mem_append] at ho
    rcases ho with ho | ho
    · exact hgone o ho
    · obtain ⟨p, -, rfl⟩ := mem_map.mp ho
      exact hne found
  | failed rid' req found table rest msgs =>
    exact ⟨table ▸ herase, fun o ho => hgone o (rest.locals ▸ ho)⟩
  | cancelled rid' peer found gone table locals cancels announcing nextRid msgs =>
    exact ⟨table ▸ haway, fun o ho => hgone o (locals ▸ ho)⟩

/-- A sender begins to wait for grants with the submission of the request only. -/
theorem listens (w : WriteStep s e out s') (h : Listens s' peer rid) :
    Listens s peer rid ∨ ∃ π n, .submitted π rid peer n ∈ out := by
  obtain ⟨req, hr, rfl⟩ := h
  have hsame : s'.mRequests = s.mRequests → Listens s req.peer rid := fun he => ⟨req, he ▸ hr, rfl⟩
  have herase : ∀ {rid'}, s'.mRequests = s.mRequests.erase rid' → Listens s req.peer rid := by
    intro rid' he
    rw [he, find?_erase] at hr
    split_ifs at hr
    exact ⟨req, hr, rfl⟩
  have hset : ∀ {rid' req₀ req'}, s.mRequests.find? rid' = some req₀ →
      s'.mRequests = s.mRequests.set rid' req' → req'.peer = req₀.peer →
        Listens s req.peer rid := by
    intro rid' req₀ req' hfound he hpeer
    rw [he, find?_set] at hr
    split_ifs at hr with hrid
    · obtain rfl := Option.some.inj hr
      exact ⟨req₀, hrid ▸ hfound, hpeer.symm⟩
    · exact ⟨req, hr, rfl⟩
  cases w with
  | idle table | refused table => exact .inl (hsame table)
  | announced _ _ _ _ _ table | cancelled _ _ _ _ table => exact .inl (hsame table)
  | left _ table => exact .inl (herase table)
  | deferred _ _ _ table | failed _ _ _ table => exact .inl (herase table)
  | moved rid' req₀ req' found peer writes credits table => exact .inl (hset found table peer)
  | sent rid' i req₀ p found at_i state table => exact .inl (hset found table rfl)
  | entered req₀ bytes n new wants shown table =>
    rw [table, find?_set] at hr
    split_ifs at hr with hrid
    · obtain rfl := Option.some.inj hr
      exact .inr ⟨_, n, hrid ▸ shown⟩
    · exact .inl ⟨req, hr, rfl⟩

/-! ### The credits -/

/-- The DATA for the region `h` of the peer among the messages. -/
def dataTo (peer : Bytes) (rid h : ℕ) (msgs : List (Bytes × BounceMsg)) : ℕ :=
  msgs.countP fun m => m.1 = peer ∧ isData rid h m.2

lemma liveCredits_congr (table : s'.mRequests = s.mRequests) (peer : Bytes) (rid h : ℕ) :
    s'.liveCredits peer rid h = s.liveCredits peer rid h := by
  rw [liveCredits, liveCredits, table]

lemma liveCredits_erase_le {rid' : ℕ} (table : s'.mRequests = s.mRequests.erase rid') (peer : Bytes)
    (rid h : ℕ) : s'.liveCredits peer rid h ≤ s.liveCredits peer rid h := by
  rw [liveCredits, liveCredits, table, find?_erase]
  by_cases he : rid = rid' <;> simp [he]

/-- The replacement of a request shows in the credits of that request only. -/
lemma liveCredits_set {rid' : ℕ} {req' : Request} (found : s.mRequests.find? rid' = some req)
    (table : s'.mRequests = s.mRequests.set rid' req') (hpeer : req'.peer = req.peer) {c : ℕ}
    (hc : rid = rid' → req.peer = peer → openCredits req' h ≤ openCredits req h + c) :
    s'.liveCredits peer rid h ≤ s.liveCredits peer rid h + c := by
  rw [liveCredits, liveCredits, table, find?_set]
  by_cases he : rid = rid'
  · subst he
    simp only [if_true, found, hpeer]
    split_ifs with hp
    · exact hc rfl hp
    · exact Nat.zero_le _
  · simp only [he, if_false]
    omega

/-- The writes in flight of a request are among its open credits. -/
lemma countP_orphansOf_le (hw : WritesOk req) (peer : Bytes) (rid' rid h : ℕ) :
    (orphansOf rid' req.posted).countP (fun o => o.rid = rid ∧ o.xfer = some ⟨peer, h⟩)
      ≤ if rid = rid' ∧ req.peer = peer then openCredits req h else 0 := by
  rw [orphansOf, countP_map, countP_filter]
  by_cases hc : rid = rid' ∧ req.peer = peer
  · rw [if_pos hc, openCredits]
    refine le_trans (countP_mono_left fun p hp hx => ?_) (Nat.le_add_left _ _)
    simp only [comp_apply, Bool.and_eq_true, decide_eq_true_iff] at hx
    obtain ⟨⟨-, hxfer⟩, hst⟩ := hx
    obtain ⟨hcr, hx⟩ := hw p hp hst
    obtain rfl : h = p.remoteHandle := congrArg Transfer.remoteHandle (hx _ hxfer)
    simp [writable, hcr, hst]
  · rw [if_neg hc, Nat.le_zero, countP_eq_zero]
    intro p hp hx
    simp only [comp_apply, Bool.and_eq_true, decide_eq_true_iff] at hx
    obtain ⟨⟨hrid, hxfer⟩, hst⟩ := hx
    exact hc ⟨hrid.symm, (congrArg Transfer.peer ((hw p hp hst).2 _ hxfer)).symm⟩

/-- The DATA of a chunk closes its credit. -/
lemma openCredits_sent {i : ℕ} {p : Posted} (hw : WritesOk req)
    (at_i : req.posted[i]? = some p) (state : p.state = .writing) (h : ℕ) :
    openCredits { req with posted := req.posted.set i { p with xfer := none, state := .sent } } h
        + (if p.remoteHandle = h then 1 else 0) = openCredits req h := by
  obtain ⟨l₁, l₂, hl, hset, -⟩ := exists_cut at_i
  have hcr := (hw p (hl ▸ by simp) state).1
  have h1 : writable h { p with xfer := none, state := .sent } = false := by simp [writable]
  have h2 : writable h p = decide (p.remoteHandle = h) := by simp [writable, hcr, state]
  simp only [openCredits]
  rw [hset, hl, countP_append, countP_append, countP_cons, countP_cons, h1, h2]
  simp only [Bool.false_eq_true, if_false, decide_eq_true_iff]
  omega

/-- **An event opens no credit but those of a GRANT**, and every DATA closes one. -/
theorem credits (w : WriteStep s e out s') (hs : WriterOk U s) {c : ℕ}
    (hc : Listens s peer rid → accepted e peer rid h ≤ c) :
    s'.liveCredits peer rid h + s'.orphanWrites peer rid h + dataTo peer rid h (toReceivers out)
      ≤ s.liveCredits peer rid h + s.orphanWrites peer rid h + c := by
  have hlocals : s'.mOrphanLocal = s.mOrphanLocal →
      s'.orphanWrites peer rid h = s.orphanWrites peer rid h := fun he => by
    rw [orphanWrites, orphanWrites, he]
  have hnil : toReceivers out = [] → dataTo peer rid h (toReceivers out) = 0 := fun he => by
    rw [he]
    rfl
  have hwant : ∀ {p r bytes endpoint}, toReceivers out = [(p, .want r bytes endpoint)] →
      dataTo peer rid h (toReceivers out) = 0 := fun he => by
    rw [he]
    simp [dataTo, isData]
  cases w with
  | idle table locals cancels announcing nextRid msgs =>
    have hle : s'.orphanWrites peer rid h ≤ s.orphanWrites peer rid h := locals.countP_le
    rw [liveCredits_congr table, hnil msgs]
    omega
  | refused table locals cancels announcing nextRid msgs =>
    rw [liveCredits_congr table, hlocals locals, hnil msgs]
    omega
  | entered req bytes n new wants shown table locals cancels announcing nextRid msgs =>
    have hopen : openCredits req h = 0 := by simp [openCredits, new]
    have hle : s'.liveCredits peer rid h ≤ s.liveCredits peer rid h := by
      rw [liveCredits, liveCredits, table, find?_set]
      by_cases he : rid = s.mNextRid
      · simp only [he, if_true, hopen, ite_self]
        exact Nat.zero_le _
      · simp [he]
    rw [hlocals locals, hnil msgs]
    omega
  | announced i rid' peer' bytes at_i table locals cancels announcing nextRid msgs =>
    rw [liveCredits_congr table, hlocals locals, hwant msgs]
    omega
  | moved rid' req req' found peer' writes credits table rest msgs =>
    have hok := (hs.table rid' req found).2
    have hle : s'.liveCredits peer rid h ≤ s.liveCredits peer rid h + c := by
      refine liveCredits_set found table peer' fun he hp => ?_
      subst he hp
      exact (credits hok h).trans (Nat.add_le_add_left (hc ⟨req, found, rfl⟩) _)
    rw [hlocals rest.locals, hnil (msgs hok)]
    omega
  | sent rid' i req p found at_i state table rest msgs =>
    have hok := (hs.table rid' req found).2
    have hsent := openCredits_sent hok at_i state h
    rw [hlocals rest.locals, msgs]
    simp only [dataTo, countP_singleton, isData, Bool.and_eq_true, decide_eq_true_iff]
    rw [liveCredits, liveCredits, table, find?_set]
    by_cases he : rid = rid'
    · subst he
      simp only [if_true, found, true_and]
      by_cases hp : req.peer = peer
      · subst hp
        simp only [if_true, true_and]
        omega
      · simp only [hp, if_false, false_and]
        omega
    · simp only [he, if_false, Ne.symm he, false_and, and_false]
      omega
  | left rid' table rest msgs =>
    have hle := liveCredits_erase_le table peer rid h
    rw [hlocals rest.locals, hnil msgs]
    omega
  | deferred rid' req found table locals cancels announcing nextRid msgs =>
    have hle := countP_orphansOf_le (hs.table rid' req found).2 peer rid' rid h
    rw [hnil msgs, orphanWrites, locals, countP_append]
    rw [liveCredits, table, find?_erase]
    by_cases he : rid = rid'
    · subst he
      simp only [true_and, if_true] at hle ⊢
      rw [liveCredits, found]
      simp only [orphanWrites] at hle ⊢
      omega
    · simp only [he, false_and, if_false] at hle ⊢
      rw [liveCredits, orphanWrites]
      omega
  | failed rid' req found table rest msgs =>
    have hle := liveCredits_erase_le table peer rid h
    rw [hlocals rest.locals, hwant msgs]
    omega
  | cancelled rid' peer' found gone table locals cancels announcing nextRid msgs =>
    rw [liveCredits_congr table, hlocals locals, hwant msgs]
    omega

end WriteStep

end TrtLlm.BounceSender
