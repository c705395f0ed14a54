import TrtLlm.Bounce.ChunkPaths

/-!
When the promise of a request is resolved.

* `Completion`: what holds of the outputs and the table;
* `step_completion`: every event keeps it;
* `sender_exactly_once`: **success is reported only after every chunk has gone its path**,
  no chunk is counted twice, and a request that left the table has its promise resolved
  exactly once.
-/

namespace TrtLlm.BounceSender

open CreditScheduler List Option Nat UMap

variable {o out : List SenderOutput} {req req' : Request} {rid : ℕ} {s s' : BounceSender}

/-! ### The table -/

/-- The promise of a request that left the table is resolved once, and with success only after
every chunk has gone its path. -/
structure Ended (out : List SenderOutput) (s : BounceSender) (π rid : ℕ) (peer : Bytes) (n : ℕ) :
    Prop where
  gone : ∀ r req, s.mRequests.find? r = some req → req.promise ≠ π
  resolved : out.countP (resolves π) = 1
  success : .resolved π .success ∈ out → ∀ i < n, ∃ addr h, Passed out π rid peer n i 6 addr h

/-- The request that a `submitted` output stands for. -/
structure Names (req : Request) (π : ℕ) (peer : Bytes) (n : ℕ) : Prop where
  promise : req.promise = π
  peer : req.peer = peer
  numChunks : req.numChunks = n

/-- What holds of the outputs of a run and of the table. -/
structure Completion (out : List SenderOutput) (s : BounceSender) : Prop where
  made : ∀ x ∈ out, ∀ π, mark x = some π → π < s.promises
  live : ∀ rid req, s.mRequests.find? rid = some req → ReqOk out rid req
  unique : ∀ rid req rid' req', s.mRequests.find? rid = some req →
    s.mRequests.find? rid' = some req' → req.promise = req'.promise → rid = rid'
  once : ∀ π i, out.countP (acksAt π i) ≤ 1
  entered : ∀ π rid peer n, .submitted π rid peer n ∈ out →
    (∃ req, s.mRequests.find? rid = some req ∧ Names req π peer n) ∨ Ended out s π rid peer n

section Completion

variable {out o : List SenderOutput} {s s' : BounceSender} {rid : ℕ} {req req' : Request}

/-- Outputs about the promise `π` leave the requests of other promises as they were. -/
lemma Ended.mono {π π' : ℕ} {rid n : ℕ} {peer : Bytes} (h : Ended out s π rid peer n)
    (hgone : ∀ r req, s'.mRequests.find? r = some req → req.promise ≠ π)
    (ho : ∀ x ∈ o, ∀ π₁, mark x = some π₁ → π₁ = π') (hne : π ≠ π') :
    Ended (out ++ o) s' π rid peer n := by
  have hmark : ∀ x ∈ o, mark x ≠ some π := fun x hx hm => hne (ho x hx π hm)
  refine ⟨hgone, ?_, fun hs i hi => ?_⟩
  · rw [countP_append_of_mark (fun x => resolves_mark) hmark]
    exact h.resolved
  · rcases mem_append.mp hs with hs | hs
    · obtain ⟨addr, hd, hp⟩ := h.success hs i hi
      exact ⟨addr, hd, hp.mono⟩
    · exact absurd rfl (hmark _ hs)

variable (h : Completion out s)
include h

/-- The outputs are about one request of the table, which the step replaces or removes. -/
lemma Completion.change (hr : s.mRequests.find? rid = some req) (new : Option Request)
    (ht : ∀ r, s'.mRequests.find? r = if r = rid then new else s.mRequests.find? r)
    (hprom : s'.promises = s.promises)
    (ho : ∀ x ∈ o, ∀ π, mark x = some π → π = req.promise)
    (hns : ∀ π r peer n, .submitted π r peer n ∉ o)
    (honce : ∀ i, (out ++ o).countP (acksAt req.promise i) ≤ 1)
    (hnew : ∀ req', new = some req' →
      Names req' req.promise req.peer req.numChunks ∧ ReqOk (out ++ o) rid req')
    (hend : new = none → Ended (out ++ o) s' req.promise rid req.peer req.numChunks) :
    Completion (out ++ o) s' := by
  have hother : ∀ r q, r ≠ rid → s.mRequests.find? r = some q → q.promise ≠ req.promise :=
    fun r q hne hq he => hne (h.unique r q rid req hq hr he)
  have hfind : ∀ r q, s'.mRequests.find? r = some q →
      (r = rid ∧ new = some q) ∨ (r ≠ rid ∧ s.mRequests.find? r = some q) := by
    intro r q hq
    rw [ht] at hq
    split_ifs at hq with hrr
    · exact .inl ⟨hrr, hq⟩
    · exact .inr ⟨hrr, hq⟩
  have hprom' : ∀ r q, s'.mRequests.find? r = some q →
      ∃ q₀, s.mRequests.find? r = some q₀ ∧ q₀.promise = q.promise := by
    intro r q hq
    rcases hfind r q hq with ⟨rfl, hq⟩ | ⟨-, hq⟩
    · exact ⟨req, hr, (hnew q hq).1.promise.symm⟩
    · exact ⟨q, hq, rfl⟩
  have hlt : req.promise < s.promises := h.made _ (h.live rid req hr).submitted _ rfl
  refine ⟨fun x hx π hm => ?_, fun r q hq => ?_, fun r q r' q' hq hq' he => ?_, fun π i => ?_,
    fun π r peer n hs => ?_⟩
  · rw [hprom]
    rcases mem_append.mp hx with hx | hx
    · exact h.made x hx π hm
    · exact ho x hx π hm ▸ hlt
  · rcases hfind r q hq with ⟨rfl, hq⟩ | ⟨hne, hq⟩
    · exact (hnew q hq).2
    · exact (h.live r q hq).mono fun x hx hm => hother r q hne hq (ho x hx _ hm)
  · obtain ⟨p, hp, hpe⟩ := hprom' r q hq
    obtain ⟨p', hp', hpe'⟩ := hprom' r' q' hq'
    exact h.unique r p r' p' hp hp' (by rw [hpe, hpe', he])
  · by_cases hπ : π = req.promise
    · exact hπ ▸ honce i
    · rw [countP_append_of_mark (fun x hx => acks_mark (acksAt_acks hx))
        (fun x hx hm => hπ (ho x hx π hm))]
      exact h.once π i
  · rcases mem_append.mp hs with hs | hs
    · rcases h.entered π r peer n hs with ⟨q, hq, hnames⟩ | hended
      · by_cases hrr : r = rid
        · subst hrr
          obtain rfl : q = req := some_inj.mp (hq ▸ hr)
          obtain ⟨rfl, rfl, rfl⟩ := hnames
          cases hcase : new with
          | none => exact .inr (hend hcase)
          | some q' => exact .inl ⟨q', by rw [ht, if_pos rfl, hcase], (hnew q' hcase).1⟩
        · exact .inl ⟨q, by rw [ht, if_neg hrr]; exact hq, hnames⟩
      · have hne : π ≠ req.promise := fun he => hended.gone rid req hr he.symm
        refine .inr (hended.mono (fun r' q' hq' he => ?_) ho hne)
        obtain ⟨p, hp, hpe⟩ := hprom' r' q' hq'
        exact hended.gone r' p hp (hpe.trans he)
    · exact absurd hs (hns π r peer n)

/-- The request is replaced. -/
lemma Completion.update (hr : s.mRequests.find? rid = some req)
    (ht : ∀ r, s'.mRequests.find? r = if r = rid then some req' else s.mRequests.find? r)
    (hprom : s'.promises = s.promises) (ho : ∀ x ∈ o, mark x = none)
    (hnames : Names req' req.promise req.peer req.numChunks)
    (hok : ReqOk (out ++ o) rid req') : Completion (out ++ o) s' := by
  refine h.change hr (some req') ht hprom
    (fun x hx π hm => by simp [ho x hx] at hm)
    (fun π r peer n hs => by simpa [mark] using ho _ hs) (fun i => ?_)
    (fun q hq => some_inj.mp hq ▸ ⟨hnames, hok⟩) (fun hn => by cases hn)
  rw [countP_append_of_mark (fun x hx => acks_mark (acksAt_acks hx))
    (fun x hx hm => by simp [ho x hx] at hm)]
  exact h.once _ i

/-- Nothing happens to the table. -/
lemma Completion.same (ht : s'.mRequests = s.mRequests)
    (hprom : s'.promises = s.promises) (ho : ∀ x ∈ o, mark x = none) :
    Completion (out ++ o) s' := by
  have hcount : ∀ {f : SenderOutput → Bool} {π : ℕ}, (∀ x, f x = true → mark x = some π) →
      (out ++ o).countP f = out.countP f := fun hf =>
    countP_append_of_mark hf (fun x hx hm => by simp [ho x hx] at hm) out
  refine ⟨fun x hx π hm => ?_, fun r q hq => ?_, ?_, fun π i => ?_, fun π r peer n hs => ?_⟩
  · rw [hprom]
    rcases mem_append.mp hx with hx | hx
    · exact h.made x hx π hm
    · simp [ho x hx] at hm
  · exact (h.live r q (ht ▸ hq)).mono fun x hx => by simp [ho x hx]
  · rw [ht]
    exact h.unique
  · rw [hcount fun x hx => acks_mark (acksAt_acks hx)]
    exact h.once π i
  · rcases mem_append.mp hs with hs | hs
    · rw [ht]
      refine (h.entered π r peer n hs).imp_right fun hend =>
        ⟨ht ▸ hend.gone, ?_, fun hsucc i hi => ?_⟩
      · rw [hcount fun x => resolves_mark]
        exact hend.resolved
      · rcases mem_append.mp hsucc with hsucc | hsucc
        · obtain ⟨addr, hd, hp⟩ := hend.success hsucc i hi
          exact ⟨addr, hd, hp.mono⟩
        · simpa [mark] using ho _ hsucc
    · simpa [mark] using ho _ hs

/-- A promise is resolved at once, or dropped, and no request enters the table. -/
lemma Completion.promise (ht : s'.mRequests = s.mRequests) (hprom : s'.promises = s.promises + 1)
    (ho : ∀ x ∈ o, mark x = none ∨ ∃ r, x = .resolved s.promises r) :
    Completion (out ++ o) s' := by
  have hmark : ∀ x ∈ o, ∀ π, mark x = some π → π = s.promises := by
    intro x hx π hm
    rcases ho x hx with hn | ⟨r, rfl⟩
    · simp [hn] at hm
    · exact (some_inj.mp hm).symm
  have hlive : ∀ r q, s.mRequests.find? r = some q → q.promise < s.promises :=
    fun r q hq => h.made _ (h.live r q hq).submitted _ rfl
  have hacks : ∀ π i, (out ++ o).countP (acksAt π i) = out.countP (acksAt π i) := by
    intro π i
    have hz : o.countP (acksAt π i) = 0 := by
      refine countP_eq_zero.mpr fun x hx hf => ?_
      rcases ho x hx with hn | ⟨r, rfl⟩
      · simp [acks_mark (acksAt_acks hf)] at hn
      · simp [acksAt] at hf
    rw [countP_append, hz, Nat.add_zero]
  refine ⟨fun x hx π hm => ?_, fun r q hq => ?_, ?_, fun π i => ?_, fun π r peer n hs => ?_⟩
  · rw [hprom]
    rcases mem_append.mp hx with hx | hx
    · exact lt_succ_of_lt (h.made x hx π hm)
    · exact hmark x hx π hm ▸ lt_succ_self _
  · rw [ht] at hq
    exact (h.live r q hq).mono fun x hx hm => (hlive r q hq).ne (hmark x hx _ hm)
  · rw [ht]
    exact h.unique
  · rw [hacks]
    exact h.once π i
  · rcases mem_append.mp hs with hs | hs
    · have hne : π ≠ s.promises := (h.made _ hs π rfl).ne
      refine (h.entered π r peer n hs).imp (fun hl => ht ▸ hl) fun hend => ?_
      exact hend.mono (ht ▸ hend.gone) hmark hne
    · rcases ho _ hs with hn | ⟨r, hr⟩
      · simp [mark] at hn
      · cases hr

/-- A request enters the table. -/
lemma Completion.enter {peer : Bytes} {n : ℕ} (hfresh : rid ∉ s.mRequests)
    (hnames : Names req s.promises peer n) (hnew : req.posted = [] ∧ req.pendingCredits = []
      ∧ req.nextPost = 0 ∧ req.acked = 0)
    (ht : s'.mRequests = s.mRequests.set rid req) (hprom : s'.promises = s.promises + 1) :
    Completion (out ++ [.submitted s.promises rid peer n]) s' := by
  obtain ⟨hπ, hpeer, hn⟩ := hnames
  obtain ⟨hposted, hparked, hpost, hacked⟩ := hnew
  have hlive : ∀ r q, s.mRequests.find? r = some q → q.promise < s.promises :=
    fun r q hq => h.made _ (h.live r q hq).submitted _ rfl
  have hmark : ∀ x ∈ [SenderOutput.submitted s.promises rid peer n], ∀ π, mark x = some π →
      π = s.promises := by
    intro x hx π hm
    obtain rfl := mem_singleton.mp hx
    exact (some_inj.mp hm).symm
  have hcount : ∀ f : SenderOutput → Bool, f (.submitted s.promises rid peer n) = false →
      (out ++ [SenderOutput.submitted s.promises rid peer n]).countP f = out.countP f := by
    intro f hf
    simp [countP_append, hf]
  have hzero : ∀ {f : SenderOutput → Bool}, (∀ x, f x = true → mark x = some s.promises) →
      out.countP f = 0 := fun hf =>
    countP_eq_zero.mpr fun x hx hfx => (h.made x hx _ (hf x hfx)).ne rfl
  have hfind : ∀ r q, s'.mRequests.find? r = some q →
      (r = rid ∧ q = req) ∨ (r ≠ rid ∧ s.mRequests.find? r = some q) := by
    intro r q hq
    rw [ht, find?_set] at hq
    split_ifs at hq with hrr
    · exact .inl ⟨hrr, (some_inj.mp hq).symm⟩
    · exact .inr ⟨hrr, hq⟩
  refine ⟨fun x hx π hm => ?_, fun r q hq => ?_, fun r q r' q' hq hq' he => ?_, fun π i => ?_,
    fun π r peer' n' hs => ?_⟩
  · rw [hprom]
    rcases mem_append.mp hx with hx | hx
    · exact lt_succ_of_lt (h.made x hx π hm)
    · exact hmark x hx π hm ▸ lt_succ_self _
  · rcases hfind r q hq with ⟨rfl, rfl⟩ | ⟨-, hq⟩
    · refine ⟨by simp [hπ, hpeer, hn], ?_, ?_, by simp [hposted, hpost, hacked], by simp [hpost],
        by simp [hposted], by simp [hposted], by simp [hposted], fun i _ => ?_, by simp [hpost],
        by simp [hparked], by simp [hposted], by simp [hposted]⟩
      · rw [hcount (resolves _) rfl, hπ, hzero fun x => resolves_mark]
      · rw [hcount (acks _) rfl, hπ, hzero fun x => acks_mark, hacked]
      · rw [hcount (acksAt _ _) rfl, hπ, hzero fun x hx => acks_mark (acksAt_acks hx)]
    · exact (h.live r q hq).mono fun x hx hm => (hlive r q hq).ne (hmark x hx _ hm)
  · rcases hfind r q hq with ⟨rfl, rfl⟩ | ⟨-, hq⟩
    · rcases hfind r' q' hq' with ⟨rfl, rfl⟩ | ⟨-, hq'⟩
      · rfl
      · exact absurd (he.symm.trans hπ) (hlive r' q' hq').ne
    · rcases hfind r' q' hq' with ⟨rfl, rfl⟩ | ⟨-, hq'⟩
      · exact absurd (he.trans hπ) (hlive r q hq).ne
      · exact h.unique r q r' q' hq hq' he
  · rw [hcount (acksAt _ _) rfl]
    exact h.once π i
  · rcases mem_append.mp hs with hs | hs
    · have hne : π ≠ s.promises := (h.made _ hs π rfl).ne
      rcases h.entered π r peer' n' hs with ⟨q, hq, hq'⟩ | hend
      · have hrr : r ≠ rid := fun he => hfresh (he ▸ mem_of_find? hq)
        exact .inl ⟨q, by rw [ht, find?_set, if_neg hrr]; exact hq, hq'⟩
      · refine .inr (hend.mono (fun r' q' hq' he => ?_) hmark hne)
        rcases hfind r' q' hq' with ⟨rfl, rfl⟩ | ⟨-, hq'⟩
        · exact hne (he.symm.trans hπ)
        · exact hend.gone r' q' hq' he
    · obtain ⟨rfl, rfl, rfl, rfl⟩ : π = s.promises ∧ r = rid ∧ peer' = peer ∧ n' = n := by
        simpa using hs
      exact .inl ⟨req, by rw [ht, find?_set, if_pos rfl], hπ, hpeer, hn⟩

end Completion

/-! ### Events -/

section Events

variable {out o : List SenderOutput} {s s' : BounceSender} {rid : ℕ} {req req' : Request}

variable {p : Posted}

/-- A sent chunk is acknowledged. -/
lemma ReqOk.acknowledge (h : ReqOk out rid req) {l₁ l₂ : List Posted}
    (hl : req.posted = l₁ ++ p :: l₂) (hst : p.state = .sent)
    (t : ℤ) :
    ReqOk (out ++ [SenderOutput.acked req.promise p.chunkIdx p.remoteHandle req.peer]) rid
      { req with posted := l₁ ++ l₂, acked := req.acked + 1, lastProgress := t } := by
  have hpm : p ∈ req.posted := by simp [hl]
  have hsub : ∀ q ∈ l₁ ++ l₂, q ∈ req.posted := by
    intro q hq
    rw [hl]
    simp only [mem_append, mem_cons] at hq ⊢
    tauto
  have hperm : (req.posted.map Posted.chunkIdx).Perm
      (p.chunkIdx :: (l₁ ++ l₂).map Posted.chunkIdx) := by
    rw [hl, ← map_cons]
    exact perm_middle.map _
  have hnodup := nodup_cons.mp (hperm.nodup_iff.mp h.nodup)
  have hpass := h.credited p hpm (h.writing p hpm (.inr hst))
  simp only [station, hst] at hpass
  have hat : ∀ i, i ≠ p.chunkIdx → out.countP (acksAt req.promise i) = 0 →
      (out ++ [SenderOutput.acked req.promise p.chunkIdx p.remoteHandle req.peer]).countP
        (acksAt req.promise i) = 0 := by
    intro i hi hz
    simp [countP_append, hz, acksAt, hi.symm]
  refine ⟨mem_append_left _ h.submitted, ?_, ?_, ?_, h.post_le, hnodup.2,
    fun q hq => h.posted_lt q (hsub q hq), fun q hq => ?_, fun i hi => ?_, fun i hi => ?_,
    fun c hc => ?_, fun q hq hc => (h.credited q (hsub q hq) hc).mono,
    fun q hq => h.writing q (hsub q hq)⟩
  · simp [countP_append, h.unresolved, resolves]
  · simp [countP_append, h.counted, acks]
  · have := h.posted_len
    simp only [hl, length_append, length_cons] at this ⊢
    omega
  · refine hat _ (fun he => hnodup.1 ?_) (h.fresh q (hsub q hq))
    exact he ▸ List.mem_map_of_mem hq
  · exact hat i (fun he => (h.posted_lt p hpm).not_ge (he ▸ hi)) (h.fresh_ge i hi)
  · rcases h.done i hi with hin | ⟨addr, hd, hp⟩
    · rcases mem_cons.mp (hperm.mem_iff.mp hin) with rfl | hin
      · exact .inr ⟨_, _, hpass.acked (by simp)⟩
      · exact .inl hin
    · exact .inr ⟨addr, hd, hp.mono⟩
  · obtain ⟨cs, hcs, hm⟩ := h.parked c hc
    exact ⟨cs, hcs, mem_append_left _ hm⟩

/-- The count of a chunk's ACKs stays at most one. -/
lemma Completion.once_acked (h : Completion out s)
    (hr : s.mRequests.find? rid = some req) (hp : p ∈ req.posted) (hd : ℕ) (peer : Bytes) (i : ℕ) :
    (out ++ [SenderOutput.acked req.promise p.chunkIdx hd peer]).countP
      (acksAt req.promise i) ≤ 1 := by
  by_cases hi : i = p.chunkIdx
  · subst hi
    simp [countP_append, (h.live rid req hr).fresh p hp, acksAt]
  · have := h.once req.promise i
    simpa [countP_append, acksAt, Ne.symm hi] using this

/-- A posted chunk takes a step of its own. -/
lemma ReqOk.setPosted (h : ReqOk out rid req) {i : ℕ} {q : Posted} (hp : req.posted[i]? = some p)
    (hidx : q.chunkIdx = p.chunkIdx) (t : ℤ)
    (hcr : q.hasCredit = true → Passed out req.promise rid req.peer req.numChunks q.chunkIdx
      (station q) q.remoteAddr q.remoteHandle)
    (hw : q.state = .writing ∨ q.state = .sent → q.hasCredit = true) :
    ReqOk out rid { req with posted := req.posted.set i q, lastProgress := t } := by
  obtain ⟨l₁, l₂, hl, hset, -⟩ := exists_cut hp
  rw [hset q]
  exact (h.replace hl hidx hcr hw).fewer (Subset.refl _) _ _ _

/-- **What an event does to a request of the table keeps it.** -/
lemma ReqOk.move (h : ReqOk out rid req) (m : ReqMove s rid req o req') :
    ReqOk (out ++ o) rid req' := by
  have hpass : ∀ {i p}, req.posted[i]? = some p → p.hasCredit = true → Passed out req.promise rid
      req.peer req.numChunks p.chunkIdx (station p) p.remoteAddr p.remoteHandle :=
    fun hp => h.credited _ (mem_of_getElem? hp)
  cases m with
  | pump run => exact run.invariant (P := fun out _ req => ReqOk out rid req) ReqOk.pump h
  | @grant o s' _ credits run =>
    rw [append_cons]
    refine run.invariant (P := fun out _ req => ReqOk out rid req) ReqOk.pump ?_
    have hok := h.mono (o := [.credited req.promise credits]) (by simp [mark])
    refine ⟨hok.submitted, hok.unresolved, hok.counted, hok.posted_len, hok.post_le, hok.nodup,
      hok.posted_lt, hok.fresh, hok.fresh_ge, hok.done, fun c hc => ?_, hok.credited, hok.writing⟩
    rcases mem_append.mp hc with hc | hc
    · exact hok.parked c hc
    · exact ⟨credits, hc, by simp⟩
  | gathered hp hs hc =>
    rw [append_nil]
    refine h.setPosted hp (by rfl) req.lastProgress (fun hcr => ?_) (by simp)
    have := hpass hp hcr
    simpa [station, hs] using this
  | @wrote i p xfer hp hs hcr =>
    refine (h.mono (by simp [mark])).setPosted hp (by rfl) s.now (fun _ => ?_) (fun _ => hcr)
    have hone := hpass hp hcr
    simp only [station, hs] at hone
    exact hone.wrote (mem_singleton.mpr rfl)
  | @sent i p hp hs =>
    have hcr := h.writing p (mem_of_getElem? hp) (.inl hs)
    refine (h.mono (by simp [mark])).setPosted hp (by rfl) req.lastProgress (fun _ => ?_)
      (fun _ => hcr)
    have htwo := hpass hp hcr
    simp only [station, hs] at htwo
    exact htwo.sent (Sublist.refl _)
  | @acked i p o hp hs _ hquiet =>
    obtain ⟨l₁, l₂, hl, -, herase⟩ := exists_cut hp
    rw [herase, ← append_assoc]
    exact (h.mono fun x hx => by simp [mark_of_owner (hquiet x hx)]).acknowledge hl hs s.now

/-- What is shown of a request that stays: no promise is resolved, and one ACK is counted at
most. -/
lemma ReqMove.marks (m : ReqMove s rid req o req') : (∀ x ∈ o, mark x = none)
    ∨ ∃ q, ∃ p ∈ req.posted, (∀ x ∈ q, mark x = none)
      ∧ o = q ++ [.acked req.promise p.chunkIdx p.remoteHandle req.peer] := by
  cases m with
  | pump run => exact .inl run.mark
  | grant credits run =>
    refine .inl fun x hx => ?_
    rcases mem_cons.mp hx with rfl | hx
    · rfl
    · exact run.mark x hx
  | gathered | wrote | sent => exact .inl (by simp [mark])
  | acked hp _ _ hquiet =>
    exact .inr ⟨_, _, mem_of_getElem? hp, fun x hx => mark_of_owner (hquiet x hx), rfl⟩

lemma ReqMove.names (m : ReqMove s rid req o req') :
    Names req' req.promise req.peer req.numChunks := by
  cases m with
  | pump run => exact ⟨run.request.promise, run.request.peer, run.request.numChunks⟩
  | grant _ run => exact ⟨run.request.promise, run.request.peer, run.request.numChunks⟩
  | gathered | wrote | sent | acked => exact ⟨rfl, rfl, rfl⟩

variable (h : Completion out s) (hr : s.mRequests.find? rid = some req)
include h hr

/-- A request that stays in the table keeps the outputs and the table. -/
lemma Completion.moved (m : ReqMove s rid req o req') (ht : s'.mRequests = s.mRequests.set rid req')
    (hprom : s'.promises = s.promises) : Completion (out ++ o) s' := by
  have hfind : ∀ r, s'.mRequests.find? r = if r = rid then some req' else s.mRequests.find? r :=
    fun r => by rw [ht, find?_set]
  have hok := (h.live rid req hr).move m
  rcases m.marks with ho | ⟨q, p, hp, hq, rfl⟩
  · exact h.update hr hfind hprom ho m.names hok
  · have hrel : Completion (out ++ q) s := h.same rfl rfl hq
    rw [← append_assoc] at hok ⊢
    refine hrel.change hr (some req') hfind hprom (by simp [mark]) (by simp)
      (hrel.once_acked hr hp _ _) (fun r hr' => ?_) (fun hn => by cases hn)
    obtain rfl := some_inj.mp hr'
    exact ⟨m.names, hok⟩

/-- A request that leaves the table has its promise resolved. -/
lemma Completion.left (hl : Leaves req o) (ht : s'.mRequests = s.mRequests.erase rid)
    (hprom : s'.promises = s.promises) : Completion (out ++ o) s' := by
  have hfind : ∀ r, s'.mRequests.find? r = if r = rid then none else s.mRequests.find? r :=
    fun r => by rw [ht, find?_erase]
  have hgone : ∀ r q, s'.mRequests.find? r = some q → q.promise ≠ req.promise := by
    intro r q hq he
    rw [hfind] at hq
    split_ifs at hq with hrr
    exact hrr (h.unique r q rid req hq hr he)
  cases hl with
  | @failed q r hquiet =>
    have hrel : Completion (out ++ q) s := h.same rfl rfl fun x hx => mark_of_owner (hquiet x hx)
    have hopen := (hrel.live rid req hr).unresolved
    rw [← append_assoc]
    refine hrel.change hr none hfind hprom (by simp [mark]) (by simp) (fun i => ?_)
      (fun q hq => by cases hq) (fun _ => ⟨hgone, ?_, fun hs => ?_⟩)
    · have := hrel.once req.promise i
      simpa [countP_append, acksAt] using this
    · rw [countP_append, hopen]
      simp [resolves]
    · have hin : SenderOutput.resolved req.promise .success ∈ out ++ q := by simpa using hs
      exact absurd hopen (countP_pos_iff.mpr ⟨_, hin, by simp [resolves]⟩).ne'
  | @complete i p q hp hst hdone hquiet =>
    have hrel : Completion (out ++ q) s := h.same rfl rfl fun x hx => mark_of_owner (hquiet x hx)
    have hok := hrel.live rid req hr
    obtain ⟨l₁, l₂, hl, -, -⟩ := exists_cut hp
    have hnext := hok.acknowledge hl hst req.lastProgress
    -- the posted chunks and the counter add up to `nextPost`, so this was the last chunk
    have hlen : req.acked + (l₁ ++ p :: l₂).length = req.nextPost := hl ▸ hok.posted_len
    have hle := hok.post_le
    simp only [length_append, length_cons] at hlen
    have hnil : l₁ ++ l₂ = [] := eq_nil_of_length_eq_zero (by rw [length_append]; omega)
    have hall : req.nextPost = req.numChunks := by omega
    rw [← append_assoc]
    refine hrel.change hr none hfind hprom (by simp [mark]) (by simp) (fun j => ?_)
      (fun q hq => by cases hq) (fun _ => ⟨hgone, ?_, fun _ j hj => ?_⟩)
    · have := hrel.once_acked hr (mem_of_getElem? hp) p.remoteHandle req.peer j
      simpa [countP_append, countP_cons, acksAt] using this
    · rw [countP_append, hok.unresolved]
      simp [resolves]
    · obtain ⟨addr, hd, hpass⟩ := (hnext.done j (hall ▸ hj)).resolve_left (by simp [hnil])
      refine ⟨addr, hd, ?_⟩
      rw [append_cons]
      exact hpass.resolved (mem_singleton.mpr rfl)

end Events

/-- **Every event keeps the outputs and the table.** -/
theorem step_completion {out : List SenderOutput} {s : BounceSender} (e : Event)
    (h : Completion out s) : Completion (out ++ (step s e).1) (step s e).2 := by
  cases step_table s e with
  | same ht hprom hquiet => exact h.same ht hprom fun x hx => mark_of_owner (hquiet x hx)
  | refused ht hprom hquiet => exact h.promise ht hprom fun x hx => .inr (hquiet x hx)
  | entered rid peer plan t _ _ hfresh _ ht hprom hshown =>
    rw [hshown]
    exact h.enter hfresh ⟨rfl, rfl, rfl⟩ ⟨rfl, rfl, rfl, rfl⟩ ht hprom
  | moved rid req req' hr m ht hprom => exact h.moved hr m ht hprom
  | left rid req hr hl ht hprom => exact h.left hr hl ht hprom

/-- A new sender has no requests. -/
lemma ctor_completion (cfg : BounceConfig) (deviceId : ℕ) (endpoint : Bytes)
    (scheduler : CreditScheduler) (exec : ExecPool) :
    Completion [] (ctor cfg deviceId endpoint scheduler exec) :=
  ⟨by simp, by simp [ctor], by simp [ctor], by simp, by simp⟩

/-- **Exactly-once completion.**  In every run of the sender, over arbitrary messages and
failures: a promise of a request is resolved with success only after every chunk of the request
has gone its path in order (a credit arrived, its write was posted into the region of that
credit and seen to land, DATA was sent, and the peer of the request acknowledged chunk and
region); no chunk is counted twice, and `acked` counts these acknowledgements; the promise of a
request of the table is unresolved, and that of a request that left it is resolved once. -/
theorem sender_exactly_once (cfg : BounceConfig) (deviceId : ℕ) (endpoint : Bytes)
    (scheduler : CreditScheduler) (exec : ExecPool) (es : List Event) :
    let out := (Machine.run step (ctor cfg deviceId endpoint scheduler exec) es).1
    let s := (Machine.run step (ctor cfg deviceId endpoint scheduler exec) es).2
    (∀ π rid peer n, .submitted π rid peer n ∈ out → .resolved π .success ∈ out →
      ∀ i < n, ∃ cs c bytes runs, c ∈ cs ∧ (path π rid peer n i cs c bytes runs).Sublist out)
    ∧ (∀ π i, out.countP (acksAt π i) ≤ 1)
    ∧ (∀ rid req, s.mRequests.find? rid = some req →
        req.acked = out.countP (acks req.promise) ∧ out.countP (resolves req.promise) = 0)
    ∧ (∀ π rid peer n, .submitted π rid peer n ∈ out →
        (∀ req, s.mRequests.find? rid = some req → req.promise ≠ π) →
        out.countP (resolves π) = 1) := by
  intro out s
  have h : Completion out s :=
    Machine.run_induction (ctor_completion cfg deviceId endpoint scheduler exec)
      (fun out s e h => step_completion e h) es
  refine ⟨fun π rid peer n hsub hsucc i hi => ?_, h.once, fun rid req hr => ?_,
    fun π rid peer n hsub hgone => ?_⟩
  · rcases h.entered π rid peer n hsub with ⟨req, hr, rfl, -, -⟩ | hend
    · have hz := (h.live rid req hr).unresolved
      exact absurd hz (countP_pos_iff.mpr ⟨_, hsucc, by simp [resolves]⟩).ne'
    · obtain ⟨addr, hd, cs, c, bytes, runs, hc, -, -, hs⟩ := hend.success hsucc i hi
      exact ⟨cs, c, bytes, runs, hc, hs⟩
  · exact ⟨(h.live rid req hr).counted.symm, (h.live rid req hr).unresolved⟩
  · rcases h.entered π rid peer n hsub with ⟨req, hr, hn⟩ | hend
    · exact absurd hn.promise (hgone req hr)
    · exact hend.resolved

end TrtLlm.BounceSender
