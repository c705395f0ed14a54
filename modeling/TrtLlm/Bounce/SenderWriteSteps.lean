import TrtLlm.Bounce.SenderMoves

/-!
What the events of a sender do to its writes.

A credit of a request is open from its GRANT until the DATA of the chunk that took it is sent.
A request that fails leaves its writes in flight behind in `mOrphanLocal`, and its cancel waits
in `mPendingCancel` until they are gone.

* `openCredits`, `orphanWrites`: the open credits for a region of a peer;
* `WriteStep`, `step_writes`: **what an event does to the tables** that these live in, and what it
  tells a receiver.
-/

namespace TrtLlm

open List Function UMap

namespace BounceSender

open CreditScheduler

/-! ### Open credits -/

/-- The chunk has a credit for the region `h`, and its DATA is not sent. -/
def writable (h : ℕ) (p : Posted) : Bool :=
  p.hasCredit && (p.state ≠ .sent && p.remoteHandle = h)

/-- The open credits of a request for the region `h`. -/
def openCredits (req : Request) (h : ℕ) : ℕ :=
  (req.pendingCredits.countP fun c => c.regionHandle = h) + req.posted.countP (writable h)

section

variable (s : BounceSender) (peer : Bytes)

/-- The open credits of the request `rid`, if it goes to the peer. -/
def liveCredits (rid h : ℕ) : ℕ :=
  match s.mRequests.find? rid with
  | none => 0
  | some req => if req.peer = peer then openCredits req h else 0

/-- The writes of the failed request `rid` into the region `h` of the peer. -/
def orphanWrites (rid h : ℕ) : ℕ :=
  s.mOrphanLocal.countP fun o => o.rid = rid ∧ o.xfer = some ⟨peer, h⟩

/-- The sender waits for grants of the peer for `rid`. -/
def Listens (rid : ℕ) : Prop :=
  ∃ req, s.mRequests.find? rid = some req ∧ req.peer = peer

end

/-- The request has left the table, and so have its writes. -/
def Closed (s : BounceSender) (rid : ℕ) : Prop :=
  rid ∉ s.mRequests ∧ ∀ o ∈ s.mOrphanLocal, o.rid ≠ rid

/-- A write in flight is one of the request's own credits. -/
def WritesOk (req : Request) : Prop :=
  ∀ p ∈ req.posted, p.state = .writing →
    p.hasCredit = true ∧ ∀ x, p.xfer = some x → x = ⟨req.peer, p.remoteHandle⟩

/-- The messages for receivers among the outputs. -/
def toReceivers (out : List SenderOutput) : List (Bytes × BounceMsg) :=
  out.filterMap fun
    | .send peer (.want rid chunkBytes endpoint) => some (peer, .want rid chunkBytes endpoint)
    | .send peer (.data rid k n h runs) => some (peer, .data rid k n h runs)
    | _ => none

/-- The message is the DATA of the region `h`. -/
def isData (rid h : ℕ) : BounceMsg → Bool
  | .data r _ _ h' _ => r = rid && h' = h
  | _ => false

/-- The credits that an event brings for the request. -/
def accepted (e : Event) (peer : Bytes) (rid h : ℕ) : ℕ :=
  match e with
  | .grant _ p r credits =>
    if p = peer ∧ r = rid then credits.countP fun c => c.regionHandle = h else 0
  | _ => 0

variable {o : List SenderOutput} {req req' : Request} {s s' : BounceSender}

@[simp] lemma toReceivers_nil : toReceivers [] = [] := rfl

@[simp] lemma toReceivers_append (o o' : List SenderOutput) :
    toReceivers (o ++ o') = toReceivers o ++ toReceivers o' := filterMap_append

lemma toReceivers_grantsOut (s : BounceSender) (gs : List Grant) :
    toReceivers (s.grantsOut gs) = [] := by
  rw [toReceivers, filterMap_eq_nil_iff]
  intro x hx
  rw [grantsOut, mem_append] at hx
  rcases hx with hx | hx
  · obtain ⟨g, -, rfl⟩ := mem_map.mp hx
    rfl
  · obtain ⟨m, hm, rfl⟩ := mem_map.mp hx
    obtain ⟨e, -, rfl⟩ := mem_map.mp hm
    rfl

lemma toReceivers_release (pick : List ℕ → ℕ) (s : BounceSender) (off : ℕ) :
    toReceivers (release pick s off).1 = [] := toReceivers_grantsOut s _

/-! ### Pump passes -/

lemma countP_creditFirst {k : ℕ} {l : List Posted} {p : Posted}
    (hf : l.find? (fun p => p.chunkIdx = k) = some p) (hc : p.hasCredit = false)
    (c : BounceCreditEntry) (h : ℕ) : (creditFirst k c l).countP (writable h)
      ≤ l.countP (writable h) + if c.regionHandle = h then 1 else 0 := by
  obtain ⟨l₁, l₂, rfl, he, -⟩ := creditFirst_cut hf c
  have hp : writable h p = false := by simp [writable, hc]
  have hle : (if writable h (credit p c) = true then 1 else 0)
      ≤ if c.regionHandle = h then 1 else 0 := by
    split_ifs with h1 h2
    · omega
    · simp [writable, credit, h2] at h1
    · omega
    · omega
  rw [he, countP_append, countP_cons, countP_append, countP_cons, hp]
  omega

/-- A chunk that is posted takes the credit at the front with it. -/
lemma openCredits_launch (ch : PumpChoices) (s : BounceSender) (req : Request) (ctx off h : ℕ) :
    openCredits (launch ch s (takeCredit req) ctx off req.pendingCredits.head?).2.2 h
      ≤ openCredits req h := by
  cases hp : req.pendingCredits with
  | nil =>
    have hw : writable h (newPosted ch req ctx off) = false := by simp [writable, newPosted]
    simp [openCredits, launch, takeCredit_nil hp, hp, hw]
  | cons c rest =>
    have hw : writable h (credit (newPosted ch (takeCredit req) ctx off) c) = true →
        c.regionHandle = h := by
      simp only [writable, credit, Bool.and_eq_true]
      exact fun hw => of_decide_eq_true hw.2.2
    rw [openCredits, openCredits, hp, countP_cons]
    rw [takeCredit_cons hp] at hw ⊢
    simp only [launch, head?_cons, countP_append, countP_singleton, decide_eq_true_iff]
    split_ifs with h1 h2
    · omega
    · exact absurd (hw h1) h2
    · omega
    · omega

/-- A move of a pump pass opens no credit. -/
lemma PumpMove.openCredits_le (m : PumpMove s req o s' req')
    (h : ℕ) : openCredits req' h ≤ openCredits req h := by
  cases m with
  | clear => simp [openCredits]
  | skip _ hp => simp [openCredits, hp, countP_cons]
  | @attach cr _ _ _ hp _ hf hc =>
    have hle := countP_creditFirst hf hc cr h
    simp only [openCredits, hp, countP_cons, decide_eq_true_iff]
    omega
  | abandon => simp [openCredits, BounceSender.abandon]
  | rotate => exact le_rfl
  | stage ch hst => exact openCredits_launch ch _ req _ _ h
  | overflow pick hst => simp [openCredits, BounceSender.abandon, takeCredit]

/-- A move of a pump pass leaves the writes in flight alone. -/
lemma PumpMove.writesOk (m : PumpMove s req o s' req') (hw : WritesOk req) : WritesOk req' := by
  cases m with
  | clear | skip | abandon | rotate | overflow => exact hw
  | @attach cr _ target _ _ _ hf hc =>
    obtain ⟨l₁, l₂, hl, he, -⟩ := creditFirst_cut hf cr
    intro p hp hst
    rw [he, mem_append, mem_cons] at hp
    rcases hp with hp | rfl | hp
    · exact hw p (by rw [hl]; simp [hp]) hst
    · -- the chunk had no credit, so that its write cannot be in flight
      have := (hw target (by rw [hl]; simp) hst).1
      rw [hc] at this
      cases this
    · exact hw p (by rw [hl]; simp [hp]) hst
  | @stage ctx off _ _ _ ch hst =>
    intro p hp hp'
    simp only [launch, mem_append, mem_singleton] at hp
    rcases hp with hp | rfl
    · exact hw p hp hp'
    · have hne := newPosted_state ch (takeCredit req) ctx off
      cases hc : req.pendingCredits.head? <;> simp_all [credit]

lemma PumpMove.toReceivers (m : PumpMove s req o s' req') : toReceivers o = [] := by
  have htook : BounceSender.toReceivers (tookCredit req) = [] := by
    rw [tookCredit]
    split_ifs <;> rfl
  cases m with
  | clear | skip | attach | abandon | rotate => rfl
  | stage ch hst =>
    rw [← singleton_append, toReceivers_append, toReceivers_append, htook]
    rfl
  | overflow pick hst =>
    rw [← singleton_append, toReceivers_append, toReceivers_append, toReceivers_append, htook,
      toReceivers_release]
    rfl

/-- What a pump pass does to the credits and the writes of a request. -/
lemma PumpRun.writes (r : PumpRun s req o s' req') (hw : WritesOk req) :
    (∀ h, openCredits req' h ≤ openCredits req h) ∧ WritesOk req' ∧ toReceivers o = [] := by
  have hinv : (∀ h, openCredits req' h ≤ openCredits req h) ∧ WritesOk req'
      ∧ toReceivers ([] ++ o) = [] := by
    refine PumpRun.invariant (P := fun out _ r => (∀ h, openCredits r h ≤ openCredits req h)
      ∧ WritesOk r ∧ toReceivers out = []) ?_ r ⟨fun h => le_rfl, hw, rfl⟩
    rintro out t r o t' r' ⟨h1, h2, h3⟩ m
    exact ⟨fun h => (m.openCredits_le h).trans (h1 h), m.writesOk h2,
      by rw [toReceivers_append, h3, m.toReceivers]; rfl⟩
  exact hinv

/-! ### What an event does -/

/-- The tables beside that of the requests. -/
structure SameRest (s s' : BounceSender) : Prop where
  locals : s'.mOrphanLocal = s.mOrphanLocal
  cancels : s'.mPendingCancel = s.mPendingCancel
  announcing : s'.announcing = s.announcing
  nextRid : s'.mNextRid = s.mNextRid

/-- The orphans that the writes in flight of a request become. -/
def orphansOf (rid : ℕ) (ps : List Posted) : List OrphanLocal :=
  (ps.filter fun p => p.state = .writing).map fun p =>
    { xfer := p.xfer, offset := p.localOffset, rid := rid }

/-- What an event does to the requests, to the writes in flight and to the cancels that wait,
and what it tells a receiver. -/
inductive WriteStep (s : BounceSender) (e : Event) (out : List SenderOutput) (s' : BounceSender) :
    Prop
  | idle (table : s'.mRequests = s.mRequests)
      (locals : s'.mOrphanLocal.Sublist s.mOrphanLocal)
      (cancels : s'.mPendingCancel = s.mPendingCancel) (announcing : s'.announcing = s.announcing)
      (nextRid : s'.mNextRid = s.mNextRid) (msgs : toReceivers out = [])
  | refused (table : s'.mRequests = s.mRequests) (locals : s'.mOrphanLocal = s.mOrphanLocal)
      (cancels : s'.mPendingCancel = s.mPendingCancel)
      (announcing : s'.announcing = s.announcing ∨ ∃ peer bytes, bytes ≠ []
        ∧ s.mNextRid ∈ s.mRequests ∧ s'.announcing = s.announcing ++ [(s.mNextRid, peer, bytes)])
      (nextRid : s'.mNextRid = s.mNextRid ∨ s'.mNextRid < 2 ^ 64) (msgs : toReceivers out = [])
  | entered (req : Request) (bytes : List ℕ) (numChunks : ℕ)
      (new : req.pendingCredits = [] ∧ req.posted = []) (wants : bytes ≠ [])
      (shown : .submitted req.promise s.mNextRid req.peer numChunks ∈ out)
      (table : s'.mRequests = s.mRequests.set s.mNextRid req)
      (locals : s'.mOrphanLocal = s.mOrphanLocal) (cancels : s'.mPendingCancel = s.mPendingCancel)
      (announcing : s'.announcing = s.announcing ++ [(s.mNextRid, req.peer, bytes)])
      (nextRid : s'.mNextRid < 2 ^ 64) (msgs : toReceivers out = [])
  | announced (i rid : ℕ) (peer : Bytes) (bytes : List ℕ)
      (at_i : s.announcing[i]? = some (rid, peer, bytes))
      (table : s'.mRequests = s.mRequests) (locals : s'.mOrphanLocal = s.mOrphanLocal)
      (cancels : s'.mPendingCancel = s.mPendingCancel)
      (announcing : s'.announcing = s.announcing.eraseIdx i) (nextRid : s'.mNextRid = s.mNextRid)
      (msgs : toReceivers out = [(peer, .want rid bytes s.endpoint)])
  | moved (rid : ℕ) (req req' : Request) (found : s.mRequests.find? rid = some req)
      (peer : req'.peer = req.peer) (writes : WritesOk req → WritesOk req')
      (credits : WritesOk req → ∀ h,
        openCredits req' h ≤ openCredits req h + accepted e req.peer rid h)
      (table : s'.mRequests = s.mRequests.set rid req') (rest : SameRest s s')
      (msgs : WritesOk req → toReceivers out = [])
  | sent (rid i : ℕ) (req : Request) (p : Posted) (found : s.mRequests.find? rid = some req)
      (at_i : req.posted[i]? = some p) (state : p.state = .writing)
      (table : s'.mRequests = s.mRequests.set rid
        { req with posted := req.posted.set i { p with xfer := none, state := .sent } })
      (rest : SameRest s s')
      (msgs : toReceivers out = [(req.peer, .data rid p.chunkIdx req.numChunks p.remoteHandle
        (chunkAt req p.chunkIdx).scatterRuns)])
  | left (rid : ℕ) (table : s'.mRequests = s.mRequests.erase rid) (rest : SameRest s s')
      (msgs : toReceivers out = [])
  | deferred (rid : ℕ) (req : Request) (found : s.mRequests.find? rid = some req)
      (table : s'.mRequests = s.mRequests.erase rid)
      (locals : s'.mOrphanLocal = s.mOrphanLocal ++ orphansOf rid req.posted)
      (cancels : s'.mPendingCancel = s.mPendingCancel.set rid req.peer)
      (announcing : s'.announcing = s.announcing) (nextRid : s'.mNextRid = s.mNextRid)
      (msgs : toReceivers out = [])
  | failed (rid : ℕ) (req : Request) (found : s.mRequests.find? rid = some req)
      (table : s'.mRequests = s.mRequests.erase rid) (rest : SameRest s s')
      (msgs : toReceivers out = [(req.peer, .cancel rid s.endpoint)])
  | cancelled (rid : ℕ) (peer : Bytes) (found : s.mPendingCancel.find? rid = some peer)
      (gone : ∀ o ∈ s.mOrphanLocal, o.rid ≠ rid) (table : s'.mRequests = s.mRequests)
      (locals : s'.mOrphanLocal = s.mOrphanLocal)
      (cancels : s'.mPendingCancel = s.mPendingCancel.erase rid)
      (announcing : s'.announcing = s.announcing) (nextRid : s'.mNextRid = s.mNextRid)
      (msgs : toReceivers out = [(peer, .cancel rid s.endpoint)])

/-- An event that concerns none of this. -/
lemma WriteStep.same {e : Event} {out : List SenderOutput}
    (table : s'.mRequests = s.mRequests) (rest : SameRest s s') (msgs : toReceivers out = []) :
    WriteStep s e out s' :=
  .idle table (rest.locals ▸ Sublist.refl _) rest.cancels rest.announcing rest.nextRid msgs

section Events

variable {s : BounceSender} {e : Event} {rid : ℕ}

variable {req : Request}

lemma SameRest.refl (s : BounceSender) : SameRest s s := ⟨rfl, rfl, rfl, rfl⟩

section

variable (picks : ℕ → List ℕ → ℕ)

/-- What `failRequest` leaves of the posted chunks. -/
lemma orphanAll_writes (rid : ℕ) (ps : List Posted) (s : BounceSender) :
    (orphanAll picks rid ps s).2.mRequests = s.mRequests
      ∧ (orphanAll picks rid ps s).2.mOrphanLocal = s.mOrphanLocal ++ orphansOf rid ps
      ∧ (orphanAll picks rid ps s).2.mPendingCancel = s.mPendingCancel
      ∧ (orphanAll picks rid ps s).2.announcing = s.announcing
      ∧ (orphanAll picks rid ps s).2.mNextRid = s.mNextRid
      ∧ toReceivers (orphanAll picks rid ps s).1 = [] := by
  induction ps generalizing s with
  | nil => simp [orphanAll, orphansOf]
  | cons p ps ih =>
    obtain ⟨i1, i2, i3, i4, i5, i6⟩ := ih (orphan (picks ps.length) rid s p).2
    rw [orphanAll]
    rw [i1, i2, i3, i4, i5, toReceivers_append, i6]
    simp only [orphan, orphansOf, filter_cons]
    by_cases hw : p.state = .writing
    · simp [hw]
    · cases hc : p.ctx with
      | none =>
        have hrel := toReceivers_release (picks ps.length) s p.localOffset
        rw [release] at hrel
        simp [hw, release, hrel]
      | some ctx => simp [hw]

lemma failRequest_writes (reason : BounceFailReason)
    (hr : s.mRequests.find? rid = some req) : WriteStep s e (failRequest picks s rid req reason).1
      (failRequest picks s rid req reason).2 := by
  obtain ⟨h1, h2, h3, h4, h5, h6⟩ := orphanAll_writes picks rid req.posted s
  simp only [failRequest]
  generalize (if req.abandonReason ≠ .kNone then req.abandonReason else reason) = r
  split_ifs with hany
  · exact .deferred rid req hr (by rw [h1]) h2 (by rw [h3]) h4 h5
      (by rw [toReceivers_append, h6]; rfl)
  · have hnone : orphansOf rid req.posted = [] := by
      simp only [orphansOf, map_eq_nil_iff, filter_eq_nil_iff]
      exact fun p hp => by simpa using fun hst => hany (any_eq_true.mpr ⟨p, hp, by simpa using hst⟩)
    refine .failed rid req hr (by rw [h1]) ⟨?_, h3, h4, h5⟩ ?_
    · rw [h2, hnone, append_nil]
    · rw [toReceivers_append, h6]
      rfl

lemma failIf_writes (reason : BounceFailReason) (cond : Request → Bool) :
    WriteStep s e (failIf picks s rid reason cond).1 (failIf picks s rid reason cond).2 := by
  unfold failIf
  split
  · exact .same rfl (.refl s) rfl
  · rename_i req hr
    split_ifs
    · exact failRequest_writes picks reason hr
    · exact .same rfl (.refl s) rfl

end

lemma submit_writes (srcDescs dstDescs : List MemoryDesc) (peer : Bytes) :
    WriteStep s e (submit s srcDescs dstDescs peer).1 (submit s srcDescs dstDescs peer).2 := by
  have hmod : (s.mNextRid + 1) % 2 ^ 64 < 2 ^ 64 := Nat.mod_lt _ (by norm_num)
  simp only [submit]
  split
  · exact .refused rfl rfl rfl (.inl rfl) (.inl rfl) rfl
  · rename_i plan hplan
    split_ifs with hz hin
    · exact .refused rfl rfl rfl (.inl rfl) (.inl rfl) rfl
    all_goals
      have hne : (plan.mChunks.take (plan.mChunks.length % 2 ^ 32)).map
          (fun c => c.packedBytes % 2 ^ 32) ≠ [] := by
        intro hnil
        have hlen := congrArg length hnil
        have hle := Nat.mod_le plan.mChunks.length (2 ^ 32)
        rw [length_map, length_take, length_nil] at hlen
        omega
    · exact .refused rfl rfl rfl (.inr ⟨peer, _, hne, hin, rfl⟩) (.inr hmod) rfl
    · exact .entered _ _ _ ⟨rfl, rfl⟩ hne (mem_singleton.mpr rfl) rfl rfl rfl rfl hmod rfl

lemma onAck_writes (pick : List ℕ → ℕ) (peer : Bytes) (k hd : ℕ) :
    WriteStep s e (onAck pick s peer rid k hd).1 (onAck pick s peer rid k hd).2 := by
  rcases onAck_cases pick s peer rid k hd with
    he | ⟨req, i, p, hr, hp, -, -, -, hst, ⟨-, he⟩ | ⟨-, he⟩⟩
  · rw [he]
    exact .same rfl (.refl s) rfl
  · rw [he]
    exact .left rid rfl ⟨rfl, rfl, rfl, rfl⟩ (by rw [toReceivers_append, toReceivers_release]; rfl)
  · rw [he]
    have hsub : (req.posted.eraseIdx i).Sublist req.posted := eraseIdx_sublist _ _
    refine .moved rid req { req with
        posted := req.posted.eraseIdx i, acked := req.acked + 1, lastProgress := s.now } hr rfl
      (fun hw q hq => hw q (hsub.subset hq)) (fun _ h => ?_) rfl ⟨rfl, rfl, rfl, rfl⟩ fun _ => by
        rw [toReceivers_append, toReceivers_release]; rfl
    have hle : (req.posted.eraseIdx i).countP (writable h) ≤ req.posted.countP (writable h) :=
      hsub.countP_le
    simp only [openCredits]
    omega

/-- A step of one posted chunk. -/
lemma onPosted_writes {i : ℕ} {f : Request → Posted → List SenderOutput × BounceSender}
    (hf : ∀ req p, s.mRequests.find? rid = some req → req.posted[i]? = some p →
      WriteStep s e (f req p).1 (f req p).2) :
    WriteStep s e (onPosted s rid i f).1 (onPosted s rid i f).2 := by
  unfold onPosted
  split
  · exact .same rfl (.refl s) rfl
  · rename_i req hr
    split
    · exact .same rfl (.refl s) rfl
    · rename_i p hp
      exact hf req p hr hp

/-- One posted chunk is replaced by one that is no more writable, and its write is its own. -/
lemma WriteStep.setPosted {s' : BounceSender} {out : List SenderOutput} {i : ℕ} {p q : Posted}
    {t : ℤ} (hr : s.mRequests.find? rid = some req) (hp : req.posted[i]? = some p)
    (hle : ∀ h, writable h q = true → writable h p = true)
    (hq : q.state = .writing → q.hasCredit = true
      ∧ ∀ x, q.xfer = some x → x = ⟨req.peer, q.remoteHandle⟩)
    (table : s'.mRequests = s.mRequests.set rid
      { req with posted := req.posted.set i q, lastProgress := t })
    (rest : SameRest s s') (msgs : toReceivers out = []) : WriteStep s e out s' := by
  obtain ⟨l₁, l₂, hl, hset, -⟩ := exists_cut hp
  refine .moved rid req { req with posted := req.posted.set i q, lastProgress := t } hr rfl
    (fun hw p' hp' hst => ?_) (fun _ h => ?_) table rest fun _ => msgs
  · dsimp only at hp'
    rw [hset, mem_append, mem_cons] at hp'
    rcases hp' with hp' | rfl | hp'
    · exact hw p' (by rw [hl]; simp [hp']) hst
    · exact hq hst
    · exact hw p' (by rw [hl]; simp [hp']) hst
  · simp only [openCredits]
    rw [hset, hl, countP_append, countP_append, countP_cons, countP_cons]
    have := hle h
    split_ifs with h1 h2
    · omega
    · exact absurd (this h1) h2
    · omega
    · omega

lemma gatherReady_writes (i : ℕ) :
    WriteStep s e (gatherReady s rid i).1 (gatherReady s rid i).2 := by
  refine onPosted_writes fun req p hr hp => ?_
  split
  · rename_i ctx hstate hctx
    split_ifs
    · exact .same rfl (.refl s) rfl
    · refine .setPosted (t := req.lastProgress) hr hp (fun h hw => ?_) (fun hst => ?_) rfl
        ⟨rfl, rfl, rfl, rfl⟩ rfl
      · simpa [writable, hstate] using hw
      · cases hst
  · exact .same rfl (.refl s) rfl

lemma postWrite_writes (i : ℕ) (ok : Bool) :
    WriteStep s e (postWrite s rid i ok).1 (postWrite s rid i ok).2 := by
  refine onPosted_writes fun req p hr hp => ?_
  by_cases hc : p.state = .gathered ∧ p.hasCredit = true
  · rw [if_pos hc]
    refine .setPosted (t := s.now) (q := { p with
        xfer := if ok then some ⟨req.peer, p.remoteHandle⟩ else none, state := .writing })
      hr hp (fun h hw => ?_) (fun _ => ⟨hc.2, fun x hx => ?_⟩) rfl ⟨rfl, rfl, rfl, rfl⟩ rfl
    · simpa [writable, hc.1] using hw
    · cases ok with
      | false => cases hx
      | true => exact (Option.some.inj hx).symm
  · rw [if_neg hc]
    exact .same rfl (.refl s) rfl

lemma pollWrite_writes (i : ℕ) : WriteStep s e (pollWrite s rid i).1 (pollWrite s rid i).2 := by
  refine onPosted_writes fun req p hr hp => ?_
  split_ifs with hc
  · exact .sent rid i req p hr hp hc.1 rfl ⟨rfl, rfl, rfl, rfl⟩ rfl
  · exact .same rfl (.refl s) rfl

/-- A pass over a request that may just have received credits. -/
lemma pumped_writes (ch : PumpChoices) {req₁ : Request} (hr : s.mRequests.find? rid = some req)
    (hpeer : req₁.peer = req.peer) (hposted : req₁.posted = req.posted)
    (hcredits : ∀ h, openCredits req₁ h ≤ openCredits req h + accepted e req.peer rid h)
    {out : List SenderOutput} (hout : toReceivers out = toReceivers (pumpRequest ch s req₁).1) :
    WriteStep s e out { (pumpRequest ch s req₁).2.1 with
      mRequests := (pumpRequest ch s req₁).2.1.mRequests.set rid (pumpRequest ch s req₁).2.2 } := by
  have hrun := pumpRequest_run ch s req₁
  have hwrites : WritesOk req → WritesOk req₁ := fun hw p hp hst => by
    rw [hpeer]
    exact hw p (hposted ▸ hp) hst
  have htab := hrun.tables
  refine .moved rid req _ hr (hrun.request.peer.trans hpeer)
    (fun hw => (hrun.writes (hwrites hw)).2.1)
    (fun hw h => ((hrun.writes (hwrites hw)).1 h).trans (hcredits h))
    (congrArg (UMap.set · rid _) htab.mRequests) ?_ fun hw => ?_
  · exact ⟨htab.mOrphanLocal, htab.mPendingCancel, htab.announcing, htab.mNextRid⟩
  · rw [hout, (hrun.writes (hwrites hw)).2.2]

end Events

/-- **What an event does to the writes.** -/
theorem step_writes (s : BounceSender) (e : Event) : WriteStep s e (step s e).1 (step s e).2 := by
  cases e with
  | submit srcDescs dstDescs peer => exact submit_writes srcDescs dstDescs peer
  | announce i =>
    simp only [step]
    split
    · exact .same rfl (.refl s) rfl
    · rename_i rid peer bytes hi
      exact .announced i rid peer bytes hi rfl rfl rfl rfl rfl rfl
  | pump ch rid =>
    simp only [step, pump]
    split
    · exact .same rfl (.refl s) rfl
    · rename_i req hr
      exact pumped_writes ch hr rfl rfl (fun h => Nat.le_add_right _ _) rfl
  | grant ch peer rid credits =>
    simp only [step, onGrant]
    split
    · exact .same rfl (.refl s) rfl
    · rename_i req hr
      split_ifs with hpeer
      · have hcredits (h : ℕ) : openCredits { req with
            pendingCredits := req.pendingCredits ++ credits } h
              ≤ openCredits req h + accepted (.grant ch peer rid credits) req.peer rid h := by
          simp only [openCredits, accepted, hpeer, and_self, if_true, countP_append]
          omega
        exact pumped_writes ch hr (by rfl) (by rfl) hcredits (by rfl)
      · exact .same rfl (.refl s) rfl
  | ack pick peer rid k hd => exact onAck_writes pick peer k hd
  | nack picks peer rid =>
    simp only [step, onNack]
    split
    · exact .same rfl (.refl s) rfl
    · rename_i req hr
      split_ifs
      · exact failRequest_writes picks _ hr
      · exact .same rfl (.refl s) rfl
  | gatherReady rid i => exact gatherReady_writes i
  | postWrite rid i ok => exact postWrite_writes i ok
  | pollWrite rid i => exact pollWrite_writes i
  | gatherFailed picks rid i => exact failIf_writes picks _ _
  | writeFailed picks rid i => exact failIf_writes picks _ _
  | timeout picks rid => exact failIf_writes picks _ _
  | forget picks peer rid => exact failIf_writes picks _ _
  | orphanLocal pick i =>
    simp only [step, drainOrphanLocal]
    split
    · exact .same rfl (.refl s) rfl
    · split_ifs
      · exact .same rfl (.refl s) rfl
      · exact .idle rfl (eraseIdx_sublist _ _) rfl rfl rfl (toReceivers_release _ _ _)
  | pendingCancel rid =>
    simp only [step, drainPendingCancel]
    split
    · exact .same rfl (.refl s) rfl
    · rename_i peer hfound
      split_ifs with hany
      · exact .same rfl (.refl s) rfl
      · refine .cancelled rid peer hfound (fun o ho hrid => hany ?_) rfl rfl rfl rfl rfl rfl
        exact any_eq_true.mpr ⟨o, ho, by simpa using hrid⟩
  | orphanGather pick i =>
    simp only [step, drainOrphanGather]
    split
    · exact .same rfl (.refl s) rfl
    · split_ifs
      · exact .same rfl (.refl s) rfl
      · exact .same rfl ⟨rfl, rfl, rfl, rfl⟩ (toReceivers_release _ _ _)
  | kernelEnds | writeEnds | tick => exact .same rfl ⟨rfl, rfl, rfl, rfl⟩ rfl
  | receiverCall pick c =>
    simp only [step]
    split_ifs
    · exact .same rfl (.refl s) rfl
    · exact .same rfl ⟨rfl, rfl, rfl, rfl⟩ (toReceivers_grantsOut _ _)
  | borrowCtx | returnCtx =>
    simp only [step]
    split <;> exact .same rfl ⟨rfl, rfl, rfl, rfl⟩ rfl

end BounceSender

end TrtLlm
