import TrtLlm.Bounce.Sender

/-!
What the events of the sender do to its requests.

A request stays in the table until it fails or its last chunk is acknowledged.  `TableStep`
says what an event can do to the table and what it shows; every later result about requests
looks at its cases.  The largest of them is a pump pass: `pumpRequest` attaches parked credits
to chunks that were gathered early and then launches gathers until something runs out.  The
two loops are runs of the seven moves of `PumpMove`.

* `PumpMove`: credits are dropped (`clear`) or skipped (`skip`), a credit is attached
  (`attach`), the request is abandoned (`abandon`), no region is left (`rotate`), a chunk is
  staged (`stage`), or its plan does not fit the exec context (`overflow`);
* `pumpRequest_run`: a pass is a run of moves;
* `attachCredits_run`: so is `attachCredits`, and after it the parked credits of a request that
  is not abandoned belong to chunks that are not posted yet;
* `ReqMove`, `Leaves`, `step_table`: **what an event does to the requests**.
-/

namespace TrtLlm.BounceSender

open CreditScheduler List

/-! ### Moves -/

/-- A region and an exec context are taken for the chunk `nextPost`. -/
structure Stage (s : BounceSender) (req : Request) (ctx : ℕ) (free : List ℕ)
    (pick : List ℕ → ℕ) (off : ℕ) (c : CreditScheduler) : Prop where
  alive : req.abandonReason = .kNone
  left : req.nextPost < req.numChunks
  ready : req.pendingCredits ≠ [] → req.nextPost ≤ req.nextCredit
  fits : ∀ cr ∈ req.pendingCredits.head?, (chunkAt req req.nextPost).packedBytes ≤ cr.len
  free_eq : s.exec.mFree = ctx :: free
  acquired : acquireLocal pick s.scheduler (chunkAt req req.nextPost).packedBytes
    req.pendingCredits.head?.isNone = (some off, c)

/-- The sender after `Stage`. -/
def staged (s : BounceSender) (free : List ℕ) (c : CreditScheduler) : BounceSender :=
  { s with scheduler := c, exec := { s.exec with mFree := free } }

/-- The entries of the copy plan of the chunk `nextPost`. -/
def nextEntries (s : BounceSender) (req : Request) : ℕ :=
  planEntries s.exec.maxPlanEntries 0
    ((chunkAt req req.nextPost).sizes.take (chunkAt req req.nextPost).srcPtrs.length)

/-- One move of a pump pass over a request. -/
inductive PumpMove : BounceSender → Request → List SenderOutput → BounceSender → Request → Prop
  | clear {s : BounceSender} {req : Request}
      (h : req.abandonReason ≠ .kNone ∨ req.numChunks ≤ req.nextCredit) :
      PumpMove s req [] s { req with pendingCredits := [] }
  | skip {s : BounceSender} {req : Request} {cr : BounceCreditEntry} {rest : List BounceCreditEntry}
      (alive : req.abandonReason = .kNone) (parked : req.pendingCredits = cr :: rest)
      (lt : req.nextCredit < req.nextPost)
      (taken : ∀ p, req.posted.find? (fun p => p.chunkIdx = req.nextCredit) = some p →
        p.hasCredit = true) :
      PumpMove s req [] s { req with pendingCredits := rest, nextCredit := req.nextCredit + 1 }
  | attach {s : BounceSender} {req : Request} {cr : BounceCreditEntry}
      {rest : List BounceCreditEntry} {target : Posted}
      (alive : req.abandonReason = .kNone) (parked : req.pendingCredits = cr :: rest)
      (lt : req.nextCredit < req.nextPost)
      (found : req.posted.find? (fun p => p.chunkIdx = req.nextCredit) = some target)
      (waits : target.hasCredit = false)
      (fits : (chunkAt req target.chunkIdx).packedBytes ≤ cr.len) :
      PumpMove s req [.attached req.promise req.nextCredit]
        { s with scheduler := s.scheduler.promoteLocal target.localOffset }
        { req with
          posted := creditFirst req.nextCredit cr req.posted
          pendingCredits := rest
          nextCredit := req.nextCredit + 1
          lastProgress := s.now }
  | abandon {s : BounceSender} {req : Request} (alive : req.abandonReason = .kNone) :
      PumpMove s req [.abandoned req.promise] s (abandon req)
  | rotate {s : BounceSender} {req : Request} {ctx bytes : ℕ} {free : List ℕ} {pick : List ℕ → ℕ}
      {eager : Bool} {c : CreditScheduler} (free_eq : s.exec.mFree = ctx :: free)
      (full : acquireLocal pick s.scheduler bytes eager = (none, c)) :
      PumpMove s req [] { s with
        scheduler := c, exec := { s.exec with mFree := free ++ [ctx] } } req
  | stage {s : BounceSender} {req : Request} {ctx off : ℕ} {free : List ℕ} {pick : List ℕ → ℕ}
      {c : CreditScheduler} (ch : PumpChoices) (h : Stage s req ctx free pick off c)
      (entries : nextEntries s req ≤ s.exec.maxPlanEntries) :
      PumpMove s req
        (.acquired off :: (tookCredit req
          ++ (launch ch (staged s free c) (takeCredit req) ctx off req.pendingCredits.head?).1))
        (launch ch (staged s free c) (takeCredit req) ctx off req.pendingCredits.head?).2.1
        (launch ch (staged s free c) (takeCredit req) ctx off req.pendingCredits.head?).2.2
  | overflow {s : BounceSender} {req : Request} {ctx off : ℕ} {free : List ℕ} {pick : List ℕ → ℕ}
      {c : CreditScheduler} (pickRelease : List ℕ → ℕ) (h : Stage s req ctx free pick off c)
      (entries : s.exec.maxPlanEntries < nextEntries s req) :
      PumpMove s req
        (.acquired off :: (tookCredit req
          ++ ((release pickRelease (staged s (free ++ [ctx]) c) off).1
            ++ [.abandoned req.promise])))
        (release pickRelease (staged s (free ++ [ctx]) c) off).2
        (BounceSender.abandon (takeCredit req))

/-- Moves one after another. -/
inductive PumpRun : BounceSender → Request → List SenderOutput → BounceSender → Request → Prop
  | refl (s : BounceSender) (req : Request) : PumpRun s req [] s req
  | head {s s₁ s' : BounceSender} {req req₁ req' : Request} {o o' : List SenderOutput}
      (m : PumpMove s req o s₁ req₁) (r : PumpRun s₁ req₁ o' s' req') :
      PumpRun s req (o ++ o') s' req'

variable {o : List SenderOutput} {req req' : Request} {s s' : BounceSender}

lemma PumpRun.single (m : PumpMove s req o s' req') : PumpRun s req o s' req' := by
  simpa using PumpRun.head m (.refl _ _)

lemma PumpRun.trans {s₁ : BounceSender} {req₁ : Request} {o' : List SenderOutput}
    (h : PumpRun s req o s₁ req₁) (h' : PumpRun s₁ req₁ o' s' req') :
    PumpRun s req (o ++ o') s' req' := by
  induction h with
  | refl => simpa using h'
  | head m _ ih =>
    rw [append_assoc]
    exact .head m (ih h')

/-- **Induction over a pass**: what every move keeps, every run of moves keeps. -/
theorem PumpRun.invariant {P : List SenderOutput → BounceSender → Request → Prop}
    (hmove : ∀ {out s req o s' req'}, P out s req → PumpMove s req o s' req' → P (out ++ o) s' req')
    {out : List SenderOutput} (h : PumpRun s req o s' req')
    (hp : P out s req) : P (out ++ o) s' req' := by
  induction h generalizing out with
  | refl => simpa using hp
  | head m _ ih =>
    rw [← append_assoc]
    exact ih (hmove hp m)

/-! ### What a move leaves -/

/-- What a pump pass leaves of the sender. -/
structure SameTables (s s' : BounceSender) : Prop where
  cfg : s'.cfg = s.cfg
  scratchBytes : s'.exec.scratchBytes = s.exec.scratchBytes
  endpoint : s'.endpoint = s.endpoint
  mRequests : s'.mRequests = s.mRequests
  mNextRid : s'.mNextRid = s.mNextRid
  mOrphanLocal : s'.mOrphanLocal = s.mOrphanLocal
  mOrphanGather : s'.mOrphanGather = s.mOrphanGather
  mPendingCancel : s'.mPendingCancel = s.mPendingCancel
  announcing : s'.announcing = s.announcing
  lent : s'.lent = s.lent
  writes : s'.writes = s.writes
  promises : s'.promises = s.promises

/-- What a pump pass leaves of the request. -/
structure SameRequest (req req' : Request) : Prop where
  peer : req'.peer = req.peer
  numChunks : req'.numChunks = req.numChunks
  plan : req'.plan = req.plan
  acked : req'.acked = req.acked
  promise : req'.promise = req.promise

lemma PumpMove.tables (m : PumpMove s req o s' req') : SameTables s s' := by
  cases m <;> exact ⟨rfl, rfl, rfl, rfl, rfl, rfl, rfl, rfl, rfl, rfl, rfl, rfl⟩

lemma PumpMove.request (m : PumpMove s req o s' req') : SameRequest req req' := by
  cases m <;> exact ⟨rfl, rfl, rfl, rfl, rfl⟩

/-- The list with one element replaced or removed, cut at that element. -/
lemma exists_cut {α : Type*} {l : List α} {i : ℕ} {a : α} (h : l[i]? = some a) :
    ∃ l₁ l₂, l = l₁ ++ a :: l₂ ∧ (∀ b, l.set i b = l₁ ++ b :: l₂) ∧ l.eraseIdx i = l₁ ++ l₂ := by
  obtain ⟨hi, rfl⟩ := List.getElem?_eq_some_iff.mp h
  refine ⟨l.take i, l.drop (i + 1), ?_, fun b => ?_, ?_⟩
  · rw [getElem_cons_drop, take_append_drop]
  · rw [set_eq_take_append_cons_drop, if_pos hi]
  · exact eraseIdx_eq_take_drop_succ ..

/-- `creditFirst` cut at the chunk that gets the credit. -/
lemma creditFirst_cut {k : ℕ} {l : List Posted} {p : Posted}
    (h : l.find? (fun p => p.chunkIdx = k) = some p) (c : BounceCreditEntry) :
    ∃ l₁ l₂, l = l₁ ++ p :: l₂ ∧ creditFirst k c l = l₁ ++ credit p c :: l₂ ∧ p.chunkIdx = k := by
  induction l with
  | nil => simp at h
  | cons q l ih =>
    by_cases hq : q.chunkIdx = k
    · obtain rfl : q = p := by simpa [hq] using h
      exact ⟨[], l, rfl, by simp [creditFirst, hq], hq⟩
    · obtain ⟨l₁, l₂, rfl, hc, hk⟩ := ih (by simpa [hq] using h)
      exact ⟨q :: l₁, l₂, rfl, by simp [creditFirst, hq, hc], hk⟩

/-- A new chunk is in its gather. -/
lemma newPosted_state (ch : PumpChoices) (req : Request) (ctx off : ℕ) :
    (newPosted ch req ctx off).state = .gathering
      ∨ (newPosted ch req ctx off).state = .gatherFailed := by
  simp only [newPosted]
  split <;> simp

lemma takeCredit_nil (h : req.pendingCredits = []) : takeCredit req = req := by
  cases req
  simp_all [takeCredit]

lemma takeCredit_cons {c : BounceCreditEntry} {rest : List BounceCreditEntry}
    (h : req.pendingCredits = c :: rest) :
    takeCredit req = { req with pendingCredits := rest, nextCredit := req.nextCredit + 1 } := by
  simp [takeCredit, h]

/-! ### A pass is a run of moves -/

/-- The parked credits of a request that goes on are for chunks that are not posted. -/
def Ready (req : Request) : Prop :=
  req.abandonReason = .kNone → req.pendingCredits ≠ [] → req.nextPost ≤ req.nextCredit

/-- The loop of `attachCredits` is a run of moves, and stops with a ready request. -/
lemma attachLoop_run (now : ℤ) (fuel : ℕ) (s : BounceSender) (hnow : s.now = now) (req : Request)
    (ha : req.abandonReason = .kNone) (hf : req.pendingCredits.length ≤ fuel) :
    PumpRun s req (attachLoop now fuel s.scheduler req).1
        { s with scheduler := (attachLoop now fuel s.scheduler req).2.1 }
        (attachLoop now fuel s.scheduler req).2.2
      ∧ Ready (attachLoop now fuel s.scheduler req).2.2 := by
  induction fuel generalizing s req with
  | zero =>
    have hnil : req.pendingCredits = [] := eq_nil_of_length_eq_zero (by omega)
    exact ⟨.refl _ _, fun _ h => absurd hnil h⟩
  | succ fuel ih =>
    unfold attachLoop
    split
    · rename_i hnil
      exact ⟨.refl _ _, fun _ h => absurd hnil h⟩
    · rename_i cr rest hp
      have hrest : rest.length ≤ fuel := by
        have := hf
        rw [hp] at this
        simpa using this
      split_ifs with hlt
      · split
        · rename_i hnone
          have hskip : PumpMove s req [] s _ := .skip ha hp hlt (by simp [hnone])
          obtain ⟨hr, hready⟩ := ih s hnow
            { req with pendingCredits := rest, nextCredit := req.nextCredit + 1 } ha hrest
          exact ⟨.head hskip hr, hready⟩
        · rename_i target hfound
          split_ifs with hc hlen
          · have hskip : PumpMove s req [] s _ := .skip ha hp hlt (by simp [hfound, hc])
            obtain ⟨hr, hready⟩ := ih s hnow
              { req with pendingCredits := rest, nextCredit := req.nextCredit + 1 } ha hrest
            exact ⟨.head hskip hr, hready⟩
          · exact ⟨.single (.abandon ha), fun _ h => absurd rfl h⟩
          · subst hnow
            have hatt := PumpMove.attach (s := s) ha hp hlt hfound (by simpa using hc) (by omega)
            obtain ⟨hr, hready⟩ := ih
              { s with scheduler := s.scheduler.promoteLocal target.localOffset } rfl
              { req with
                posted := creditFirst req.nextCredit cr req.posted
                pendingCredits := rest
                nextCredit := req.nextCredit + 1
                lastProgress := s.now } ha hrest
            exact ⟨.head hatt hr, hready⟩
      · exact ⟨.refl _ _, fun _ _ => not_lt.mp hlt⟩

/-- `attachCredits` is a run of moves, and stops with a ready request. -/
lemma attachCredits_run (s : BounceSender) (req : Request) (ha : req.abandonReason = .kNone) :
    PumpRun s req (attachCredits s.now s.scheduler req).1
        { s with scheduler := (attachCredits s.now s.scheduler req).2.1 }
        (attachCredits s.now s.scheduler req).2.2
      ∧ Ready (attachCredits s.now s.scheduler req).2.2 := by
  obtain ⟨hr, hready⟩ := attachLoop_run s.now req.pendingCredits.length s rfl req ha le_rfl
  simp only [attachCredits]
  split_ifs with hover
  · refine ⟨?_, fun _ h => absurd rfl h⟩
    simpa using hr.trans (.single (.clear (.inr hover)))
  · exact ⟨hr, hready⟩

/-- The loop of `pumpRequest` is a run of moves. -/
lemma pumpLoop_run (ch : PumpChoices) (fuel : ℕ) (s : BounceSender) (req : Request)
    (hready : Ready req) :
    PumpRun s req (pumpLoop ch fuel s req).1 (pumpLoop ch fuel s req).2.1
      (pumpLoop ch fuel s req).2.2 := by
  induction fuel generalizing s req with
  | zero => exact .refl _ _
  | succ fuel ih =>
    simp only [pumpLoop]
    split_ifs with hstop heager hlen
    · exact .refl _ _
    · exact .refl _ _
    · push Not at hstop
      exact .single (.abandon hstop.1)
    · push Not at hstop hlen
      obtain ⟨ha, hleft⟩ := hstop
      split
      · exact .refl _ _
      · rename_i ctx free hfree
        split
        · rename_i c hacq
          exact .single (.rotate hfree hacq)
        · rename_i off c hacq
          have hst : Stage s req ctx free (ch.pick req.nextPost) off c :=
            ⟨ha, hleft, hready ha, hlen, hfree, hacq⟩
          split_ifs with hentries
          · exact .single (.overflow (ch.pickRelease req.nextPost) hst hentries)
          · have hmove := PumpMove.stage ch hst (not_lt.mp hentries)
            have hnext : Ready
                (launch ch (staged s free c) (takeCredit req) ctx off
                  req.pendingCredits.head?).2.2 := by
              intro _ hne
              cases hp : req.pendingCredits with
              | nil => exact absurd (by simp [launch, takeCredit, hp]) hne
              | cons cr rest =>
                have := hready ha (by simp [hp])
                simpa [launch, takeCredit, hp] using this
            have hrun := PumpRun.head hmove (ih _ _ hnext)
            rw [cons_append, append_assoc] at hrun
            exact hrun

/-- **A pump pass is a run of moves.** -/
theorem pumpRequest_run (ch : PumpChoices) (s : BounceSender) (req : Request) :
    PumpRun s req (pumpRequest ch s req).1 (pumpRequest ch s req).2.1
      (pumpRequest ch s req).2.2 := by
  simp only [pumpRequest]
  split_ifs with ha
  · exact .single (.clear (.inl ha))
  · obtain ⟨hr, hready⟩ := attachCredits_run s req (not_not.mp ha)
    exact hr.trans (pumpLoop_run ch _ _ _ hready)

/-! ### Acknowledgements -/

/-- What an ACK does: nothing, or it takes a sent chunk with its index and region out of the
request of its sender, which is complete or goes on. -/
lemma onAck_cases (pick : List ℕ → ℕ) (s : BounceSender) (peer : Bytes) (rid k hd : ℕ) :
    onAck pick s peer rid k hd = ([], s)
    ∨ ∃ req i p, s.mRequests.find? rid = some req ∧ req.posted[i]? = some p ∧ peer = req.peer
      ∧ p.chunkIdx = k ∧ p.remoteHandle = hd ∧ p.state = .sent
      ∧ ((req.numChunks ≤ req.acked + 1 ∧ onAck pick s peer rid k hd
            = ((release pick s p.localOffset).1
                ++ [.acked req.promise k hd peer, .resolved req.promise .success],
              { (release pick s p.localOffset).2 with
                mRequests := s.mRequests.erase rid }))
        ∨ (req.acked + 1 < req.numChunks ∧ onAck pick s peer rid k hd
            = ((release pick s p.localOffset).1 ++ [.acked req.promise k hd peer],
              { (release pick s p.localOffset).2 with
                mRequests := s.mRequests.set rid { req with
                  posted := req.posted.eraseIdx i
                  acked := req.acked + 1
                  lastProgress := s.now } }))) := by
  cases hr : s.mRequests.find? rid with
  | none => exact .inl (by simp [onAck, hr])
  | some req =>
    by_cases hpeer : peer = req.peer
    · cases hi : req.posted.findIdx? fun p =>
        p.chunkIdx = k ∧ p.remoteHandle = hd ∧ p.state = .sent with
      | none => exact .inl (by simp only [onAck, hr, if_pos hpeer, hi])
      | some i =>
        obtain ⟨hlt, hp, -⟩ := findIdx?_eq_some_iff_getElem.mp hi
        have hget : req.posted[i]? = some req.posted[i] := getElem?_eq_getElem hlt
        obtain ⟨hk, hhd, hst⟩ := of_decide_eq_true hp
        refine .inr ⟨req, i, _, rfl, hget, hpeer, hk, hhd, hst, ?_⟩
        by_cases hdone : req.numChunks ≤ req.acked + 1
        · refine .inl ⟨hdone, ?_⟩
          simp only [onAck, hr, if_pos hpeer, hi, hget, if_pos hdone, append_assoc]
          rfl
        · refine .inr ⟨not_le.mp hdone, ?_⟩
          simp only [onAck, hr, if_pos hpeer, hi, hget, if_neg hdone]
          rfl
    · exact .inl (by simp only [onAck, hr, if_neg hpeer])

/-! ### The table of requests -/

/-- The promise that an output is about. -/
def owner : SenderOutput → Option ℕ
  | .submitted π _ _ _ => some π
  | .resolved π _ => some π
  | .credited π _ => some π
  | .attached π _ => some π
  | .abandoned π => some π
  | .launched π _ => some π
  | .wrote π _ _ _ _ => some π
  | .landed π _ => some π
  | .acked π _ _ _ => some π
  | _ => none

/-- What an event does to a request that stays in the table. -/
inductive ReqMove (s : BounceSender) (rid : ℕ) (req : Request) :
    List SenderOutput → Request → Prop
  | pump {o : List SenderOutput} {s' : BounceSender} {req' : Request}
      (run : PumpRun s req o s' req') : ReqMove s rid req o req'
  | grant {o : List SenderOutput} {s' : BounceSender} {req' : Request}
      (credits : List BounceCreditEntry)
      (run : PumpRun s { req with pendingCredits := req.pendingCredits ++ credits } o s' req') :
      ReqMove s rid req (.credited req.promise credits :: o) req'
  | gathered {i ctx : ℕ} {p : Posted} (at_i : req.posted[i]? = some p)
      (state : p.state = .gathering) (held : p.ctx = some ctx) :
      ReqMove s rid req []
        { req with posted := req.posted.set i { p with ctx := none, state := .gathered } }
  | wrote {i : ℕ} {p : Posted} (xfer : Option Transfer) (at_i : req.posted[i]? = some p)
      (state : p.state = .gathered) (credited : p.hasCredit = true) :
      ReqMove s rid req [.wrote req.promise p.chunkIdx p.remoteAddr p.remoteHandle p.writeBytes]
        { req with
          posted := req.posted.set i { p with xfer := xfer, state := .writing }
          lastProgress := s.now }
  | sent {i : ℕ} {p : Posted} (at_i : req.posted[i]? = some p) (state : p.state = .writing) :
      ReqMove s rid req
        [.landed req.promise p.chunkIdx,
          .send req.peer (.data rid p.chunkIdx req.numChunks p.remoteHandle
            (chunkAt req p.chunkIdx).scatterRuns)]
        { req with posted := req.posted.set i { p with xfer := none, state := .sent } }
  | acked {i : ℕ} {p : Posted} {o : List SenderOutput} (at_i : req.posted[i]? = some p)
      (state : p.state = .sent) (more : req.acked + 1 < req.numChunks)
      (quiet : ∀ x ∈ o, owner x = none) :
      ReqMove s rid req (o ++ [.acked req.promise p.chunkIdx p.remoteHandle req.peer])
        { req with
          posted := req.posted.eraseIdx i
          acked := req.acked + 1
          lastProgress := s.now }

/-- What is shown of a request that leaves the table. -/
inductive Leaves (req : Request) : List SenderOutput → Prop
  | failed {o : List SenderOutput} (r : BounceFailReason) (quiet : ∀ x ∈ o, owner x = none) :
      Leaves req (o ++ [.resolved req.promise (.failure r)])
  | complete {i : ℕ} {p : Posted} {o : List SenderOutput} (at_i : req.posted[i]? = some p)
      (state : p.state = .sent) (last : req.numChunks ≤ req.acked + 1)
      (quiet : ∀ x ∈ o, owner x = none) :
      Leaves req (o ++ [.acked req.promise p.chunkIdx p.remoteHandle req.peer,
        .resolved req.promise .success])

/-- What an event does to the table and to the promises. -/
inductive TableStep (s : BounceSender) (o : List SenderOutput) (s' : BounceSender) : Prop
  | same (table : s'.mRequests = s.mRequests) (promises : s'.promises = s.promises)
      (quiet : ∀ x ∈ o, owner x = none)
  | refused (table : s'.mRequests = s.mRequests) (promises : s'.promises = s.promises + 1)
      (quiet : ∀ x ∈ o, ∃ r, x = .resolved s.promises r)
  | entered (rid : ℕ) (peer : Bytes) (plan : BounceTransferPlan) (t : ℤ)
      (srcDescs dstDescs : List MemoryDesc) (fresh : rid ∉ s.mRequests)
      (built : BounceTransferPlan.build srcDescs dstDescs s.cfg.maxChunkSizeBytes
        (maxDescsPerChunk s.cfg.maxChunkSizeBytes) = .ok plan)
      (table : s'.mRequests = s.mRequests.set rid
        { peer := peer, numChunks := plan.mChunks.length % 2 ^ 32, plan := plan,
          promise := s.promises, lastProgress := t })
      (promises : s'.promises = s.promises + 1)
      (shown : o = [.submitted s.promises rid peer (plan.mChunks.length % 2 ^ 32)])
  | moved (rid : ℕ) (req req' : Request) (found : s.mRequests.find? rid = some req)
      (move : ReqMove s rid req o req') (table : s'.mRequests = s.mRequests.set rid req')
      (promises : s'.promises = s.promises)
  | left (rid : ℕ) (req : Request) (found : s.mRequests.find? rid = some req)
      (leaves : Leaves req o) (table : s'.mRequests = s.mRequests.erase rid)
      (promises : s'.promises = s.promises)

lemma owner_grantsOut {gs : List Grant} {x : SenderOutput}
    (h : x ∈ s.grantsOut gs) : owner x = none := by
  rw [grantsOut, mem_append] at h
  rcases h with h | h
  · obtain ⟨g, -, rfl⟩ := mem_map.mp h
    rfl
  · obtain ⟨m, -, rfl⟩ := mem_map.mp h
    rfl

lemma owner_release {pick : List ℕ → ℕ} {off : ℕ} {x : SenderOutput}
    (h : x ∈ (release pick s off).1) : owner x = none := by
  rcases mem_cons.mp h with rfl | h
  · rfl
  · exact owner_grantsOut h

/-- Moving a posted chunk of a failed request out leaves the table. -/
lemma orphan_quiet (pick : List ℕ → ℕ) (rid : ℕ) (s : BounceSender) (p : Posted) :
    (orphan pick rid s p).2.mRequests = s.mRequests
      ∧ (orphan pick rid s p).2.promises = s.promises
      ∧ ∀ x ∈ (orphan pick rid s p).1, owner x = none := by
  unfold orphan
  split_ifs
  · exact ⟨rfl, rfl, by simp⟩
  · split
    · exact ⟨rfl, rfl, by simp⟩
    · exact ⟨rfl, rfl, fun x => owner_release⟩

lemma orphanAll_quiet (picks : ℕ → List ℕ → ℕ) (rid : ℕ) (ps : List Posted) (s : BounceSender) :
    (orphanAll picks rid ps s).2.mRequests = s.mRequests
      ∧ (orphanAll picks rid ps s).2.promises = s.promises
      ∧ ∀ x ∈ (orphanAll picks rid ps s).1, owner x = none := by
  induction ps generalizing s with
  | nil => exact ⟨rfl, rfl, by simp [orphanAll]⟩
  | cons p ps ih =>
    obtain ⟨h1, h2, h3⟩ := orphan_quiet (picks ps.length) rid s p
    obtain ⟨i1, i2, i3⟩ := ih (orphan (picks ps.length) rid s p).2
    refine ⟨i1.trans h1, i2.trans h2, fun x hx => ?_⟩
    rcases mem_append.mp hx with hx | hx
    · exact h3 x hx
    · exact i3 x hx

section TableStep

variable {s : BounceSender} {rid : ℕ}

variable {req : Request}

section

variable (picks : ℕ → List ℕ → ℕ) (reason : BounceFailReason)

lemma failRequest_table (hr : s.mRequests.find? rid = some req) :
    TableStep s (failRequest picks s rid req reason).1 (failRequest picks s rid req reason).2 := by
  obtain ⟨htab, hprom, hquiet⟩ := orphanAll_quiet picks rid req.posted s
  simp only [failRequest]
  generalize (if req.abandonReason ≠ .kNone then req.abandonReason else reason) = r
  split_ifs
  · exact .left rid req hr (.failed r hquiet) (by rw [htab]) hprom
  · have hquiet' : ∀ x ∈ (orphanAll picks rid req.posted s).1
        ++ [SenderOutput.send req.peer (.cancel rid s.endpoint)], owner x = none := by
      intro x hx
      rcases mem_append.mp hx with hx | hx
      · exact hquiet x hx
      · obtain rfl := mem_singleton.mp hx
        rfl
    rw [append_cons]
    exact .left rid req hr (.failed r hquiet') (by rw [htab]) hprom

lemma failIf_table (cond : Request → Bool) :
    TableStep s (failIf picks s rid reason cond).1 (failIf picks s rid reason cond).2 := by
  unfold failIf
  split
  · exact .same rfl rfl (by simp)
  · rename_i req hr
    split_ifs
    · exact failRequest_table picks reason hr
    · exact .same rfl rfl (by simp)

end

lemma submit_table (srcDescs dstDescs : List MemoryDesc) (peer : Bytes) :
    TableStep s (submit s srcDescs dstDescs peer).1 (submit s srcDescs dstDescs peer).2 := by
  simp only [submit]
  split
  · exact .refused rfl rfl (by simp)
  · rename_i plan hplan
    split_ifs with hz hin
    · exact .refused rfl rfl (by simp)
    · exact .refused rfl rfl (by simp)
    · exact .entered s.mNextRid peer plan s.now srcDescs dstDescs hin hplan rfl rfl rfl

lemma onAck_table (pick : List ℕ → ℕ) (peer : Bytes) (k hd : ℕ) :
    TableStep s (onAck pick s peer rid k hd).1 (onAck pick s peer rid k hd).2 := by
  rcases onAck_cases pick s peer rid k hd with
    he | ⟨req, i, p, hr, hp, rfl, rfl, rfl, hst, ⟨hdone, he⟩ | ⟨hmore, he⟩⟩
  · rw [he]
    exact .same rfl rfl (by simp)
  · rw [he]
    exact .left rid req hr (.complete hp hst hdone fun x => owner_release) rfl rfl
  · rw [he]
    exact .moved rid req _ hr (.acked hp hst hmore fun x => owner_release) rfl rfl

/-- A step of one posted chunk. -/
lemma onPosted_table {i : ℕ} {f : Request → Posted → List SenderOutput × BounceSender}
    (hf : ∀ req p, s.mRequests.find? rid = some req → req.posted[i]? = some p →
      TableStep s (f req p).1 (f req p).2) :
    TableStep s (onPosted s rid i f).1 (onPosted s rid i f).2 := by
  unfold onPosted
  split
  · exact .same rfl rfl (by simp)
  · rename_i req hr
    split
    · exact .same rfl rfl (by simp)
    · rename_i p hp
      exact hf req p hr hp

lemma gatherReady_table (i : ℕ) : TableStep s (gatherReady s rid i).1 (gatherReady s rid i).2 := by
  refine onPosted_table fun req p hr hp => ?_
  split
  · rename_i ctx hstate hctx
    split_ifs
    · exact .same rfl rfl (by simp)
    · exact .moved rid req _ hr (.gathered hp hstate hctx) rfl rfl
  · exact .same rfl rfl (by simp)

lemma postWrite_table (i : ℕ) (ok : Bool) :
    TableStep s (postWrite s rid i ok).1 (postWrite s rid i ok).2 := by
  refine onPosted_table fun req p hr hp => ?_
  by_cases hc : p.state = .gathered ∧ p.hasCredit = true
  · rw [if_pos hc]
    exact .moved rid req _ hr (.wrote _ hp hc.1 hc.2) rfl rfl
  · rw [if_neg hc]
    exact .same rfl rfl (by simp)

lemma pollWrite_table (i : ℕ) : TableStep s (pollWrite s rid i).1 (pollWrite s rid i).2 := by
  refine onPosted_table fun req p hr hp => ?_
  split_ifs with hc
  · exact .moved rid req _ hr (.sent hp hc.1) rfl rfl
  · exact .same rfl rfl (by simp)

/-- A pass leaves the tables of the sender. -/
lemma PumpRun.tables {s s' : BounceSender} {req' : Request} {o : List SenderOutput}
    (h : PumpRun s req o s' req') : SameTables s s' := by
  induction h with
  | refl => exact ⟨rfl, rfl, rfl, rfl, rfl, rfl, rfl, rfl, rfl, rfl, rfl, rfl⟩
  | head m _ ih =>
    have hm := m.tables
    exact ⟨ih.cfg.trans hm.cfg, ih.scratchBytes.trans hm.scratchBytes,
      ih.endpoint.trans hm.endpoint, ih.mRequests.trans hm.mRequests,
      ih.mNextRid.trans hm.mNextRid, ih.mOrphanLocal.trans hm.mOrphanLocal,
      ih.mOrphanGather.trans hm.mOrphanGather, ih.mPendingCancel.trans hm.mPendingCancel,
      ih.announcing.trans hm.announcing, ih.lent.trans hm.lent, ih.writes.trans hm.writes,
        ih.promises.trans hm.promises⟩

lemma PumpRun.request {s s' : BounceSender} {req' : Request} {o : List SenderOutput}
    (h : PumpRun s req o s' req') : SameRequest req req' := by
  induction h with
  | refl => exact ⟨rfl, rfl, rfl, rfl, rfl⟩
  | head m _ ih =>
    have hm := m.request
    exact ⟨ih.peer.trans hm.peer, ih.numChunks.trans hm.numChunks, ih.plan.trans hm.plan,
      ih.acked.trans hm.acked, ih.promise.trans hm.promise⟩

lemma pump_table (ch : PumpChoices) : TableStep s (pump ch s rid).1 (pump ch s rid).2 := by
  unfold pump
  split
  · exact .same rfl rfl (by simp)
  · rename_i req hr
    have hrun := pumpRequest_run ch s req
    exact .moved rid req _ hr (.pump hrun) (congrArg (UMap.set · rid _) hrun.tables.mRequests)
      hrun.tables.promises

lemma onGrant_table (ch : PumpChoices) (peer : Bytes) (credits : List BounceCreditEntry) :
    TableStep s (onGrant ch s peer rid credits).1 (onGrant ch s peer rid credits).2 := by
  unfold onGrant
  split
  · exact .same rfl rfl (by simp)
  · rename_i req hr
    split_ifs
    · have hrun := pumpRequest_run ch s { req with pendingCredits := req.pendingCredits ++ credits }
      exact .moved rid req _ hr (.grant credits hrun)
        (congrArg (UMap.set · rid _) hrun.tables.mRequests) hrun.tables.promises
    · exact .same rfl rfl (by simp)

end TableStep

/-- **What an event does to the requests.** -/
theorem step_table (s : BounceSender) (e : Event) : TableStep s (step s e).1 (step s e).2 := by
  cases e with
  | submit srcDescs dstDescs peer => exact submit_table srcDescs dstDescs peer
  | announce i =>
    simp only [step]
    split
    · exact .same rfl rfl (by simp)
    · exact .same rfl rfl (by simp [owner])
  | pump ch rid => exact pump_table ch
  | grant ch peer rid credits => exact onGrant_table ch peer credits
  | ack pick peer rid k hd => exact onAck_table pick peer k hd
  | nack picks peer rid =>
    simp only [step, onNack]
    split
    · exact .same rfl rfl (by simp)
    · rename_i req hr
      split_ifs
      · exact failRequest_table picks _ hr
      · exact .same rfl rfl (by simp)
  | gatherReady rid i => exact gatherReady_table i
  | postWrite rid i ok => exact postWrite_table i ok
  | pollWrite rid i => exact pollWrite_table i
  | gatherFailed picks rid i => exact failIf_table picks _ _
  | writeFailed picks rid i => exact failIf_table picks _ _
  | timeout picks rid => exact failIf_table picks _ _
  | forget picks peer rid => exact failIf_table picks _ _
  | orphanLocal pick i =>
    simp only [step, drainOrphanLocal]
    split
    · exact .same rfl rfl (by simp)
    · split_ifs
      · exact .same rfl rfl (by simp)
      · exact .same rfl rfl fun x => owner_release
  | pendingCancel rid =>
    simp only [step, drainPendingCancel]
    split
    · exact .same rfl rfl (by simp)
    · split_ifs
      · exact .same rfl rfl (by simp)
      · exact .same rfl rfl (by simp [owner])
  | orphanGather pick i =>
    simp only [step, drainOrphanGather]
    split
    · exact .same rfl rfl (by simp)
    · split_ifs
      · exact .same rfl rfl (by simp)
      · exact .same rfl rfl fun x => owner_release
  | kernelEnds | writeEnds | tick => exact .same rfl rfl (by simp [step])
  | receiverCall pick c =>
    simp only [step]
    split_ifs
    · exact .same rfl rfl (by simp)
    · exact .same rfl rfl fun x => owner_grantsOut
  | borrowCtx | returnCtx =>
    simp only [step]
    split <;> exact .same rfl rfl (by simp)

/-- The configuration and the size of the exec contexts stay. -/
structure SameConfig (s s' : BounceSender) : Prop where
  cfg : s'.cfg = s.cfg
  scratchBytes : s'.exec.scratchBytes = s.exec.scratchBytes
  endpoint : s'.endpoint = s.endpoint

lemma SameConfig.refl (s : BounceSender) : SameConfig s s := ⟨rfl, rfl, rfl⟩

section

variable (picks : ℕ → List ℕ → ℕ)

lemma orphanAll_config (rid : ℕ) (ps : List Posted) (s : BounceSender) :
    SameConfig s (orphanAll picks rid ps s).2 := by
  induction ps generalizing s with
  | nil => exact .refl s
  | cons p ps ih =>
    have hstep : SameConfig s (orphan (picks ps.length) rid s p).2 := by
      unfold orphan
      split_ifs
      · exact ⟨rfl, rfl, rfl⟩
      · split <;> exact ⟨rfl, rfl, rfl⟩
    have hrest := ih (orphan (picks ps.length) rid s p).2
    exact ⟨hrest.cfg.trans hstep.cfg, hrest.scratchBytes.trans hstep.scratchBytes,
      hrest.endpoint.trans hstep.endpoint⟩

lemma failRequest_config (s : BounceSender) (rid : ℕ) (req : Request)
    (reason : BounceFailReason) : SameConfig s (failRequest picks s rid req reason).2 := by
  have h := orphanAll_config picks rid req.posted s
  simp only [failRequest]
  generalize (if req.abandonReason ≠ .kNone then req.abandonReason else reason) = r
  split_ifs <;> exact ⟨h.cfg, h.scratchBytes, h.endpoint⟩

lemma failIf_config (s : BounceSender) (rid : ℕ)
    (reason : BounceFailReason) (cond : Request → Bool) :
    SameConfig s (failIf picks s rid reason cond).2 := by
  unfold failIf
  split
  · exact .refl s
  · split_ifs
    · exact failRequest_config picks s rid _ reason
    · exact .refl s

end

lemma onPosted_config {s : BounceSender} {rid i : ℕ}
    {f : Request → Posted → List SenderOutput × BounceSender}
    (hf : ∀ req p, SameConfig s (f req p).2) : SameConfig s (onPosted s rid i f).2 := by
  unfold onPosted
  split
  · exact .refl s
  · split
    · exact .refl s
    · exact hf _ _

/-- No event changes the configuration. -/
theorem step_config (s : BounceSender) (e : Event) : SameConfig s (step s e).2 := by
  cases e with
  | submit srcDescs dstDescs peer =>
    simp only [step, submit]
    split
    · exact ⟨rfl, rfl, rfl⟩
    · split_ifs <;> exact ⟨rfl, rfl, rfl⟩
  | announce | borrowCtx | returnCtx =>
    simp only [step]
    split <;> exact ⟨rfl, rfl, rfl⟩
  | pump ch rid =>
    simp only [step, pump]
    split
    · exact .refl s
    · rename_i req _
      have h := (pumpRequest_run ch s req).tables
      exact ⟨h.cfg, h.scratchBytes, h.endpoint⟩
  | grant ch peer rid credits =>
    simp only [step, onGrant]
    split
    · exact .refl s
    · rename_i req _
      split_ifs
      · have h := (pumpRequest_run ch s
          { req with pendingCredits := req.pendingCredits ++ credits }).tables
        exact ⟨h.cfg, h.scratchBytes, h.endpoint⟩
      · exact .refl s
  | ack pick peer rid k hd =>
    rcases onAck_cases pick s peer rid k hd with
      he | ⟨req, i, p, -, -, -, -, -, -, ⟨-, he⟩ | ⟨-, he⟩⟩ <;> rw [step, he]
    · exact .refl s
    · exact ⟨rfl, rfl, rfl⟩
    · exact ⟨rfl, rfl, rfl⟩
  | nack picks peer rid =>
    simp only [step, onNack]
    split
    · exact .refl s
    · split_ifs
      · exact failRequest_config picks s rid _ _
      · exact .refl s
  | gatherReady rid i =>
    refine onPosted_config fun req p => ?_
    split
    · split_ifs <;> exact ⟨rfl, rfl, rfl⟩
    · exact .refl s
  | postWrite | pollWrite =>
    refine onPosted_config fun req p => ?_
    split_ifs <;> exact ⟨rfl, rfl, rfl⟩
  | gatherFailed picks rid i => exact failIf_config picks s rid _ _
  | writeFailed picks rid i => exact failIf_config picks s rid _ _
  | timeout picks rid => exact failIf_config picks s rid _ _
  | forget picks peer rid => exact failIf_config picks s rid _ _
  | orphanLocal pick i =>
    simp only [step, drainOrphanLocal]
    split
    · exact .refl s
    · split_ifs <;> exact ⟨rfl, rfl, rfl⟩
  | pendingCancel rid =>
    simp only [step, drainPendingCancel]
    split
    · exact .refl s
    · split_ifs <;> exact ⟨rfl, rfl, rfl⟩
  | orphanGather pick i =>
    simp only [step, drainOrphanGather]
    split
    · exact .refl s
    · split_ifs <;> exact ⟨rfl, rfl, rfl⟩
  | kernelEnds | writeEnds | tick => exact ⟨rfl, rfl, rfl⟩
  | receiverCall pick c =>
    simp only [step]
    split_ifs <;> exact ⟨rfl, rfl, rfl⟩

end TrtLlm.BounceSender
