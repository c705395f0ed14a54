import TrtLlm.Bounce.SenderMoves

/-!
What the outputs of a sender show of a request.

`path` lists what has to happen to a chunk, in this order: its credit arrives, its write is posted
into the region of that credit, the write is seen to have landed, DATA is sent, and the peer of the
request acknowledges the chunk and the region.

* `ReqOk`: what holds of a request of the table: how far each of its chunks has come, that the
  counter `acked` counts the acknowledgements that the outputs show, and that no chunk in flight
  is among them.
-/

namespace TrtLlm.BounceSender

open CreditScheduler List Option Nat UMap

/-! ### What the outputs show -/

/-- The promise that an output resolves, counts for or enters into the table. -/
def mark : SenderOutput → Option ℕ
  | .submitted π _ _ _ => some π
  | .resolved π _ => some π
  | .acked π _ _ _ => some π
  | _ => none

/-- The output resolves the promise. -/
def resolves (π : ℕ) : SenderOutput → Bool
  | .resolved π' _ => π' = π
  | _ => false

/-- The output is an ACK that was counted for the promise. -/
def acks (π : ℕ) : SenderOutput → Bool
  | .acked π' _ _ _ => π' = π
  | _ => false

/-- The output is an ACK that was counted for this chunk of the promise. -/
def acksAt (π i : ℕ) : SenderOutput → Bool
  | .acked π' i' _ _ => π' = π ∧ i' = i
  | _ => false

variable {x : SenderOutput}

lemma resolves_mark {π : ℕ} (h : resolves π x = true) : mark x = some π := by
  cases x <;> simp_all [resolves, mark]

lemma acks_mark {π : ℕ} (h : acks π x = true) : mark x = some π := by
  cases x <;> simp_all [acks, mark]

lemma acksAt_acks {π i : ℕ} (h : acksAt π i x = true) : acks π x = true := by
  cases x <;> simp_all [acks, acksAt]

/-- A predicate that only holds of outputs about `π` counts nothing among other outputs. -/
lemma countP_append_of_mark {f : SenderOutput → Bool} {π : ℕ} {o : List SenderOutput}
    (hf : ∀ x, f x = true → mark x = some π) (ho : ∀ x ∈ o, mark x ≠ some π)
    (out : List SenderOutput) : (out ++ o).countP f = out.countP f := by
  have hz : o.countP f = 0 := countP_eq_zero.mpr fun x hx hfx => ho x hx (hf x hfx)
  rw [countP_append, hz, Nat.add_zero]

/-- What is shown of a chunk that was acknowledged, in order. -/
def path (π rid : ℕ) (peer : Bytes) (n i : ℕ) (cs : List BounceCreditEntry)
    (c : BounceCreditEntry) (bytes : ℕ) (runs : List BounceScatterRun) : List SenderOutput :=
  [.credited π cs, .wrote π i c.addr c.regionHandle bytes, .landed π i,
    .send peer (.data rid i n c.regionHandle runs), .acked π i c.regionHandle peer,
    .resolved π .success]

/-- The first `k` stations of its path are behind the chunk `i`, with a credit for the region
`h` at `addr`. -/
def Passed (out : List SenderOutput) (π rid : ℕ) (peer : Bytes) (n i k addr h : ℕ) : Prop :=
  ∃ cs c bytes runs, c ∈ cs ∧ c.addr = addr ∧ c.regionHandle = h
    ∧ ((path π rid peer n i cs c bytes runs).take k).Sublist out

section Passed

variable {out o : List SenderOutput} {π rid n i k addr h : ℕ} {peer : Bytes}

lemma Passed.mono (hp : Passed out π rid peer n i k addr h) :
    Passed (out ++ o) π rid peer n i k addr h := by
  obtain ⟨cs, c, bytes, runs, hc, ha, hh, hs⟩ := hp
  exact ⟨cs, c, bytes, runs, hc, ha, hh, hs.trans (sublist_append_left _ _)⟩

lemma passed_credited {cs : List BounceCreditEntry} {c : BounceCreditEntry}
    (hout : .credited π cs ∈ out) (hc : c ∈ cs) :
    Passed out π rid peer n i 1 c.addr c.regionHandle :=
  ⟨cs, c, 0, [], hc, rfl, rfl, singleton_sublist.mpr hout⟩

lemma Passed.wrote {bytes : ℕ} (hp : Passed out π rid peer n i 1 addr h)
    (ho : .wrote π i addr h bytes ∈ o) : Passed (out ++ o) π rid peer n i 2 addr h := by
  obtain ⟨cs, c, _, runs, hc, rfl, rfl, hs⟩ := hp
  exact ⟨cs, c, bytes, runs, hc, rfl, rfl, hs.append (singleton_sublist.mpr ho)⟩

lemma Passed.sent {runs : List BounceScatterRun} (hp : Passed out π rid peer n i 2 addr h)
    (ho : [.landed π i, .send peer (.data rid i n h runs)].Sublist o) :
    Passed (out ++ o) π rid peer n i 4 addr h := by
  obtain ⟨cs, c, bytes, _, hc, rfl, rfl, hs⟩ := hp
  exact ⟨cs, c, bytes, runs, hc, rfl, rfl, hs.append ho⟩

lemma Passed.acked (hp : Passed out π rid peer n i 4 addr h) (ho : .acked π i h peer ∈ o) :
    Passed (out ++ o) π rid peer n i 5 addr h := by
  obtain ⟨cs, c, bytes, runs, hc, rfl, rfl, hs⟩ := hp
  exact ⟨cs, c, bytes, runs, hc, rfl, rfl, hs.append (singleton_sublist.mpr ho)⟩

lemma Passed.resolved (hp : Passed out π rid peer n i 5 addr h)
    (ho : .resolved π .success ∈ o) : Passed (out ++ o) π rid peer n i 6 addr h := by
  obtain ⟨cs, c, bytes, runs, hc, rfl, rfl, hs⟩ := hp
  exact ⟨cs, c, bytes, runs, hc, rfl, rfl, hs.append (singleton_sublist.mpr ho)⟩

end Passed

/-! ### A request of the table -/

/-- How far along its path a posted chunk is. -/
def station (p : Posted) : ℕ :=
  match p.state with
  | .writing => 2
  | .sent => 4
  | _ => 1

/-- What holds of a request of the table. -/
structure ReqOk (out : List SenderOutput) (rid : ℕ) (req : Request) : Prop where
  submitted : .submitted req.promise rid req.peer req.numChunks ∈ out
  unresolved : out.countP (resolves req.promise) = 0
  counted : out.countP (acks req.promise) = req.acked
  posted_len : req.acked + req.posted.length = req.nextPost
  post_le : req.nextPost ≤ req.numChunks
  nodup : (req.posted.map Posted.chunkIdx).Nodup
  posted_lt : ∀ p ∈ req.posted, p.chunkIdx < req.nextPost
  fresh : ∀ p ∈ req.posted, out.countP (acksAt req.promise p.chunkIdx) = 0
  fresh_ge : ∀ i, req.nextPost ≤ i → out.countP (acksAt req.promise i) = 0
  done : ∀ i < req.nextPost, i ∈ req.posted.map Posted.chunkIdx
    ∨ ∃ addr h, Passed out req.promise rid req.peer req.numChunks i 5 addr h
  parked : ∀ c ∈ req.pendingCredits, ∃ cs, c ∈ cs ∧ .credited req.promise cs ∈ out
  credited : ∀ p ∈ req.posted, p.hasCredit = true →
    Passed out req.promise rid req.peer req.numChunks p.chunkIdx (station p) p.remoteAddr
      p.remoteHandle
  writing : ∀ p ∈ req.posted, p.state = .writing ∨ p.state = .sent → p.hasCredit = true

variable {o out : List SenderOutput} {req req' : Request} {rid : ℕ} {s s' : BounceSender}

/-- Outputs about other requests change nothing. -/
lemma ReqOk.mono (h : ReqOk out rid req)
    (ho : ∀ x ∈ o, mark x ≠ some req.promise) : ReqOk (out ++ o) rid req := by
  have hat : ∀ i, (out ++ o).countP (acksAt req.promise i) = out.countP (acksAt req.promise i) :=
    fun i => countP_append_of_mark (fun x hx => acks_mark (acksAt_acks hx)) ho out
  refine ⟨mem_append_left _ h.submitted, ?_, ?_, h.posted_len, h.post_le, h.nodup,
    h.posted_lt, fun p hp => ?_, fun i hi => ?_, fun i hi => ?_, fun c hc => ?_, fun p hp hcr => ?_,
    h.writing⟩
  · rw [countP_append_of_mark (fun x => resolves_mark) ho]
    exact h.unresolved
  · rw [countP_append_of_mark (fun x => acks_mark) ho]
    exact h.counted
  · rw [hat]
    exact h.fresh p hp
  · rw [hat]
    exact h.fresh_ge i hi
  · exact (h.done i hi).imp_right fun ⟨addr, hd, hp⟩ => ⟨addr, hd, hp.mono⟩
  · obtain ⟨cs, hcs, hm⟩ := h.parked c hc
    exact ⟨cs, hcs, mem_append_left _ hm⟩
  · exact (h.credited p hp hcr).mono

/-! ### Moves of a pump pass -/

/-- Outputs that are about no promise mark none. -/
lemma mark_of_owner {x : SenderOutput} (h : owner x = none) : mark x = none := by
  cases x <;> simp_all [owner, mark]

lemma mark_tookCredit {x : SenderOutput} (h : x ∈ tookCredit req) : mark x = none := by
  rw [tookCredit] at h
  split_ifs at h
  · obtain rfl := mem_singleton.mp h
    rfl
  · simp at h

/-- A pump pass resolves no promise and counts no ACK. -/
lemma PumpMove.mark (m : PumpMove s req o s' req') : ∀ x ∈ o, mark x = none := by
  intro x hx
  cases m with
  | clear | skip | rotate => simp at hx
  | attach | abandon =>
    obtain rfl := mem_singleton.mp hx
    rfl
  | stage =>
    rcases mem_cons.mp hx with rfl | hx
    · rfl
    rcases mem_append.mp hx with hx | hx
    · exact mark_tookCredit hx
    · obtain rfl := mem_singleton.mp hx
      rfl
  | overflow =>
    rcases mem_cons.mp hx with rfl | hx
    · rfl
    rcases mem_append.mp hx with hx | hx
    · exact mark_tookCredit hx
    rcases mem_append.mp hx with hx | hx
    · exact mark_of_owner (owner_release hx)
    · obtain rfl := mem_singleton.mp hx
      rfl

lemma PumpRun.mark (h : PumpRun s req o s' req') : ∀ x ∈ o, mark x = none := by
  intro x hx
  induction h with
  | refl => simp at hx
  | head m _ ih =>
    rcases mem_append.mp hx with hx | hx
    · exact m.mark x hx
    · exact ih hx

/-- Fewer parked credits are parked credits. -/
lemma ReqOk.fewer (h : ReqOk out rid req)
    {cs : List BounceCreditEntry} (hcs : cs ⊆ req.pendingCredits) (k : ℕ) (r : BounceFailReason)
    (t : ℤ) :
    ReqOk out rid { req with
      pendingCredits := cs, nextCredit := k, abandonReason := r, lastProgress := t } :=
  ⟨h.submitted, h.unresolved, h.counted, h.posted_len, h.post_le, h.nodup, h.posted_lt, h.fresh,
    h.fresh_ge, h.done, fun c hc => h.parked c (hcs hc), h.credited, h.writing⟩

/-- One posted chunk is replaced by another at the same index. -/
lemma ReqOk.replace (h : ReqOk out rid req)
    {l₁ l₂ : List Posted} {p q : Posted} (hl : req.posted = l₁ ++ p :: l₂)
    (hidx : q.chunkIdx = p.chunkIdx)
    (hcr : q.hasCredit = true → Passed out req.promise rid req.peer req.numChunks q.chunkIdx
      (station q) q.remoteAddr q.remoteHandle)
    (hw : q.state = .writing ∨ q.state = .sent → q.hasCredit = true) :
    ReqOk out rid { req with posted := l₁ ++ q :: l₂ } := by
  have hmap : (l₁ ++ q :: l₂).map Posted.chunkIdx = req.posted.map Posted.chunkIdx := by
    simp [hl, hidx]
  have hmem : ∀ r ∈ l₁ ++ q :: l₂, r ∈ req.posted ∨ r = q := by
    intro r hr
    rw [hl]
    simp only [mem_append, mem_cons] at hr ⊢
    tauto
  have hpm : p ∈ req.posted := by simp [hl]
  refine ⟨h.submitted, h.unresolved, h.counted, ?_, h.post_le, hmap ▸ h.nodup, fun r hr => ?_,
    fun r hr => ?_, h.fresh_ge, fun i hi => ?_, h.parked, fun r hr hrc => ?_, fun r hr hrs => ?_⟩
  · have := h.posted_len
    simpa [hl] using this
  · rcases hmem r hr with hr | rfl
    · exact h.posted_lt r hr
    · exact hidx ▸ h.posted_lt p hpm
  · rcases hmem r hr with hr | rfl
    · exact h.fresh r hr
    · exact hidx ▸ h.fresh p hpm
  · rw [hmap]
    exact h.done i hi
  · rcases hmem r hr with hr | rfl
    · exact h.credited r hr hrc
    · exact hcr hrc
  · rcases hmem r hr with hr | rfl
    · exact h.writing r hr hrs
    · exact hw hrs

/-- A chunk is posted. -/
lemma ReqOk.post {out : List SenderOutput} {rid : ℕ} {req : Request} (h : ReqOk out rid req)
    (hlt : req.nextPost < req.numChunks) {p : Posted} (hidx : p.chunkIdx = req.nextPost)
    (hst : p.state = .gathering ∨ p.state = .gatherFailed)
    (hcr : p.hasCredit = true → Passed out req.promise rid req.peer req.numChunks p.chunkIdx 1
      p.remoteAddr p.remoteHandle) :
    ReqOk out rid { req with posted := req.posted ++ [p], nextPost := req.nextPost + 1 } := by
  have hmem : ∀ r ∈ req.posted ++ [p], r ∈ req.posted ∨ r = p := fun r hr => by simpa using hr
  refine ⟨h.submitted, h.unresolved, h.counted, ?_, hlt, ?_, fun r hr => ?_, fun r hr => ?_,
    fun i hi => h.fresh_ge i (le_of_succ_le hi), fun i hi => ?_, h.parked, fun r hr hrc => ?_,
    fun r hr hrs => ?_⟩
  · have := h.posted_len
    simp only [length_append, length_singleton]
    omega
  · rw [map_append, map_singleton, nodup_append]
    refine ⟨h.nodup, nodup_singleton _, fun a ha b hb => ?_⟩
    obtain ⟨r, hr, rfl⟩ := List.mem_map.mp ha
    obtain rfl := mem_singleton.mp hb
    exact hidx ▸ (h.posted_lt r hr).ne
  · rcases hmem r hr with hr | rfl
    · exact lt_succ_of_lt (h.posted_lt r hr)
    · exact hidx ▸ lt_succ_self _
  · rcases hmem r hr with hr | rfl
    · exact h.fresh r hr
    · exact h.fresh_ge _ hidx.ge
  · rw [map_append, mem_append]
    rcases Nat.lt_succ_iff_lt_or_eq.mp hi with hi | rfl
    · exact (h.done i hi).imp_left Or.inl
    · exact .inl (.inr (by simp [hidx]))
  · rcases hmem r hr with hr | rfl
    · exact h.credited r hr hrc
    · have hstation : station r = 1 := by rcases hst with h' | h' <;> simp [station, h']
      rw [hstation]
      exact hcr hrc
  · rcases hmem r hr with hr | rfl
    · exact h.writing r hr hrs
    · rcases hst with h' | h' <;> simp [h'] at hrs

/-- **A move of a pump pass keeps the request.** -/
lemma ReqOk.pump (h : ReqOk out rid req) (m : PumpMove s req o s' req') :
    ReqOk (out ++ o) rid req' := by
  refine (?_ : ReqOk out rid req').mono fun x hx => by simp [m.mark x hx]
  cases m with
  | clear | abandon | overflow => exact h.fewer (nil_subset _) _ _ _
  | skip _ hp => exact h.fewer (by simp [hp]) _ _ _
  | @attach cr rest target _ hp _ hfound hwaits _ =>
    obtain ⟨l₁, l₂, hl, hcf, hk⟩ := creditFirst_cut hfound cr
    obtain ⟨cs, hcs, hm⟩ := h.parked cr (by simp [hp])
    rw [hcf]
    refine (h.replace hl (q := credit target cr) rfl (fun _ => ?_) (fun hs => rfl)).fewer ?_ _ _ _
    · have hgather : station (credit target cr) = 1 := by
        have hnw := mt (h.writing target (by simp [hl])) (by simp [hwaits])
        cases hstate : target.state <;> simp_all [station, credit]
      rw [hgather]
      exact passed_credited hm hcs
    · simp [hp]
  | rotate => exact h
  | @stage ctx off _ _ _ ch hst =>
    have hcr : ∀ c ∈ req.pendingCredits.head?, ∃ cs, c ∈ cs ∧ .credited req.promise cs ∈ out :=
      fun c hc => h.parked c (mem_of_mem_head? hc)
    refine ((h.fewer (tail_subset _) (takeCredit req).nextCredit _ s.now).post
      hst.left ?_ ?_ ?_)
    · cases req.pendingCredits.head? <;> rfl
    · cases req.pendingCredits.head? <;> exact newPosted_state ch (takeCredit req) ctx off
    · cases hp : req.pendingCredits.head? with
      | none => simp [newPosted]
      | some c =>
        intro _
        obtain ⟨cs, hcs, hm⟩ := hcr c (by simp [hp])
        exact passed_credited hm hcs

end TrtLlm.BounceSender
