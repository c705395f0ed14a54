import TrtLlm.Bounce.SenderCompletion

/-!
How the credits and the chunks of one request are paired.

A request takes its credits in the order of their arrival, and chunk number `i` gets the
credit number `i`: at the launch of its gather, or later if the chunk was gathered early.  Two
cursors, `nextCredit` and `nextPost`, run over the chunks.

* `received`: the credits of a request in the order of their arrival;
* `PairOk`: what holds of the cursors, the parked credits and the posted chunks;
* `PairOk.pump`: a pump pass keeps it.  The branch in which the plan of a chunk does not fit an
  exec context would leave `nextCredit` ahead of `nextPost`; it is not taken, since the plans
  and the contexts are made for the same number of descriptors.
-/

namespace TrtLlm.BounceSender

open CreditScheduler List Option Nat UMap

/-! ### The pairing of one request -/

/-- The credits that a request received. -/
def received (π : ℕ) (out : List SenderOutput) : List BounceCreditEntry :=
  out.flatMap fun
    | .credited π' cs => if π' = π then cs else []
    | _ => []

/-- The chunk `i` writes at most `bytes` bytes into the region of the `i`-th credit. -/
def Paired (cs : List BounceCreditEntry) (i addr h bytes : ℕ) : Prop :=
  ∃ c, cs[i]? = some c ∧ c.addr = addr ∧ c.regionHandle = h ∧ bytes ≤ c.len

lemma Paired.mono {cs ds : List BounceCreditEntry} {i addr h bytes : ℕ}
    (hp : Paired cs i addr h bytes) : Paired (cs ++ ds) i addr h bytes := by
  obtain ⟨c, hc, hrest⟩ := hp
  obtain ⟨hi, -⟩ := List.getElem?_eq_some_iff.mp hc
  exact ⟨c, by rw [getElem?_append_left hi, hc], hrest⟩

/-- The cursors, the parked credits and the posted chunks of a request that received the credits
`cs`. -/
structure PairOk (maxDescs : ℕ) (cs : List BounceCreditEntry) (req : Request) : Prop where
  credit_le : req.nextCredit ≤ req.nextPost
  post_le : req.nextPost ≤ req.numChunks
  credit_len : req.nextCredit ≤ cs.length
  parked : req.abandonReason = .kNone → req.nextCredit < req.numChunks →
    req.pendingCredits = cs.drop req.nextCredit
  nodup : (req.posted.map Posted.chunkIdx).Nodup
  posted_lt : ∀ p ∈ req.posted, p.chunkIdx < req.nextPost
  waiting : ∀ i, req.nextCredit ≤ i → i < req.nextPost →
    ∃ p ∈ req.posted, p.chunkIdx = i ∧ p.hasCredit = false
  uncredited : ∀ p ∈ req.posted, p.hasCredit = false → req.nextCredit ≤ p.chunkIdx
  credited : ∀ p ∈ req.posted, p.hasCredit = true → p.chunkIdx < req.nextCredit
    ∧ Paired cs p.chunkIdx p.remoteAddr p.remoteHandle p.writeBytes
  bytes : ∀ p ∈ req.posted, p.writeBytes ≤ (chunkAt req p.chunkIdx).packedBytes
  writing : ∀ p ∈ req.posted, p.state = .writing ∨ p.state = .sent → p.hasCredit = true
  plan_fits : ∀ c ∈ req.plan.mChunks, BounceTransferPlan.ChunkFits maxDescs c

section PairOk

variable {maxDescs : ℕ} {cs : List BounceCreditEntry} {req req' : Request} {s s' : BounceSender}
  {o : List SenderOutput}

variable {p : Posted}

variable (h : PairOk maxDescs cs req)
include h

/-- The front of the parked credits is the credit number `nextCredit`. -/
lemma PairOk.front (ha : req.abandonReason = .kNone)
    (hlt : req.nextCredit < req.numChunks) {c : BounceCreditEntry} {rest : List BounceCreditEntry}
    (hp : req.pendingCredits = c :: rest) :
    cs[req.nextCredit]? = some c ∧ rest = cs.drop (req.nextCredit + 1)
      ∧ req.nextCredit < cs.length := by
  have hd : cs.drop req.nextCredit = c :: rest := (h.parked ha hlt).symm.trans hp
  have hlen : req.nextCredit < cs.length := by
    by_contra hge
    rw [drop_eq_nil_of_le (not_lt.mp hge)] at hd
    cases hd
  rw [drop_eq_getElem_cons hlen] at hd
  obtain ⟨h1, h2⟩ := cons.inj hd
  exact ⟨by rw [getElem?_eq_getElem hlen, h1], h2.symm, hlen⟩

/-- A request that is abandoned, or has all its credits, may drop the parked ones. -/
lemma PairOk.drop {r : BounceFailReason} (hr : r ≠ .kNone ∨ req.numChunks ≤ req.nextCredit) :
    PairOk maxDescs cs { req with pendingCredits := [], abandonReason := r } :=
  ⟨h.credit_le, h.post_le, h.credit_len, fun ha hlt => (hr.elim (absurd ha) (absurd hlt ·.not_gt)),
    h.nodup, h.posted_lt, h.waiting, h.uncredited, h.credited, h.bytes, h.writing, h.plan_fits⟩

/-- The plan of a chunk fits the exec contexts. -/
lemma PairOk.entries_le (hroom : maxDescs ≤ s.exec.maxPlanEntries) :
    nextEntries s req ≤ s.exec.maxPlanEntries := by
  refine planEntries_le _ _ 0 ?_
  have hchunk : (chunkAt req req.nextPost).srcPtrs.length ≤ maxDescs := by
    rw [chunkAt, getD_eq_getElem?_getD]
    cases hc : req.plan.mChunks[req.nextPost]? with
    | none => simp
    | some c => exact (h.plan_fits c (mem_of_getElem? hc)).descs
  rw [length_take]
  omega

/-- A parked credit goes to a chunk that was gathered early. -/
lemma PairOk.attach (ha : req.abandonReason = .kNone)
    {c : BounceCreditEntry} {rest : List BounceCreditEntry} (hp : req.pendingCredits = c :: rest)
    (hlt : req.nextCredit < req.nextPost) {target : Posted}
    (hfound : req.posted.find? (fun p => p.chunkIdx = req.nextCredit) = some target)
    (hfits : (chunkAt req target.chunkIdx).packedBytes ≤ c.len) (t : ℤ) :
    PairOk maxDescs cs { req with
      posted := creditFirst req.nextCredit c req.posted
      pendingCredits := rest
      nextCredit := req.nextCredit + 1
      lastProgress := t } := by
  obtain ⟨hget, hrest, hlen⟩ := h.front ha (lt_of_lt_of_le hlt h.post_le) hp
  obtain ⟨l₁, l₂, hl, hcf, hk⟩ := creditFirst_cut hfound c
  have htm : target ∈ req.posted := by simp [hl]
  have hmap : (l₁ ++ credit target c :: l₂).map Posted.chunkIdx
      = req.posted.map Posted.chunkIdx := by
    simp [hl, credit]
  have hmem : ∀ r ∈ l₁ ++ credit target c :: l₂, r = credit target c
      ∨ (r ∈ req.posted ∧ r.chunkIdx ≠ req.nextCredit) := by
    have hnodup := h.nodup
    rw [hl, map_append, map_cons] at hnodup
    have hne := nodup_middle.mp hnodup
    rw [nodup_cons, ← map_append] at hne
    intro r hr
    simp only [mem_append, mem_cons] at hr
    have hcase : r = credit target c ∨ r ∈ l₁ ++ l₂ := by
      rw [mem_append]
      tauto
    refine hcase.imp_right fun hr => ⟨?_, fun he => hne.1 ?_⟩
    · rw [hl]
      simp only [mem_append, mem_cons] at hr ⊢
      tauto
    · rw [hk, ← he]
      exact List.mem_map_of_mem hr
  rw [hcf]
  refine ⟨hlt, h.post_le, hlen, fun _ _ => hrest, hmap ▸ h.nodup, fun r hr => ?_,
    fun i hi hip => ?_, fun r hr hcr => ?_, fun r hr hcr => ?_, fun r hr => ?_, fun r hr hst => ?_,
    h.plan_fits⟩
  · rcases hmem r hr with rfl | ⟨hr, -⟩
    · exact h.posted_lt target htm
    · exact h.posted_lt r hr
  · obtain ⟨p, hpm, rfl, hpc⟩ := h.waiting i (le_of_succ_le hi) hip
    refine ⟨p, ?_, rfl, hpc⟩
    rw [hl] at hpm
    simp only [mem_append, mem_cons] at hpm ⊢
    rcases hpm with hpm | rfl | hpm
    · exact .inl hpm
    · exact absurd hi (by rw [hk]; exact not_succ_le_self _)
    · exact .inr (.inr hpm)
  · rcases hmem r hr with rfl | ⟨hr, hne⟩
    · cases hcr
    · have := h.uncredited r hr hcr
      exact lt_of_le_of_ne this (Ne.symm hne)
  · rcases hmem r hr with rfl | ⟨hr, -⟩
    · refine ⟨hk.symm ▸ lt_succ_self _, c, hk.symm ▸ hget, rfl, rfl, ?_⟩
      exact (h.bytes target htm).trans hfits
    · exact ⟨lt_succ_of_lt (h.credited r hr hcr).1, (h.credited r hr hcr).2⟩
  · rcases hmem r hr with rfl | ⟨hr, -⟩
    · exact h.bytes target htm
    · exact h.bytes r hr
  · rcases hmem r hr with rfl | ⟨hr, -⟩
    · rfl
    · exact h.writing r hr hst

/-- The indices of the posted chunks stay distinct when the next chunk is posted. -/
lemma PairOk.post_nodup (hidx : p.chunkIdx = req.nextPost) :
    ((req.posted ++ [p]).map Posted.chunkIdx).Nodup := by
  rw [map_append, map_singleton, nodup_append]
  refine ⟨h.nodup, nodup_singleton _, fun a ha b hb => ?_⟩
  obtain ⟨r, hr, rfl⟩ := List.mem_map.mp ha
  obtain rfl := mem_singleton.mp hb
  exact hidx ▸ (h.posted_lt r hr).ne

/-- A chunk is posted before its credit arrived. -/
lemma PairOk.postEarly (hlt : req.nextPost < req.numChunks)
    (hidx : p.chunkIdx = req.nextPost) (hcr : p.hasCredit = false)
    (hbytes : p.writeBytes ≤ (chunkAt req p.chunkIdx).packedBytes)
    (hst : p.state = .gathering ∨ p.state = .gatherFailed) (t : ℤ) :
    PairOk maxDescs cs { req with
      posted := req.posted ++ [p], nextPost := req.nextPost + 1, lastProgress := t } := by
  have hmem : ∀ r ∈ req.posted ++ [p], r ∈ req.posted ∨ r = p := fun r hr => by simpa using hr
  refine ⟨h.credit_le.trans (le_succ _), hlt, h.credit_len, h.parked, h.post_nodup hidx,
    fun r hr => ?_, fun i hi hip => ?_, fun r hr hrc => ?_, fun r hr hrc => ?_, fun r hr => ?_,
    fun r hr hrs => ?_, h.plan_fits⟩
  · rcases hmem r hr with hr | rfl
    · exact lt_succ_of_lt (h.posted_lt r hr)
    · exact hidx ▸ lt_succ_self _
  · rcases Nat.lt_succ_iff_lt_or_eq.mp hip with hip | rfl
    · obtain ⟨r, hr, hrest⟩ := h.waiting i hi hip
      exact ⟨r, mem_append_left _ hr, hrest⟩
    · exact ⟨p, by simp, hidx, hcr⟩
  · rcases hmem r hr with hr | rfl
    · exact h.uncredited r hr hrc
    · exact hidx ▸ h.credit_le
  · rcases hmem r hr with hr | rfl
    · exact h.credited r hr hrc
    · simp [hcr] at hrc
  · rcases hmem r hr with hr | rfl
    · exact h.bytes r hr
    · exact hbytes
  · rcases hmem r hr with hr | rfl
    · exact h.writing r hr hrs
    · rcases hst with h' | h' <;> simp [h'] at hrs

/-- A chunk is posted with its credit: the cursors are at the same place. -/
lemma PairOk.postCredited (ha : req.abandonReason = .kNone)
    (hlt : req.nextPost < req.numChunks) (hready : req.nextPost ≤ req.nextCredit)
    {c : BounceCreditEntry} {rest : List BounceCreditEntry} (hp : req.pendingCredits = c :: rest)
    (hidx : p.chunkIdx = req.nextPost) (hcr : p.hasCredit = true)
    (haddr : c.addr = p.remoteAddr) (hhandle : c.regionHandle = p.remoteHandle)
    (hbytes : p.writeBytes ≤ (chunkAt req p.chunkIdx).packedBytes)
    (hfits : (chunkAt req p.chunkIdx).packedBytes ≤ c.len) (t : ℤ) :
    PairOk maxDescs cs { req with
      posted := req.posted ++ [p]
      pendingCredits := rest
      nextCredit := req.nextCredit + 1
      nextPost := req.nextPost + 1
      lastProgress := t } := by
  have heq : req.nextCredit = req.nextPost := le_antisymm h.credit_le hready
  obtain ⟨hget, hrest, hlen⟩ := h.front ha (heq ▸ hlt) hp
  have hmem : ∀ r ∈ req.posted ++ [p], r ∈ req.posted ∨ r = p := fun r hr => by simpa using hr
  have hpaired : Paired cs p.chunkIdx p.remoteAddr p.remoteHandle p.writeBytes :=
    ⟨c, by rw [hidx, ← heq, hget], haddr, hhandle, hbytes.trans hfits⟩
  refine ⟨succ_le_succ h.credit_le, hlt, hlen, fun _ _ => hrest, h.post_nodup hidx,
    fun r hr => ?_, fun i hi hip => ?_, fun r hr hrc => ?_, fun r hr hrc => ?_, fun r hr => ?_,
    fun r hr hrs => ?_, h.plan_fits⟩
  · rcases hmem r hr with hr | rfl
    · exact lt_succ_of_lt (h.posted_lt r hr)
    · exact hidx ▸ lt_succ_self _
  · have : req.nextCredit + 1 ≤ i := hi
    have : i < req.nextPost + 1 := hip
    omega
  · rcases hmem r hr with hr | rfl
    · have := h.uncredited r hr hrc
      have := h.posted_lt r hr
      omega
    · simp [hcr] at hrc
  · rcases hmem r hr with hr | rfl
    · exact ⟨lt_succ_of_lt (h.credited r hr hrc).1, (h.credited r hr hrc).2⟩
    · exact ⟨by rw [hidx, ← heq]; exact lt_succ_self _, hpaired⟩
  · rcases hmem r hr with hr | rfl
    · exact h.bytes r hr
    · exact hbytes
  · rcases hmem r hr with hr | rfl
    · exact h.writing r hr hrs
    · exact hcr

/-- **A move of a pump pass keeps the pairing.** -/
lemma PairOk.pump (hroom : maxDescs ≤ s.exec.maxPlanEntries)
    (m : PumpMove s req o s' req') : PairOk maxDescs cs req' := by
  cases m with
  | clear hc => exact h.drop hc
  | skip ha hp hlt htaken =>
    -- the chunk `nextCredit` is posted and waits for its credit
    obtain ⟨p, hpm, hpk, hpc⟩ := h.waiting req.nextCredit le_rfl hlt
    cases hf : req.posted.find? fun p => p.chunkIdx = req.nextCredit with
    | none => simpa [hpk] using find?_eq_none.mp hf p hpm
    | some q =>
      have hq := (h.credited q (mem_of_find?_eq_some hf) (htaken q hf)).1
      have hqk : q.chunkIdx = req.nextCredit := by simpa using find?_some hf
      omega
  | attach ha hp hlt hfound _ hfits => exact h.attach ha hp hlt hfound hfits s.now
  | abandon => exact h.drop (.inl (by simp))
  | rotate => exact h
  | @stage ctx off free _ c ch hst =>
    cases hp : req.pendingCredits with
    | nil =>
      have hpost := h.postEarly hst.left (p := newPosted ch req ctx off) rfl rfl
        (mod_le _ _) (newPosted_state ch req ctx off) s.now
      rw [takeCredit_nil hp]
      exact hpost
    | cons cr rest =>
      have hpost := h.postCredited hst.alive hst.left (hst.ready (by simp [hp])) hp
        (p := credit (newPosted ch req ctx off) cr) rfl rfl rfl rfl (mod_le _ _)
        (hst.fits cr (by simp [hp])) s.now
      rw [takeCredit_cons hp]
      exact hpost
  | overflow _ _ hentries => exact absurd (h.entries_le hroom) (not_le.mpr hentries)

/-- Credits arrive. -/
lemma PairOk.park (credits : List BounceCreditEntry) : PairOk maxDescs (cs ++ credits)
      { req with pendingCredits := req.pendingCredits ++ credits } := by
  refine ⟨h.credit_le, h.post_le, ?_, fun ha hlt => ?_, h.nodup, h.posted_lt, h.waiting,
    h.uncredited, fun p hp hc => ⟨(h.credited p hp hc).1, (h.credited p hp hc).2.mono⟩, h.bytes,
    h.writing, h.plan_fits⟩
  · have := h.credit_len
    simp only [length_append]
    omega
  · rw [drop_append_of_le_length h.credit_len, h.parked ha hlt]

/-- A posted chunk takes a step of its own. -/
lemma PairOk.setPosted {i : ℕ} (hp : req.posted[i]? = some p) (ctx : Option ℕ)
    (xfer : Option Transfer) (st : PostState)
    (hst : st = .writing ∨ st = .sent → p.hasCredit = true) (t : ℤ) :
    PairOk maxDescs cs { req with
      posted := req.posted.set i { p with ctx := ctx, xfer := xfer, state := st }
      lastProgress := t } := by
  obtain ⟨l₁, l₂, hl, hset, -⟩ := exists_cut hp
  rw [hset]
  set q : Posted := { p with ctx := ctx, xfer := xfer, state := st } with hq
  have hmap : (l₁ ++ q :: l₂).map Posted.chunkIdx = req.posted.map Posted.chunkIdx := by
    simp [hl, hq]
  have hpm : p ∈ req.posted := by simp [hl]
  have hmem : ∀ r ∈ l₁ ++ q :: l₂, r = q ∨ r ∈ req.posted := by
    intro r hr
    rw [hl]
    simp only [mem_append, mem_cons] at hr ⊢
    tauto
  refine ⟨h.credit_le, h.post_le, h.credit_len, h.parked, hmap ▸ h.nodup, fun r hr => ?_,
    fun j hj hjp => ?_, fun r hr hrc => ?_, fun r hr hrc => ?_, fun r hr => ?_, fun r hr hrs => ?_,
    h.plan_fits⟩
  · rcases hmem r hr with rfl | hr
    · exact h.posted_lt p hpm
    · exact h.posted_lt r hr
  · obtain ⟨r, hr, rfl, hrc⟩ := h.waiting j hj hjp
    rw [hl] at hr
    simp only [mem_append, mem_cons] at hr
    rcases hr with hr | rfl | hr
    · exact ⟨r, by simp [hr], rfl, hrc⟩
    · exact ⟨q, by simp, rfl, hrc⟩
    · exact ⟨r, by simp [hr], rfl, hrc⟩
  · rcases hmem r hr with rfl | hr
    · exact h.uncredited p hpm hrc
    · exact h.uncredited r hr hrc
  · rcases hmem r hr with rfl | hr
    · exact h.credited p hpm hrc
    · exact h.credited r hr hrc
  · rcases hmem r hr with rfl | hr
    · exact h.bytes p hpm
    · exact h.bytes r hr
  · rcases hmem r hr with rfl | hr
    · exact hst hrs
    · exact h.writing r hr hrs

/-- A sent chunk is acknowledged; no chunk that waits for its credit is lost. -/
lemma PairOk.acknowledge {i : ℕ} (hp : req.posted[i]? = some p) (hst : p.state = .sent) (k : ℕ)
    (t : ℤ) :
    PairOk maxDescs cs { req with
      posted := req.posted.eraseIdx i, acked := k, lastProgress := t } := by
  obtain ⟨l₁, l₂, hl, -, herase⟩ := exists_cut hp
  rw [herase]
  have hpc : p.hasCredit = true := h.writing p (by simp [hl]) (.inr hst)
  have hsub : (l₁ ++ l₂).Sublist req.posted := by
    rw [hl]
    exact (Sublist.refl l₁).append (sublist_cons_self p l₂)
  refine ⟨h.credit_le, h.post_le, h.credit_len, h.parked,
    (hsub.map Posted.chunkIdx).nodup h.nodup, fun r hr => h.posted_lt r (hsub.subset hr),
    fun j hj hjp => ?_, fun r hr => h.uncredited r (hsub.subset hr),
    fun r hr => h.credited r (hsub.subset hr), fun r hr => h.bytes r (hsub.subset hr),
    fun r hr => h.writing r (hsub.subset hr), h.plan_fits⟩
  obtain ⟨r, hr, rfl, hrc⟩ := h.waiting j hj hjp
  rw [hl] at hr
  simp only [mem_append, mem_cons] at hr
  rcases hr with hr | rfl | hr
  · exact ⟨r, by simp [hr], rfl, hrc⟩
  · simp [hpc] at hrc
  · exact ⟨r, by simp [hr], rfl, hrc⟩

end PairOk

end TrtLlm.BounceSender
