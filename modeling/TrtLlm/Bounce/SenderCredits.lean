import TrtLlm.Bounce.CreditPairing

/-!
How credits and chunks are paired.

* `Sound`: the pairing of a request and what the outputs show of it;
* `Pairing`: it holds of every request of the table;
* `sender_credit_pairing`: **the pairing in every run** of a sender.
-/

namespace TrtLlm.BounceSender

open CreditScheduler List Option Nat UMap

/-! ### What the outputs show -/

variable {o : List SenderOutput}

@[simp] lemma received_append (π : ℕ) (out o : List SenderOutput) :
    received π (out ++ o) = received π out ++ received π o := flatMap_append

/-- Outputs about other promises carry no credits. -/
lemma received_eq_nil {π : ℕ} (h : ∀ x ∈ o, ∀ cs, x ≠ .credited π cs) : received π o = [] := by
  refine flatMap_eq_nil_iff.mpr fun x hx => ?_
  split
  · rename_i π' cs
    split_ifs with he
    · exact absurd (he ▸ rfl) (h _ hx cs)
    · rfl
  · rfl

lemma received_of_owner {π : ℕ} (h : ∀ x ∈ o, owner x ≠ some π) : received π o = [] :=
  received_eq_nil fun x hx cs he => h x hx (by rw [he]; rfl)

/-- The output shows that the request took a credit or launched a gather. -/
def starts (π : ℕ) : SenderOutput → Bool
  | .attached π' _ => π' = π
  | .launched π' _ => π' = π
  | _ => false

lemma starts_owner {π : ℕ} {x : SenderOutput} (h : starts π x = true) : owner x = some π := by
  cases x <;> simp_all [starts, owner]

/-- After a request was abandoned it takes no credit and launches no gather. -/
def Ordered (out : List SenderOutput) : Prop :=
  out.Pairwise fun x y => ∀ π, x = .abandoned π → starts π y = false

lemma Ordered.append {out : List SenderOutput} (h : Ordered out) (ho : Ordered o)
    (hx : ∀ π, .abandoned π ∈ out → ∀ y ∈ o, starts π y = false) : Ordered (out ++ o) :=
  pairwise_append.mpr ⟨h, ho, fun _ hxo y hy π he => hx π (he ▸ hxo) y hy⟩

lemma ordered_of_not_abandoned (h : ∀ π, .abandoned π ∉ o) : Ordered o :=
  (pairwise_of_forall fun _ _ => trivial).imp_of_mem fun hx _ _ π he => absurd (he ▸ hx) (h π)

/-- Every write went to the region of the credit of its chunk. -/
def Wrote (out : List SenderOutput) : Prop :=
  ∀ π i addr h bytes, .wrote π i addr h bytes ∈ out → Paired (received π out) i addr h bytes

lemma Wrote.append {out : List SenderOutput} (h : Wrote out)
    (ho : ∀ π i addr h bytes, .wrote π i addr h bytes ∈ o →
      Paired (received π (out ++ o)) i addr h bytes) : Wrote (out ++ o) := by
  intro π i addr hd bytes hw
  rcases mem_append.mp hw with hw | hw
  · rw [received_append]
    exact (h π i addr hd bytes hw).mono
  · exact ho π i addr hd bytes hw

/-! ### A request and its outputs -/

/-- The pairing of a request of the table, and what the outputs show of it. -/
structure Sound (maxDescs : ℕ) (out : List SenderOutput) (req : Request) : Prop where
  pair : PairOk maxDescs (received req.promise out) req
  abandoned : .abandoned req.promise ∈ out ↔ req.abandonReason ≠ .kNone
  ordered : Ordered out
  wrote : Wrote out

section Sound

variable {maxDescs : ℕ} {out o : List SenderOutput} {req req' : Request} {s s' : BounceSender}
  {rid : ℕ}

/-- Outputs that neither start nor abandon anything, carry no credits and show no write. -/
lemma Sound.quiet (h : Sound maxDescs out req)
    (ho : ∀ x ∈ o, owner x = none ∨ (∃ k, x = .landed req.promise k)
      ∨ ∃ k hd peer, x = .acked req.promise k hd peer)
    (hpair : PairOk maxDescs (received req.promise out) req') (hπ : req'.promise = req.promise)
    (hr : req'.abandonReason = req.abandonReason) : Sound maxDescs (out ++ o) req' := by
  have hcr : received req.promise o = [] := received_eq_nil fun x hx cs he => by
    have := ho x hx
    simp [he, owner] at this
  have hab : ∀ π, .abandoned π ∉ o := fun π hx => by simpa [owner] using ho _ hx
  refine ⟨?_, ?_, h.ordered.append (ordered_of_not_abandoned hab) fun π _ y hy => ?_,
    h.wrote.append fun π i addr hd bytes hw => by simpa [owner] using ho _ hw⟩
  · rw [hπ, received_append, hcr, append_nil]
    exact hpair
  · rw [hπ, hr, mem_append, or_iff_left (hab _)]
    exact h.abandoned
  · rcases ho y hy with hn | ⟨k, rfl⟩ | ⟨k, hd, peer, rfl⟩
    · by_contra hs
      simp [starts_owner (by simpa using hs)] at hn
    · rfl
    · rfl

variable (h : Sound maxDescs out req) (hroom : maxDescs ≤ s.exec.maxPlanEntries)
include h hroom

/-- **A move of a pump pass keeps the request and what is shown of it.** -/
lemma Sound.pump (m : PumpMove s req o s' req') : Sound maxDescs (out ++ o) req' := by
  have hpair := h.pair.pump hroom m
  have hquiet : o = [] → req'.abandonReason = req.abandonReason → Sound maxDescs (out ++ o) req' :=
    fun ho hr => h.quiet (by simp [ho]) hpair m.request.promise hr
  have hstart : req.abandonReason = .kNone → req'.abandonReason = req.abandonReason →
      (∀ x ∈ o, owner x = none ∨ starts req.promise x = true) → Sound maxDescs (out ++ o) req' := by
    intro ha hr ho
    have hab : ∀ π, .abandoned π ∉ o := fun π hx => by simpa [owner, starts] using ho _ hx
    have hcr : received req.promise o = [] := received_eq_nil fun x hx cs he => by
      have := ho x hx
      simp [he, owner, starts] at this
    refine ⟨?_, ?_, h.ordered.append (ordered_of_not_abandoned hab) fun π hπ y hy => ?_,
      h.wrote.append fun π i addr hd bytes hw => by simpa [owner, starts] using ho _ hw⟩
    · rw [m.request.promise, received_append, hcr, append_nil]
      exact hpair
    · rw [m.request.promise, hr, mem_append, or_iff_left (hab _)]
      exact h.abandoned
    · by_contra hs
      have hs : starts π y = true := by simpa using hs
      rcases ho y hy with hn | hst
      · simp [starts_owner hs] at hn
      · obtain rfl : π = req.promise :=
          some_inj.mp ((starts_owner hs).symm.trans (starts_owner hst))
        exact h.abandoned.mp hπ ha
  cases m with
  | clear | skip | rotate => exact hquiet rfl rfl
  | attach ha => exact hstart ha rfl (by simp [starts])
  | abandon ha =>
    refine ⟨?_, by simp [BounceSender.abandon], h.ordered.append (pairwise_singleton _ _)
      (by simp [starts]), h.wrote.append (by simp)⟩
    have hcr : received req.promise [.abandoned req.promise] = [] := rfl
    rw [received_append]
    simpa [BounceSender.abandon, hcr] using hpair
  | @stage ctx off _ _ _ ch hst =>
    refine hstart hst.alive rfl fun x hx => ?_
    rcases mem_cons.mp hx with rfl | hx
    · exact .inl rfl
    rcases mem_append.mp hx with hx | hx
    · rw [tookCredit] at hx
      split_ifs at hx
      · obtain rfl := mem_singleton.mp hx
        exact .inr (by simp [starts])
      · simp at hx
    · obtain rfl := mem_singleton.mp hx
      exact .inr (by simp [starts, takeCredit])
  | overflow _ _ hentries => exact absurd (h.pair.entries_le hroom) (not_le.mpr hentries)

lemma Sound.run (r : PumpRun s req o s' req') : Sound maxDescs (out ++ o) req' := by
  have key := r.invariant
    (P := fun out s req => Sound maxDescs out req ∧ maxDescs ≤ s.exec.maxPlanEntries)
    (fun {out s req o s' req'} hp m => ⟨hp.1.pump hp.2 m, ?_⟩) ⟨h, hroom⟩
  · exact key.1
  · rw [ExecPool.maxPlanEntries, m.tables.scratchBytes]
    exact hp.2

/-- **What an event does to a request of the table keeps it and what is shown of it.** -/
lemma Sound.move (m : ReqMove s rid req o req') : Sound maxDescs (out ++ o) req' := by
  cases m with
  | pump run => exact h.run hroom run
  | grant credits run =>
    rw [append_cons]
    refine Sound.run ⟨?_, ?_, ?_, ?_⟩ hroom run
    · rw [received_append]
      have hcr : received req.promise [.credited req.promise credits] = credits := by
        simp [received]
      rw [hcr]
      exact h.pair.park credits
    · rw [mem_append, or_iff_left (by simp)]
      exact h.abandoned
    · exact h.ordered.append (pairwise_singleton _ _) (by simp [starts])
    · exact h.wrote.append (by simp)
  | @gathered i ctx p hp _ _ =>
    exact h.quiet (by simp) (h.pair.setPosted hp none p.xfer .gathered (by simp) req.lastProgress)
      rfl rfl
  | @wrote i p xfer hp hst hcr =>
    have hcrs : received req.promise
        [.wrote req.promise p.chunkIdx p.remoteAddr p.remoteHandle p.writeBytes] = [] := rfl
    have hpair := h.pair.setPosted hp p.ctx xfer .writing (fun _ => hcr) s.now
    refine ⟨?_, ?_, h.ordered.append (pairwise_singleton _ _) (by simp [starts]),
      h.wrote.append fun π i addr hd bytes hw => ?_⟩
    · rw [received_append, hcrs, append_nil]
      exact hpair
    · rw [mem_append, or_iff_left (by simp)]
      exact h.abandoned
    · obtain ⟨rfl, rfl, rfl, rfl, rfl⟩ : π = req.promise ∧ i = p.chunkIdx ∧ addr = p.remoteAddr
          ∧ hd = p.remoteHandle ∧ bytes = p.writeBytes := by simpa using hw
      rw [received_append]
      exact ((h.pair.credited p (mem_of_getElem? hp) hcr).2).mono
  | @sent i p hp hst =>
    have hcr := h.pair.writing p (mem_of_getElem? hp) (.inl hst)
    refine h.quiet ?_ (h.pair.setPosted hp p.ctx none .sent (fun _ => hcr) req.lastProgress) rfl rfl
    simp [owner]
  | @acked i p o hp hst _ hquiet =>
    refine h.quiet (fun x hx => ?_) (h.pair.acknowledge hp hst _ s.now) rfl rfl
    rcases mem_append.mp hx with hx | hx
    · exact .inl (hquiet x hx)
    · exact .inr (.inr ⟨_, _, _, mem_singleton.mp hx⟩)

end Sound

/-! ### The table -/

/-- What holds of the outputs of a run and of the table. -/
structure Pairing (out : List SenderOutput) (s : BounceSender) : Prop where
  made : ∀ x ∈ out, ∀ π, owner x = some π → π < s.promises
  room : maxDescsPerChunk s.cfg.maxChunkSizeBytes ≤ s.exec.maxPlanEntries
  pair : ∀ rid req, s.mRequests.find? rid = some req →
    PairOk (maxDescsPerChunk s.cfg.maxChunkSizeBytes) (received req.promise out) req
  abandoned : ∀ rid req, s.mRequests.find? rid = some req →
    (.abandoned req.promise ∈ out ↔ req.abandonReason ≠ .kNone)
  ordered : Ordered out
  wrote : Wrote out

section Pairing

variable {out o : List SenderOutput} {s s' : BounceSender} {rid : ℕ} {req req' : Request}

lemma Pairing.sound (h : Pairing out s) (hr : s.mRequests.find? rid = some req) :
    Sound (maxDescsPerChunk s.cfg.maxChunkSizeBytes) out req :=
  ⟨h.pair rid req hr, h.abandoned rid req hr, h.ordered, h.wrote⟩

/-- A request that the outputs are not about is as it was. -/
lemma Pairing.other (h : Pairing out s) (hr : s.mRequests.find? rid = some req)
    (ho : ∀ x ∈ o, owner x ≠ some req.promise) :
    PairOk (maxDescsPerChunk s.cfg.maxChunkSizeBytes) (received req.promise (out ++ o)) req
      ∧ (.abandoned req.promise ∈ out ++ o ↔ req.abandonReason ≠ .kNone) := by
  rw [received_append, received_of_owner ho, append_nil, mem_append,
    or_iff_left fun hx => ho _ hx rfl]
  exact ⟨h.pair rid req hr, h.abandoned rid req hr⟩

/-- The outputs are quiet, and no request is new. -/
lemma Pairing.quiet (h : Pairing out s) (hcfg : s'.cfg = s.cfg)
    (hexec : s'.exec.scratchBytes = s.exec.scratchBytes) (hprom : s.promises ≤ s'.promises)
    (hfind : ∀ r q, s'.mRequests.find? r = some q →
      s.mRequests.find? r = some q ∧ ∀ x ∈ o, owner x ≠ some q.promise)
    (ho : ∀ x ∈ o, owner x = none ∨ (∃ π r, x = .resolved π r ∧ π < s'.promises)
      ∨ ∃ π k hd peer, x = .acked π k hd peer ∧ π < s'.promises) :
    Pairing (out ++ o) s' := by
  have hab : ∀ π, .abandoned π ∉ o := fun π hx => by simpa [owner] using ho _ hx
  refine ⟨fun x hx π hm => ?_, ?_, fun r q hq => ?_, fun r q hq => ?_,
    h.ordered.append (ordered_of_not_abandoned hab) fun π _ y hy => ?_,
    h.wrote.append fun π i addr hd bytes hw => by simpa [owner] using ho _ hw⟩
  · rcases mem_append.mp hx with hx | hx
    · exact (h.made x hx π hm).trans_le hprom
    · rcases ho x hx with hn | ⟨π', r, rfl, hlt⟩ | ⟨π', k, hd, peer, rfl, hlt⟩
      · simp [hn] at hm
      · exact some_inj.mp hm ▸ hlt
      · exact some_inj.mp hm ▸ hlt
  · rw [ExecPool.maxPlanEntries, hexec, hcfg]
    exact h.room
  · obtain ⟨hq, hox⟩ := hfind r q hq
    rw [hcfg]
    exact (h.other hq hox).1
  · obtain ⟨hq, hox⟩ := hfind r q hq
    exact (h.other hq hox).2
  · rcases ho y hy with hn | ⟨π', r, rfl, -⟩ | ⟨π', k, hd, peer, rfl, -⟩
    · by_contra hs
      simp [starts_owner (by simpa using hs)] at hn
    · rfl
    · rfl

/-- A request enters the table. -/
lemma Pairing.enter (h : Pairing out s) {peer : Bytes} {plan : BounceTransferPlan} {t : ℤ}
    {srcDescs dstDescs : List MemoryDesc} (hc : Completion out s)
    (hbuilt : BounceTransferPlan.build srcDescs dstDescs s.cfg.maxChunkSizeBytes
      (maxDescsPerChunk s.cfg.maxChunkSizeBytes) = .ok plan)
    (hcfg : s'.cfg = s.cfg) (hexec : s'.exec.scratchBytes = s.exec.scratchBytes)
    (ht : s'.mRequests = s.mRequests.set rid
      { peer := peer, numChunks := plan.mChunks.length % 2 ^ 32, plan := plan,
        promise := s.promises, lastProgress := t })
    (hprom : s'.promises = s.promises + 1) (n : ℕ) :
    Pairing (out ++ [.submitted s.promises rid peer n]) s' := by
  have hfresh : ∀ x ∈ out, owner x ≠ some s.promises := fun x hx he =>
    (h.made x hx _ he).ne rfl
  have hlive : ∀ r q, s.mRequests.find? r = some q → q.promise ≠ s.promises := fun r q hq he =>
    (hc.made _ (hc.live r q hq).submitted q.promise rfl).ne he
  have hother : ∀ r q, s.mRequests.find? r = some q →
      ∀ x ∈ [SenderOutput.submitted s.promises rid peer n], owner x ≠ some q.promise := by
    intro r q hq x hx he
    obtain rfl := mem_singleton.mp hx
    exact hlive r q hq (some_inj.mp he).symm
  refine ⟨fun x hx π hm => ?_, ?_, fun r q hq => ?_, fun r q hq => ?_,
    h.ordered.append (pairwise_singleton _ _) (by simp [starts]), h.wrote.append (by simp)⟩
  · rw [hprom]
    rcases mem_append.mp hx with hx | hx
    · exact lt_succ_of_lt (h.made x hx π hm)
    · obtain rfl := mem_singleton.mp hx
      exact some_inj.mp hm ▸ lt_succ_self _
  · rw [ExecPool.maxPlanEntries, hexec, hcfg]
    exact h.room
  · rw [hcfg]
    rw [ht, find?_set] at hq
    split_ifs at hq with hrr
    · obtain rfl := some_inj.mp hq
      have hnil : received s.promises (out ++ [.submitted s.promises rid peer n]) = [] := by
        rw [received_append, received_of_owner hfresh]
        rfl
      rw [hnil]
      exact ⟨le_rfl, Nat.zero_le _, le_rfl, fun _ _ => rfl, by simp, by simp, by simp, by simp,
        by simp, by simp, by simp, BounceTransferPlan.build_descs_le hbuilt⟩
    · exact (h.other hq (hother r q hq)).1
  · rw [ht, find?_set] at hq
    split_ifs at hq with hrr
    · obtain rfl := some_inj.mp hq
      simp only [mem_append, ne_eq, not_true_eq_false, iff_false]
      rintro (hx | hx)
      · exact hfresh _ hx rfl
      · simp at hx
    · exact (h.other hq (hother r q hq)).2

/-- The outputs of a pass are about the promise of the request. -/
lemma PumpMove.owner {s s' : BounceSender} {req req' : Request} {o : List SenderOutput}
    (m : PumpMove s req o s' req') : ∀ x ∈ o, owner x = none ∨ owner x = some req.promise := by
  have htook : ∀ x ∈ tookCredit req, BounceSender.owner x = some req.promise := by
    intro x hx
    rw [tookCredit] at hx
    split_ifs at hx
    · obtain rfl := mem_singleton.mp hx
      rfl
    · simp at hx
  intro x hx
  cases m with
  | clear | skip | rotate => simp at hx
  | attach | abandon =>
    obtain rfl := mem_singleton.mp hx
    exact .inr rfl
  | stage =>
    rcases mem_cons.mp hx with rfl | hx
    · exact .inl rfl
    rcases mem_append.mp hx with hx | hx
    · exact .inr (htook x hx)
    · obtain rfl := mem_singleton.mp hx
      exact .inr rfl
  | overflow =>
    rcases mem_cons.mp hx with rfl | hx
    · exact .inl rfl
    rcases mem_append.mp hx with hx | hx
    · exact .inr (htook x hx)
    rcases mem_append.mp hx with hx | hx
    · exact .inl (owner_release hx)
    · obtain rfl := mem_singleton.mp hx
      exact .inr rfl

lemma PumpRun.owner {s s' : BounceSender} {req req' : Request} {o : List SenderOutput}
    (h : PumpRun s req o s' req') : ∀ x ∈ o, owner x = none ∨ owner x = some req.promise := by
  intro x hx
  induction h with
  | refl => simp at hx
  | head m _ ih =>
    rcases mem_append.mp hx with hx | hx
    · exact m.owner x hx
    · rw [← m.request.promise]
      exact ih hx

lemma ReqMove.owner (m : ReqMove s rid req o req') :
    ∀ x ∈ o, owner x = none ∨ owner x = some req.promise := by
  intro x hx
  cases m with
  | pump run => exact run.owner x hx
  | grant credits run =>
    rcases mem_cons.mp hx with rfl | hx
    · exact .inr rfl
    · exact run.owner x hx
  | gathered => simp at hx
  | wrote =>
    obtain rfl := mem_singleton.mp hx
    exact .inr rfl
  | sent =>
    simp only [mem_cons, not_mem_nil, or_false] at hx
    rcases hx with rfl | rfl
    · exact .inr rfl
    · exact .inl rfl
  | acked _ _ _ hquiet =>
    rcases mem_append.mp hx with hx | hx
    · exact .inl (hquiet x hx)
    · obtain rfl := mem_singleton.mp hx
      exact .inr rfl

section

variable (h : Pairing out s) (hc : Completion out s) (hr : s.mRequests.find? rid = some req)
include h hc hr

/-- A request that stays in the table keeps the outputs and the table. -/
lemma Pairing.moved (m : ReqMove s rid req o req')
    (hcfg : SameConfig s s') (ht : s'.mRequests = s.mRequests.set rid req')
    (hprom : s'.promises = s.promises) : Pairing (out ++ o) s' := by
  have hnew := (h.sound hr).move h.room m
  have hlt : req.promise < s.promises := hc.made _ (hc.live rid req hr).submitted _ rfl
  have hother : ∀ r q, r ≠ rid → s.mRequests.find? r = some q →
      ∀ x ∈ o, owner x ≠ some q.promise := by
    intro r q hne hq x hx he
    rcases m.owner x hx with hn | hπ
    · simp [hn] at he
    · exact hne (hc.unique r q rid req hq hr (some_inj.mp (he.symm.trans hπ)))
  refine ⟨fun x hx π hm => ?_, ?_, fun r q hq => ?_, fun r q hq => ?_, hnew.ordered, hnew.wrote⟩
  · rw [hprom]
    rcases mem_append.mp hx with hx | hx
    · exact h.made x hx π hm
    · rcases m.owner x hx with hn | hπ
      · simp [hn] at hm
      · exact some_inj.mp (hπ.symm.trans hm) ▸ hlt
  · rw [ExecPool.maxPlanEntries, hcfg.scratchBytes, hcfg.cfg]
    exact h.room
  · rw [hcfg.cfg]
    rw [ht, find?_set] at hq
    split_ifs at hq with hrr
    · obtain rfl := some_inj.mp hq
      exact hnew.pair
    · exact (h.other hq (hother r q hrr hq)).1
  · rw [ht, find?_set] at hq
    split_ifs at hq with hrr
    · obtain rfl := some_inj.mp hq
      exact hnew.abandoned
    · exact (h.other hq (hother r q hrr hq)).2

/-- A request that leaves the table shows no more than its last ACK and its result. -/
lemma Pairing.left (hl : Leaves req o) (hcfg : SameConfig s s')
    (ht : s'.mRequests = s.mRequests.erase rid) (hprom : s'.promises = s.promises) :
    Pairing (out ++ o) s' := by
  have hlt : req.promise < s'.promises := hprom ▸ hc.made _ (hc.live rid req hr).submitted _ rfl
  have hshape : ∀ x ∈ o, owner x = none ∨ (∃ r, x = .resolved req.promise r)
      ∨ ∃ k hd peer, x = .acked req.promise k hd peer := by
    intro x hx
    cases hl with
    | failed r hquiet =>
      rcases mem_append.mp hx with hx | hx
      · exact .inl (hquiet x hx)
      · exact .inr (.inl ⟨_, mem_singleton.mp hx⟩)
    | complete _ _ _ hquiet =>
      simp only [mem_append, mem_cons, not_mem_nil, or_false] at hx
      rcases hx with hx | rfl | rfl
      · exact .inl (hquiet x hx)
      · exact .inr (.inr ⟨_, _, _, rfl⟩)
      · exact .inr (.inl ⟨_, rfl⟩)
  refine h.quiet hcfg.cfg hcfg.scratchBytes hprom.ge (fun r q hq => ?_) (fun x hx => ?_)
  · rw [ht, find?_erase] at hq
    split_ifs at hq with hrr
    refine ⟨hq, fun x hx he => hrr ?_⟩
    rcases hshape x hx with hn | ⟨r, rfl⟩ | ⟨k, hd, peer, rfl⟩
    · simp [hn] at he
    · exact hc.unique _ q rid req hq hr (some_inj.mp he).symm
    · exact hc.unique _ q rid req hq hr (some_inj.mp he).symm
  · rcases hshape x hx with hn | ⟨r, rfl⟩ | ⟨k, hd, peer, rfl⟩
    · exact .inl hn
    · exact .inr (.inl ⟨_, r, rfl, hlt⟩)
    · exact .inr (.inr ⟨_, k, hd, peer, rfl, hlt⟩)

end

/-- **Every event keeps the pairing.** -/
theorem step_pairing (e : Event) (hc : Completion out s) (h : Pairing out s) :
    Pairing (out ++ (step s e).1) (step s e).2 := by
  have hcfg := step_config s e
  have hlive : ∀ r q, s.mRequests.find? r = some q → q.promise < s.promises := fun r q hq =>
    hc.made _ (hc.live r q hq).submitted q.promise rfl
  cases step_table s e with
  | same ht hprom hquiet =>
    refine h.quiet hcfg.cfg hcfg.scratchBytes hprom.ge (fun r q hq => ⟨ht ▸ hq, ?_⟩)
      (fun x hx => .inl (hquiet x hx))
    intro x hx
    simp [hquiet x hx]
  | refused ht hprom hquiet =>
    refine h.quiet hcfg.cfg hcfg.scratchBytes (by omega) (fun r q hq => ⟨ht ▸ hq, ?_⟩)
      (fun x hx => ?_)
    · intro x hx he
      obtain ⟨res, rfl⟩ := hquiet x hx
      exact (hlive r q (ht ▸ hq)).ne' (some_inj.mp he)
    · obtain ⟨res, rfl⟩ := hquiet x hx
      exact .inr (.inl ⟨_, res, rfl, by omega⟩)
  | entered rid peer plan t src dst _ hbuilt ht hprom hshown =>
    rw [hshown]
    exact h.enter hc hbuilt hcfg.cfg hcfg.scratchBytes ht hprom _
  | moved rid req req' hr m ht hprom => exact h.moved hc hr m hcfg ht hprom
  | left rid req hr hl ht hprom => exact h.left hc hr hl hcfg ht hprom

end Pairing

/-- The outputs and the table of a run of the sender of an agent. -/
theorem run_pairing (cfg : BounceConfig) (deviceId : ℕ) (endpoint : Bytes)
    (scheduler : CreditScheduler) (copyStreamCount : ℕ) (es : List Event) :
    Pairing (Machine.run step (create cfg deviceId endpoint scheduler copyStreamCount) es).1
      (Machine.run step (create cfg deviceId endpoint scheduler copyStreamCount) es).2 := by
  have hinit : Pairing [] (create cfg deviceId endpoint scheduler copyStreamCount) := by
    refine ⟨by simp, ?_, by simp [create, ctor], by simp [create, ctor], List.Pairwise.nil,
      fun _ _ _ _ _ h => by simp at h⟩
    have hmin : min cfg.maxChunkSizeBytes scheduler.mArena.capacity ≤ cfg.maxChunkSizeBytes :=
      min_le_left _ _
    have hdiv := Nat.div_le_div_right (c := 256) hmin
    simp only [create, ctor, ExecPool.ctor, ExecPool.maxPlanEntries, maxDescsPerChunk]
    omega
  have hstep : ∀ out s e, Completion out s ∧ Pairing out s →
      Completion (out ++ (step s e).1) (step s e).2 ∧ Pairing (out ++ (step s e).1) (step s e).2 :=
    fun out s e h => ⟨step_completion e h.1, step_pairing e h.1 h.2⟩
  exact (Machine.run_induction (J := fun out s => Completion out s ∧ Pairing out s)
    ⟨ctor_completion _ _ _ _ _, hinit⟩ hstep es).2

/-- **Credit pairing.**  In every run of the sender of an agent: the cursors keep their order;
after `attachCredits` on a request that is not abandoned, with any further credits, parked
credits are for the next chunk to post; every write goes to the region of the credit with the
index of its chunk, in the order of arrival, and is at most as long as that credit; and after a
request was abandoned none of its chunks takes a credit and none of its gathers is launched. -/
theorem sender_credit_pairing (cfg : BounceConfig) (deviceId : ℕ) (endpoint : Bytes)
    (scheduler : CreditScheduler) (copyStreamCount : ℕ) (es : List Event) :
    let out := (Machine.run step (create cfg deviceId endpoint scheduler copyStreamCount) es).1
    let s := (Machine.run step (create cfg deviceId endpoint scheduler copyStreamCount) es).2
    (∀ rid req, s.mRequests.find? rid = some req →
      req.nextCredit ≤ req.nextPost ∧ req.nextPost ≤ req.numChunks)
    ∧ (∀ rid req credits, s.mRequests.find? rid = some req → req.abandonReason = .kNone →
        let r := (attachCredits s.now s.scheduler
          { req with pendingCredits := req.pendingCredits ++ credits }).2.2
        r.abandonReason = .kNone → r.pendingCredits ≠ [] → r.nextCredit = r.nextPost)
    ∧ (∀ π i addr h bytes, .wrote π i addr h bytes ∈ out →
        ∃ c, (received π out)[i]? = some c ∧ c.addr = addr ∧ c.regionHandle = h ∧ bytes ≤ c.len)
    ∧ (∀ rid req, s.mRequests.find? rid = some req →
        (.abandoned req.promise ∈ out ↔ req.abandonReason ≠ .kNone))
    ∧ (∀ π before after, out = before ++ .abandoned π :: after →
        ∀ i, .attached π i ∉ after ∧ .launched π i ∉ after) := by
  intro out s
  have h : Pairing out s := run_pairing cfg deviceId endpoint scheduler copyStreamCount es
  refine ⟨fun rid req hr => ⟨(h.pair rid req hr).credit_le, (h.pair rid req hr).post_le⟩,
    fun rid req credits hr ha => ?_, h.wrote, h.abandoned, fun π before after heq i => ?_⟩
  · intro r hra hne
    obtain ⟨hrun, hready⟩ := attachCredits_run s
      { req with pendingCredits := req.pendingCredits ++ credits } ha
    refine le_antisymm ?_ (hready hra hne)
    have hmove : ReqMove s rid req _ _ := .grant credits hrun
    exact ((h.sound hr).move h.room hmove).pair.credit_le
  · have hord := h.ordered
    rw [heq, Ordered, pairwise_append] at hord
    have hafter := (pairwise_cons.mp hord.2.1).1
    refine ⟨fun hx => ?_, fun hx => ?_⟩
    · simpa [starts] using hafter _ hx π rfl
    · simpa [starts] using hafter _ hx π rfl

end TrtLlm.BounceSender
