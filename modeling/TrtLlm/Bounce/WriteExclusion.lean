import TrtLlm.Bounce.SystemSteps

/-!
Write exclusion.

* `step_apart`: what an event grants or acquires lies beside the writes in flight;
* `write_exclusion`: **a region with a write in flight belongs to the flow of that write.**
-/

namespace TrtLlm.System

open List Function Option UMap

variable {out : List SystemOutput} {s : System}

variable {e : BounceReceiver.Event} {h rid x : ℕ} {msg : BounceMsg} {msgs : List BounceMsg}
  {n : Bytes}

/-! ### Exclusion -/

/-- The regions at `x` and `y` have no byte in common. -/
def Apart (c : CreditScheduler) (x y : ℕ) : Prop :=
  x + c.regionBytes x ≤ y ∨ y + c.regionBytes y ≤ x

/-- A grant or an `acquireLocal` of the receiver's scheduler has returned the region. -/
def Returned (out : List SystemOutput) (x : ℕ) : Prop :=
  (∃ g, .receiver (.granted g) ∈ out ∧ g.offset = x) ∨ .receiver (.acquired x) ∈ out

lemma apart_of_live {c : CreditScheduler} {y : ℕ} (hx : x ∈ c.live) (hy : y ∈ c.live)
    (hne : x ≠ y) : Apart c x y :=
  c.mArena.blocks_disjoint (CreditScheduler.mem_live.mp hx) (CreditScheduler.mem_live.mp hy) hne

/-- A write in flight counts. -/
lemma inflight_pos (hi : Inv out s) (hw : s.Writes n rid h) : 0 < s.inflight n rid h := by
  have hcount : 0 < (s.senders n).liveCredits s.self rid h
      + (s.senders n).orphanWrites s.self rid h := by
    rcases hw with ⟨req, hr, hpeer, p, hp, hst, rfl⟩ | ⟨o, ho, hrid, hx⟩
    · have hcr := (((hi.senders n).table rid req hr).2 p hp hst).1
      have hpos : 0 < req.posted.countP (BounceSender.writable p.remoteHandle) :=
        countP_pos_iff.mpr ⟨p, hp, by simp [BounceSender.writable, hcr, hst]⟩
      rw [BounceSender.liveCredits, hr]
      simp only [hpeer, if_true, BounceSender.openCredits]
      omega
    · have hpos : 0 < (s.senders n).orphanWrites s.self rid h :=
        countP_pos_iff.mpr ⟨o, ho, by simp [hrid, hx]⟩
      omega
  rw [inflight]
  omega

lemma spare_pos (hi : Inv out s) (hw : s.Writes n rid h) : 0 < s.receiver.spare (makeKey n rid) h :=
  (inflight_pos hi hw).trans_le (hi.budget n rid h)

/-- What an event of the receiver gives out lies beside the writes in flight. -/
lemma receiverStep_apart (hi : Inv out s) (he : BounceReceiver.reclaims e = false)
    (ha : BounceReceiver.Announces (fun key => ∃ n rid, Used out n rid ∧ key = makeKey n rid) e)
    (ht : ∀ n rid h, BounceReceiver.Takes n rid h e → s.inflight n rid h = 0)
    (hw : s.Writes n rid h) (hx : Returned (s.receiverStep e).1 x) :
    Apart (s.receiverStep e).2.receiver.scheduler x h := by
  have hrequest : ∀ key, (∃ n rid, Used out n rid ∧ key = makeKey n rid) →
      BounceReceiver.IsRequest key := fun key ⟨n, rid, hu, hk⟩ => ⟨n, rid, hu.2, hk⟩
  have hannounce : BounceReceiver.Announces BounceReceiver.IsRequest e := by
    cases e with
    | want pick peer r chunkBytes ready => exact hrequest _ ha
    | _ => trivial
  have hb : BounceReceiver.Budget s.receiver (BounceReceiver.step s.receiver e) n rid h
      (BounceReceiver.Takes n rid h e) :=
    BounceReceiver.step_budget hi.receiver (fun key hk =>
      hrequest key (hi.known key hk)) he hannounce
  have hret : BounceReceiver.Returns (BounceReceiver.step s.receiver e).1 x := by
    rcases hx with ⟨g, hg, hoff⟩ | hx
    · exact .inl ⟨g, by simpa [receiverStep] using hg, hoff⟩
    · exact .inr (by simpa [receiverStep] using hx)
  obtain ⟨-, hspare, hnot⟩ := hb.kept (spare_pos hi hw) fun htake =>
    (inflight_pos hi hw).ne' (ht n rid h htake)
  have hown := (BounceReceiver.step_ok hi.receiver e).inv.owned
  refine apart_of_live (hb.live x hret) (CreditScheduler.heldByFlow_live hown
    (BounceReceiver.spare_pos_iff.mp hspare).1) ?_
  rintro rfl
  exact hnot hret

lemma not_returned_sender (n : Bytes) (o : List SenderOutput) (x : ℕ) :
    ¬ Returned (o.map (.sender n)) x := by
  rintro (⟨g, hg, -⟩ | hx)
  · simp at hg
  · simp at hx

/-- What an event gives out lies beside the writes in flight. -/
lemma step_apart (hi : Inv out s) (e : Event) (hw : s.Writes n rid h)
    (hx : Returned (step s e).1 x) : Apart (step s e).2.receiver.scheduler x h := by
  have hnil : ∀ {P : Prop}, Returned [] x → P := fun hx => by
    rcases hx with ⟨g, hg, -⟩ | hx
    · cases hg
    · cases hx
  cases e with
  | sender m e =>
    simp only [step] at hx ⊢
    split_ifs at hx ⊢
    · exact hnil hx
    · exact absurd hx (not_returned_sender m _ x)
  | receiver e =>
    simp only [step] at hx ⊢
    by_cases hm : isMessageOrReclaim e = true
    · rw [if_pos hm] at hx
      exact hnil hx
    · rw [if_neg hm] at hx ⊢
      obtain ⟨he, ha, ht⟩ := ownEvent_spec (Bool.of_not_eq_true hm)
      exact receiverStep_apart hi he (ha _) (fun n rid h htake => absurd htake (ht n rid h)) hw hx
  | toSender m ch pick picks =>
    simp only [step] at hx
    split at hx
    · exact hnil hx
    · split at hx
      · exact hnil hx
      · exact absurd hx (not_returned_sender m _ x)
  | toReceiver m pick ready =>
    simp only [step] at hx ⊢
    cases hto : s.toReceiver m with
    | nil =>
      rw [hto] at hx
      exact hnil hx
    | cons msg msgs =>
      rw [hto] at hx
      cases hev : receiverEvent m pick ready msg with
      | none =>
        simp only [hev] at hx
        exact hnil hx
      | some e =>
        simp only [hev] at hx ⊢
        obtain ⟨he, ha, ht⟩ := receiverEvent_spec hi hto hev
        exact receiverStep_apart (hi.pop hto) he ha ht hw hx
  | loseToSender | loseToReceiver => exact hnil hx

/-- New parties satisfy the invariant. -/
lemma start_inv {baseAddr arenaSizeBytes granularity maxInflight : ℕ} {clock : ℕ → ℤ}
    {c : CreditScheduler}
    (h₀ : CreditScheduler.ctor baseAddr arenaSizeBytes granularity maxInflight clock = some c)
    (self : Bytes) (cfg : BounceConfig) (deviceId : ℕ) (cfgs : Bytes → BounceConfig)
    (devs : Bytes → ℕ) (endpoints : Bytes → Bytes) (schedulers : Bytes → CreditScheduler)
    (streams : Bytes → ℕ) :
    Inv [] (start self (.ctor cfg deviceId c)
      fun n => .create (cfgs n) (devs n) (endpoints n) (schedulers n) (streams n)) := by
  obtain ⟨hown, -⟩ := CreditScheduler.ctor_owned h₀
  rw [CreditScheduler.ctor, map_eq_some_iff] at h₀
  obtain ⟨arena, -, rfl⟩ := h₀
  refine ⟨BounceReceiver.ctor_inv hown (by simp), fun key hk => ?_, fun n => ?_,
    fun n rid h hpos => ?_, fun n rid bytes endpoint hm => ?_, fun n rid h => List.Pairwise.nil,
      fun n rid h => ?_⟩
  · exact absurd hk (not_mem_empty key)
  · refine ⟨?_, fun rid req hr => ?_, fun o ho => ?_, fun rid hr => ?_, fun a ha => ?_⟩
    · change 1 < 2 ^ 64
      norm_num
    · cases hr
    · cases ho
    · exact absurd hr (not_mem_empty rid)
    · cases ha
  · cases hpos
  · cases hm
  · refine le_of_eq_of_le (inflight_of_not_listens ?_ h) (Nat.zero_le _)
    rintro ⟨req, hr, -⟩
    cases hr

/-- **Write exclusion.**  In every run of one receiver and any number of senders in which the
receiver does not reclaim on its own and no sender gives a request id twice: while a sender has a
write in flight into a region, the receiver's scheduler holds that region for the flow of the
write; no region of another party has a byte in common with it; and neither has any region that
a further event grants or acquires. -/
theorem write_exclusion {baseAddr arenaSizeBytes granularity maxInflight : ℕ} {clock : ℕ → ℤ}
    {c : CreditScheduler}
    (h₀ : CreditScheduler.ctor baseAddr arenaSizeBytes granularity maxInflight clock = some c)
    (self : Bytes) (cfg : BounceConfig) (deviceId : ℕ) (cfgs : Bytes → BounceConfig)
    (devs : Bytes → ℕ) (endpoints : Bytes → Bytes) (schedulers : Bytes → CreditScheduler)
    (streams : Bytes → ℕ) (es : List Event)
    (hrids : NeverReused (Machine.run step (start self (.ctor cfg deviceId c) fun n =>
      .create (cfgs n) (devs n) (endpoints n) (schedulers n) (streams n)) es).1) :
    let s := (Machine.run step (start self (.ctor cfg deviceId c) fun n =>
      .create (cfgs n) (devs n) (endpoints n) (schedulers n) (streams n)) es).2
    ∀ n rid h, s.Writes n rid h →
      s.receiver.scheduler.heldByFlow (makeKey n rid) h = true
      ∧ (∀ o ≠ .flow (makeKey n rid), ∀ x ∈ s.receiver.scheduler.owns o,
          Apart s.receiver.scheduler x h)
      ∧ ∀ e x, Returned (step s e).1 x → Apart (step s e).2.receiver.scheduler x h := by
  intro s n rid h hw
  have hinv : NeverReused _ → Inv _ s :=
    Machine.run_induction (J := fun out s => NeverReused out → Inv out s)
      (fun _ => start_inv h₀ self cfg deviceId cfgs devs endpoints schedulers streams)
      (fun out s e ih hfresh => step_inv (ih hfresh.of_append) e hfresh) es
  have hi := hinv hrids
  have hheld := (BounceReceiver.spare_pos_iff.mp (spare_pos hi hw)).1
  refine ⟨hheld, fun o ho x hx => ?_, fun e x hx => step_apart hi e hw hx⟩
  refine apart_of_live (hi.receiver.owned.mem_live hx)
    (CreditScheduler.heldByFlow_live hi.receiver.owned hheld) ?_
  rintro rfl
  exact ho (hi.receiver.owned.eq_of_mem hx (j := .flow (makeKey n rid)) hheld)

/-- A request of one chunk that times out after the post of its write: its cancel has to wait. -/
def oneWrite : List Event :=
  [.sender [1] (.submit [⟨100, 16, 0⟩] [⟨200, 16, 0⟩] [9]), .sender [1] (.announce 0),
    .toReceiver [1] (fun l => l.headD 0) true,
    .toSender [1] ⟨fun _ l => l.headD 0, fun _ l => l.headD 0, fun _ => true, fun _ => true⟩
      (fun l => l.headD 0) fun _ l => l.headD 0,
    .sender [1] (.kernelEnds 0), .sender [1] (.gatherReady 1 0), .sender [1] (.postWrite 1 0 true),
    .sender [1] (.tick 2000), .sender [1] (.timeout (fun _ l => l.headD 0) 1),
    .sender [1] (.pendingCancel 1)]

/-- The run of `oneWrite` for a receiver and senders with the scheduler `c`. -/
def oneWriteRun (c : CreditScheduler) : List SystemOutput × System :=
  Machine.run step (start [9] (.ctor ⟨64, 2, false, 1000, 0, 0⟩ 0 c) fun _ =>
    .create ⟨64, 2, false, 1000, 0, 0⟩ 0 [7] c 1) oneWrite

/-- The request has left the table, its write is still in flight into the first region of the
receiver, and the flow of the request holds the region: no cancel is on its way. -/
theorem write_exclusion_oneWrite : ∃ c, CreditScheduler.ctor 4096 64 16 2 (fun n => n) = some c
    ∧ 1 ∉ ((oneWriteRun c).2.senders [1]).mRequests ∧ (oneWriteRun c).2.toReceiver [1] = []
    ∧ (oneWriteRun c).2.Writes [1] 1 0
    ∧ (oneWriteRun c).2.receiver.scheduler.heldByFlow (makeKey [1] 1) 0 = true := by
  have heval : ((CreditScheduler.ctor 4096 64 16 2 fun n => n).map fun c =>
      (submissions (oneWriteRun c).1, ((oneWriteRun c).2.senders [1]).mRequests.keys,
        ((oneWriteRun c).2.toReceiver [1]).length)) = some ([([1], 1)], [], 0) := by
    decide +kernel
  have heval' : ((CreditScheduler.ctor 4096 64 16 2 fun n => n).map fun c =>
      ((oneWriteRun c).2.self, ((oneWriteRun c).2.senders [1]).mOrphanLocal.map fun o =>
        (o.rid, o.xfer.map fun xfer => (xfer.peer, xfer.remoteHandle))))
      = some ([9], [(1, some ([9], 0))]) := by decide +kernel
  obtain ⟨c, h₀, heq⟩ := map_eq_some_iff.mp heval
  rw [h₀, map_some, some.injEq] at heval'
  obtain ⟨hsub, hout⟩ := Prod.mk.inj heq
  obtain ⟨hkeys, hempty⟩ := Prod.mk.inj hout
  obtain ⟨hself, horphans⟩ := Prod.mk.inj heval'
  have hw : (oneWriteRun c).2.Writes [1] 1 0 := by
    obtain ⟨o, ho, hpair⟩ := List.mem_map.mp (horphans ▸ mem_singleton.mpr rfl)
    obtain ⟨hrid, hxfer⟩ := Prod.mk.inj hpair
    obtain ⟨xfer, hxfer, hdest⟩ := map_eq_some_iff.mp hxfer
    obtain ⟨hpeer, hhandle⟩ := Prod.mk.inj hdest
    refine .inr ⟨o, ho, hrid, ?_⟩
    rw [hxfer, hself, ← hpeer, ← hhandle]
  have hrids : NeverReused (oneWriteRun c).1 := by
    rw [NeverReused, hsub]
    exact nodup_singleton _
  refine ⟨c, h₀, fun hmem => ?_, length_eq_zero_iff.mp hempty, hw,
    (write_exclusion h₀ [9] ⟨64, 2, false, 1000, 0, 0⟩ 0 (fun _ => ⟨64, 2, false, 1000, 0, 0⟩)
      (fun _ => 0) (fun _ => [7]) (fun _ => c) (fun _ => 1) oneWrite hrids [1] 1 0 hw).1⟩
  have hkey : 1 ∈ ((oneWriteRun c).2.senders [1]).mRequests.keys := hmem
  rw [hkeys] at hkey
  cases hkey

end TrtLlm.System
