import TrtLlm.Bounce.System

/-!
The steps of the composed machine of one receiver and any number of senders.

* `receiverStep_inv`: an event of the receiver that ends no write in flight keeps the invariant;
* `senderStep_inv`: so does one of a sender, if there is room for the credits that it brings;
* `step_inv`: **every step keeps the invariant**, as long as no request id is given twice.
-/

namespace TrtLlm.System

open List Function Option UMap

variable {out : List SystemOutput} {s : System}

variable {e : BounceReceiver.Event} {h rid x : ℕ} {msg : BounceMsg} {msgs : List BounceMsg}
  {n : Bytes}

/-! ### Events of the receiver -/

lemma ridsOf_append (n : Bytes) (o o' : List SystemOutput) :
    ridsOf n (o ++ o') = ridsOf n o ++ ridsOf n o' := by
  rw [ridsOf, submissions, filterMap_append, filterMap_append]
  rfl

lemma ridsOf_receiver (n : Bytes) (o : List ReceiverOutput) : ridsOf n (o.map .receiver) = [] := by
  have hnone : submissions (o.map .receiver) = [] := by
    rw [submissions, filterMap_map, filterMap_eq_nil_iff]
    exact fun _ _ => rfl
  rw [ridsOf, hnone, filterMap_nil]

lemma NeverReused.ridsOf {o : List SystemOutput} (h : NeverReused o) (n : Bytes) :
    (ridsOf n o).Nodup := by
  refine Nodup.filterMap (fun p q b hp hq => ?_) h
  simp only [mem_def, ite_none_right_eq_some, some.injEq] at hp hq
  exact Prod.ext (hp.1.trans hq.1.symm) (hp.2.trans hq.2.symm)

/-- A flow that holds a region is one of the scheduler. -/
lemma mem_mFlows_of_spare {r : BounceReceiver} {key : Bytes} (hp : 0 < r.spare key h) :
    key ∈ r.scheduler.mFlows := by
  obtain ⟨hheld, -⟩ := BounceReceiver.spare_pos_iff.mp hp
  obtain ⟨st, hst, -⟩ := CreditScheduler.heldByFlow_eq_true.mp hheld
  exact mem_of_find? hst

/-- An event of the receiver that ends no write in flight. -/
lemma receiverStep_inv (hi : Inv out s) (he : BounceReceiver.reclaims e = false)
    (ha : BounceReceiver.Announces (fun key => ∃ n rid, Used out n rid ∧ key = makeKey n rid) e)
    (ht : ∀ n rid h, BounceReceiver.Takes n rid h e → s.inflight n rid h = 0) :
    Inv (out ++ (s.receiverStep e).1) (s.receiverStep e).2 := by
  have hrids : ∀ n, ridsOf n (out ++ (s.receiverStep e).1) = ridsOf n out := fun n => by
    rw [ridsOf_append, receiverStep, ridsOf_receiver, append_nil]
  have hused : ∀ n rid, Used (out ++ (s.receiverStep e).1) n rid ↔ Used out n rid := fun n rid => by
    rw [Used, Used, hrids]
  have hrequest : ∀ key, (∃ n rid, Used out n rid ∧ key = makeKey n rid) →
      BounceReceiver.IsRequest key := fun key ⟨n, rid, hu, hk⟩ => ⟨n, rid, hu.2, hk⟩
  have hannounce : BounceReceiver.Announces BounceReceiver.IsRequest e := by
    cases e with
    | want pick peer r chunkBytes ready => exact hrequest _ ha
    | _ => trivial
  have hknown := BounceReceiver.step_known hi.known he ha
  have hbudget : ∀ n rid h,
      BounceReceiver.Budget s.receiver (BounceReceiver.step s.receiver e) n rid h
      (BounceReceiver.Takes n rid h e) := fun n rid h =>
    BounceReceiver.step_budget hi.receiver (fun key hk =>
      hrequest key (hi.known key hk)) he hannounce
  refine ⟨(BounceReceiver.step_ok hi.receiver e).inv, fun key hk => ?_, fun n => ?_,
    fun n rid h hpos => ?_, fun n rid bytes endpoint hm => ?_, hi.order, fun n rid h => ?_⟩
  · obtain ⟨n, rid, hu, hkey⟩ := hknown key hk
    exact ⟨n, rid, (hused n rid).mpr hu, hkey⟩
  · have hs := hi.senders n
    rwa [show Used out n = Used (out ++ (s.receiverStep e).1) n from
      funext fun rid => propext (hused n rid).symm] at hs
  · rw [hrids]
    simp only [receiverStep, creditsIn_append, creditsIn_sentBack] at hpos
    rcases Nat.eq_zero_or_pos (creditsIn rid h (s.fromReceiver n)) with h0 | hold
    · have hspare : 0 < (BounceReceiver.step s.receiver e).2.spare (makeKey n rid) h := by
        have := (hbudget n rid h).fresh
        omega
      obtain ⟨n', rid', hu, hkey⟩ := hknown _ (mem_mFlows_of_spare hspare)
      obtain ⟨rfl, rfl⟩ := makeKey_injective hkey
      exact hu.1
    · exact hi.grants n rid h hold
  · rw [hused]
    exact hi.wants n rid bytes endpoint hm
  · have hle : (s.receiverStep e).2.inflight n rid h
        ≤ s.inflight n rid h + BounceReceiver.creditsTo n rid h
          (BounceReceiver.step s.receiver e).1 := by
      by_cases hl : (s.senders n).Listens s.self rid
      · rw [inflight_of_listens hl, inflight_of_listens (s := (s.receiverStep e).2) hl]
        simp only [receiverStep, creditsIn_append, creditsIn_sentBack]
        omega
      · rw [inflight_of_not_listens hl, inflight_of_not_listens (s := (s.receiverStep e).2) hl]
        exact Nat.le_add_right _ _
    have hb := hbudget n rid h
    have hold := hi.budget n rid h
    have hone := BounceReceiver.spare_le_one s.receiver (makeKey n rid) h
    rcases Nat.eq_zero_or_pos (s.inflight n rid h) with h0 | hpos
    · exact hle.trans (by rw [h0, Nat.zero_add]; exact hb.fresh)
    · obtain ⟨h1, h2, -⟩ := hb.kept (hpos.trans_le hold) fun htake => hpos.ne' (ht n rid h htake)
      change _ ≤ (BounceReceiver.step s.receiver e).2.spare (makeKey n rid) h
      omega

/-- An event of the receiver's own accord announces nothing and ends no write. -/
lemma ownEvent_spec (he : isMessageOrReclaim e = false) :
    BounceReceiver.reclaims e = false ∧ (∀ K, BounceReceiver.Announces K e)
    ∧ ∀ n rid h, ¬ BounceReceiver.Takes n rid h e := by
  cases e with
  | want | data | forget | expireLease => cases he
  | _ => exact ⟨rfl, fun _ => trivial, fun _ _ _ ht => ht⟩

/-- The message at the front of a channel ends no write in flight, once it has left it. -/
lemma receiverEvent_spec (hi : Inv out s) (hto : s.toReceiver n = msg :: msgs) {pick : List ℕ → ℕ}
    {ready : Bool}
    (hev : receiverEvent n pick ready msg = some e) :
    BounceReceiver.reclaims e = false
    ∧ BounceReceiver.Announces (fun key => ∃ n rid, Used out n rid ∧ key = makeKey n rid) e
    ∧ ∀ n' rid h, BounceReceiver.Takes n' rid h e →
      inflight { s with toReceiver := update s.toReceiver n msgs } n' rid h = 0 := by
  cases msg with
  | want rid bytes endpoint =>
    obtain rfl : _ = e := some.inj hev
    obtain ⟨hu, hclosed⟩ := hi.wants n rid bytes endpoint (by rw [hto]; exact mem_cons_self)
    refine ⟨rfl, ⟨n, rid, hu, rfl⟩, ?_⟩
    rintro n' rid' h ⟨rfl, rfl, rfl⟩
    -- a cancel: no request, no write and no DATA of it is left
    obtain ⟨haway, hgone⟩ := hclosed rfl
    have hnone := find?_eq_none_iff.mpr haway
    have hlisten : ¬ (s.senders n).Listens s.self rid := fun ⟨req, hr, _⟩ => by simp [hnone] at hr
    have hlive : (s.senders n).liveCredits s.self rid h = 0 := by
      rw [BounceSender.liveCredits, hnone]
    have horphan : (s.senders n).orphanWrites s.self rid h = 0 :=
      countP_eq_zero.mpr fun o ho => by simp [hgone o ho]
    have hdata : msgs.countP (BounceSender.isData rid h) = 0 := by
      have hord := hi.order n rid h
      rw [hto, pairwise_cons] at hord
      exact countP_eq_zero.mpr fun m hm => by simp [hord.1 m hm ⟨endpoint, rfl⟩]
    simp only [inflight, hlisten, if_false, hlive, horphan, update_self, hdata]
  | data rid k m h entries =>
    obtain rfl : _ = e := some.inj hev
    refine ⟨rfl, trivial, ?_⟩
    rintro n' rid' h' ⟨rfl, rfl, rfl⟩
    have hbudget := hi.budget n rid h
    have hone := BounceReceiver.spare_le_one s.receiver (makeKey n rid) h
    have hd : BounceSender.isData rid h (.data rid k m h entries) = true := by
      simp [BounceSender.isData]
    simp only [inflight, hto, countP_cons, hd, if_true] at hbudget
    simp only [inflight, update_self]
    split_ifs at hbudget ⊢ <;> omega
  | grant | ack | nack => cases hev

lemma Inv.pop (hi : Inv out s) (hto : s.toReceiver n = msg :: msgs) :
    Inv out { s with toReceiver := update s.toReceiver n msgs } :=
  hi.lose (fun _ => Sublist.refl _) fun m =>
    sublist_update (by rw [hto]; exact sublist_cons_self _ _) m

/-! ### Events of a sender -/

lemma ridsOf_sender_self (n : Bytes) (o : List SenderOutput) {π rid k : ℕ} {peer : Bytes}
    (h : .submitted π rid peer k ∈ o) : rid ∈ ridsOf n (o.map (.sender n)) := by
  have hmem : (n, rid) ∈ submissions (o.map (.sender n)) :=
    mem_filterMap.mpr ⟨_, List.mem_map_of_mem h, rfl⟩
  refine mem_filterMap.mpr ⟨_, hmem, ?_⟩
  simp

lemma ridsOf_sender_ne {m : Bytes} (hne : m ≠ n) (o : List SenderOutput) :
    ridsOf m (o.map (.sender n)) = [] := by
  rw [ridsOf, filterMap_eq_nil_iff]
  rintro ⟨n', rid⟩ hp
  rw [submissions, filterMap_map, mem_filterMap] at hp
  obtain ⟨x, -, hx⟩ := hp
  have hn : n = n' := by
    cases x <;> simp at hx
    exact hx.1
  simp [← hn, Ne.symm hne]

lemma pairwise_of_length_le_one {α : Type*} {R : α → α → Prop} {l : List α} (h : l.length ≤ 1) :
    l.Pairwise R := by
  match l with
  | [] => exact .nil
  | [a] => exact pairwise_singleton R a
  | a :: b :: l => simp at h

section SenderStep

variable {e : BounceSender.Event} {m : Bytes}

lemma senders_senderStep_self (s : System) (e : BounceSender.Event) :
    (s.senderStep n e).2.senders n = (BounceSender.step (s.senders n) e).2 := update_self ..

lemma senders_senderStep_of_ne (s : System) (e : BounceSender.Event) (hm : m ≠ n) :
    (s.senderStep n e).2.senders m = s.senders m := update_of_ne hm _ _

lemma toReceiver_senderStep_self (s : System) (e : BounceSender.Event) :
    (s.senderStep n e).2.toReceiver n
      = s.toReceiver n ++ sentTo s.self (BounceSender.step (s.senders n) e).1 := update_self ..

lemma toReceiver_senderStep_of_ne (s : System) (e : BounceSender.Event) (hm : m ≠ n) :
    (s.senderStep n e).2.toReceiver m = s.toReceiver m := update_of_ne hm _ _

lemma mem_toReceivers_of_sentTo {self : Bytes} {o : List SenderOutput} (h : msg ∈ sentTo self o) :
    (self, msg) ∈ BounceSender.toReceivers o := by
  obtain ⟨⟨peer, msg'⟩, hmem, rfl⟩ := List.mem_map.mp h
  rw [mem_filter, decide_eq_true_iff] at hmem
  exact hmem.2 ▸ hmem.1

lemma Used.append (h : Used out m rid) (o : List SystemOutput) : Used (out ++ o) m rid := by
  refine ⟨?_, h.2⟩
  rw [ridsOf_append]
  exact mem_append_left _ h.1

section

variable (hi : Inv out s) (hfresh : NeverReused (out ++ (s.senderStep n e).1))

include hfresh in
/-- A request id that is given out now was not given out before. -/
lemma notMem_ridsOf_of_submitted {π k : ℕ} {peer : Bytes}
    (hsub : .submitted π rid peer k ∈ (BounceSender.step (s.senders n) e).1) :
    rid ∉ ridsOf n out := by
  intro hold
  have hnodup := hfresh.ridsOf n
  rw [senderStep, ridsOf_append, nodup_append] at hnodup
  exact hnodup.2.2 _ hold _ (ridsOf_sender_self n _ hsub) rfl

include hi hfresh

lemma senderStep_fresh :
    BounceSender.Fresh (Used out n) (Used (out ++ (s.senderStep n e).1) n) (s.senders n)
      (BounceSender.step (s.senders n) e).1 := by
  refine ⟨fun rid hu => hu.append _, fun π peer k hsub => ⟨⟨?_, (hi.senders n).nextRid⟩,
    fun hu => notMem_ridsOf_of_submitted hfresh hsub hu.1⟩⟩
  rw [ridsOf_append]
  exact mem_append_right _ (ridsOf_sender_self n _ hsub)

lemma senderStep_closed (hu : Used out m rid) (hc : (s.senders m).Closed rid) :
    ((s.senderStep n e).2.senders m).Closed rid := by
  by_cases hm : m = n
  · subst hm
    rw [senders_senderStep_self]
    exact (BounceSender.step_writes _ e).closed (senderStep_fresh hi hfresh) hu hc
  · rwa [senders_senderStep_of_ne s e hm]

lemma senderStep_writerOk (m : Bytes) :
    BounceSender.WriterOk (Used (out ++ (s.senderStep n e).1) m)
      ((s.senderStep n e).2.senders m) := by
  by_cases hm : m = n
  · subst hm
    rw [senders_senderStep_self]
    exact (BounceSender.step_writes _ e).ok (hi.senders m) (senderStep_fresh hi hfresh)
  · rw [senders_senderStep_of_ne s e hm]
    have hrids : Used (out ++ (s.senderStep n e).1) m = Used out m := by
      funext rid
      rw [Used, Used, ridsOf_append, senderStep, ridsOf_sender_ne hm, append_nil]
    rw [hrids]
    exact hi.senders m

/-- A WANT is of a request that was given out, and a cancel of one that is closed. -/
lemma senderStep_wants {bytes : List ℕ} {endpoint : Bytes}
    (hm : .want rid bytes endpoint ∈ (s.senderStep n e).2.toReceiver m) :
    Used (out ++ (s.senderStep n e).1) m rid
      ∧ (bytes = [] → ((s.senderStep n e).2.senders m).Closed rid) := by
  have hold : .want rid bytes endpoint ∈ s.toReceiver m →
      Used (out ++ (s.senderStep n e).1) m rid
        ∧ (bytes = [] → ((s.senderStep n e).2.senders m).Closed rid) := fun hm => by
    obtain ⟨hu, hc⟩ := hi.wants m rid bytes endpoint hm
    exact ⟨hu.append _, fun hb => senderStep_closed hi hfresh hu (hc hb)⟩
  by_cases hmn : m = n
  · subst hmn
    rw [toReceiver_senderStep_self, mem_append] at hm
    rcases hm with hm | hm
    · exact hold hm
    · obtain ⟨hu, hc⟩ := (BounceSender.step_writes _ e).want (hi.senders m)
        (mem_toReceivers_of_sentTo hm)
      rw [senders_senderStep_self]
      exact ⟨Used.append hu _, hc⟩
  · exact hold (toReceiver_senderStep_of_ne s e hmn ▸ hm)

end

/-- No DATA follows a cancel. -/
lemma senderStep_order (hi : Inv out s) (m : Bytes) (rid h : ℕ) :
    ((s.senderStep n e).2.toReceiver m).Pairwise fun a b =>
      IsCancel rid a → BounceSender.isData rid h b = false := by
  have hstep := BounceSender.step_writes (s.senders n) e
  by_cases hmn : m = n
  · subst hmn
    rw [toReceiver_senderStep_self, pairwise_append]
    refine ⟨hi.order m rid h, ?_, ?_⟩
    · have hlen : (sentTo s.self (BounceSender.step (s.senders m) e).1).length ≤ 1 := by
        rw [sentTo, length_map]
        exact (length_filter_le _ _).trans (hstep.length_toReceivers (hi.senders m))
      exact pairwise_of_length_le_one hlen
    · rintro a ha b hb ⟨endpoint, rfl⟩
      -- the request is closed, so that it has no chunk left to announce
      obtain ⟨-, hc⟩ := hi.wants m rid [] endpoint ha
      by_contra hd
      exact (hc rfl).1
        (hstep.data (hi.senders m) (mem_toReceivers_of_sentTo hb) (Bool.of_not_eq_false hd))
  · rw [toReceiver_senderStep_of_ne s e hmn]
    exact hi.order m rid h

/-- What is in flight after an event of the sender, if its request listens. -/
lemma inflight_senderStep_le (s : System) (e : BounceSender.Event) (rid h : ℕ) :
    (s.senderStep n e).2.inflight n rid h ≤ creditsIn rid h (s.fromReceiver n)
      + ((BounceSender.step (s.senders n) e).2.liveCredits s.self rid h
        + (BounceSender.step (s.senders n) e).2.orphanWrites s.self rid h)
      + ((s.toReceiver n).countP (BounceSender.isData rid h)
        + BounceSender.WriteStep.dataTo s.self rid h
          (BounceSender.toReceivers (BounceSender.step (s.senders n) e).1)) := by
  rw [← countP_sentTo, ← countP_append, ← senders_senderStep_self, ← toReceiver_senderStep_self]
  by_cases hl : ((s.senderStep n e).2.senders n).Listens s.self rid
  · exact (inflight_of_listens (s := (s.senderStep n e).2) hl h).le
  · have heq := inflight_of_not_listens (s := (s.senderStep n e).2) hl h
    rw [show (s.senderStep n e).2.self = s.self from rfl] at heq
    omega

/-- An event of a sender that brings no more credits than there is room for. -/
lemma senderStep_budget (hi : Inv out s) (hfresh : NeverReused (out ++ (s.senderStep n e).1))
    (hroom : (s.senders n).Listens s.self rid →
      s.inflight n rid h + BounceSender.accepted e s.self rid h
        ≤ s.receiver.spare (makeKey n rid) h) :
    (s.senderStep n e).2.inflight n rid h ≤ s.receiver.spare (makeKey n rid) h := by
  have hstep := BounceSender.step_writes (s.senders n) e
  have hle := inflight_senderStep_le (n := n) s e rid h
  set r := BounceSender.step (s.senders n) e with hr
  by_cases hl : (s.senders n).Listens s.self rid
  · have hc : r.2.liveCredits s.self rid h + r.2.orphanWrites s.self rid h
        + BounceSender.WriteStep.dataTo s.self rid h (BounceSender.toReceivers r.1)
        ≤ (s.senders n).liveCredits s.self rid h + (s.senders n).orphanWrites s.self rid h
          + BounceSender.accepted e s.self rid h :=
      hstep.credits (hi.senders n) fun _ => le_rfl
    have hroom := hroom hl
    rw [inflight_of_listens hl] at hroom
    omega
  · have hc : r.2.liveCredits s.self rid h + r.2.orphanWrites s.self rid h
        + BounceSender.WriteStep.dataTo s.self rid h (BounceSender.toReceivers r.1)
        ≤ (s.senders n).liveCredits s.self rid h + (s.senders n).orphanWrites s.self rid h + 0 :=
      hstep.credits (hi.senders n) fun hl' => absurd hl' hl
    have hold := hi.budget n rid h
    rw [inflight_of_not_listens hl] at hold
    by_cases hl' : r.2.Listens s.self rid
    · -- the request is new, and there are no credits for it on the way
      have hzero : creditsIn rid h (s.fromReceiver n) = 0 := by
        rcases hstep.listens hl' with hl'' | ⟨π, k, hsub⟩
        · exact absurd hl'' hl
        · by_contra hne
          exact notMem_ridsOf_of_submitted hfresh hsub
            (hi.grants n rid h (Nat.pos_of_ne_zero hne))
      omega
    · rw [inflight_of_not_listens (s := (s.senderStep n e).2)
        (by rwa [senders_senderStep_self]), senders_senderStep_self, toReceiver_senderStep_self,
        countP_append, countP_sentTo, ← hr]
      change r.2.liveCredits s.self rid h + r.2.orphanWrites s.self rid h + _ ≤ _
      omega

lemma senderStep_inv (hi : Inv out s) (hfresh : NeverReused (out ++ (s.senderStep n e).1))
    (hroom : ∀ rid h, (s.senders n).Listens s.self rid →
      s.inflight n rid h + BounceSender.accepted e s.self rid h
        ≤ s.receiver.spare (makeKey n rid) h) :
    Inv (out ++ (s.senderStep n e).1) (s.senderStep n e).2 := by
  refine ⟨hi.receiver, fun key hk => ?_, senderStep_writerOk hi hfresh, fun m rid h hpos => ?_,
    fun m rid bytes endpoint => senderStep_wants hi hfresh, senderStep_order hi,
    fun m rid h => ?_⟩
  · obtain ⟨m, rid, hu, hkey⟩ := hi.known key hk
    exact ⟨m, rid, hu.append _, hkey⟩
  · rw [ridsOf_append]
    exact mem_append_left _ (hi.grants m rid h hpos)
  · by_cases hmn : m = n
    · subst hmn
      exact senderStep_budget hi hfresh (hroom rid h)
    · refine le_trans (le_of_eq ?_) (hi.budget m rid h)
      rw [inflight, inflight, senders_senderStep_of_ne s e hmn,
        toReceiver_senderStep_of_ne s e hmn]
      rfl

end SenderStep

lemma NeverReused.of_append {o o' : List SystemOutput} (h : NeverReused (o ++ o')) :
    NeverReused o := by
  rw [NeverReused, submissions, filterMap_append] at h
  exact (nodup_append.mp h).1

/-- An event of the sender's own accord brings no credits of the receiver. -/
lemma accepted_of_not_message {self : Bytes} {e : BounceSender.Event}
    (he : isMessageOf self e = false) (rid h : ℕ) : BounceSender.accepted e self rid h = 0 := by
  cases e with
  | grant ch peer r credits =>
    have hne : peer ≠ self := by simpa [isMessageOf] using he
    simp [BounceSender.accepted, hne]
  | _ => rfl

/-- A sender takes the message at the front of a channel. -/
lemma toSender_inv (hi : Inv out s) (hfrom : s.fromReceiver n = msg :: msgs)
    {ch : BounceSender.PumpChoices} {pick : List ℕ → ℕ}
    {picks : ℕ → List ℕ → ℕ} {e : BounceSender.Event}
    (hev : senderEvent s.self ch pick picks msg = some e) (hfresh : NeverReused (out
      ++ (senderStep { s with fromReceiver := update s.fromReceiver n msgs } n e).1)) :
    Inv (out ++ (senderStep { s with fromReceiver := update s.fromReceiver n msgs } n e).1)
      (senderStep { s with fromReceiver := update s.fromReceiver n msgs } n e).2 := by
  have hpop : Inv out { s with fromReceiver := update s.fromReceiver n msgs } :=
    hi.lose (fun m => sublist_update (by rw [hfrom]; exact sublist_cons_self _ _) m)
      fun _ => Sublist.refl _
  refine senderStep_inv hpop hfresh fun rid h hl => ?_
  -- the credits of the message move from the channel into the request
  have haccepted : BounceSender.accepted e s.self rid h ≤ msg.credits rid h := by
    cases msg with
    | grant r credits =>
      obtain rfl : _ = e := some.inj hev
      by_cases hr : r = rid <;> simp [BounceSender.accepted, BounceMsg.credits, hr]
    | ack | nack =>
      obtain rfl : _ = e := some.inj hev
      exact le_rfl
    | want | data => cases hev
  have hbudget := hi.budget n rid h
  rw [inflight_of_listens (s := s) hl, hfrom] at hbudget
  rw [inflight_of_listens hl]
  simp only [update_self, creditsIn, map_cons, sum_cons] at hbudget ⊢
  omega

/-- **One event keeps the invariant of the composed machine.** -/
theorem step_inv (hi : Inv out s) (e : Event) (hfresh : NeverReused (out ++ (step s e).1)) :
    Inv (out ++ (step s e).1) (step s e).2 := by
  have hnil : Inv (out ++ []) s := by rwa [append_nil]
  have hlose : ∀ {f t : Bytes → List BounceMsg}, (∀ n, (f n).Sublist (s.fromReceiver n)) →
      (∀ n, (t n).Sublist (s.toReceiver n)) →
      Inv (out ++ []) { s with fromReceiver := f, toReceiver := t } := fun hf ht => by
    rw [append_nil]
    exact hi.lose hf ht
  cases e with
  | sender n e =>
    simp only [step] at hfresh ⊢
    by_cases hm : isMessageOf s.self e = true
    · rw [if_pos hm]
      exact hnil
    · rw [if_neg hm] at hfresh ⊢
      refine senderStep_inv hi hfresh fun rid h _ => ?_
      rw [accepted_of_not_message (Bool.of_not_eq_true hm)]
      exact hi.budget n rid h
  | receiver e =>
    simp only [step] at hfresh ⊢
    by_cases hm : isMessageOrReclaim e = true
    · rw [if_pos hm]
      exact hnil
    · rw [if_neg hm]
      obtain ⟨he, ha, ht⟩ := ownEvent_spec (Bool.of_not_eq_true hm)
      exact receiverStep_inv hi he (ha _) fun n rid h htake => absurd htake (ht n rid h)
  | toSender n ch pick picks =>
    simp only [step] at hfresh ⊢
    split at hfresh
    · exact hnil
    · rename_i msg msgs hfrom
      split at hfresh
      · exact hlose (fun m => sublist_update (by rw [hfrom]; exact sublist_cons_self _ _) m)
          fun _ => Sublist.refl _
      · rename_i e hev
        exact toSender_inv hi hfrom hev hfresh
  | toReceiver n pick ready =>
    simp only [step]
    split
    · exact hnil
    · rename_i msg msgs hto
      split
      · exact hlose (fun _ => Sublist.refl _)
          fun m => sublist_update (by rw [hto]; exact sublist_cons_self _ _) m
      · rename_i e hev
        obtain ⟨he, ha, ht⟩ := receiverEvent_spec hi hto hev
        exact receiverStep_inv (hi.pop hto) he ha ht
  | loseToSender n i =>
    exact hlose (fun m => sublist_update (eraseIdx_sublist _ _) m) fun _ => Sublist.refl _
  | loseToReceiver n i =>
    exact hlose (fun _ => Sublist.refl _) fun m => sublist_update (eraseIdx_sublist _ _) m

end TrtLlm.System
