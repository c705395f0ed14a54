import TrtLlm.Bounce.ReceiverSafety

/-!
The regions of the receiver that a remote write may still go to.

A region is spare for a flow from its grant until the DATA of its chunk arrives or the flow is
cancelled: the flow holds it, and no scatter reads it.  The credits that the receiver sends
name regions that have just become spare, and nothing else but that DATA or that cancel ends
it, unless the receiver reclaims on its own.

* `Known`: the flows that a scheduler grants to are among those that were announced to it;
* `creditsTo`: the credits for a region in what an event sends;
* `step_budget`: **one event** spends no region, and sends credits for spare regions only.
-/

namespace TrtLlm

open List UMap

/-- The credits for the region `h` of the request `rid` that a message carries. -/
def BounceMsg.credits (rid h : ℕ) : BounceMsg → ℕ
  | .grant r cs => if r = rid then cs.countP fun c => c.regionHandle = h else 0
  | _ => 0

namespace CreditScheduler

/-! ### The flows of a scheduler -/

/-- Every flow of the scheduler satisfies `K`. -/
def Known (K : Bytes → Prop) (s : CreditScheduler) : Prop := ∀ key ∈ s.mFlows, K key

section Known

variable {K : Bytes → Prop} {s s' : CreditScheduler}

lemma Known.of_subset (h : Known K s) (hsub : ∀ key ∈ s'.mFlows, key ∈ s.mFlows) : Known K s' :=
  fun key hk => h key (hsub key hk)

lemma Known.of_flows (h : Known K s) (he : s'.mFlows = s.mFlows) : Known K s' :=
  h.of_subset fun _ hk => he ▸ hk

lemma mem_mFlows_iff {key : Bytes} : key ∈ s.mFlows ↔ s.flow? key ≠ none := by
  rw [mem_iff_find?, flow?, ne_eq, Option.map_eq_none_iff, Option.eq_none_iff_forall_ne_some]
  simp

lemma GrantRun.known {gs : List Grant} (h : GrantRun s gs s') (hs : Known K s) :
    Known K s' ∧ ∀ g ∈ gs, K g.flow := by
  have hquiet : ∀ {t t' : CreditScheduler}, Quiet t t' → Known K t → Known K t' :=
    fun hq ht => ht.of_subset fun key hk => by rwa [mem_mFlows_iff, ← hq.flows, ← mem_mFlows_iff]
  induction h with
  | done hq => exact ⟨hquiet hq hs, by simp⟩
  | skip hq _ ih => exact ih (hquiet hq hs)
  | @grant t t' t'' g gs hg _ ih =>
    obtain ⟨rest, held, h1, -, h2⟩ := hg.flows
    have hflow : g.flow ∈ t.mFlows := mem_mFlows_iff.mpr (by rw [h1]; simp)
    have hmid : Known K t' := hs.of_subset fun key hk => by
      rw [mem_mFlows_iff, h2] at hk
      split_ifs at hk with he
      · exact he ▸ hflow
      · exact mem_mFlows_iff.mpr hk
    obtain ⟨h3, h4⟩ := ih hmid
    refine ⟨h3, fun g' hg' => ?_⟩
    rcases mem_cons.mp hg' with rfl | hg'
    · exact hs _ hflow
    · exact h4 g' hg'

lemma schedule_known (pick : List ℕ → ℕ) (hs : Known K s) :
    Known K (schedule pick s).2 ∧ ∀ g ∈ (schedule pick s).1, K g.flow :=
  (schedule_run pick s).known hs

lemma dropFromRing_known (hs : Known K s) (flow : Bytes) : Known K (dropFromRing s flow) := by
  obtain ⟨d, r, c, h⟩ := dropFromRing_eq s flow
  rw [h]
  exact hs

lemma eraseIfDone_known (hs : Known K s) (flow : Bytes) : Known K (eraseIfDone s flow) := by
  rw [eraseIfDone]
  split
  · exact hs
  · split_ifs
    · exact dropFromRing_known (hs.of_subset fun key hk => (mem_erase.mp hk).2) flow
    · exact hs

section

variable (pick : List ℕ → ℕ) (hs : Known K s)
include hs

lemma onWant_known {flow : Bytes} (hK : K flow)
    (chunkBytes : List ℕ) : Known K (onWant pick s flow chunkBytes).2
      ∧ ∀ g ∈ (onWant pick s flow chunkBytes).1, K g.flow := by
  refine schedule_known pick ?_
  rw [onWantUpdate]
  have hset : ∀ st, Known K { s.tick with mFlows := s.mFlows.set flow st } := by
    intro st key hk
    rcases UMap.mem_set.mp hk with rfl | hk
    · exact hK
    · exact hs key hk
  split_ifs
  · exact eraseIfDone_known (hset _) flow
  · rw [ensureInRing]
    split_ifs
    · exact hset _
    · exact hset _

lemma onScatterDone_known (flow : Bytes) (offset : ℕ) : Known K (onScatterDone pick s flow offset).2
      ∧ ∀ g ∈ (onScatterDone pick s flow offset).1, K g.flow := by
  refine schedule_known pick ?_
  rw [onScatterDoneUpdate]
  split
  · exact hs
  · rename_i st hfind
    split_ifs
    · refine eraseIfDone_known (fun key hk => ?_) flow
      rcases UMap.mem_set.mp hk with rfl | hk
      · exact hs _ (mem_of_find? hfind)
      · exact hs key hk
    · exact eraseIfDone_known hs flow

lemma reclaimFlow_known (flow : Bytes) (busy : USet ℕ)
    (quarantineFor : ℤ) : Known K (reclaimFlow pick s flow busy quarantineFor).2.1
      ∧ ∀ g ∈ (reclaimFlow pick s flow busy quarantineFor).1, K g.flow := by
  refine schedule_known pick ?_
  rw [dropFlow]
  split
  · exact hs
  · rename_i st _
    have hflows := (foldl_dropRegion_dropped busy quarantineFor st.held.keys s []).1.flows
    refine dropFromRing_known (hs.of_subset fun key hk => ?_) flow
    have := (mem_erase.mp hk).2
    rwa [hflows] at this

lemma freeOrphanRegion_known (offset : ℕ) : Known K (freeOrphanRegion pick s offset).2
      ∧ ∀ g ∈ (freeOrphanRegion pick s offset).1, K g.flow := by
  refine schedule_known pick ?_
  rw [freeOrphanRegionUpdate]
  split_ifs
  · exact hs
  · exact hs

end

lemma promoteLocal_flows (s : CreditScheduler) (offset : ℕ) :
    (promoteLocal s offset).mFlows = s.mFlows := by
  rw [promoteLocal]
  split <;> rfl

variable (pick : List ℕ → ℕ) (hs : Known K s)
include hs

lemma releaseLocal_known (offset : ℕ) :
    Known K (releaseLocal pick s offset).2 ∧ ∀ g ∈ (releaseLocal pick s offset).1, K g.flow := by
  refine schedule_known pick ?_
  rw [releaseLocalUpdate]
  split_ifs
  · exact hs.of_flows (promoteLocal_flows { s with mLocalHeld := s.mLocalHeld.erase offset } offset)
  · exact hs

lemma acquireLocal_known (bytes : ℕ) (eager : Bool) :
    Known K (acquireLocal pick s bytes eager).2 := by
  rw [acquireLocal]
  split
  · exact hs
  · dsimp only
    split_ifs <;> exact hs

lemma reapQuarantine_known :
    Known K (reapQuarantine pick s).2 ∧ ∀ g ∈ (reapQuarantine pick s).1, K g.flow := by
  have hfold : ∀ (t : ℤ) (es : List (ℕ × ℤ)) (c : CreditScheduler), Known K c →
      Known K (es.foldl (reapRegion t) c) := by
    intro t es
    induction es with
    | nil => exact fun c hc => hc
    | cons e es ih =>
      intro c hc
      refine ih _ ?_
      rw [reapRegion]
      split_ifs <;> exact hc
  have hmid : Known K s.reapQuarantineUpdate := hfold _ _ s.tick hs
  rw [reapQuarantine]
  split_ifs
  · exact schedule_known pick hmid
  · exact ⟨hmid, by simp⟩

lemma pollDrain_known : Known K (pollDrain pick s).2 ∧ ∀ g ∈ (pollDrain pick s).1, K g.flow := by
  rw [pollDrain]
  split_ifs
  · exact schedule_known pick (s := s.tick) hs
  · exact ⟨hs, by simp⟩
  · exact ⟨hs, by simp⟩

end Known

end CreditScheduler

namespace BounceReceiver

open CreditScheduler

/-! ### Credits and spare regions -/

/-- The credits for the region `h` of the request `rid` that go to the peer `n`. -/
def creditsTo (n : Bytes) (rid h : ℕ) (out : List ReceiverOutput) : ℕ :=
  (out.map fun
    | .send peer msg => if peer = n then msg.credits rid h else 0
    | _ => 0).sum

/-- One if the flow holds the region and no scatter has it. -/
def spare (s : BounceReceiver) (key : Bytes) (h : ℕ) : ℕ :=
  if s.scheduler.heldByFlow key h = true ∧ h ∉ s.mScattering then 1 else 0

variable {h : ℕ}

lemma spare_le_one (s : BounceReceiver) (key : Bytes) (h : ℕ) : s.spare key h ≤ 1 := by
  rw [spare]
  split_ifs <;> omega

lemma spare_pos_iff {s : BounceReceiver} {key : Bytes} :
    0 < s.spare key h ↔ s.scheduler.heldByFlow key h = true ∧ h ∉ s.mScattering := by
  rw [spare]
  split_ifs with hc <;> simp [hc]

lemma creditsTo_append (n : Bytes) (rid h : ℕ) (out out' : List ReceiverOutput) :
    creditsTo n rid h (out ++ out') = creditsTo n rid h out + creditsTo n rid h out' := by
  rw [creditsTo, map_append, sum_append]
  rfl

lemma creditsTo_eq_zero {n : Bytes} {rid : ℕ} {out : List ReceiverOutput}
    (hout : ∀ peer msg, .send peer msg ∈ out → msg.credits rid h = 0) :
    creditsTo n rid h out = 0 := by
  rw [creditsTo, sum_eq_zero_iff]
  intro x hx
  obtain ⟨o, ho, rfl⟩ := mem_map.mp hx
  cases o with
  | send peer msg => simp [hout peer msg ho]
  | _ => rfl

/-- The credits for the region `h` in the batch of one flow, if it is the flow of `rid`. -/
def batchCredits (n : Bytes) (rid h : ℕ) (key : Bytes) (cs : List BounceCreditEntry) : ℕ :=
  if splitKey key = (n, rid) then cs.countP fun c => c.regionHandle = h else 0

lemma batchCredits_concat (n : Bytes) (rid h : ℕ) (g : Grant) (deviceId : ℕ)
    (cs : List BounceCreditEntry) :
    batchCredits n rid h g.flow (cs ++
        [{ addr := g.addr, len := g.len, devId := deviceId, regionHandle := g.offset }])
      = batchCredits n rid h g.flow cs
        + if splitKey g.flow = (n, rid) ∧ g.offset = h then 1 else 0 := by
  by_cases hs : splitKey g.flow = (n, rid) <;>
    simp [batchCredits, hs, countP_append, countP_singleton]

/-- The credits of the batches that `sendGrants` makes are the grants. -/
lemma sum_sendGrants (deviceId : ℕ) (n : Bytes) (rid h : ℕ) (gs : List Grant) :
    ((sendGrants deviceId gs).map fun m => if m.1 = n then m.2.credits rid h else 0).sum
      = gs.countP fun g => splitKey g.flow = (n, rid) ∧ g.offset = h := by
  have htotal : ∀ m : UMap Bytes (List BounceCreditEntry),
      (gs.foldl (fun m g => m.set g.flow ((m.find? g.flow).getD [] ++
        [{ addr := g.addr, len := g.len, devId := deviceId, regionHandle := g.offset }])) m).total
          (batchCredits n rid h)
        = m.total (batchCredits n rid h)
          + gs.countP fun g => splitKey g.flow = (n, rid) ∧ g.offset = h := by
    induction gs with
    | nil => simp
    | cons g gs ih =>
      intro m
      set m₁ := m.set g.flow ((m.find? g.flow).getD [] ++
        [{ addr := g.addr, len := g.len, devId := deviceId, regionHandle := g.offset }]) with hm₁
      have hupd : m₁.total (batchCredits n rid h) + m.weight (batchCredits n rid h) g.flow
          = m.total (batchCredits n rid h) + m₁.weight (batchCredits n rid h) g.flow :=
        total_update g.flow fun k hk => by rw [hm₁, weight_set, if_neg hk]
      have hw : m.weight (batchCredits n rid h) g.flow
          = batchCredits n rid h g.flow ((m.find? g.flow).getD []) := by
        cases hf : m.find? g.flow <;> simp [weight, hf, batchCredits]
      rw [hw, hm₁, weight_set, if_pos rfl, batchCredits_concat, ← hm₁] at hupd
      rw [foldl_cons, ← hm₁, ih, countP_cons]
      simp only [decide_eq_true_iff]
      omega
  have h0 := htotal ∅
  rw [total_empty, Nat.zero_add] at h0
  rw [← h0, sendGrants, creditsByFlow, total, map_map]
  refine congrArg sum (map_congr_left fun e _ => ?_)
  rcases hsk : splitKey e.1 with ⟨p, r⟩
  by_cases hp : p = n <;> by_cases hr : r = rid <;>
    simp [batchCredits, BounceMsg.credits, hsk, hp, hr]

/-- The flows of requests: their keys give back peer and request id. -/
def IsRequest (key : Bytes) : Prop := ∃ n rid, rid < 2 ^ 64 ∧ key = makeKey n rid

/-- The credits of a call of the scheduler are among its grants. -/
lemma creditsTo_grantsOut_le {gs : List Grant} (hK : ∀ g ∈ gs, IsRequest g.flow)
    (s : BounceReceiver) (n : Bytes) (rid h : ℕ) : creditsTo n rid h (s.grantsOut gs)
      ≤ gs.countP fun g => g.flow = makeKey n rid ∧ g.offset = h := by
  have hnone : creditsTo n rid h (gs.map .granted) = 0 :=
    creditsTo_eq_zero fun peer msg hm => by simp at hm
  rw [grantsOut, creditsTo_append, hnone, Nat.zero_add, creditsTo, map_map]
  refine (sum_sendGrants s.deviceId n rid h gs).le.trans (countP_mono_left fun g hg hp => ?_)
  obtain ⟨hsplit, hoff⟩ := of_decide_eq_true hp
  obtain ⟨n', rid', hlt, hkey⟩ := hK g hg
  rw [hkey, splitKey_makeKey n' hlt, Prod.mk.injEq] at hsplit
  obtain ⟨rfl, rfl⟩ := hsplit
  exact decide_eq_true ⟨hkey, hoff⟩

/-! ### One event -/

/-- The event ends the writes into the region `h` of the request: it is the DATA of the region
or the cancel of the request. -/
def Takes (n : Bytes) (rid h : ℕ) : Event → Prop
  | .want _ peer r chunkBytes _ => chunkBytes = [] ∧ peer = n ∧ r = rid
  | .data peer r _ h' _ => peer = n ∧ r = rid ∧ h' = h
  | _ => False

/-- The receiver reclaims on its own. -/
def reclaims : Event → Bool
  | .forget _ _ _ | .expireLease _ _ => true
  | _ => false

/-- What the outputs and the state after an event say of the region `h` of a request: its
credits are for a spare region, and if it was spare and is not `taken`, it still is, and it is
not given out again.  What is given out is live. -/
structure Budget (s : BounceReceiver) (r : List ReceiverOutput × BounceReceiver) (n : Bytes)
    (rid h : ℕ) (taken : Prop) : Prop where
  fresh : creditsTo n rid h r.1 ≤ r.2.spare (makeKey n rid) h
  kept : 0 < s.spare (makeKey n rid) h → ¬ taken →
    creditsTo n rid h r.1 = 0 ∧ 0 < r.2.spare (makeKey n rid) h ∧ ¬ Returns r.1 h
  live : ∀ x, Returns r.1 x → x ∈ r.2.scheduler.live

/-- Nothing is given out by no output. -/
lemma returns_nil {n : Bytes} {rid : ℕ} : creditsTo n rid h [] = 0 ∧ ∀ x, ¬ Returns [] x :=
  ⟨rfl, fun _ => not_returns_of_forall (by simp) (by simp)⟩

section Budget

variable {s s' : BounceReceiver} {n : Bytes} {rid h : ℕ} {taken : Prop}

/-- An event that gives nothing out and keeps what the flows hold. -/
lemma Budget.of_kept {out : List ReceiverOutput}
    (hout : ∀ o ∈ out, ∃ peer msg, o = .send peer msg ∧ msg.credits rid h = 0)
    (hkept : 0 < s.spare (makeKey n rid) h → ¬ taken → 0 < s'.spare (makeKey n rid) h) :
    Budget s (out, s') n rid h taken := by
  have hcredits : creditsTo n rid h out = 0 := creditsTo_eq_zero fun peer msg hm => by
    obtain ⟨peer', msg', he, h0⟩ := hout _ hm
    cases he
    exact h0
  have hno : ∀ x, ¬ Returns out x := fun x => by
    refine not_returns_of_forall (fun g hg => ?_) fun y hy => ?_
    · obtain ⟨peer, msg, he, -⟩ := hout _ hg
      cases he
    · obtain ⟨peer, msg, he, -⟩ := hout _ hy
      cases he
  exact ⟨by simp [hcredits], fun hp ht => ⟨hcredits, hkept hp ht, hno h⟩,
    fun x hx => absurd hx (hno x)⟩

/-- An event that leaves the scheduler and `mScattering` alone. -/
lemma Budget.of_same {out : List ReceiverOutput}
    (hout : ∀ o ∈ out, ∃ peer msg, o = .send peer msg ∧ msg.credits rid h = 0)
    (hc : s'.scheduler = s.scheduler) (hm : s'.mScattering = s.mScattering) :
    Budget s (out, s') n rid h taken :=
  .of_kept hout fun hp _ => by rwa [spare, hc, hm]

/-- A call of the scheduler that gives no region with a scatter away. -/
lemma Budget.of_effect {gs : List Grant} {H : Set ℕ} {dst : ℕ → Option Owner}
    {tail : List ReceiverOutput} (hs : Owned s.scheduler.live s.scheduler.owns)
    (he : Effect s.scheduler gs s'.scheduler H dst) (hK : ∀ g ∈ gs, IsRequest g.flow)
    (hfresh : ∀ g ∈ gs, g.offset ∉ s'.mScattering)
    (htail : creditsTo n rid h tail = 0 ∧ ∀ x, ¬ Returns tail x)
    (hkeep : 0 < s.spare (makeKey n rid) h → ¬ taken → h ∉ H ∧ h ∉ s'.mScattering) :
    Budget s (s.grantsOut gs ++ tail, s') n rid h taken := by
  have hle := creditsTo_grantsOut_le hK s n rid h
  have hnodup : (gs.map Grant.offset).Nodup := by
    obtain ⟨mid, -, hrun⟩ := he
    exact hrun.grants.1
  have hcount : gs.countP (fun g => g.flow = makeKey n rid ∧ g.offset = h) ≤ 1 := by
    have h1 := nodup_iff_count_le_one.mp hnodup h
    rw [count, countP_map] at h1
    refine (countP_mono_left fun g _ hg => ?_).trans h1
    simpa using (of_decide_eq_true hg).2
  have hout : creditsTo n rid h (s.grantsOut gs ++ tail) = creditsTo n rid h (s.grantsOut gs) := by
    rw [creditsTo_append, htail.1, Nat.add_zero]
  have hret : ∀ x, Returns (s.grantsOut gs ++ tail) x → ∃ g ∈ gs, g.offset = x := fun x hx => by
    rw [returns_append, returns_grantsOut] at hx
    exact hx.elim id fun h => absurd h (htail.2 x)
  have hgrant : 0 < creditsTo n rid h (s.grantsOut gs) →
      ∃ g ∈ gs, g.flow = makeKey n rid ∧ g.offset = h := fun hp => by
    obtain ⟨g, hg, hgp⟩ := countP_pos_iff.mp (hp.trans_le hle)
    exact ⟨g, hg, of_decide_eq_true hgp⟩
  refine ⟨?_, fun hp ht => ?_, fun x hx => ?_⟩
  · dsimp only
    rw [hout]
    rcases Nat.eq_zero_or_pos (creditsTo n rid h (s.grantsOut gs)) with h0 | hpos
    · omega
    · obtain ⟨g, hg, hflow, rfl⟩ := hgrant hpos
      have hheld : s'.scheduler.heldByFlow (makeKey n rid) g.offset = true :=
        (he.mem_owns (.flow (makeKey n rid)) g.offset).mpr (Or.inr ⟨g, hg, by rw [hflow], rfl⟩)
      have := spare_pos_iff.mpr ⟨hheld, hfresh g hg⟩
      omega
  · obtain ⟨hH, hm⟩ := hkeep hp ht
    obtain ⟨hheld, -⟩ := spare_pos_iff.mp hp
    have hnot : ∀ g ∈ gs, g.offset ≠ h := by
      rintro g hg rfl
      exact hH (he.grant_not_live hg (heldByFlow_live hs hheld)).1
    refine ⟨?_, spare_pos_iff.mpr ⟨he.owns_of_not_mem (o := .flow _) hH hheld, hm⟩, fun hx => ?_⟩
    · dsimp only
      rw [hout]
      by_contra hne
      obtain ⟨g, hg, -, hoff⟩ := hgrant (Nat.pos_of_ne_zero hne)
      exact hnot g hg hoff
    · obtain ⟨g, hg, hoff⟩ := hret h hx
      exact hnot g hg hoff
  · obtain ⟨g, hg, rfl⟩ := hret x hx
    obtain ⟨mid, -, hrun⟩ := he
    exact (hrun.frame.2.2.1 _).mpr (Or.inr (mem_map_of_mem hg))

/-- A region that an event returns has no scatter. -/
lemma StepOk.not_scattering {extra extra' : List ℕ} {r : List ReceiverOutput × BounceReceiver}
    (hok : StepOk s extra extra' r) {off : ℕ} (hr : Returns r.1 off) : off ∉ r.2.mScattering := by
  rw [hok.inv.scattering, mem_map]
  rintro ⟨⟨key, x⟩, hj, rfl⟩
  exact hok.returns _ hr key hj

/-- A region of a flow is no region of another party. -/
lemma not_mem_of_spare (hs : Owned s.scheduler.live s.scheduler.owns) {o : Owner} {key : Bytes}
    (hp : 0 < s.spare key h) (ho : o ≠ .flow key) : h ∉ s.scheduler.owns o := fun hx =>
  ho (hs.eq_of_mem hx (j := .flow key) (spare_pos_iff.mp hp).1)

/-- A cancel takes the regions of its request only. -/
lemma reclaimFlow_budget (hs : s.Inv) (pick : List ℕ → ℕ) (peer : Bytes) (r : ℕ)
    (hK : Known IsRequest s.scheduler) :
    Budget s (s.reclaimAndFlagDeferred
      (reclaimFlow pick s.scheduler (makeKey peer r) s.scatteringRegions 0)) n rid h
      (peer = n ∧ r = rid) := by
  have hok := reclaimFlow_ok hs pick (makeKey peer r) 0
  obtain ⟨he, hd, -⟩ := reclaimFlow_effect pick hs.owned (makeKey peer r) s.scatteringRegions 0
  refine .of_effect hs.owned he (reclaimFlow_known pick hK _ _ _).2 (fun g hg => ?_) ?_
    fun hp ht => ?_
  · refine hok.not_scattering ?_
    rw [reclaimAndFlagDeferred, returns_append, returns_grantsOut]
    exact Or.inl ⟨g, hg, rfl⟩
  · refine ⟨creditsTo_eq_zero fun peer msg hm => by simp at hm, fun x => ?_⟩
    exact not_returns_of_forall (by simp) (by simp)
  · have hH : h ∉ { x | s.scheduler.heldByFlow (makeKey peer r) x = true } :=
      not_mem_of_spare (o := .flow (makeKey peer r)) hs.owned hp fun hk =>
        ht (makeKey_injective (Owner.flow.inj hk))
    refine ⟨hH, ?_⟩
    change h ∉ (reclaimFlow pick s.scheduler (makeKey peer r) s.scatteringRegions 0).2.2.foldl
      (fun m off => m.set off true) s.mScattering
    rw [mem_iff_find?, ScatterInv.find?_foldl_set, if_neg fun hx => hH ((hd h).mp hx).1,
      ← mem_iff_find?]
    exact (spare_pos_iff.mp hp).2

/-- A call of the scheduler that leaves `mScattering` and takes no region of a flow. -/
lemma Budget.of_call {c' : CreditScheduler} {gs : List Grant} {H : Set ℕ} (hs : s.Inv)
    (he : Effect s.scheduler gs c' H fun _ => none)
    (hok : StepOk s [] [] (s.grantsOut gs, { s with scheduler := c' }))
    (hK : ∀ g ∈ gs, IsRequest g.flow) (hH : ∀ x ∈ H, ∀ key, s.scheduler.heldByFlow key x ≠ true) :
    Budget s (s.grantsOut gs, { s with scheduler := c' }) n rid h taken := by
  rw [← append_nil (s.grantsOut gs)]
  refine .of_effect hs.owned he hK (fun g hg => ?_) returns_nil fun hp _ => ?_
  · exact hok.not_scattering (returns_grantsOut.mpr ⟨g, hg, rfl⟩)
  · obtain ⟨hheld, hm⟩ := spare_pos_iff.mp hp
    exact ⟨fun hx => hH _ hx _ hheld, hm⟩

lemma drainDone_budget {d : ScatterDone} {rest : List (Bytes × ℕ)}
    (hs : ScatterInv s.scheduler s.mScattering ((d.key, d.offset) :: rest) []) (hj : s.jobs = rest)
    (hK : Known IsRequest s.scheduler) (pick : List ℕ → ℕ) :
    Budget s (drainDone pick s d) n rid h taken := by
  have hok := (drainDone_ok hs hj pick).1
  have hkept : 0 < s.spare (makeKey n rid) h → h ∉ s.mScattering.erase d.offset := fun hp hx =>
    (spare_pos_iff.mp hp).2 (mem_erase.mp hx).2
  have hscat : d.offset ∈ s.mScattering :=
    (hs.scattering _).mpr (mem_map.mpr ⟨_, mem_cons_self, rfl⟩)
  rcases hs.flag mem_cons_self with hf | hf
  · simp only [drainDone, hf] at hok ⊢
    rw [← append_nil (s.grantsOut _)]
    refine .of_effect hs.owned (onScatterDone_effect pick hs.owned d.key d.offset)
      (onScatterDone_known pick hK _ _).2 (fun g hg => ?_) returns_nil fun hp _ => ⟨?_, hkept hp⟩
    · exact hok.not_scattering (returns_grantsOut.mpr ⟨g, hg, rfl⟩)
    · rintro ⟨rfl, -⟩
      exact (spare_pos_iff.mp hp).2 hscat
  · have hmem : d.offset ∈ s.scheduler.mOrphans := (hs.orphan _).mpr (Or.inl hf)
    simp only [drainDone, hf, freeOrphan, if_pos hmem] at hok ⊢
    have hb : Budget s (s.grantsOut (freeOrphanRegion pick s.scheduler d.offset).1 ++ [], { s with
          mScattering := s.mScattering.erase d.offset
          scheduler := (freeOrphanRegion pick s.scheduler d.offset).2 }) n rid h taken := by
      refine .of_effect hs.owned (freeOrphanRegion_effect pick hs.owned d.offset)
        (freeOrphanRegion_known pick hK _).2 (fun g hg => ?_) returns_nil fun hp _ => ⟨?_, hkept hp⟩
      · refine hok.not_scattering (returns_append.mpr (Or.inr ?_))
        exact returns_grantsOut.mpr ⟨g, hg, rfl⟩
      · rintro ⟨rfl, -⟩
        exact (spare_pos_iff.mp hp).2 hscat
    have hout : creditsTo n rid h ([.orphanFreed d.offset]
        ++ s.grantsOut (freeOrphanRegion pick s.scheduler d.offset).1)
        = creditsTo n rid h (s.grantsOut (freeOrphanRegion pick s.scheduler d.offset).1 ++ []) := by
      rw [append_nil, creditsTo_append]
      exact Nat.zero_add _
    have hret : ∀ x, Returns ([.orphanFreed d.offset]
        ++ s.grantsOut (freeOrphanRegion pick s.scheduler d.offset).1) x
        → Returns (s.grantsOut (freeOrphanRegion pick s.scheduler d.offset).1 ++ []) x := by
      intro x hx
      rw [append_nil]
      exact (returns_append.mp hx).elim
        (fun h => absurd h (not_returns_of_forall (by simp) (by simp))) id
    refine ⟨hout ▸ hb.fresh, fun hp ht => ?_, fun x hx => hb.live x (hret x hx)⟩
    obtain ⟨h1, h2, h3⟩ := hb.kept hp ht
    exact ⟨hout ▸ h1, h2, fun hx => h3 (hret h hx)⟩

/-- The flow that an event announces satisfies `K`. -/
def Announces (K : Bytes → Prop) : Event → Prop
  | .want _ peer r _ _ => K (makeKey peer r)
  | _ => True

/-- An event brings no flow but the one that it announces. -/
theorem step_known {K : Bytes → Prop} (hK : Known K s.scheduler) {e : Event}
    (he : reclaims e = false) (ha : Announces K e) : Known K (step s e).2.scheduler := by
  cases e with
  | want pick peer r chunkBytes ready =>
    rw [step, onWant]
    split_ifs
    · exact (reclaimFlow_known pick hK _ _ _).1
    · exact hK
    · exact hK
    · exact hK
    · exact (onWant_known pick hK ha _).1
  | data peer r chunkIdx regionHandle entries =>
    rw [step, onData]
    split_ifs <;> exact hK
  | dequeue | reply | finish =>
    rw [step]
    split <;> exact hK
  | swapDone =>
    rw [step]
    split_ifs <;> exact hK
  | drainNext pick =>
    rw [step]
    split
    · exact hK
    · rw [drainDone]
      split
      · exact (freeOrphanRegion_known pick hK _).1
      · exact (onScatterDone_known pick hK _ _).1
  | forget | expireLease => cases he
  | pollDrain pick => exact (pollDrain_known pick hK).1
  | reapQuarantine pick => exact (reapQuarantine_known pick hK).1
  | readClock | setNextSweep => exact hK
  | acquireLocal pick bytes eager => exact acquireLocal_known pick hK bytes eager
  | promoteLocal offset => exact hK.of_flows (promoteLocal_flows _ offset)
  | releaseLocal pick offset => exact (releaseLocal_known pick hK offset).1

/-- A DATA spends its own region only. -/
lemma onData_budget (hs : s.Inv) (peer : Bytes) (r chunkIdx regionHandle : ℕ)
    (entries : List BounceScatterRun) :
    Budget s ([], onData s peer r chunkIdx regionHandle entries) n rid h
      (peer = n ∧ r = rid ∧ regionHandle = h) := by
  refine .of_kept (by simp) fun hp ht => ?_
  rw [onData]
  split_ifs with hheld hm
  · exact hp
  · obtain ⟨h1, h2⟩ := spare_pos_iff.mp hp
    refine spare_pos_iff.mpr ⟨h1, fun hx => ?_⟩
    rcases mem_emplace.mp hx with rfl | hx
    · obtain ⟨rfl, rfl⟩ := makeKey_injective (Owner.flow.inj (hs.owned.eq_of_mem
        (i := .flow (makeKey peer r)) (j := .flow (makeKey n rid)) hheld h1))
      exact ht ⟨rfl, rfl, rfl⟩
    · exact h2 hx
  · exact hp

lemma acquireLocal_budget (hs : s.Inv) (pick : List ℕ → ℕ) (bytes : ℕ) (eager : Bool) :
    Budget s (step s (.acquireLocal pick bytes eager)) n rid h taken := by
  rw [step]
  rcases acquireLocal_spec pick s.scheduler bytes eager with ⟨hnone, hre⟩ | ⟨off, hsome, hac, -⟩
  · refine .of_kept (by simp [hnone]) fun hp _ => ?_
    obtain ⟨hheld, hm⟩ := spare_pos_iff.mp hp
    exact spare_pos_iff.mpr ⟨(hre.owns (.flow (makeKey n rid)) h).mpr (Or.inr ⟨by simp, hheld⟩), hm⟩
  · have hout :
      creditsTo n rid h ((CreditScheduler.acquireLocal pick s.scheduler bytes eager).1.toList.map
        .acquired) = 0 := creditsTo_eq_zero fun peer msg hm => by simp at hm
    have hret : ∀ x,
        Returns ((CreditScheduler.acquireLocal pick s.scheduler bytes eager).1.toList.map
        .acquired) x → x = off := fun x hx => by simpa [Returns, hsome] using hx
    refine ⟨hout.le.trans (Nat.zero_le _), fun hp _ => ⟨hout, ?_, fun hx => ?_⟩, fun x hx => ?_⟩
    · obtain ⟨hheld, hm⟩ := spare_pos_iff.mp hp
      exact spare_pos_iff.mpr ⟨(hac.owns (.flow (makeKey n rid)) h).mpr (Or.inr hheld), hm⟩
    · exact hac.fresh (hret h hx ▸ heldByFlow_live hs.owned (spare_pos_iff.mp hp).1)
    · exact (hac.live x).mpr (Or.inl (hret x hx))

/-- **One event** sends credits for spare regions only; and a spare region stays spare, without
new credits, unless the event is its DATA or the cancel of its request. -/
theorem step_budget (hs : s.Inv) (hK : Known IsRequest s.scheduler) {e : Event}
    (he : reclaims e = false) (ha : Announces IsRequest e) :
    Budget s (step s e) n rid h (Takes n rid h e) := by
  have hok := step_ok hs e
  cases e with
  | want pick peer r chunkBytes ready =>
    rw [step, onWant] at hok ⊢
    split_ifs at hok ⊢ with hcancel
    · have hb : Budget s _ n rid h _ := reclaimFlow_budget hs pick peer r hK
      exact ⟨hb.fresh, fun hp ht => hb.kept hp fun hk =>
        ht ⟨by simpa [isCancelWant] using hcancel, hk⟩, hb.live⟩
    · exact .of_same (by simp) rfl rfl
    · exact .of_same (by simp) rfl rfl
    · exact .of_same (by simp [BounceMsg.credits]) rfl rfl
    · exact .of_call hs (onWant_effect pick _ _ _) hok (onWant_known pick hK ha _).2 (by simp)
  | data peer r chunkIdx regionHandle entries => exact onData_budget hs ..
  | dequeue | finish =>
    rw [step]
    split <;> exact .of_same (by simp) rfl rfl
  | reply i ok =>
    rw [step]
    split
    · exact .of_same (by simp) rfl rfl
    · rename_i j _
      refine .of_same (fun o ho => ⟨j.peer, replyMsg j ok, mem_singleton.mp ho, ?_⟩) rfl rfl
      rw [replyMsg]
      split_ifs <;> rfl
  | swapDone =>
    rw [step]
    split_ifs <;> exact .of_same (by simp) rfl rfl
  | drainNext pick =>
    rw [step]
    split
    · exact .of_same (by simp) rfl rfl
    · rename_i d ds hd
      have hb : Budget { s with draining := ds }
          (drainDone pick { s with draining := ds } d) n rid h
          (Takes n rid h (.drainNext pick)) :=
        drainDone_budget (s := { s with draining := ds }) (hs.perm (jobs_perm_drain hd)) rfl hK pick
      exact ⟨hb.fresh, hb.kept, hb.live⟩
  | forget | expireLease => cases he
  | pollDrain pick =>
    exact .of_call hs (pollDrain_effect pick _) hok (pollDrain_known pick hK).2 (by simp)
  | reapQuarantine pick =>
    refine .of_call hs (reapQuarantine_effect pick hs.owned) hok (reapQuarantine_known pick hK).2 ?_
    rintro x ⟨d, hx, -⟩ key hheld
    exact Owner.noConfusion (hs.owned.eq_of_mem (i := .quarantine) (j := .flow key)
      (mem_of_find? hx) hheld)
  | readClock => exact .of_kept (by simp) fun hp _ => hp
  | setNextSweep t => exact .of_same (by simp) rfl rfl
  | acquireLocal pick bytes eager => exact acquireLocal_budget hs pick bytes eager
  | promoteLocal offset =>
    refine .of_kept (by simp) fun hp _ => ?_
    obtain ⟨hheld, hm⟩ := spare_pos_iff.mp hp
    refine spare_pos_iff.mpr ⟨?_, hm⟩
    exact (promoteLocal_effect s.scheduler offset).owns_of_not_mem (o := .flow (makeKey n rid))
      (by simp) hheld
  | releaseLocal pick offset =>
    refine .of_call hs (releaseLocal_effect pick hs.owned offset) hok
      (releaseLocal_known pick hK offset).2 ?_
    rintro x ⟨-, hx⟩ key hheld
    exact Owner.noConfusion (hs.owned.eq_of_mem (i := .sender) (j := .flow key) hx hheld)

end Budget

end BounceReceiver

end TrtLlm
