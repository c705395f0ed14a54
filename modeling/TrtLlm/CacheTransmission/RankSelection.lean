import TrtLlm.CacheTransmission.TargetDomain
import Mathlib.Data.List.GetD

/-!
Who a rank sends its cache to, and whom it receives from.

* `Formatter.Sends`, `Formatter.Selects`: the decisions of the sender and of the receiver.
-/

namespace TrtLlm.CacheTransmission

open Stages Shards List

/-! ### Sending -/

/-- The two decisions of a formatter. -/
structure Formatter where
  needSendCache : CacheState → CacheState → ℕ → Option Bool
  pickRecvConnections : ℕ → CacheState → ℕ → CacheState → List ℕ → Option (List ℕ × List ℕ)

def cacheFormatter : Formatter := ⟨needSendCache, pickRecvConnections⟩

def mlaCacheFormatter : Formatter :=
  ⟨fun selfConfig destConfig selfIdx => some (mlaNeedSendCache selfConfig destConfig selfIdx),
    mlaPickRecvConnections⟩

section

variable (f : Formatter) (selfConfig destConfig : CacheState)

/-- The rank `selfIdx` sends to the rank `rank` of the other side. -/
def Formatter.Sends (selfIdx rank : ℕ) : Prop :=
  f.needSendCache selfConfig destConfig selfIdx = some true ∧
    ∃ info, targetIRanks destConfig selfConfig selfIdx = some info ∧ rank ∈ info.mIRanks

/-- The rank `selfIdx` selects the connection to the rank `rank` of the other side. -/
def Formatter.Selects (selfIdx : ℕ)
    (counterPartRanks : List ℕ) (rank : ℕ) : Prop :=
  ∃ picked, f.pickRecvConnections counterPartRanks.length selfConfig selfIdx destConfig
      counterPartRanks = some picked ∧ rank ∈ picked.1.map fun i => counterPartRanks.getD i 0

end

section Sending

variable {H : ℕ} {S R : CacheState}

/-- The place in the group, as `needSendCache` computes it. -/
lemma tpRank_in_group (q : GroupRank S) :
    (if S.mEnableAttentionDP then q.tpRank % (S.mTensorParallelism / S.mDPsize) else q.tpRank)
      = q.tp := by
  have hmod := tpRank_mod q
  rw [CacheState.tpSizePerDPGroup] at hmod
  by_cases hdp : S.mEnableAttentionDP
  · rw [if_pos hdp] at hmod ⊢
    exact hmod
  · rw [if_neg hdp, GroupRank.tpRank, CacheState.dpRank, if_neg hdp, Nat.zero_mul, Nat.add_zero]

/-- The targets of a sender, which has no context parallelism. -/
lemma exists_target_iff (hS : Valid H S) (hR : Valid H R) (hcp : S.mContextParallelism = 1)
    (hsum : R.mAttentionLayerNumPerPP.sum = S.mAttentionLayerNumPerPP.sum) (s : GroupRank S)
    (r : GroupRank R) :
    (∃ info, targetIRanks R S s.number = some info ∧ r.number ∈ info.mIRanks) ↔
      S.mAttentionLayerNumPerPP.getD s.pp 0 ≠ 0 ∧
        Overlap S.mAttentionLayerNumPerPP R.mAttentionLayerNumPerPP s.pp r.pp ∧
          Meets S.tpSizePerDPGroup R.tpSizePerDPGroup s.tp r.tp := by
  by_cases hne : S.mAttentionLayerNumPerPP.getD s.pp 0 = 0
  · obtain ⟨info, hinfo, hnil⟩ := @targetIRanks_of_empty H R S hS s hne
    constructor
    · rintro ⟨info', hinfo', hmem⟩
      obtain rfl := Option.some.inj (hinfo.symm.trans hinfo')
      rw [hnil] at hmem
      exact absurd hmem not_mem_nil
    · rintro ⟨hne', -⟩
      exact absurd hne hne'
  · obtain ⟨first, info, hinfo, htargets⟩ := targetIRanks_spec hR hS hsum s hne
    have hmeets : Meets S.mContextParallelism R.mContextParallelism s.cp r.cp := by
      have h₁ := s.cp_lt
      have h₂ := r.cp_lt
      rw [hcp] at h₁ ⊢
      rw [Meets, Nat.lt_one_iff.mp h₁]
      omega
    have hiff := htargets.mem_ranks hR hS r
    constructor
    · rintro ⟨info', hinfo', hmem⟩
      obtain rfl := Option.some.inj (hinfo.symm.trans hinfo')
      obtain ⟨h₁, h₂, -⟩ := hiff.mp hmem
      exact ⟨hne, h₁, h₂⟩
    · rintro ⟨-, h₁, h₂⟩
      exact ⟨info, hinfo, hiff.mpr ⟨h₁, h₂, hmeets⟩⟩

/-- A sender with layers sends if and only if it is elected for the receiving group. -/
lemma needSendCache_iff (hS : Valid H S) (hR : Valid H R) {z : ℕ} (hH : H = 2 ^ z)
    (hsum : R.mAttentionLayerNumPerPP.sum = S.mAttentionLayerNumPerPP.sum) (s : GroupRank S)
    (hne : S.mAttentionLayerNumPerPP.getD s.pp 0 ≠ 0) :
    needSendCache S R s.number = some true ↔
      Elected H S.tpSizePerDPGroup R.tpSizePerDPGroup R.dpRank s.tp := by
  obtain ⟨first, info, hinfo, htargets⟩ := targetIRanks_spec hR hS hsum s hne
  have hdup : info.mDupHeadFactor = rota H S.tpSizePerDPGroup R.tpSizePerDPGroup := by
    rw [htargets.dup, hS.heads, hR.heads, dupHeadFactor_eq_rota (even_of_pow hH hR.tp)]
  have hpos : 0 < info.mDupHeadFactor := hdup ▸ lt_of_lt_of_le Nat.one_pos (le_max_left _ _)
  rw [needSendCache, hinfo, Option.map_some, Option.some_inj, needSendCacheFor]
  simp only [hS.tpRankOf, tpRank_in_group]
  rw [Elected, ← hdup]
  split_ifs with hle
  · have hone : info.mDupHeadFactor = 1 := le_antisymm hle hpos
    rw [hone, Nat.mod_one, Nat.mod_one]
    exact iff_of_true rfl rfl
  · rw [decide_eq_true_eq]

/-- The MLA formatter elects as if there were one head. -/
lemma rota_one {m n : ℕ} (hm : 0 < m) (hn : 0 < n) : rota 1 m n = max 1 (m / n) := by
  have h : ∀ T, 0 < T → width 1 T * T = T := fun T hT => by
    rw [width]
    obtain rfl | hlt := Nat.eq_or_lt_of_le (Nat.succ_le_of_lt hT)
    · rfl
    · rw [Nat.div_eq_of_lt hlt, max_eq_left (Nat.zero_le 1), one_mul]
  rw [rota, h m hm, h n hn]

lemma mlaNeedSendCache_iff (hS : Valid H S) (hR : Valid H R) (s : GroupRank S) :
    mlaNeedSendCache S R s.number = true ↔
      Elected 1 S.tpSizePerDPGroup R.tpSizePerDPGroup R.dpRank s.tp := by
  -- both branches of the source compare the place in the group, modulo the same factor
  have hbranch : mlaNeedSendCache S R s.number = true ↔
      (R.tpSizePerDPGroup < S.tpSizePerDPGroup →
        s.tp % (S.tpSizePerDPGroup / R.tpSizePerDPGroup)
          = R.dpRank % (S.tpSizePerDPGroup / R.tpSizePerDPGroup)) := by
    have hgroup := tpRank_in_group s
    rw [mlaNeedSendCache, hS.tpRankOf]
    by_cases hdp : S.mEnableAttentionDP
    · have hT : S.tpSizePerDPGroup = S.mTensorParallelism / S.mDPsize := if_pos hdp
      rw [if_pos hdp, ← hT] at hgroup
      simp only [hdp, if_true, ← hT, hgroup]
      split_ifs with hle
      · exact iff_of_true rfl fun hlt => absurd hle hlt.not_ge
      · rw [decide_eq_true_eq]
        exact ⟨fun h _ => h, fun h => h (not_le.mp hle)⟩
    · have hT : S.tpSizePerDPGroup = S.mTensorParallelism := if_neg hdp
      rw [if_neg hdp] at hgroup
      simp only [hdp, if_false, hgroup, ← hT, Bool.false_eq_true]
      split_ifs with hle
      · exact iff_of_true rfl fun hlt => absurd hle hlt.not_ge
      · rw [decide_eq_true_eq]
        exact ⟨fun h _ => h, fun h => h (not_le.mp hle)⟩
  rw [hbranch, Elected, rota_one hS.tp_pos hR.tp_pos]
  obtain hle | hlt := Nat.lt_or_ge R.tpSizePerDPGroup S.tpSizePerDPGroup
  · rw [max_eq_right ((Nat.one_le_div_iff hR.tp_pos).mpr hle.le)]
    exact ⟨fun h => (h hle).symm, fun h _ => h.symm⟩
  · have hone : max 1 (S.tpSizePerDPGroup / R.tpSizePerDPGroup) = 1 := by
      refine max_eq_left ?_
      calc S.tpSizePerDPGroup / R.tpSizePerDPGroup
          ≤ R.tpSizePerDPGroup / R.tpSizePerDPGroup := Nat.div_le_div_right hlt
        _ = 1 := Nat.div_self hR.tp_pos
    rw [hone, Nat.mod_one, Nat.mod_one]
    exact iff_of_true (fun h => absurd h hlt.not_gt) rfl

end Sending

/-! ### Receiving -/

section Receiving

lemma getD_idxOf {l : List ℕ} {x : ℕ} (h : x ∈ l) : l.getD (l.idxOf x) 0 = x := by
  rw [getD_eq_getElem _ _ (idxOf_lt_length_of_mem h), getElem_idxOf]

/-- All ranks are found among the counterparts. -/
lemma indicesIn_eq {counterPartRanks ranks : List ℕ} (h : ∀ x ∈ ranks, x ∈ counterPartRanks) :
    indicesIn counterPartRanks ranks = some (ranks.map counterPartRanks.idxOf) := by
  rw [indicesIn]
  induction ranks with
  | nil => rfl
  | cons x ranks ih =>
    rw [mapM_cons, if_pos (h x mem_cons_self), ih fun y hy => h y (mem_cons_of_mem x hy)]
    rfl

/-- The places lead back to the ranks. -/
lemma map_getD_idxOf {counterPartRanks ranks : List ℕ} (h : ∀ x ∈ ranks, x ∈ counterPartRanks) :
    (ranks.map counterPartRanks.idxOf).map (fun i => counterPartRanks.getD i 0) = ranks := by
  rw [map_map]
  conv_rhs => rw [← map_id ranks]
  exact map_congr_left fun x hx => getD_idxOf (h x hx)

/-- A lookup of several places that are all there. -/
lemma mapM_getElem? {l is : List ℕ} (h : ∀ i ∈ is, i < l.length) :
    (is.mapM fun i => l[i]?) = some (is.map fun i => l.getD i 0) := by
  induction is with
  | nil => rfl
  | cons i is ih =>
    have hi := h i mem_cons_self
    rw [mapM_cons, ih fun j hj => h j (mem_cons_of_mem i hj), getElem?_eq_getElem hi,
      map_cons, getD_eq_getElem _ _ hi]
    rfl

/-- The entry of a table, row by row. -/
lemma getD_flatMap_map (g : ℕ → ℕ → ℕ) (p D : ℕ) {n : ℕ} : ∀ {t i j : ℕ}, i < n → j < D →
    ((range' t n).flatMap fun a => (range' p D).map (g a)).getD (i * D + j) 0
      = g (t + i) (p + j) := by
  induction n with
  | zero =>
    intro t i j hi
    exact absurd hi (Nat.not_lt_zero i)
  | succ n ih =>
    intro t i j hi hj
    have hlen : ((range' p D).map (g t)).length = D := by
      rw [length_map, length_range']
    rw [range'_succ, flatMap_cons]
    cases i with
    | zero =>
      rw [Nat.zero_mul, Nat.zero_add, getD_append _ _ _ _ (hlen.symm ▸ hj),
        getD_eq_getElem _ _ (hlen.symm ▸ hj), getElem_map, getElem_range',
        Nat.one_mul, Nat.add_zero]
    | succ i =>
      have hge : D ≤ (i + 1) * D + j := by
        rw [add_mul, one_mul]
        omega
      rw [getD_append_right _ _ _ _ (hlen.symm ▸ hge), hlen,
        show (i + 1) * D + j - D = i * D + j by rw [add_mul, one_mul]; omega,
        ih (Nat.lt_of_succ_lt_succ hi) hj, show t + 1 + i = t + (i + 1) by ring]

lemma length_table (g : ℕ → ℕ → ℕ) (t p D n : ℕ) :
    ((range' t n).flatMap fun a => (range' p D).map (g a)).length = n * D := by
  rw [length_flatMap]
  simp

variable {H : ℕ} {S R : CacheState}

variable {counterPartRanks : List ℕ} {first : ℕ} {info : TargetRanksInfo} {r : GroupRank R}

/-- A sender without context parallelism has one context rank to offer. -/
lemma peerDomain_one {C c : ℕ} (hc : c < C) : peerDomain C 1 c = (0, 1) := by
  rw [peerDomain]
  split_ifs with hle
  · have hC : C = 1 := by omega
    have hc0 : c = 0 := by omega
    rw [hC, hc0]
  · rw [Nat.div_one, Nat.div_eq_of_lt hc]

/-- The ranks a receiver looks at, as a table of places in the group and stages. -/
lemma Targets.table (h : Targets S R r first info) (hcp : S.mContextParallelism = 1) :
    info.mDomainCPSize = 1 ∧ info.mIRanks =
      (range' ((peerDomain R.tpSizePerDPGroup S.tpSizePerDPGroup r.tp).1
        + S.dpRank * S.tpSizePerDPGroup) info.mDomainTPSize).flatMap fun j =>
          (range' first info.mDomainPPSize).map fun k => k * S.mTensorParallelism + j := by
  have hone : info.mDomainCPSize = 1 := by
    rw [h.cp, hcp, peerDomain_one r.cp_lt]
  refine ⟨hone, ?_⟩
  rw [h.ranks, hone, hcp, peerDomain_one r.cp_lt]
  simp

/-- **The places of the table** where a sender stands, in the rows that satisfy a condition. -/
lemma Targets.exists_place_iff (hS : Valid H S) (hR : Valid H R)
    (hcp : S.mContextParallelism = 1) (h : Targets S R r first info) (s : GroupRank S)
    (P : ℕ → Prop) : (∃ i < info.mDomainTPSize, P i ∧ ∃ j < info.mDomainPPSize,
      info.mIRanks.getD (i * info.mDomainPPSize + j) 0 = s.number) ↔
      Overlap R.mAttentionLayerNumPerPP S.mAttentionLayerNumPerPP r.pp s.pp ∧
        ∃ i < info.mDomainTPSize,
          (peerDomain R.tpSizePerDPGroup S.tpSizePerDPGroup r.tp).1 + i = s.tp ∧ P i := by
  have hentry : ∀ i j, i < info.mDomainTPSize → j < info.mDomainPPSize →
      (info.mIRanks.getD (i * info.mDomainPPSize + j) 0 = s.number ↔ first + j = s.pp ∧
        (peerDomain R.tpSizePerDPGroup S.tpSizePerDPGroup r.tp).1 + i = s.tp) := by
    intro i j hi hj
    have hplace : (peerDomain R.tpSizePerDPGroup S.tpSizePerDPGroup r.tp).1 + i
        < S.tpSizePerDPGroup := by
      refine lt_of_meets ?_ r.tp_lt
      rw [← mem_peerDomain hR.tp_pos hS.tp_pos (dvd_or_dvd hR.tp hS.tp), mem_range'_1, ← h.tp]
      omega
    have hgroup := hS.group_le
    rw [add_mul, one_mul] at hgroup
    have hs := s.cp_lt
    rw [hcp] at hs
    rw [(h.table hcp).2, getD_flatMap_map _ _ _ hi hj, GroupRank.number, hcp]
    constructor
    · intro heq
      have hnum : (first + j) * S.mTensorParallelism * 1
          + ((peerDomain R.tpSizePerDPGroup S.tpSizePerDPGroup r.tp).1
            + S.dpRank * S.tpSizePerDPGroup + i) * 1 + 0
          = s.pp * S.mTensorParallelism * 1 + s.tpRank * 1 + s.cp := by
        rw [← heq]
        ring
      obtain ⟨h₁, h₂, -⟩ := decode_inj (by omega) Nat.one_pos (hS.tpRank_lt s) hs hnum
      rw [GroupRank.tpRank] at h₂
      exact ⟨h₁, by omega⟩
    · rintro ⟨h₁, h₂⟩
      rw [h₁, GroupRank.tpRank, ← h₂, Nat.lt_one_iff.mp hs]
      ring
  have hstage : Overlap R.mAttentionLayerNumPerPP S.mAttentionLayerNumPerPP r.pp s.pp ↔
      ∃ j < info.mDomainPPSize, first + j = s.pp := by
    have := h.pp s.pp
    rw [mem_range'_1] at this
    constructor
    · intro hover
      obtain ⟨h₁, h₂⟩ := this.mpr ⟨s.pp_lt, hover⟩
      exact ⟨s.pp - first, by omega, by omega⟩
    · rintro ⟨j, hj, hpp⟩
      exact (this.mp ⟨by omega, by omega⟩).2
  rw [hstage]
  constructor
  · rintro ⟨i, hi, hP, j, hj, hnum⟩
    obtain ⟨h₁, h₂⟩ := (hentry i j hi hj).mp hnum
    exact ⟨⟨j, hj, h₁⟩, i, hi, h₂, hP⟩
  · rintro ⟨⟨j, hj, h₁⟩, i, hi, h₂, hP⟩
    exact ⟨i, hi, hP, j, hj, (hentry i j hi hj).mpr ⟨h₁, h₂⟩⟩

section

variable (h : Targets S R r first info) (hcp : S.mContextParallelism = 1)
include h hcp

/-- The places of whole rows lie inside the table. -/
lemma Targets.place_lt {i j : ℕ} (hi : i < info.mDomainTPSize) (hj : j < info.mDomainPPSize) :
    i * info.mDomainPPSize + j < info.mIRanks.length := by
  rw [(h.table hcp).2, length_table]
  exact CacheTransmission.place_lt hi hj

lemma Targets.ranks_ne_nil (hpos : 0 < info.mDomainTPSize) : info.mIRanks ≠ [] := by
  intro hnil
  have := h.place_lt hcp hpos h.pp_pos
  rw [hnil] at this
  exact Nat.not_lt_zero _ this

end

/-- Places of the table that are looked up among the counterparts lead to the ranks there. -/
lemma lookup_eq {ranks is : List ℕ} (hcover : ∀ x ∈ ranks, x ∈ counterPartRanks)
    (his : ∀ i ∈ is, i < ranks.length) :
    ∃ conns, (is.mapM fun i => (ranks.map counterPartRanks.idxOf)[i]?) = some conns ∧
      conns.map (fun i => counterPartRanks.getD i 0) = is.map fun i => ranks.getD i 0 := by
  refine ⟨_, mapM_getElem? fun i hi => ?_, ?_⟩
  · rw [length_map]
    exact his i hi
  · rw [map_map]
    refine map_congr_left fun i hi => ?_
    have hlt := his i hi
    have hget : (ranks.map counterPartRanks.idxOf).getD i 0
        = counterPartRanks.idxOf (ranks.getD i 0) := by
      rw [getD_eq_getElem _ _ (by rwa [length_map]), getElem_map, getD_eq_getElem _ _ hlt]
    have hmem : ranks.getD i 0 ∈ ranks := by
      rw [getD_eq_getElem _ _ hlt]
      exact getElem_mem hlt
    rw [Function.comp_apply, hget, getD_idxOf (hcover _ hmem)]

lemma Targets.domainTP_pos (hR : Valid H R) (h : Targets S R r first info) :
    0 < info.mDomainTPSize := by
  rw [h.tp, peerDomain]
  split_ifs with hle
  · exact Nat.div_pos hle hR.tp_pos
  · exact Nat.one_pos

/-- Every rank of the table stands at a place of it. -/
lemma Targets.mem_iff_place (h : Targets S R r first info) (hcp : S.mContextParallelism = 1)
    (x : ℕ) : x ∈ info.mIRanks ↔ ∃ i < info.mDomainTPSize, ∃ j < info.mDomainPPSize,
      info.mIRanks.getD (i * info.mDomainPPSize + j) 0 = x := by
  constructor
  · intro hx
    obtain ⟨k, hk, rfl⟩ := mem_iff_getElem.mp hx
    have hlen : info.mIRanks.length = info.mDomainTPSize * info.mDomainPPSize := by
      rw [(h.table hcp).2, length_table]
    refine ⟨k / info.mDomainPPSize, Nat.div_lt_of_lt_mul ?_, k % info.mDomainPPSize,
      Nat.mod_lt _ h.pp_pos, ?_⟩
    · rwa [mul_comm, ← hlen]
    · rw [Nat.div_add_mod', getD_eq_getElem _ _ hk]
  · rintro ⟨i, hi, j, hj, rfl⟩
    rw [getD_eq_getElem _ _ (h.place_lt hcp hi hj)]
    exact getElem_mem _

variable (h : Targets S R r first info) (hR : Valid H R) (hcp : S.mContextParallelism = 1)
include h hR hcp

/-- **The general formatter** picks the rows of the table that the factor leaves to the group. -/
lemma Targets.exists_picked
    (hall : ∀ x ∈ info.mIRanks, x ∈ counterPartRanks) (hpos : 0 < info.mPeerDupHeadFactor) :
    ∃ picked, pickRecvConnectionsFor counterPartRanks.length R counterPartRanks info = some picked ∧
      ∀ x, x ∈ (picked.1.map fun i => counterPartRanks.getD i 0) ↔ ∃ i < info.mDomainTPSize,
        i % info.mPeerDupHeadFactor = R.dpRank % info.mPeerDupHeadFactor ∧
          ∃ j < info.mDomainPPSize, info.mIRanks.getD (i * info.mDomainPPSize + j) 0 = x := by
  have hnil := h.ranks_ne_nil hcp (h.domainTP_pos hR)
  have hbase : pickSendConnections counterPartRanks.length counterPartRanks info
      = some (info.mIRanks.map counterPartRanks.idxOf) := by
    rw [pickSendConnections, indicesIn_eq hall]
    simp
  rw [pickRecvConnectionsFor, if_neg hnil, hbase]
  by_cases hle : info.mPeerDupHeadFactor ≤ 1
  · -- no head is held twice: all rows
    have hone : info.mPeerDupHeadFactor = 1 := le_antisymm hle hpos
    refine ⟨(info.mIRanks.map counterPartRanks.idxOf,
      range (info.mIRanks.map counterPartRanks.idxOf).length), ?_, fun x => ?_⟩
    · simp [hle]
    · rw [map_getD_idxOf hall, h.mem_iff_place hcp]
      simp only [hone, Nat.mod_one, true_and]
  · have hplaces : ∀ i ∈ pickedIndices info R.dpRank, i < info.mIRanks.length := by
      intro i hi
      simp only [pickedIndices, mem_flatMap, mem_filter, mem_map, mem_range] at hi
      obtain ⟨a, ⟨ha, -⟩, b, hb, rfl⟩ := hi
      exact h.place_lt hcp ha hb
    obtain ⟨conns, hconns, hmap⟩ := lookup_eq hall hplaces
    refine ⟨(conns, pickedIndices info R.dpRank), ?_, fun x => ?_⟩
    · simp only [Option.bind_eq_bind, Option.bind_some, if_neg hle, hconns]
      rfl
    · simp only [hmap, pickedIndices, mem_flatMap, mem_filter, mem_map,
        mem_range, decide_eq_true_eq]
      constructor
      · rintro ⟨k, ⟨i, ⟨hi, hmod⟩, j, hj, rfl⟩, hx⟩
        exact ⟨i, hi, hmod, j, hj, hx⟩
      · rintro ⟨i, hi, hmod, j, hj, hx⟩
        exact ⟨_, ⟨i, ⟨hi, hmod⟩, j, hj, rfl⟩, hx⟩

/-- **The MLA formatter** picks one row of the table. -/
lemma Targets.exists_mlaPicked (hinfo : targetIRanks S R r.number = some info)
    (hall : ∀ x ∈ info.mIRanks, x ∈ counterPartRanks) :
    ∃ picked, mlaPickRecvConnections counterPartRanks.length R r.number S counterPartRanks
        = some picked ∧
      ∀ x, x ∈ (picked.1.map fun i => counterPartRanks.getD i 0) ↔ ∃ i < info.mDomainTPSize,
        i % info.mDomainTPSize = R.dpRank % info.mDomainTPSize ∧
          ∃ j < info.mDomainPPSize, info.mIRanks.getD (i * info.mDomainPPSize + j) 0 = x := by
  have hpos := h.domainTP_pos hR
  have hrow := Nat.mod_lt R.dpRank hpos
  have hnil := h.ranks_ne_nil hcp hpos
  generalize hplaces : ((range info.mDomainPPSize).map fun i =>
    i + R.dpRank % info.mDomainTPSize * info.mDomainPPSize) = places
  have hmem : ∀ k, k ∈ places ↔
      ∃ j < info.mDomainPPSize, R.dpRank % info.mDomainTPSize * info.mDomainPPSize + j = k := by
    intro k
    rw [← hplaces, mem_map]
    simp only [mem_range, add_comm]
  have hlt : ∀ k ∈ places, k < info.mIRanks.length := by
    intro k hk
    obtain ⟨j, hj, rfl⟩ := (hmem k).mp hk
    exact h.place_lt hcp hrow hj
  have hranks : ∀ x ∈ places.map fun k => info.mIRanks.getD k 0, x ∈ counterPartRanks := by
    intro x hx
    obtain ⟨k, hk, rfl⟩ := mem_map.mp hx
    rw [getD_eq_getElem _ _ (hlt k hk)]
    exact hall _ (getElem_mem _)
  refine ⟨((places.map fun k => info.mIRanks.getD k 0).map counterPartRanks.idxOf, places), ?_,
    fun x => ?_⟩
  · simp only [mlaPickRecvConnections, hinfo, Option.bind_eq_bind, Option.bind_some, if_neg hnil,
      (h.table hcp).1, hplaces, mapM_getElem? hlt, indicesIn_eq hranks, guard, if_true]
    rfl
  · rw [map_getD_idxOf hranks, mem_map]
    simp only [hmem]
    constructor
    · rintro ⟨k, ⟨j, hj, rfl⟩, hx⟩
      exact ⟨_, hrow, Nat.mod_mod _ _, j, hj, hx⟩
    · rintro ⟨i, hi, hmod, j, hj, hx⟩
      rw [Nat.mod_eq_of_lt hi] at hmod
      exact ⟨_, ⟨j, hj, rfl⟩, hmod ▸ hx⟩

end Receiving

end TrtLlm.CacheTransmission
