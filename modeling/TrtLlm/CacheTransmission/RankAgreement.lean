import TrtLlm.CacheTransmission.RankSelection

/-!
The two sides of a cache transfer agree on who talks to whom.

* `Formatter.Elects`: both are the exchange of ranks whose layers and heads meet, the sender being
  elected for the receiving group. In addition each side asks that its own stage has layers, and
  this is where they differ;
* `agree_and_deliver_iff`: agreement and delivery hold exactly if no stage without layers stands
  strictly inside a stage of the other side. The loop over the stages of the peer takes such a
  stage for a target although it holds nothing.
-/

namespace TrtLlm.CacheTransmission

open Stages Shards List

/-! ### Both sides -/

/-- The two ranks hold common layers, stand for common heads, and the sender is the one that is
elected for the receiving group among those that hold the same of `K` heads. -/
def Exchange (K : ℕ) {S R : CacheState} (s : GroupRank S) (r : GroupRank R) : Prop :=
  Overlap S.mAttentionLayerNumPerPP R.mAttentionLayerNumPerPP s.pp r.pp ∧
    Meets S.tpSizePerDPGroup R.tpSizePerDPGroup s.tp r.tp ∧
      Elected K S.tpSizePerDPGroup R.tpSizePerDPGroup R.dpRank s.tp

/-- The counterparts of every receiver include its targets. -/
def Covers (S R : CacheState) (counterPartRanks : ℕ → List ℕ) : Prop :=
  ∀ r info, targetIRanks S R r = some info → ∀ x ∈ info.mIRanks, x ∈ counterPartRanks r

/-- What the two sides of a formatter do, in terms of the layouts: each one asks in addition that
its own stage has layers. -/
structure Formatter.Elects (f : Formatter) (K : ℕ) (S R : CacheState)
    (counterPartRanks : ℕ → List ℕ) : Prop where
  sends : ∀ (s : GroupRank S) (r : GroupRank R), f.Sends S R s.number r.number ↔
    S.mAttentionLayerNumPerPP.getD s.pp 0 ≠ 0 ∧ Exchange K s r
  selects : ∀ (s : GroupRank S) (r : GroupRank R),
    f.Selects R S r.number (counterPartRanks r.number) s.number ↔
      R.mAttentionLayerNumPerPP.getD r.pp 0 ≠ 0 ∧ Exchange K s r

section Both

variable {H : ℕ} {S R : CacheState} {counterPartRanks : ℕ → List ℕ}

lemma Formatter.selects_of_run {f : Formatter} {idx rank : ℕ} {ranks : List ℕ}
    {picked : List ℕ × List ℕ}
    (h : f.pickRecvConnections ranks.length R idx S ranks = some picked) :
    f.Selects R S idx ranks rank ↔ rank ∈ picked.1.map fun i => ranks.getD i 0 := by
  constructor
  · rintro ⟨picked', hpicked', hmem⟩
    obtain rfl := Option.some.inj (h.symm.trans hpicked')
    exact hmem
  · intro hmem
    exact ⟨picked, h, hmem⟩

variable (hS : Valid H S) (hR : Valid H R)
include hS hR

/-- The senders in the rows that are left to the group are the elected ones. -/
lemma Targets.exists_row_iff (hcp : S.mContextParallelism = 1)
    {r : GroupRank R} {first : ℕ} {info : TargetRanksInfo} (h : Targets S R r first info) {K : ℕ}
    (hm : Even K S.tpSizePerDPGroup) (hn : Even K R.tpSizePerDPGroup) (s : GroupRank S) :
    (∃ i < info.mDomainTPSize, i % rota K S.tpSizePerDPGroup R.tpSizePerDPGroup
          = R.dpRank % rota K S.tpSizePerDPGroup R.tpSizePerDPGroup ∧
        ∃ j < info.mDomainPPSize, info.mIRanks.getD (i * info.mDomainPPSize + j) 0 = s.number) ↔
      Exchange K s r := by
  rw [h.exists_place_iff hS hR hcp s, h.tp, picked_iff hm hn (dvd_or_dvd hR.tp hS.tp), overlap_comm]
  rfl

lemma cacheFormatter_elects {z : ℕ} (hH : H = 2 ^ z) (hcp : S.mContextParallelism = 1)
    (hsum : R.mAttentionLayerNumPerPP.sum = S.mAttentionLayerNumPerPP.sum)
    (hcover : Covers S R counterPartRanks) : cacheFormatter.Elects H S R counterPartRanks where
  sends s r := by
    rw [Formatter.Sends, exists_target_iff hS hR hcp hsum]
    constructor
    · rintro ⟨hneed, hne, hover, hmeets⟩
      exact ⟨hne, hover, hmeets, (needSendCache_iff hS hR hH hsum s hne).mp hneed⟩
    · rintro ⟨hne, hover, hmeets, helected⟩
      exact ⟨(needSendCache_iff hS hR hH hsum s hne).mpr helected, hne, hover, hmeets⟩
  selects s r := by
    by_cases hne : R.mAttentionLayerNumPerPP.getD r.pp 0 = 0
    · obtain ⟨info, hinfo, hnil⟩ := @targetIRanks_of_empty H S R hR r hne
      have hrun : cacheFormatter.pickRecvConnections (counterPartRanks r.number).length R r.number S
          (counterPartRanks r.number) = some ([], []) := by
        change pickRecvConnections _ _ _ _ _ = _
        rw [pickRecvConnections, hinfo]
        exact if_pos hnil
      rw [Formatter.selects_of_run hrun]
      exact iff_of_false not_mem_nil fun h => h.1 hne
    · obtain ⟨first, info, hinfo, htargets⟩ := targetIRanks_spec hS hR hsum.symm r hne
      have hdup : info.mPeerDupHeadFactor = rota H S.tpSizePerDPGroup R.tpSizePerDPGroup := by
        rw [htargets.peerDup, hS.heads, hR.heads, dupHeadFactor_eq_rota (even_of_pow hH hR.tp)]
      have hpos : 0 < info.mPeerDupHeadFactor := hdup ▸ lt_of_lt_of_le Nat.one_pos (le_max_left _ _)
      obtain ⟨picked, hpicked, hmem⟩ :=
        htargets.exists_picked hR hcp (hcover r.number info hinfo) hpos
      have hrun : cacheFormatter.pickRecvConnections (counterPartRanks r.number).length R r.number S
          (counterPartRanks r.number) = some picked := by
        change pickRecvConnections _ _ _ _ _ = _
        rw [pickRecvConnections, hinfo]
        exact hpicked
      rw [Formatter.selects_of_run hrun, hmem, hdup,
        htargets.exists_row_iff hS hR hcp (even_of_pow hH hS.tp) (even_of_pow hH hR.tp)]
      exact (and_iff_right hne).symm

/-- The MLA formatter takes the latent cache of a layer for one head. -/
lemma mlaCacheFormatter_elects (hcp : S.mContextParallelism = 1)
    (hsum : R.mAttentionLayerNumPerPP.sum = S.mAttentionLayerNumPerPP.sum)
    (hcover : Covers S R counterPartRanks) : mlaCacheFormatter.Elects 1 S R counterPartRanks where
  sends s r := by
    have hneed : mlaCacheFormatter.needSendCache S R s.number = some true ↔
        Elected 1 S.tpSizePerDPGroup R.tpSizePerDPGroup R.dpRank s.tp := by
      rw [← mlaNeedSendCache_iff hS hR s]
      exact Option.some_inj
    rw [Formatter.Sends, exists_target_iff hS hR hcp hsum, hneed, Exchange]
    tauto
  selects s r := by
    by_cases hne : R.mAttentionLayerNumPerPP.getD r.pp 0 = 0
    · obtain ⟨info, hinfo, hnil⟩ := @targetIRanks_of_empty H S R hR r hne
      have hrun : mlaCacheFormatter.pickRecvConnections (counterPartRanks r.number).length R
          r.number S (counterPartRanks r.number) = some ([], []) := by
        change mlaPickRecvConnections _ _ _ _ _ = _
        rw [mlaPickRecvConnections, hinfo]
        exact if_pos hnil
      rw [Formatter.selects_of_run hrun]
      exact iff_of_false not_mem_nil fun h => h.1 hne
    · obtain ⟨first, info, hinfo, htargets⟩ := targetIRanks_spec hS hR hsum.symm r hne
      obtain ⟨picked, hpicked, hmem⟩ :=
        htargets.exists_mlaPicked hR hcp hinfo (hcover r.number info hinfo)
      have hsize : info.mDomainTPSize = rota 1 S.tpSizePerDPGroup R.tpSizePerDPGroup := by
        rw [htargets.tp, rota_one hS.tp_pos hR.tp_pos, peerDomain]
        split_ifs with hle
        · exact (max_eq_right (Nat.div_pos hle hR.tp_pos)).symm
        · rw [Nat.div_eq_of_lt (not_le.mp hle)]
          exact (max_eq_left (Nat.zero_le 1)).symm
      have hrow := htargets.exists_row_iff hS hR hcp (even_of_pow (pow_zero 2).symm hS.tp)
        (even_of_pow (pow_zero 2).symm hR.tp) s
      rw [← hsize] at hrow
      rw [Formatter.selects_of_run (f := mlaCacheFormatter) hpicked, hmem, hrow]
      exact (and_iff_right hne).symm

end Both

/-! ### Agreement and delivery -/

/-- A sender sends to a receiver if and only if the receiver selects it. -/
def Formatter.Agree (f : Formatter) (S R : CacheState) (counterPartRanks : ℕ → List ℕ) : Prop :=
  ∀ (s : GroupRank S) (r : GroupRank R),
    f.Sends S R s.number r.number ↔ f.Selects R S r.number (counterPartRanks r.number) s.number

/-- The cache of the sender reaches the receiver. -/
def Formatter.Transfers (f : Formatter) {S R : CacheState} (counterPartRanks : ℕ → List ℕ)
    (s : GroupRank S) (r : GroupRank R) : Prop :=
  f.Sends S R s.number r.number ∧ f.Selects R S r.number (counterPartRanks r.number) s.number

def GroupRank.HasLayer {c : CacheState} (q : GroupRank c) (layer : ℕ) : Prop :=
  start c.mAttentionLayerNumPerPP q.pp ≤ layer ∧ layer < stop c.mAttentionLayerNumPerPP q.pp

/-- Of `H` heads, contiguous by tensor rank. -/
def GroupRank.HasHead {c : CacheState} (H : ℕ) (q : GroupRank c) (head : ℕ) : Prop :=
  Holds H c.tpSizePerDPGroup q.tp head

/-- A stage of `L` without layers stands strictly inside a stage of `L'`. -/
def EmptyInside (L L' : List ℕ) : Prop :=
  ∃ p < L.length, ∃ p' < L'.length,
    L.getD p 0 = 0 ∧ start L' p' < start L p ∧ start L p < stop L' p'

instance (L L' : List ℕ) : Decidable (EmptyInside L L') :=
  inferInstanceAs (Decidable (∃ p < L.length, ∃ p' < L'.length,
    L.getD p 0 = 0 ∧ start L' p' < start L p ∧ start L p < stop L' p'))

section Agreement

variable {H K : ℕ} {S R : CacheState} {f : Formatter} {counterPartRanks : ℕ → List ℕ}

/-- A stage without layers meets another one only from inside. -/
lemma emptyInside_of_overlap {L L' : List ℕ} {p p' : ℕ} (hp : p < L.length) (hp' : p' < L'.length)
    (hover : Overlap L L' p p') (hempty : L.getD p 0 = 0) : EmptyInside L L' := by
  obtain ⟨h₁, h₂⟩ := hover
  rw [stop, hempty, Nat.add_zero] at h₂
  exact ⟨p, hp, p', hp', hempty, h₂, h₁⟩

/-- Every two stages that meet have ranks that would exchange. -/
lemma exists_exchange (hS : Valid H S) (hR : Valid H R) (hm : Even K S.tpSizePerDPGroup)
    (hn : Even K R.tpSizePerDPGroup) {p p' : ℕ} (hp : p < S.mAttentionLayerNumPerPP.length)
    (hp' : p' < R.mAttentionLayerNumPerPP.length)
    (hover : Overlap S.mAttentionLayerNumPerPP R.mAttentionLayerNumPerPP p p') :
    ∃ (s : GroupRank S) (r : GroupRank R), s.pp = p ∧ r.pp = p' ∧ Exchange K s r := by
  have hfirst : Holds K R.tpSizePerDPGroup 0 0 := by
    rw [Holds, first, Nat.zero_mul, Nat.zero_div, Nat.zero_add]
    exact ⟨le_rfl, lt_of_lt_of_le Nat.one_pos (le_max_left _ _)⟩
  obtain ⟨a, ⟨ha, hmeets, helected, -⟩, -⟩ :=
    existsUnique_holder hm hn (dvd_or_dvd hS.tp hR.tp) hn.shards_pos hfirst R.dpRank
  exact ⟨⟨p, a, 0, hS.stages ▸ hp, ha, hS.cp_pos⟩, ⟨p', 0, 0, hR.stages ▸ hp', hn.shards_pos,
    hR.cp_pos⟩, rfl, rfl, hover, hmeets, helected⟩

section

variable (h : f.Elects K S R counterPartRanks) (hS : Valid H S) (hR : Valid H R)
include h hS hR

/-- **Agreement** of one formatter: exactly if no empty stage stands inside a stage of the other
side. -/
lemma Formatter.Elects.agree_iff (hm : Even K S.tpSizePerDPGroup) (hn : Even K R.tpSizePerDPGroup) :
    f.Agree S R counterPartRanks ↔
      ¬ EmptyInside S.mAttentionLayerNumPerPP R.mAttentionLayerNumPerPP ∧
        ¬ EmptyInside R.mAttentionLayerNumPerPP S.mAttentionLayerNumPerPP := by
  have hlayers : ∀ (s : GroupRank S) (r : GroupRank R), s.pp < S.mAttentionLayerNumPerPP.length ∧
      r.pp < R.mAttentionLayerNumPerPP.length :=
    fun s r => ⟨hS.stages ▸ s.pp_lt, hR.stages ▸ r.pp_lt⟩
  constructor
  · intro hagree
    constructor
    · rintro ⟨p, hp, p', hp', hempty, h₁, h₂⟩
      have hover : Overlap S.mAttentionLayerNumPerPP R.mAttentionLayerNumPerPP p p' :=
        ⟨h₂, lt_of_lt_of_le h₁ (Nat.le_add_right _ _)⟩
      obtain ⟨s, r, rfl, rfl, hexchange⟩ := exists_exchange hS hR hm hn hp hp' hover
      have hne : R.mAttentionLayerNumPerPP.getD r.pp 0 ≠ 0 := by
        intro hzero
        rw [stop, hzero] at h₂
        omega
      have hsends := (hagree s r).mpr ((h.selects s r).mpr ⟨hne, hexchange⟩)
      exact ((h.sends s r).mp hsends).1 hempty
    · rintro ⟨p', hp', p, hp, hempty, h₁, h₂⟩
      have hover : Overlap S.mAttentionLayerNumPerPP R.mAttentionLayerNumPerPP p p' :=
        ⟨lt_of_lt_of_le h₁ (Nat.le_add_right _ _), h₂⟩
      obtain ⟨s, r, rfl, rfl, hexchange⟩ := exists_exchange hS hR hm hn hp hp' hover
      have hne : S.mAttentionLayerNumPerPP.getD s.pp 0 ≠ 0 := by
        intro hzero
        rw [stop, hzero] at h₂
        omega
      have hselects := (hagree s r).mp ((h.sends s r).mpr ⟨hne, hexchange⟩)
      exact ((h.selects s r).mp hselects).1 hempty
  · rintro ⟨hno, hno'⟩ s r
    obtain ⟨hp, hp'⟩ := hlayers s r
    rw [h.sends, h.selects]
    refine and_congr_left fun hexchange => iff_of_true ?_ ?_
    · intro hempty
      exact hno (emptyInside_of_overlap hp hp' hexchange.1 hempty)
    · intro hempty
      exact hno' (emptyInside_of_overlap hp' hp (overlap_comm.mp hexchange.1) hempty)

/-- **Delivery** by one formatter: of the senders that hold a layer and a head of the receiver,
exactly one reaches it, whatever the layouts are. -/
lemma Formatter.Elects.existsUnique_transfers (hcp : S.mContextParallelism = 1)
    (hsum : R.mAttentionLayerNumPerPP.sum = S.mAttentionLayerNumPerPP.sum)
    (hm : Even K S.tpSizePerDPGroup) (hn : Even K R.tpSizePerDPGroup) (r : GroupRank R)
    {layer head : ℕ} (hlayer : r.HasLayer layer) (hhead : r.HasHead K head) :
    ∃! s : GroupRank S, f.Transfers counterPartRanks s r ∧ s.HasLayer layer ∧ s.HasHead K head := by
  have hlt : layer < S.mAttentionLayerNumPerPP.sum := by
    rw [← hsum]
    exact lt_of_lt_of_le hlayer.2 (stop_le_sum _ (hR.stages ▸ r.pp_lt))
  obtain ⟨p, ⟨hp, hstage⟩, hpuniq⟩ := existsUnique_stage hlt
  obtain ⟨a, ⟨ha, hmeets, helected, hheld⟩, hauniq⟩ :=
    existsUnique_holder hm hn (dvd_or_dvd hS.tp hR.tp) r.tp_lt hhead R.dpRank
  obtain ⟨hl₁, hl₂⟩ := hlayer
  obtain ⟨hl₁', hl₂'⟩ := hstage
  have hover : Overlap S.mAttentionLayerNumPerPP R.mAttentionLayerNumPerPP p r.pp :=
    ⟨lt_of_le_of_lt hl₁' hl₂, lt_of_le_of_lt hl₁ hl₂'⟩
  refine ⟨⟨p, a, 0, hS.stages ▸ hp, ha, hS.cp_pos⟩,
    ⟨⟨(h.sends _ _).mpr ⟨?_, hover, hmeets, helected⟩,
      (h.selects _ _).mpr ⟨?_, hover, hmeets, helected⟩⟩, ⟨hl₁', hl₂'⟩, hheld⟩, ?_⟩
  · intro hempty
    rw [stop, hempty] at hl₂'
    omega
  · intro hempty
    rw [stop, hempty] at hl₂
    omega
  · rintro s ⟨⟨hsends, -⟩, hlayer', hhead'⟩
    obtain ⟨-, -, hmeets', helected'⟩ := (h.sends s r).mp hsends
    have hscp := s.cp_lt
    rw [hcp] at hscp
    ext
    · exact hpuniq _ ⟨hS.stages ▸ s.pp_lt, hlayer'⟩
    · exact hauniq _ ⟨s.tp_lt, hmeets', helected', hhead'⟩
    · exact Nat.lt_one_iff.mp hscp

end

/-- All ranks of a group hold the one head of an MLA layer. -/
lemma hasHead_one {c : CacheState} (q : GroupRank c) : q.HasHead 1 0 := by
  rw [GroupRank.HasHead, Holds, first, Nat.mul_one, Nat.div_eq_of_lt q.tp_lt, Nat.zero_add]
  exact ⟨le_rfl, lt_of_lt_of_le Nat.one_pos (le_max_left _ _)⟩

/-- **The two sides of a transfer agree**, with either formatter, and every receiver obtains each
of its layers and heads from exactly one sender, if and only if no stage without layers stands
strictly inside the layers of a stage of the other side. -/
theorem agree_and_deliver_iff (hS : Valid H S) (hR : Valid H R) {z : ℕ} (hH : H = 2 ^ z)
    (hcp : S.mContextParallelism = 1)
    (hsum : R.mAttentionLayerNumPerPP.sum = S.mAttentionLayerNumPerPP.sum)
    (hcover : Covers S R counterPartRanks) :
    (cacheFormatter.Agree S R counterPartRanks ∧ mlaCacheFormatter.Agree S R counterPartRanks ∧
      (∀ (r : GroupRank R) layer head, r.HasLayer layer → r.HasHead H head →
        ∃! s : GroupRank S, cacheFormatter.Transfers counterPartRanks s r ∧ s.HasLayer layer ∧
          s.HasHead H head) ∧
      ∀ (r : GroupRank R) layer, r.HasLayer layer →
        ∃! s : GroupRank S, mlaCacheFormatter.Transfers counterPartRanks s r ∧ s.HasLayer layer) ↔
      ¬ EmptyInside S.mAttentionLayerNumPerPP R.mAttentionLayerNumPerPP ∧
        ¬ EmptyInside R.mAttentionLayerNumPerPP S.mAttentionLayerNumPerPP := by
  have hgeneral := cacheFormatter_elects hS hR hH hcp hsum hcover
  have hmla := mlaCacheFormatter_elects hS hR hcp hsum hcover
  have hevenS := even_of_pow hH hS.tp
  have hevenR := even_of_pow hH hR.tp
  have honeS : Even 1 S.tpSizePerDPGroup := even_of_pow (pow_zero 2).symm hS.tp
  have honeR : Even 1 R.tpSizePerDPGroup := even_of_pow (pow_zero 2).symm hR.tp
  rw [hgeneral.agree_iff hS hR hevenS hevenR, hmla.agree_iff hS hR honeS honeR]
  constructor
  · rintro ⟨hno, -⟩
    exact hno
  · intro hno
    refine ⟨hno, hno, fun r layer head hlayer hhead => ?_, fun r layer hlayer => ?_⟩
    · exact hgeneral.existsUnique_transfers hS hR hcp hsum hevenS hevenR r hlayer hhead
    · have := hmla.existsUnique_transfers hS hR hcp hsum honeS honeR r hlayer (hasHead_one r)
      simpa only [hasHead_one, and_true] using this

/-- The targets of every receiver, as its counterparts. -/
def targetRanks (S R : CacheState) (r : ℕ) : List ℕ :=
  ((targetIRanks S R r).map (·.mIRanks)).getD []

lemma covers_targetRanks (S R : CacheState) : Covers S R (targetRanks S R) := by
  intro r info hinfo x hx
  rw [targetRanks, hinfo]
  exact hx

/-- Two heads on four ranks per stage. -/
def contextState : CacheState where
  mNbKvHeadsPerLayer := [1]
  mTensorParallelism := 4
  mPipelineParallelism := 2
  mContextParallelism := 1
  mEnableAttentionDP := false
  mDPrank := 0
  mDPsize := 1
  mAttentionLayerNumPerPP := [2, 3]

/-- The second of two groups with two heads on two ranks each, and a stage without layers between
two others. -/
def generationState : CacheState where
  mNbKvHeadsPerLayer := [1]
  mTensorParallelism := 4
  mPipelineParallelism := 3
  mContextParallelism := 2
  mEnableAttentionDP := true
  mDPrank := 1
  mDPsize := 2
  mAttentionLayerNumPerPP := [2, 0, 3]

theorem agree_and_deliver_iff_borderStage :
    cacheFormatter.Agree contextState generationState (targetRanks contextState generationState) ∧
      mlaCacheFormatter.Agree contextState generationState
        (targetRanks contextState generationState) := by
  have hS : Valid 2 contextState := ⟨by decide, ⟨2, rfl⟩, ⟨0, rfl⟩, rfl, nofun⟩
  have hR : Valid 2 generationState := ⟨by decide, ⟨1, rfl⟩, ⟨1, rfl⟩, rfl, fun _ => by decide⟩
  obtain ⟨h₁, h₂, -⟩ := (agree_and_deliver_iff hS hR (z := 1) rfl rfl rfl
    (covers_targetRanks _ _)).mpr (by decide)
  exact ⟨h₁, h₂⟩

/-- One rank per stage. -/
def pipelineState (stages : List ℕ) : CacheState where
  mNbKvHeadsPerLayer := [1]
  mTensorParallelism := 1
  mPipelineParallelism := stages.length
  mContextParallelism := 1
  mEnableAttentionDP := false
  mDPrank := 0
  mDPsize := 1
  mAttentionLayerNumPerPP := stages

lemma valid_pipelineState (stages : List ℕ) : Valid 1 (pipelineState stages) :=
  ⟨(by decide : 1 = max 1 (1 / 1)), ⟨0, rfl⟩, ⟨0, rfl⟩, rfl, nofun⟩

/-- The receiver of four layers selects the middle one of three senders, which has no layer and
sends nothing. -/
theorem not_agree_innerStage : Valid 1 (pipelineState [2, 0, 2]) ∧ Valid 1 (pipelineState [4]) ∧
      (pipelineState [4]).mAttentionLayerNumPerPP.sum
        = (pipelineState [2, 0, 2]).mAttentionLayerNumPerPP.sum ∧
      ¬ cacheFormatter.Agree (pipelineState [2, 0, 2]) (pipelineState [4])
        (targetRanks (pipelineState [2, 0, 2]) (pipelineState [4])) ∧
      ¬ mlaCacheFormatter.Agree (pipelineState [2, 0, 2]) (pipelineState [4])
        (targetRanks (pipelineState [2, 0, 2]) (pipelineState [4])) := by
  let s : GroupRank (pipelineState [2, 0, 2]) := ⟨1, 0, 0, by decide, by decide, by decide⟩
  let r : GroupRank (pipelineState [4]) := ⟨0, 0, 0, by decide, by decide, by decide⟩
  have hsilent : ∀ f : Formatter,
      ¬ f.Sends (pipelineState [2, 0, 2]) (pipelineState [4]) s.number r.number := by
    rintro f ⟨-, info, hinfo, hmem⟩
    have hnone : (targetIRanks (pipelineState [4]) (pipelineState [2, 0, 2]) 1).map (·.mIRanks)
        = some [] := by decide
    have hnil : info.mIRanks = [] := by
      rw [show (1 : ℕ) = s.number by decide, hinfo] at hnone
      exact Option.some.inj hnone
    rw [hnil] at hmem
    exact absurd hmem not_mem_nil
  refine ⟨valid_pipelineState _, valid_pipelineState _, rfl, ?_, ?_⟩
  · intro hagree
    exact hsilent _ ((hagree s r).mpr ⟨([0, 1, 2], [0, 1, 2]), by decide, by decide⟩)
  · intro hagree
    exact hsilent _ ((hagree s r).mpr ⟨([0, 1, 2], [0, 1, 2]), by decide, by decide⟩)

end Agreement

end TrtLlm.CacheTransmission
