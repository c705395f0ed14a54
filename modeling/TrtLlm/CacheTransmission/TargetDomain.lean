import TrtLlm.CacheTransmission.TargetRanks

/-!
The ranks that `targetIRanks` finds.

* `Valid`: the layouts that the source supports, with `H` heads spread over the ranks of a group;
* `GroupRank`: a rank of the data-parallel group that takes part in a transfer. Its number is a
  mixed-radix one (`decode`);
* `targetIRanks_spec`: to a rank with layers none of the checks fails, and the targets are the ranks
  of the peer whose stage, place in the group and context rank meet its own (`Targets.mem_ranks`);
* `picked_iff`: the rows that a receiver picks are an election among the shards that meet its own.
-/

namespace TrtLlm.CacheTransmission

open Stages Shards List Nat Prod

/-! ### The domain in one dimension -/

/-- The ranks of the peer are the shards that meet the own one. -/
lemma mem_peerDomain {m n r x : ℕ} (hm : 0 < m) (hn : 0 < n) (h : m ∣ n ∨ n ∣ m) :
    x ∈ range' (peerDomain m n r).1 (peerDomain m n r).2 ↔ Meets m n r x := by
  rw [mem_range'_1, peerDomain]
  split_ifs with hle
  · obtain ⟨k, rfl⟩ : m ∣ n := h.elim id fun h' => (le_antisymm hle (le_of_dvd hm h')) ▸ dvd_rfl
    rw [Nat.mul_div_cancel_left k hm, meets_comm, meets_of_refines hm, add_mul, one_mul]
  · obtain ⟨k, rfl⟩ : n ∣ m := h.resolve_left fun h' => hle (le_of_dvd hn h')
    have hk : 0 < k := Nat.pos_of_mul_pos_left hm
    rw [Nat.mul_div_cancel_left k hn, meets_of_refines hn]
    have hdiv : r / k = x ↔ x * k ≤ r ∧ r < (x + 1) * k := by
      rw [Nat.div_eq_iff hk, add_mul, one_mul]
      omega
    rw [← hdiv]
    omega

/-! ### The pipeline ranks -/

/-- Two stages of two layouts meet. -/
def Overlap (L L' : List ℕ) (p p' : ℕ) : Prop := start L p < stop L' p' ∧ start L' p' < stop L p

lemma overlap_comm {L L' : List ℕ} {p p' : ℕ} : Overlap L L' p p' ↔ Overlap L' L p' p := and_comm

/-- The loop collects the stages that meet the interval. -/
lemma map_fst_targetPeerPPRanks (a b : ℕ) (rest : List ℕ) : ∀ done : List ℕ,
    (targetPeerPPRanks a b done.length done.sum rest).map fst
      = (range' done.length rest.length).filter fun p =>
          a < stop (done ++ rest) p ∧ start (done ++ rest) p < b := by
  induction rest with
  | nil =>
    intro done
    rfl
  | cons n rest ih =>
    intro done
    have hstart : start (done ++ n :: rest) done.length = done.sum := by
      rw [start, take_left]
    have hstop : stop (done ++ n :: rest) done.length = done.sum + n := by
      rw [stop, hstart]
      simp
    have hih := ih (done ++ [n])
    rw [length_append, length_singleton, List.sum_append, sum_singleton,
      append_assoc, singleton_append] at hih
    rw [targetPeerPPRanks, length_cons, range'_succ, filter_cons]
    simp only [hstart, hstop]
    split_ifs with h₁ h₂ h₂
    · rw [map_cons, hih]
    · exact absurd (decide_eq_true h₁) h₂
    · exact absurd (of_decide_eq_true h₂) h₁
    · exact hih

/-- The layers in common add up to the interval. -/
lemma sum_snd_targetPeerPPRanks {a b : ℕ} (hab : a ≤ b) (rest : List ℕ) : ∀ p pre : ℕ,
    b ≤ pre + rest.sum →
      ((targetPeerPPRanks a b p pre rest).map snd).sum = b - max pre a := by
  induction rest with
  | nil =>
    intro p pre h
    rw [sum_nil, Nat.add_zero] at h
    change 0 = _
    omega
  | cons n rest ih =>
    intro p pre h
    rw [sum_cons] at h
    have hih := ih (p + 1) (pre + n) (by omega)
    rw [targetPeerPPRanks]
    split_ifs with hmeets
    · rw [map_cons, sum_cons, hih]
      omega
    · rw [hih]
      omega

/-! ### Ranks of one data-parallel group -/

/-- The cache state of a side whose heads, `H` in all, are spread over the ranks of a group. -/
structure Valid (H : ℕ) (c : CacheState) : Prop where
  heads : c.nbHeadsPerLayer = max 1 (H / c.tpSizePerDPGroup)
  tp : ∃ k, c.tpSizePerDPGroup = 2 ^ k
  cp : ∃ k, c.mContextParallelism = 2 ^ k
  stages : c.mAttentionLayerNumPerPP.length = c.mPipelineParallelism
  dp : c.mEnableAttentionDP → c.mDPrank < c.mDPsize

/-- A rank of the data-parallel group that takes part: its stage, its place in the group and its
context rank. -/
@[ext]
structure GroupRank (c : CacheState) where
  pp : ℕ
  tp : ℕ
  cp : ℕ
  pp_lt : pp < c.mPipelineParallelism
  tp_lt : tp < c.tpSizePerDPGroup
  cp_lt : cp < c.mContextParallelism

namespace GroupRank

variable {c : CacheState}

/-- Its tensor rank among all groups. -/
def tpRank (q : GroupRank c) : ℕ := q.tp + c.dpRank * c.tpSizePerDPGroup

/-- Its number. -/
def number (q : GroupRank c) : ℕ :=
  q.pp * c.mTensorParallelism * c.mContextParallelism + q.tpRank * c.mContextParallelism + q.cp

end GroupRank

section Numbers

variable {H : ℕ} {c : CacheState}

variable {C T i j p : ℕ}

/-- The group lies inside the tensor-parallel ranks. -/
lemma Valid.group_le (h : Valid H c) :
    (c.dpRank + 1) * c.tpSizePerDPGroup ≤ c.mTensorParallelism := by
  rw [CacheState.dpRank, CacheState.tpSizePerDPGroup]
  split_ifs with hdp
  · calc (c.mDPrank + 1) * (c.mTensorParallelism / c.mDPsize)
        ≤ c.mDPsize * (c.mTensorParallelism / c.mDPsize) :=
          Nat.mul_le_mul_right _ (succ_le_of_lt (h.dp hdp))
      _ ≤ c.mTensorParallelism := mul_div_le _ _
  · rw [zero_add, one_mul]

lemma Valid.tpRank_lt (h : Valid H c) (q : GroupRank c) : q.tpRank < c.mTensorParallelism := by
  have := h.group_le
  rw [add_mul, one_mul] at this
  have := q.tp_lt
  rw [GroupRank.tpRank]
  omega

lemma Valid.tp_pos (h : Valid H c) : 0 < c.tpSizePerDPGroup := by
  obtain ⟨k, hk⟩ := h.tp
  rw [hk]
  positivity

lemma Valid.cp_pos (h : Valid H c) : 0 < c.mContextParallelism := by
  obtain ⟨k, hk⟩ := h.cp
  rw [hk]
  positivity

lemma number_eq : p * T * C + j * C + i = p * (T * C) + (j * C + i) := by ring

lemma place_lt (hj : j < T) (hi : i < C) : j * C + i < T * C :=
  calc j * C + i < j * C + C := Nat.add_lt_add_left hi _
    _ = (j + 1) * C := by ring
    _ ≤ T * C := Nat.mul_le_mul_right C hj

/-- The three coordinates of a number. -/
lemma decode (hj : j < T) (hi : i < C) :
    (p * T * C + j * C + i) / (T * C) = p ∧ (p * T * C + j * C + i) % (T * C) / C = j ∧
      (p * T * C + j * C + i) % C = i := by
  have hlt := place_lt hj hi
  have hC : 0 < C := lt_of_le_of_lt (Nat.zero_le i) hi
  refine ⟨?_, ?_, ?_⟩
  · rw [number_eq, mul_comm p, mul_add_div (lt_of_le_of_lt (Nat.zero_le _) hlt),
      div_eq_of_lt hlt, Nat.add_zero]
  · rw [number_eq, mul_comm p, mul_add_mod, mod_eq_of_lt hlt, mul_comm j,
      mul_add_div hC, div_eq_of_lt hi, Nat.add_zero]
  · rw [← add_mul, mul_comm, mul_add_mod, mod_eq_of_lt hi]

lemma decode_inj {p' j' i' : ℕ} (hj : j < T) (hi : i < C) (hj' : j' < T) (hi' : i' < C)
    (h : p * T * C + j * C + i = p' * T * C + j' * C + i') : p = p' ∧ j = j' ∧ i = i' := by
  obtain ⟨h₁, h₂, h₃⟩ := decode (p := p) hj hi
  obtain ⟨h₁', h₂', h₃'⟩ := decode (p := p') hj' hi'
  rw [h] at h₁ h₂ h₃
  exact ⟨h₁.symm.trans h₁', h₂.symm.trans h₂', h₃.symm.trans h₃'⟩

section

variable (h : Valid H c) (q : GroupRank c)
include h

lemma Valid.ppRankOf : c.ppRankOf q.number = q.pp := (decode (h.tpRank_lt q) q.cp_lt).1

lemma Valid.tpRankOf : c.tpRankOf q.number = q.tpRank := (decode (h.tpRank_lt q) q.cp_lt).2.1

lemma Valid.cpRankOf : q.number % c.mContextParallelism = q.cp :=
  (decode (h.tpRank_lt q) q.cp_lt).2.2

end

/-- The place in the group. -/
lemma tpRank_mod (q : GroupRank c) : q.tpRank % c.tpSizePerDPGroup = q.tp := by
  rw [GroupRank.tpRank, add_mul_mod_self_right, mod_eq_of_lt q.tp_lt]

end Numbers

/-! ### The target ranks -/

lemma isPowerOfTwo_pow (k : ℕ) : isPowerOfTwo (2 ^ k) = true := by
  rw [isPowerOfTwo, decide_eq_true_eq]
  refine ⟨by positivity, ?_⟩
  rw [and_two_pow_sub_one_eq_mod, mod_self]

lemma dvd_or_dvd {m n : ℕ} (hm : ∃ k, m = 2 ^ k) (hn : ∃ k, n = 2 ^ k) : m ∣ n ∨ n ∣ m := by
  obtain ⟨j, rfl⟩ := hm
  obtain ⟨k, rfl⟩ := hn
  exact (le_total j k).imp (pow_dvd_pow 2) (pow_dvd_pow 2)

/-- What `targetIRanks` returns to a rank with layers: the ranks of the peer whose stages, places
and context ranks meet its own. -/
structure Targets (peer own : CacheState) (q : GroupRank own) (first : ℕ)
    (info : TargetRanksInfo) : Prop where
  pp : ∀ p, p ∈ range' first info.mDomainPPSize ↔ p < peer.mPipelineParallelism ∧
    Overlap own.mAttentionLayerNumPerPP peer.mAttentionLayerNumPerPP q.pp p
  pp_pos : 0 < info.mDomainPPSize
  tp : info.mDomainTPSize = (peerDomain own.tpSizePerDPGroup peer.tpSizePerDPGroup q.tp).2
  cp : info.mDomainCPSize = (peerDomain own.mContextParallelism peer.mContextParallelism q.cp).2
  ranks : info.mIRanks =
    (range' (peerDomain own.mContextParallelism peer.mContextParallelism q.cp).1
      info.mDomainCPSize).flatMap fun i =>
        (range' ((peerDomain own.tpSizePerDPGroup peer.tpSizePerDPGroup q.tp).1
          + peer.dpRank * peer.tpSizePerDPGroup) info.mDomainTPSize).flatMap fun j =>
            (range' first info.mDomainPPSize).map fun k =>
              k * peer.mTensorParallelism * peer.mContextParallelism
                + j * peer.mContextParallelism + i
  dup : info.mDupHeadFactor = dupHeadFactor own.nbHeadsPerLayer own.tpSizePerDPGroup
    peer.nbHeadsPerLayer peer.tpSizePerDPGroup
  peerDup : info.mPeerDupHeadFactor = dupHeadFactor peer.nbHeadsPerLayer peer.tpSizePerDPGroup
    own.nbHeadsPerLayer own.tpSizePerDPGroup

section Targets

variable {H : ℕ} {peer self : CacheState}

lemma stop_le_sum (L : List ℕ) {p : ℕ} (hp : p < L.length) : stop L p ≤ L.sum := by
  rw [stop_eq_start_succ, ← start_length]
  exact start_mono L hp

/-- A rank without layers has no targets. -/
lemma targetIRanks_of_empty (hself : Valid H self) (q : GroupRank self)
    (hne : self.mAttentionLayerNumPerPP.getD q.pp 0 = 0) :
    ∃ info, targetIRanks peer self q.number = some info ∧ info.mIRanks = [] := by
  rw [targetIRanks, targetRanksInfoForDPImpl, hself.ppRankOf, if_pos hne]
  exact ⟨_, rfl, rfl⟩

/-- The stages that meet the stage `p` of `L`, in the order of the loop. -/
lemma exists_targets {L L' : List ℕ} (hsum : L'.sum = L.sum) {p : ℕ} (hp : p < L.length)
    (hne : L.getD p 0 ≠ 0) :
    ∃ first rest, (targetPeerPPRanks (start L p) (stop L p) 0 0 L').map fst = first :: rest ∧
      (∀ p', p' ∈ range' first (rest.length + 1) ↔ p' < L'.length ∧ Overlap L L' p p') ∧
        ((targetPeerPPRanks (start L p) (stop L p) 0 0 L').map snd).sum = L.getD p 0 := by
  have hstop : stop L p ≤ L'.sum := hsum ▸ stop_le_sum L hp
  have hlt : start L p < stop L p := Nat.lt_add_of_pos_right (Nat.pos_of_ne_zero hne)
  have hfst : (targetPeerPPRanks (start L p) (stop L p) 0 0 L').map fst
      = (range L'.length).filter fun p' => start L p < stop L' p' ∧ start L' p' < stop L p := by
    have := map_fst_targetPeerPPRanks (start L p) (stop L p) L' []
    rw [length_nil, sum_nil, nil_append, ← range_eq_range'] at this
    exact this
  -- the stage that holds the first of the own layers is among the targets
  obtain ⟨p₀, ⟨hp₀, hle, hlt'⟩, -⟩ := existsUnique_stage (L := L') (l := start L p) (by omega)
  obtain ⟨first, rest, hcons⟩ : ∃ first rest,
      (targetPeerPPRanks (start L p) (stop L p) 0 0 L').map fst = first :: rest := by
    have hmem : p₀ ∈ (targetPeerPPRanks (start L p) (stop L p) 0 0 L').map fst := by
      rw [hfst, mem_filter, decide_eq_true_eq]
      exact ⟨mem_range.mpr hp₀, hlt', by omega⟩
    exact exists_cons_of_ne_nil (ne_nil_of_mem hmem)
  refine ⟨first, rest, hcons, ?_, ?_⟩
  · rw [hfst] at hcons
    exact mem_range'_filter (convex_meets L' (start L p) (stop L p)) hcons
  · rw [sum_snd_targetPeerPPRanks hlt.le L' 0 0 (by omega), Nat.zero_max, stop,
      Nat.add_sub_cancel_left]

/-- **A rank with layers** finds its targets: none of the checks fails. -/
lemma targetIRanks_spec (hpeer : Valid H peer) (hself : Valid H self)
    (hsum : peer.mAttentionLayerNumPerPP.sum = self.mAttentionLayerNumPerPP.sum)
    (q : GroupRank self) (hne : self.mAttentionLayerNumPerPP.getD q.pp 0 ≠ 0) :
    ∃ first info, targetIRanks peer self q.number = some info ∧ Targets peer self q first info := by
  obtain ⟨first, rest, hfst, hmem, hsnd⟩ := exists_targets hsum (hself.stages ▸ q.pp_lt) hne
  rw [stop, start] at hfst hsnd
  generalize htargets : targetPeerPPRanks (self.mAttentionLayerNumPerPP.take q.pp).sum
    ((self.mAttentionLayerNumPerPP.take q.pp).sum + self.mAttentionLayerNumPerPP.getD q.pp 0) 0 0
      peer.mAttentionLayerNumPerPP = targets at hfst hsnd
  have hlen : targets.length = rest.length + 1 := by
    have := congrArg length hfst
    rwa [length_map, length_cons] at this
  have htp : (isPowerOfTwo peer.tpSizePerDPGroup && isPowerOfTwo self.tpSizePerDPGroup) = true := by
    obtain ⟨j, hj⟩ := hself.tp
    obtain ⟨k, hk⟩ := hpeer.tp
    rw [hj, hk, isPowerOfTwo_pow, isPowerOfTwo_pow, Bool.and_self]
  have hcp : (isPowerOfTwo peer.mContextParallelism && isPowerOfTwo self.mContextParallelism)
      = true := by
    obtain ⟨j, hj⟩ := hself.cp
    obtain ⟨k, hk⟩ := hpeer.cp
    rw [hj, hk, isPowerOfTwo_pow, isPowerOfTwo_pow, Bool.and_self]
  have hrun : targetIRanks peer self q.number = some {
      mDomainPPSize := targets.length
      mDomainTPSize := (peerDomain self.tpSizePerDPGroup peer.tpSizePerDPGroup q.tp).2
      mDomainCPSize := (peerDomain self.mContextParallelism peer.mContextParallelism q.cp).2
      mIRanks := (range' (peerDomain self.mContextParallelism peer.mContextParallelism q.cp).1
          (peerDomain self.mContextParallelism peer.mContextParallelism q.cp).2).flatMap fun i =>
            (range' ((peerDomain self.tpSizePerDPGroup peer.tpSizePerDPGroup q.tp).1
              + peer.dpRank * peer.tpSizePerDPGroup)
                (peerDomain self.tpSizePerDPGroup peer.tpSizePerDPGroup q.tp).2).flatMap fun j =>
                  (range' first targets.length).map fun k =>
                    k * peer.mTensorParallelism * peer.mContextParallelism
                      + j * peer.mContextParallelism + i
      mDupHeadFactor := dupHeadFactor self.nbHeadsPerLayer self.tpSizePerDPGroup
        peer.nbHeadsPerLayer peer.tpSizePerDPGroup
      mPeerDupHeadFactor := dupHeadFactor peer.nbHeadsPerLayer peer.tpSizePerDPGroup
        self.nbHeadsPerLayer self.tpSizePerDPGroup
      mPeerLayerNumInDomainPP := targets.map snd } := by
    simp only [targetIRanks, targetRanksInfoForDPImpl, hself.ppRankOf, hself.tpRankOf,
      hself.cpRankOf, tpRank_mod, if_neg hne, hpeer.stages, hself.stages, htargets, hfst, hsnd, htp,
      hcp, guard, if_true, head?_cons]
    rfl
  refine ⟨first, _, hrun, fun p => ?_, ?_, rfl, rfl, rfl, rfl, rfl⟩
  · rw [hlen, hmem, hpeer.stages]
  · rw [hlen]
    exact succ_pos _

lemma lt_of_meets {m n r x : ℕ} (h : Meets m n r x) (hr : r < m) : x < n := by
  refine Nat.lt_of_mul_lt_mul_right (a := m) ?_
  calc x * m < (r + 1) * n := h.2
    _ ≤ m * n := Nat.mul_le_mul_right n hr
    _ = n * m := mul_comm m n

/-- **The targets** of a rank are the ranks whose stage, place and context rank meet its own. -/
lemma Targets.mem_ranks (hpeer : Valid H peer) (hself : Valid H self) {q : GroupRank self}
    {first : ℕ} {info : TargetRanksInfo} (h : Targets peer self q first info)
    (q' : GroupRank peer) : q'.number ∈ info.mIRanks ↔
      Overlap self.mAttentionLayerNumPerPP peer.mAttentionLayerNumPerPP q.pp q'.pp ∧
        Meets self.tpSizePerDPGroup peer.tpSizePerDPGroup q.tp q'.tp ∧
          Meets self.mContextParallelism peer.mContextParallelism q.cp q'.cp := by
  have htp : ∀ x, x ∈ range' (peerDomain self.tpSizePerDPGroup peer.tpSizePerDPGroup q.tp).1
      info.mDomainTPSize ↔ Meets self.tpSizePerDPGroup peer.tpSizePerDPGroup q.tp x := fun x => by
    rw [h.tp, mem_peerDomain hself.tp_pos hpeer.tp_pos (dvd_or_dvd hself.tp hpeer.tp)]
  have hcp : ∀ x, x ∈ range'
      (peerDomain self.mContextParallelism peer.mContextParallelism q.cp).1 info.mDomainCPSize ↔
        Meets self.mContextParallelism peer.mContextParallelism q.cp x := fun x => by
    rw [h.cp, mem_peerDomain hself.cp_pos hpeer.cp_pos (dvd_or_dvd hself.cp hpeer.cp)]
  have hshift : ∀ j, j ∈ range'
      ((peerDomain self.tpSizePerDPGroup peer.tpSizePerDPGroup q.tp).1
        + peer.dpRank * peer.tpSizePerDPGroup) info.mDomainTPSize ↔
      ∃ x, Meets self.tpSizePerDPGroup peer.tpSizePerDPGroup q.tp x ∧
        j = x + peer.dpRank * peer.tpSizePerDPGroup := by
    intro j
    simp only [← htp, mem_range'_1]
    constructor
    · rintro ⟨h₁, h₂⟩
      exact ⟨j - peer.dpRank * peer.tpSizePerDPGroup, by omega, by omega⟩
    · rintro ⟨x, hx, rfl⟩
      omega
  rw [h.ranks]
  simp only [mem_flatMap, mem_map, hshift, hcp, h.pp]
  constructor
  · rintro ⟨i, hi, j, ⟨x, hx, rfl⟩, k, ⟨-, hk⟩, hnum⟩
    have hlt := hpeer.group_le
    have hxlt := lt_of_meets hx q.tp_lt
    rw [add_mul, one_mul] at hlt
    obtain ⟨rfl, hj, rfl⟩ := decode_inj (by omega) (lt_of_meets hi q.cp_lt)
      (hpeer.tpRank_lt q') q'.cp_lt hnum
    obtain rfl : x = q'.tp := Nat.add_right_cancel hj
    exact ⟨hk, hx, hi⟩
  · rintro ⟨hk, hx, hi⟩
    exact ⟨q'.cp, hi, _, ⟨q'.tp, hx, rfl⟩, q'.pp, ⟨q'.pp_lt, hk⟩, rfl⟩

end Targets

/-! ### Head duplication -/

section Elections

variable {H m n : ℕ}

lemma even_of_pow {z : ℕ} (hH : H = 2 ^ z) {T : ℕ} (hT : ∃ k, T = 2 ^ k) : Even H T := by
  refine ⟨?_, ?_, (dvd_or_dvd ⟨z, hH⟩ hT).symm⟩
  · rw [hH]
    positivity
  · obtain ⟨k, rfl⟩ := hT
    positivity

/-- The duplication factor is the number of sources in one rota. -/
lemma dupHeadFactor_eq_rota (hn : Even H n) :
    dupHeadFactor (max 1 (H / m)) m (max 1 (H / n)) n = rota H m n := by
  have hpos : 0 < width H n * n := by
    rw [width_mul hn]
    exact lt_of_lt_of_le hn.items_pos (le_max_left _ _)
  change (if width H n * n < width H m * m then width H m * m / (width H n * n) else 1) = _
  rw [rota]
  split_ifs with hlt
  · exact (max_eq_right ((Nat.one_le_div_iff hpos).mpr hlt.le)).symm
  · refine (max_eq_left ?_).symm
    calc width H m * m / (width H n * n) ≤ width H n * n / (width H n * n) :=
          Nat.div_le_div_right (not_lt.mp hlt)
      _ = 1 := Nat.div_self hpos

/-- The receiver's choice inside its domain is the election among the senders. -/
lemma picked_iff (hm : Even H m) (hn : Even H n) (h : n ∣ m ∨ m ∣ n) {b a e : ℕ} :
    (∃ i < (peerDomain n m b).2, (peerDomain n m b).1 + i = a ∧ i % rota H m n = e % rota H m n) ↔
      Meets m n a b ∧ Elected H m n e a := by
  have hmeets : Meets m n a b ↔ ∃ i < (peerDomain n m b).2, (peerDomain n m b).1 + i = a := by
    rw [meets_comm, ← mem_peerDomain hn.shards_pos hm.shards_pos h, mem_range'_1]
    constructor
    · rintro ⟨h₁, h₂⟩
      exact ⟨a - (peerDomain n m b).1, by omega, by omega⟩
    · rintro ⟨i, hi, rfl⟩
      omega
  -- the domain starts at a whole number of rotas
  have hstart : rota H m n ∣ (peerDomain n m b).1 := by
    rw [peerDomain]
    split_ifs with hle
    · have hdvd : n ∣ m := h.elim id fun h' => (le_antisymm hle (le_of_dvd hn.shards_pos h')) ▸
        dvd_rfl
      exact Dvd.dvd.mul_left (rota_dvd hm hn hdvd) b
    · rw [rota_eq_one hm hn (not_le.mp hle).le]
      exact one_dvd _
  have hmod : ∀ i, ((peerDomain n m b).1 + i) % rota H m n = i % rota H m n := fun i => by
    rw [add_mod, mod_eq_zero_of_dvd hstart, Nat.zero_add, mod_mod]
  rw [hmeets, Elected]
  constructor
  · rintro ⟨i, hi, rfl, hpick⟩
    exact ⟨⟨i, hi, rfl⟩, by rw [hmod, hpick]⟩
  · rintro ⟨⟨i, hi, rfl⟩, helected⟩
    exact ⟨i, hi, rfl, by rw [helected, hmod]⟩

end Elections

end TrtLlm.CacheTransmission
