import TrtLlm.Moe.LoadBalancer

/-!
The placement of experts stays complete and consistent.

* `Layer.Consistent`: every slot of a live rank has an expert and every expert such a slot, the
  tables on the GPU describe the placement, and the slots of this rank have the right weights;
* `Consistent.update`, `Consistent.reconfigure`: both calls keep it, without failing a check;
* `moeLoadBalancer_consistent`: **it holds in all runs**, and a rejected reconfiguration changes
  nothing.
-/

namespace TrtLlm.Moe

open List Function

variable {R : ℕ} {m : MetaInfo R} {Name Weight : Type*}

/-! ### The weights -/

/-- The slots of this rank have the weights of their experts. -/
def WeightsOf (hostWeights : Name → Fin m.expertCount → Weight) (rankExpertIds : RankExpertIds m)
    (weightSlots : Name → Fin m.slotCountPerRank → Weight) (slot : Fin m.slotCountPerRank) : Prop :=
  ∃ e : Fin m.expertCount, rankExpertIds m.epRank slot = (e : ℕ)
    ∧ ∀ name, weightSlots name slot = hostWeights name e

lemma updateSlot_spec {hostWeights : Name → Fin m.expertCount → Weight}
    {old new : RankExpertIds m} {weightSlots : Name → Fin m.slotCountPerRank → Weight}
    {slot : Fin m.slotCountPerRank} (hold : WeightsOf hostWeights old weightSlots slot)
    (hnew : ∃ e : Fin m.expertCount, new m.epRank slot = (e : ℕ)) :
    ∃ weights, updateSlot hostWeights old new weightSlots slot = .ok weights
      ∧ WeightsOf hostWeights new weights slot
      ∧ ∀ slot' ≠ slot, ∀ name, weights name slot' = weightSlots name slot' := by
  obtain ⟨e, he, hweights⟩ := hold
  obtain ⟨e', he'⟩ := hnew
  have hlt := e.isLt
  have hlt' := e'.isLt
  rw [updateSlot]
  simp only [he, he']
  rw [if_neg (by omega), dif_pos (by omega)]
  by_cases hsame : ((e : ℕ) : ℤ) = (e' : ℕ)
  · rw [if_pos hsame]
    refine ⟨weightSlots, rfl, ⟨e, ?_, hweights⟩, fun _ _ _ => rfl⟩
    rw [he', hsame]
  · rw [if_neg hsame]
    refine ⟨_, rfl, ⟨e', he', fun name => ?_⟩, fun slot' hne name => update_of_ne hne _ _⟩
    exact update_self ..

/-- **The weights follow the placement.** -/
lemma updateWeights_spec {hostWeights : Name → Fin m.expertCount → Weight}
    {old new : RankExpertIds m} {weightSlots : Name → Fin m.slotCountPerRank → Weight}
    (hold : ∀ slot, WeightsOf hostWeights old weightSlots slot)
    (hnew : ∀ slot, ∃ e : Fin m.expertCount, new m.epRank slot = (e : ℕ)) :
    ∃ weights, updateWeights hostWeights old new weightSlots = .ok weights
      ∧ ∀ slot, WeightsOf hostWeights new weights slot := by
  have hloop : ∀ (slots : List (Fin m.slotCountPerRank)) (weightSlots), slots.Nodup →
      (∀ slot ∈ slots, WeightsOf hostWeights old weightSlots slot) →
      ∃ weights, slots.foldlM (updateSlot hostWeights old new) weightSlots = .ok weights
        ∧ (∀ slot ∈ slots, WeightsOf hostWeights new weights slot)
        ∧ ∀ slot ∉ slots, ∀ name, weights name slot = weightSlots name slot := by
    intro slots
    induction slots with
    | nil => exact fun weightSlots _ _ => ⟨weightSlots, rfl, by simp, fun _ _ _ => rfl⟩
    | cons slot slots ih =>
      intro weightSlots hnodup hslots
      rw [nodup_cons] at hnodup
      obtain ⟨weights₁, hw₁, hhere, hothers⟩ :=
        updateSlot_spec (hslots slot mem_cons_self) (hnew slot)
      have hkept : ∀ slot' ∈ slots, WeightsOf hostWeights old weights₁ slot' := by
        intro slot' hmem
        obtain ⟨e, he, hw⟩ := hslots slot' (mem_cons_of_mem _ hmem)
        have hne : slot' ≠ slot := fun h => hnodup.1 (h ▸ hmem)
        exact ⟨e, he, fun name => (hothers slot' hne name).trans (hw name)⟩
      obtain ⟨weights, hw, hall, hrest⟩ := ih weights₁ hnodup.2 hkept
      refine ⟨weights, ?_, fun slot' hmem => ?_, fun slot' hmem name => ?_⟩
      · rw [foldlM_cons, hw₁]
        exact hw
      · obtain rfl | hmem := mem_cons.mp hmem
        · obtain ⟨e, he, hweights⟩ := hhere
          exact ⟨e, he, fun name => (hrest slot' hnodup.1 name).trans (hweights name)⟩
        · exact hall slot' hmem
      · rw [mem_cons, not_or] at hmem
        exact (hrest slot' hmem.2 name).trans (hothers slot' hmem.1 name)
  obtain ⟨weights, hw, hall, -⟩ := hloop (finRange m.slotCountPerRank) weightSlots
    (nodup_finRange _) fun slot _ => hold slot
  exact ⟨weights, hw, fun slot => hall slot (mem_finRange slot)⟩

/-! ### One layer -/

/-- The layer is complete and consistent, for the ranks that are masked. -/
structure Layer.Consistent (hostWeights : Name → Fin m.expertCount → Weight)
    (deadRankMask : Fin R → Bool) (l : Layer m Name Weight) : Prop where
  live : ∀ rank slot, deadRankMask rank = false →
    ∃ e : Fin m.expertCount, l.oldRankExpertIds rank slot = (e : ℕ)
  dead : ∀ rank slot, deadRankMask rank = true → l.oldRankExpertIds rank slot = -1
  expert : ∀ e : Fin m.expertCount, ∃ rank slot, deadRankMask rank = false
    ∧ l.oldRankExpertIds rank slot = (e : ℕ)
  tables : Describes l.gpuPlacement l.oldRankExpertIds
  weights : ∀ slot, WeightsOf hostWeights l.oldRankExpertIds l.weightSlots slot

variable {hostWeights : Name → Fin m.expertCount → Weight} {deadRankMask : Fin R → Bool}
  {l : Layer m Name Weight}

namespace Layer.Consistent

section

variable (h : l.Consistent hostWeights deadRankMask)
include h

/-- A slot has an expert or is empty. -/
lemma valid (rank : Fin R) (slot : Fin m.slotCountPerRank) : l.oldRankExpertIds rank slot = -1
      ∨ ∃ e : Fin m.expertCount, l.oldRankExpertIds rank slot = (e : ℕ) := by
  cases hmask : deadRankMask rank with
  | true => exact .inl (h.dead rank slot hmask)
  | false => exact .inr (h.live rank slot hmask)

/-- The live ranks have a slot for every expert. -/
lemma expertCount_le : m.expertCount ≤ getActiveSlotCount m deadRankMask := by
  choose rank slot hlive hexpert using h.expert
  set active : Finset (Fin R × Fin m.slotCountPerRank) :=
    (Finset.univ.filter fun r => deadRankMask r = false) ×ˢ Finset.univ with hactive
  have hcard : active.card = getActiveSlotCount m deadRankMask := by
    rw [hactive, Finset.card_product, Finset.card_univ, Fintype.card_fin, getActiveSlotCount,
      countP_eq_length_filter,
      ← toFinset_card_of_nodup ((nodup_finRange R).filter _)]
    congr 2
    ext r
    simp
  calc m.expertCount = (Finset.univ : Finset (Fin m.expertCount)).card := by simp
    _ ≤ active.card := by
        refine Finset.card_le_card_of_injOn (fun e => (rank e, slot e)) (fun e _ => ?_)
          fun e _ e' _ he => ?_
        · simp [hactive, hlive e]
        · obtain ⟨h1, h2⟩ := Prod.ext_iff.mp he
          have heq := hexpert e'
          rw [← show rank e = rank e' from h1, ← show slot e = slot e' from h2, hexpert e] at heq
          exact Fin.ext (by exact_mod_cast heq)
    _ = getActiveSlotCount m deadRankMask := hcard

lemma slots_zero (hlocal : deadRankMask m.epRank = false) (hzero : m.expertCount = 0) :
    getActiveSlotCount m deadRankMask = 0 := by
  have hslots : m.slotCountPerRank = 0 := by
    by_contra hne
    obtain ⟨e, -⟩ := h.live m.epRank ⟨0, Nat.pos_of_ne_zero hne⟩ hlocal
    exact (hzero ▸ e).elim0
  rw [getActiveSlotCount, hslots, mul_zero]

end

/-- The placement that is about to be installed is complete and described by its tables, and the
weights of this rank's slots follow it. -/
lemma copyPlacementInfoToGpu {ids : RankExpertIds m} {replicaCount : Fin m.expertCount → ℕ}
    (hplaced : ∀ rank slot, deadRankMask rank = false →
      ∃ e : Fin m.expertCount, ids rank slot = (e : ℕ))
    (hdead : ∀ rank slot, deadRankMask rank = true → ids rank slot = -1)
    (hheld : ∀ e : Fin m.expertCount, (held ids (e : ℕ)).card = replicaCount e)
    (hpos : ∀ e, 0 < replicaCount e) {info : PlacementInfo m} (hinfo : Describes info ids)
    (hids : l.rankExpertIds = ids) (hstaged : l.placementInfoForGPU = info)
    (hweights : ∀ slot, WeightsOf hostWeights ids l.weightSlots slot) :
    l.copyPlacementInfoToGpu.Consistent hostWeights deadRankMask := by
  subst hids hstaged
  refine ⟨hplaced, hdead, fun e => ?_, hinfo, hweights⟩
  have hcard : 0 < (held l.rankExpertIds (e : ℕ)).card := by
    rw [hheld e]
    exact hpos e
  obtain ⟨slot, hslot⟩ := Finset.card_pos.mp hcard
  rw [mem_held] at hslot
  refine ⟨slot.1, slot.2, ?_, hslot⟩
  cases hmask : deadRankMask slot.1 with
  | false => rfl
  | true =>
    rw [hdead slot.1 slot.2 hmask] at hslot
    omega

/-- **A weight update** fails no check and keeps the layer consistent. -/
lemma update (h : l.Consistent hostWeights deadRankMask) (hlocal : deadRankMask m.epRank = false)
    (expertLoadFactor : Fin m.expertCount → ℚ) :
    ∃ l', { l with expertLoadFactor := expertLoadFactor }.updateWeightsRoutine hostWeights
        deadRankMask = .ok l' ∧ l'.Consistent hostWeights deadRankMask := by
  obtain ⟨count, hcount, hpos, hsum⟩ := doReplication_spec expertLoadFactor h.expertCount_le
    (h.slots_zero hlocal)
  obtain ⟨ids, hids, hplaced⟩ := doPlacement_spec expertLoadFactor hpos hsum ⟨m.epRank, hlocal⟩
  have hvalid : ∀ rank slot, ids rank slot = -1
      ∨ ∃ e : Fin m.expertCount, ids rank slot = (e : ℕ) := by
    intro rank slot
    cases hmask : deadRankMask rank with
    | true => exact .inl (hplaced.dead rank slot hmask)
    | false => exact .inr (hplaced.live rank slot hmask)
  obtain ⟨info, hinfo, -, hdescribes⟩ := prepareGpuPlacementInfo_spec hvalid hplaced.held
  obtain ⟨weights, hweights, hright⟩ := updateWeights_spec h.weights fun slot =>
    hplaced.live m.epRank slot hlocal
  refine ⟨{ l with
      expertLoadFactor := expertLoadFactor
      expertReplicaCount := count
      rankExpertIds := ids
      placementInfoForGPU := info
      weightSlots := weights }.copyPlacementInfoToGpu, ?_, ?_⟩
  · simp only [updateWeightsRoutine, place, hcount, hids, hinfo, Except.bind, Except.map, install,
      hweights]
  · exact copyPlacementInfoToGpu hplaced.live hplaced.dead hplaced.held hpos hdescribes rfl rfl
      hright

/-- The placement after ranks are masked. -/
def masked (deadRankMask : Fin R → Bool) (ids : RankExpertIds m) : RankExpertIds m :=
  fun rank slot => if deadRankMask rank then -1 else ids rank slot

/-- The replicas that survive are counted; if an expert has none, the mask is rejected. -/
lemma computeMaskOnlyReplicaCounts_cases (h : l.Consistent hostWeights deadRankMask)
    (candidate : Fin R → Bool) :
    computeMaskOnlyReplicaCounts l.oldRankExpertIds candidate = .error .noSurvivingReplica
    ∨ ∃ count, computeMaskOnlyReplicaCounts l.oldRankExpertIds candidate = .ok count
      ∧ (∀ e, 0 < count e)
      ∧ ∀ e : Fin m.expertCount,
        (held (masked candidate l.oldRankExpertIds) (e : ℕ)).card = count e := by
  rw [computeMaskOnlyReplicaCounts]
  rw [if_neg]
  · split_ifs with hnone
    · exact .inl rfl
    · refine .inr ⟨_, rfl, fun e => Nat.pos_of_ne_zero fun he => hnone ⟨e, he⟩, fun e => ?_⟩
      rw [countP_eq_length_filter, ← toFinset_card_of_nodup (nodup_allSlots.filter _)]
      congr 1
      ext slot
      rw [mem_held, masked]
      cases hmask : candidate slot.1 with
      | true => simp [hmask]
      | false => simp [hmask, mem_allSlots]
  · rintro ⟨slot, -, hslot⟩
    refine hslot ?_
    obtain hnone | ⟨e, he⟩ := h.valid slot.1 slot.2
    · exact .inl hnone
    · have := e.isLt
      exact .inr (by omega)

/-- **A mask-only reconfiguration** of a layer that passes validation fails no check and keeps the
layer consistent. -/
lemma reconfigure (h : l.Consistent hostWeights deadRankMask) {candidate : Fin R → Bool}
    (hlocal : candidate m.epRank = false)
    (hmore : ∀ rank, deadRankMask rank = true → candidate rank = true)
    {count : Fin m.expertCount → ℕ}
    (hcount : computeMaskOnlyReplicaCounts l.oldRankExpertIds candidate = .ok count) :
    ∃ l', l.reconfigureMaskOnly candidate = .ok l' ∧ l'.Consistent hostWeights candidate := by
  obtain hno | ⟨count', hcount', hpos, hheld⟩ := h.computeMaskOnlyReplicaCounts_cases candidate
  · simp [hno] at hcount
  obtain rfl := Except.ok.inj (hcount.symm.trans hcount')
  have hdead : ∀ rank slot, candidate rank = true →
      masked candidate l.oldRankExpertIds rank slot = -1 := fun rank slot hmask => if_pos hmask
  have hkept : ∀ rank slot, candidate rank = false →
      masked candidate l.oldRankExpertIds rank slot = l.oldRankExpertIds rank slot :=
    fun rank slot hmask => if_neg (by simp [hmask])
  have hlive : ∀ rank slot, candidate rank = false →
      ∃ e : Fin m.expertCount, masked candidate l.oldRankExpertIds rank slot = (e : ℕ) := by
    intro rank slot hmask
    rw [hkept rank slot hmask]
    refine h.live rank slot ?_
    cases hold : deadRankMask rank with
    | false => rfl
    | true => simp [hmore rank hold] at hmask
  have hvalid : ∀ rank slot, masked candidate l.oldRankExpertIds rank slot = -1
      ∨ ∃ e : Fin m.expertCount, masked candidate l.oldRankExpertIds rank slot = (e : ℕ) := by
    intro rank slot
    cases hmask : candidate rank with
    | true => exact .inl (hdead rank slot hmask)
    | false => exact .inr (hlive rank slot hmask)
  obtain ⟨info, hinfo, -, hdescribes⟩ := prepareGpuPlacementInfo_spec hvalid hheld
  refine ⟨{ l with
      expertReplicaCount := count
      rankExpertIds := masked candidate l.oldRankExpertIds
      placementInfoForGPU := info }.copyPlacementInfoToGpu, ?_, ?_⟩
  · rw [reconfigureMaskOnly, hcount]
    show (prepareGpuPlacementInfo m count (masked candidate l.oldRankExpertIds)).map _ = _
    rw [hinfo]
    rfl
  · refine copyPlacementInfoToGpu hlive hdead hheld hpos hdescribes rfl rfl fun slot => ?_
    -- the slots of this rank keep their experts
    obtain ⟨e, he, hweights⟩ := h.weights slot
    exact ⟨e, (hkept m.epRank slot hlocal).trans he, hweights⟩

/-- **The initial assignment.** -/
lemma initial {assignments : RankExpertIds m} {created : Layer m Name Weight}
    (h : created.setInitialWeightAssignments assignments = .ok l)
    (halive : ∀ rank, deadRankMask rank = false)
    (hexpert : ∀ e : Fin m.expertCount, ∃ rank slot, assignments rank slot = (e : ℕ))
    (hweights : ∀ name slot (e : Fin m.expertCount), assignments m.epRank slot = (e : ℕ) →
      created.weightSlots name slot = hostWeights name e) :
    l.Consistent hostWeights deadRankMask := by
  rw [setInitialWeightAssignments] at h
  split_ifs at h with hrange
  have hids : ∀ rank slot, ∃ e : Fin m.expertCount, assignments rank slot = (e : ℕ) := by
    intro rank slot
    have hin : 0 ≤ assignments rank slot ∧ assignments rank slot < m.expertCount := by
      by_contra hno
      exact hrange ⟨(rank, slot), mem_allSlots _, hno⟩
    exact ⟨⟨(assignments rank slot).toNat, by omega⟩, (Int.toNat_of_nonneg hin.1).symm⟩
  set count : Fin m.expertCount → ℕ := fun expertId => (allSlots m).countP fun slot =>
    assignments slot.1 slot.2 = (expertId : ℕ)
  have hheld : ∀ e : Fin m.expertCount, (held assignments (e : ℕ)).card = count e := by
    intro e
    rw [← length_slotsOf, slotsOf]
    exact countP_eq_length_filter.symm
  have hpos : ∀ e, 0 < count e := by
    intro e
    rw [← hheld e, Finset.card_pos]
    obtain ⟨rank, slot, he⟩ := hexpert e
    exact ⟨(rank, slot), mem_held.mpr he⟩
  obtain ⟨info, hinfo, -, hdescribes⟩ :=
    prepareGpuPlacementInfo_spec (fun rank slot => .inr (hids rank slot)) hheld
  dsimp only at h
  rw [hinfo] at h
  obtain rfl := Except.ok.inj h
  refine copyPlacementInfoToGpu (fun rank slot _ => hids rank slot) (fun rank _ hmask => ?_) hheld
    hpos hdescribes rfl rfl fun slot => ?_
  · simp [halive rank] at hmask
  · obtain ⟨e, he⟩ := hids m.epRank slot
    exact ⟨e, he, fun name => hweights name slot e he⟩

end Layer.Consistent

/-! ### All layers -/

variable {L : ℕ} {epRank : Fin R} {shape : Fin L → ℕ × ℕ}

/-- A loop of checks fails one of them. -/
lemma error_of_forM {ι : Type*} {f : ι → Except Check Unit} {is : List ι} {e : Check}
    (h : forM is f = .error e) : ∃ i ∈ is, f i = .error e := by
  induction is with
  | nil => cases h
  | cons i is ih =>
    rw [forM_cons] at h
    cases hi : f i with
    | error e' =>
      rw [hi] at h
      obtain rfl := Except.error.inj h
      exact ⟨i, mem_cons_self, hi⟩
    | ok v =>
      rw [hi] at h
      obtain ⟨j, hj, hfail⟩ := ih h
      exact ⟨j, mem_cons_of_mem _ hj, hfail⟩

/-- A loop of checks that passes. -/
lemma ok_of_forM {ι : Type*} {f : ι → Except Check Unit} {is : List ι} {u : PUnit}
    (h : forM is f = .ok u) : ∀ i ∈ is, f i = .ok () := by
  induction is with
  | nil => simp
  | cons i is ih =>
    rw [forM_cons] at h
    intro j hj
    cases hi : f i with
    | error e =>
      rw [hi] at h
      cases h
    | ok v =>
      rw [hi] at h
      obtain rfl | hj := mem_cons.mp hj
      · exact hi
      · exact ih h j hj

/-- The candidate mask keeps the ranks that are masked already. -/
lemma foldlM_maskRank {deadRanks : List ℤ} {mask candidate : Fin R → Bool}
    (h : deadRanks.foldlM maskRank mask = .ok candidate) (rank : Fin R)
    (hrank : mask rank = true) : candidate rank = true := by
  induction deadRanks generalizing mask with
  | nil =>
    obtain rfl := Except.ok.inj h
    exact hrank
  | cons deadRank deadRanks ih =>
    rw [foldlM_cons, maskRank] at h
    split_ifs at h with hrange
    · refine ih h ?_
      rw [update_apply]
      split_ifs
      · rfl
      · exact hrank
    · cases h

lemma error_of_foldlM_maskRank {deadRanks : List ℤ} {mask : Fin R → Bool} {e : Check}
    (h : deadRanks.foldlM maskRank mask = .error e) : e = .deadRankRange := by
  induction deadRanks generalizing mask with
  | nil => cases h
  | cons deadRank deadRanks ih =>
    rw [foldlM_cons, maskRank] at h
    split_ifs at h with hrange
    · exact ih h
    · exact (Except.error.inj h).symm

lemma candidateDeadRankMask_cases (epRank : Fin R) (mask : Fin R → Bool) (deadRanks : List ℤ) :
    (∃ e, candidateDeadRankMask epRank mask deadRanks = .error e ∧ e.rejects = true)
    ∨ ∃ candidate, candidateDeadRankMask epRank mask deadRanks = .ok candidate
      ∧ candidate epRank = false ∧ ∀ rank, mask rank = true → candidate rank = true := by
  rw [candidateDeadRankMask]
  cases hfold : deadRanks.foldlM maskRank mask with
  | error e => exact .inl ⟨e, rfl, by rw [error_of_foldlM_maskRank hfold]; rfl⟩
  | ok candidate =>
    by_cases hlocal : candidate epRank = true
    · exact .inl ⟨_, if_pos hlocal, rfl⟩
    · refine .inr ⟨candidate, if_neg hlocal, by simpa using hlocal, ?_⟩
      exact foldlM_maskRank hfold

namespace MoeLoadBalancer

/-- This rank is alive, and all layers are consistent. -/
structure Consistent (hostWeights : (i : Fin L) → Name → Fin (shape i).1 → Weight)
    (b : MoeLoadBalancer epRank shape Name Weight) : Prop where
  self : b.deadRankMask epRank = false
  layers : ∀ i, (b.layers i).Consistent (hostWeights i) b.deadRankMask

variable {hostWeights : (i : Fin L) → Name → Fin (shape i).1 → Weight}
  {b : MoeLoadBalancer epRank shape Name Weight}

lemma reconfigureLayers_spec {candidate : Fin R → Bool} {is : List (Fin L)} (his : is.Nodup)
    (hlocal : candidate epRank = false)
    (hbefore : ∀ i ∈ is, ∃ (mask : Fin R → Bool) (count : Fin (shape i).1 → ℕ),
      (b.layers i).Consistent (hostWeights i) mask
      ∧ (∀ rank, mask rank = true → candidate rank = true)
      ∧ computeMaskOnlyReplicaCounts (b.layers i).oldRankExpertIds candidate = .ok count)
    (hafter : ∀ i ∉ is, (b.layers i).Consistent (hostWeights i) candidate) :
    ∃ b', reconfigureLayers candidate is b = (b', .ok ())
      ∧ ∀ i, (b'.layers i).Consistent (hostWeights i) candidate := by
  induction is generalizing b with
  | nil => exact ⟨b, rfl, fun i => hafter i (by simp)⟩
  | cons i is ih =>
    rw [nodup_cons] at his
    obtain ⟨mask, count, hcons, hmore, hcount⟩ := hbefore i mem_cons_self
    obtain ⟨l', hl', hcons'⟩ := hcons.reconfigure hlocal hmore hcount
    rw [reconfigureLayers, hl']
    refine ih his.2 (fun j hj => ?_) fun j hj => ?_
    · have hne : j ≠ i := fun h => his.1 (h ▸ hj)
      simp only [update_of_ne hne]
      exact hbefore j (mem_cons_of_mem _ hj)
    · by_cases hne : j = i
      · subst hne
        simp only [update_self]
        exact hcons'
      · simp only [update_of_ne hne]
        exact hafter j (by simp [hne, hj])

/-- **A mask-only reconfiguration** is rejected and changes nothing, or all layers are
consistent with the new mask. -/
lemma Consistent.reconfigure (h : b.Consistent hostWeights) (deadRanks : List ℤ) :
    (∃ e, b.reconfigureMaskOnly deadRanks = (b, .error e) ∧ e.rejects = true)
    ∨ ∃ b', b.reconfigureMaskOnly deadRanks = (b', .ok ()) ∧ b'.Consistent hostWeights := by
  rw [reconfigureMaskOnly]
  obtain ⟨e, he, hrejects⟩ | ⟨candidate, hcandidate, hlocal, hmore⟩ :=
    candidateDeadRankMask_cases epRank b.deadRankMask deadRanks
  · rw [he]
    exact .inl ⟨e, rfl, hrejects⟩
  rw [hcandidate]
  dsimp only
  cases hvalidate : forM (finRange L) fun i =>
      (computeMaskOnlyReplicaCounts (b.layers i).oldRankExpertIds candidate).map fun _ => () with
  | error e =>
    refine .inl ⟨e, rfl, ?_⟩
    obtain ⟨i, -, hfail⟩ := error_of_forM hvalidate
    obtain hno | ⟨count, hcount, -⟩ := (h.layers i).computeMaskOnlyReplicaCounts_cases candidate
    · rw [hno] at hfail
      obtain rfl := Except.error.inj hfail
      rfl
    · rw [hcount] at hfail
      cases hfail
  | ok u =>
    have hcounts : ∀ i ∈ finRange L, ∃ (mask : Fin R → Bool) (count : Fin (shape i).1 → ℕ),
        (b.layers i).Consistent (hostWeights i) mask
        ∧ (∀ rank, mask rank = true → candidate rank = true)
        ∧ computeMaskOnlyReplicaCounts (b.layers i).oldRankExpertIds candidate = .ok count := by
      intro i hi
      have hok := ok_of_forM hvalidate i hi
      cases hcount : computeMaskOnlyReplicaCounts (b.layers i).oldRankExpertIds candidate with
      | error e =>
        rw [hcount] at hok
        cases hok
      | ok count => exact ⟨b.deadRankMask, count, h.layers i, hmore, rfl⟩
    obtain ⟨b', hb', hlayers⟩ := reconfigureLayers_spec (nodup_finRange L) hlocal hcounts
      fun i hi => absurd (mem_finRange i) hi
    rw [hb']
    exact .inr ⟨_, rfl, hlocal, hlayers⟩

lemma Consistent.update (h : b.Consistent hostWeights) (i : Fin L)
    (expertLoadFactor : Fin (shape i).1 → ℚ) :
    ∃ b', b.update hostWeights i expertLoadFactor = .ok b' ∧ b'.Consistent hostWeights := by
  obtain ⟨l', hl', hcons⟩ := (h.layers i).update h.self expertLoadFactor
  refine ⟨{ b with layers := Function.update b.layers i l' },
    by rw [MoeLoadBalancer.update, hl']; rfl, h.self, fun j => ?_⟩
  by_cases hj : j = i
  · subst hj
    simp only [update_self]
    exact hcons
  · simp only [update_of_ne hj]
    exact h.layers j

lemma Reachable.consistent (h : b.Reachable hostWeights) : b.Consistent hostWeights := by
  induction h with
  | initial h =>
    refine ⟨h.alive epRank, fun i => ?_⟩
    obtain ⟨assignments, created, hset, hexpert, hweights⟩ := h.assigned i
    exact Layer.Consistent.initial hset h.alive hexpert hweights
  | update i expertLoadFactor h hupdate ih =>
    obtain ⟨b₁, hb₁, hcons⟩ := ih.update i expertLoadFactor
    obtain rfl := Except.ok.inj (hb₁.symm.trans hupdate)
    exact hcons
  | reconfigure deadRanks h ih =>
    obtain ⟨e, he, -⟩ | ⟨b', hb', hcons⟩ := ih.reconfigure deadRanks
    · rw [he]
      exact ih
    · rw [hb']
      exact hcons

end MoeLoadBalancer

/-- **The placement stays complete and consistent** in all runs: no weight update fails a check,
every layer is consistent, and a mask-only reconfiguration fails no check but those that reject it
and then changes nothing. -/
theorem moeLoadBalancer_consistent {hostWeights : (i : Fin L) → Name → Fin (shape i).1 → Weight}
    {b : MoeLoadBalancer epRank shape Name Weight} (h : b.Reachable hostWeights) :
    b.Consistent hostWeights
    ∧ (∀ i expertLoadFactor, ∃ b', b.update hostWeights i expertLoadFactor = .ok b')
    ∧ ∀ deadRanks e, (b.reconfigureMaskOnly deadRanks).2 = .error e →
      e.rejects = true ∧ (b.reconfigureMaskOnly deadRanks).1 = b := by
  have hcons := h.consistent
  refine ⟨hcons, fun i expertLoadFactor => ?_, fun deadRanks e he => ?_⟩
  · obtain ⟨b', hb', -⟩ := hcons.update i expertLoadFactor
    exact ⟨b', hb'⟩
  · obtain ⟨e', he', hrejects⟩ | ⟨b', hb', -⟩ := hcons.reconfigure deadRanks
    · rw [he'] at he ⊢
      obtain rfl := Except.error.inj he
      exact ⟨hrejects, rfl⟩
    · rw [hb'] at he
      cases he

/-- Three experts on three ranks with two slots each, before their assignment. -/
def createdThree : Layer (addLayer (0 : Fin 3) (3, 2)) Unit ℕ :=
  ⟨fun _ => 0, fun _ _ => -1, fun _ _ => -1, ⟨fun _ => 0, fun _ => 0, fun _ => 0⟩,
    ⟨fun _ => 0, fun _ => 0, fun _ => 0⟩, fun _ => 0, fun _ slot => 10 + slot⟩

/-- The experts `0, 1`, `2, 0` and `1, 2` on the ranks. -/
def assignedThree : RankExpertIds (addLayer (0 : Fin 3) (3, 2)) :=
  fun rank slot => ((rank.val * 2 + slot.val) % 3 : ℕ)

def threeRanks : MoeLoadBalancer (0 : Fin 3) (fun _ : Fin 1 => (3, 2)) Unit ℕ :=
  ⟨fun _ => false, fun _ => match createdThree.setInitialWeightAssignments assignedThree with
    | .ok l => l
    | .error _ => createdThree⟩

def weightsOfThree (_ : Fin 1) (_ : Unit) (e : Fin 3) : ℕ := 10 + e

/-- Most tokens go to the last expert. -/
def loadOfThree (e : Fin 3) : ℚ := if e = 2 then 3 else 1

/-- With this load the last expert comes to the second slot of the first rank. Then the last rank
can be masked, but not the second one, which is the only one with the second expert. -/
theorem moeLoadBalancer_consistent_threeRanks :
    ∃ b, threeRanks.update weightsOfThree 0 loadOfThree = .ok b ∧ b.Consistent weightsOfThree
      ∧ (b.layers 0).weightSlots () ⟨1, Nat.one_lt_two⟩ = 12
      ∧ (b.reconfigureMaskOnly [2]).1.deadRankMask 2 = true
      ∧ (b.reconfigureMaskOnly [2]).1.Consistent weightsOfThree
      ∧ (b.reconfigureMaskOnly [1]).1 = b := by
  have hstart : threeRanks.Reachable weightsOfThree := by
    refine .initial ⟨fun _ => rfl, fun i => ⟨assignedThree, createdThree, ?_, ?_, ?_⟩⟩
    · rfl
    · decide +kernel
    · rw [Subsingleton.elim i 0]
      decide +kernel
  have heval : ((threeRanks.update weightsOfThree 0 loadOfThree).toOption.map fun b =>
      ((b.layers 0).weightSlots () ⟨1, Nat.one_lt_two⟩,
        (b.reconfigureMaskOnly [2]).1.deadRankMask 2,
        decide ((b.reconfigureMaskOnly [1]).2.toOption = none)))
      = some (12, true, true) := by decide +kernel
  obtain ⟨b, hb⟩ := (moeLoadBalancer_consistent hstart).2.1 0 loadOfThree
  have hreach := hstart.update 0 loadOfThree hb
  obtain ⟨hcons, -, hrejected⟩ := moeLoadBalancer_consistent hreach
  rw [hb] at heval
  obtain ⟨hweight, heval⟩ := Prod.mk.inj (Option.some.inj heval)
  obtain ⟨hmask, hnone⟩ := Prod.mk.inj heval
  refine ⟨b, hb, hcons, hweight, hmask, (moeLoadBalancer_consistent (hreach.reconfigure [2])).1, ?_⟩
  cases hres : (b.reconfigureMaskOnly [1]).2 with
  | error e => exact (hrejected [1] e hres).2
  | ok u =>
    rw [hres] at hnone
    cases hnone

end TrtLlm.Moe
