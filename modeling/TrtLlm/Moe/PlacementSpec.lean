import TrtLlm.Moe.Placement
import TrtLlm.Util.Bins

/-!
What the placement of experts achieves.

* `doReplication_spec`: every expert gets a slot, and all active slots are given away;
* `doPlacement_spec`: every slot of a live rank gets an expert, each as often as planned, and no
  slot of a dead rank does (`Placed`);
* `prepareGpuPlacementInfo_spec`: the tables describe the placement (`Describes`).

No check fails on the way.
-/

namespace TrtLlm.Moe

open List Function Finset Prod

variable {R : ℕ} {m : MetaInfo R}

/-! ### Replication -/

variable {currentRankSlots : Fin R → ℕ} {deadRankMask : Fin R → Bool}
  {placed : List (Fin m.expertCount)} {pq : List (ℚ × Fin R)} {rankExpertIds : RankExpertIds m}
  {replicaCount : Fin m.expertCount → ℕ}

/-- One more replica of an expert. -/
lemma sum_update_add_one {n : ℕ} (f : Fin n → ℕ) (k : Fin n) :
    ∑ i, update f k (f k + 1) i = ∑ i, f i + 1 := by
  rw [sum_update_of_mem (mem_univ k), ← add_sum_erase _ f (mem_univ k), sdiff_singleton_eq_erase]
  omega

lemma replicateLoop_spec (expertLoadFactor : Fin m.expertCount → ℚ) (left : ℕ)
    {pq : List (ℚ × Fin m.expertCount)} (hpq : pq ≠ []) (hpos : ∀ e, 0 < replicaCount e) :
    ∃ count, replicateLoop expertLoadFactor left pq replicaCount = .ok count
      ∧ (∀ e, 0 < count e) ∧ ∑ e, count e = ∑ e, replicaCount e + left := by
  induction left generalizing pq replicaCount with
  | zero => exact ⟨replicaCount, rfl, hpos, rfl⟩
  | succ left ih =>
    rw [replicateLoop]
    cases htop : pq.argmax toLex with
    | none => exact absurd (argmax_eq_none.mp htop) hpq
    | some top =>
      have hpos' : ∀ e,
          0 < update replicaCount top.2 (replicaCount top.2 + 1) e := by
        intro e
        rw [update_apply]
        split_ifs
        · exact Nat.succ_pos _
        · exact hpos e
      obtain ⟨count, hcount, hcpos, hsum⟩ := ih (cons_ne_nil
        (expertLoadFactor top.2 / ((replicaCount top.2 + 1 : ℕ) : ℚ), top.2) (pq.erase top))
        hpos'
      refine ⟨count, hcount, hcpos, ?_⟩
      rw [hsum, sum_update_add_one]
      omega

/-- **Replication.** -/
lemma doReplication_spec (expertLoadFactor : Fin m.expertCount → ℚ)
    (hslots : m.expertCount ≤ getActiveSlotCount m deadRankMask)
    (hzero : m.expertCount = 0 → getActiveSlotCount m deadRankMask = 0) :
    ∃ count, doReplication m expertLoadFactor deadRankMask = .ok count
      ∧ (∀ e, 0 < count e) ∧ ∑ e, count e = getActiveSlotCount m deadRankMask := by
  rw [doReplication]
  generalize getActiveSlotCount m deadRankMask = total at *
  rw [if_neg (not_lt.mpr hslots)]
  by_cases heq : total = m.expertCount
  · rw [if_pos heq]
    exact ⟨fun _ => 1, rfl, fun _ => Nat.one_pos, by simp [heq]⟩
  rw [if_neg heq]
  have hpos : 0 < m.expertCount := Nat.pos_of_ne_zero fun h => heq ((hzero h).trans h.symm)
  by_cases hsum : ((finRange m.expertCount).map expertLoadFactor).sum = 0
  · rw [if_pos hsum]
    refine ⟨_, rfl, fun e => ?_, ?_⟩
    · exact Nat.add_pos_left (Nat.div_pos hslots hpos) _
    · -- the remainder is spread over the first experts
      have hfirst : ∑ e : Fin m.expertCount, (if (e : ℕ) < total % m.expertCount then 1 else 0)
          = total % m.expertCount := by
        rw [sum_boole, Nat.cast_id, Fin.card_filter_val_lt, min_eq_right (Nat.mod_lt total hpos).le]
      rw [sum_add_distrib, hfirst, sum_const, card_univ, Fintype.card_fin, smul_eq_mul]
      exact Nat.div_add_mod total m.expertCount
  · rw [if_neg hsum]
    have hpq : ((finRange m.expertCount).map fun i => (expertLoadFactor i, i)) ≠ [] :=
      ne_nil_of_length_pos (by simpa using hpos)
    obtain ⟨count, hcount, hcpos, hcsum⟩ := replicateLoop_spec expertLoadFactor
      (total - m.expertCount) hpq fun _ => Nat.one_pos
    refine ⟨count, hcount, hcpos, ?_⟩
    rw [hcsum, sum_const, card_univ, Fintype.card_fin, smul_eq_mul]
    omega

/-! ### Placement -/

/-- The slots that hold an expert. -/
def held (rankExpertIds : RankExpertIds m) (expertId : ℤ) :
    Finset (Fin R × Fin m.slotCountPerRank) :=
  univ.filter fun slot => rankExpertIds slot.1 slot.2 = expertId

lemma mem_held {expertId : ℤ} {slot : Fin R × Fin m.slotCountPerRank} :
    slot ∈ held rankExpertIds expertId ↔ rankExpertIds slot.1 slot.2 = expertId := by
  simp [held]

lemma setSlot_apply (rankExpertIds : RankExpertIds m) (rank rank' : Fin R)
    (slot slot' : Fin m.slotCountPerRank) (expertId : ℤ) :
    setSlot rankExpertIds rank slot expertId rank' slot'
      = if rank' = rank ∧ slot' = slot then expertId else rankExpertIds rank' slot' := by
  rw [setSlot, update_apply]
  by_cases hr : rank' = rank
  · subst hr
    rw [if_pos rfl, update_apply]
    simp
  · simp [hr]

/-- A free slot gets an expert. -/
lemma card_held_setSlot {rank : Fin R}
    {slot : Fin m.slotCountPerRank} (hfree : rankExpertIds rank slot = -1)
    (expertId e : Fin m.expertCount) :
    (held (setSlot rankExpertIds rank slot (expertId : ℕ)) (e : ℕ)).card
      = (held rankExpertIds (e : ℕ)).card + if e = expertId then 1 else 0 := by
  have hnot : (rank, slot) ∉ held rankExpertIds (e : ℕ) := by
    rw [mem_held, hfree]
    omega
  by_cases he : e = expertId
  · subst he
    rw [if_pos rfl, ← card_insert_of_notMem hnot]
    congr 1
    ext p
    rw [mem_held, setSlot_apply, mem_insert, mem_held, Prod.ext_iff]
    split_ifs with hp <;> simp [hp]
  · rw [if_neg he, add_zero]
    congr 1
    ext p
    rw [mem_held, mem_held, setSlot_apply]
    split_ifs with hp
    · rw [hp.1, hp.2, hfree]
      have hne : (expertId : ℕ) ≠ e := fun h => he (Fin.ext h.symm)
      omega
    · rfl

/-- The slots of the live ranks that are free yet. -/
def freeSlots (m : MetaInfo R) (deadRankMask : Fin R → Bool) (currentRankSlots : Fin R → ℕ) : ℕ :=
  Bins.room m.slotCountPerRank fun rank =>
    if deadRankMask rank then m.slotCountPerRank else currentRankSlots rank

lemma freeSlots_zero (deadRankMask : Fin R → Bool) :
    freeSlots m deadRankMask (fun _ => 0) = getActiveSlotCount m deadRankMask := by
  have hterm : ∀ rank, (m.slotCountPerRank - if deadRankMask rank then m.slotCountPerRank else 0)
      = if !deadRankMask rank then m.slotCountPerRank else 0 := by
    intro rank
    cases deadRankMask rank <;> simp
  rw [freeSlots, Bins.room, sum_congr rfl fun rank _ => hterm rank, ← sum_filter,
    sum_const, getActiveSlotCount, smul_eq_mul]
  congr 1
  rw [countP_eq_length_filter, ← toFinset_card_of_nodup ((nodup_finRange R).filter _)]
  congr 1
  ext rank
  simp

lemma freeSlots_update {rank : Fin R}
    (hlive : deadRankMask rank = false) (hfree : currentRankSlots rank < m.slotCountPerRank) :
    freeSlots m deadRankMask (update currentRankSlots rank (currentRankSlots rank + 1)) + 1
      = freeSlots m deadRankMask currentRankSlots := by
  set p : Bins (Fin R) Unit := ⟨fun _ => [], fun rank =>
    if deadRankMask rank then m.slotCountPerRank else currentRankSlots rank⟩ with hp
  have hput : Bins.room m.slotCountPerRank (p.put rank ()).load + 1
      = Bins.room m.slotCountPerRank p.load := Bins.room_put () (by simpa [hp, hlive] using hfree)
  rw [freeSlots, freeSlots, ← hput]
  congr 2
  funext rank'
  rw [Bins.put_load]
  by_cases hr : rank' = rank
  · subst hr
    simp [hp, hlive]
  · simp [hp, hr]

/-- The state of the loop of `doPlacement`, with the experts that have been placed and the number
of replicas that are left. -/
structure Placing (deadRankMask : Fin R → Bool) (placed : List (Fin m.expertCount)) (left : ℕ)
    (pq : List (ℚ × Fin R)) (currentRankSlots : Fin R → ℕ) (rankExpertIds : RankExpertIds m) :
    Prop where
  nodup : (pq.map snd).Nodup
  mem : ∀ rank, rank ∈ pq.map snd ↔
    deadRankMask rank = false ∧ currentRankSlots rank < m.slotCountPerRank
  dead : ∀ rank, deadRankMask rank = true → currentRankSlots rank = 0
  left : left = freeSlots m deadRankMask currentRankSlots
  free : ∀ rank slot, currentRankSlots rank ≤ slot.val → rankExpertIds rank slot = -1
  taken : ∀ rank slot, slot.val < currentRankSlots rank →
    ∃ e : Fin m.expertCount, rankExpertIds rank slot = (e : ℕ)
  held : ∀ e : Fin m.expertCount, (held rankExpertIds (e : ℕ)).card = placed.count e

/-- While a replica is left, some rank is in the queue. -/
lemma Placing.queue {left : ℕ}
    (h : Placing deadRankMask placed left pq currentRankSlots rankExpertIds) (hleft : 0 < left) :
    pq ≠ [] := by
  rw [h.left, freeSlots, Bins.room_pos_iff] at hleft
  obtain ⟨rank, hrank⟩ := hleft
  have hmem : rank ∈ pq.map snd := by
    rw [h.mem]
    cases hdead : deadRankMask rank with
    | true => simp [hdead] at hrank
    | false => exact ⟨rfl, by simpa [hdead] using hrank⟩
  rintro rfl
  simp at hmem

/-- One replica is placed. -/
lemma Placing.place {left : ℕ}
    (h : Placing deadRankMask placed (left + 1) pq currentRankSlots rankExpertIds)
    {top : ℚ × Fin R} (htop : top ∈ pq) (load : ℚ) (expertId : Fin m.expertCount)
    (hslot : currentRankSlots top.2 < m.slotCountPerRank) :
    Placing deadRankMask (placed ++ [expertId]) left
      (if currentRankSlots top.2 + 1 < m.slotCountPerRank then (load, top.2) :: pq.erase top
        else pq.erase top) (update currentRankSlots top.2 (currentRankSlots top.2 + 1))
      (setSlot rankExpertIds top.2 ⟨currentRankSlots top.2, hslot⟩ (expertId : ℕ)) := by
  have hmemTop : top.2 ∈ pq.map snd := List.mem_map_of_mem htop
  have hlive := ((h.mem top.2).mp hmemTop).1
  -- the queue without the chosen rank
  have hperm : (pq.map snd).Perm (top.2 :: (pq.erase top).map snd) := (perm_cons_erase htop).map snd
  have hrest : ((pq.erase top).map snd).Nodup ∧ top.2 ∉ (pq.erase top).map snd := by
    have hnodup := hperm.nodup_iff.mp h.nodup
    rw [nodup_cons] at hnodup
    exact ⟨hnodup.2, hnodup.1⟩
  have hmemRest : ∀ rank, rank ∈ (pq.erase top).map snd ↔
      rank ≠ top.2 ∧ rank ∈ pq.map snd := by
    intro rank
    rw [hperm.mem_iff, List.mem_cons]
    refine ⟨fun hr => ⟨fun he => hrest.2 (he ▸ hr), .inr hr⟩, fun ⟨hne, hr⟩ => ?_⟩
    exact hr.resolve_left hne
  have hfree : rankExpertIds top.2 ⟨currentRankSlots top.2, hslot⟩ = -1 := h.free _ _ le_rfl
  refine ⟨?_, fun rank => ?_, fun rank hdead => ?_, ?_, fun rank slot hs => ?_,
    fun rank slot hs => ?_, fun e => ?_⟩
  · split_ifs
    · exact nodup_cons.mpr ⟨hrest.2, hrest.1⟩
    · exact hrest.1
  · have hqueue : rank ∈ List.map snd (if currentRankSlots top.2 + 1 < m.slotCountPerRank
          then (load, top.2) :: pq.erase top else pq.erase top) ↔
        (rank = top.2 ∧ currentRankSlots top.2 + 1 < m.slotCountPerRank)
          ∨ (rank ≠ top.2 ∧ rank ∈ pq.map snd) := by
      rw [← hmemRest]
      split_ifs with hroom
      · simp [hroom]
      · simp [hroom]
    rw [hqueue, h.mem, update_apply]
    by_cases hr : rank = top.2
    · simp [hr, hlive]
    · simp [hr]
  · rw [update_of_ne (fun he => by simp [he, hlive] at hdead)]
    exact h.dead rank hdead
  · have hleft := h.left
    rw [← freeSlots_update hlive hslot] at hleft
    exact Nat.succ.inj hleft
  · rw [setSlot_apply]
    rw [update_apply] at hs
    by_cases hr : rank = top.2
    · subst hr
      rw [if_pos rfl] at hs
      rw [if_neg (by rintro ⟨-, rfl⟩; simp at hs)]
      exact h.free _ _ (by omega)
    · rw [if_neg hr] at hs
      rw [if_neg fun hand => hr hand.1]
      exact h.free rank slot hs
  · rw [setSlot_apply]
    rw [update_apply] at hs
    by_cases hp : rank = top.2 ∧ slot = ⟨currentRankSlots top.2, hslot⟩
    · rw [if_pos hp]
      exact ⟨expertId, rfl⟩
    · rw [if_neg hp]
      refine h.taken rank slot ?_
      by_cases hr : rank = top.2
      · subst hr
        rw [if_pos rfl] at hs
        have hne : slot.val ≠ currentRankSlots top.2 := fun he => hp ⟨rfl, Fin.ext he⟩
        omega
      · rwa [if_neg hr] at hs
  · rw [card_held_setSlot hfree, h.held, count_append]
    by_cases he : e = expertId
    · simp [he]
    · simp [he, Ne.symm he]

/-- Every slot of a live rank has an expert, each as often as planned, and a dead rank has none. -/
structure Placed (deadRankMask : Fin R → Bool) (replicaCount : Fin m.expertCount → ℕ)
    (rankExpertIds : RankExpertIds m) : Prop where
  live : ∀ rank slot, deadRankMask rank = false →
    ∃ e : Fin m.expertCount, rankExpertIds rank slot = (e : ℕ)
  dead : ∀ rank slot, deadRankMask rank = true → rankExpertIds rank slot = -1
  held : ∀ e : Fin m.expertCount, (held rankExpertIds (e : ℕ)).card = replicaCount e

lemma placeLoop_spec {replicas : List (ReplicaInfo m)}
    (h : Placing deadRankMask placed replicas.length pq currentRankSlots rankExpertIds) :
    ∃ ids, placeLoop replicas pq currentRankSlots rankExpertIds = .ok ids
      ∧ Placed deadRankMask (fun e => (placed ++ replicas.map snd).count e) ids := by
  induction replicas generalizing placed pq currentRankSlots rankExpertIds with
  | nil =>
    refine ⟨rankExpertIds, rfl, fun rank slot hlive => ?_, fun rank slot hdead => ?_, fun e => ?_⟩
    · refine h.taken rank slot ?_
      -- no slot of a live rank is free
      by_contra hfree
      have hroom : 0 < freeSlots m deadRankMask currentRankSlots := by
        rw [freeSlots, Bins.room_pos_iff]
        refine ⟨rank, ?_⟩
        rw [hlive, if_neg Bool.false_ne_true]
        exact lt_of_le_of_lt (not_lt.mp hfree) slot.isLt
      have hleft := h.left
      rw [length_nil] at hleft
      omega
    · exact h.free rank slot (by rw [h.dead rank hdead]; exact Nat.zero_le _)
    · rw [h.held, map_nil, append_nil]
  | cons replica replicas ih =>
    rw [placeLoop]
    cases htop : pq.argmin toLex with
    | none => exact absurd (argmin_eq_none.mp htop) (h.queue (by simp))
    | some top =>
      have hmem := argmin_mem htop
      have hslot := ((h.mem top.2).mp (List.mem_map_of_mem hmem)).2
      dsimp only
      rw [dif_pos hslot]
      obtain ⟨ids, hids, hplaced⟩ := ih (h.place hmem (top.1 + replica.1) replica.2 hslot)
      refine ⟨ids, hids, ?_⟩
      rw [append_assoc] at hplaced
      exact hplaced

section

variable (expertLoadFactor : Fin m.expertCount → ℚ)

lemma count_allReplicas (replicaCount : Fin m.expertCount → ℕ) (e : Fin m.expertCount) :
    ((allReplicas m expertLoadFactor replicaCount).map snd).count e = replicaCount e := by
  rw [allReplicas, map_flatMap, count_flatMap]
  have hterm : ∀ expertId : Fin m.expertCount, (count e ∘ fun expertId =>
      (replicate (replicaCount expertId)
        (expertLoadFactor expertId / replicaCount expertId, expertId)).map snd) expertId
      = if expertId = e then replicaCount e else 0 := by
    intro expertId
    simp only [comp_apply, map_replicate, count_replicate]
    split_ifs with h1 h2 h2
    · rw [h2]
    · simp_all
    · simp_all
    · rfl
  rw [map_congr_left fun expertId _ => hterm expertId, ← ofFn_eq_map, sum_ofFn]
  simp

lemma length_allReplicas (replicaCount : Fin m.expertCount → ℕ) :
    (allReplicas m expertLoadFactor replicaCount).length = ∑ e, replicaCount e := by
  rw [allReplicas, length_flatMap]
  simp only [length_replicate]
  rw [← ofFn_eq_map, sum_ofFn]

/-- **Placement.** -/
lemma doPlacement_spec (hpos : ∀ e, 0 < replicaCount e)
    (hsum : ∑ e, replicaCount e = getActiveSlotCount m deadRankMask)
    (hlive : ∃ rank, deadRankMask rank = false) :
    ∃ ids, doPlacement m expertLoadFactor replicaCount deadRankMask = .ok ids
      ∧ Placed deadRankMask replicaCount ids := by
  have hperm := perm_insertionSort (ReplicaInfo.le m)
    (allReplicas m expertLoadFactor replicaCount)
  have hlength : ((allReplicas m expertLoadFactor replicaCount).insertionSort
      (ReplicaInfo.le m)).length = getActiveSlotCount m deadRankMask := by
    rw [hperm.length_eq, length_allReplicas, hsum]
  have hcount : ∀ e, (([] : List (Fin m.expertCount)) ++ ((allReplicas m expertLoadFactor
      replicaCount).insertionSort (ReplicaInfo.le m)).map snd).count e = replicaCount e := by
    intro e
    rw [nil_append, (hperm.map snd).count_eq, count_allReplicas]
  rw [doPlacement, if_neg (by push Not; exact fun e => (hpos e).ne'),
    if_neg (by rw [not_not, length_allReplicas, hsum])]
  rw [if_neg]
  · by_cases hzero : m.slotCountPerRank = 0
    · -- there are no slots and so no replicas
      have hnil : (allReplicas m expertLoadFactor replicaCount).insertionSort (ReplicaInfo.le m)
          = [] := length_eq_zero_iff.mp (by rw [hlength, getActiveSlotCount, hzero, mul_zero])
      rw [hnil] at hcount ⊢
      refine ⟨_, rfl, fun _ slot => (hzero ▸ slot).elim0, fun _ slot => (hzero ▸ slot).elim0,
        fun e => ?_⟩
      rw [← hcount e, map_nil, append_nil, count_nil, card_eq_zero]
      exact eq_empty_of_forall_notMem fun slot => (hzero ▸ slot.2).elim0
    · have hstart : Placing deadRankMask [] ((allReplicas m expertLoadFactor
            replicaCount).insertionSort (ReplicaInfo.le m)).length
          (((finRange R).filter fun rank => !deadRankMask rank).map fun rank =>
            ((0 : ℚ), rank)) (fun _ => 0) (fun _ _ => -1 : RankExpertIds m) := by
        have hqueue : (((finRange R).filter fun rank => !deadRankMask rank).map fun rank =>
            ((0 : ℚ), rank)).map snd
            = (finRange R).filter fun rank => !deadRankMask rank := by
          rw [List.map_map]
          exact List.map_id _
        refine ⟨?_, fun rank => ?_, fun _ _ => rfl, ?_, fun _ _ _ => rfl, fun _ _ hs => ?_,
          fun e => ?_⟩
        · rw [hqueue]
          exact (nodup_finRange R).filter _
        · rw [hqueue]
          simp [Nat.pos_of_ne_zero hzero]
        · rw [hlength, freeSlots_zero]
        · exact absurd hs (Nat.not_lt_zero _)
        · rw [count_nil, card_eq_zero]
          refine eq_empty_of_forall_notMem fun slot hslot => ?_
          rw [mem_held] at hslot
          omega
      obtain ⟨ids, hids, hplaced⟩ := placeLoop_spec hstart
      simp only [hcount] at hplaced
      exact ⟨ids, hids, hplaced⟩
  · obtain ⟨rank, hrank⟩ := hlive
    rw [List.isEmpty_iff, map_eq_nil_iff]
    exact ne_nil_of_mem (List.mem_filter.mpr ⟨mem_finRange rank, by simp [hrank]⟩)

end

/-! ### The tables -/

/-- The slots that hold an expert, in order. -/
def slotsOf (rankExpertIds : RankExpertIds m) (expertId : ℤ) :
    List (Fin R × Fin m.slotCountPerRank) :=
  (allSlots m).filter fun slot => rankExpertIds slot.1 slot.2 = expertId

lemma mem_allSlots (slot : Fin R × Fin m.slotCountPerRank) : slot ∈ allSlots m := by
  rw [allSlots, mem_flatMap]
  exact ⟨slot.1, mem_finRange _, List.mem_map.mpr ⟨slot.2, mem_finRange _, rfl⟩⟩

lemma nodup_allSlots : (allSlots m).Nodup := by
  rw [allSlots, nodup_flatMap]
  refine ⟨fun rank _ => (nodup_finRange _).map fun _ _ h => (Prod.ext_iff.mp h).2, ?_⟩
  refine (nodup_finRange R).imp fun hne => ?_
  rw [onFun, List.disjoint_left]
  intro slot h1 h2
  obtain ⟨_, -, rfl⟩ := List.mem_map.mp h1
  obtain ⟨_, -, heq⟩ := List.mem_map.mp h2
  exact hne (Prod.ext_iff.mp heq).1.symm

lemma length_slotsOf (rankExpertIds : RankExpertIds m) (expertId : ℤ) :
    (slotsOf rankExpertIds expertId).length = (held rankExpertIds expertId).card := by
  rw [slotsOf, ← toFinset_card_of_nodup (nodup_allSlots.filter _)]
  congr 1
  ext slot
  simp [mem_held, mem_allSlots]

/-- The tables describe the placement: the counts are the numbers of slots, the offsets are the
sums of the counts before, the range of an expert lists its slots, each once, and the rest is
invalid. -/
structure Describes (info : PlacementInfo m) (rankExpertIds : RankExpertIds m) : Prop where
  count : ∀ e : Fin m.expertCount,
    info.expertReplicaCount e = (held rankExpertIds (e : ℕ)).card
  offset : info.expertReplicaStartOffset = Scatter.prefixSum info.expertReplicaCount
  slots : ∀ e, (List.range (info.expertReplicaCount e)).map
      (fun j => info.globalSlotIds (info.expertReplicaStartOffset e + j))
    = (slotsOf rankExpertIds (e : ℕ)).map globalSlotId
  rest : ∀ i, ∑ e, info.expertReplicaCount e ≤ i → info.globalSlotIds i = R * m.slotCountPerRank

variable
  (hvalid : ∀ rank slot, rankExpertIds rank slot = -1 ∨ ∃ e : Fin m.expertCount,
    rankExpertIds rank slot = (e : ℕ))
  (hcount : ∀ e : Fin m.expertCount, (held rankExpertIds (e : ℕ)).card = replicaCount e)
include hvalid hcount

lemma prepareLoop_spec {x : ℕ} {seen slots : List (Fin R × Fin m.slotCountPerRank)}
    (hsplit : allSlots m = seen ++ slots)
    {ids : Scatter (Fin m.expertCount) ℕ} {assigned : ℕ}
    (hids : ids.Inv (Scatter.prefixSum replicaCount) replicaCount x)
    (hlists : ∀ e, ids.lists e = (seen.filter fun slot =>
      rankExpertIds slot.1 slot.2 = (e : ℕ)).map globalSlotId)
    (hassigned : assigned = ∑ e, (ids.lists e).length) :
    ∃ final : Scatter (Fin m.expertCount) ℕ,
      prepareLoop rankExpertIds replicaCount (Scatter.prefixSum replicaCount) slots ids assigned
        = .ok (final, ∑ e, replicaCount e)
      ∧ final.Inv (Scatter.prefixSum replicaCount) replicaCount x
      ∧ ∀ e, final.lists e = (slotsOf rankExpertIds (e : ℕ)).map globalSlotId := by
  induction slots generalizing seen ids assigned with
  | nil =>
    rw [append_nil] at hsplit
    have hfinal : ∀ e, ids.lists e = (slotsOf rankExpertIds (e : ℕ)).map globalSlotId := fun e =>
      (hlists e).trans (by rw [slotsOf, hsplit])
    refine ⟨ids, ?_, hids, hfinal⟩
    rw [prepareLoop, hassigned]
    have hsum : ∑ e, (ids.lists e).length = ∑ e, replicaCount e := sum_congr rfl fun e _ => by
        rw [hfinal e, length_map, length_slotsOf, hcount]
    rw [hsum]
  | cons slot slots ih =>
    have hsplit' : allSlots m = (seen ++ [slot]) ++ slots := by
      rw [hsplit, append_assoc]
      rfl
    rw [prepareLoop]
    obtain hnone | ⟨e, he⟩ := hvalid slot.1 slot.2
    · rw [hnone, if_pos (by decide)]
      refine ih hsplit' hids (fun e => ?_) hassigned
      rw [hlists e, filter_append]
      simp [hnone]
    · have hroom : (ids.lists e).length < replicaCount e := by
        rw [← hcount e, ← length_slotsOf, slotsOf, hsplit', hlists e, filter_append,
          filter_append, length_append, length_append, length_map,
          List.filter_singleton, decide_eq_true he, cond_true, length_singleton]
        omega
      have hto : (rankExpertIds slot.1 slot.2).toNat = e := by rw [he, Int.toNat_natCast]
      have hfin : ∀ h, (⟨(rankExpertIds slot.1 slot.2).toNat, h⟩ : Fin m.expertCount) = e :=
        fun h => Fin.ext hto
      rw [if_neg (by rw [he]; omega), dif_pos (by rw [hto]; exact e.isLt)]
      simp only [hfin]
      rw [if_pos hroom]
      refine ih hsplit' (hids.push (Scatter.apart_prefixSum _) hroom _) (fun e' => ?_) ?_
      · simp only [Scatter.push, update_apply]
        rw [filter_append, map_append, ← hlists e']
        by_cases hee : e' = e
        · subst hee
          simp [he]
        · have hne : ¬rankExpertIds slot.1 slot.2 = (e' : ℕ) := by
            rw [he]
            exact fun h => hee (Fin.ext (by omega))
          simp [hee, hne]
      · have hlen : ∀ e', ((ids.push (Scatter.prefixSum replicaCount) e
            (globalSlotId slot)).lists e').length
            = update (fun e' => (ids.lists e').length) e ((ids.lists e).length + 1)
              e' := by
          intro e'
          simp only [Scatter.push, update_apply]
          split_ifs with hee
          · rw [length_append, length_singleton]
          · rfl
        rw [sum_congr rfl fun e' _ => hlen e',
          sum_update_add_one fun e' => (ids.lists e').length, hassigned]

/-- **The tables.** -/
lemma prepareGpuPlacementInfo_spec :
    ∃ info, prepareGpuPlacementInfo m replicaCount rankExpertIds = .ok info
      ∧ info.expertReplicaCount = replicaCount ∧ Describes info rankExpertIds := by
  obtain ⟨final, hfinal, hinv, hlists⟩ := prepareLoop_spec hvalid hcount
    (nil_append _).symm (Scatter.Inv.blank _ _ (R * m.slotCountPerRank)) (fun _ => rfl)
    (show 0 = _ by simp [Scatter.blank])
  have hlength : ∀ e, (final.lists e).length = replicaCount e := fun e => by
    rw [hlists e, length_map, length_slotsOf, hcount]
  rw [prepareGpuPlacementInfo, Scatter.runningSum_eq]
  rw [hfinal]
  refine ⟨⟨replicaCount, Scatter.prefixSum replicaCount, final.table⟩, if_pos rfl, rfl,
    fun e => (hcount e).symm, rfl, fun e => ?_, fun i hi => ?_⟩
  · rw [← hlists e]
    refine ext_getElem (by simp [hlength]) fun j h1 h2 => ?_
    rw [getElem_map, getElem_range]
    exact hinv.shown e j h2
  · refine hinv.rest i fun e j hj => ?_
    have hle := Scatter.prefixSum_add_le_sum replicaCount e
    rw [hlength] at hj
    simp only at hi
    omega

end TrtLlm.Moe
