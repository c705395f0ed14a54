import TrtLlm.Moe.PlacementSpec
import TrtLlm.Util.FairSplit

/-!
The replication of experts is optimal: the largest load of a slot is as small as it can be.

The queue has the slot size of every expert, so that each slot goes to an expert whose slots are the
largest (`replicateLoop_settled`).  With no slot to spare there is nothing to choose, and without
any load all slots are the same.

* `doReplication_optimal`: **every expert gets a slot, all active slots are given away, and no other
  such replication has a smaller largest load**.
-/

namespace TrtLlm.Moe

open List Function

variable {R : ℕ} {m : MetaInfo R}

/-- The queue of the slot sizes. -/
def slotSizes (expertLoadFactor : Fin m.expertCount → ℚ) (replicaCount : Fin m.expertCount → ℕ) :
    List (ℚ × Fin m.expertCount) :=
  (finRange m.expertCount).map fun i => (expertLoadFactor i / replicaCount i, i)

variable {expertLoadFactor : Fin m.expertCount → ℚ} {replicaCount : Fin m.expertCount → ℕ}

lemma mem_slotSizes {entry : ℚ × Fin m.expertCount} :
    entry ∈ slotSizes expertLoadFactor replicaCount
    ↔ entry.1 = expertLoadFactor entry.2 / replicaCount entry.2 := by
  rw [slotSizes, mem_map]
  constructor
  · rintro ⟨i, -, rfl⟩
    rfl
  · intro h
    exact ⟨entry.2, mem_finRange _, Prod.ext h.symm rfl⟩

/-- The entry of an expert is replaced. -/
lemma slotSizes_update (top : ℚ × Fin m.expertCount)
    (htop : top ∈ slotSizes expertLoadFactor replicaCount)
    (count : ℕ) :
    ((expertLoadFactor top.2 / count, top.2) :: (slotSizes expertLoadFactor replicaCount).erase
      top).Perm
      (slotSizes expertLoadFactor (update replicaCount top.2 count)) := by
  have hnodup : ∀ count : Fin m.expertCount → ℕ, (slotSizes expertLoadFactor count).Nodup :=
    fun count =>
    (nodup_finRange _).map fun i j h => (Prod.ext_iff.mp h).2
  have hcons : ((expertLoadFactor top.2 / count, top.2)
      :: (slotSizes expertLoadFactor replicaCount).erase top).Nodup := by
    refine nodup_cons.mpr ⟨fun hmem => ?_, (hnodup _).erase top⟩
    obtain ⟨hne, hin⟩ := (hnodup replicaCount).mem_erase_iff.mp hmem
    refine hne (Prod.ext ?_ rfl)
    rw [mem_slotSizes] at hin htop
    exact hin.trans htop.symm
  refine (perm_ext_iff_of_nodup hcons (hnodup _)).mpr fun entry => ?_
  rw [mem_cons, (hnodup replicaCount).mem_erase_iff, mem_slotSizes, mem_slotSizes]
  rw [mem_slotSizes] at htop
  by_cases heq : entry.2 = top.2
  · rw [heq, update_self]
    constructor
    · rintro (rfl | ⟨hne, hentry⟩)
      · rfl
      · exact absurd (Prod.ext (hentry.trans htop.symm) heq) hne
    · intro hentry
      exact .inl (Prod.ext hentry heq)
  · rw [update_of_ne heq]
    constructor
    · rintro (rfl | ⟨-, hentry⟩)
      · exact absurd rfl heq
      · exact hentry
    · intro hentry
      exact .inr ⟨fun h => heq (congrArg Prod.snd h), hentry⟩

/-- **The loop keeps a settled replication.** -/
lemma replicateLoop_settled (hload : ∀ e, 0 ≤ expertLoadFactor e) (left : ℕ)
    {pq : List (ℚ × Fin m.expertCount)} (hpq : pq.Perm (slotSizes expertLoadFactor replicaCount))
    (hpos : ∀ e, 0 < replicaCount e) (hsettled : Settled expertLoadFactor replicaCount)
    {count : Fin m.expertCount → ℕ}
    (hcount : replicateLoop expertLoadFactor left pq replicaCount = .ok count) :
    Settled expertLoadFactor count := by
  induction left generalizing pq replicaCount with
  | zero =>
    obtain rfl := Except.ok.inj hcount
    exact hsettled
  | succ left ih =>
    rw [replicateLoop] at hcount
    cases harg : pq.argmax toLex with
    | none =>
      rw [harg] at hcount
      cases hcount
    | some top =>
      rw [harg] at hcount
      have htop : top ∈ slotSizes expertLoadFactor replicaCount := hpq.mem_iff.mp (argmax_mem harg)
      have hmax : ∀ e, expertLoadFactor e / replicaCount e
          ≤ expertLoadFactor top.2 / replicaCount top.2 := by
        intro e
        have hmem : (expertLoadFactor e / replicaCount e, e) ∈ pq :=
          hpq.mem_iff.mpr (mem_slotSizes.mpr rfl)
        rw [← mem_slotSizes.mp htop]
        exact Prod.Lex.monotone_fst_ofLex (le_of_mem_argmax hmem harg)
      refine ih ((hpq.erase top).cons _ |>.trans (slotSizes_update top htop _)) (fun e => ?_)
        (hsettled.update hload hpos hmax) hcount
      rw [update_apply]
      split_ifs
      · exact Nat.succ_pos _
      · exact hpos e

/-- **Replication is optimal**, for any number of experts, loads and dead ranks that leave enough
slots; there is an expert if there is a slot, as the initial assignment of the slots shows. -/
theorem doReplication_optimal (m : MetaInfo R) (expertLoadFactor : Fin m.expertCount → ℚ)
    (deadRankMask : Fin R → Bool) (hload : ∀ e, 0 ≤ expertLoadFactor e)
    (hslots : m.expertCount ≤ getActiveSlotCount m deadRankMask)
    (hzero : m.expertCount = 0 → getActiveSlotCount m deadRankMask = 0) :
    ∃ count, doReplication m expertLoadFactor deadRankMask = .ok count
      ∧ (∀ e, 1 ≤ count e) ∧ ∑ e, count e = getActiveSlotCount m deadRankMask
      ∧ ∀ count' : Fin m.expertCount → ℕ, (∀ e, 1 ≤ count' e) →
        ∑ e, count' e = getActiveSlotCount m deadRankMask →
        largestPart expertLoadFactor count ≤ largestPart expertLoadFactor count' := by
  obtain ⟨count, hcount, hpos, hsum⟩ := doReplication_spec expertLoadFactor hslots hzero
  have hsettled : Settled expertLoadFactor count := by
    rw [doReplication] at hcount
    split_ifs at hcount with hfew hexact hnone
    · obtain rfl := Except.ok.inj hcount
      exact settled_one _
    · refine settled_zero (fun e => ?_) count
      rw [← Fin.sum_univ_def, Finset.sum_eq_zero_iff_of_nonneg fun e _ => hload e] at hnone
      exact hnone e (Finset.mem_univ e)
    · refine replicateLoop_settled hload _ (Perm.of_eq ?_) (fun _ => Nat.one_pos)
        (settled_one _) hcount
      rw [slotSizes]
      simp
  refine ⟨count, hcount, hpos, hsum, fun count' hpos' hsum' => ?_⟩
  exact hsettled.optimal hload hpos' (hsum'.trans hsum.symm)

local instance (priority := 2000) threeExperts_ne : NeZero 3 := ⟨Nat.succ_ne_zero 2⟩

/-- Three ranks with two slots each, and three experts. -/
def sampleMeta : MetaInfo 3 := ⟨3, 2, 0⟩

/-- With the last rank dead, there is one slot more than experts. -/
theorem doReplication_optimal_sample :
    ∃ count : Fin 3 → ℕ, doReplication sampleMeta (fun e => (e : ℕ)) (fun rank => rank = 2)
      = .ok count
      ∧ ∑ e, count e = 4
      ∧ ∀ count' : Fin 3 → ℕ, (∀ e, 1 ≤ count' e) → ∑ e, count' e = 4 →
        largestPart (fun e : Fin 3 => ((e : ℕ) : ℚ)) count
          ≤ largestPart (fun e : Fin 3 => ((e : ℕ) : ℚ)) count' := by
  obtain ⟨count, hcount, -, hsum, hopt⟩ := doReplication_optimal sampleMeta (fun e => (e : ℕ))
    (fun rank => rank = 2) (fun e => Nat.cast_nonneg _) (by decide) nofun
  exact ⟨count, hcount, hsum, hopt⟩

end TrtLlm.Moe
