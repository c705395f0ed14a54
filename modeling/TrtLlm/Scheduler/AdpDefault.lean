import TrtLlm.Scheduler.AdpRouter

/-!
`DefaultADPRouter.route_requests`: requests with an explicit rank first, then the others to the
ranks with the fewest tokens.

* `balanceRequestsAcrossRanks`: the heap of the ranks below the target, as the sorted list of its
  entries. An entry is dropped once its rank reaches the target, and the pop of an empty heap
  raises (`none`);
* `balance_placed`: there is an entry for every request that fits the target;
* `defaultRoute_spec`: every request is placed within the caps, and the strict ones on their rank.
-/

namespace TrtLlm.Scheduler

open List Function

variable {n : ℕ}

/-- `HeapVal`; its requests are kept aside. -/
structure HeapVal (n : ℕ) where
  numTokens : ℕ
  numRequests : ℕ
  rank : Fin (n + 1)

/-- The order of the tuples; ranks differ, so that the requests are never compared. -/
def HeapVal.le (a b : HeapVal n) : Prop :=
  a.numTokens < b.numTokens ∨ a.numTokens = b.numTokens
    ∧ (a.numRequests < b.numRequests ∨ a.numRequests = b.numRequests ∧ a.rank ≤ b.rank)

instance : DecidableRel (HeapVal.le (n := n)) := fun _ _ =>
  inferInstanceAs (Decidable (_ ∨ _ ∧ (_ ∨ _ ∧ _)))

/-- The loop over the counted requests. -/
def balanceLoop (expected : ℕ) :
    List (ℕ × RequestQueueItem n) → List (HeapVal n) →
      (Fin (n + 1) → List (RequestQueueItem n)) →
      Option (Fin (n + 1) → List (RequestQueueItem n))
  | [], _, scheduled => some scheduled
  | _ :: _, [], _ => none
  | (tokenCount, item) :: counted, val :: heap, scheduled =>
    let val' : HeapVal n := ⟨val.numTokens + tokenCount, val.numRequests + 1, val.rank⟩
    balanceLoop expected counted
      (if val'.numRequests < expected then heap.orderedInsert HeapVal.le val' else heap)
      (update scheduled val.rank (scheduled val.rank ++ [item]))

/-- `_balance_requests_across_ranks`. -/
def balanceRequestsAcrossRanks (newRequests : List (RequestQueueItem n))
    (bins : Bins (Fin (n + 1)) (RequestQueueItem n)) (tokens : Fin (n + 1) → ℕ) (expected : ℕ) :
    Option (Fin (n + 1) → List (RequestQueueItem n)) :=
  if newRequests = [] then some bins.items
  else
    let heap : List (HeapVal n) := (finRange (n + 1)).map fun r => ⟨tokens r, bins.load r, r⟩
    let heap := (heap.filter fun val => val.numRequests < expected).insertionSort HeapVal.le
    let counted := (newRequests.map fun item => (item.numInputTokens, item)).insertionSort
      fun a b => b.1 ≤ a.1
    (balanceLoop expected counted heap fun _ => []).map fun scheduled r =>
      bins.items r ++ scheduled r

/-- `route_requests` without a plan: the requests of each rank, and the target. -/
def defaultRoute (states : Fin (n + 1) → RankState) (newRequests : List (RequestQueueItem n))
    (maxNumActiveRequests : ℕ) :
    Option ((Fin (n + 1) → List (RequestQueueItem n)) × ℕ) :=
  let sorted := sortByRelax relaxValue newRequests
  let assigned := assignExplicitDpRanks maxNumActiveRequests sorted
    (Bins.ofLoads fun r => (states r).numActiveRequests)
  let expected := expectedNumActiveRequests assigned.1.load assigned.2.length 1
    maxNumActiveRequests
  (balanceRequestsAcrossRanks assigned.2 assigned.1 (fun r => (states r).numActiveTokens)
    expected).map fun newRequests => (newRequests, expected)

/-! ### The heap -/

/-- The heap has one entry for each rank below the target. -/
structure HeapFor (expected : ℕ) (load : Fin (n + 1) → ℕ) (heap : List (HeapVal n)) : Prop where
  entry : ∀ val ∈ heap, val.numRequests = load val.rank ∧ load val.rank < expected
  rank : ∀ r, load r < expected → ∃ val ∈ heap, val.rank = r
  nodup : (heap.map HeapVal.rank).Nodup

variable {expected : ℕ}

lemma HeapFor.ofLoads (expected : ℕ) (load tokens : Fin (n + 1) → ℕ) : HeapFor expected load
      ((((finRange (n + 1)).map fun r => (⟨tokens r, load r, r⟩ : HeapVal n)).filter
        fun val => val.numRequests < expected).insertionSort HeapVal.le) where
  entry val hval := by
    rw [mem_insertionSort, mem_filter, mem_map] at hval
    obtain ⟨⟨r, -, rfl⟩, hlt⟩ := hval
    exact ⟨rfl, by simpa using hlt⟩
  rank r hr := by
    refine ⟨⟨tokens r, load r, r⟩, ?_, rfl⟩
    rw [mem_insertionSort, mem_filter, mem_map]
    exact ⟨⟨r, mem_finRange r, rfl⟩, by simpa using hr⟩
  nodup := by
    refine ((perm_insertionSort _ _).map _).nodup_iff.mpr ?_
    refine (Sublist.map _ filter_sublist).nodup ?_
    rw [map_map]
    exact (nodup_finRange _).map fun a b h => h

/-- A request goes to the first entry, which is put back while its rank is below the target. -/
lemma HeapFor.push {p : Bins (Fin (n + 1)) (RequestQueueItem n)} {val : HeapVal n}
    {heap : List (HeapVal n)} (h : HeapFor expected p.load (val :: heap)) (tokens : ℕ)
    (item : RequestQueueItem n) :
    HeapFor expected (p.put val.rank item).load (if val.numRequests + 1 < expected then
        heap.orderedInsert HeapVal.le ⟨val.numTokens + tokens, val.numRequests + 1, val.rank⟩
      else heap) := by
  have hval := h.entry val mem_cons_self
  have hnodup := h.nodup
  rw [map_cons, nodup_cons] at hnodup
  have hne : ∀ v ∈ heap, v.rank ≠ val.rank := fun v hv he =>
    hnodup.1 (he ▸ mem_map_of_mem hv)
  have hload : ∀ v ∈ heap, (p.put val.rank item).load v.rank = p.load v.rank := fun v hv => by
    rw [Bins.put_load, if_neg (hne v hv)]
  have hself : (p.put val.rank item).load val.rank = val.numRequests + 1 := by
    rw [Bins.put_load, if_pos rfl, hval.1]
  have hold : ∀ v ∈ heap, v.numRequests = (p.put val.rank item).load v.rank
      ∧ (p.put val.rank item).load v.rank < expected := fun v hv => by
    rw [hload v hv]
    exact h.entry v (mem_cons_of_mem _ hv)
  have hother : ∀ r ≠ val.rank, (p.put val.rank item).load r < expected →
      ∃ v ∈ heap, v.rank = r := by
    intro r hr hlt
    rw [Bins.put_load, if_neg hr] at hlt
    obtain ⟨v, hv, rfl⟩ := h.rank r hlt
    exact ⟨v, (mem_cons.mp hv).resolve_left fun he => hr (he ▸ rfl), rfl⟩
  split_ifs with hlt
  · refine ⟨fun v hv => ?_, fun r hr => ?_, ?_⟩
    · obtain rfl | hv := (mem_orderedInsert _).mp hv
      · exact ⟨hself.symm, hself ▸ hlt⟩
      · exact hold v hv
    · by_cases he : r = val.rank
      · exact ⟨_, (mem_orderedInsert _).mpr (.inl rfl), he.symm⟩
      · obtain ⟨v, hv, hvr⟩ := hother r he hr
        exact ⟨v, (mem_orderedInsert _).mpr (.inr hv), hvr⟩
    · refine ((perm_orderedInsert _ _ _).map _).nodup_iff.mpr ?_
      rw [map_cons, nodup_cons]
      exact hnodup
  · refine ⟨hold, fun r hr => ?_, hnodup.2⟩
    refine hother r (fun he => ?_) hr
    rw [he, hself] at hr
    exact hlt hr

/-- Every request finds an entry, as long as they fit the target. -/
lemma balanceLoop_placed (start : Fin (n + 1) → ℕ)
    (base scheduled : Fin (n + 1) → List (RequestQueueItem n))
    (counted : List (ℕ × RequestQueueItem n)) {heap : List (HeapVal n)}
    {p : Bins (Fin (n + 1)) (RequestQueueItem n)} (hheap : HeapFor expected p.load heap)
    (hroom : counted.length ≤ Bins.room expected p.load)
    (hitems : ∀ r, p.items r = base r ++ scheduled r) :
    ∃ scheduled' p', balanceLoop expected counted heap scheduled = some scheduled'
      ∧ (∀ r, p'.items r = base r ++ scheduled' r)
      ∧ Placed expected start (counted.map Prod.snd) p p' [] := by
  induction counted generalizing heap p scheduled with
  | nil => exact ⟨scheduled, p, by rw [balanceLoop], hitems, .nil⟩
  | cons first counted ih =>
    obtain ⟨tokens, item⟩ := first
    rw [length_cons] at hroom
    obtain ⟨r, hr⟩ := Bins.room_pos_iff.mp (show 0 < Bins.room expected p.load by omega)
    obtain ⟨v, hv, -⟩ := hheap.rank r hr
    cases heap with
    | nil => simp at hv
    | cons val heap =>
      have hlt := (hheap.entry val mem_cons_self).2
      have hput := Bins.room_put item hlt
      obtain ⟨scheduled', p', hloop, hitems', hplaced⟩ := ih
        (update scheduled val.rank (scheduled val.rank ++ [item]))
        (hheap.push tokens item) (by omega)
        (fun r => by
          rw [Bins.put_items, update_apply]
          split_ifs with he
          · rw [hitems, he, append_assoc]
          · exact hitems r)
      exact ⟨scheduled', p', hloop, hitems', hplaced.cons_put hlt⟩

/-- **The heap places every request** that fits the target. -/
lemma balance_placed (start : Fin (n + 1) → ℕ)
    (newRequests : List (RequestQueueItem n)) (bins : Bins (Fin (n + 1)) (RequestQueueItem n))
    (tokens : Fin (n + 1) → ℕ) (hroom : newRequests.length ≤ Bins.room expected bins.load) :
    ∃ bins', balanceRequestsAcrossRanks newRequests bins tokens expected
        = some bins'.items
      ∧ Placed expected start newRequests bins bins' [] := by
  rw [balanceRequestsAcrossRanks]
  split_ifs with hnil
  · subst hnil
    exact ⟨bins, rfl, .nil⟩
  · have hperm := perm_insertionSort (fun a b : ℕ × RequestQueueItem n => b.1 ≤ a.1)
      (newRequests.map fun item => (item.numInputTokens, item))
    obtain ⟨scheduled, bins', hloop, hitems, hplaced⟩ := balanceLoop_placed start bins.items
      (fun _ => []) _ (HeapFor.ofLoads expected bins.load tokens)
      (by rw [hperm.length_eq, length_map]; exact hroom)
      (fun r => (append_nil _).symm)
    refine ⟨bins', ?_, hplaced.perm ?_⟩
    · simp only [hloop, Option.map_some]
      exact congrArg some (funext fun r => (hitems r).symm)
    · have hid : (newRequests.map fun item => (item.numInputTokens, item)).map Prod.snd
          = newRequests := by simp [comp_def]
      have hmap := hperm.map Prod.snd
      rwa [hid] at hmap

/-! ### The router -/

/-- **The default router** places every request that fits, and the strict ones on their rank. -/
theorem defaultRoute_spec (states : Fin (n + 1) → RankState) (items : List (RequestQueueItem n))
    (cap : ℕ) (hload : ∀ r, activeRequests states r ≤ cap)
    (hfits : items.length ≤ Bins.room cap (activeRequests states))
    (hstrict : ∀ r, activeRequests states r + strictCount items r ≤ cap) :
    ∃ assigned expected, defaultRoute states items cap = some (assigned, expected)
      ∧ Routed states cap items assigned expected
      ∧ ∀ item ∈ items, ∀ r, item.StrictTo r → item ∈ assigned r := by
  set start := activeRequests states with hstart
  set sorted := sortByRelax relaxValue items with hsorted
  have hperm : sorted.Perm items := sortByRelax_perm relaxValue items
  set first := assignExplicitDpRanks cap sorted (Bins.ofLoads start) with hfirst
  have hplaced : Placed cap start items (Bins.ofLoads start) first.1 first.2 :=
    (placePass_placed start sorted () (Bins.ofLoads start)).perm hperm
  have hfirst_le := hplaced.load_le hload
  set expected := expectedNumActiveRequests first.1.load first.2.length 1 cap with hexp
  have hroom : first.2.length ≤ Bins.room expected first.1.load :=
    room_expected hfirst_le (hplaced.rest_le hfits) le_rfl
  obtain ⟨bins, hbalance, hbins⟩ := balance_placed start first.2 first.1
    (fun r => (states r).numActiveTokens) hroom
  refine ⟨bins.items, expected, ?_, ?_, fun item hitem r hr => ?_⟩
  · have hroute : defaultRoute states items cap
        = (balanceRequestsAcrossRanks first.2 first.1 (fun r => (states r).numActiveTokens)
            expected).map fun newRequests => (newRequests, expected) := rfl
    rw [hroute, hbalance]
    rfl
  · exact hplaced.routed hbins (load_le_expected _ _ hfirst_le) (expected_le_cap ..)
  · refine hbins.keeps r item ?_
    refine placePass_strict (fun s item rank h => h.rank_eq) () (Bins.ofLoads start)
      (sortByRelax_sorted items) (fun r => ?_) (hperm.mem_iff.mpr hitem) hr
    rw [strictCount_perm hperm]
    exact hstrict r

end TrtLlm.Scheduler
