import TrtLlm.KvCacheV2.RadixTree
import TrtLlm.Sharing.SlotQueueCalls

/-!
How many slots the lender stages (`slots_per_fetch` and `slot_counts` of `sharing/_slots.py`), and
the blocks that a range of tokens needs (`sharing/_ranges.py`).

* `neededRanges_le`: a layer group needs at most `fetchBlocks` blocks of a range;
* `slotCounts_bytes_le` and `slotsPerFetch_le_slotCounts`: the byte budget, and one fetch at least;
* `slotQueue_serves`: **the queue over every sequence of calls, and its capacity**.
-/

namespace TrtLlm

open List Option Nat Prod UMap

open KvCacheV2 (AttnLifeCycle)

/-! ### The layout -/

/-- What `ManagerLayout` says of a layer group. -/
structure LayerGroup where
  poolGroup : ℕ
  window : Option ℕ
  sinkBlocks : ℕ
deriving DecidableEq

/-- `ManagerLayout`, as far as staging reads it: `page_bytes` has every pool group of a layer
group. -/
structure ManagerLayout where
  tokensPerBlock : ℕ
  layerGroups : List LayerGroup
  pageBytes : ℕ → ℕ
  tokensPerBlock_pos : 0 < tokensPerBlock

/-- `StagingOptions`: every field is positive. -/
structure StagingOptions where
  tokensPerFetch : ℕ
  plannedFetches : ℕ
  maxBytes : Option ℕ
  tokensPerFetch_pos : 0 < tokensPerFetch
  plannedFetches_pos : 0 < plannedFetches
  maxBytes_pos : ∀ b, maxBytes = some b → 0 < b

inductive SlotCountsError where
  | noPages
  | belowOneFetch
  | zeroDivision
deriving DecidableEq

/-- `counts[g] = counts.get(g, 0) + c` for the entries in turn. -/
def sumByPoolGroup (entries : List (ℕ × ℕ)) : UMap ℕ ℕ :=
  entries.foldl (fun counts e => counts.assign e.1 ((counts.find? e.1).getD 0 + e.2)) ∅

namespace ManagerLayout

variable (layout : ManagerLayout)

/-- The blocks of one layer group in `slots_per_fetch`. -/
def fetchBlocks (tokensPerFetch : ℕ) (lg : LayerGroup) : ℕ :=
  match lg.window with
  | none => KvCacheV2.divUp tokensPerFetch layout.tokensPerBlock
  | some window => min (KvCacheV2.divUp tokensPerFetch layout.tokensPerBlock)
      (lg.sinkBlocks + KvCacheV2.divUp window layout.tokensPerBlock)

def slotsPerFetch (tokensPerFetch : ℕ) : UMap ℕ ℕ :=
  sumByPoolGroup (layout.layerGroups.map fun lg =>
    (lg.poolGroup, layout.fetchBlocks tokensPerFetch lg))

/-- `bytes_per_fetch`. -/
def bytesPerFetch (tokensPerFetch : ℕ) : ℕ :=
  (layout.slotsPerFetch tokensPerFetch).total fun g slots => slots * layout.pageBytes g

/-- `nbytes`. -/
def stagedBytes (options : StagingOptions) : ℕ :=
  let nbytes := options.plannedFetches * layout.bytesPerFetch options.tokensPerFetch
  match options.maxBytes with
  | none => nbytes
  | some maxBytes => min nbytes maxBytes

def slotCounts (options : StagingOptions) : Except SlotCountsError (UMap ℕ ℕ) :=
  let slots := layout.slotsPerFetch options.tokensPerFetch
  let bytesPerFetch := layout.bytesPerFetch options.tokensPerFetch
  if bytesPerFetch < 1 then .error .noPages
  else if options.maxBytes.any (· < bytesPerFetch) then .error .belowOneFetch
  else if slots.keys.any fun g => layout.pageBytes g = 0 then .error .zeroDivision
  else .ok (slots.mapVal fun g count =>
    layout.stagedBytes options * (count * layout.pageBytes g) / bytesPerFetch / layout.pageBytes g)

/-- `_MAX_TOKENS`. -/
def maxTokens : ℕ := 2 ^ 31 - 1

/-- `_stale_range`, with `_manager.stale_range`; the life cycle of the group has its window and
sinks. -/
def staleRange (lg : LayerGroup) (history : ℕ) : ℕ × ℕ :=
  match lg.window with
  | none => (0, 0)
  | some _ =>
    let lifeCycle : AttnLifeCycle := ⟨lg.window, lg.sinkBlocks, .REQUIRED⟩
    let stale := lifeCycle.getStaleRange (min history (maxTokens - layout.tokensPerBlock))
      layout.tokensPerBlock
    (stale.beg, stale.fin)

/-- `_needed_ranges`. -/
def neededRanges (lg : LayerGroup) (startBlock endBlock history : ℕ) : List (ℕ × ℕ) :=
  let stale := layout.staleRange lg history
  [(startBlock, min endBlock stale.1), (max startBlock stale.2, endBlock)].filter fun r => r.1 < r.2

/-- The number of blocks in the ranges. -/
def entriesOf (runs : List (ℕ × ℕ)) : ℕ := (runs.map fun r => r.2 - r.1).sum

/-- `_required_slots_per_pool_group` for a lease of the tokens from `start` to `fin`. -/
def requiredSlots (start fin : ℕ) : UMap ℕ ℕ :=
  sumByPoolGroup (layout.layerGroups.map fun lg => (lg.poolGroup, entriesOf
    (layout.neededRanges lg (start / layout.tokensPerBlock) (fin / layout.tokensPerBlock) fin)))

end ManagerLayout

/-! ### Sums by pool group -/

/-- The sum of the entries of a group. -/
def groupSum (g : ℕ) (entries : List (ℕ × ℕ)) : ℕ :=
  ((entries.filter fun e => e.1 = g).map snd).sum

lemma find?_foldl_add (entries : List (ℕ × ℕ)) (counts : UMap ℕ ℕ) (g : ℕ) :
    (entries.foldl (fun counts e => counts.assign e.1 ((counts.find? e.1).getD 0 + e.2))
      counts).find? g
      = if g ∈ entries.map fst then some ((counts.find? g).getD 0 + groupSum g entries)
        else counts.find? g := by
  induction entries generalizing counts with
  | nil => simp
  | cons e entries ih =>
    rw [foldl_cons, ih, find?_assign, groupSum, groupSum, filter_cons, map_cons]
    by_cases hg : e.1 = g
    · subst hg
      by_cases hmem : e.1 ∈ entries.map fst
      · simp [hmem, add_assoc]
      · have hnone : entries.filter (fun e' => e'.1 = e.1) = [] := by
          refine filter_eq_nil_iff.mpr fun e' he' heq => hmem ?_
          exact List.mem_map.mpr ⟨e', he', of_decide_eq_true heq⟩
        rw [if_neg hmem, if_pos rfl, if_pos mem_cons_self]
        simp [hnone]
    · have hmem : g ∈ e.1 :: entries.map fst ↔ g ∈ entries.map fst := by
        rw [mem_cons, or_iff_right (Ne.symm hg)]
      simp only [hmem, hg, Ne.symm hg, decide_false, Bool.false_eq_true, if_false]

lemma find?_sumByPoolGroup (entries : List (ℕ × ℕ)) (g : ℕ) : (sumByPoolGroup entries).find? g
      = if g ∈ entries.map fst then some (groupSum g entries) else none := by
  rw [sumByPoolGroup, find?_foldl_add, find?_empty]
  simp

/-- Sums of smaller entries are smaller. -/
lemma groupSum_le {ι : Type} (key : ι → ℕ) {f f' : ι → ℕ} (items : List ι)
    (h : ∀ i ∈ items, f i ≤ f' i)
    (g : ℕ) : groupSum g (items.map fun i => (key i, f i))
      ≤ groupSum g (items.map fun i => (key i, f' i)) := by
  induction items with
  | nil => exact le_refl _
  | cons i items ih =>
    have hrest := ih fun j hj => h j (mem_cons_of_mem i hj)
    have hi := h i mem_cons_self
    simp only [groupSum, map_cons, filter_cons] at hrest ⊢
    split_ifs with hg
    · simp only [map_cons, sum_cons]
      omega
    · exact hrest

namespace ManagerLayout

variable {layout : ManagerLayout}

/-! ### The blocks of a range -/

lemma entriesOf_filter (runs : List (ℕ × ℕ)) :
    entriesOf (runs.filter fun r => r.1 < r.2) = entriesOf runs := by
  induction runs with
  | nil => rfl
  | cons r runs ih =>
    rw [filter_cons]
    split_ifs with hr
    · simp only [entriesOf, map_cons, sum_cons] at ih ⊢
      rw [ih]
    · have hempty : r.2 - r.1 = 0 := Nat.sub_eq_zero_of_le (by simpa using hr)
      simp only [entriesOf, map_cons, sum_cons, hempty, zero_add] at ih ⊢
      exact ih

lemma divUp_mul_self {t : ℕ} (ht : 0 < t) (n : ℕ) : KvCacheV2.divUp (n * t) t = n := by
  rw [KvCacheV2.divUp, Nat.div_eq_iff ht]
  refine ⟨by omega, ?_⟩
  have hsucc : (n + 1) * t = n * t + t := succ_mul n t
  omega

/-- The blocks from the window's first one on. -/
lemma sub_windowStart_le {t : ℕ} (ht : 0 < t) (n w : ℕ) :
    n - (n * t + 1 - w) / t ≤ KvCacheV2.divUp w t := by
  have hw : w ≤ KvCacheV2.divUp w t * t := by
    rw [KvCacheV2.divUp]
    have hlt := lt_div_mul_add ht (a := w + t - 1)
    omega
  rcases Nat.lt_or_ge n (KvCacheV2.divUp w t) with hlt | hge
  · exact (sub_le _ _).trans hlt.le
  · have hstart : n - KvCacheV2.divUp w t ≤ (n * t + 1 - w) / t := by
      rw [Nat.le_div_iff_mul_le ht, Nat.sub_mul]
      omega
    omega

/-- **A range of whole blocks needs at most `fetchBlocks` blocks of a layer group**, if its end can
be read in 32 bits. -/
lemma neededRanges_le (lg : LayerGroup) {startBlock endBlock tokensPerFetch : ℕ}
    (hlen : (endBlock - startBlock) * layout.tokensPerBlock ≤ tokensPerFetch)
    (hend : endBlock * layout.tokensPerBlock + layout.tokensPerBlock ≤ maxTokens) :
    entriesOf (layout.neededRanges lg startBlock endBlock (endBlock * layout.tokensPerBlock))
      ≤ layout.fetchBlocks tokensPerFetch lg := by
  have ht := layout.tokensPerBlock_pos
  have htarget : endBlock - startBlock ≤ KvCacheV2.divUp tokensPerFetch layout.tokensPerBlock :=
    calc endBlock - startBlock
      _ = KvCacheV2.divUp ((endBlock - startBlock) * layout.tokensPerBlock) layout.tokensPerBlock :=
          (divUp_mul_self ht _).symm
      _ ≤ KvCacheV2.divUp tokensPerFetch layout.tokensPerBlock := Nat.div_le_div_right (by omega)
  rw [neededRanges, entriesOf_filter, fetchBlocks, staleRange]
  cases hwindow : lg.window with
  | none =>
    simp only [entriesOf, map_cons, map_nil, sum_cons, sum_nil]
    omega
  | some window =>
    have hsub := sub_windowStart_le ht endBlock window
    have hcap : min (endBlock * layout.tokensPerBlock) (maxTokens - layout.tokensPerBlock)
        = endBlock * layout.tokensPerBlock := min_eq_left (by omega)
    simp only [AttnLifeCycle.getStaleRange, entriesOf, map_cons, map_nil, sum_cons, sum_nil]
    rw [hcap, divUp_mul_self ht]
    omega

/-- **What a lease needs is within one fetch.** -/
lemma requiredSlots_le {start fin tokensPerFetch : ℕ} (hstart : layout.tokensPerBlock ∣ start)
    (hfin : layout.tokensPerBlock ∣ fin) (hlen : fin - start ≤ tokensPerFetch)
    (hend : fin + layout.tokensPerBlock ≤ maxTokens) {g c : ℕ}
    (hc : (layout.requiredSlots start fin).find? g = some c) :
    ∃ p, (layout.slotsPerFetch tokensPerFetch).find? g = some p ∧ c ≤ p := by
  obtain ⟨m, rfl⟩ := hstart
  obtain ⟨n, rfl⟩ := hfin
  have ht := layout.tokensPerBlock_pos
  rw [requiredSlots, find?_sumByPoolGroup] at hc
  split_ifs at hc with hmem
  obtain rfl := some.inj hc
  refine ⟨groupSum g (layout.layerGroups.map fun lg =>
      (lg.poolGroup, layout.fetchBlocks tokensPerFetch lg)), ?_,
    groupSum_le LayerGroup.poolGroup layout.layerGroups (fun lg _ => ?_) g⟩
  · rw [slotsPerFetch, find?_sumByPoolGroup, if_pos]
    simpa using hmem
  · rw [Nat.mul_div_cancel_left _ ht, Nat.mul_div_cancel_left _ ht, mul_comm _ n]
    refine neededRanges_le lg ?_ (by rwa [mul_comm n])
    rwa [Nat.sub_mul, mul_comm n, mul_comm m]

/-! ### The byte budget -/

variable {options : StagingOptions} {counts : UMap ℕ ℕ}

variable (h : layout.slotCounts options = .ok counts)
include h

/-- What `slot_counts` returns. -/
lemma slotCounts_ok : 0 < layout.bytesPerFetch options.tokensPerFetch
    ∧ layout.bytesPerFetch options.tokensPerFetch ≤ layout.stagedBytes options
    ∧ (∀ g ∈ layout.slotsPerFetch options.tokensPerFetch, 0 < layout.pageBytes g)
    ∧ counts = (layout.slotsPerFetch options.tokensPerFetch).mapVal fun g count =>
      layout.stagedBytes options * (count * layout.pageBytes g)
        / layout.bytesPerFetch options.tokensPerFetch / layout.pageBytes g := by
  rw [slotCounts] at h
  split_ifs at h with hnone hbelow hzero
  refine ⟨by omega, ?_, fun g hg => ?_, (Except.ok.inj h).symm⟩
  · have hplanned : layout.bytesPerFetch options.tokensPerFetch
        ≤ options.plannedFetches * layout.bytesPerFetch options.tokensPerFetch :=
      Nat.le_mul_of_pos_left _ options.plannedFetches_pos
    rw [stagedBytes]
    cases hmax : options.maxBytes with
    | none => exact hplanned
    | some maxBytes =>
      rw [hmax, any_some, decide_eq_true_eq, not_lt] at hbelow
      exact le_min hplanned hbelow
  · refine Nat.pos_of_ne_zero fun hpage => hzero (List.any_eq_true.mpr ⟨g, hg, ?_⟩)
    exact decide_eq_true hpage

/-- **The slots take no more bytes than there are.** -/
lemma slotCounts_bytes_le :
    counts.total (fun g count => count * layout.pageBytes g) ≤ layout.stagedBytes options := by
  obtain ⟨hpos, -, -, rfl⟩ := slotCounts_ok h
  set slots := layout.slotsPerFetch options.tokensPerFetch
  set nbytes := layout.stagedBytes options
  set perFetch := layout.bytesPerFetch options.tokensPerFetch with hper
  refine Nat.le_of_mul_le_mul_right ?_ hpos
  have hentry : ∀ e : ℕ × ℕ, nbytes * (e.2 * layout.pageBytes e.1) / perFetch / layout.pageBytes e.1
      * layout.pageBytes e.1 * perFetch ≤ nbytes * (e.2 * layout.pageBytes e.1) := fun e =>
    calc _ ≤ nbytes * (e.2 * layout.pageBytes e.1) / perFetch * perFetch :=
          Nat.mul_le_mul_right _ (div_mul_le_self _ _)
      _ ≤ nbytes * (e.2 * layout.pageBytes e.1) := div_mul_le_self _ _
  rw [total, mapVal, List.map_map, ← sum_map_mul_right]
  calc (slots.entries.map _).sum
    _ ≤ (slots.entries.map fun e => nbytes * (e.2 * layout.pageBytes e.1)).sum :=
        sum_le_sum fun e _ => hentry e
    _ = nbytes * perFetch := by rw [sum_map_mul_left, hper, bytesPerFetch, total]

/-- **Every group has the slots of one fetch.** -/
lemma slotsPerFetch_le_slotCounts {g p : ℕ}
    (hp : (layout.slotsPerFetch options.tokensPerFetch).find? g = some p) :
    ∃ n, counts.find? g = some n ∧ p ≤ n := by
  obtain ⟨hpos, hle, hpage, rfl⟩ := slotCounts_ok h
  refine ⟨_, by rw [find?_mapVal, hp]; rfl, ?_⟩
  rw [Nat.le_div_iff_mul_le (hpage g (mem_of_find? hp)), Nat.le_div_iff_mul_le hpos, mul_comm]
  exact Nat.mul_le_mul_right _ hle

end ManagerLayout

/-! ### The queue over every sequence of calls -/

open FirstFit SlotQueue

variable {κ : Type} [DecidableEq κ]

/-- What the queue does in a state. -/
structure Serves (numSlots : UMap κ ℕ) (s : Held κ) : Prop where
  /-- The free runs are in order, apart and maximal, and a slot is in one of them if and only if no
  grant holds it. -/
  parted : ∀ g n, numSlots.find? g = some n → ∃ a, s.queue.allocators.find? g = some a
    ∧ a.numSlots = n ∧ Canonical a.free ∧ ∀ k, Has a.free k ↔ k < n ∧ s.owner g k = none
  held : ∀ g k, s.owner g k ≠ none → ∃ n, numSlots.find? g = some n ∧ k < n
  /-- A grant is for the oldest ticket and for all its groups at once, and its slots were not
  held. -/
  granted : ∀ ticket runs, (s.queue.tryGrant ticket).1 = .ok (some runs) →
    ∃ w, s.queue.waiting.find? ticket = some w ∧ (∀ t ∈ s.queue.waiting, ticket ≤ t)
      ∧ (∀ g, (runs.find? g).map snd = w.find? g)
      ∧ ∀ g k, InRuns (asGiven runs) g k → s.owner g k = none
        ∧ (SlotQueue.step s (.tryGrant ticket)).2.owner g k = some ticket
  notGranted : ∀ ticket, (∀ runs, (s.queue.tryGrant ticket).1 ≠ .ok (some runs)) →
    (SlotQueue.step s (.tryGrant ticket)).2 = s
  /-- A return succeeds if and only if every slot of its runs is held. -/
  returned : ∀ runs, (s.queue.giveBack runs).1 = .ok () ↔ Holds s runs
  notReturned : ∀ runs e, (s.queue.giveBack runs).1 = .error e →
    (SlotQueue.step s (.giveBack runs)).2 = s
  /-- When nothing is held, the oldest ticket is granted. -/
  served : (∀ g k, s.owner g k = none) → ∀ ticket ∈ s.queue.waiting,
    (∀ t ∈ s.queue.waiting, ticket ≤ t) → ∃ runs, (s.queue.tryGrant ticket).1 = .ok (some runs)

lemma SlotQueue.QueueOk.serves {numSlots : UMap κ ℕ} {s : Held κ} (h : QueueOk numSlots s) :
    Serves numSlots s where
  parted g n hn := by
    obtain ⟨a, ha, hsize⟩ := map_eq_some_iff.mp ((h.sizes g).trans hn)
    exact ⟨a, ha, hsize, h.canonical g a ha, hsize ▸ h.free_iff g a ha⟩
  held g k hk := by
    obtain ⟨a, ha, hlt⟩ := h.held g k hk
    refine ⟨a.numSlots, ?_, hlt⟩
    rw [← h.sizes g, ha]
    rfl
  granted ticket runs hruns := by
    rcases h.tryGrant_cases ticket with ⟨-, heq⟩ | ⟨w, -, -, heq⟩
      | ⟨w, starts, q', hw, hhead, -, htaken, heq⟩
    · rw [heq] at hruns
      cases hruns
    · rw [heq] at hruns
      cases hruns
    · rw [heq] at hruns
      obtain rfl := some.inj (Except.ok.inj hruns)
      refine ⟨w, hw, fun t ht => h.oldest hhead ht, fun g => ?_, fun g k hk => ⟨?_, ?_⟩⟩
      · rw [runsOf, find?_mapVal, Option.map_map]
        exact Option.map_id'
      · exact h.unheld_of_taken htaken hk
      · rw [SlotQueue.step, heq]
        exact if_pos hk
  notGranted ticket hnone := by
    rcases h.tryGrant_cases ticket with ⟨-, heq⟩ | ⟨w, -, -, heq⟩ | ⟨w, starts, q', -, -, -, -, heq⟩
    · rw [SlotQueue.step, heq]
    · rw [SlotQueue.step, heq]
    · exact absurd (by rw [heq]) (hnone (runsOf w starts))
  returned runs := by
    rcases h.giveBack_cases runs with ⟨hruns, heq⟩ | ⟨hruns, e, heq⟩
    · rw [heq]
      exact iff_of_true rfl hruns
    · rw [heq]
      exact iff_of_false (by simp) hruns
  notReturned runs e he := by
    rcases h.giveBack_cases runs with ⟨-, heq⟩ | ⟨-, e', heq⟩
    · rw [heq] at he
      cases he
    · rw [SlotQueue.step, heq]
  served hunheld ticket hmem hold := by
    obtain ⟨w, hw⟩ := mem_iff_find?.mp hmem
    have hhead : s.queue.waiting.keys.head? = some ticket := by
      cases hkeys : s.queue.waiting.keys with
      | nil =>
        have hin : ticket ∈ s.queue.waiting.keys := hmem
        rw [hkeys] at hin
        exact absurd hin not_mem_nil
      | cons t₀ keys =>
        have hfirst : s.queue.waiting.keys.head? = some t₀ := by rw [hkeys, head?_cons]
        have ht₀ : t₀ ∈ s.queue.waiting :=
          show t₀ ∈ s.queue.waiting.keys from mem_of_mem_head? hfirst
        rw [head?_cons, le_antisymm (h.oldest hfirst hmem) (hold t₀ ht₀)]
    rcases h.tryGrant_cases ticket with ⟨hnone, -⟩ | ⟨w', hw', hnot, -⟩
      | ⟨w', starts, q', -, -, -, -, heq⟩
    · rw [hw] at hnone
      cases hnone
    · obtain rfl := some.inj (hw.symm.trans hw')
      exact absurd ⟨hhead, h.fits_of_unheld hunheld hw⟩ hnot
    · exact ⟨_, by rw [heq]⟩

open ManagerLayout

/-- **Staging slots.**  After every sequence of calls the queue does what `Serves` says; and what
`slot_counts` accepts is within the budget of bytes and has, in every pool group, the slots that a
range of at most `tokens_per_fetch` tokens needs. -/
theorem slotQueue_serves (numSlots : UMap κ ℕ) (calls : List (SlotQueue.Call κ))
    (layout : ManagerLayout)
    (options : StagingOptions) :
    Serves numSlots (Machine.run SlotQueue.step (SlotQueue.init numSlots) calls).2
    ∧ ∀ counts, layout.slotCounts options = .ok counts →
      counts.total (fun g count => count * layout.pageBytes g)
        ≤ options.plannedFetches * layout.bytesPerFetch options.tokensPerFetch
      ∧ (∀ maxBytes, options.maxBytes = some maxBytes →
        counts.total (fun g count => count * layout.pageBytes g) ≤ maxBytes)
      ∧ (∀ g p, (layout.slotsPerFetch options.tokensPerFetch).find? g = some p →
        ∃ n, counts.find? g = some n ∧ p ≤ n)
      ∧ ∀ start fin, layout.tokensPerBlock ∣ start → layout.tokensPerBlock ∣ fin →
        fin - start ≤ options.tokensPerFetch → fin + layout.tokensPerBlock ≤ maxTokens →
        ∀ g c, (layout.requiredSlots start fin).find? g = some c →
          ∃ p, (layout.slotsPerFetch options.tokensPerFetch).find? g = some p ∧ c ≤ p := by
  refine ⟨(queueOk_run numSlots calls).serves, fun counts hcounts => ?_⟩
  have hbytes := slotCounts_bytes_le hcounts
  rw [stagedBytes] at hbytes
  refine ⟨?_, fun maxBytes hmax => ?_, fun g p hp => slotsPerFetch_le_slotCounts hcounts hp,
    fun start fin hstart hfin hlen hend g c hc => requiredSlots_le hstart hfin hlen hend hc⟩
  · cases hmax : options.maxBytes with
    | none =>
      rw [hmax] at hbytes
      exact hbytes
    | some maxBytes =>
      rw [hmax] at hbytes
      exact hbytes.trans (min_le_left _ _)
  · rw [hmax] at hbytes
    exact hbytes.trans (min_le_right _ _)

/-- A layer group with full attention and one with a window of two blocks and a sink. -/
def mixedLayout : ManagerLayout := ⟨4, [⟨0, none, 0⟩, ⟨0, some 8, 1⟩], fun _ => 10, Nat.succ_pos 3⟩

/-- The slots are those that `slot_counts` gives for two fetches; one fetch has ten of them, and the
next one in the queue gets the other four. -/
theorem slotQueue_serves_mixedLayout :
    ∃ options counts, mixedLayout.slotCounts options = .ok counts ∧ counts.find? 0 = some 14
      ∧ counts.total (fun g count => count * mixedLayout.pageBytes g) ≤ 140
      ∧ (∃ c p, (mixedLayout.requiredSlots 16 32).find? 0 = some c
        ∧ (mixedLayout.slotsPerFetch 16).find? 0 = some p ∧ c ≤ p)
      ∧ let s := (Machine.run SlotQueue.step (SlotQueue.init counts)
          [.enqueue ⟨[(0, 10)], by decide⟩, .enqueue ⟨[(0, 4)], by decide⟩, .tryGrant 0]).2
        s.queue.waiting.keys = [1] ∧ ∃ runs, (s.queue.tryGrant 1).1 = .ok (some runs)
          ∧ runs.find? 0 = some (10, 4) ∧ ∀ k, InRuns (asGiven runs) 0 k →
            s.owner 0 k = none ∧ (SlotQueue.step s (.tryGrant 1)).2.owner 0 k = some 1 := by
  have hcounts : mixedLayout.slotCounts ⟨16, 2, none, by decide, by decide, fun b hb => by cases hb⟩
      = .ok ⟨[(0, 14)], by decide⟩ := rfl
  obtain ⟨hqueue, hstaged⟩ := slotQueue_serves (⟨[(0, 14)], by decide⟩ : UMap ℕ ℕ)
    [.enqueue ⟨[(0, 10)], by decide⟩, .enqueue ⟨[(0, 4)], by decide⟩, .tryGrant 0] mixedLayout
    ⟨16, 2, none, by decide, by decide, fun b hb => by cases hb⟩
  obtain ⟨hbytes, -, -, hneeded⟩ := hstaged _ hcounts
  obtain ⟨p, hp, hle⟩ := hneeded 16 32 (by decide) (by decide) (by decide) (by decide) 0 _ rfl
  obtain ⟨-, -, -, -, hfree⟩ := hqueue.granted 1 ⟨[(0, (10, 4))], by decide⟩ rfl
  exact ⟨_, _, hcounts, rfl, hbytes, ⟨_, p, rfl, hp, hle⟩, rfl, _, rfl, rfl, hfree 0⟩

/-- A window of one block, for tokens near the end of what 32 bits can count. -/
def shortLayout : ManagerLayout := ⟨3, [⟨0, some 3, 0⟩], fun _ => 1, by decide⟩

/-- A part of a grant can be given back, since the queue does not record its grants; and a range
that ends in the last block before `_MAX_TOKENS` needs more blocks than one fetch has. -/
theorem slotQueue_partReturned :
    ¬ (∀ (numSlots : UMap ℕ ℕ) (calls : List (SlotQueue.Call ℕ)) (runs : UMap ℕ (ℤ × ℤ)),
      ((Machine.run SlotQueue.step (SlotQueue.init numSlots) calls).2.queue.giveBack runs).1
        = .ok () →
        ∃ granted, Answer.tried (.ok (some granted))
          ∈ (Machine.run SlotQueue.step (SlotQueue.init numSlots) calls).1 ∧ asGiven granted = runs)
    ∧ ¬ (∀ (layout : ManagerLayout) (options : StagingOptions) (counts : UMap ℕ ℕ) (start fin : ℕ),
      layout.slotCounts options = .ok counts → layout.tokensPerBlock ∣ start →
      layout.tokensPerBlock ∣ fin → fin - start ≤ options.tokensPerFetch →
      ∀ g c, (layout.requiredSlots start fin).find? g = some c →
        ∃ p, (layout.slotsPerFetch options.tokensPerFetch).find? g = some p ∧ c ≤ p) := by
  constructor
  · intro h
    obtain ⟨granted, hmem, heq⟩ := h ⟨[(0, 4)], by decide⟩
      [.enqueue ⟨[(0, 2)], by decide⟩, .tryGrant 0] ⟨[(0, (0, 1))], by decide⟩ rfl
    have hanswers : (Machine.run SlotQueue.step (SlotQueue.init (⟨[(0, 4)], by decide⟩ : UMap ℕ ℕ))
        [.enqueue ⟨[(0, 2)], by decide⟩, .tryGrant 0]).1
          = [.enqueued (.ok 0), .tried (.ok (some ⟨[(0, (0, 2))], by decide⟩))] := rfl
    rw [hanswers] at hmem
    simp only [mem_cons, reduceCtorEq, Answer.tried.injEq, Except.ok.injEq, some.injEq,
      not_mem_nil, or_false, false_or] at hmem
    rw [hmem] at heq
    exact absurd (congrArg UMap.entries heq) (by decide)
  · intro h
    obtain ⟨p, hp, hle⟩ :=
      h shortLayout ⟨6, 1, none, by decide, by decide, fun b hb => by cases hb⟩ _
      2147483640 2147483646 rfl (by decide) (by decide) (by decide) 0 2 (by decide)
    have hone : (shortLayout.slotsPerFetch 6).find? 0 = some 1 := by decide
    rw [hone] at hp
    rw [← some.inj hp] at hle
    exact absurd hle (by decide)

end TrtLlm
