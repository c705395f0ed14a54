import TrtLlm.Sharing.FetchLedger

/-!
The bounds between which a request can resume, as its ledger has them.

* `LedgerOk`: the masks are the set of the delivered blocks, and the memo is what the masks give;
* `resumeBounds_spec`: **the bounds are those of the largest usable position**, after every sequence
  of operations;
* `resumeBounds_insideRun`: the lower bound of an empty interval may be inside a multimodal run.
-/

namespace TrtLlm

open List Option

/-! ### The invariant -/

/-- The masks of the layer groups are the delivered blocks, and the memo is what they give. -/
structure DeliveriesOk (setting : LedgerSetting) (kv : ℕ) (now ever : Set (ℕ × ℕ))
    (d : Deliveries) : Prop where
  kv_eq : d.kv = kv
  length : d.deliveredBlockMasks.length = setting.layout.layerGroups.length
  has : ∀ i b, ManagerLayout.Has d.deliveredBlockMasks i b ↔ (i, b) ∈ now
  ever_lt : ∀ i b, (i, b) ∈ ever → ∃ blocks,
    d.deliveredBlockMasks[i]? = some blocks ∧ b < blocks.length
  last : ∀ i blocks, d.deliveredBlockMasks[i]? = some blocks → blocks ≠ [] →
    (i, blocks.length - 1) ∈ ever
  memo : ∀ known bounds, d.resumeBoundsMemo = some (known, bounds) →
    bounds = clipToBidirectionalRuns
    setting.runs (setting.layout.maxResumePosition d.deliveredBlockMasks known)

/-- **The ledger is right**: its records are of this cache, and what it says of deliveries is
true. -/
structure LedgerOk (setting : LedgerSetting) (s : LedgerState)
    (blocks : DeliveredBlocks) : Prop where
  cache : blocks.cache = s.cache
  inside : ∀ e ∈ blocks.now, e.2 < s.cache.numBlocks
  fetch : ∀ fetch, s.ledger.latestFetch = some fetch → fetch.kv = s.cache.id
  advanced : ∀ advanced, s.ledger.keptPrefix = some advanced → advanced.1 = s.cache.id
  tainted : ∀ kv, s.ledger.mixedTailCache = some kv → kv = s.cache.id
  nothing : s.ledger.deliveries = none → blocks.now = ∅ ∧ blocks.ever = ∅
  delivered : ∀ d, s.ledger.deliveries = some d →
    DeliveriesOk setting s.cache.id blocks.now blocks.ever d

variable {setting : LedgerSetting} {kv : ℕ} {now ever : Set (ℕ × ℕ)} {d : Deliveries}

/-- Blocks are dropped from the masks. -/
lemma DeliveriesOk.forget (h : DeliveriesOk setting kv now ever d) (drop : ℕ → ℕ → Bool) :
    DeliveriesOk setting kv {e ∈ now | drop e.1 e.2 = false} ever (d.forget drop) where
  kv_eq := h.kv_eq
  length := by
    rw [← h.length]
    exact length_mapIdx
  has i b := by
    rw [Deliveries.has_forget, h.has i b]
    rfl
  ever_lt i b hmem := by
    obtain ⟨blocks, hblocks, hlt⟩ := h.ever_lt i b hmem
    refine ⟨_, by rw [Deliveries.getElem?_forget, hblocks]; rfl, ?_⟩
    dsimp only
    split_ifs with hhit
    · rwa [clearBlocks, length_mapIdx]
    · exact hlt
  last i blocks' hblocks' hne := by
    obtain ⟨blocks, hblocks, hlen⟩ := Deliveries.length_forget_mask hblocks'
    rw [hlen]
    refine h.last i blocks hblocks fun hnil => hne ?_
    rw [← length_eq_zero_iff, hlen, hnil]
    rfl
  memo known bounds hmemo := by
    obtain ⟨hold, hmasks⟩ := Deliveries.forget_memo hmemo
    rw [hmasks]
    exact h.memo known bounds hold

/-- Nothing was delivered. -/
lemma deliveriesOk_fresh (setting : LedgerSetting) (kv start : ℕ) :
    DeliveriesOk setting kv ∅ ∅ ⟨kv, start, setting.layout.layerGroups.map fun _ => [], none⟩ where
  kv_eq := rfl
  length := length_map _
  has i b := by
    refine iff_of_false ?_ (Set.notMem_empty _)
    rintro ⟨blocks, hblocks, hb⟩
    obtain ⟨_, -, rfl⟩ := List.mem_map.mp (mem_of_getElem? hblocks)
    cases hb
  ever_lt i b hmem := absurd hmem (Set.notMem_empty _)
  last i blocks hblocks hne := by
    obtain ⟨_, -, rfl⟩ := List.mem_map.mp (mem_of_getElem? hblocks)
    exact absurd rfl hne
  memo known bounds hmemo := by cases hmemo

section

variable (h : DeliveriesOk setting kv now ever d)
include h

/-- Blocks are added to the masks. -/
lemma DeliveriesOk.record (copied : List (List ℕ)) (start : ℕ) :
    let got : Set (ℕ × ℕ) :=
      {e | e.1 < setting.layout.layerGroups.length ∧ e.2 ∈ copied.getD e.1 []}
    DeliveriesOk setting kv (now ∪ got) (ever ∪ got) { d with
      lowestStart := start
      deliveredBlockMasks := d.deliveredBlockMasks.mapIdx fun lg blocks =>
        setBlocks (copied.getD lg []) blocks
      resumeBoundsMemo := none } := by
  intro got
  have hmask : ∀ i : ℕ,
      (d.deliveredBlockMasks.mapIdx fun lg blocks => setBlocks (copied.getD lg []) blocks)[i]?
      = d.deliveredBlockMasks[i]?.map (setBlocks (copied.getD i [])) := fun i => getElem?_mapIdx
  refine ⟨h.kv_eq, length_mapIdx.trans h.length, fun i b => ?_, fun i b hmem => ?_,
    fun i blocks' hblocks' hne => ?_, nofun⟩
  · rw [Set.mem_union, ← h.has i b]
    simp only [ManagerLayout.Has, hmask]
    constructor
    · rintro ⟨blocks', hblocks', hb⟩
      obtain ⟨blocks, hblocks, rfl⟩ := map_eq_some_iff.mp hblocks'
      rw [getD_setBlocks, Bool.or_eq_true] at hb
      rcases hb with hb | hb
      · exact .inl ⟨blocks, hblocks, hb⟩
      · refine .inr ⟨?_, of_decide_eq_true hb⟩
        rw [← h.length]
        exact (List.getElem?_eq_some_iff.mp hblocks).1
    · rintro (⟨blocks, hblocks, hb⟩ | ⟨hi, hb⟩)
      · exact ⟨_, by rw [hblocks]; rfl, by rw [getD_setBlocks, hb]; rfl⟩
      · have hi : i < d.deliveredBlockMasks.length := by rwa [h.length]
        refine ⟨_, by rw [getElem?_eq_getElem hi]; rfl, ?_⟩
        rw [getD_setBlocks, decide_eq_true hb, Bool.or_true]
  · rcases hmem with hmem | ⟨hi, hb⟩
    · obtain ⟨blocks, hblocks, hlt⟩ := h.ever_lt i b hmem
      refine ⟨_, by rw [hmask, hblocks]; rfl, ?_⟩
      rw [length_setBlocks]
      exact lt_max_of_lt_left hlt
    · have hi : i < d.deliveredBlockMasks.length := by rwa [h.length]
      refine ⟨_, by rw [hmask, getElem?_eq_getElem hi]; rfl, ?_⟩
      rw [length_setBlocks, if_neg (ne_nil_of_mem hb)]
      exact lt_max_of_lt_right (Nat.lt_succ_of_le (le_foldr_max_zero hb))
  · rw [hmask] at hblocks'
    obtain ⟨blocks, hblocks, rfl⟩ := map_eq_some_iff.mp hblocks'
    have hlen := length_setBlocks (copied.getD i []) blocks
    have hold : (setBlocks (copied.getD i []) blocks).length = blocks.length →
        (i, (setBlocks (copied.getD i []) blocks).length - 1) ∈ ever := fun heq => by
      rw [heq]
      refine h.last i blocks hblocks fun hnil => hne ?_
      rw [← length_eq_zero_iff, heq, hnil]
      rfl
    split_ifs at hlen with hnil
    · exact .inl (hold (hlen.trans (max_eq_left (Nat.zero_le _))))
    · rcases Nat.lt_or_ge ((copied.getD i []).foldr max 0) blocks.length with hshort | hlong
      · exact .inl (hold (hlen.trans (max_eq_left hshort)))
      · -- the last block of the mask is the largest one that was got
        refine .inr ⟨?_, ?_⟩
        · rw [← h.length]
          exact (List.getElem?_eq_some_iff.mp hblocks).1
        · show (setBlocks (copied.getD i []) blocks).length - 1 ∈ copied.getD i []
          rw [hlen, max_eq_right (hlong.trans (Nat.le_succ _)), Nat.succ_sub_one]
          rcases foldr_max_mem_or_zero (copied.getD i []) with hzero | hmem
          · obtain ⟨b, hb⟩ := exists_mem_of_ne_nil _ hnil
            have hle := le_foldr_max_zero hb
            rw [hzero] at hle ⊢
            rwa [Nat.le_zero.mp hle] at hb
          · exact hmem

/-- The masks reach to the last block that was ever delivered. -/
lemma DeliveriesOk.recorded {n : ℕ} (hn : 0 < n) :
    (∃ i b, (i, b) ∈ ever ∧ n ≤ b + 1) ↔
      n ≤ (d.deliveredBlockMasks.map List.length).foldr max 0 := by
  constructor
  · rintro ⟨i, b, hmem, hle⟩
    obtain ⟨blocks, hblocks, hlt⟩ := h.ever_lt i b hmem
    have hmax :=
      le_foldr_max_zero (List.mem_map_of_mem (f := List.length) (mem_of_getElem? hblocks))
    omega
  · intro hle
    rcases foldr_max_mem_or_zero (d.deliveredBlockMasks.map List.length) with hzero | hmem
    · omega
    · obtain ⟨blocks, hblocks, heq⟩ := List.mem_map.mp hmem
      obtain ⟨i, hi⟩ := mem_iff_getElem?.mp hblocks
      refine ⟨i, blocks.length - 1, h.last i blocks hi ?_, by omega⟩
      rintro rfl
      rw [length_nil] at heq
      omega

/-- What the memo has is what the masks give. -/
lemma DeliveriesOk.withMemo_eq (known : ℕ) :
    FetchLedger.withMemo setting known d = clipToBidirectionalRuns setting.runs
      (setting.layout.maxResumePosition d.deliveredBlockMasks known) := by
  rw [FetchLedger.withMemo]
  cases hmemo : d.resumeBoundsMemo with
  | none => rfl
  | some memo =>
    dsimp only
    split_ifs with hknown
    · rfl
    · rw [not_not] at hknown
      exact h.memo known memo.2 (by rw [hmemo, ← hknown])

end

lemma mem_insideCache (cache : RequestCache) (marked : List (List ℕ)) (i b : ℕ) :
    b ∈ (insideCache cache marked).getD i [] ↔ b ∈ marked.getD i [] ∧ b < cache.numBlocks := by
  rw [insideCache, getD_eq_getElem?_getD, getD_eq_getElem?_getD, getElem?_map]
  cases marked[i]? with
  | none | some => simp

/-! ### Every operation keeps it -/

namespace LedgerOk

variable {s : LedgerState} {blocks : DeliveredBlocks}

section

variable (h : LedgerOk setting s blocks)
include h

/-- No record is of another cache. -/
lemma dropReplaced_eq : s.ledger.dropReplaced s.cache.id = s.ledger := by
  have hfilter : ∀ {α : Type} {f : α → ℕ} (o : Option α), (∀ x, o = some x → f x = s.cache.id) →
      (o.filter fun x => f x = s.cache.id) = o := by
    intro α f o hf
    cases o with
    | none => rfl
    | some x => simp [hf x rfl]
  rw [FetchLedger.dropReplaced, hfilter _ h.fetch, hfilter _ h.advanced, hfilter _ h.tainted,
    hfilter _ fun d hd => (h.delivered d hd).kv_eq]

/-- What was delivered is inside the cache. -/
lemma invalidatePastCapacity {d : Deliveries} (hd : s.ledger.deliveries = some d) :
    DeliveriesOk setting s.cache.id blocks.now blocks.ever
      (d.invalidatePastCapacity s.cache.numBlocks) := by
  have hforget := (h.delivered d hd).forget fun _ b => decide (s.cache.numBlocks ≤ b)
  have hsame : {e ∈ blocks.now | decide (s.cache.numBlocks ≤ e.2) = false} = blocks.now := by
    ext e
    refine ⟨fun he => he.1, fun he => ⟨he, ?_⟩⟩
    rw [decide_eq_false_iff_not, not_le]
    exact h.inside e he
  rwa [hsame] at hforget

/-- The bounds as they are answered from delivered blocks. -/
lemma resumeBounds_eq {copyDone : ℕ → Bool} {d : Deliveries}
    (hfetch : ∀ fetch, s.ledger.latestFetch = some fetch →
      FetchLedger.fetchSettled copyDone fetch = true)
    (htainted : s.ledger.mixedTailCache = none) (hd : s.ledger.deliveries = some d) :
    s.ledger.resumeBounds setting s.cache copyDone =
      let known := s.ledger.computedTokens s.cache
      let d := d.invalidatePastCapacity s.cache.numBlocks
      let bounds := clipToBidirectionalRuns setting.runs
        (setting.layout.maxResumePosition d.deliveredBlockMasks known)
      (some ⟨bounds.1,
        max bounds.2 (FetchLedger.minResumePosition setting s.cache.history d.lowestStart)⟩,
          { s.ledger with
            deliveries := some { d with resumeBoundsMemo := some (known, bounds) } }) := by
  have hsettled : (s.ledger.latestFetch.any fun fetch => !FetchLedger.fetchSettled copyDone fetch)
      = false := by
    cases hlatest : s.ledger.latestFetch with
    | none => rfl
    | some fetch => simp [hfetch fetch hlatest]
  rw [FetchLedger.resumeBounds, h.dropReplaced_eq]
  dsimp only
  rw [hsettled, htainted, hd]
  simp only [Bool.false_eq_true, if_false, isSome_none]
  rw [(h.invalidatePastCapacity hd).withMemo_eq]

/-- **Asking for the bounds changes nothing but the memo.** -/
lemma resumeBounds (copyDone : ℕ → Bool) :
    LedgerOk setting ⟨s.cache, (s.ledger.resumeBounds setting s.cache copyDone).2⟩ blocks := by
  rw [FetchLedger.resumeBounds, h.dropReplaced_eq]
  split_ifs
  · exact h
  · exact h
  · cases hd : s.ledger.deliveries with
    | none => exact h
    | some d =>
      have hok := h.invalidatePastCapacity hd
      refine ⟨h.cache, h.inside, h.fetch, h.advanced, h.tainted, nofun, fun d' hd' => ?_⟩
      obtain rfl := some.inj hd'
      refine ⟨hok.kv_eq, hok.length, hok.has, hok.ever_lt, hok.last, fun known bounds hmemo => ?_⟩
      obtain ⟨rfl, rfl⟩ := Prod.mk.inj (some.inj hmemo)
      exact hok.withMemo_eq _

/-- Blocks are recorded as delivered. -/
lemma recordDeliveredBlocks (fetch : FetchRecord)
    (hfetch : fetch.kv = s.cache.id) (marked : List (List ℕ)) :
    LedgerOk setting
      ⟨s.cache, s.ledger.recordDeliveredBlocks setting fetch (insideCache s.cache marked)⟩
      ⟨s.cache, blocks.now ∪ DeliveredBlocks.selected setting s.cache marked,
        blocks.ever ∪ DeliveredBlocks.selected setting s.cache marked⟩ := by
  have hselected : DeliveredBlocks.selected setting s.cache marked
      = {e | e.1 < setting.layout.layerGroups.length
        ∧ e.2 ∈ (insideCache s.cache marked).getD e.1 []} := by
    ext e
    simp only [DeliveredBlocks.selected, Set.mem_ofPred_eq, mem_insideCache]
  refine ⟨rfl, ?_, h.fetch, h.advanced, h.tainted, nofun, fun d' hd' => ?_⟩
  · rintro e (he | he)
    · exact h.inside e he
    · exact he.2.2
  · obtain rfl := some.inj hd'
    rw [hselected]
    cases hd : s.ledger.deliveries with
    | none =>
      obtain ⟨hnow, hever⟩ := h.nothing hd
      rw [hnow, hever, hfetch]
      exact (deliveriesOk_fresh setting s.cache.id fetch.start).record _ _
    | some d =>
      have hok := h.delivered d hd
      have hkv : ¬ d.kv ≠ fetch.kv := by
        rw [hok.kv_eq, hfetch, not_not]
      simp only [if_neg hkv]
      exact hok.record _ _

/-- A delivered block is one of a layer group. -/
lemma now_lt {e : ℕ × ℕ} (he : e ∈ blocks.now) : e.1 < setting.layout.layerGroups.length := by
  cases hd : s.ledger.deliveries with
  | none =>
    rw [(h.nothing hd).1] at he
    exact absurd he (Set.notMem_empty e)
  | some d =>
    obtain ⟨mask, hmask, -⟩ := ((h.delivered d hd).has e.1 e.2).mpr he
    rw [← (h.delivered d hd).length]
    exact (List.getElem?_eq_some_iff.mp hmask).1

/-- Delivered blocks are dropped, and the cache keeps what is left. -/
lemma forget (drop : ℕ → ℕ → Bool) (cache : RequestCache) (hid : cache.id = s.cache.id)
    (hinside : ∀ e ∈ blocks.now, drop e.1 e.2 = false → e.2 < cache.numBlocks) :
    LedgerOk setting
      ⟨cache, { s.ledger with deliveries := s.ledger.deliveries.map (Deliveries.forget drop) }⟩
      ⟨cache, {e ∈ blocks.now | drop e.1 e.2 = false}, blocks.ever⟩ := by
  refine ⟨rfl, fun e he => hinside e he.1 he.2, hid ▸ h.fetch, hid ▸ h.advanced, hid ▸ h.tainted,
    fun hnone => ?_, fun d' hd' => ?_⟩
  · obtain ⟨hnow, hever⟩ := h.nothing (map_eq_none_iff.mp hnone)
    exact ⟨Set.eq_empty_of_subset_empty fun e he => hnow ▸ he.1, hever⟩
  · obtain ⟨d, hd, rfl⟩ := map_eq_some_iff.mp hd'
    exact hid ▸ (h.delivered d hd).forget drop

/-- **Every operation keeps the ledger right.** -/
lemma step (op : LedgerOp) : LedgerOk setting (s.step setting op) (blocks.step setting op) := by
  have hcache : blocks.cache.step op = s.cache.step op := by rw [h.cache]
  cases op with
  | recordFetch id start kept position committed =>
    refine ⟨hcache, h.inside, ?_, ?_, h.tainted, h.nothing, h.delivered⟩
    · rintro fetch hfetch
      obtain rfl := some.inj hfetch
      rfl
    · intro advanced hadvanced
      have hadvanced : (if committed < position then some (s.cache.id, kept, position)
          else s.ledger.keptPrefix) = some advanced := hadvanced
      split_ifs at hadvanced
      · obtain rfl := some.inj hadvanced
        rfl
      · exact h.advanced advanced hadvanced
  | takeOutFetch id =>
    have hrest : (s.ledger.takeOutFetch id).deliveries = s.ledger.deliveries
        ∧ (s.ledger.takeOutFetch id).keptPrefix = s.ledger.keptPrefix
        ∧ (s.ledger.takeOutFetch id).mixedTailCache = s.ledger.mixedTailCache
        ∧ ∀ fetch, (s.ledger.takeOutFetch id).latestFetch = some fetch →
          s.ledger.latestFetch = some fetch := by
      rw [FetchLedger.takeOutFetch]
      cases hlatest : s.ledger.latestFetch with
      | none => exact ⟨rfl, rfl, rfl, fun fetch hfetch => by rw [hlatest] at hfetch; cases hfetch⟩
      | some fetch =>
        dsimp only
        split_ifs
        · exact ⟨rfl, rfl, rfl, nofun⟩
        · exact ⟨rfl, rfl, rfl, fun fetch' hfetch' => by rw [← hfetch', hlatest]⟩
    obtain ⟨hd, hadvanced, htainted, hfetch⟩ := hrest
    refine ⟨hcache, h.inside, fun fetch hf => h.fetch fetch (hfetch fetch hf), ?_, ?_, ?_, ?_⟩
    · exact hadvanced.symm ▸ h.advanced
    · exact htainted.symm ▸ h.tainted
    · exact hd.symm ▸ h.nothing
    · exact hd.symm ▸ h.delivered
  | invalidate marked =>
    have hnow : blocks.now \ DeliveredBlocks.selected setting s.cache marked
        = {e ∈ blocks.now | decide (e.2 ∈ (insideCache s.cache marked).getD e.1 []) = false} := by
      ext e
      refine and_congr_right fun he => ?_
      rw [decide_eq_false_iff_not, mem_insideCache]
      exact ⟨fun hnot hin => hnot ⟨h.now_lt he, hin⟩, fun hnot hin => hnot hin.2⟩
    set drop : ℕ → ℕ → Bool :=
      fun lg b => decide (b ∈ (insideCache s.cache marked).getD lg []) with hdrop
    have hledger : s.ledger.invalidateDeliveredBlocks s.cache.id (insideCache s.cache marked)
        = { s.ledger with deliveries := s.ledger.deliveries.map (Deliveries.forget drop) } := by
      rw [FetchLedger.invalidateDeliveredBlocks]
      cases hd : s.ledger.deliveries with
      | none =>
        show s.ledger = { s.ledger with deliveries := none }
        rw [← hd]
      | some d => rw [map_some]; exact if_neg (not_not.mpr (h.delivered d hd).kv_eq)
    rw [DeliveredBlocks.step, LedgerState.step, h.cache]
    simp only [RequestCache.step, FetchLedger.step]
    rw [hnow, hledger]
    exact h.forget drop s.cache rfl fun e he _ => h.inside e he
  | putBackFetch id start copy marked =>
    have hput : LedgerOk setting ⟨s.cache, { s.ledger with
        latestFetch := some ⟨id, start, s.cache.id, true, copy⟩ }⟩ blocks := by
      refine ⟨h.cache, h.inside, fun fetch hfetch => ?_, h.advanced, h.tainted, h.nothing,
        h.delivered⟩
      obtain rfl := some.inj hfetch
      rfl
    have hrecord := hput.recordDeliveredBlocks ⟨id, start, s.cache.id, true, copy⟩ rfl marked
    rw [DeliveredBlocks.step, h.cache]
    exact hrecord
  | recordDelivered id start marked =>
    have hrecord := h.recordDeliveredBlocks ⟨id, start, s.cache.id, true, none⟩ rfl marked
    rw [DeliveredBlocks.step, h.cache]
    exact hrecord
  | recordMixedTail =>
    refine ⟨hcache, h.inside, h.fetch, h.advanced, fun kv hkv => ?_, h.nothing, h.delivered⟩
    exact (some.inj hkv).symm
  | shrink numBlocks =>
    set drop : ℕ → ℕ → Bool := fun _ b => decide (min s.cache.numBlocks numBlocks ≤ b) with hdrop
    have hledger : s.ledger.onShrink s.cache.id (min s.cache.numBlocks numBlocks)
        = { s.ledger with deliveries := s.ledger.deliveries.map (Deliveries.forget drop) } := by
      rw [FetchLedger.onShrink]
      cases hd : s.ledger.deliveries with
      | none =>
        show s.ledger = { s.ledger with deliveries := none }
        rw [← hd]
      | some d => rw [map_some]; exact if_pos (h.delivered d hd).kv_eq
    rw [DeliveredBlocks.step, LedgerState.step, h.cache]
    simp only [RequestCache.step, FetchLedger.step]
    rw [hledger]
    have hforget := h.forget drop { s.cache with numBlocks := min s.cache.numBlocks numBlocks } rfl
      fun e _ hnot => Nat.lt_of_not_le (of_decide_eq_false hnot)
    simp only [hdrop, decide_eq_false_iff_not, not_le] at hforget
    exact hforget
  | regrow numBlocks =>
    refine ⟨hcache, fun e he => lt_max_of_lt_left (h.inside e he), h.fetch, h.advanced, h.tainted,
      h.nothing, h.delivered⟩
  | moveHistory committed history =>
    exact ⟨hcache, h.inside, h.fetch, h.advanced, h.tainted, h.nothing, h.delivered⟩
  | resumeBounds copyDone => exact h.resumeBounds copyDone

end

/-- **The ledger is right after every sequence of operations.** -/
lemma after (setting : LedgerSetting) (cache : RequestCache) (ops : List LedgerOp) :
    LedgerOk setting (LedgerState.after setting cache ops)
      (DeliveredBlocks.after setting cache ops) := by
  induction ops using reverseRecOn with
  | nil =>
    refine ⟨rfl, fun e he => absurd he (Set.notMem_empty e), nofun, nofun, nofun,
      fun _ => ⟨rfl, rfl⟩, nofun⟩
  | append_singleton ops op ih =>
    rw [LedgerState.after, DeliveredBlocks.after, foldl_concat, foldl_concat]
    exact ih.step op

end LedgerOk

/-! ### The bounds -/

/-- If every window has two tokens at least, the position is not past a block that is still
there. -/
lemma ManagerLayout.IsResumePosition.of_windows {layout : ManagerLayout} {known position : ℕ}
    (hwindows : ∀ lg ∈ layout.layerGroups, ∀ w, lg.window = some w → 2 ≤ w)
    {delivered recorded : ℕ → ℕ → Prop}
    (hsub : ∀ i b, delivered i b → recorded i b)
    (hgroup : ∀ i b, recorded i b → i < layout.layerGroups.length)
    (h : layout.IsResumePosition delivered recorded known position) :
    layout.IsResumePosition delivered delivered known position := by
  have hsame : ∀ n, layout.Usable delivered delivered known n ↔
      layout.Usable delivered recorded known n := by
    intro n
    constructor
    · rintro ⟨habove, ⟨i, b, hb, hle⟩, hreads⟩
      exact ⟨habove, ⟨i, b, hsub i b hb, hle⟩, hreads⟩
    · rintro ⟨habove, ⟨i, b, hb, -⟩, hreads⟩
      refine ⟨habove, ?_, hreads⟩
      -- the block before the position is read, and it is past what is known
      have hi := hgroup i b hb
      obtain ⟨m, rfl⟩ : ∃ m, n = m + 1 := Nat.exists_eq_succ_of_ne_zero fun hzero => by
        rw [hzero, Nat.zero_mul] at habove
        exact absurd habove (Nat.not_lt_zero known)
      refine ⟨i, m, (hreads i _ (getElem?_eq_getElem hi) m ?_).resolve_left (by omega), le_refl _⟩
      exact ManagerLayout.reads_pred (hwindows _ (getElem_mem hi))
  rw [ManagerLayout.IsResumePosition] at h ⊢
  simpa only [hsame] using h

/-- `_resume_bounds` answers from delivered blocks: the latest fetch is settled, no failed copy left
a mixed tail, and there are deliveries. -/
structure FetchLedger.FromDelivered (copyDone : ℕ → Bool) (d : Deliveries)
    (ledger : FetchLedger) : Prop where
  settled : ∀ fetch, ledger.latestFetch = some fetch →
    FetchLedger.fetchSettled copyDone fetch = true
  untainted : ledger.mixedTailCache = none
  delivered : ledger.deliveries = some d

/-- **The bounds are right**: with `position` the largest usable one, they are what clipping leaves
of it, and no position that they admit is strictly inside a multimodal run. -/
structure BoundsOk (setting : LedgerSetting) (blocks : DeliveredBlocks) (known floor position : ℕ)
    (bounds : ResumeBounds) : Prop where
  greatest : setting.layout.IsResumePosition (fun i b => (i, b) ∈ blocks.now)
    (fun i b => (i, b) ∈ blocks.ever)
    known position
  greatest_now : (∀ lg ∈ setting.layout.layerGroups, ∀ w, lg.window = some w → 2 ≤ w) →
    setting.layout.IsResumePosition (fun i b => (i, b) ∈ blocks.now)
      (fun i b => (i, b) ∈ blocks.now)
      known position
  max_eq : bounds.maxPosition = (clipToBidirectionalRuns setting.runs position).1
  min_eq : bounds.minPosition = max (clipToBidirectionalRuns setting.runs position).2 floor
  max_outside : ¬ Inside setting.runs bounds.maxPosition
  floor_outside : ¬ Inside setting.runs (clipToBidirectionalRuns setting.runs position).2
  outside : ∀ p, bounds.minPosition ≤ p → p ≤ bounds.maxPosition → ¬ Inside setting.runs p

lemma LedgerOk.ever_lt {s : LedgerState} {blocks : DeliveredBlocks} (h : LedgerOk setting s blocks)
    (hd : s.ledger.deliveries = some d) {i b : ℕ} (hmem : (i, b) ∈ blocks.ever) :
    i < setting.layout.layerGroups.length := by
  obtain ⟨mask, hmask, -⟩ := (h.delivered d hd).ever_lt i b hmem
  rw [← (h.delivered d hd).length]
  exact (List.getElem?_eq_some_iff.mp hmask).1

/-- A block that is there was delivered. -/
lemma DeliveredBlocks.now_subset_ever_step {blocks : DeliveredBlocks} (h : blocks.now ⊆ blocks.ever)
    (op : LedgerOp) :
    (blocks.step setting op).now ⊆ (blocks.step setting op).ever := by
  cases op with
  | invalidate | shrink => exact fun e he => h he.1
  | putBackFetch | recordDelivered => exact Set.union_subset_union_left _ h
  | _ => exact h

lemma DeliveredBlocks.now_subset_ever (setting : LedgerSetting) (cache : RequestCache)
    (ops : List LedgerOp) : (DeliveredBlocks.after setting cache ops).now
      ⊆ (DeliveredBlocks.after setting cache ops).ever := by
  induction ops using reverseRecOn with
  | nil => exact fun e he => he
  | append_singleton ops op ih =>
    rw [DeliveredBlocks.after, foldl_concat]
    exact DeliveredBlocks.now_subset_ever_step ih op

/-- **The resume position is the largest usable one**: after every sequence of operations the bounds
that are answered from delivered blocks are right, and a memo has what the masks give. -/
theorem resumeBounds_spec (setting : LedgerSetting) (cache : RequestCache) (ops : List LedgerOp)
    (d : Deliveries) (hd : (LedgerState.after setting cache ops).ledger.deliveries = some d) :
    let s := LedgerState.after setting cache ops
    (∀ known bounds, d.resumeBoundsMemo = some (known, bounds) → bounds = clipToBidirectionalRuns
      setting.runs (setting.layout.maxResumePosition d.deliveredBlockMasks known))
    ∧ ∀ copyDone, s.ledger.FromDelivered copyDone d → ∃ bounds position,
      (s.ledger.resumeBounds setting s.cache copyDone).1 = some bounds
      ∧ BoundsOk setting (DeliveredBlocks.after setting cache ops) (s.ledger.computedTokens s.cache)
        (FetchLedger.minResumePosition setting s.cache.history d.lowestStart) position bounds := by
  intro s
  have hok := LedgerOk.after setting cache ops
  have hsub := DeliveredBlocks.now_subset_ever setting cache ops
  set blocks := DeliveredBlocks.after setting cache ops
  refine ⟨(hok.delivered d hd).memo, fun copyDone hfrom => ?_⟩
  have hclean := hok.invalidatePastCapacity hd
  set known := s.ledger.computedTokens s.cache
  set masks := (d.invalidatePastCapacity s.cache.numBlocks).deliveredBlockMasks with hmasks
  have hgreatest : setting.layout.IsResumePosition (fun i b => (i, b) ∈ blocks.now)
      (fun i b => (i, b) ∈ blocks.ever) known (setting.layout.maxResumePosition masks known) := by
    have hhas : ManagerLayout.Has masks = fun i b => (i, b) ∈ blocks.now :=
      funext fun i => funext fun b => propext (hclean.has i b)
    rw [← hhas]
    exact ManagerLayout.maxResumePosition_spec hclean.length fun n hn => hclean.recorded hn
  obtain ⟨mask, hruns⟩ := isRun_bidirectionalRuns setting.multimodalData
  obtain ⟨hmax, hfloor, hbetween⟩ := clipToBidirectionalRuns_outside hruns
    (setting.layout.maxResumePosition masks known)
  have hanswer := congrArg Prod.fst (hok.resumeBounds_eq hfrom.settled hfrom.untainted hd)
  refine ⟨_, setting.layout.maxResumePosition masks known, hanswer, ?_⟩
  refine ⟨hgreatest, fun hwindows => ?_, rfl, rfl, hmax, hfloor, fun p hle hge => ?_⟩
  · exact hgreatest.of_windows hwindows (fun i b hb => hsub hb) fun i b hb => hok.ever_lt hd hb
  · exact hbetween p (le_trans (le_max_left _ _) hle) hge

/-! ### A run of multimodal tokens -/

/-- Blocks of four tokens, full attention, and multimodal tokens from the third to the sixth. -/
def sampleSetting : LedgerSetting where
  layout := ⟨4, [⟨0, none, 0⟩], fun _ => 10, Nat.lt_add_left 3 Nat.one_pos⟩
  floorFollowsHistory := false
  multimodalData := some ⟨true, some [0, 0, 1, 2, 3, 4, 4, 4, 4]⟩

/-- A cache with one block from an earlier request. -/
def sampleCache : RequestCache := ⟨0, 4, 4, 2⟩

/-- A fetch of the second block, in which the blocks in `marked` arrive. -/
def sampleFetch (marked : List ℕ) : List LedgerOp :=
  [.recordFetch 0 4 4 4 4, .takeOutFetch 0, .invalidate [marked], .putBackFetch 0 4 none [marked]]

/-- The second block arrives, and the request resumes after it. -/
theorem resumeBounds_spec_sample : ∃ d bounds position,
      ((LedgerState.after sampleSetting sampleCache (sampleFetch [1])).ledger.resumeBounds
        sampleSetting
        sampleCache fun _ => true).1 = some bounds
      ∧ bounds = ⟨8, 6⟩
        ∧ BoundsOk sampleSetting (DeliveredBlocks.after sampleSetting sampleCache (sampleFetch [1]))
        4 (FetchLedger.minResumePosition sampleSetting 4 d) position bounds := by
  obtain ⟨-, hanswer⟩ := resumeBounds_spec sampleSetting sampleCache (sampleFetch [1])
    ⟨0, 4, [[false, true]], none⟩ (by decide)
  obtain ⟨bounds, position, hbounds, hok⟩ := hanswer (fun _ => true)
    ⟨fun fetch hfetch => by cases hfetch; rfl, rfl, by decide⟩
  refine ⟨4, bounds, position, hbounds, ?_, hok⟩
  exact some.inj (hbounds.symm.trans (by decide))

/-- **The lower bound may be strictly inside a run**: nothing arrives, and the known tokens end
inside the run. The interval is empty, and the request computes from its start. -/
theorem resumeBounds_insideRun :
    let s := LedgerState.after sampleSetting sampleCache (sampleFetch [])
    s.ledger.FromDelivered (fun _ => true) ⟨0, 4, [[]], none⟩
    ∧ (s.ledger.resumeBounds sampleSetting s.cache fun _ => true).1 = some ⟨2, 4⟩
    ∧ Inside sampleSetting.runs 4 := by
  refine ⟨⟨fun fetch hfetch => by cases hfetch; rfl, rfl, by decide⟩,
    by decide, ⟨(2, 6), by decide, by decide⟩⟩

end TrtLlm
