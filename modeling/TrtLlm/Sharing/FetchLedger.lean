import TrtLlm.Sharing.ResumePosition

/-!
`_FetchLedger` (`sharing/_fetch_ledger.py`): what a staging lender records of one request's fetches.

The delivered blocks are kept as one mask per layer group, and the bounds that were computed last as
a memo, which the operations drop one by one. Over it stands what the ledger is for: the set of the
blocks that were delivered, and that no later copy or shrink took away (`DeliveredBlocks`).
-/

namespace TrtLlm

open List Option

/-- `_FetchRecord`: `id` is its identity and `kv` that of the cache. -/
structure FetchRecord where
  id : ℕ
  start : ℕ
  kv : ℕ
  marksQueued : Bool
  copy : Option ℕ
deriving DecidableEq

/-- `_Deliveries`. -/
structure Deliveries where
  kv : ℕ
  lowestStart : ℕ
  deliveredBlockMasks : List (List Bool)
  resumeBoundsMemo : Option (ℕ × ℕ × ℕ)
deriving DecidableEq

/-- The four records of `_FetchLedger` for one request. -/
structure FetchLedger where
  latestFetch : Option FetchRecord
  deliveries : Option Deliveries
  keptPrefix : Option (ℕ × ℕ × ℕ)
  mixedTailCache : Option ℕ
deriving DecidableEq

/-- What the ledger reads of a runtime cache. -/
structure RequestCache where
  id : ℕ
  committed : ℕ
  history : ℕ
  numBlocks : ℕ
deriving DecidableEq

/-- `ResumeBounds`. -/
structure ResumeBounds where
  maxPosition : ℕ
  minPosition : ℕ
deriving DecidableEq

/-- What does not change while a request is served: the layout, `_floor_follows_history` of the
manager, and the request's multimodal data. -/
structure LedgerSetting where
  layout : ManagerLayout
  floorFollowsHistory : Bool
  multimodalData : Option MultimodalData

namespace LedgerSetting

/-- The runs of multimodal tokens of the request. -/
def runs (setting : LedgerSetting) : List (ℕ × ℕ) := bidirectionalRuns setting.multimodalData

end LedgerSetting

/-! ### Masks -/

/-- A delivered block is among those to be dropped. -/
def hits (drop : ℕ → Bool) (blocks : List Bool) : Bool :=
  (range blocks.length).any fun b => blocks.getD b false && drop b

/-- The blocks to be dropped are set to `False`. -/
def clearBlocks (drop : ℕ → Bool) (blocks : List Bool) : List Bool :=
  blocks.mapIdx fun b x => x && !drop b

/-- The blocks in `got` are set to `True`, in a mask that is long enough. -/
def setBlocks (got : List ℕ) (blocks : List Bool) : List Bool :=
  if got = [] then blocks
  else (blocks ++ replicate (got.foldr max 0 + 1 - blocks.length) false).mapIdx
    fun b x => x || decide (b ∈ got)

namespace Deliveries

/-- The loop of `_invalidate_delivered_blocks` and of `_invalidate_delivered_blocks_past_capacity`:
a mask with a block to be dropped is changed, and the memo is dropped. -/
def forget (drop : ℕ → ℕ → Bool) (d : Deliveries) : Deliveries :=
  let hit := (d.deliveredBlockMasks.mapIdx fun lg blocks => hits (drop lg) blocks).any id
  { d with
    deliveredBlockMasks := d.deliveredBlockMasks.mapIdx fun lg blocks =>
      if hits (drop lg) blocks then clearBlocks (drop lg) blocks else blocks
    resumeBoundsMemo := if hit then none else d.resumeBoundsMemo }

/-- `_invalidate_delivered_blocks_past_capacity`. -/
def invalidatePastCapacity (numBlocks : ℕ) (d : Deliveries) : Deliveries :=
  d.forget fun _ b => decide (numBlocks ≤ b)

end Deliveries

namespace FetchLedger

variable (setting : LedgerSetting)

/-- `_record_fetch`. -/
def recordFetch (id kv start kept position committed : ℕ) (ledger : FetchLedger) : FetchLedger :=
  { ledger with
    keptPrefix := if committed < position then some (kv, kept, position) else ledger.keptPrefix
    latestFetch := some ⟨id, start, kv, false, none⟩ }

/-- `_abandon_fetch` and `_take_out_fetch`: the fetch goes if it is the latest one. -/
def takeOutFetch (id : ℕ) (ledger : FetchLedger) : FetchLedger :=
  match ledger.latestFetch with
  | some fetch => if fetch.id = id then { ledger with latestFetch := none } else ledger
  | none => ledger

/-- `_fetch_settled`. -/
def fetchSettled (copyDone : ℕ → Bool) (fetch : FetchRecord) : Bool :=
  fetch.marksQueued && fetch.copy.all copyDone

/-- `_invalidate_delivered_blocks`, for a lease of the cache `kv` and the entries that are
copied. -/
def invalidateDeliveredBlocks (kv : ℕ) (copied : List (List ℕ))
    (ledger : FetchLedger) : FetchLedger :=
  match ledger.deliveries with
  | none => ledger
  | some d =>
    if d.kv ≠ kv then ledger
    else { ledger with deliveries := some (d.forget fun lg b => decide (b ∈ copied.getD lg [])) }

/-- `_record_mixed_tail`. -/
def recordMixedTail (kv : ℕ) (ledger : FetchLedger) : FetchLedger :=
  { ledger with mixedTailCache := some kv }

/-- `_record_delivered_blocks`. -/
def recordDeliveredBlocks (fetch : FetchRecord) (copied : List (List ℕ)) (ledger : FetchLedger) :
    FetchLedger :=
  let fresh : Deliveries :=
    ⟨fetch.kv, fetch.start, setting.layout.layerGroups.map fun _ => [], none⟩
  let d := match ledger.deliveries with
    | none => fresh
    | some d => if d.kv ≠ fetch.kv then fresh else d
  { ledger with deliveries := some { d with
      lowestStart := min d.lowestStart fetch.start
      deliveredBlockMasks := d.deliveredBlockMasks.mapIdx fun lg blocks =>
        setBlocks (copied.getD lg []) blocks
      resumeBoundsMemo := none } }

/-- `_put_back_fetch`. -/
def putBackFetch (fetch : FetchRecord) (copy : Option ℕ) (copied : List (List ℕ))
    (ledger : FetchLedger) : FetchLedger :=
  let fetch := { fetch with copy := copy, marksQueued := true }
  recordDeliveredBlocks setting fetch copied { ledger with latestFetch := some fetch }

/-- `Staging._on_shrink`, after the cache has so many blocks. -/
def onShrink (kv numBlocks : ℕ) (ledger : FetchLedger) : FetchLedger :=
  match ledger.deliveries with
  | none => ledger
  | some d =>
    if d.kv = kv then { ledger with deliveries := some (d.invalidatePastCapacity numBlocks) }
      else ledger

/-- `_computed_tokens`. -/
def computedTokens (cache : RequestCache) (ledger : FetchLedger) : ℕ :=
  match ledger.keptPrefix with
  | none => max cache.committed cache.history
  | some (kv, kept, position) =>
    if kv ≠ cache.id ∨ position < cache.history then max cache.committed cache.history
    else max cache.committed kept

/-- `_min_resume_position`. -/
def minResumePosition (history origin : ℕ) : ℕ :=
  if setting.floorFollowsHistory then history
  else if setting.layout.layerGroups.any fun lg =>
      decide ((setting.layout.staleRange lg history).1 < (setting.layout.staleRange lg history).2)
        then history
  else min origin history

/-- The records of a cache that the request no longer holds are dropped. -/
def dropReplaced (kv : ℕ) (ledger : FetchLedger) : FetchLedger where
  latestFetch := ledger.latestFetch.filter fun fetch => fetch.kv = kv
  deliveries := ledger.deliveries.filter fun d => d.kv = kv
  keptPrefix := ledger.keptPrefix.filter fun advanced => advanced.1 = kv
  mixedTailCache := ledger.mixedTailCache.filter fun tainted => tainted = kv

/-- What `_resume_bounds` keeps as memo: the bounds for what is known now. -/
def withMemo (known : ℕ) (d : Deliveries) : ℕ × ℕ :=
  let usable :=
    clipToBidirectionalRuns setting.runs
      (setting.layout.maxResumePosition d.deliveredBlockMasks known)
  match d.resumeBoundsMemo with
  | none => usable
  | some (before, bounds) => if before ≠ known then usable else bounds

/-- `_resume_bounds`. -/
def resumeBounds (cache : RequestCache) (copyDone : ℕ → Bool) (ledger : FetchLedger) :
    Option ResumeBounds × FetchLedger :=
  let ledger := ledger.dropReplaced cache.id
  if ledger.latestFetch.any fun fetch => !fetchSettled copyDone fetch then (none, ledger)
  else if ledger.mixedTailCache.isSome then (some ⟨0, max cache.history 1⟩, ledger)
  else
    let known := ledger.computedTokens cache
    match ledger.deliveries with
    | none =>
      let bounds := clipToBidirectionalRuns setting.runs known
      (some ⟨bounds.1, max bounds.2 cache.history⟩, ledger)
    | some d =>
      let d := d.invalidatePastCapacity cache.numBlocks
      let bounds := withMemo setting known d
      (some ⟨bounds.1, max bounds.2 (minResumePosition setting cache.history d.lowestStart)⟩,
        { ledger with deliveries := some { d with resumeBoundsMemo := some (known, bounds) } })

end FetchLedger

/-! ### Operations on a request -/

/-- What happens to a request and its cache: the operations of the ledger, and the cache's own
changes. -/
inductive LedgerOp where
  | recordFetch (id start kept position committed : ℕ)
  | takeOutFetch (id : ℕ)
  | invalidate (marked : List (List ℕ))
  | putBackFetch (id start : ℕ) (copy : Option ℕ) (marked : List (List ℕ))
  | recordDelivered (id start : ℕ) (marked : List (List ℕ))
  | recordMixedTail
  | shrink (numBlocks : ℕ)
  | regrow (numBlocks : ℕ)
  | moveHistory (committed history : ℕ)
  | resumeBounds (copyDone : ℕ → Bool)

/-- The marked entries that are inside the cache, as `_locked_block_masks` selects them. -/
def insideCache (cache : RequestCache) (marked : List (List ℕ)) : List (List ℕ) :=
  marked.map fun blocks => blocks.filter fun b => decide (b < cache.numBlocks)

/-- A request's cache and its ledger. -/
structure LedgerState where
  cache : RequestCache
  ledger : FetchLedger

/-- What an operation does to the cache. -/
def RequestCache.step (cache : RequestCache) : LedgerOp → RequestCache
  | .shrink numBlocks => { cache with numBlocks := min cache.numBlocks numBlocks }
  | .regrow numBlocks => { cache with numBlocks := max cache.numBlocks numBlocks }
  | .moveHistory committed history => { cache with committed := committed, history := history }
  | _ => cache

/-- What an operation does to the ledger, which belongs to `cache` as it is after it. -/
def FetchLedger.step (setting : LedgerSetting) (cache : RequestCache) (ledger : FetchLedger) :
    LedgerOp → FetchLedger
  | .recordFetch id start kept position committed =>
    ledger.recordFetch id cache.id start kept position committed
  | .takeOutFetch id => ledger.takeOutFetch id
  | .invalidate marked => ledger.invalidateDeliveredBlocks cache.id (insideCache cache marked)
  | .putBackFetch id start copy marked =>
    ledger.putBackFetch setting ⟨id, start, cache.id, false, none⟩ copy (insideCache cache marked)
  | .recordDelivered id start marked =>
    ledger.recordDeliveredBlocks setting ⟨id, start, cache.id, true, none⟩
      (insideCache cache marked)
  | .recordMixedTail => ledger.recordMixedTail cache.id
  | .shrink _ => ledger.onShrink cache.id cache.numBlocks
  | .regrow _ => ledger
  | .moveHistory _ _ => ledger
  | .resumeBounds copyDone => (ledger.resumeBounds setting cache copyDone).2

namespace LedgerState

/-- A request's cache before the first fetch. -/
def init (cache : RequestCache) : LedgerState := ⟨cache, ⟨none, none, none, none⟩⟩

def step (setting : LedgerSetting) (s : LedgerState) (op : LedgerOp) : LedgerState :=
  ⟨s.cache.step op, s.ledger.step setting (s.cache.step op) op⟩

/-- The state after a sequence of operations. -/
def after (setting : LedgerSetting) (cache : RequestCache) (ops : List LedgerOp) : LedgerState :=
  ops.foldl (step setting) (init cache)

end LedgerState

/-! ### What was delivered -/

/-- The blocks that were delivered: those that no copy or shrink took away since, and all of
them. -/
structure DeliveredBlocks where
  cache : RequestCache
  now : Set (ℕ × ℕ)
  ever : Set (ℕ × ℕ)

namespace DeliveredBlocks

/-- The entries of the layer groups that are selected. -/
def selected (setting : LedgerSetting) (cache : RequestCache)
    (marked : List (List ℕ)) : Set (ℕ × ℕ) :=
  {e | e.1 < setting.layout.layerGroups.length ∧ e.2 ∈ marked.getD e.1 [] ∧ e.2 < cache.numBlocks}

def step (setting : LedgerSetting) (s : DeliveredBlocks) (op : LedgerOp) : DeliveredBlocks :=
  let cache := s.cache.step op
  match op with
  | .invalidate marked => ⟨cache, s.now \ selected setting cache marked, s.ever⟩
  | .putBackFetch _ _ _ marked | .recordDelivered _ _ marked =>
    ⟨cache, s.now ∪ selected setting cache marked, s.ever ∪ selected setting cache marked⟩
  | .shrink _ => ⟨cache, {e ∈ s.now | e.2 < cache.numBlocks}, s.ever⟩
  | _ => ⟨cache, s.now, s.ever⟩

/-- The delivered blocks after a sequence of operations. -/
def after (setting : LedgerSetting) (cache : RequestCache)
    (ops : List LedgerOp) : DeliveredBlocks :=
  ops.foldl (step setting) ⟨cache, ∅, ∅⟩

end DeliveredBlocks

/-! ### Masks as sets -/

lemma getD_of_length_le {blocks : List Bool} {b : ℕ} (h : blocks.length ≤ b) :
    blocks.getD b false = false := by
  rw [getD_eq_getElem?_getD, getElem?_eq_none h]
  rfl

lemma hits_iff {drop : ℕ → Bool} {blocks : List Bool} :
    hits drop blocks = true ↔ ∃ b, blocks.getD b false = true ∧ drop b = true := by
  rw [hits, List.any_eq_true]
  constructor
  · rintro ⟨b, -, hb⟩
    exact ⟨b, Bool.and_eq_true_iff.mp hb⟩
  · rintro ⟨b, hget, hdrop⟩
    refine ⟨b, mem_range.mpr ?_, Bool.and_eq_true_iff.mpr ⟨hget, hdrop⟩⟩
    by_contra hlt
    rw [getD_of_length_le (Nat.le_of_not_lt hlt)] at hget
    cases hget

lemma getD_clearBlocks (drop : ℕ → Bool) (blocks : List Bool) (b : ℕ) :
    (clearBlocks drop blocks).getD b false = (blocks.getD b false && !drop b) := by
  rw [clearBlocks, getD_eq_getElem?_getD, getD_eq_getElem?_getD, getElem?_mapIdx]
  cases blocks[b]? with
  | none | some => rfl

lemma length_setBlocks (got : List ℕ) (blocks : List Bool) :
    (setBlocks got blocks).length = max blocks.length (if got = [] then 0
      else got.foldr max 0 + 1) := by
  rw [setBlocks]
  split_ifs with hnil
  · exact (max_eq_left (Nat.zero_le _)).symm
  · rw [length_mapIdx, length_append, length_replicate]
    omega

lemma getD_setBlocks (got : List ℕ) (blocks : List Bool) (b : ℕ) :
    (setBlocks got blocks).getD b false = (blocks.getD b false || decide (b ∈ got)) := by
  by_cases hnil : got = []
  · rw [setBlocks, if_pos hnil, hnil]
    simp
  · by_cases hin : b < (setBlocks got blocks).length
    · rw [setBlocks, if_neg hnil, length_mapIdx] at hin
      rw [setBlocks, if_neg hnil, getD_eq_getElem?_getD, getD_eq_getElem?_getD, getElem?_mapIdx]
      by_cases hold : b < blocks.length
      · rw [getElem?_append_left hold, getElem?_eq_getElem hold]
        rfl
      · rw [getElem?_eq_getElem hin, getElem_append_right (Nat.le_of_not_lt hold),
          getElem_replicate, getElem?_eq_none (Nat.le_of_not_lt hold)]
        rfl
    · have hlen := length_setBlocks got blocks
      rw [if_neg hnil] at hlen
      have hnot : b ∉ got := fun hmem => by
        have hle := le_foldr_max_zero hmem
        omega
      rw [getD_of_length_le (Nat.le_of_not_lt hin), getD_of_length_le (by omega),
        decide_eq_false hnot]
      rfl

namespace Deliveries

variable {drop : ℕ → ℕ → Bool} {d : Deliveries}

lemma getElem?_forget (i : ℕ) :
    (d.forget drop).deliveredBlockMasks[i]? = d.deliveredBlockMasks[i]?.map fun blocks =>
      if hits (drop i) blocks then clearBlocks (drop i) blocks else blocks := by
  rw [forget, getElem?_mapIdx]

/-- **The blocks that are dropped are not there, and the others are as before.** -/
lemma has_forget (i b : ℕ) : ManagerLayout.Has (d.forget drop).deliveredBlockMasks i b
      ↔ ManagerLayout.Has d.deliveredBlockMasks i b ∧ drop i b = false := by
  have hget : ∀ blocks : List Bool,
      (if hits (drop i) blocks then clearBlocks (drop i) blocks else blocks).getD b false = true
        ↔ blocks.getD b false = true ∧ drop i b = false := by
    intro blocks
    split_ifs with hhit
    · rw [getD_clearBlocks, Bool.and_eq_true_iff, Bool.not_eq_true']
    · refine ⟨fun hb => ⟨hb, ?_⟩, fun hb => hb.1⟩
      rw [Bool.eq_false_iff]
      exact fun hdrop => hhit (hits_iff.mpr ⟨b, hb, hdrop⟩)
  simp only [ManagerLayout.Has, getElem?_forget]
  constructor
  · rintro ⟨blocks', hblocks', hb⟩
    obtain ⟨blocks, hblocks, rfl⟩ := map_eq_some_iff.mp hblocks'
    obtain ⟨hb, hdrop⟩ := (hget blocks).mp hb
    exact ⟨⟨blocks, hblocks, hb⟩, hdrop⟩
  · rintro ⟨⟨blocks, hblocks, hb⟩, hdrop⟩
    exact ⟨_, by rw [hblocks]; rfl, (hget blocks).mpr ⟨hb, hdrop⟩⟩

lemma length_forget_mask {i : ℕ} {blocks' : List Bool}
    (h : (d.forget drop).deliveredBlockMasks[i]? = some blocks') :
    ∃ blocks, d.deliveredBlockMasks[i]? = some blocks ∧ blocks'.length = blocks.length := by
  rw [getElem?_forget] at h
  obtain ⟨blocks, hblocks, rfl⟩ := map_eq_some_iff.mp h
  refine ⟨blocks, hblocks, ?_⟩
  split_ifs with hhit
  · exact length_mapIdx
  · rfl

/-- A memo is kept only if no mask changes. -/
lemma forget_memo {memo : ℕ × ℕ × ℕ} (h : (d.forget drop).resumeBoundsMemo = some memo) :
    d.resumeBoundsMemo = some memo ∧ (d.forget drop).deliveredBlockMasks
      = d.deliveredBlockMasks := by
  have hnot : (d.deliveredBlockMasks.mapIdx fun lg blocks => hits (drop lg) blocks).any id
      = false := by
    rw [Bool.eq_false_iff]
    intro hhit
    rw [forget] at h
    rw [if_pos hhit] at h
    cases h
  refine ⟨?_, ext_getElem? fun i => ?_⟩
  · rw [forget] at h
    rwa [hnot, if_neg (by decide)] at h
  · rw [getElem?_forget]
    cases hblocks : d.deliveredBlockMasks[i]? with
    | none => rfl
    | some blocks =>
      have hmem : hits (drop i) blocks ∈ d.deliveredBlockMasks.mapIdx fun lg blocks =>
        hits (drop lg) blocks := by
        refine mem_of_getElem? (i := i) ?_
        rw [getElem?_mapIdx, hblocks]
        rfl
      have hfalse : ¬ hits (drop i) blocks = true := List.any_eq_false.mp hnot _ hmem
      rw [map_some, if_neg hfalse]

end Deliveries

end TrtLlm
