import Mathlib.Tactic

/-!
`LRUEvictionPolicy` (`evictionPolicy.cpp`) and `WindowBlockManager::getFreeBlock`: the blocks of one
window, the queues of those that are free, by cache level and priority, and the block that is
evicted next.

* `Intact`: what `verifyQueueIntegrity` checks, with the iterators and the counters;
* `Intact.releaseBlock`, `Intact.claimBlock`: the two operations of the policy keep it;
* `Intact.takeFree`: **the block that is taken was free, and the others are as they were**.
-/

namespace TrtLlm.KvCache

open Function Option Finset

/-- `kPrimaryLevel` and `kSecondaryLevel`. -/
inductive CacheLevel where
  | primary
  | secondary
deriving DecidableEq

/-- `kMinRetentionPriority`. -/
def kMinRetentionPriority : ℕ := 0

/-- `kNumPriorities`. -/
def kNumPriorities : ℕ := 101

/-- `KVCacheBlock`, as far as the pool reads it: whether it has tokens and a lookup node, where its
memory is, its references and its priority. -/
structure BlockState where
  refCount : ℕ
  priority : ℕ
  level : CacheLevel
  hasTokens : Bool
  inTree : Bool
deriving DecidableEq

/-- The blocks of a window, and `LRUEvictionPolicy`: a free block's iterator is set. -/
structure Pool where
  blocks : ℕ → BlockState
  queues : CacheLevel → ℕ → List ℕ
  queued : ℕ → Bool
  numFree : CacheLevel → ℤ
  secondaryOffloadMinPriority : ℕ

namespace Pool

/-- A block with its state changed. -/
def modify (pool : Pool) (id : ℕ) (f : BlockState → BlockState) : Pool :=
  { pool with blocks := update pool.blocks id (f (pool.blocks id)) }

/-- A queue changed. -/
def setQueue (pool : Pool) (level : CacheLevel) (priority : ℕ) (queue : List ℕ) : Pool :=
  let queues := update (pool.queues level) priority queue
  { pool with queues := update pool.queues level queues }

/-- `releaseBlock`. -/
def releaseBlock (id : ℕ) (toFront : Bool) (pool : Pool) : Pool :=
  let b := pool.blocks id
  let queue := pool.queues b.level b.priority
  { pool.setQueue b.level b.priority (if toFront then id :: queue else queue ++ [id]) with
    queued := update pool.queued id true
    numFree := update pool.numFree b.level (pool.numFree b.level + 1) }

/-- The first half of `claimBlock`: a free block leaves its queue. Its iterator has to be one of the
queue it is erased from. -/
def unqueue (id : ℕ) (pool : Pool) : Option Pool :=
  let b := pool.blocks id
  let queue := pool.queues b.level b.priority
  if pool.queued id then
    if id ∈ queue then
      some { pool.setQueue b.level b.priority (queue.erase id) with
        queued := update pool.queued id false
        numFree := update pool.numFree b.level (pool.numFree b.level - 1) }
    else none
  else some pool

/-- `claimBlock`. -/
def claimBlock (id : ℕ) (priority : Option ℕ) (pool : Pool) : Option Pool :=
  (pool.unqueue id).map fun pool =>
    pool.modify id fun b => { b with priority := priority.getD b.priority }

/-- `LRUEvictionPolicy::getFreeBlock`: the first block of the first queue that has one, with its
priority. -/
def getFreeBlock (level : CacheLevel) (pool : Pool) : Option (ℕ × ℕ) :=
  (List.range kNumPriorities).findSome? fun priority =>
    (pool.queues level priority).head?.map fun id => (id, priority)

/-- `swapMemoryPoolBlockOffset`. -/
def swapLevels (id id' : ℕ) (pool : Pool) : Pool :=
  (pool.modify id fun b => { b with level := (pool.blocks id').level }).modify id'
    fun b => { b with level := (pool.blocks id).level }

/-- The offloading of `getFreeBlock`: the content of the block goes to a free block in secondary
memory, which gives its place in primary memory for it. -/
def offload (id : ℕ) (pool : Pool) : Option (ℕ × Pool) := do
  let (free, _) ← pool.getFreeBlock .secondary
  let pool ← pool.claimBlock id none
  let pool ← pool.claimBlock free none
  return (free, (pool.swapLevels id free).releaseBlock id false)

/-- The block that is evicted, after it was offloaded if that is possible. -/
def evict (pool : Pool) : Option (ℕ × Pool) :=
  match pool.getFreeBlock .primary with
  | none => none
  | some (id, pri) =>
    if (pool.blocks id).hasTokens ∧ pool.secondaryOffloadMinPriority ≤ pri
      ∧ 0 < pool.numFree .secondary then
      pool.offload id
    else some (id, pool)

/-- `detachFromLookupNode`. -/
def detach (id : ℕ) (pool : Pool) : Pool := pool.modify id fun b => { b with inTree := false }

/-- `WindowBlockManager::getFreeBlock`. -/
def takeFree (priority : ℕ) (pool : Pool) : Option (ℕ × Pool) :=
  match pool.evict with
  | none => none
  | some (id, pool) => ((pool.detach id).claimBlock id (some priority)).map fun pool => (id, pool)

/-- The free blocks of a level. -/
def queueLengths (pool : Pool) (level : CacheLevel) : ℕ :=
  ∑ priority ∈ range kNumPriorities, (pool.queues level priority).length

/-- **The queues are intact**: a block in a queue has its level and priority and no references, it
is there once, the iterators are those of the queues, and the counters are their lengths. -/
structure Intact (pool : Pool) : Prop where
  free : ∀ level priority id, id ∈ pool.queues level priority → (pool.blocks id).level = level
    ∧ (pool.blocks id).priority = priority ∧ (pool.blocks id).refCount = 0 ∧ pool.queued id = true
  nodup : ∀ level priority, (pool.queues level priority).Nodup
  queued : ∀ id, pool.queued id = true →
    id ∈ pool.queues (pool.blocks id).level (pool.blocks id).priority
  priority_lt : ∀ id, (pool.blocks id).priority < kNumPriorities
  counted : ∀ level, pool.numFree level = pool.queueLengths level

variable {pool : Pool} {id : ℕ}

variable {pool' : Pool} {priority : ℕ}

section

variable (f : BlockState → BlockState)

@[simp] lemma modify_queues : (pool.modify id f).queues = pool.queues := rfl

@[simp] lemma modify_queued : (pool.modify id f).queued = pool.queued := rfl

@[simp] lemma modify_numFree : (pool.modify id f).numFree = pool.numFree := rfl

@[simp] lemma modify_blocks_self :
    (pool.modify id f).blocks id = f (pool.blocks id) := update_self ..

end

lemma modify_blocks_of_ne {id' : ℕ} (h : id' ≠ id) (f : BlockState → BlockState) :
    (pool.modify id f).blocks id' = pool.blocks id' := update_of_ne h ..

/-- A block that is not free is in no queue. -/
lemma Intact.not_mem (h : pool.Intact) (hid : pool.queued id = false) (level : CacheLevel)
    (priority : ℕ) : id ∉ pool.queues level priority := fun hmem => by
  have hqueued := (h.free level priority id hmem).2.2.2
  rw [hid] at hqueued
  cases hqueued

lemma setQueue_queues (level level' : CacheLevel) (priority priority' : ℕ) (queue : List ℕ) :
    (pool.setQueue level priority queue).queues level' priority'
      = if level' = level ∧ priority' = priority then queue else pool.queues level' priority' := by
  rw [setQueue]
  by_cases hl : level' = level
  · subst hl
    by_cases hp : priority' = priority
    · subst hp
      simp
    · simp [hp]
  · simp [hl]

/-- The lengths of the queues when one of them changes. -/
lemma queueLengths_setQueue (pool : Pool) (level : CacheLevel) (hp : priority < kNumPriorities)
    (queue : List ℕ) (level' : CacheLevel) :
    ((pool.setQueue level priority queue).queueLengths level' : ℤ)
      = pool.queueLengths level'
        + if level' = level then (queue.length : ℤ) - (pool.queues level priority).length
          else 0 := by
  rw [queueLengths, queueLengths]
  split_ifs with hl
  · subst hl
    have hmem : priority ∈ range kNumPriorities := mem_range.mpr hp
    rw [← add_sum_erase _ _ hmem, ← add_sum_erase _ _ hmem]
    have hrest : ∑ p ∈ (range kNumPriorities).erase priority,
          ((pool.setQueue level' priority queue).queues level' p).length
        = ∑ p ∈ (range kNumPriorities).erase priority, (pool.queues level' p).length := by
      refine sum_congr rfl fun p hp' => ?_
      rw [setQueue_queues, if_neg fun hboth => (mem_erase.mp hp').1 hboth.2]
    rw [hrest, setQueue_queues, if_pos ⟨rfl, rfl⟩]
    push_cast
    ring
  · have hsame : ∀ p ∈ range kNumPriorities,
        ((pool.setQueue level priority queue).queues level' p).length
          = (pool.queues level' p).length := by
      intro p _
      rw [setQueue_queues, if_neg fun hboth => hl hboth.1]
    rw [sum_congr rfl hsame, add_zero]

/-- The state of a block that is not free may change. -/
lemma Intact.modify (h : pool.Intact) (hid : pool.queued id = false) {f : BlockState → BlockState}
    (hf : (f (pool.blocks id)).priority < kNumPriorities) : (pool.modify id f).Intact where
  free level priority id' hmem := by
    have hne : id' ≠ id := fun heq => h.not_mem hid level priority (heq ▸ hmem)
    rw [modify_blocks_of_ne hne]
    exact h.free level priority id' hmem
  nodup := h.nodup
  queued id' hid' := by
    have hne : id' ≠ id := fun heq => by
      rw [heq] at hid'
      exact absurd (hid.symm.trans hid') (by decide)
    rw [modify_blocks_of_ne hne]
    exact h.queued id' hid'
  priority_lt id' := by
    by_cases heq : id' = id
    · subst heq
      rw [modify_blocks_self]
      exact hf
    · rw [modify_blocks_of_ne heq]
      exact h.priority_lt id'
  counted := h.counted

lemma Intact.detach (h : pool.Intact) (id : ℕ) : (pool.detach id).Intact := by
  have hsame : ∀ id', ((pool.detach id).blocks id').level = (pool.blocks id').level
      ∧ ((pool.detach id).blocks id').priority = (pool.blocks id').priority
      ∧ ((pool.detach id).blocks id').refCount = (pool.blocks id').refCount := by
    intro id'
    rw [Pool.detach]
    by_cases heq : id' = id
    · subst heq
      rw [modify_blocks_self]
      exact ⟨rfl, rfl, rfl⟩
    · rw [modify_blocks_of_ne heq]
      exact ⟨rfl, rfl, rfl⟩
  refine ⟨fun level priority id' hmem => ?_, h.nodup, fun id' hid' => ?_, fun id' => ?_, h.counted⟩
  · rw [(hsame id').1, (hsame id').2.1, (hsame id').2.2]
    exact h.free level priority id' hmem
  · rw [(hsame id').1, (hsame id').2.1]
    exact h.queued id' hid'
  · rw [(hsame id').2.1]
    exact h.priority_lt id'

/-- **A block without references goes to its queue.** -/
lemma Intact.releaseBlock (h : pool.Intact) (hid : pool.queued id = false)
    (href : (pool.blocks id).refCount = 0) (toFront : Bool) :
    (pool.releaseBlock id toFront).Intact := by
  set level := (pool.blocks id).level with hlevel
  set priority := (pool.blocks id).priority with hpriority
  set queue := if toFront then id :: pool.queues level priority
      else pool.queues level priority ++ [id]
    with hqueue
  have hmem : ∀ id', id' ∈ queue ↔ id' = id ∨ id' ∈ pool.queues level priority := by
    intro id'
    rw [hqueue]
    cases toFront with
    | true => simp
    | false => simp [or_comm]
  have hlen : queue.length = (pool.queues level priority).length + 1 := by
    rw [hqueue]
    cases toFront with
    | true | false => simp
  have hqueues : ∀ level' priority', (pool.releaseBlock id toFront).queues level' priority'
      = if level' = level ∧ priority' = priority then queue else pool.queues level' priority' :=
    fun level' priority' => setQueue_queues level level' priority priority' queue
  refine ⟨fun level' priority' id' hin => ?_, fun level' priority' => ?_, fun id' hid' => ?_,
    h.priority_lt, fun level' => ?_⟩
  · rw [hqueues] at hin
    show (pool.blocks id').level = level' ∧ _ ∧ _ ∧ update pool.queued id true id' = true
    by_cases heq : id' = id
    · subst heq
      split_ifs at hin with hboth
      · exact ⟨hboth.1.symm, hboth.2.symm, href, update_self ..⟩
      · exact absurd hin (h.not_mem hid _ _)
    · rw [update_of_ne heq]
      split_ifs at hin with hboth
      · obtain ⟨rfl, rfl⟩ := hboth
        exact h.free _ _ id' (((hmem id').mp hin).resolve_left heq)
      · exact h.free level' priority' id' hin
  · rw [hqueues]
    split_ifs with hboth
    · have hperm : queue.Perm (id :: pool.queues level priority) := by
        rw [hqueue]
        cases toFront with
        | true => exact List.Perm.refl _
        | false => exact List.perm_append_singleton id _
      rw [hperm.nodup_iff, List.nodup_cons]
      exact ⟨h.not_mem hid level priority, h.nodup level priority⟩
    · exact h.nodup level' priority'
  · rw [hqueues]
    show id' ∈ if (pool.blocks id').level = level ∧ (pool.blocks id').priority = priority then queue
      else pool.queues (pool.blocks id').level (pool.blocks id').priority
    by_cases heq : id' = id
    · subst heq
      rw [if_pos ⟨rfl, rfl⟩]
      exact (hmem id').mpr (.inl rfl)
    · have hold : pool.queued id' = true := by
        have hid'' : update pool.queued id true id' = true := hid'
        rwa [update_of_ne heq] at hid''
      have hin := h.queued id' hold
      split_ifs with hboth
      · rw [hboth.1, hboth.2] at hin
        exact (hmem id').mpr (.inr hin)
      · exact hin
  · have hsum := queueLengths_setQueue pool level (h.priority_lt id) queue level'
    rw [← hpriority, hlen] at hsum
    show update pool.numFree level (pool.numFree level + 1) level'
      = ((pool.setQueue level priority queue).queueLengths level' : ℕ)
    rw [hsum, ← h.counted level']
    by_cases hl : level' = level
    · subst hl
      rw [update_self, if_pos rfl]
      push_cast
      ring
    · rw [update_of_ne hl, if_neg hl, add_zero]

/-- **A block can be taken out of its queue**, and the others are where they were. -/
lemma Intact.unqueue (h : pool.Intact) (id : ℕ) :
    ∃ pool', pool.unqueue id = some pool' ∧ pool'.Intact ∧ pool'.blocks = pool.blocks
      ∧ pool'.queued = update pool.queued id false := by
  rw [Pool.unqueue]
  cases hid : pool.queued id with
  | false =>
    rw [if_neg (by decide)]
    refine ⟨pool, rfl, h, rfl, ?_⟩
    rw [← hid, update_eq_self]
  | true =>
    have hin := h.queued id hid
    rw [if_pos rfl, if_pos hin]
    set level := (pool.blocks id).level
    set pri := (pool.blocks id).priority with hpri
    set queue := (pool.queues level pri).erase id with hqueue
    have hmem : ∀ level' priority' id',
        id' ∈ (pool.setQueue level pri queue).queues level' priority'
        ↔ id' ≠ id ∧ id' ∈ pool.queues level' priority' := by
      intro level' priority' id'
      rw [setQueue_queues]
      split_ifs with hboth
      · rw [hboth.1, hboth.2, hqueue, (h.nodup level pri).mem_erase_iff]
      · refine ⟨fun hid' => ⟨?_, hid'⟩, fun hid' => hid'.2⟩
        rintro rfl
        obtain ⟨hl, hp, -⟩ := h.free _ _ _ hid'
        exact hboth ⟨hl.symm, hp.symm⟩
    refine ⟨_, rfl,
      ⟨fun level' priority' id' hid' => ?_, fun level' priority' => ?_, fun id' hid' => ?_,
        h.priority_lt, fun level' => ?_⟩, rfl, rfl⟩
    · obtain ⟨hne, hold⟩ := (hmem level' priority' id').mp hid'
      show _ ∧ _ ∧ _ ∧ update pool.queued id false id' = true
      rw [update_of_ne hne]
      exact h.free level' priority' id' hold
    · show ((pool.setQueue level pri queue).queues level' priority').Nodup
      rw [setQueue_queues]
      split_ifs
      · exact (h.nodup level pri).erase id
      · exact h.nodup level' priority'
    · have hid' : update pool.queued id false id' = true := hid'
      have hne : id' ≠ id := by
        rintro rfl
        rw [update_self] at hid'
        cases hid'
      rw [update_of_ne hne] at hid'
      exact (hmem _ _ id').mpr ⟨hne, h.queued id' hid'⟩
    · have hsum := queueLengths_setQueue pool level (h.priority_lt id) queue level'
      show update pool.numFree level (pool.numFree level - 1) level'
        = ((pool.setQueue level pri queue).queueLengths level' : ℕ)
      rw [← hpri] at hsum
      rw [hsum, ← h.counted level', hqueue, List.length_erase_of_mem hin]
      have hpos : 0 < (pool.queues level pri).length := List.length_pos_of_mem hin
      by_cases hl : level' = level
      · subst hl
        rw [update_self, if_pos rfl]
        omega
      · rw [update_of_ne hl, if_neg hl, add_zero]

/-- What claiming a block leaves. -/
structure Claimed (pool : Pool) (id : ℕ) (pool' : Pool) : Prop where
  intact : pool'.Intact
  queued : pool'.queued = update pool.queued id false
  others : ∀ id', id' ≠ id → pool'.blocks id' = pool.blocks id'
  refCount : (pool'.blocks id).refCount = (pool.blocks id).refCount
  level : (pool'.blocks id).level = (pool.blocks id).level

/-- **A block can be claimed**, whether it is free or not. -/
lemma Intact.claimBlock (h : pool.Intact) (id : ℕ) {priority : Option ℕ}
    (hpriority : ∀ p, priority = some p → p < kNumPriorities) :
    ∃ pool', pool.claimBlock id priority = some pool' ∧ Claimed pool id pool' := by
  obtain ⟨pool₁, hun, hok, hblocks, hqueued⟩ := h.unqueue id
  have hlt : (priority.getD (pool.blocks id).priority) < kNumPriorities := by
    cases priority with
    | none => exact h.priority_lt id
    | some p => exact hpriority p rfl
  have hnot : pool₁.queued id = false := by rw [hqueued, update_self]
  refine ⟨_, by
    rw [Pool.claimBlock, hun]; rfl, hok.modify hnot (by rw [hblocks]; exact hlt), hqueued,
      fun id' hne => ?_, ?_, ?_⟩
  · rw [modify_blocks_of_ne hne, hblocks]
  · rw [modify_blocks_self, hblocks]
  · rw [modify_blocks_self, hblocks]

lemma Intact.claimed (h : pool.Intact) {priority : Option ℕ}
    (hpriority : ∀ p, priority = some p → p < kNumPriorities)
    (hclaim : pool.claimBlock id priority = some pool') : Claimed pool id pool' := by
  obtain ⟨pool₁, heq, hclaimed⟩ := h.claimBlock id hpriority
  exact some.inj (heq.symm.trans hclaim) ▸ hclaimed

lemma getFreeBlock_mem {level : CacheLevel} (h : pool.getFreeBlock level = some (id, priority)) :
    id ∈ pool.queues level priority := by
  obtain ⟨p, -, hp⟩ := List.exists_of_findSome?_eq_some h
  obtain ⟨id', hhead, heq⟩ := map_eq_some_iff.mp hp
  obtain ⟨rfl, rfl⟩ := Prod.mk.inj heq
  exact List.mem_of_mem_head? hhead

/-- What `takeFree` leaves: the block was free and is not any more, and no block lost or got
references; the other blocks are free if they were. -/
structure Took (pool : Pool) (id : ℕ) (pool' : Pool) : Prop where
  intact : pool'.Intact
  wasFree : pool.queued id = true
  taken : pool'.queued = update pool.queued id false
  refCount : ∀ id', (pool'.blocks id').refCount = (pool.blocks id').refCount

/-- Offloading takes a free block of secondary memory, which is in primary memory then. -/
lemma Intact.offload (h : pool.Intact) {free : ℕ}
    (hid : id ∈ pool.queues .primary (pool.blocks id).priority)
    (hoff : pool.offload id = some (free, pool')) : Took pool free pool' := by
  rw [Pool.offload] at hoff
  obtain ⟨⟨free', pri⟩, hget, hoff⟩ := bind_eq_some_iff.mp hoff
  obtain ⟨pool₁, hclaim₁, hoff⟩ := bind_eq_some_iff.mp hoff
  obtain ⟨pool₂, hclaim₂, hoff⟩ := bind_eq_some_iff.mp hoff
  obtain ⟨rfl, rfl⟩ := Prod.mk.inj (some.inj hoff)
  obtain ⟨hlevel, -, href, hqueued⟩ := h.free _ _ free' (getFreeBlock_mem hget)
  obtain ⟨hlevelId, -, hrefId, hqueuedId⟩ := h.free _ _ id hid
  have hne : id ≠ free' := fun heq => by
    rw [heq, hlevel] at hlevelId
    cases hlevelId
  have hnone : ∀ p, (none : Option ℕ) = some p → p < kNumPriorities := fun p hp => by cases hp
  have hc₁ := h.claimed hnone hclaim₁
  have hc₂ := hc₁.intact.claimed hnone hclaim₂
  have hq₂ : ∀ id', pool₂.queued id' = (if id' = free' then false else if id' = id then false
      else pool.queued id') := fun id' => by
    rw [hc₂.queued, hc₁.queued, update_apply, update_apply]
  have href₂ : ∀ id', (pool₂.blocks id').refCount = (pool.blocks id').refCount := by
    intro id'
    have h₂ : (pool₂.blocks id').refCount = (pool₁.blocks id').refCount := by
      by_cases heq : id' = free'
      · exact heq ▸ hc₂.refCount
      · rw [hc₂.others id' heq]
    have h₁ : (pool₁.blocks id').refCount = (pool.blocks id').refCount := by
      by_cases heq : id' = id
      · exact heq ▸ hc₁.refCount
      · rw [hc₁.others id' heq]
    exact h₂.trans h₁
  -- the swap changes two blocks that are in no queue
  have hswap : (pool₂.swapLevels id free').Intact := by
    have hid₂ : pool₂.queued id = false := by rw [hq₂, if_neg hne, if_pos rfl]
    have hfree₂ : pool₂.queued free' = false := by rw [hq₂, if_pos rfl]
    refine (hc₂.intact.modify hid₂ (hc₂.intact.priority_lt id)).modify hfree₂ ?_
    rw [modify_blocks_of_ne hne.symm]
    exact hc₂.intact.priority_lt free'
  have hrefSwap : ∀ id', ((pool₂.swapLevels id free').blocks id').refCount
      = (pool.blocks id').refCount := by
    intro id'
    rw [← href₂ id', Pool.swapLevels]
    by_cases heq : id' = free'
    · rw [heq, modify_blocks_self, modify_blocks_of_ne hne.symm]
    · rw [modify_blocks_of_ne heq]
      by_cases heq' : id' = id
      · rw [heq', modify_blocks_self]
      · rw [modify_blocks_of_ne heq']
  refine ⟨hswap.releaseBlock ?_ ((hrefSwap id).trans hrefId) false, hqueued, ?_, hrefSwap⟩
  · show pool₂.queued id = false
    rw [hq₂, if_neg hne, if_pos rfl]
  · show update pool₂.queued id true = update pool.queued free' false
    funext id'
    rw [update_apply, update_apply, hq₂]
    by_cases heq : id' = id
    · rw [if_pos heq, if_neg (heq ▸ hne), heq, hqueuedId]
    · rw [if_neg heq, if_neg heq]

/-- What is evicted was free, and is the only block that may have left its queue. -/
lemma Intact.evict (h : pool.Intact) (hevict : pool.evict = some (id, pool')) :
    pool'.Intact ∧ pool.queued id = true
    ∧ update pool'.queued id false = update pool.queued id false
    ∧ ∀ id', (pool'.blocks id').refCount = (pool.blocks id').refCount := by
  rw [Pool.evict] at hevict
  cases hget : pool.getFreeBlock .primary with
  | none =>
    rw [hget] at hevict
    cases hevict
  | some r =>
    obtain ⟨id₀, pri⟩ := r
    rw [hget] at hevict
    dsimp only at hevict
    have hin := getFreeBlock_mem hget
    obtain ⟨-, hpri, -, hqueued⟩ := h.free _ _ id₀ hin
    split_ifs at hevict with hoffload
    · obtain ⟨hok, hwas, htaken, href⟩ := h.offload (by rw [hpri]; exact hin) hevict
      refine ⟨hok, hwas, ?_, href⟩
      rw [htaken, update_idem]
    · obtain ⟨rfl, rfl⟩ := Prod.mk.inj (some.inj hevict)
      exact ⟨h, hqueued, rfl, fun _ => rfl⟩

/-- **The block that is taken was free.** -/
lemma Intact.takeFree (h : pool.Intact) (hpriority : priority < kNumPriorities)
    (htake : pool.takeFree priority = some (id, pool')) : Took pool id pool' := by
  rw [Pool.takeFree] at htake
  cases hevict : pool.evict with
  | none =>
    rw [hevict] at htake
    cases htake
  | some r =>
    obtain ⟨id₁, pool₁⟩ := r
    rw [hevict] at htake
    obtain ⟨pool₂, hclaim, heq⟩ := map_eq_some_iff.mp htake
    obtain ⟨rfl, rfl⟩ := Prod.mk.inj heq
    obtain ⟨hok, hwas, hqueued, href⟩ := h.evict hevict
    have hclaimed := (hok.detach id₁).claimed (fun p hp => some.inj hp ▸ hpriority) hclaim
    refine ⟨hclaimed.intact, hwas, hclaimed.queued.trans hqueued, fun id' => ?_⟩
    rw [← href id']
    by_cases heq : id' = id₁
    · rw [heq, hclaimed.refCount, Pool.detach, modify_blocks_self]
    · rw [hclaimed.others id' heq, Pool.detach, modify_blocks_of_ne heq]

end Pool

end TrtLlm.KvCache
