import TrtLlm.KvCacheV2.SlotAllocatorRuns
import TrtLlm.KvCacheV2.EvictionController

/-!
`StorageManager::shrinkPoolGroup` at the last cache level (`storageManager.cpp`).

The pages of the level are numbers; each live page has a slot of its pool group.  A page lives as
long as it is owned: by its eviction queue, by the caller (the persistent pages) or by a list of
the call.  When a page dies, its slot is released, and the blocks of the radix tree that cannot be
reused without it are removed with their pages (`clearStaleBlocksAfterPageUnlink`).

The state is the one after `refreshRetention`; copies between slots succeed.  The pages that were
evicted and relocated are recorded.
-/

namespace TrtLlm

open Function

/-- The exceptions of a shrink. -/
inductive ShrinkError where
  | slot (e : SlotError)
  | evict (e : EvictError)
  | poolGroupMismatch
  | outOfPages
deriving DecidableEq

/-- The radix tree as its pages see it: all of them in the order in which a removal visits them, for
each the blocks from the root to its own, and whether the blocks from its own on need it. -/
structure TreePaths where
  pages : List ℕ
  blockPath : ℕ → List ℕ
  required : ℕ → Bool

/-- The death of one page takes the other's block out of the tree. -/
def TreePaths.removes (t : TreePaths) (x y : ℕ) : Bool :=
  t.required x && (t.blockPath x).isPrefixOf (t.blockPath y)

/-- The pages of the blocks that are removed, among those that are in the tree. -/
def TreePaths.stale (t : TreePaths) (linked : ℕ → Bool) (x : ℕ) : List ℕ :=
  t.pages.filter fun y => linked y && y != x && t.removes x y

/-- The last cache level: the allocator of each pool group, the eviction controller, the slots of
the live pages, which pages are in the tree, and the number of event queries so far. -/
structure LastLevel where
  allocators : ℕ → SlotAllocator
  controller : EvictionController
  slots : ℕ → Option Slot
  linked : ℕ → Bool
  queries : ℕ
  evicted : List ℕ
  relocated : List ℕ

/-- What a call is given: the answers of the event queries, the tree, and the event of the
copies. -/
structure ShrinkEnv where
  ready : ℕ → ℕ → Bool
  tree : TreePaths
  finishEvent : ℕ

abbrev LevelM := EStateM ShrinkError LastLevel

namespace LastLevel

variable (env : ShrinkEnv)

def scheduledForEviction (s : LastLevel) (x : ℕ) : Bool := (s.controller.pages x).nodeRef.isSome

/-! ### The death of a page -/

/-- `releaseSlot`, for the slot of a page if it has one. -/
def releaseSlot (x : ℕ) : LevelM Unit := do
  let s ← get
  match s.slots x with
  | none => pure ()
  | some slot =>
    let g := s.controller.groupOf x
    let released :=
      (s.allocators g).release (env.ready s.queries) (some slot.slotId) slot.readyEvent
    set { s with
      allocators := update s.allocators g released.2
      slots := update s.slots x none
      queries := s.queries + 1 }
    match released.1 with
    | .ok _ => pure ()
    | .error e => throw (.slot e)

/-- `releasePages`, for one page of a removed block: it leaves the tree and its eviction queue, and
dies if nothing else owns it. -/
def releasePage (owned : List ℕ) (y : ℕ) : LevelM Unit := do
  modify fun s => { s with linked := update s.linked y false }
  let s ← get
  if s.scheduledForEviction y then
    set { s with controller := s.controller.remove y }
    if y ∈ owned then pure () else releaseSlot env y
  else pure ()

/-- `unlinkPage` and `clearStaleBlocksAfterPageUnlink`. -/
def unlinkPage (owned : List ℕ) (x : ℕ) : LevelM Unit := do
  let s ← get
  if s.linked x then
    set { s with linked := update s.linked x false }
    (env.tree.stale s.linked x).forM (releasePage env owned)
  else pure ()

/-- The destructor of a page. -/
def destroyPage (owned : List ℕ) (x : ℕ) : LevelM Unit := do
  unlinkPage env owned x
  releaseSlot env x

/-- A list of the call is destroyed from its first page on; a page dies if its queue does not own
it, and neither do the others. -/
def releaseRefs (owned : List ℕ) : List ℕ → LevelM Unit
  | [] => pure ()
  | x :: xs => do
    let s ← get
    if s.scheduledForEviction x ∨ x ∈ xs ∨ x ∈ owned then releaseRefs owned xs
    else
      destroyPage env (xs ++ owned) x
      releaseRefs owned xs

/-! ### Free slots -/

/-- So many pages for one pool group, none for the others. -/
def onlyFor (pgIdx : ℕ) (count : ℕ) : ℕ → ℤ := fun g => if g = pgIdx then count else 0

/-- `evict`, whose pages are dropped. -/
def evictPages (owned : List ℕ) (minNumPages : ℕ → ℤ) : LevelM Unit := do
  let s ← get
  match s.controller.evict minNumPages with
  | (.error e, c) =>
    set { s with controller := c }
    throw (.evict e)
  | (.ok evicted, c) =>
    set { s with controller := c, evicted := s.evicted ++ evicted.flatten }
    releaseRefs env owned evicted.flatten

/-- `forceEvict`. -/
def forceEvict (owned : List ℕ) (pgIdx minNumEvicted : ℕ) : LevelM Unit :=
  evictPages env owned (onlyFor pgIdx minNumEvicted)

/-- `_prepareFreeSlots` for one pool group; no page falls to the level. -/
def prepareFreeSlots (owned : List ℕ) (pgIdx goal : ℕ) : LevelM Unit := do
  let s ← get
  let oldFree := (s.allocators pgIdx).numFreeSlots
  let evictableCount := s.controller.size pgIdx
  if oldFree + evictableCount < goal then throw .outOfPages
  else evictPages env owned (onlyFor pgIdx (min (goal - oldFree) evictableCount))

/-! ### Relocation -/

/-- One page takes its new slot, and its old one is released; a page that was in its queue joins
it again, if it is still in the tree. -/
def exchangeSlot (pgIdx : ℕ) (x : ℕ) (dst : Slot) : LevelM Unit := do
  let s ← get
  let wasScheduled := s.scheduledForEviction x
  let controller := if wasScheduled then s.controller.remove x else s.controller
  match s.slots x with
  | none => throw (.slot .logic)
  | some src =>
    let released :=
      (s.allocators pgIdx).release (env.ready s.queries) (some src.slotId) env.finishEvent
    set { s with
      allocators := update s.allocators pgIdx released.2
      controller := if wasScheduled ∧ s.linked x then controller.scheduleForEviction x false
        else controller
      slots := update s.slots x (some ⟨dst.slotId, env.finishEvent⟩)
      queries := s.queries + 1
      relocated := s.relocated ++ [x] }
    match released.1 with
    | .ok _ => pure ()
    | .error e => throw (.slot e)

/-- The loop of `_batchedMigrate` over pages and new slots. -/
def exchangeSlots (pgIdx : ℕ) : List (ℕ × Slot) → LevelM Unit
  | [] => pure ()
  | (x, dst) :: rest => do
    exchangeSlot env pgIdx x dst
    exchangeSlots pgIdx rest

/-- `_batchedMigrate` within a pool group. -/
def batchedMigrate (pgIdx : ℕ) (srcPages : List ℕ) : LevelM Unit := do
  let s ← get
  let allocator := s.allocators pgIdx
  if allocator.numFreeSlots < srcPages.length then throw .outOfPages
  else
    match allocator.allocateMultiple (fun turn => env.ready (s.queries + turn)) srcPages.length with
    | (.error e, a) =>
      set { s with allocators := update s.allocators pgIdx a }
      throw (.slot e)
    | (.ok dstSlots, a) =>
      set { s with
        allocators := update s.allocators pgIdx a
        queries := s.queries + srcPages.length }
      exchangeSlots env pgIdx (srcPages.zip dstSlots)

/-! ### The shrink -/

/-- The page is in a slot that the shrink removes. -/
def overflows (s : LastLevel) (newNumSlots : ℕ) (x : ℕ) : Bool :=
  match s.slots x with
  | none => false
  | some slot => newNumSlots ≤ slot.slotId

/-- The scheduled pages to relocate, each with its place in the eviction order, from place `idx`
on. -/
def overflowSlots (s : LastLevel) (newNumSlots : ℕ) : ℕ → List ℕ → List (ℕ × ℕ)
  | _, [] => []
  | idx, x :: order =>
    if s.overflows newNumSlots x then (idx, x) :: overflowSlots s newNumSlots (idx + 1) order
    else overflowSlots s newNumSlots (idx + 1) order

/-- The loop that finds how many pages to evict: that number, and the pages left to relocate. -/
def minNumEvicted (newNumSlots numOverflowPersistent numFree : ℕ) :
    List (ℕ × ℕ) → (numEvicted numEvictedOverflow : ℕ) → ℕ × List (ℕ × ℕ)
  | [], numEvicted, _ => (numEvicted, [])
  | (idx, x) :: rest, numEvicted, numEvictedOverflow =>
    if min (newNumSlots : ℤ) (idx + numFree - numEvictedOverflow)
        < ((rest.length + 1 : ℕ) : ℤ) + numOverflowPersistent then
      minNumEvicted newNumSlots numOverflowPersistent numFree rest (idx + 1)
        (numEvictedOverflow + 1)
    else (numEvicted, (idx, x) :: rest)

def finishShrink (pgIdx : ℕ) : LevelM Unit := do
  let s ← get
  let finished := (s.allocators pgIdx).finishShrink (env.ready s.queries)
  set { s with
    allocators := update s.allocators pgIdx finished.2
    queries := s.queries + 1 }
  match finished.1 with
  | .ok _ => pure ()
  | .error e => throw (.slot e)

def prepareForShrink (pgIdx newNumSlots : ℕ) : LevelM Unit :=
  modify fun s => { s with
    allocators := update s.allocators pgIdx
      ((s.allocators pgIdx).prepareForShrink newNumSlots) }

variable (pgIdx newNumSlots : ℕ) (persistentPages : List ℕ)

/-- The part of `shrinkPoolGroup` after the allocator was marked for the shrink. -/
def evictAndRelocate (overflowing : List (ℕ × ℕ)) (overflowPersistent : List ℕ) : LevelM Unit := do
  let s ← get
  let plan := minNumEvicted newNumSlots overflowPersistent.length (s.allocators pgIdx).numFreeSlots
    overflowing 0 0
  let kept := plan.2.map Prod.snd
  let owned := kept ++ persistentPages
  forceEvict env owned pgIdx plan.1
  let overflowPages := kept ++ overflowPersistent
  prepareFreeSlots env owned pgIdx overflowPages.length
  batchedMigrate env pgIdx overflowPages
  finishShrink env pgIdx
  releaseRefs env persistentPages kept

/-- `shrinkPoolGroup`. -/
def shrinkPoolGroup : LevelM Unit := do
  let s ← get
  if ¬ persistentPages.all (fun x => s.controller.groupOf x = pgIdx) then throw .poolGroupMismatch
  else if (s.allocators pgIdx).mNumActiveSlots ≤ newNumSlots then
    prepareForShrink pgIdx newNumSlots
    finishShrink env pgIdx
  else
    let overflowing := s.overflowSlots newNumSlots 0 (s.controller.order pgIdx)
    let overflowPersistent := persistentPages.filter (s.overflows newNumSlots)
    if newNumSlots < overflowPersistent.length then throw .outOfPages
    else
      prepareForShrink pgIdx newNumSlots
      evictAndRelocate env pgIdx newNumSlots persistentPages overflowing overflowPersistent

end LastLevel

end TrtLlm
