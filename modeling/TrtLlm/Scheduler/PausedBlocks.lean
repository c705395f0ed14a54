import TrtLlm.Util.RefCount
import TrtLlm.Scheduler.CapacityScheduler

/-!
The simulated release of blocks by which `MaxUtilizationScheduler` pauses requests.

Within one window the loop of `schedulingReleaseBlocks` drops references of `RefCounts`
(`foldlM_schedulingReleaseBlock`), and removing a sequence does so in every window
(`removeSequence_counts`, `exists_removeSequence`).  So after any pauses the free blocks of a
window are those free before and those whose references all belong to paused requests
(`free_of_paused`).
-/

namespace TrtLlm.CapacityScheduler

open RefCounts List Function Option

variable {Key : Type}

/-- The counters of one window. -/
def SchedulingBlocks.counts (s : SchedulingBlocks) (w : WindowSize) : RefCounts BlockId where
  refs := s.mSchedulingRefCount w
  free := s.mSchedulingNumFreeBlocks w

/-- The counters with those of one window replaced. -/
def SchedulingBlocks.setCounts (s : SchedulingBlocks) (w : WindowSize) (c : RefCounts BlockId) :
    SchedulingBlocks where
  mSchedulingNumFreeBlocks := update s.mSchedulingNumFreeBlocks w c.free
  mSchedulingRefCount := update s.mSchedulingRefCount w c.refs

section Counts

variable (s : SchedulingBlocks) (w : WindowSize)

@[simp] lemma counts_setCounts (c : RefCounts BlockId) : (s.setCounts w c).counts w = c := by
  simp [SchedulingBlocks.counts, SchedulingBlocks.setCounts]

@[simp] lemma counts_setCounts_of_ne {w' : WindowSize} (h : w' ≠ w) (c : RefCounts BlockId) :
    (s.setCounts w c).counts w' = s.counts w' := by
  simp [SchedulingBlocks.counts, SchedulingBlocks.setCounts, h]

@[simp] lemma setCounts_counts : s.setCounts w (s.counts w) = s := by
  simp [SchedulingBlocks.counts, SchedulingBlocks.setCounts]

@[simp] lemma setCounts_setCounts (c c' : RefCounts BlockId) :
    (s.setCounts w c).setCounts w c' = s.setCounts w c' := by
  simp [SchedulingBlocks.setCounts]

end Counts

/-- The blocks of a sequence that are not placeholders. -/
def realBlocks (kv : KVCacheManager Key) (w : WindowSize) (blocks : List BlockId) : List BlockId :=
  blocks.filter fun b => !kv.isPlaceholder w b

/-- The blocks that a request holds in a window, with repetitions. -/
def heldBlocks (kv : KVCacheManager Key) (w : WindowSize) (req : LlmRequest) : List BlockId :=
  realBlocks kv w ((kv.allocatedBlocks w req.mRequestId).getD [])

variable {kv : KVCacheManager Key} {w : WindowSize} {s s' : SchedulingBlocks} {req : LlmRequest}

/-- Releasing one block drops one reference. -/
lemma schedulingReleaseBlock_eq (b : BlockId) : schedulingReleaseBlock kv w s b
    = (dropRefs (realBlocks kv w [b]) (s.counts w)).map (s.setCounts w) := by
  by_cases hp : kv.isPlaceholder w b
  · simp [schedulingReleaseBlock, realBlocks, hp, dropRefs]
  · by_cases hz : s.mSchedulingRefCount w b = 0
    · simp [schedulingReleaseBlock, realBlocks, hp, dropRefs, dropRef, hz, SchedulingBlocks.counts]
    · simp only [schedulingReleaseBlock, hp, Bool.false_eq_true, if_false, hz, realBlocks,
        filter_cons, Bool.not_false, if_true, filter_nil, dropRefs, foldlM_cons,
        foldlM_nil, dropRef, SchedulingBlocks.counts, bind_pure, map_some]
      split_ifs <;> simp [SchedulingBlocks.setCounts]

/-- **The loop of `schedulingReleaseBlocks` drops the references of a sequence.** -/
lemma foldlM_schedulingReleaseBlock (blocks : List BlockId) :
    blocks.foldlM (schedulingReleaseBlock kv w) s
      = (dropRefs (realBlocks kv w blocks) (s.counts w)).map (s.setCounts w) := by
  induction blocks generalizing s with
  | nil => simp [realBlocks, dropRefs]
  | cons b blocks ih =>
    have hsplit : realBlocks kv w (b :: blocks)
        = realBlocks kv w [b] ++ realBlocks kv w blocks := by
      rw [realBlocks, realBlocks, realBlocks, ← filter_append, singleton_append]
    rw [foldlM_cons, schedulingReleaseBlock_eq, hsplit, dropRefs_append]
    cases dropRefs (realBlocks kv w [b]) (s.counts w) with
    | none => rfl
    | some c =>
      simp only [map_some, bind_eq_bind, bind_some]
      rw [ih, counts_setCounts]
      simp only [funext fun c' => setCounts_setCounts s w c c']

/-- Removing a sequence drops its references in every window. -/
lemma removeSequence_counts (h : schedulingRemoveSequence kv req.mRequestId s = some s') :
    ∀ w ∈ kv.windowSizes,
      dropRefs (heldBlocks kv w req) (s.counts w) = some (s'.counts w) := by
  suffices hws : ∀ ws : List WindowSize, ws.Nodup → ∀ s,
      ws.foldlM (schedulingReleaseBlocks kv req.mRequestId) s = some s' →
        (∀ w ∈ ws, dropRefs (heldBlocks kv w req) (s.counts w) = some (s'.counts w))
          ∧ ∀ w ∉ ws, s'.counts w = s.counts w from
    (hws _ kv.windowSizes_nodup s h).1
  intro ws
  induction ws with
  | nil =>
    intro _ s hs
    simp only [foldlM_nil, Option.pure_def, some.injEq] at hs
    simp [hs]
  | cons v ws ih =>
    intro hnd s hs
    rw [nodup_cons] at hnd
    rw [foldlM_cons, bind_eq_bind, bind_eq_some_iff] at hs
    obtain ⟨s₁, hv, hs⟩ := hs
    obtain ⟨hin, hout⟩ := ih hnd.2 s₁ hs
    -- the head window is released first, and no later one touches it
    obtain ⟨c, hc, rfl⟩ : ∃ c, dropRefs (heldBlocks kv v req) (s.counts v) = some c
        ∧ s.setCounts v c = s₁ := by
      simp only [schedulingReleaseBlocks] at hv
      split at hv
      · rename_i blocks hblocks
        rw [foldlM_schedulingReleaseBlock, map_eq_some_iff] at hv
        simpa [heldBlocks, hblocks] using hv
      · cases hv
    refine ⟨fun w hw => ?_, fun w hw => ?_⟩
    · by_cases hwv : w = v
      · subst hwv
        rw [hout w hnd.1, counts_setCounts, hc]
      · have hw' : w ∈ ws := (mem_cons.mp hw).resolve_left hwv
        have hdrop := hin w hw'
        rwa [counts_setCounts_of_ne _ _ hwv] at hdrop
    · rw [mem_cons, not_or] at hw
      rw [hout w hw.2, counts_setCounts_of_ne _ _ hw.1]

/-- A sequence whose references exist in every window can be removed. -/
lemma exists_removeSequence
    (hseq : ∀ w ∈ kv.windowSizes, (kv.allocatedBlocks w req.mRequestId).isSome)
    (h : ∀ w ∈ kv.windowSizes, ∀ b, (heldBlocks kv w req).count b ≤ (s.counts w).refs b) :
    ∃ s', schedulingRemoveSequence kv req.mRequestId s = some s' := by
  suffices hws : ∀ ws : List WindowSize, ws.Nodup → ws ⊆ kv.windowSizes → ∀ s,
      (∀ w ∈ ws, ∀ b, (heldBlocks kv w req).count b ≤ (s.counts w).refs b) →
        ∃ s', ws.foldlM (schedulingReleaseBlocks kv req.mRequestId) s = some s' from
    hws _ kv.windowSizes_nodup (Subset.refl _) s h
  intro ws
  induction ws with
  | nil => exact fun _ _ s _ => ⟨s, rfl⟩
  | cons v ws ih =>
    intro hnd hsub s hs
    rw [nodup_cons] at hnd
    obtain ⟨hv, hsub'⟩ := cons_subset.mp hsub
    obtain ⟨blocks, hblocks⟩ := isSome_iff_exists.mp (hseq v hv)
    have hdrop := dropRefs_eq_some (hs v mem_cons_self)
    have hstep : schedulingReleaseBlocks kv req.mRequestId s v
        = some (s.setCounts v ((s.counts v).dropped (heldBlocks kv v req))) := by
      simp only [schedulingReleaseBlocks, hblocks, foldlM_schedulingReleaseBlock]
      rw [heldBlocks, hblocks, getD_some] at hdrop ⊢
      rw [hdrop, map_some]
    rw [foldlM_cons, hstep]
    refine ih hnd.2 hsub' _ fun w hw b => ?_
    have hwv : w ≠ v := fun h => hnd.1 (h ▸ hw)
    rw [counts_setCounts_of_ne _ _ hwv]
    exact hs w (mem_cons_of_mem _ hw) b

/-! ### Paused requests -/

/-- The blocks of a window whose references all belong to the given requests. -/
def blocksOwnedBy (kv : KVCacheManager Key) (w : WindowSize) (reqs : List LlmRequest) :
    Finset BlockId :=
  exhausted (kv.refCount w) (reqs.flatMap (heldBlocks kv w))

/-- The counters of every window are those at the start without the references of the paused
requests. -/
def Released (kv : KVCacheManager Key) (paused : List LlmRequest) (s : SchedulingBlocks) : Prop :=
  ∀ w ∈ kv.windowSizes,
    dropRefs (paused.flatMap (heldBlocks kv w)) ((startScheduling kv).counts w) = some (s.counts w)

lemma released_start : Released kv [] (startScheduling kv) := fun _ _ => rfl

lemma Released.remove {paused : List LlmRequest} (h : Released kv paused s)
    (hs : schedulingRemoveSequence kv req.mRequestId s = some s') :
    Released kv (paused ++ [req]) s' := by
  intro w hw
  rw [flatMap_append, flatMap_singleton, dropRefs_append, h w hw]
  exact removeSequence_counts hs w hw

/-- **The free blocks of a window in the simulation**: those free before, and those whose
references all belong to paused requests. -/
lemma Released.free {paused : List LlmRequest} (h : Released kv paused s)
    (hw : w ∈ kv.windowSizes) :
    s.mSchedulingNumFreeBlocks w = kv.numFreeBlocks w + (blocksOwnedBy kv w paused).card := by
  obtain ⟨-, hcounts⟩ := eq_of_dropRefs (h w hw)
  exact congrArg RefCounts.free hcounts

end TrtLlm.CapacityScheduler
