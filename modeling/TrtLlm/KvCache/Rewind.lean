import TrtLlm.KvCache.BlockReservation
import TrtLlm.KvCache.EvictionPolicy

/-!
`addToken`, `removeToken` and `rewindKVCache` of `KVCacheManager`, for a sequence of one beam over
any number of attention windows.

A token is added with a block if the tokens before it fill their blocks, whatever the window; it is
removed with a block if the tokens that are left do so when counted modulo the window.

* `Holds.allocateBlock`, `Holds.releaseLastBlock`: the blocks that were added, and what became of
  them;
* `rewind_undoes_iff`: **rewinding undoes adding** if and only if the two conditions agree for every
  number of tokens in between;
* `rewind_keeps_block`: a window that is no multiple of the block size.
-/

namespace TrtLlm.KvCache

open List Function Option Nat

/-- A window of the sequence: its blocks, `mAllocatedBlocksPerSeq` and `getCacheBlockIds` of the
sequence (`none` is a placeholder), and `getNumFrontBlocksRemoved`. -/
structure Window where
  mWindowSize : ℕ
  mIsSWA : Bool
  pool : Pool
  allocatedBlocks : List (Option ℕ)
  cacheBlockIds : List (Option ℕ)
  numFrontBlocksRemoved : ℕ

/-- `GenerationRequest` with its windows; `decodePriority` is its `getDecodeRetentionPriority`. -/
structure WindowedSequence where
  mNumTokens : ℕ
  decodePriority : ℕ
  windows : List Window

namespace Window

/-- `incRefCount` and `decRefCount` of a block. -/
def setRefCount (pool : Pool) (id refCount : ℕ) : Pool :=
  pool.modify id fun b => { b with refCount := refCount }

/-- A reference is given up, and a block without references is released; `none` for a block that has
no references. -/
def dropRef (pool : Pool) (id : ℕ) (toFront : Bool) : Option Pool :=
  match (pool.blocks id).refCount with
  | 0 => none
  | refCount + 1 =>
    let pool := setRefCount pool id refCount
    some (if refCount = 0 then pool.releaseBlock id toFront else pool)

/-- `detachFrontBlock`. -/
def detachFrontBlock (w : Window) : Option Window :=
  match w.allocatedBlocks[w.numFrontBlocksRemoved]? with
  | some (some id) => (dropRef w.pool id false).map fun pool => { w with
      pool := pool
      allocatedBlocks := w.allocatedBlocks.set w.numFrontBlocksRemoved none
      numFrontBlocksRemoved := w.numFrontBlocksRemoved + 1 }
  | _ => none

/-- A block is out of the window. -/
def slides (tokensPerBlock numTokens : ℕ) (w : Window) : Bool :=
  w.mIsSWA && decide (w.mWindowSize + tokensPerBlock
    ≤ numTokens - w.numFrontBlocksRemoved * tokensPerBlock)

/-- The loop of `adjustBlocksIfNeeded`: every round moves the front by a block, so there are at most
as many rounds as tokens. -/
def detachFrontBlocks (tokensPerBlock numTokens : ℕ) : ℕ → Window → Option Window
  | 0, w => some w
  | rounds + 1, w =>
    if w.slides tokensPerBlock numTokens then
      w.detachFrontBlock.bind (detachFrontBlocks tokensPerBlock numTokens rounds)
    else some w

/-- `allocateBlock` with `addBlockToBeam`, for one beam. -/
def allocateBlock (priority : ℕ) (w : Window) : Option Window :=
  if w.pool.numFree .primary < 1 then none
  else
    match w.pool.takeFree priority with
    | none => none
    | some (id, pool) => some { w with
        pool := setRefCount pool id ((pool.blocks id).refCount + 1)
        allocatedBlocks := w.allocatedBlocks ++ [some id]
        cacheBlockIds := w.cacheBlockIds ++ [some id] }

/-- `adjustBlocksIfNeeded`. -/
def adjustBlocksIfNeeded (tokensPerBlock priority numTokens : ℕ) (w : Window) : Option Window :=
  match detachFrontBlocks tokensPerBlock numTokens (numTokens + 1) w with
  | none => none
  | some w => if (numTokens - 1) % tokensPerBlock = 0 then w.allocateBlock priority else some w

/-- `releaseLastBlock` of an attention window. -/
def releaseLastBlock (w : Window) : Option Window :=
  match w.allocatedBlocks.getLast? with
  | some (some id) => (dropRef w.pool id true).map fun pool => { w with
      pool := pool
      allocatedBlocks := w.allocatedBlocks.dropLast
      cacheBlockIds := w.cacheBlockIds.dropLast }
  | _ => none

/-- What `removeToken` does in a window, when so many tokens are left. -/
def removeToken (tokensPerBlock numTokens : ℕ) (w : Window) : Option Window :=
  if numTokens % w.mWindowSize % tokensPerBlock = 0 then w.releaseLastBlock else some w

end Window

namespace WindowedSequence

/-- `KVCacheManager::addToken`. -/
def addToken (tokensPerBlock : ℕ) (s : WindowedSequence) : Option WindowedSequence :=
  (s.windows.mapM
    (Window.adjustBlocksIfNeeded tokensPerBlock s.decodePriority (s.mNumTokens + 1))).map
    fun windows => { s with mNumTokens := s.mNumTokens + 1, windows := windows }

/-- `KVCacheManager::removeToken`. -/
def removeToken (tokensPerBlock : ℕ) (s : WindowedSequence) : Option WindowedSequence :=
  if s.mNumTokens = 0 then some s
  else (s.windows.mapM (Window.removeToken tokensPerBlock (s.mNumTokens - 1))).map
    fun windows => { s with mNumTokens := s.mNumTokens - 1, windows := windows }

/-- `addToken`, so many times. -/
def addTokens (tokensPerBlock : ℕ) : ℕ → WindowedSequence → Option WindowedSequence
  | 0, s => some s
  | k + 1, s => (addTokens tokensPerBlock k s).bind (addToken tokensPerBlock)

/-- `KVCacheManager::rewindKVCache`. -/
def rewindKVCache (tokensPerBlock : ℕ) : ℕ → WindowedSequence → Option WindowedSequence
  | 0, s => some s
  | k + 1, s => (rewindKVCache tokensPerBlock k s).bind (removeToken tokensPerBlock)

end WindowedSequence

/-! ### One window -/

namespace Window

/-- What a window has for its tokens. -/
structure Ok (tokensPerBlock numTokens : ℕ) (w : Window) : Prop where
  intact : w.pool.Intact
  blocks : w.cacheBlockIds.length = ceilDiv numTokens tokensPerBlock

/-- The window `w₀` with the blocks in `added` on top; the blocks in `given` are free again. -/
structure Holds (w₀ : Window) (added given : List ℕ) (w : Window) : Prop where
  intact : w.pool.Intact
  windowSize : w.mWindowSize = w₀.mWindowSize
  isSWA : w.mIsSWA = w₀.mIsSWA
  removed : w.numFrontBlocksRemoved = w₀.numFrontBlocksRemoved
  ids : w.cacheBlockIds = w₀.cacheBlockIds ++ added.map some
  allocated : w.allocatedBlocks = w₀.allocatedBlocks ++ added.map some
  nodup : added.Nodup
  held : ∀ id ∈ added, (w₀.pool.blocks id).refCount = 0 ∧ (w.pool.blocks id).refCount = 1
    ∧ w.pool.queued id = false
  others : ∀ id, id ∉ added → (w.pool.blocks id).refCount = (w₀.pool.blocks id).refCount
  free : ∀ id ∈ given, w.pool.queued id = true

variable {w₀ w w' : Window} {added given : List ℕ} {tokensPerBlock numTokens priority : ℕ}

lemma holds_self (h : w.pool.Intact) : Holds w [] [] w where
  intact := h
  windowSize := rfl
  isSWA := rfl
  removed := rfl
  ids := by simp
  allocated := by simp
  nodup := nodup_nil
  held id hid := absurd hid not_mem_nil
  others id _ := rfl
  free id hid := absurd hid not_mem_nil

lemma setRefCount_refCount (pool : Pool) (id id' refCount : ℕ) :
    ((setRefCount pool id refCount).blocks id').refCount
      = if id' = id then refCount else (pool.blocks id').refCount := by
  rw [setRefCount]
  split_ifs with h
  · rw [h, Pool.modify_blocks_self]
  · rw [Pool.modify_blocks_of_ne h]

lemma setRefCount_intact {pool : Pool} {id : ℕ} (h : pool.Intact) (hid : pool.queued id = false)
    (refCount : ℕ) : (setRefCount pool id refCount).Intact := by
  rw [setRefCount]
  exact h.modify hid (h.priority_lt id)

/-- **A block is added**: it was free and has one reference. -/
lemma Holds.allocateBlock (h : Holds w₀ added [] w) (hpriority : priority < kNumPriorities)
    (halloc : w.allocateBlock priority = some w') : ∃ id, Holds w₀ (added ++ [id]) [] w' := by
  rw [Window.allocateBlock] at halloc
  split_ifs at halloc with hfree
  cases htake : w.pool.takeFree priority with
  | none =>
    rw [htake] at halloc
    cases halloc
  | some r =>
    obtain ⟨id, pool⟩ := r
    rw [htake] at halloc
    obtain rfl := some.inj halloc
    obtain ⟨hok, hwas, htaken, href⟩ := h.intact.takeFree hpriority htake
    have hnew : id ∉ added := fun hmem => by
      have hqueued := (h.held id hmem).2.2
      rw [hwas] at hqueued
      cases hqueued
    have hzero : (w.pool.blocks id).refCount = 0 :=
      (h.intact.free _ _ id (h.intact.queued id hwas)).2.2.1
    have hout : pool.queued id = false := by rw [htaken, update_self]
    refine ⟨id, setRefCount_intact hok hout _, h.windowSize, h.isSWA, h.removed, ?_, ?_, ?_,
      fun id' hid' => ?_, fun id' hid' => ?_, fun id' hid' => absurd hid' not_mem_nil⟩
    · rw [h.ids, map_append, append_assoc]
      rfl
    · rw [h.allocated, map_append, append_assoc]
      rfl
    · rw [nodup_append]
      refine ⟨h.nodup, nodup_singleton id, fun a ha b hb heq => ?_⟩
      exact hnew (mem_singleton.mp hb ▸ heq ▸ ha)
    · show _ ∧ ((setRefCount pool id _).blocks id').refCount = 1 ∧ pool.queued id' = false
      rw [setRefCount_refCount, htaken, href, href, hzero]
      by_cases heq : id' = id
      · subst heq
        rw [if_pos rfl, update_self]
        exact ⟨(h.others id' hnew).symm.trans hzero, rfl, rfl⟩
      · rw [if_neg heq, update_of_ne heq]
        exact h.held id' ((mem_append.mp hid').resolve_right fun hmem =>
          heq (mem_singleton.mp hmem))
    · rw [mem_append, mem_singleton, not_or] at hid'
      show ((setRefCount pool id _).blocks id').refCount = _
      rw [setRefCount_refCount, if_neg hid'.2, href]
      exact h.others id' hid'.1

/-- **The last block is released**: it is free again. -/
lemma Holds.releaseLastBlock {id : ℕ} (h : Holds w₀ (added ++ [id]) given w) :
    ∃ w', w.releaseLastBlock = some w' ∧ Holds w₀ added (id :: given) w' := by
  obtain ⟨hzero, hone, hout⟩ := h.held id (by simp)
  have hlast : w.allocatedBlocks.getLast? = some (some id) := by
    rw [h.allocated, map_append, ← append_assoc]
    exact getLast?_concat
  have hnew : id ∉ added := fun hmem => by
    have hnodup := h.nodup
    rw [nodup_append] at hnodup
    exact hnodup.2.2 id hmem id (mem_singleton_self id) rfl
  have hdrop : dropRef w.pool id true = some ((setRefCount w.pool id 0).releaseBlock id true) := by
    rw [dropRef, hone]
    rfl
  have href : ∀ id', ((setRefCount w.pool id 0).blocks id').refCount = if id' = id then 0
      else (w.pool.blocks id').refCount := fun id' => setRefCount_refCount w.pool id id' 0
  have hok : (setRefCount w.pool id 0).Intact := setRefCount_intact h.intact hout 0
  refine ⟨_, by rw [Window.releaseLastBlock, hlast]; dsimp only; rw [hdrop]; rfl, ?_⟩
  refine ⟨hok.releaseBlock hout (by rw [href, if_pos rfl]) true, h.windowSize, h.isSWA, h.removed,
    ?_, ?_, ?_, fun id' hid' => ?_, fun id' hid' => ?_, fun id' hid' => ?_⟩
  · show w.cacheBlockIds.dropLast = _
    rw [h.ids, map_append, ← append_assoc]
    exact dropLast_concat
  · show w.allocatedBlocks.dropLast = _
    rw [h.allocated, map_append, ← append_assoc]
    exact dropLast_concat
  · exact (nodup_append.mp h.nodup).1
  · have hne : id' ≠ id := fun heq => hnew (heq ▸ hid')
    show _ ∧ ((setRefCount w.pool id 0).blocks id').refCount = 1
      ∧ update w.pool.queued id true id' = false
    rw [href, if_neg hne, update_of_ne hne]
    exact h.held id' (mem_append_left _ hid')
  · show ((setRefCount w.pool id 0).blocks id').refCount = _
    rw [href]
    split_ifs with heq
    · rw [heq, hzero]
    · exact h.others id' fun hmem => (mem_append.mp hmem).elim hid' fun hs =>
        heq (mem_singleton.mp hs)
  · show update w.pool.queued id true id' = true
    by_cases heq : id' = id
    · rw [heq, update_self]
    · rw [update_of_ne heq]
      exact h.free id' ((mem_cons.mp hid').resolve_left heq)

lemma releaseLastBlock_ids (h : w.releaseLastBlock = some w') :
    w'.mWindowSize = w.mWindowSize ∧ w'.cacheBlockIds.length = w.cacheBlockIds.length - 1 := by
  rw [Window.releaseLastBlock] at h
  split at h
  · obtain ⟨pool, -, rfl⟩ := map_eq_some_iff.mp h
    exact ⟨rfl, length_dropLast⟩
  · cases h

/-- The blocks of a window after a token was removed. -/
lemma removeToken_ids (h : w.removeToken tokensPerBlock numTokens = some w') :
    w'.mWindowSize = w.mWindowSize ∧ w'.cacheBlockIds.length = w.cacheBlockIds.length
      - if numTokens % w.mWindowSize % tokensPerBlock = 0 then 1 else 0 := by
  rw [Window.removeToken] at h
  split_ifs at h with hmod
  · rw [if_pos hmod]
    exact releaseLastBlock_ids h
  · obtain rfl := some.inj h
    rw [if_neg hmod]
    exact ⟨rfl, rfl⟩

/-! ### Tokens -/

/-- The window does not slide until there are so many tokens. -/
def Stays (tokensPerBlock numTokens : ℕ) (w : Window) : Prop :=
  w.mIsSWA = true → numTokens < w.mWindowSize + tokensPerBlock
    + w.numFrontBlocksRemoved * tokensPerBlock

/-- **A token is added to a window.** -/
lemma Holds.adjustBlocksIfNeeded (hT : 0 < tokensPerBlock) (hpriority : priority < kNumPriorities)
    (h : Holds w₀ added [] w) (hstays : Stays tokensPerBlock (numTokens + 1) w₀)
    (hadd : w.adjustBlocksIfNeeded tokensPerBlock priority (numTokens + 1) = some w') :
    ∃ added', Holds w₀ added' [] w'
      ∧ added'.length = added.length + if numTokens % tokensPerBlock = 0 then 1 else 0 := by
  have hnot : w.slides tokensPerBlock (numTokens + 1) = false := by
    rw [slides, h.windowSize, h.removed, h.isSWA]
    cases hswa : w₀.mIsSWA with
    | false => rfl
    | true =>
      have hlt := hstays hswa
      rw [Bool.true_and, decide_eq_false_iff_not]
      omega
  rw [Window.adjustBlocksIfNeeded, detachFrontBlocks, hnot] at hadd
  simp only [Bool.false_eq_true, if_false, Nat.add_sub_cancel] at hadd
  split_ifs at hadd with hfull
  · obtain ⟨id, hid⟩ := h.allocateBlock hpriority hadd
    exact ⟨added ++ [id], hid, by rw [if_pos hfull, length_append]; rfl⟩
  · obtain rfl := some.inj hadd
    exact ⟨added, h, by rw [if_neg hfull]; rfl⟩

/-- **A token is removed from a window** that has a block for it. -/
lemma Holds.removeToken (h : Holds w₀ added given w)
    (hadded : numTokens % w₀.mWindowSize % tokensPerBlock = 0 → added ≠ []) :
    ∃ w' added' given', w.removeToken tokensPerBlock numTokens = some w' ∧ Holds w₀ added' given' w'
      ∧ added.length
        = added'.length + (if numTokens % w₀.mWindowSize % tokensPerBlock = 0 then 1 else 0)
      ∧ ∀ id, id ∈ added' ∨ id ∈ given' ↔ id ∈ added ∨ id ∈ given := by
  rw [Window.removeToken, h.windowSize]
  by_cases hmod : numTokens % w₀.mWindowSize % tokensPerBlock = 0
  · obtain ⟨rest, id, rfl⟩ : ∃ rest id, added = rest ++ [id] :=
      ⟨added.dropLast, added.getLast (hadded hmod), (dropLast_append_getLast (hadded hmod)).symm⟩
    obtain ⟨w', hw', hholds⟩ := h.releaseLastBlock
    refine ⟨w', rest, id :: given, ?_, hholds, ?_, fun id' => ?_⟩
    · rw [if_pos hmod]
      exact hw'
    · rw [if_pos hmod, length_append]
      rfl
    · simp only [mem_append, mem_cons, not_mem_nil, or_false]
      tauto
  · refine ⟨w, added, given, ?_, h, ?_, fun id => Iff.rfl⟩
    · rw [if_neg hmod]
    · rw [if_neg hmod, add_zero]

end Window

namespace WindowedSequence

open Window

variable {T k : ℕ} {s s₁ s' : WindowedSequence}

variable {j n : ℕ}

lemma rel_mapM {f : Window → Option Window} {ws ws' : List Window} (h : ws.mapM f = some ws')
    (i : ℕ) : Option.Rel (fun w w' => f w = some w') ws[i]? ws'[i]? := by
  induction ws generalizing ws' i with
  | nil =>
    obtain rfl := some.inj h
    exact Option.Rel.none
  | cons w ws ih =>
    rw [mapM_cons] at h
    obtain ⟨w', hw', h⟩ := bind_eq_some_iff.mp h
    obtain ⟨rest, hrest, h⟩ := bind_eq_some_iff.mp h
    obtain rfl := some.inj h
    cases i with
    | zero => exact Option.Rel.some hw'
    | succ i => exact ih hrest i

lemma exists_mapM {f : Window → Option Window} {ws : List Window}
    (h : ∀ w ∈ ws, ∃ w', f w = some w') : ∃ ws', ws.mapM f = some ws' := by
  induction ws with
  | nil => exact ⟨[], rfl⟩
  | cons w ws ih =>
    obtain ⟨w', hw'⟩ := h w mem_cons_self
    obtain ⟨rest, hrest⟩ := ih fun w hw => h w (mem_cons_of_mem _ hw)
    refine ⟨w' :: rest, ?_⟩
    rw [mapM_cons, hw', hrest]
    rfl

/-- What holds of every window of `s` and the same window of `s'`. -/
def Windowwise (R : Window → Window → Prop) (s s' : WindowedSequence) : Prop :=
  ∀ i : ℕ, Option.Rel R s.windows[i]? s'.windows[i]?

lemma Windowwise.trans {R R' R'' : Window → Window → Prop} {s s' s'' : WindowedSequence}
    (h : Windowwise R s s') (h' : Windowwise R' s' s'')
    (hR : ∀ w ∈ s.windows, ∀ w' w'', R w w' → R' w' w'' → R'' w w'') : Windowwise R'' s s'' := by
  intro i
  have hi := h i
  have hi' := h' i
  generalize s'.windows[i]? = b at hi hi'
  generalize s''.windows[i]? = c at hi' ⊢
  cases hw : s.windows[i]? with
  | none =>
    rw [hw] at hi
    cases hi with
    | none =>
      cases hi' with
      | none => exact Option.Rel.none
  | some w =>
    rw [hw] at hi
    cases hi with
    | some hR₁ =>
      cases hi' with
      | some hR₂ => exact Option.Rel.some (hR w (mem_of_getElem? hw) _ _ hR₁ hR₂)

lemma Windowwise.exists {R : Window → Window → Prop} {s s' : WindowedSequence}
    (h : Windowwise R s s')
    {w' : Window} (hw' : w' ∈ s'.windows) : ∃ w ∈ s.windows, R w w' := by
  obtain ⟨i, hi⟩ := mem_iff_getElem?.mp hw'
  have hrel := h i
  cases hw : s.windows[i]? with
  | none =>
    rw [hw, hi] at hrel
    cases hrel
  | some w =>
    rw [hw, hi] at hrel
    cases hrel with
    | some hR => exact ⟨w, mem_of_getElem? hw, hR⟩

/-- The windows of `s` with the blocks that so many tokens need, none of them given back. -/
def Grown (T numTokens : ℕ) (s s' : WindowedSequence) : Prop :=
  Windowwise (fun w w' => ∃ added, Holds w added [] w'
    ∧ added.length + ceilDiv s.mNumTokens T = ceilDiv numTokens T) s s'

lemma addToken_eq (h : s.addToken T = some s') :
    s'.mNumTokens = s.mNumTokens + 1 ∧ s'.decodePriority = s.decodePriority
    ∧ Windowwise (fun w w' =>
      w.adjustBlocksIfNeeded T s.decodePriority (s.mNumTokens + 1) = some w') s s' := by
  obtain ⟨ws, hws, rfl⟩ := map_eq_some_iff.mp h
  exact ⟨rfl, rfl, rel_mapM hws⟩

/-- **Tokens are added.** -/
lemma grown_addTokens (hT : 0 < T) (hpriority : s.decodePriority < kNumPriorities)
    (hintact : ∀ w ∈ s.windows, w.pool.Intact)
    (hstays : ∀ w ∈ s.windows, Stays T (s.mNumTokens + k) w)
    (h : s.addTokens T k = some s₁) :
    s₁.mNumTokens = s.mNumTokens + k ∧ s₁.decodePriority = s.decodePriority
    ∧ Grown T (s.mNumTokens + k) s s₁ := by
  induction k generalizing s₁ with
  | zero =>
    obtain rfl := some.inj h
    refine ⟨rfl, rfl, ?_⟩
    intro i
    cases hw : s.windows[i]? with
    | none => exact Option.Rel.none
    | some w =>
      exact Option.Rel.some ⟨[], holds_self (hintact w (mem_of_getElem? hw)), Nat.zero_add _⟩
  | succ k ih =>
    rw [addTokens] at h
    obtain ⟨s', hs', hadd⟩ := bind_eq_some_iff.mp h
    have hfewer : ∀ w ∈ s.windows, Stays T (s.mNumTokens + k) w := fun w hw hswa =>
      (lt_succ_self _).trans (hstays w hw hswa)
    obtain ⟨htokens, hprio, hgrown⟩ := ih hfewer hs'
    obtain ⟨htokens₁, hprio₁, hwindows⟩ := addToken_eq hadd
    refine ⟨by rw [htokens₁, htokens]; rfl, hprio₁.trans hprio, hgrown.trans hwindows ?_⟩
    rintro w hw w' w'' ⟨added, hholds, hlen⟩ hstep
    rw [hprio, htokens] at hstep
    obtain ⟨added', hholds', hlen'⟩ := hholds.adjustBlocksIfNeeded hT hpriority (hstays w hw) hstep
    refine ⟨added', hholds', ?_⟩
    rw [← Nat.add_assoc, ceilDiv_succ hT, ← hlen, hlen', Nat.add_right_comm]
    rfl

lemma addTokens_le (hj : j ≤ k) (h : s.addTokens T k = some s₁) :
    ∃ s', s.addTokens T j = some s' := by
  induction k generalizing s₁ with
  | zero => exact ⟨s₁, by rw [le_zero.mp hj]; exact h⟩
  | succ k ih =>
    rcases le_succ_iff.mp hj with hj | rfl
    · rw [addTokens] at h
      obtain ⟨s', hs', -⟩ := bind_eq_some_iff.mp h
      exact ih hj hs'
    · exact ⟨s₁, h⟩

/-! ### Rewinding -/

/-- For so many tokens, the condition under which a token is removed with a block is that under
which it was added with one. -/
def Agrees (T n : ℕ) (w : Window) : Prop := n % w.mWindowSize % T = 0 ↔ n % T = 0

/-- The window `w` has the blocks of `n` tokens on top; the other blocks of `w₁` are free again. -/
def RewoundTo (T numTokens n : ℕ) (w w₁ w' : Window) : Prop :=
  ∃ added₁ added given, Holds w added₁ [] w₁ ∧ Holds w added given w'
    ∧ added.length + ceilDiv numTokens T = ceilDiv n T ∧ ∀ id, id ∈ added ∨ id ∈ given ↔ id ∈ added₁

/-- One token of a window is removed. -/
lemma RewoundTo.removeToken (hT : 0 < T) {numTokens : ℕ} {w w₁ w' : Window}
    (h : RewoundTo T numTokens (n + 1) w w₁ w') (hn : numTokens ≤ n) (hagrees : Agrees T n w) :
    ∃ w'', w'.removeToken T n = some w'' ∧ RewoundTo T numTokens n w w₁ w'' := by
  obtain ⟨added₁, added, given, hholds₁, hholds, hlen, hsame⟩ := h
  have hmono : ceilDiv numTokens T ≤ ceilDiv n T := ceilDiv_mono hn
  rw [ceilDiv_succ hT] at hlen
  have hne : n % w.mWindowSize % T = 0 → added ≠ [] := fun hmod hnil => by
    rw [hnil, length_nil, if_pos (hagrees.mp hmod)] at hlen
    omega
  obtain ⟨w'', added', given', hremove, hholds', hlen', hsame'⟩ := hholds.removeToken hne
  refine ⟨w'', hremove, added₁, added', given', hholds₁, hholds', ?_,
    fun id => (hsame' id).trans (hsame id)⟩
  rw [if_congr hagrees rfl rfl] at hlen'
  omega

/-- Every window is rewound to `n` tokens. -/
def Rewound (T n : ℕ) (s s₁ s' : WindowedSequence) : Prop :=
  ∀ i : ℕ, s.windows[i]? = none ∧ s'.windows[i]? = none
    ∨ ∃ w w₁ w', s.windows[i]? = some w ∧ s₁.windows[i]? = some w₁ ∧ s'.windows[i]? = some w'
      ∧ RewoundTo T s.mNumTokens n w w₁ w'

/-- Before the first token is removed. -/
lemma Grown.rewound (h : Grown T n s s₁) : Rewound T n s s₁ s₁ := by
  intro i
  have hi := h i
  generalize hw₁ : s₁.windows[i]? = b at hi
  cases hw : s.windows[i]? with
  | none =>
    rw [hw] at hi
    cases hi with
    | none => exact .inl ⟨rfl, rfl⟩
  | some w =>
    rw [hw] at hi
    cases hi with
    | some hR =>
      obtain ⟨added, hholds, hlen⟩ := hR
      exact .inr ⟨w, _, _, rfl, rfl, rfl, added, added, [], hholds, hholds, hlen, fun id => by simp⟩

/-- **One token is removed** in every window. -/
lemma Rewound.removeToken (hT : 0 < T) (h : Rewound T (n + 1) s s₁ s') (hn : s.mNumTokens ≤ n)
    (htokens : s'.mNumTokens = n + 1) (hagrees : ∀ w ∈ s.windows, Agrees T n w) :
    ∃ s'', s'.removeToken T = some s'' ∧ s''.mNumTokens = n ∧ Rewound T n s s₁ s'' := by
  have hstep : ∀ w' ∈ s'.windows, ∃ w'', w'.removeToken T n = some w'' := by
    intro w' hw'
    obtain ⟨i, hi⟩ := mem_iff_getElem?.mp hw'
    rcases h i with ⟨-, hnone⟩ | ⟨w, w₁, w'', hw, -, hw'', hR⟩
    · rw [hi] at hnone
      cases hnone
    · obtain rfl := some.inj (hi.symm.trans hw'')
      obtain ⟨w'', hremove, -⟩ := hR.removeToken hT hn (hagrees w (mem_of_getElem? hw))
      exact ⟨w'', hremove⟩
  obtain ⟨ws, hws⟩ := exists_mapM hstep
  refine ⟨{ s' with mNumTokens := n, windows := ws }, ?_, rfl, fun i => ?_⟩
  · rw [WindowedSequence.removeToken, htokens, if_neg (succ_ne_zero n), Nat.add_sub_cancel, hws]
    rfl
  · have hi := rel_mapM hws i
    rcases h i with ⟨hnone, hnone'⟩ | ⟨w, w₁, w', hw, hw₁, hw', hR⟩
    · rw [hnone'] at hi
      generalize ws[i]? = c at hi ⊢
      cases hi with
      | none => exact .inl ⟨hnone, rfl⟩
    · rw [hw'] at hi
      obtain ⟨w'', hremove, hR'⟩ := hR.removeToken hT hn (hagrees w (mem_of_getElem? hw))
      generalize ws[i]? = c at hi ⊢
      cases hi with
      | some heq =>
        obtain rfl := some.inj (hremove.symm.trans heq)
        exact .inr ⟨w, w₁, w'', hw, hw₁, rfl, hR'⟩

/-- **Tokens are removed.** -/
lemma Rewound.rewindKVCache (hT : 0 < T) (h : Grown T (s.mNumTokens + k) s s₁)
    (htokens : s₁.mNumTokens = s.mNumTokens + k)
    (hagrees : ∀ w ∈ s.windows, ∀ n, s.mNumTokens ≤ n → n < s.mNumTokens + k → Agrees T n w)
    (hj : j ≤ k) : ∃ s', s₁.rewindKVCache T j = some s' ∧ s'.mNumTokens = s.mNumTokens + (k - j)
      ∧ Rewound T (s.mNumTokens + (k - j)) s s₁ s' := by
  induction j with
  | zero => exact ⟨s₁, rfl, htokens, h.rewound⟩
  | succ j ih =>
    obtain ⟨s', hs', htokens', hrewound⟩ := ih (le_of_succ_le hj)
    have hsucc : s.mNumTokens + (k - j) = s.mNumTokens + (k - (j + 1)) + 1 := by omega
    rw [hsucc] at htokens' hrewound
    obtain ⟨s'', hremove, htokens'', hrewound'⟩ :=
      hrewound.removeToken hT (Nat.le_add_right _ _) htokens'
      fun w hw => hagrees w hw _ (Nat.le_add_right _ _) (by omega)
    refine ⟨s'', ?_, htokens'', hrewound'⟩
    rw [WindowedSequence.rewindKVCache, hs']
    exact hremove

/-- Every window has as many blocks as the tokens need. -/
def Fits (T : ℕ) (s : WindowedSequence) : Prop :=
  ∀ w ∈ s.windows, w.cacheBlockIds.length = ceilDiv s.mNumTokens T

/-- **Rewinding undoes adding**: afterwards the number of tokens, the block ids and the reference
counts are those of before, the blocks that were added are free, each in its queue once; and after
every token that is added or removed every window has as many blocks as the tokens need. -/
def Undone (T k : ℕ) (s s₁ : WindowedSequence) : Prop :=
  (∃ s', s₁.rewindKVCache T k = some s' ∧ s'.mNumTokens = s.mNumTokens
    ∧ ∀ (i : ℕ) w w₁, s.windows[i]? = some w → s₁.windows[i]? = some w₁ → ∃ w',
      s'.windows[i]? = some w'
      ∧ w'.cacheBlockIds = w.cacheBlockIds
      ∧ (∀ id, (w'.pool.blocks id).refCount = (w.pool.blocks id).refCount)
      ∧ ∀ id, some id ∈ w₁.cacheBlockIds.drop w.cacheBlockIds.length →
        (w'.pool.queues (w'.pool.blocks id).level (w'.pool.blocks id).priority).count id = 1)
  ∧ (∀ j, j ≤ k → ∃ s', s.addTokens T j = some s' ∧ s'.Fits T)
  ∧ ∀ j, j ≤ k → ∃ s', s₁.rewindKVCache T j = some s' ∧ s'.Fits T

lemma removeToken_eq (h : s.removeToken T = some s') (hpos : s.mNumTokens ≠ 0) :
    s'.mNumTokens = s.mNumTokens - 1
    ∧ Windowwise (fun w w' => w.removeToken T (s.mNumTokens - 1) = some w') s s' := by
  rw [WindowedSequence.removeToken, if_neg hpos] at h
  obtain ⟨ws, hws, rfl⟩ := map_eq_some_iff.mp h
  exact ⟨rfl, rel_mapM hws⟩

lemma rewindKVCache_eq (h : s.rewindKVCache T j = some s') (hj : j ≤ s.mNumTokens) :
    s'.mNumTokens = s.mNumTokens - j
    ∧ Windowwise (fun w w' => w'.mWindowSize = w.mWindowSize) s s' := by
  induction j generalizing s' with
  | zero =>
    obtain rfl := some.inj h
    refine ⟨rfl, fun i => ?_⟩
    cases s.windows[i]? with
    | none => exact Option.Rel.none
    | some w => exact Option.Rel.some rfl
  | succ j ih =>
    rw [WindowedSequence.rewindKVCache] at h
    obtain ⟨s₂, hs₂, hremove⟩ := bind_eq_some_iff.mp h
    obtain ⟨htokens, hsizes⟩ := ih hs₂ (le_of_succ_le hj)
    obtain ⟨htokens', hwindows⟩ := removeToken_eq hremove (by omega)
    refine ⟨by omega, hsizes.trans hwindows ?_⟩
    intro w _ w' w'' hw hw'
    exact (removeToken_ids hw').1.trans hw

/-- If the blocks fit before and after a token is removed, the two conditions agree. -/
lemma agrees_of_fits (hT : 0 < T) (hn : s.mNumTokens = n + 1) (hremove : s.removeToken T = some s')
    (hfits : s.Fits T) (hfits' : s'.Fits T) {w : Window} (hw : w ∈ s.windows) : Agrees T n w := by
  obtain ⟨htokens, hwindows⟩ := removeToken_eq hremove (by omega)
  obtain ⟨i, hi⟩ := mem_iff_getElem?.mp hw
  have hrel := hwindows i
  rw [hi, hn, Nat.add_sub_cancel] at hrel
  generalize hw' : s'.windows[i]? = c at hrel
  cases hrel with
  | @some _ w' hremoved =>
    have hlen := (removeToken_ids hremoved).2
    rw [hfits w hw, hfits' w' (mem_of_getElem? hw'), htokens, hn, Nat.add_sub_cancel,
      ceilDiv_succ hT] at hlen
    rw [Agrees]
    by_cases hleft : n % w.mWindowSize % T = 0
    · rw [if_pos hleft] at hlen
      refine iff_of_true hleft ?_
      by_contra hright
      rw [if_neg hright] at hlen
      have hpos : 0 < ceilDiv n T := by
        rw [lt_ceilDiv_iff hT]
        rcases Nat.eq_zero_or_pos n with rfl | hpos
        · exact absurd (zero_mod T) hright
        · omega
      omega
    · rw [if_neg hleft] at hlen
      refine iff_of_false hleft fun hright => ?_
      rw [if_pos hright] at hlen
      omega

/-- **Rewinding undoes adding if and only if**, for every window and every number of tokens in
between, the number is a multiple of the block size exactly if it is one modulo the window. -/
theorem rewind_undoes_iff (hT : 0 < T) (hpriority : s.decodePriority < kNumPriorities)
    (hok : ∀ w ∈ s.windows, w.Ok T s.mNumTokens)
    (hstays : ∀ w ∈ s.windows, Stays T (s.mNumTokens + k) w) (hadd : s.addTokens T k = some s₁) :
    Undone T k s s₁ ↔ ∀ w ∈ s.windows, ∀ n, s.mNumTokens ≤ n → n < s.mNumTokens + k →
      (T ∣ n % w.mWindowSize ↔ T ∣ n) := by
  have hintact : ∀ w ∈ s.windows, w.pool.Intact := fun w hw => (hok w hw).intact
  obtain ⟨htokens₁, -, hgrown⟩ := grown_addTokens hT hpriority hintact hstays hadd
  simp only [dvd_iff_mod_eq_zero]
  constructor
  · rintro ⟨-, -, hremoved⟩ w hw n hle hlt
    -- the token that is removed last before there are `n`
    obtain ⟨s', hs', hfits'⟩ := hremoved (s.mNumTokens + k - (n + 1)) (by omega)
    obtain ⟨s'', hs'', hfits''⟩ := hremoved (s.mNumTokens + k - (n + 1) + 1) (by omega)
    rw [WindowedSequence.rewindKVCache, hs', bind_some] at hs''
    obtain ⟨htokens', hsizes⟩ := rewindKVCache_eq hs' (by omega)
    have hsame : Windowwise (fun w w' => w'.mWindowSize = w.mWindowSize) s s' := by
      refine hgrown.trans hsizes ?_
      rintro w _ w₁ w' ⟨added, hholds, -⟩ hsize
      exact hsize.trans hholds.windowSize
    obtain ⟨i, hi⟩ := mem_iff_getElem?.mp hw
    have hrel := hsame i
    rw [hi] at hrel
    generalize hw' : s'.windows[i]? = c at hrel
    cases hrel with
    | @some _ w' hsize =>
      have hagrees :=
        agrees_of_fits hT (n := n) (by omega) hs'' hfits' hfits'' (mem_of_getElem? hw')
      rwa [Agrees, hsize] at hagrees
  · intro hagrees
    have hrewound := fun {j : ℕ} (hj : j ≤ k) => Rewound.rewindKVCache hT hgrown htokens₁ hagrees hj
    have hbase : ∀ w ∈ s.windows, w.cacheBlockIds.length = ceilDiv s.mNumTokens T :=
      fun w hw => (hok w hw).blocks
    refine ⟨?_, fun j hj => ?_, fun j hj => ?_⟩
    · obtain ⟨s', hs', htokens', hback⟩ := hrewound (le_refl k)
      rw [Nat.sub_self, Nat.add_zero] at htokens' hback
      refine ⟨s', hs', htokens', fun i w w₁ hw hw₁ => ?_⟩
      rcases hback i with ⟨hnone, -⟩ | ⟨w₀, w₁', w', hw₀, hw₁', hw', hR⟩
      · rw [hw] at hnone
        cases hnone
      · obtain rfl := some.inj (hw.symm.trans hw₀)
        obtain rfl := some.inj (hw₁.symm.trans hw₁')
        obtain ⟨added₁, added, given, hholds₁, hholds, hlen, hsame⟩ := hR
        obtain rfl : added = [] := eq_nil_of_length_eq_zero (by omega)
        refine ⟨w', hw', by simpa using hholds.ids, fun id => hholds.others id not_mem_nil,
          fun id hid => ?_⟩
        rw [hholds₁.ids, drop_left, List.mem_map_of_injective (some_injective _)] at hid
        have hfree := hholds.free id (((hsame id).mpr hid).resolve_left not_mem_nil)
        exact count_eq_one_of_mem (hholds.intact.nodup _ _) (hholds.intact.queued id hfree)
    · obtain ⟨s', hs'⟩ := addTokens_le hj hadd
      have hfewer : ∀ w ∈ s.windows, Stays T (s.mNumTokens + j) w := fun w hw hswa =>
        lt_of_le_of_lt (by omega) (hstays w hw hswa)
      obtain ⟨htokens', -, hgrown'⟩ := grown_addTokens hT hpriority hintact hfewer hs'
      refine ⟨s', hs', fun w' hw' => ?_⟩
      obtain ⟨w, hw, added, hholds, hlen⟩ := hgrown'.exists hw'
      rw [hholds.ids, length_append, length_map, hbase w hw, htokens', ← hlen, Nat.add_comm]
    · obtain ⟨s', hs', htokens', hback⟩ := hrewound hj
      refine ⟨s', hs', fun w' hw' => ?_⟩
      obtain ⟨i, hi⟩ := mem_iff_getElem?.mp hw'
      rcases hback i with ⟨-, hnone⟩ | ⟨w, w₁, w'', hw, -, hw'', hR⟩
      · rw [hi] at hnone
        cases hnone
      · obtain rfl := some.inj (hi.symm.trans hw'')
        obtain ⟨added₁, added, given, -, hholds, hlen, -⟩ := hR
        rw [hholds.ids, length_append, length_map, hbase w (mem_of_getElem? hw), htokens',
          ← hlen, Nat.add_comm]

/-! ### A sequence of twelve tokens -/

/-- Three blocks of a sequence and two that are free. -/
def samplePool : Pool :=
  let block (refCount : ℕ) : BlockState :=
    { refCount := refCount, priority := 35, level := .primary, hasTokens := false, inTree := false }
  let pool : Pool :=
    { blocks := fun id => block (if id < 3 then 1 else 0)
      queues := fun _ _ => []
      queued := fun _ => false
      numFree := fun _ => 0
      secondaryOffloadMinPriority := 35 }
  (pool.releaseBlock 3 false).releaseBlock 4 false

lemma samplePool_intact : samplePool.Intact := by
  rw [samplePool]
  refine Pool.Intact.releaseBlock (Pool.Intact.releaseBlock ?_ rfl rfl false) rfl rfl false
  refine ⟨fun _ _ _ hid => absurd hid not_mem_nil, fun _ _ => nodup_nil, nofun,
    fun _ => by show 35 < 101; decide, fun level => ?_⟩
  show 0 = ((∑ _ ∈ Finset.range kNumPriorities, ([] : List ℕ).length : ℕ) : ℤ)
  simp

/-- Twelve tokens in three blocks of four, with one sliding window of size `W`. -/
def sample (W : ℕ) : WindowedSequence :=
  let ids := [some 0, some 1, some 2]
  { mNumTokens := 12, decodePriority := 35, windows := [⟨W, true, samplePool, ids, ids, 0⟩] }

lemma sample_ok (W : ℕ) : ∀ w ∈ (sample W).windows, w.Ok 4 (sample W).mNumTokens := by
  intro w hw
  obtain rfl := mem_singleton.mp hw
  exact ⟨samplePool_intact, by show 3 = ceilDiv 12 4; decide⟩

lemma sample_stays {W k : ℕ} (h : 12 + k < W + 4) :
    ∀ w ∈ (sample W).windows, Stays 4 ((sample W).mNumTokens + k) w := by
  intro w hw _
  obtain rfl := mem_singleton.mp hw
  show 12 + k < W + 4 + 0 * 4
  omega

/-- A window of twelve tokens is a multiple of the block size: two tokens are added and undone. -/
theorem rewind_undoes_multiple :
    ∃ s₁, (sample 12).addTokens 4 2 = some s₁ ∧ Undone 4 2 (sample 12) s₁ := by
  obtain ⟨s₁, hs₁⟩ := isSome_iff_exists.mp
    (show ((sample 12).addTokens 4 2).isSome = true by decide +kernel)
  refine ⟨s₁, hs₁,
    (rewind_undoes_iff (by decide) (by decide) (sample_ok 12) (sample_stays (by decide))
    hs₁).mpr fun w hw n hle hlt => ?_⟩
  obtain rfl := mem_singleton.mp hw
  have hn : 12 ≤ n ∧ n < 14 := ⟨hle, hlt⟩
  show 4 ∣ n % 12 ↔ 4 ∣ n
  omega

/-- **A block is not given back**: for a window of ten tokens the thirteenth token is added with a
block, since twelve is a multiple of four, and it is removed without one, since two is not. -/
theorem rewind_keeps_block : (∀ w ∈ (sample 10).windows, w.Ok 4 (sample 10).mNumTokens)
    ∧ (∀ w ∈ (sample 10).windows, Stays 4 ((sample 10).mNumTokens + 1) w)
    ∧ ∃ s₁, (sample 10).addTokens 4 1 = some s₁ ∧ ¬ Undone 4 1 (sample 10) s₁ := by
  refine ⟨sample_ok 10, sample_stays (by decide), ?_⟩
  obtain ⟨s₁, hs₁⟩ := isSome_iff_exists.mp
    (show ((sample 10).addTokens 4 1).isSome = true by decide +kernel)
  refine ⟨s₁, hs₁, ?_⟩
  rintro ⟨-, -, hfits⟩
  obtain ⟨s', hs', hfits'⟩ := hfits 1 (le_refl 1)
  have hblocks : (((sample 10).addTokens 4 1).bind (rewindKVCache 4 1)).map
      (fun s => (s.mNumTokens, s.windows.map fun w => w.cacheBlockIds.length))
        = some (12, [4]) := by
    decide +kernel
  rw [hs₁, bind_some, hs', map_some] at hblocks
  obtain ⟨htokens, hlengths⟩ := Prod.mk.inj (some.inj hblocks)
  obtain ⟨w, hw⟩ : ∃ w, s'.windows = [w] := by
    rw [← length_eq_one_iff, ← length_map, hlengths]
    rfl
  have hlen := hfits' w (by rw [hw]; exact mem_singleton_self w)
  have hfour : w.cacheBlockIds.length = 4 := by
    rw [hw] at hlengths
    exact (cons.inj hlengths).1
  rw [hfour, htokens] at hlen
  exact absurd hlen (by decide)

end WindowedSequence

end TrtLlm.KvCache
