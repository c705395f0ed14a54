import TrtLlm.Bounce.Message
import TrtLlm.Util.ByteCopy

/-!
The packing of a transfer into chunks (`BounceTransferPlan.cpp`), and the split of a chunk's
copies over the plan entries of an exec context.

* `BounceTransferPlan.build`: the loop over the descriptors, with its checks;
* `build_descs_le`: no chunk has more descriptors than the cap, and one size for each;
* `planEntries_le`: a chunk whose descriptors fit the plan buffers of an exec context fits
  them after the split too.

Sums of addresses are taken in 64 bits, as the source takes them.
-/

namespace TrtLlm

open List

/-- A memory descriptor of a transfer. -/
structure MemoryDesc where
  addr : ℕ
  len : ℕ
  deviceId : ℕ
deriving DecidableEq, Repr

/-- `BounceChunk`: what is staged in one region and moved with one write. -/
structure BounceChunk where
  srcPtrs : List ℕ := []
  dstPtrs : List ℕ := []
  sizes : List ℕ := []
  bounceOffsets : List ℕ := []
  scatterRuns : List BounceScatterRun := []
  totalBytes : ℕ := 0
  packedBytes : ℕ := 0
  dstDeviceId : ℕ := 0
deriving DecidableEq, Repr

/-- `BounceTransferPlan`. -/
structure BounceTransferPlan where
  mChunks : List BounceChunk := []
  mTotalBytes : ℕ := 0
  mTotalDescs : ℕ := 0
deriving DecidableEq, Repr

/-- The check of `build` that a transfer fails, with the index of the descriptor. -/
inductive PlanError where
  | countMismatch
  | zeroCap
  | capTooLarge
  | lenMismatch (i : ℕ)
  | mixedSourceDevice (i : ℕ)
  | mixedDestinationDevice (i : ℕ)
  | descTooLarge (i : ℕ)
  | descOver4GiB (i : ℕ)
deriving DecidableEq, Repr

namespace BounceTransferPlan

def kAlignment : ℕ := 32

def alignUp (value align : ℕ) : ℕ := (value + align - 1) / align * align

/-- One more descriptor for the last run, or a new run.  The runs are listed last first. -/
def extendRuns (runs : List BounceScatterRun) (dst bounce size : ℕ) : List BounceScatterRun :=
  match runs with
  | [] => [{ bounceOffset := bounce, dstAddr := dst, dstStride := 0, bounceStride := 0,
             pieceSize := size, count := 1 }]
  | r :: rs =>
    if r.count = 1 then
      if dst = add64 r.dstAddr r.pieceSize ∧ bounce = add64 r.bounceOffset r.pieceSize
          ∧ r.pieceSize + size ≤ 2 ^ 32 - 1 then
        { r with pieceSize := r.pieceSize + size } :: rs
      else if size = r.pieceSize ∧ r.dstAddr < dst ∧ r.bounceOffset < bounce
          ∧ bounce - r.bounceOffset ≤ 2 ^ 32 - 1 then
        { r with dstStride := dst - r.dstAddr, bounceStride := bounce - r.bounceOffset, count := 2 }
          :: rs
      else
        { bounceOffset := bounce, dstAddr := dst, dstStride := 0, bounceStride := 0,
          pieceSize := size, count := 1 } :: r :: rs
    else if size = r.pieceSize ∧ dst = add64 r.dstAddr (r.count * r.dstStride)
        ∧ bounce = add64 r.bounceOffset (r.count * r.bounceStride) then
      { r with count := (r.count + 1) % 2 ^ 32 } :: rs
    else
      { bounceOffset := bounce, dstAddr := dst, dstStride := 0, bounceStride := 0,
        pieceSize := size, count := 1 } :: r :: rs

/-- `buildScatterRuns`. -/
def buildScatterRuns (chunk : BounceChunk) : BounceChunk :=
  let descs := chunk.dstPtrs.zip (chunk.bounceOffsets.zip chunk.sizes)
  { chunk with
    scatterRuns := (descs.foldl (fun runs d => extendRuns runs d.1 d.2.1 d.2.2) []).reverse }

/-- The state of the loop of `build`. -/
structure Packing where
  plan : BounceTransferPlan := {}
  current : BounceChunk := {}
  cursor : ℕ := 0

/-- The local `flush`. -/
def flush (p : Packing) : Packing :=
  if p.current.srcPtrs = [] then p
  else
    { plan := { p.plan with mChunks := p.plan.mChunks ++ [buildScatterRuns p.current] }
      current := {}
      cursor := 0 }

/-- Does the descriptor continue the last one of the current chunk, in source, destination and
region? -/
def continues (p : Packing) (src dst : MemoryDesc) : Bool :=
  match p.current.srcPtrs.getLast?, p.current.dstPtrs.getLast?, p.current.bounceOffsets.getLast?,
    p.current.sizes.getLast? with
  | some s, some d, some b, some z =>
    src.addr = add64 s z ∧ dst.addr = add64 d z ∧ p.cursor = add64 b z ∧ z + src.len ≤ 2 ^ 32 - 1
  | _, _, _, _ => false

/-- The last descriptor of the current chunk grows by `len` bytes. -/
def grow (p : Packing) (len : ℕ) : Packing :=
  let size := p.current.sizes.getLastD 0 + len
  let packed := add64 (p.current.bounceOffsets.getLastD 0) size
  { plan := { p.plan with
      mTotalBytes := p.plan.mTotalBytes + len, mTotalDescs := p.plan.mTotalDescs + 1 }
    current := { p.current with
      sizes := p.current.sizes.dropLast ++ [size]
      totalBytes := p.current.totalBytes + len
      packedBytes := packed }
    cursor := alignUp packed kAlignment }

/-- A descriptor at the end of the current chunk. -/
def append (p : Packing) (src dst : MemoryDesc) : Packing :=
  { plan := { p.plan with
      mTotalBytes := p.plan.mTotalBytes + src.len, mTotalDescs := p.plan.mTotalDescs + 1 }
    current := { p.current with
      srcPtrs := p.current.srcPtrs ++ [src.addr]
      dstPtrs := p.current.dstPtrs ++ [dst.addr]
      sizes := p.current.sizes ++ [src.len]
      bounceOffsets := p.current.bounceOffsets ++ [p.cursor]
      totalBytes := p.current.totalBytes + src.len
      packedBytes := p.cursor + src.len }
    cursor := alignUp (p.cursor + src.len) kAlignment }

/-- What the loop of `build` does with one pair of descriptors that passed its checks. -/
def pack (maxChunkSizeBytes maxDescsPerChunk dstDeviceId : ℕ) (p : Packing) (src dst : MemoryDesc) :
    Packing :=
  if src.len = 0 then { p with plan := { p.plan with mTotalDescs := p.plan.mTotalDescs + 1 } }
  else
    let overflow := maxChunkSizeBytes < p.cursor + src.len
    let tooManyDescs := maxDescsPerChunk ≤ p.current.srcPtrs.length
    if p.current.srcPtrs ≠ [] ∧ ¬ overflow ∧ continues p src dst then grow p src.len
    else if overflow ∨ tooManyDescs then
      let p := flush p
      append { p with current := { p.current with dstDeviceId := dstDeviceId } } src dst
    else append p src dst

/-- The checks of the loop of `build` for the pair of descriptors number `i`. -/
def checkDesc (maxChunkSizeBytes sourceDeviceId destinationDeviceId i : ℕ) (src dst : MemoryDesc) :
    Except PlanError Unit :=
  if src.len ≠ dst.len then .error (.lenMismatch i)
  else if src.deviceId ≠ sourceDeviceId then .error (.mixedSourceDevice i)
  else if dst.deviceId ≠ destinationDeviceId then .error (.mixedDestinationDevice i)
  else if maxChunkSizeBytes < src.len then .error (.descTooLarge i)
  else if 2 ^ 32 ≤ src.len then .error (.descOver4GiB i)
  else .ok ()

/-- The loop of `build`, at the pair number `i`. -/
def packLoop (maxChunkSizeBytes maxDescsPerChunk sourceDeviceId destinationDeviceId : ℕ) :
    ℕ → List (MemoryDesc × MemoryDesc) → Packing → Except PlanError Packing
  | _, [], p => .ok p
  | i, (src, dst) :: descs, p => do
      checkDesc maxChunkSizeBytes sourceDeviceId destinationDeviceId i src dst
      packLoop maxChunkSizeBytes maxDescsPerChunk sourceDeviceId destinationDeviceId (i + 1) descs
        (pack maxChunkSizeBytes maxDescsPerChunk destinationDeviceId p src dst)

/-- `build`. -/
def build (srcDescs dstDescs : List MemoryDesc) (maxChunkSizeBytes maxDescsPerChunk : ℕ) :
    Except PlanError BounceTransferPlan :=
  if srcDescs.length ≠ dstDescs.length then .error .countMismatch
  else if maxChunkSizeBytes = 0 ∨ maxDescsPerChunk = 0 then .error .zeroCap
  else if 2 ^ 32 - 1 < maxChunkSizeBytes then .error .capTooLarge
  else
    match srcDescs, dstDescs with
    | src :: _, dst :: _ => do
        let p ← packLoop maxChunkSizeBytes maxDescsPerChunk src.deviceId dst.deviceId 0
          (srcDescs.zip dstDescs) { current := { dstDeviceId := dst.deviceId } }
        .ok (flush p).plan
    | _, _ => .ok {}

/-! ### Chunks hold at most the cap of descriptors -/

/-- A chunk has one size for each source, and at most `maxDescs` of them. -/
structure ChunkFits (maxDescs : ℕ) (c : BounceChunk) : Prop where
  sizes : c.sizes.length = c.srcPtrs.length
  descs : c.srcPtrs.length ≤ maxDescs

/-- All chunks of a packing fit, the current one included. -/
structure PackingFits (maxDescs : ℕ) (p : Packing) : Prop where
  chunks : ∀ c ∈ p.plan.mChunks, ChunkFits maxDescs c
  current : ChunkFits maxDescs p.current

variable {maxChunkSizeBytes maxDescs : ℕ} {p : Packing}

lemma flush_fits (h : PackingFits maxDescs p) : PackingFits maxDescs (flush p) := by
  rw [flush]
  split_ifs
  · exact h
  · refine ⟨fun c hc => ?_, ⟨rfl, Nat.zero_le _⟩⟩
    rcases mem_append.mp hc with hc | hc
    · exact h.chunks c hc
    · rw [mem_singleton.mp hc]
      exact ⟨h.current.sizes, h.current.descs⟩

lemma append_fits (h : PackingFits maxDescs p)
    (hlt : p.current.srcPtrs.length < maxDescs) (src dst : MemoryDesc) :
    PackingFits maxDescs (append p src dst) := by
  refine ⟨h.chunks, ⟨?_, ?_⟩⟩
  · simp [append, h.current.sizes]
  · simp only [append, length_append, length_singleton]
    omega

lemma grow_fits (h : PackingFits maxDescs p)
    (hne : p.current.srcPtrs ≠ []) (len : ℕ) : PackingFits maxDescs (grow p len) := by
  have hpos := length_pos_of_ne_nil hne
  refine ⟨h.chunks, ⟨?_, h.current.descs⟩⟩
  simp only [grow, length_append, length_dropLast, length_singleton, h.current.sizes]
  omega

lemma pack_fits {dstDeviceId : ℕ} (hpos : 0 < maxDescs) (h : PackingFits maxDescs p)
    (src dst : MemoryDesc) :
    PackingFits maxDescs (pack maxChunkSizeBytes maxDescs dstDeviceId p src dst) := by
  rw [pack]
  dsimp only
  split_ifs with h0 h1 h2
  · exact ⟨h.chunks, h.current⟩
  · exact grow_fits h h1.1 src.len
  · have hf := flush_fits h
    have hf' : PackingFits maxDescs
        { flush p with current := { (flush p).current with dstDeviceId := dstDeviceId } } :=
      ⟨hf.chunks, ⟨hf.current.sizes, hf.current.descs⟩⟩
    have hlt : (flush p).current.srcPtrs.length < maxDescs := by
      rw [flush]
      split_ifs with hnil
      · rw [hnil]
        exact hpos
      · exact hpos
    exact append_fits hf' hlt src dst
  · exact append_fits h (by omega) src dst

lemma packLoop_fits {sd dd : ℕ} (hpos : 0 < maxDescs)
    (descs : List (MemoryDesc × MemoryDesc)) : ∀ (i : ℕ) (p q : Packing), PackingFits maxDescs p →
      packLoop maxChunkSizeBytes maxDescs sd dd i descs p = .ok q → PackingFits maxDescs q := by
  induction descs with
  | nil =>
    intro i p q hp h
    cases h
    exact hp
  | cons d descs ih =>
    intro i p q hp h
    rw [packLoop] at h
    cases hc : checkDesc maxChunkSizeBytes sd dd i d.1 d.2 with
    | error e =>
      rw [hc] at h
      cases h
    | ok u =>
      rw [hc] at h
      exact ih _ _ q (pack_fits hpos hp d.1 d.2) h

/-- **The cap on descriptors**: every chunk of a plan has at most `maxDescsPerChunk`
descriptors, and one size for each. -/
theorem build_descs_le {srcDescs dstDescs : List MemoryDesc} {plan : BounceTransferPlan}
    (h : build srcDescs dstDescs maxChunkSizeBytes maxDescs = .ok plan) :
    ∀ c ∈ plan.mChunks, ChunkFits maxDescs c := by
  unfold build at h
  split_ifs at h with h1 h2 h3
  split at h
  · rename_i s ss d ds
    cases hp : packLoop maxChunkSizeBytes maxDescs s.deviceId d.deviceId 0
        ((s :: ss).zip (d :: ds)) { current := { dstDeviceId := d.deviceId } } with
    | error e =>
      rw [hp] at h
      cases h
    | ok p =>
      rw [hp] at h
      cases h
      refine (flush_fits (packLoop_fits (by omega) _ 0 _ p ⟨?_, ?_⟩ hp)).chunks
      · simp
      · exact ⟨rfl, Nat.zero_le _⟩
  · cases h
    simp

end BounceTransferPlan

/-! ### Plan entries of an exec context -/

def kCopySplitBytes : ℕ := 2 ^ 16

def splitBudget (appended rawRemaining maxEntries : ℕ) : ℕ :=
  if appended + rawRemaining < maxEntries then maxEntries - (appended + rawRemaining) else 1

def piecesFor (size maxPieces : ℕ) : ℕ :=
  min (max ((size + kCopySplitBytes - 1) / kCopySplitBytes) 1) (max maxPieces 1)

/-- The loop that counts the plan entries of a chunk, from `nTotal` on. -/
def planEntries (maxEntries : ℕ) : ℕ → List ℕ → ℕ
  | nTotal, [] => nTotal
  | nTotal, size :: sizes =>
    planEntries maxEntries
      (nTotal + piecesFor size (splitBudget nTotal sizes.length maxEntries)) sizes

/-- **The split keeps within the plan buffers** of an exec context whenever one entry for each
descriptor does. -/
theorem planEntries_le (maxEntries : ℕ) (sizes : List ℕ) : ∀ nTotal : ℕ,
    nTotal + sizes.length ≤ maxEntries → planEntries maxEntries nTotal sizes ≤ maxEntries := by
  induction sizes with
  | nil =>
    intro n h
    exact h
  | cons size sizes ih =>
    intro n h
    rw [length_cons] at h
    refine ih _ ?_
    have hbudget : splitBudget n sizes.length maxEntries = maxEntries - (n + sizes.length) := by
      rw [splitBudget, if_pos (by omega)]
    have hpieces : piecesFor size (splitBudget n sizes.length maxEntries)
        ≤ maxEntries - (n + sizes.length) := by
      rw [hbudget, piecesFor]
      refine (Nat.min_le_right _ _).trans ?_
      omega
    omega

end TrtLlm
