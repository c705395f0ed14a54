import TrtLlm.Bounce.TransferPlan

/-!
What the chunks of a plan move.

A chunk is gathered into a region by its arrays and scattered from there by its runs
(`BounceChunk.moves`).  The two passes that merge descriptors, `pack` in the arrays and
`buildScatterRuns` in the runs, leave the bytes and their order as they are:

* `RunsFor.step`: one more descriptor for the runs is one more copy at their end;
* `Packs.pack`: one more pair of descriptors for a packing is one more copy at its end;
* `build_moves`: the chunks of a plan move the bytes of the transfer, one by one and in its
  order, within the limits of a chunk.
-/

namespace TrtLlm

open List Function

/-! ### What a chunk moves -/

/-- The copies that a run stands for, piece by piece, from offsets of the region. -/
def BounceScatterRun.bytes (r : BounceScatterRun) : List (ℕ × ℕ) :=
  (range r.count).flatMap fun p =>
    copyBytes (add64 r.bounceOffset (p * r.bounceStride)) (add64 r.dstAddr (p * r.dstStride))
      r.pieceSize

namespace BounceChunk

/-- The copies that gather a chunk into its region. -/
def stagedCopies (c : BounceChunk) : List Staged :=
  (c.srcPtrs.zip (c.bounceOffsets.zip c.sizes)).map fun d => ⟨d.1, d.2.1, d.2.2⟩

/-- The region after the gather: the source of each byte. -/
def gathered (c : BounceChunk) : ℕ → Option ℕ := staged c.stagedCopies fun _ => none

/-- The gather and then the scatter of a chunk: the source of each byte that is written, and
where it is written. -/
def moves (c : BounceChunk) : List (Option ℕ × ℕ) :=
  (c.scatterRuns.flatMap BounceScatterRun.bytes).map fun m => (c.gathered m.1, m.2)

/-- The limits of a chunk: one entry of each array for a descriptor, ranges of the region that
do not overlap and end within `packedBytes`, and the caps. -/
structure Within (maxChunkSizeBytes maxDescsPerChunk : ℕ) (c : BounceChunk) : Prop where
  dstPtrs : c.dstPtrs.length = c.srcPtrs.length
  sizes : c.sizes.length = c.srcPtrs.length
  bounceOffsets : c.bounceOffsets.length = c.srcPtrs.length
  apart : c.stagedCopies.Pairwise Staged.Apart
  inside : ∀ d ∈ c.stagedCopies, d.off + d.size ≤ c.packedBytes
  packed : c.packedBytes ≤ maxChunkSizeBytes
  descs : c.srcPtrs.length ≤ maxDescsPerChunk
  count : c.srcPtrs.length ≤ c.packedBytes
  runs : c.scatterRuns.length ≤ c.srcPtrs.length

end BounceChunk

/-- The byte moves of a transfer, in its order. -/
def transferMoves (descs : List (MemoryDesc × MemoryDesc)) : List (ℕ × ℕ) :=
  descs.flatMap fun d => (range d.1.len).map fun k => (d.1.addr + k, d.2.addr + k)

namespace BounceTransferPlan

/-! ### The runs -/

/-- The copies of a list of runs, last run first. -/
def runBytes (runs : List BounceScatterRun) : List (ℕ × ℕ) :=
  runs.reverse.flatMap BounceScatterRun.bytes

/-- A run as `buildScatterRuns` keeps it: its last piece ends below 4 GiB, and the pieces of a
strided run are some bytes apart. -/
structure RunOk (r : BounceScatterRun) : Prop where
  count : 1 ≤ r.count
  stride : 2 ≤ r.count → 1 ≤ r.bounceStride
  below : r.bounceOffset + (r.count - 1) * r.bounceStride + r.pieceSize < 2 ^ 32

variable {r : BounceScatterRun} {runs : List BounceScatterRun}

lemma runBytes_cons (r : BounceScatterRun) (rs : List BounceScatterRun) :
    runBytes (r :: rs) = runBytes rs ++ r.bytes := by
  rw [runBytes, reverse_cons, flatMap_append, flatMap_singleton, runBytes]

lemma bytes_of_count_one (h : r.count = 1) :
    r.bytes = copyBytes r.bounceOffset r.dstAddr r.pieceSize := by
  rw [BounceScatterRun.bytes, h, range_one, flatMap_singleton, Nat.zero_mul, Nat.zero_mul,
    copyBytes_add64_zero]

/-- A run of one more piece. -/
lemma bytes_of_count_succ (r : BounceScatterRun) (n : ℕ) :
    ({ r with count := n + 1 } : BounceScatterRun).bytes
      = ({ r with count := n } : BounceScatterRun).bytes
        ++ copyBytes (add64 r.bounceOffset (n * r.bounceStride))
          (add64 r.dstAddr (n * r.dstStride)) r.pieceSize := by
  rw [BounceScatterRun.bytes, range_succ, flatMap_append, flatMap_singleton]
  rfl

/-- A run takes one more descriptor: it moves the descriptor's bytes after its own. -/
structure Takes (r r' : BounceScatterRun) (dst bounce size : ℕ) : Prop where
  bytes : r'.bytes = r.bytes ++ copyBytes bounce dst size
  ok : RunOk r'

/-- Contiguous growth: the piece and what follows it are one copy. -/
lemma takes_growth (hr : RunOk r) (h1 : r.count = 1) {size : ℕ}
    (hbelow : add64 r.bounceOffset r.pieceSize + size < 2 ^ 32) :
    Takes r { r with pieceSize := r.pieceSize + size } (add64 r.dstAddr r.pieceSize)
      (add64 r.bounceOffset r.pieceSize) size := by
  have hlow := hr.below
  rw [h1, Nat.sub_self, Nat.zero_mul] at hlow
  rw [add64_eq_of_lt (by omega)] at hbelow
  refine ⟨?_, hr.count, hr.stride, ?_⟩
  · calc ({ r with pieceSize := r.pieceSize + size } : BounceScatterRun).bytes
        = copyBytes r.bounceOffset r.dstAddr (r.pieceSize + size) := bytes_of_count_one h1
      _ = r.bytes ++ _ := by rw [copyBytes_add, bytes_of_count_one h1]
  · dsimp only
    rw [h1]
    omega

/-- The stride latch: the strides are the steps to the second piece. -/
lemma takes_latch (h1 : r.count = 1) {dst bounce : ℕ} (hdst : r.dstAddr < dst)
    (hbounce : r.bounceOffset < bounce) (hbelow : bounce + r.pieceSize < 2 ^ 32) :
    Takes r { r with
      dstStride := dst - r.dstAddr, bounceStride := bounce - r.bounceOffset, count := 2 }
      dst bounce r.pieceSize := by
  refine ⟨?_, Nat.le_succ 1, fun _ => Nat.sub_pos_of_lt hbounce, ?_⟩
  · have hb : add64 r.bounceOffset (1 * (bounce - r.bounceOffset)) = add64 bounce 0 := by
      rw [Nat.one_mul, add64, add64, Nat.add_sub_cancel' hbounce.le, Nat.add_zero]
    have hd : add64 r.dstAddr (1 * (dst - r.dstAddr)) = add64 dst 0 := by
      rw [Nat.one_mul, add64, add64, Nat.add_sub_cancel' hdst.le, Nat.add_zero]
    refine (bytes_of_count_succ
      { r with dstStride := dst - r.dstAddr, bounceStride := bounce - r.bounceOffset } 1).trans ?_
    rw [bytes_of_count_one h1, bytes_of_count_one (by rfl)]
    rw [hb, hd, copyBytes_add64_zero]
  · dsimp only
    omega

/-- The stride extension.  The count does not leave its 32 bits, since each of the pieces
starts a byte or more after the one before. -/
lemma takes_extension (hr : RunOk r) (h1 : r.count ≠ 1) (hsize : 0 < r.pieceSize)
    (hbelow : add64 r.bounceOffset (r.count * r.bounceStride) + r.pieceSize < 2 ^ 32) :
    Takes r { r with count := (r.count + 1) % 2 ^ 32 } (add64 r.dstAddr (r.count * r.dstStride))
      (add64 r.bounceOffset (r.count * r.bounceStride)) r.pieceSize := by
  have hlow := hr.below
  have hcount := hr.count
  have hstride := hr.stride (by omega)
  have hmul : r.count * r.bounceStride = (r.count - 1) * r.bounceStride + r.bounceStride := by
    conv_lhs => rw [show r.count = r.count - 1 + 1 by omega, Nat.succ_mul]
  have hle : r.bounceStride ≤ (r.count - 1) * r.bounceStride := Nat.le_mul_of_pos_left _ (by omega)
  rw [add64_eq_of_lt (by omega)] at hbelow
  have hlt : r.count + 1 < 2 ^ 32 := by
    have : r.count * 1 ≤ r.count * r.bounceStride := Nat.mul_le_mul_left _ hstride
    omega
  rw [Nat.mod_eq_of_lt hlt]
  refine ⟨bytes_of_count_succ r r.count, Nat.le_add_left 1 r.count, fun _ => hstride, ?_⟩
  rw [Nat.add_sub_cancel]
  exact hbelow

/-- The run of a single descriptor. -/
def singleRun (dst bounce size : ℕ) : BounceScatterRun :=
  { bounceOffset := bounce, dstAddr := dst, dstStride := 0, bounceStride := 0, pieceSize := size,
    count := 1 }

/-- **What `buildScatterRuns` does with a descriptor**: the last run takes it, or it starts a
run. -/
lemma extendRuns_cases (hruns : ∀ r ∈ runs, RunOk r) (dst : ℕ)
    {bounce size : ℕ} (hsize : 0 < size) (hbelow : bounce + size < 2 ^ 32) :
    (∃ r r' rs, runs = r :: rs ∧ extendRuns runs dst bounce size = r' :: rs
        ∧ Takes r r' dst bounce size)
      ∨ extendRuns runs dst bounce size = singleRun dst bounce size :: runs := by
  cases runs with
  | nil => exact .inr rfl
  | cons r rs =>
    have hr := hruns r mem_cons_self
    rw [extendRuns]
    by_cases h1 : r.count = 1
    · rw [if_pos h1]
      split_ifs with hgrow hlatch
      · obtain ⟨rfl, rfl, -⟩ := hgrow
        exact .inl ⟨r, _, rs, rfl, rfl, takes_growth hr h1 hbelow⟩
      · obtain ⟨rfl, hdst, hbounce, -⟩ := hlatch
        exact .inl ⟨r, _, rs, rfl, rfl, takes_latch h1 hdst hbounce hbelow⟩
      · exact .inr rfl
    · rw [if_neg h1]
      split_ifs with hext
      · obtain ⟨rfl, rfl, rfl⟩ := hext
        exact .inl ⟨r, _, rs, rfl, rfl, takes_extension hr h1 hsize hbelow⟩
      · exact .inr rfl

/-- Runs that move the bytes of some descriptors: at most one run for each. -/
structure RunsFor (descs : List (ℕ × ℕ × ℕ)) (runs : List BounceScatterRun) : Prop where
  bytes : runBytes runs = descs.flatMap fun d => copyBytes d.2.1 d.1 d.2.2
  ok : ∀ r ∈ runs, RunOk r
  length : runs.length ≤ descs.length

lemma RunsFor.step {descs : List (ℕ × ℕ × ℕ)} (h : RunsFor descs runs) {d : ℕ × ℕ × ℕ}
    (hsize : 0 < d.2.2) (hbelow : d.2.1 + d.2.2 < 2 ^ 32) :
    RunsFor (descs ++ [d]) (extendRuns runs d.1 d.2.1 d.2.2) := by
  rcases extendRuns_cases h.ok d.1 hsize hbelow with ⟨r, r', rs, rfl, heq, ht⟩ | heq
  · refine ⟨?_, ?_, ?_⟩
    · rw [heq, runBytes_cons, ht.bytes, ← append_assoc, ← runBytes_cons, h.bytes,
        flatMap_append, flatMap_singleton]
    · rw [heq]
      exact forall_mem_cons.mpr ⟨ht.ok, fun q hq => h.ok q (mem_cons_of_mem r hq)⟩
    · have := h.length
      rw [heq, length_append, length_cons]
      rw [length_cons] at this
      omega
  · refine ⟨?_, ?_, ?_⟩
    · rw [heq, runBytes_cons, bytes_of_count_one (r := singleRun d.1 d.2.1 d.2.2) rfl, h.bytes,
        flatMap_append, flatMap_singleton]
      rfl
    · rw [heq]
      refine forall_mem_cons.mpr ⟨⟨Nat.le_refl 1, fun h => ?_, ?_⟩, h.ok⟩
      · simp [singleRun] at h
      · simpa [singleRun] using hbelow
    · rw [heq, length_append, length_cons]
      exact Nat.add_le_add_right h.length 1

/-- The loop of `buildScatterRuns`. -/
lemma RunsFor.run {descs : List (ℕ × ℕ × ℕ)} (h : RunsFor descs runs) (more : List (ℕ × ℕ × ℕ))
    (hmore : ∀ d ∈ more, 0 < d.2.2 ∧ d.2.1 + d.2.2 < 2 ^ 32) :
    RunsFor (descs ++ more) (more.foldl (fun runs d => extendRuns runs d.1 d.2.1 d.2.2) runs) := by
  induction more generalizing descs runs with
  | nil => simpa using h
  | cons d more ih =>
    obtain ⟨hd, hmore⟩ := forall_mem_cons.mp hmore
    have := ih (h.step hd.1 hd.2) hmore
    rwa [append_assoc, singleton_append] at this

/-! ### The arrays -/

/-- An entry of the four arrays of a chunk. -/
structure ChunkDesc where
  src : ℕ
  dst : ℕ
  off : ℕ
  size : ℕ

/-- Where the entry stands in the region. -/
def ChunkDesc.staged (d : ChunkDesc) : Staged := ⟨d.src, d.off, d.size⟩

/-- The bytes of a list of entries. -/
def copiesOf (ds : List ChunkDesc) : List (ℕ × ℕ) :=
  ds.flatMap fun d => copyBytes d.src d.dst d.size

/-- The arrays of the chunk hold the entries `ds`, each of a byte or more, in the order of the
region and within its packed bytes. -/
structure Holds (maxBytes maxDescs : ℕ) (ds : List ChunkDesc) (c : BounceChunk) : Prop where
  srcPtrs : c.srcPtrs = ds.map ChunkDesc.src
  dstPtrs : c.dstPtrs = ds.map ChunkDesc.dst
  bounceOffsets : c.bounceOffsets = ds.map ChunkDesc.off
  sizes : c.sizes = ds.map ChunkDesc.size
  pos : ∀ d ∈ ds, 0 < d.size
  order : ds.Pairwise fun d e => d.off + d.size ≤ e.off
  inside : ∀ d ∈ ds, d.off + d.size ≤ c.packedBytes
  packed : c.packedBytes ≤ maxBytes
  descs : ds.length ≤ maxDescs
  count : ds.length ≤ c.packedBytes
  empty : ds = [] → c.packedBytes = 0

namespace Holds

variable {maxBytes maxDescs : ℕ} {ds : List ChunkDesc} {c : BounceChunk}

variable (h : Holds maxBytes maxDescs ds c)
include h

lemma stagedCopies : c.stagedCopies = ds.map ChunkDesc.staged := by
  rw [BounceChunk.stagedCopies, h.srcPtrs, h.bounceOffsets, h.sizes, zip_map', zip_map', map_map]
  rfl

lemma apart : c.stagedCopies.Pairwise Staged.Apart := by
  rw [h.stagedCopies, pairwise_map]
  exact h.order.imp fun hle => .inl hle

variable (hmax : maxBytes < 2 ^ 32)
include hmax

lemma runsFor :
    RunsFor (ds.map fun d => (d.dst, d.off, d.size)) (buildScatterRuns c).scatterRuns.reverse := by
  rw [buildScatterRuns, reverse_reverse, h.dstPtrs, h.bounceOffsets, h.sizes, zip_map', zip_map']
  have hnil : RunsFor [] [] := ⟨rfl, by simp, Nat.le_refl 0⟩
  refine hnil.run _ fun e he => ?_
  obtain ⟨d, hd, rfl⟩ := mem_map.mp he
  have := h.inside d hd
  have := h.packed
  exact ⟨h.pos d hd, by dsimp only; omega⟩

/-- **What a flushed chunk moves** is what its entries say. -/
lemma moves :
    (buildScatterRuns c).moves = (copiesOf ds).map fun m => (some m.1, m.2) := by
  have hbytes : (buildScatterRuns c).scatterRuns.flatMap BounceScatterRun.bytes
      = ds.flatMap fun d => copyBytes d.off d.dst d.size := by
    rw [← reverse_reverse (buildScatterRuns c).scatterRuns, ← runBytes, (h.runsFor hmax).bytes,
      flatMap_map]
  rw [BounceChunk.moves, hbytes, copiesOf, map_flatMap, map_flatMap]
  refine flatMap_congr fun d hd => ?_
  rw [copyBytes, copyBytes, map_map, map_map]
  refine map_congr_left fun k hk => ?_
  -- the byte is where the gather left it, and nothing else was written there
  have hk := mem_range.mp hk
  have hin := h.inside d hd
  have hpacked := h.packed
  have hst : (buildScatterRuns c).gathered (d.off + k) = some (add64 d.src k) :=
    staged_of_mem h.apart (h.stagedCopies ▸ mem_map_of_mem hd : d.staged ∈ _) hk _
  rw [comp_apply, comp_apply, add64_eq_of_lt (by omega), hst]

/-- A flushed chunk keeps to the limits. -/
lemma within : (buildScatterRuns c).Within maxBytes maxDescs where
  dstPtrs := by rw [buildScatterRuns, h.dstPtrs, h.srcPtrs, length_map, length_map]
  sizes := by rw [buildScatterRuns, h.sizes, h.srcPtrs, length_map, length_map]
  bounceOffsets := by
    rw [buildScatterRuns, h.bounceOffsets, h.srcPtrs, length_map, length_map]
  apart := h.apart
  inside := by
    intro e he
    have he : e ∈ c.stagedCopies := he
    rw [h.stagedCopies] at he
    obtain ⟨d, hd, rfl⟩ := mem_map.mp he
    exact h.inside d hd
  packed := h.packed
  descs := by
    have hlen : (buildScatterRuns c).srcPtrs.length = ds.length := by
      rw [buildScatterRuns, h.srcPtrs, length_map]
    exact hlen ▸ h.descs
  count := by
    have hlen : (buildScatterRuns c).srcPtrs.length = ds.length := by
      rw [buildScatterRuns, h.srcPtrs, length_map]
    exact hlen ▸ h.count
  runs := by
    have hruns := (h.runsFor hmax).length
    rw [length_reverse, length_map] at hruns
    have hlen : (buildScatterRuns c).srcPtrs.length = ds.length := by
      rw [buildScatterRuns, h.srcPtrs, length_map]
    exact hlen ▸ hruns

end Holds

/-! ### The packing loop -/

lemma le_alignUp (n : ℕ) : n ≤ alignUp n kAlignment := by
  rw [alignUp, kAlignment]
  omega

lemma alignUp_zero : alignUp 0 kAlignment = 0 := by decide

/-- The bytes of the pairs of descriptors, with sums of 64-bit words. -/
def pairBytes (descs : List (MemoryDesc × MemoryDesc)) : List (ℕ × ℕ) :=
  descs.flatMap fun d => copyBytes d.1.addr d.2.addr d.1.len

lemma pairBytes_append_singleton (descs : List (MemoryDesc × MemoryDesc)) (src dst : MemoryDesc) :
    pairBytes (descs ++ [(src, dst)]) = pairBytes descs ++ copyBytes src.addr dst.addr src.len := by
  rw [pairBytes, flatMap_append, flatMap_singleton, pairBytes]

/-- The invariant of the loop after the pairs `done`: the flushed chunks and then the entries
`ds` of the current one move the bytes of `done`. -/
structure Packs (maxBytes maxDescs : ℕ) (done : List (MemoryDesc × MemoryDesc))
    (ds : List ChunkDesc)
    (p : Packing) : Prop where
  current : Holds maxBytes maxDescs ds p.current
  cursor : p.cursor = alignUp p.current.packedBytes kAlignment
  chunks : ∀ c ∈ p.plan.mChunks, c.Within maxBytes maxDescs
  moves : p.plan.mChunks.flatMap BounceChunk.moves ++ ((copiesOf ds).map fun m => (some m.1, m.2))
    = (pairBytes done).map fun m => (some m.1, m.2)
  totalBytes : p.plan.mTotalBytes = (done.map fun d => d.1.len).sum
  totalDescs : p.plan.mTotalDescs = done.length

namespace Packs

variable {maxBytes maxDescs : ℕ} {done : List (MemoryDesc × MemoryDesc)} {ds : List ChunkDesc}
  {p : Packing}

variable {src : MemoryDesc}

lemma holds_empty {maxBytes maxDescs : ℕ} (dev : ℕ) :
    Holds maxBytes maxDescs [] { dstDeviceId := dev } :=
  ⟨rfl, rfl, rfl, rfl, by simp, .nil, by simp, Nat.zero_le _, Nat.zero_le _, Nat.zero_le _,
    fun _ => rfl⟩

lemma flush (h : Packs maxBytes maxDescs done ds p) (hmax : maxBytes < 2 ^ 32) :
    Packs maxBytes maxDescs done [] (flush p) := by
  rw [BounceTransferPlan.flush]
  split_ifs with hnil
  · have hds : ds = [] := map_eq_nil_iff.mp (h.current.srcPtrs ▸ hnil)
    exact hds ▸ h
  · refine ⟨holds_empty 0, alignUp_zero.symm, ?_, ?_, h.totalBytes, h.totalDescs⟩
    · intro c hc
      rcases mem_append.mp hc with hc | hc
      · exact h.chunks c hc
      · rw [mem_singleton.mp hc]
        exact h.current.within hmax
    · rw [flatMap_append, flatMap_singleton, h.current.moves hmax, h.moves]
      exact append_nil _

/-- A descriptor at the end of the current chunk. -/
lemma append (h : Packs maxBytes maxDescs done ds p) (dst : MemoryDesc)
    (hlen : 0 < src.len) (hfits : p.cursor + src.len ≤ maxBytes) (hdescs : ds.length < maxDescs) :
    Packs maxBytes maxDescs (done ++ [(src, dst)])
      (ds ++ [⟨src.addr, dst.addr, p.cursor, src.len⟩]) (append p src dst) := by
  have hle := le_alignUp p.current.packedBytes
  rw [← h.cursor] at hle
  have hin : ∀ d ∈ ds, d.off + d.size ≤ p.cursor := fun d hd => (h.current.inside d hd).trans hle
  have hcount := h.current.count
  refine ⟨⟨?_, ?_, ?_, ?_, ?_, ?_, ?_, hfits, ?_, ?_, by simp⟩, rfl, h.chunks, ?_, ?_, ?_⟩
  · simp only [BounceTransferPlan.append, h.current.srcPtrs, map_append, map_cons, map_nil]
  · simp only [BounceTransferPlan.append, h.current.dstPtrs, map_append, map_cons, map_nil]
  · simp only [BounceTransferPlan.append, h.current.bounceOffsets, map_append, map_cons, map_nil]
  · simp only [BounceTransferPlan.append, h.current.sizes, map_append, map_cons, map_nil]
  · exact forall_mem_append.mpr ⟨h.current.pos, by simpa using hlen⟩
  · refine pairwise_append.mpr ⟨h.current.order, pairwise_singleton _ _, ?_⟩
    simpa using hin
  · refine forall_mem_append.mpr ⟨fun d hd => (hin d hd).trans ?_, ?_⟩
    · exact Nat.le_add_right _ _
    · simp [BounceTransferPlan.append]
  · rw [length_append, length_singleton]
    exact hdescs
  · simp only [BounceTransferPlan.append, length_append, length_singleton]
    omega
  · rw [pairBytes_append_singleton, copiesOf, flatMap_append, flatMap_singleton, ← copiesOf,
      map_append, map_append, ← append_assoc, ← h.moves]
    rfl
  · rw [map_append, sum_append, ← h.totalBytes]
    simp [BounceTransferPlan.append]
  · rw [length_append, length_singleton, ← h.totalDescs]
    rfl

/-- The last descriptor of the current chunk grows. -/
lemma grow {d : ChunkDesc} (h : Packs maxBytes maxDescs done (ds ++ [d]) p) {dst : MemoryDesc}
    (hmax : maxBytes < 2 ^ 32) (hfits : p.cursor + src.len ≤ maxBytes)
    (hcont : continues p src dst = true) :
    Packs maxBytes maxDescs (done ++ [(src, dst)]) (ds ++ [{ d with size := d.size + src.len }])
      (grow p src.len) := by
  have hmem : d ∈ ds ++ [d] := by simp
  have hpos := h.current.pos d hmem
  have hd := h.current.inside d hmem
  have hpacked := h.current.packed
  obtain ⟨hsrc, hdst, hcur⟩ : src.addr = add64 d.src d.size ∧ dst.addr = add64 d.dst d.size
      ∧ p.cursor = d.off + d.size := by
    rw [continues, h.current.srcPtrs, h.current.dstPtrs, h.current.bounceOffsets,
      h.current.sizes] at hcont
    simp only [map_append, map_cons, map_nil, getLast?_concat, decide_eq_true_eq] at hcont
    refine ⟨hcont.1, hcont.2.1, ?_⟩
    rw [hcont.2.2.1, add64_eq_of_lt (by omega)]
  have hgrown : (BounceTransferPlan.grow p src.len).current.packedBytes
      = d.off + (d.size + src.len) := by
    simp only [BounceTransferPlan.grow, h.current.bounceOffsets, h.current.sizes, map_append,
      map_cons, map_nil, getLastD_concat]
    exact add64_eq_of_lt (by omega)
  obtain ⟨hordered, -, hbefore⟩ := pairwise_append.mp h.current.order
  have hbefore : ∀ e ∈ ds, e.off + e.size ≤ d.off := fun e he => hbefore e he d (by simp)
  refine ⟨⟨?_, ?_, ?_, ?_, ?_, ?_, ?_, ?_, ?_, ?_, by simp⟩, rfl, h.chunks, ?_, ?_, ?_⟩
  · simp only [BounceTransferPlan.grow, h.current.srcPtrs, map_append, map_cons, map_nil]
  · simp only [BounceTransferPlan.grow, h.current.dstPtrs, map_append, map_cons, map_nil]
  · simp only [BounceTransferPlan.grow, h.current.bounceOffsets, map_append, map_cons, map_nil]
  · simp only [BounceTransferPlan.grow, h.current.sizes, map_append, map_cons, map_nil,
      dropLast_concat, getLastD_concat]
  · obtain ⟨hds, -⟩ := forall_mem_append.mp h.current.pos
    exact forall_mem_append.mpr ⟨hds, by simp; omega⟩
  · exact pairwise_append.mpr ⟨hordered, pairwise_singleton _ _, by simpa using hbefore⟩
  · rw [hgrown]
    refine forall_mem_append.mpr ⟨fun e he => ?_, by simp⟩
    have := hbefore e he
    omega
  · rw [hgrown]
    omega
  · have := h.current.descs
    rw [length_append, length_singleton] at this ⊢
    exact this
  · have hcount := h.current.count
    rw [hgrown, length_append, length_singleton]
    rw [length_append, length_singleton] at hcount
    have hle := le_alignUp p.current.packedBytes
    rw [← h.cursor, hcur] at hle
    omega
  · -- the two parts of the last entry are one copy
    have hcopies : copiesOf (ds ++ [{ d with size := d.size + src.len }])
        = copiesOf (ds ++ [d]) ++ copyBytes src.addr dst.addr src.len := by
      rw [copiesOf, copiesOf, flatMap_append, flatMap_append, flatMap_singleton,
        flatMap_singleton, append_assoc, hsrc, hdst, copyBytes_add]
    rw [pairBytes_append_singleton, hcopies, map_append, map_append, ← append_assoc, ← h.moves]
    rfl
  · rw [map_append, sum_append, ← h.totalBytes]
    simp [BounceTransferPlan.grow]
  · rw [length_append, length_singleton, ← h.totalDescs]
    rfl

/-- **One more pair of descriptors**, whichever way the loop packs it. -/
lemma pack (h : Packs maxBytes maxDescs done ds p) (hmax : maxBytes < 2 ^ 32) (hpos : 0 < maxDescs)
    (dst : MemoryDesc) (hlen : src.len ≤ maxBytes) (dev : ℕ) :
    ∃ ds', Packs maxBytes maxDescs (done ++ [(src, dst)]) ds'
      (pack maxBytes maxDescs dev p src dst) := by
  have hnil : p.current.srcPtrs = [] ↔ ds = [] := by rw [h.current.srcPtrs, map_eq_nil_iff]
  have hdescs : p.current.srcPtrs.length = ds.length := by rw [h.current.srcPtrs, length_map]
  rw [BounceTransferPlan.pack]
  dsimp only
  split_ifs with h0 h1 h2
  · refine ⟨ds, h.current, h.cursor, h.chunks, ?_, ?_, ?_⟩
    · rw [pairBytes_append_singleton, h0, copyBytes_zero, append_nil]
      exact h.moves
    · simpa [h0] using h.totalBytes
    · simpa using h.totalDescs
  · obtain ⟨hne, hfits, hcont⟩ := h1
    obtain ⟨ds, d, rfl⟩ := (eq_nil_or_concat' ds).resolve_left (mt hnil.mpr hne)
    exact ⟨_, h.grow hmax (by omega) hcont⟩
  · have hf := h.flush hmax
    have hcur : (BounceTransferPlan.flush p).cursor = 0 := by
      rw [hf.cursor, hf.current.empty rfl, alignUp_zero]
    refine ⟨_, Packs.append (p := { BounceTransferPlan.flush p with
      current := { (BounceTransferPlan.flush p).current with dstDeviceId := dev } })
      ⟨⟨hf.current.srcPtrs, hf.current.dstPtrs, hf.current.bounceOffsets, hf.current.sizes,
        hf.current.pos, hf.current.order, hf.current.inside, hf.current.packed, hf.current.descs,
        hf.current.count, hf.current.empty⟩, hf.cursor, hf.chunks, hf.moves, hf.totalBytes,
          hf.totalDescs⟩ dst (by omega) ?_ hpos⟩
    rw [hcur]
    omega
  · refine ⟨_, h.append dst (by omega) (by omega) (by omega)⟩

/-- The loop of `build` over the pairs `more`. -/
lemma packLoop (more : List (MemoryDesc × MemoryDesc)) {sd dd i : ℕ} {q : Packing}
    (h : Packs maxBytes maxDescs done ds p) (hmax : maxBytes < 2 ^ 32) (hpos : 0 < maxDescs)
    (hq : packLoop maxBytes maxDescs sd dd i more p = .ok q) :
    ∃ ds', Packs maxBytes maxDescs (done ++ more) ds' q := by
  induction more generalizing i done ds p with
  | nil =>
    cases hq
    exact ⟨ds, by simpa using h⟩
  | cons d more ih =>
    rw [BounceTransferPlan.packLoop] at hq
    cases hc : checkDesc maxBytes sd dd i d.1 d.2 with
    | error e =>
      rw [hc] at hq
      cases hq
    | ok u =>
      rw [hc] at hq
      have hlen : d.1.len ≤ maxBytes := by
        unfold checkDesc at hc
        split_ifs at hc
        omega
      obtain ⟨ds', h'⟩ := h.pack hmax hpos d.2 hlen dd
      have := ih h' hq
      rwa [append_assoc, singleton_append] at this

end Packs

/-! ### The plan -/

/-- What `build` asks of its arguments. -/
structure Accepts (srcDescs dstDescs : List MemoryDesc) (maxChunkSizeBytes maxDescsPerChunk : ℕ) :
    Prop where
  length : srcDescs.length = dstDescs.length
  maxBytes_pos : 0 < maxChunkSizeBytes
  maxDescs_pos : 0 < maxDescsPerChunk
  maxBytes_lt : maxChunkSizeBytes < 2 ^ 32
  len : ∀ d ∈ srcDescs.zip dstDescs, d.1.len = d.2.len ∧ d.1.len ≤ maxChunkSizeBytes
  oneSource : ∀ s ∈ srcDescs, ∀ t ∈ srcDescs, s.deviceId = t.deviceId
  oneDestination : ∀ s ∈ dstDescs, ∀ t ∈ dstDescs, s.deviceId = t.deviceId

variable {maxBytes : ℕ}

lemma checkDesc_eq_ok_iff {sd dd i : ℕ} (hmax : maxBytes < 2 ^ 32) {src dst : MemoryDesc} :
    checkDesc maxBytes sd dd i src dst = .ok ()
      ↔ (src.len = dst.len ∧ src.len ≤ maxBytes) ∧ src.deviceId = sd ∧ dst.deviceId = dd := by
  unfold checkDesc
  constructor
  · intro h
    split_ifs at h
    omega
  · rintro ⟨⟨h1, h2⟩, h3, h4⟩
    rw [if_neg (by omega), if_neg (by omega), if_neg (by omega), if_neg (by omega),
      if_neg (by omega)]

lemma packLoop_isOk_iff {sd dd : ℕ} (maxDescs : ℕ) (hmax : maxBytes < 2 ^ 32)
    (descs : List (MemoryDesc × MemoryDesc)) (i : ℕ) (p : Packing) :
    (∃ q, packLoop maxBytes maxDescs sd dd i descs p = .ok q)
      ↔ ∀ d ∈ descs, (d.1.len = d.2.len ∧ d.1.len ≤ maxBytes) ∧ d.1.deviceId = sd
        ∧ d.2.deviceId = dd := by
  induction descs generalizing i p with
  | nil => simp [packLoop]
  | cons d descs ih =>
    rw [forall_mem_cons, ← ih (i + 1) (pack maxBytes maxDescs dd p d.1 d.2),
      ← checkDesc_eq_ok_iff (i := i) hmax, packLoop]
    cases checkDesc maxBytes sd dd i d.1 d.2 with
    | error e =>
      constructor
      · rintro ⟨q, hq⟩
        cases hq
      · rintro ⟨h, -⟩
        cases h
    | ok u => exact ⟨fun h => ⟨rfl, h⟩, fun h => h.2⟩

/-- The first descriptor of each side names the device of its side. -/
lemma accepts_cons_iff {s t : MemoryDesc} {ss ts : List MemoryDesc} {maxDescs : ℕ}
    (hlen : (s :: ss).length = (t :: ts).length) (hpos : 0 < maxBytes) (hdescs : 0 < maxDescs)
    (hmax : maxBytes < 2 ^ 32) :
    Accepts (s :: ss) (t :: ts) maxBytes maxDescs
      ↔ ∀ d ∈ (s :: ss).zip (t :: ts), (d.1.len = d.2.len ∧ d.1.len ≤ maxBytes)
          ∧ d.1.deviceId = s.deviceId ∧ d.2.deviceId = t.deviceId := by
  constructor
  · intro h d hd
    obtain ⟨hs, ht⟩ := of_mem_zip hd
    exact ⟨h.len d hd, h.oneSource _ hs _ mem_cons_self, h.oneDestination _ ht _ mem_cons_self⟩
  · intro h
    have hsource : ∀ u ∈ s :: ss, u.deviceId = s.deviceId := by
      intro u hu
      rw [← map_fst_zip hlen.le] at hu
      obtain ⟨d, hd, rfl⟩ := mem_map.mp hu
      exact (h d hd).2.1
    have hdestination : ∀ u ∈ t :: ts, u.deviceId = t.deviceId := by
      intro u hu
      rw [← map_snd_zip hlen.ge] at hu
      obtain ⟨d, hd, rfl⟩ := mem_map.mp hu
      exact (h d hd).2.2
    exact ⟨hlen, hpos, hdescs, hmax, fun d hd => (h d hd).1,
      fun u hu v hv => (hsource u hu).trans (hsource v hv).symm,
      fun u hu v hv => (hdestination u hu).trans (hdestination v hv).symm⟩

/-- **`build` accepts** exactly the transfers that meet its checks. -/
theorem build_isOk_iff (srcDescs dstDescs : List MemoryDesc) (maxBytes maxDescs : ℕ) :
    (∃ plan, build srcDescs dstDescs maxBytes maxDescs = .ok plan)
      ↔ Accepts srcDescs dstDescs maxBytes maxDescs := by
  unfold build
  split_ifs with h1 h2 h3
  · exact ⟨fun ⟨_, h⟩ => (by cases h), fun h => absurd h.length h1⟩
  · refine ⟨fun ⟨_, h⟩ => (by cases h), fun h => ?_⟩
    have := h.maxBytes_pos
    have := h.maxDescs_pos
    omega
  · refine ⟨fun ⟨_, h⟩ => (by cases h), fun h => ?_⟩
    have := h.maxBytes_lt
    omega
  rw [not_not] at h1
  cases srcDescs with
  | nil =>
    obtain rfl := length_eq_zero_iff.mp h1.symm
    exact ⟨fun _ => ⟨rfl, by omega, by omega, by omega, by simp, by simp, by simp⟩,
      fun _ => ⟨_, rfl⟩⟩
  | cons s ss =>
    obtain ⟨t, ts, rfl⟩ := exists_cons_of_length_eq_add_one h1.symm
    rw [accepts_cons_iff h1 (by omega) (by omega) (by omega),
      ← packLoop_isOk_iff maxDescs (by omega) _ 0
        { current := { dstDeviceId := t.deviceId } }]
    dsimp only
    cases packLoop maxBytes maxDescs s.deviceId t.deviceId 0 ((s :: ss).zip (t :: ts))
        { current := { dstDeviceId := t.deviceId } } with
    | error e =>
      constructor <;>
      · rintro ⟨q, hq⟩
        cases hq
    | ok p => exact ⟨fun _ => ⟨p, rfl⟩, fun _ => ⟨_, rfl⟩⟩

/-- The loop and the last flush of `build`. -/
lemma packs_of_build {srcDescs dstDescs : List MemoryDesc} {maxDescs : ℕ}
    {plan : BounceTransferPlan} (h : build srcDescs dstDescs maxBytes maxDescs = .ok plan) :
    ∃ p, Packs maxBytes maxDescs (srcDescs.zip dstDescs) [] p ∧ p.plan = plan := by
  have hempty : ∀ dev, Packs maxBytes maxDescs [] [] { current := { dstDeviceId := dev } } :=
    fun dev => ⟨Packs.holds_empty dev, alignUp_zero.symm, by simp, rfl, rfl, rfl⟩
  have hok := (build_isOk_iff _ _ _ _).mp ⟨plan, h⟩
  unfold build at h
  split_ifs at h
  cases srcDescs with
  | nil =>
    cases h
    exact ⟨_, hempty 0, rfl⟩
  | cons s ss =>
    obtain ⟨t, ts, rfl⟩ := exists_cons_of_length_eq_add_one hok.length.symm
    dsimp only at h
    cases hp : packLoop maxBytes maxDescs s.deviceId t.deviceId 0 ((s :: ss).zip (t :: ts))
        { current := { dstDeviceId := t.deviceId } } with
    | error e =>
      rw [hp] at h
      cases h
    | ok p =>
      rw [hp] at h
      cases h
      obtain ⟨ds, hpacks⟩ := (hempty t.deviceId).packLoop _ hok.maxBytes_lt hok.maxDescs_pos hp
      exact ⟨flush p, hpacks.flush hok.maxBytes_lt, rfl⟩

/-- **A plan preserves its transfer.**  The chunks of a plan, gathered by their arrays and
scattered by their runs, move the bytes of the descriptors one by one in the order of the
descriptors; each chunk keeps to its limits, and the totals are those of the transfer. -/
theorem build_moves {srcDescs dstDescs : List MemoryDesc} {maxChunkSizeBytes maxDescsPerChunk : ℕ}
    {plan : BounceTransferPlan}
    (h : build srcDescs dstDescs maxChunkSizeBytes maxDescsPerChunk = .ok plan)
    (hsrc : ∀ d ∈ srcDescs, d.addr + d.len ≤ 2 ^ 64)
    (hdst : ∀ d ∈ dstDescs, d.addr + d.len ≤ 2 ^ 64) : plan.mChunks.flatMap BounceChunk.moves
        = ((transferMoves (srcDescs.zip dstDescs)).map fun m => (some m.1, m.2))
      ∧ (∀ c ∈ plan.mChunks, c.Within maxChunkSizeBytes maxDescsPerChunk)
      ∧ plan.mTotalBytes = (srcDescs.map MemoryDesc.len).sum
      ∧ plan.mTotalDescs = srcDescs.length := by
  have hok := (build_isOk_iff _ _ _ _).mp ⟨plan, h⟩
  have hplain : pairBytes (srcDescs.zip dstDescs) = transferMoves (srcDescs.zip dstDescs) := by
    refine flatMap_congr fun d hd => ?_
    have hs := hsrc d.1 (of_mem_zip hd).1
    have ht := hdst d.2 (of_mem_zip hd).2
    have hlen := (hok.len d hd).1
    exact copyBytes_eq_of_le hs (by omega)
  have hlens : ((srcDescs.zip dstDescs).map fun d => d.1.len) = srcDescs.map MemoryDesc.len := by
    conv_rhs => rw [← map_fst_zip hok.length.le, map_map]
    rfl
  obtain ⟨p, hp, rfl⟩ := packs_of_build h
  refine ⟨?_, hp.chunks, ?_, ?_⟩
  · rw [← hplain, ← hp.moves]
    exact (append_nil _).symm
  · rw [hp.totalBytes, hlens]
  · rw [hp.totalDescs, length_zip, ← hok.length, Nat.min_self]

/-- Three pieces of a strided destination, and a fourth that starts the second chunk. -/
def stridedDescs : List MemoryDesc × List MemoryDesc :=
  ([⟨1000, 32, 0⟩, ⟨2000, 32, 0⟩, ⟨2032, 32, 0⟩, ⟨5000, 64, 0⟩],
    [⟨8000, 32, 1⟩, ⟨8100, 32, 1⟩, ⟨8200, 32, 1⟩, ⟨9000, 64, 1⟩])

/-- The plan of these descriptors, with chunks of at most 96 bytes. -/
theorem build_moves_strided : ∃ plan, build stridedDescs.1 stridedDescs.2 96 4 = .ok plan
      ∧ plan.mChunks.map (fun c => c.scatterRuns.map (·.count)) = [[3], [1]]
      ∧ plan.mChunks.flatMap BounceChunk.moves
        = ((transferMoves (stridedDescs.1.zip stridedDescs.2)).map fun m => (some m.1, m.2)) := by
  have hok : ∃ plan, build stridedDescs.1 stridedDescs.2 96 4 = .ok plan := ⟨_, rfl⟩
  obtain ⟨plan, h⟩ := hok
  refine ⟨plan, h, ?_, (build_moves h (by decide) (by decide)).1⟩
  obtain rfl := Except.ok.inj h
  rfl

end BounceTransferPlan

end TrtLlm
