import TrtLlm.KvCache.BlockKey
import TrtLlm.Util.RunLayout

/-!
`blockKey.cpp`: the keys of the blocks of a prompt with multimodal items.

The tokens of an item are placeholders, so the key of a block lists, for each run of an item that
reaches into it, the hash of the item and the offset of the first of its tokens in the block.

* `generateBlockHashExtraKeys_spec`: for valid metadata these are the keys of the runs.
-/

namespace TrtLlm.KvCache

open List Nat Prod

/-- `std::optional<std::shared_ptr<std::vector<T>>>`. -/
abbrev OptionalVector (α : Type) := Option (Option (List α))

/-- `LlmRequest`, as far as `buildBlockKeys` reads it.  A hash is eight words of 32 bits. -/
structure MultimodalRequest where
  multimodalHashes : OptionalVector (List (BitVec 32))
  multimodalPositions : OptionalVector ℤ
  multimodalLengths : OptionalVector ℤ
  multimodalUuids : OptionalVector (Option String)
  multimodalItemRunCuOffsets : OptionalVector ℤ
  multimodalRunPositions : OptionalVector ℤ
  multimodalRunLengths : OptionalVector ℤ
  usesExtraIds : Bool
  loraTaskId : Option ℕ
  cacheSalt : Option String

/-- `RunMetadataView`. -/
structure RunMetadataView where
  itemRunCuOffsets : List ℤ
  runPositions : List ℤ
  runLengths : List ℤ

/-- `RunMetadataResolution`. -/
inductive RunMetadataResolution where
  | absent
  | invalid
  | present (metadata : RunMetadataView)

/-- Why no keys are returned: a check failed, or the metadata are not to be used. -/
inductive KeyError where
  | raised
  | fallBack
deriving DecidableEq

/-- `getNthByte`. -/
def getNthByte (hashPart : BitVec 32) (byteIdx : ℕ) : UInt8 :=
  ⟨(hashPart.sshiftRight (24 - byteIdx * 8) &&& 0xFF#32).setWidth 8⟩

/-- The bytes of `makeHashArray`, the most significant one of each part first. -/
def hashBytes (mmHashVector : List (BitVec 32)) : List UInt8 :=
  mmHashVector.flatMap fun hashPart => (range 4).map (getNthByte hashPart)

/-- `makeHashArray`. -/
def makeHashArray (mmHashVector : List (BitVec 32)) : Except KeyError (List UInt8) :=
  if mmHashVector.length = 8 then .ok (hashBytes mmHashVector) else .error .raised

/-- `getUuid`. -/
def getUuid (multimodalUuids : OptionalVector (Option String)) (itemIdx : ℕ) : Option String :=
  match multimodalUuids.join with
  | some uuids => uuids[itemIdx]?.join
  | none => none

/-- `resolveRunMetadata`. -/
def resolveRunMetadata (itemRunCuOffsets runPositions runLengths : OptionalVector ℤ)
    (itemCount : ℕ) : RunMetadataResolution :=
  if itemRunCuOffsets.isNone ∧ runPositions.isNone ∧ runLengths.isNone then .absent
  else match itemRunCuOffsets.join, runPositions.join, runLengths.join with
    | some offsets, some positions, some lengths =>
      if offsets.length ≠ itemCount + 1 ∨ offsets.headD 0 ≠ 0 ∨ offsets.getLastD 0 < 0
          ∨ offsets.getLastD 0 ≠ positions.length ∨ positions.length ≠ lengths.length then .invalid
      else .present ⟨offsets, positions, lengths⟩
    | _, _, _ => .invalid

/-- `std::numeric_limits<SizeType32>::max()`. -/
def maxSizeType32 : ℤ := 2 ^ 31 - 1

/-- `getValidRunEnd`. -/
def getValidRunEnd (runStart runLength : ℤ) : Option ℤ :=
  if runStart < 0 ∨ runLength ≤ 0 ∨ maxSizeType32 < runStart + runLength then none
  else some (runStart + runLength)

/-- The runs of an item: its part of the flat runs. -/
def RunMetadataView.itemRuns (metadata : RunMetadataView) (itemIdx : ℕ) : List (ℤ × ℤ) :=
  let runBegin := metadata.itemRunCuOffsets.getD itemIdx 0
  let runEnd := metadata.itemRunCuOffsets.getD (itemIdx + 1) 0
  ((metadata.runPositions.zip metadata.runLengths).drop runBegin.toNat).take
    (runEnd - runBegin).toNat

/-- The loop of `generateRunBasedExtraKeys` over the runs of an item. -/
def itemKeys (hash : List UInt8) (uuid : Option String) (startTokenIdx endTokenIdx : ℤ) :
    ℤ → List (ℤ × ℤ) → Except KeyError (List MmKey)
  | _, [] => .ok []
  | itemOffset, (runStart, runLength) :: runs =>
    match getValidRunEnd runStart runLength with
    | none => .error .fallBack
    | some runEnd => do
      let keys ← itemKeys hash uuid startTokenIdx endTokenIdx (itemOffset + runLength) runs
      if runStart < endTokenIdx ∧ startTokenIdx < runEnd then
        let overlapStart := max startTokenIdx runStart
        return ⟨hash, itemOffset + overlapStart - runStart, uuid⟩ :: keys
      else return keys

/-- `generateRunBasedExtraKeys`, from an item on. -/
def generateRunBasedExtraKeys (multimodalUuids : OptionalVector (Option String))
    (metadata : RunMetadataView)
    (startTokenIdx endTokenIdx : ℤ) : ℕ → List (List (BitVec 32)) → Except KeyError (List MmKey)
  | _, [] => .ok []
  | itemIdx, hash :: hashes =>
    let runBegin := metadata.itemRunCuOffsets.getD itemIdx 0
    let runEnd := metadata.itemRunCuOffsets.getD (itemIdx + 1) 0
    if runBegin < 0 ∨ runEnd < runBegin ∨ metadata.runPositions.length
      < runEnd then .error .fallBack
    else do
      let mmHashArray ← makeHashArray hash
      let keys ← itemKeys mmHashArray (getUuid multimodalUuids itemIdx) startTokenIdx endTokenIdx 0
        (metadata.itemRuns itemIdx)
      let rest ← generateRunBasedExtraKeys multimodalUuids metadata startTokenIdx endTokenIdx
        (itemIdx + 1) hashes
      return keys ++ rest

/-- The loop of `generateLegacyContiguousExtraKeys`. -/
def legacyKeys (multimodalUuids : OptionalVector (Option String)) (startTokenIdx endTokenIdx : ℤ) :
    ℕ → List (List (BitVec 32) × ℤ × ℤ) → Except KeyError (List MmKey)
  | _, [] => .ok []
  | itemIdx, (hash, startPos, length) :: items =>
    match getValidRunEnd startPos length with
    | none => .error .fallBack
    | some runEnd => do
      let keys ← if startPos < endTokenIdx ∧ startTokenIdx < runEnd then do
          let mmStartInBlock := if startTokenIdx ≤ startPos then 0 else startTokenIdx - startPos
          let mmHashArray ← makeHashArray hash
          pure [⟨mmHashArray, mmStartInBlock, getUuid multimodalUuids itemIdx⟩]
        else pure []
      let rest ← legacyKeys multimodalUuids startTokenIdx endTokenIdx (itemIdx + 1) items
      return keys ++ rest

/-- `generateLegacyContiguousExtraKeys`: no keys when the metadata are not usable. -/
def generateLegacyContiguousExtraKeys (hashes : List (List (BitVec 32)))
    (multimodalPositions multimodalLengths : OptionalVector ℤ)
    (multimodalUuids : OptionalVector (Option String)) (startTokenIdx endTokenIdx : ℤ) :
    Except KeyError (List MmKey) :=
  match multimodalPositions.join, multimodalLengths.join with
  | some positions, some lengths =>
    if positions = [] ∨ lengths = [] then .ok []
    else if hashes.length ≠ positions.length ∨ positions.length ≠ lengths.length then .ok []
    else match legacyKeys multimodalUuids startTokenIdx endTokenIdx 0
        (hashes.zip (positions.zip lengths)) with
      | .error .fallBack => .ok []
      | result => result
  | _, _ => .ok []

namespace MultimodalRequest

/-- The run metadata of a request with some items. -/
def runMetadata (req : MultimodalRequest) (itemCount : ℕ) : RunMetadataResolution :=
  resolveRunMetadata req.multimodalItemRunCuOffsets req.multimodalRunPositions
    req.multimodalRunLengths
    itemCount

/-- `generateBlockHashExtraKeys`. -/
def generateBlockHashExtraKeys (req : MultimodalRequest) (startTokenIdx endTokenIdx : ℤ) :
    Except KeyError (List MmKey) :=
  match req.multimodalHashes.join with
  | none => .ok []
  | some [] => .ok []
  | some hashes =>
    let legacy :=
      generateLegacyContiguousExtraKeys hashes req.multimodalPositions req.multimodalLengths
      req.multimodalUuids startTokenIdx endTokenIdx
    match req.runMetadata hashes.length with
    | .invalid => legacy
    | .present metadata =>
      match generateRunBasedExtraKeys req.multimodalUuids metadata startTokenIdx endTokenIdx 0
        hashes with
      | .error .fallBack => legacy
      | result => result
    | .absent => legacy

/-- `buildBlockKeys`, from a token on. -/
def buildBlockKeys (req : MultimodalRequest) :
    ℤ → List (List UniqueToken) → Except KeyError (List BlockKey)
  | _, [] => .ok []
  | currentTokenIdx, uniqueTokens :: blocks => do
    let nextTokenIdx := currentTokenIdx + uniqueTokens.length
    let extraKeys ← req.generateBlockHashExtraKeys currentTokenIdx nextTokenIdx
    let rest ← req.buildBlockKeys nextTokenIdx blocks
    return ⟨req.usesExtraIds, req.loraTaskId, uniqueTokens, extraKeys, req.cacheSalt⟩ :: rest

/-! ### The layout of the items -/

/-- The runs of an item, one after the other from an offset on. -/
def placedRuns (hash : List (BitVec 32)) : ℤ → List (ℤ × ℤ) → List (PlacedRun (List (BitVec 32)))
  | _, [] => []
  | offset, run :: runs => ⟨hash, run.1, run.2, offset⟩ :: placedRuns hash (offset + run.2) runs

/-- The items of a request, each with its hash and its runs: from the run metadata, or one
contiguous run for each. -/
def items (req : MultimodalRequest) : List (List (BitVec 32) × List (ℤ × ℤ)) :=
  match req.multimodalHashes.join with
  | none => []
  | some hashes =>
    match req.runMetadata hashes.length with
    | .present metadata => hashes.zipIdx.map fun item => (item.1, metadata.itemRuns item.2)
    | _ => match req.multimodalPositions.join, req.multimodalLengths.join with
      | some positions, some lengths =>
        (hashes.zip (positions.zip lengths)).map fun item => (item.1, [item.2])
      | _, _ => []

/-- The runs of a request, item by item. -/
def runs (req : MultimodalRequest) : List (PlacedRun (List (BitVec 32))) :=
  req.items.flatMap fun item => placedRuns item.1 0 item.2

/-- A run is not empty and lies in the range of positions. -/
def RunOk (run : ℤ × ℤ) : Prop := 0 ≤ run.1 ∧ 0 < run.2 ∧ run.1 + run.2 ≤ maxSizeType32

/-- The metadata are of one of the two kinds, and their sizes match. -/
def WellShaped (req : MultimodalRequest) : Prop :=
  match req.multimodalHashes.join with
  | none => True
  | some hashes =>
    match req.runMetadata hashes.length with
    | .absent => ∃ positions lengths, req.multimodalPositions.join = some positions
        ∧ req.multimodalLengths.join = some lengths ∧ hashes.length = positions.length
        ∧ positions.length = lengths.length
    | .invalid => False
    | .present metadata => ∀ i < hashes.length, 0 ≤ metadata.itemRunCuOffsets.getD i 0
        ∧ metadata.itemRunCuOffsets.getD i 0 ≤ metadata.itemRunCuOffsets.getD (i + 1) 0
        ∧ metadata.itemRunCuOffsets.getD (i + 1) 0 ≤ metadata.runPositions.length

/-- **Valid multimodal metadata** for a prompt: the runs are not empty, in order within an item and
pairwise disjoint, the hash of an item determines its number of tokens, and the tokens the runs
cover are those with the id of the placeholder. -/
structure Valid (req : MultimodalRequest) (total : List (BitVec 32) → ℤ) (placeholder : ℤ)
    (tokens : List UniqueToken) : Prop where
  shape : req.WellShaped
  hash_length : ∀ item ∈ req.items, item.1.length = 8
  run_ok : ∀ item ∈ req.items, ∀ run ∈ item.2, RunOk run
  ordered : ∀ item ∈ req.items, item.2.Pairwise fun run run' => run.1 + run.2 ≤ run'.1
  total : ∀ item ∈ req.items, (item.2.map snd).sum = total item.1
  disjoint : req.runs.Pairwise fun r r' => ∀ p, r.Covers p → ¬ r'.Covers p
  placeholder : ∀ (p : ℕ) token, tokens[p]? = some token →
    (PlacedRun.Covered req.runs p ↔ token.tokenId = placeholder)

/-! ### The keys are those of the runs -/

/-- What a key says of the run. -/
def summary (key : MmKey) : List UInt8 × ℤ := (key.hash, key.startOffset)

/-- The same for a run. -/
def withBytes (key : List (BitVec 32) × ℤ) : List UInt8 × ℤ := (hashBytes key.1, key.2)

variable {req : MultimodalRequest} {hash : List (BitVec 32)} {s e : ℤ}

lemma getValidRunEnd_of_ok {run : ℤ × ℤ} (h : RunOk run) :
    getValidRunEnd run.1 run.2 = some (run.1 + run.2) := by
  obtain ⟨h₁, h₂, h₃⟩ := h
  rw [getValidRunEnd, if_neg]
  rintro (h | h | h)
  · omega
  · omega
  · omega

lemma reaches_placed {start length offset : ℤ} :
    PlacedRun.Reaches s e ⟨hash, start, length, offset⟩ ↔ start < e ∧ s < start + length := Iff.rfl

lemma itemKeys_spec (hash : List (BitVec 32)) (uuid : Option String) (s e offset : ℤ)
    {runs : List (ℤ × ℤ)}
    (hruns : ∀ run ∈ runs, RunOk run) :
    ∃ keys, itemKeys (hashBytes hash) uuid s e offset runs = .ok keys
      ∧ keys.map summary = (PlacedRun.keys s e (placedRuns hash offset runs)).map withBytes := by
  induction runs generalizing offset with
  | nil => exact ⟨[], rfl, rfl⟩
  | cons run runs ih =>
    obtain ⟨keys, hkeys, hsummary⟩ :=
      ih (offset + run.2) fun run hrun => hruns run (mem_cons_of_mem _ hrun)
    obtain ⟨runStart, runLength⟩ := run
    have hend := getValidRunEnd_of_ok (hruns (runStart, runLength) mem_cons_self)
    rw [itemKeys, hend]
    rw [hkeys, placedRuns]
    by_cases hreach : runStart < e ∧ s < runStart + runLength
    · refine ⟨⟨hashBytes hash, offset + max s runStart - runStart, uuid⟩ :: keys, ?_, ?_⟩
      · show (if _ then _ else _) = _
        rw [if_pos hreach]
        rfl
      · rw [PlacedRun.keys_cons_of_reaches (reaches_placed.mpr hreach), map_cons, map_cons,
          hsummary]
        rfl
    · refine ⟨keys, ?_, ?_⟩
      · show (if _ then _ else _) = _
        rw [if_neg hreach]
        rfl
      · rw [PlacedRun.keys_cons_of_not fun h => hreach (reaches_placed.mp h), hsummary]

/-- The keys of an item and of those after it. -/
lemma summary_append {keys keys' : List MmKey} {l l' : List (PlacedRun (List (BitVec 32)))}
    (h : keys.map summary = (PlacedRun.keys s e l).map withBytes)
    (h' : keys'.map summary = (PlacedRun.keys s e l').map withBytes) :
    (keys ++ keys').map summary = (PlacedRun.keys s e (l ++ l')).map withBytes := by
  rw [PlacedRun.keys_append, map_append, map_append, h, h']

lemma generateRunBasedExtraKeys_spec (uuids : OptionalVector (Option String))
    (metadata : RunMetadataView)
    (s e : ℤ) (i : ℕ) {hashes : List (List (BitVec 32))}
    (hoffsets : ∀ j < hashes.length, 0 ≤ metadata.itemRunCuOffsets.getD (i + j) 0
      ∧ metadata.itemRunCuOffsets.getD (i + j) 0 ≤ metadata.itemRunCuOffsets.getD (i + j + 1) 0
      ∧ metadata.itemRunCuOffsets.getD (i + j + 1) 0 ≤ metadata.runPositions.length)
    (hhash : ∀ hash ∈ hashes, hash.length = 8)
    (hruns : ∀ j < hashes.length, ∀ run ∈ metadata.itemRuns (i + j), RunOk run) :
    ∃ keys, generateRunBasedExtraKeys uuids metadata s e i hashes = .ok keys
      ∧ keys.map summary = (PlacedRun.keys s e ((hashes.zipIdx i).flatMap fun item =>
          placedRuns item.1 0 (metadata.itemRuns item.2))).map withBytes := by
  induction hashes generalizing i with
  | nil => exact ⟨[], rfl, rfl⟩
  | cons hash hashes ih =>
    obtain ⟨h₁, h₂, h₃⟩ := hoffsets 0 (succ_pos _)
    rw [Nat.add_zero] at h₁ h₂ h₃
    have hhead := hruns 0 (succ_pos _)
    rw [Nat.add_zero] at hhead
    obtain ⟨keys, hkeys, hsummary⟩ := itemKeys_spec hash (getUuid uuids i) s e 0 hhead
    have hnext : ∀ j, i + 1 + j = i + (j + 1) := fun j => by omega
    obtain ⟨rest, hrest, hsummary'⟩ := ih (i + 1)
      (fun j hj => by rw [hnext]; exact hoffsets (j + 1) (succ_lt_succ hj))
      (fun hash hmem => hhash hash (mem_cons_of_mem _ hmem))
      fun j hj => by rw [hnext]; exact hruns (j + 1) (succ_lt_succ hj)
    refine ⟨keys ++ rest, ?_, ?_⟩
    · rw [generateRunBasedExtraKeys, makeHashArray, if_pos (hhash hash mem_cons_self),
        if_neg (by omega)]
      show (itemKeys (hashBytes hash) _ s e 0 _ >>= _) = _
      rw [hkeys, hrest]
      rfl
    · rw [zipIdx_cons, flatMap_cons]
      exact summary_append hsummary hsummary'

lemma legacyKeys_spec (uuids : OptionalVector (Option String)) (s e : ℤ) (i : ℕ)
    {items : List (List (BitVec 32) × ℤ × ℤ)} (hhash : ∀ item ∈ items, item.1.length = 8)
    (hruns : ∀ item ∈ items, RunOk item.2) :
    ∃ keys, legacyKeys uuids s e i items = .ok keys
      ∧ keys.map summary
        = (PlacedRun.keys s e (items.flatMap fun item => placedRuns item.1 0 [item.2])).map
          withBytes := by
  induction items generalizing i with
  | nil => exact ⟨[], rfl, rfl⟩
  | cons item items ih =>
    obtain ⟨rest, hrest, hsummary⟩ :=
      ih (i + 1) (fun item hmem => hhash item (mem_cons_of_mem _ hmem))
      fun item hmem => hruns item (mem_cons_of_mem _ hmem)
    obtain ⟨hash, startPos, length⟩ := item
    have hend := getValidRunEnd_of_ok (hruns (hash, startPos, length) mem_cons_self)
    have hlen : hash.length = 8 := hhash (hash, startPos, length) mem_cons_self
    rw [legacyKeys, hend, makeHashArray, if_pos hlen, flatMap_cons]
    dsimp only
    rw [placedRuns, placedRuns]
    by_cases hreach : startPos < e ∧ s < startPos + length
    · set offset := if s ≤ startPos then (0 : ℤ) else s - startPos with hoffset
      refine ⟨[⟨hashBytes hash, offset, getUuid uuids i⟩] ++ rest, ?_, summary_append ?_ hsummary⟩
      · rw [if_pos hreach, hrest]
        rfl
      · rw [PlacedRun.keys_cons_of_reaches (reaches_placed.mpr hreach)]
        have hkey : offset = 0 + max s startPos - startPos := by
          rw [hoffset]
          split_ifs with hle
          · omega
          · omega
        show [(hashBytes hash, offset)] = [(hashBytes hash, 0 + max s startPos - startPos)]
        rw [hkey]
    · refine ⟨[] ++ rest, ?_, summary_append ?_ hsummary⟩
      · rw [if_neg hreach, hrest]
        rfl
      · rw [PlacedRun.keys_cons_of_not fun h => hreach (reaches_placed.mp h)]
        rfl

/-- **For valid metadata the extra keys of a block are those of the runs.** -/
lemma generateBlockHashExtraKeys_spec {total : List (BitVec 32) → ℤ} {placeholder : ℤ}
    {tokens : List UniqueToken} (h : req.Valid total placeholder tokens) (s e : ℤ) :
    ∃ keys, req.generateBlockHashExtraKeys s e = .ok keys
      ∧ keys.map summary = (PlacedRun.keys s e req.runs).map withBytes := by
  have hshape := h.shape
  have hlength := h.hash_length
  have hrunOk := h.run_ok
  rw [WellShaped] at hshape
  rw [items] at hlength hrunOk
  rw [generateBlockHashExtraKeys, runs, items]
  cases hhashes : req.multimodalHashes.join with
  | none => exact ⟨[], rfl, rfl⟩
  | some hashes =>
    rw [hhashes] at hshape hlength hrunOk
    dsimp only at hshape hlength hrunOk ⊢
    cases hmeta : req.runMetadata hashes.length with
    | invalid =>
      rw [hmeta] at hshape
      exact hshape.elim
    | present metadata =>
      rw [hmeta] at hshape hlength hrunOk
      have hhash : ∀ hash ∈ hashes, hash.length = 8 := by
        intro hash hmem
        obtain ⟨i, hi, rfl⟩ := getElem_of_mem hmem
        exact hlength (hashes[i], metadata.itemRuns i)
          (mem_map.mpr ⟨(hashes[i], i), mk_mem_zipIdx_iff_getElem?.mpr (getElem?_eq_getElem hi),
            rfl⟩)
      have hruns : ∀ j < hashes.length, ∀ run ∈ metadata.itemRuns (0 + j), RunOk run := by
        intro j hj run hmem
        rw [Nat.zero_add] at hmem
        exact hrunOk (hashes[j], metadata.itemRuns j)
          (mem_map.mpr ⟨(hashes[j], j), mk_mem_zipIdx_iff_getElem?.mpr (getElem?_eq_getElem hj),
            rfl⟩)
          run hmem
      obtain ⟨keys, hkeys, hsummary⟩ :=
        generateRunBasedExtraKeys_spec req.multimodalUuids metadata s e 0
        (fun j hj => by rw [Nat.zero_add]; exact hshape j hj) hhash hruns
      rw [flatMap_map]
      cases hashes with
      | nil => exact ⟨[], rfl, rfl⟩
      | cons hash hashes =>
        dsimp only
        rw [hmeta]
        dsimp only
        rw [hkeys]
        exact ⟨keys, rfl, hsummary⟩
    | absent =>
      rw [hmeta] at hshape hlength hrunOk
      obtain ⟨positions, lengths, hpos, hlen, heq, heq'⟩ := hshape
      rw [hpos, hlen] at hlength hrunOk
      have hitem : ∀ item ∈ hashes.zip (positions.zip lengths), item.1.length = 8 ∧ RunOk item.2 :=
        fun item hmem => ⟨hlength _ (mem_map_of_mem hmem),
          hrunOk _ (mem_map_of_mem hmem) item.2 (mem_singleton_self _)⟩
      obtain ⟨keys, hkeys, hsummary⟩ := legacyKeys_spec req.multimodalUuids s e 0
        (fun item hmem => (hitem item hmem).1) fun item hmem => (hitem item hmem).2
      rw [hpos, hlen]
      rw [flatMap_map]
      cases hashes with
      | nil => exact ⟨[], rfl, rfl⟩
      | cons hash hashes =>
        dsimp only
        have hposNe : positions ≠ [] := fun hnil => by
          rw [hnil] at heq
          cases heq
        have hlenNe : lengths ≠ [] := fun hnil => by
          rw [hnil] at heq'
          exact hposNe (length_eq_zero_iff.mp heq')
        rw [hmeta, generateLegacyContiguousExtraKeys, hpos, hlen]
        dsimp only
        rw [if_neg (not_or.mpr ⟨hposNe, hlenNe⟩),
          if_neg (not_or.mpr ⟨not_not.mpr heq, not_not.mpr heq'⟩), hkeys]
        exact ⟨keys, rfl, hsummary⟩

end MultimodalRequest

end TrtLlm.KvCache
