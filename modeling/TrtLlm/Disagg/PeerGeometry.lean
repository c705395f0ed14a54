import TrtLlm.Util.PyDict

/-!
What a rank computes from a peer's `RankInfo` (`native/peer.py`), without the caches of the
registrar: the pool views that correspond, the arguments of the mapper of a pair, and the ranks it
overlaps with.

The page tables are those of `resource/page.py`. A dictionary is a `UMap` in insertion order; a
Python set whose elements are only counted or tested is a list or a `Finset`.
-/

namespace TrtLlm.Peers

open List Prod

/-- `CacheKind`. -/
inductive CacheKind where
  | PAGED
  | STATE
deriving DecidableEq

/-- `MapperKind`; `HND` is another name of `INDEXED`. -/
inductive MapperKind where
  | INDEXED
  | REPLICATED
  | NHD
  | SECTIONED
deriving DecidableEq

/-- `BUFFER_ENTRY_DTYPE`. -/
structure BufferEntry where
  localLayerId : ℕ
  offset : ℕ
  size : ℕ
deriving DecidableEq

/-- `PoolView`. -/
structure PoolView where
  poolIdx : ℕ
  bufferEntries : List BufferEntry
  poolRole : Finset String
  mapperKind : MapperKind
  bytesPerLayer : Option ℕ
  numKvHeads : Option ℤ
deriving DecidableEq

/-- `LocalLayer`. -/
structure LocalLayer where
  localLayerId : ℕ
  globalLayerId : ℕ
deriving DecidableEq

/-- `LayerGroup`. -/
structure LayerGroup where
  kind : CacheKind
  localLayers : List LocalLayer
  poolViews : List PoolView
deriving DecidableEq

/-- `KVCachePageTable`. -/
structure PageTable where
  layerGroups : List LayerGroup
deriving DecidableEq

/-- What the registrar reads of `AttentionInfo`. -/
structure AttentionInfo where
  kvHeadsPerRank : ℕ
  enableAttentionDp : Bool
deriving DecidableEq

/-- `RankInfo`. -/
structure RankInfo where
  instanceName : String
  instanceRank : ℕ
  tpSize : ℕ
  tpRank : ℕ
  ppSize : ℕ
  ppRank : ℕ
  layerNumPerPp : List ℕ
  dpSize : ℕ
  dpRank : ℕ
  cpSize : ℕ
  cpRank : ℕ
  attention : Option AttentionInfo
  pageTable : Option PageTable
deriving DecidableEq

/-- What is raised. The texts name the arguments here. -/
inductive PeerError where
  | keyError
  | indexError
  | attributeError
  | assertion
  | incompatible (peerName : String) (peerRank : ℕ)
  | policy (message : String)
  | duplicateLayer (gid first second : ℕ) (kind : CacheKind)
  | spansMultipleGroups (lg pool : ℕ) (groups : List ℕ)
  | mapperKinds (role : Finset String) (mine peer : MapperKind) (peerPool : ℕ)
  | noPeerView (lg pool : ℕ) (role : Finset String) (unmatched : List (Finset String))
  | severalPeerViews (lg pool : ℕ) (role : Finset String) (views : List ℕ)
  | misplacedLayers (peerLg peerPool : ℕ) (layers : List ℕ) (role : Finset String)
  | kvMapKinds (mine peer : MapperKind)
  | noBufferEntries
  | notContiguous (layer offset next : ℕ)
  | notUniform
  | declaredBytes (declared actual : ℕ)
  | unevenEntries (lg pool : ℕ)
  | noKvHeads (pool : ℕ) (heads : Option ℤ)
  | headBytes (lg pool layerBytes buffers : ℕ) (heads : ℤ)
  | bytesPerHead (role : Finset String) (mine peer : ℤ)
deriving DecidableEq

/-- An element of a list, or `IndexError`. -/
def index {α : Type} (l : List α) (i : ℕ) : Except PeerError α :=
  match l[i]? with
  | some a => .ok a
  | none => .error .indexError

/-- An entry of a dictionary, or `KeyError`. -/
def lookup {κ υ : Type} [DecidableEq κ] (m : UMap κ υ) (k : κ) : Except PeerError υ :=
  match m.find? k with
  | some v => .ok v
  | none => .error .keyError

/-! ### Views -/

/-- `get_pool_view_global_layer_ids`: the layers of a view in the order of their offsets. -/
def getPoolViewGlobalLayerIds (view : PoolView) (lg : LayerGroup) : Except PeerError (List ℕ) :=
  let localToGlobal : UMap ℕ ℕ :=
    lg.localLayers.foldl (fun m ll => m.assign ll.localLayerId ll.globalLayerId) ∅
  let minOffset : UMap ℕ ℕ := view.bufferEntries.foldl (fun m e =>
    match m.find? e.localLayerId with
    | none => m.assign e.localLayerId e.offset
    | some offset => if e.offset < offset then m.assign e.localLayerId e.offset else m) ∅
  (minOffset.entries.insertionSort fun a b => a.2 ≤ b.2).mapM fun e => lookup localToGlobal e.1

/-- `get_layer_to_layer_group` for one kind. -/
def getLayerToLayerGroup (table : PageTable) (kind : CacheKind) : Except PeerError (UMap ℕ ℕ) :=
  (table.layerGroups.zipIdx.filter fun g => g.1.kind = kind).foldlM (fun out g =>
    g.1.localLayers.foldlM (fun (out : UMap ℕ ℕ) ll =>
      match out.find? ll.globalLayerId with
      | some first => .error (.duplicateLayer ll.globalLayerId first g.2 kind)
      | none => .ok (out.assign ll.globalLayerId g.2)) out) ∅

/-- The buffer entries of a view by layer, in order of their first entry. -/
def entriesByLayer (view : PoolView) : UMap ℕ (List (ℕ × ℕ)) :=
  view.bufferEntries.foldl (fun m e =>
    m.assign e.localLayerId ((m.find? e.localLayerId).getD [] ++ [(e.offset, e.size)])) ∅

/-- The first place at which the buffers of a layer are not contiguous. -/
def firstHole : List (ℕ × ℕ) → Option (ℕ × ℕ)
  | (offset, size) :: (next, size') :: rest =>
    if offset + size = next then firstHole ((next, size') :: rest) else some (offset + size, next)
  | _ => none

/-- `get_layer_byte_ranges`: where each layer starts, and the bytes of a layer. -/
def getLayerByteRanges (view : PoolView) : Except PeerError (UMap ℕ ℕ × ℕ) := do
  let layers := (entriesByLayer view).entries.map fun e =>
    (e.1, e.2.insertionSort fun a b => a.1 < b.1 ∨ a.1 = b.1 ∧ a.2 ≤ b.2)
  if layers = [] then throw .noBufferEntries
  for (layer, spans) in layers do
    match firstHole spans with
    | some (offset, next) => throw (.notContiguous layer offset next)
    | none => pure ()
  let starts : UMap ℕ ℕ := layers.foldl (fun m e => m.assign e.1 ((e.2.map fst).headD 0)) ∅
  match (layers.map fun e => (e.2.map snd).sum).dedup with
  | [bytes] =>
    match view.bytesPerLayer with
    | some declared =>
      if declared ≠ bytes then throw (.declaredBytes declared bytes)
      else return (starts, bytes)
    | none => return (starts, bytes)
  | _ => throw .notUniform

/-- `_get_buffers_per_layer`. -/
def getBuffersPerLayer (view : PoolView) (lg pool : ℕ) : Except PeerError ℕ :=
  if view.bufferEntries = [] then .ok 1
  else
    match ((entriesByLayer view).entries.map fun e => e.2.length).dedup with
    | [count] => .ok count
    | _ => .error (.unevenEntries lg pool)

/-- `view_kv_heads`. -/
def viewKvHeads (view : PoolView) : Except PeerError ℤ :=
  match view.numKvHeads with
  | some heads => if heads ≤ 0 then .error (.noKvHeads view.poolIdx view.numKvHeads) else .ok heads
  | none => .error (.noKvHeads view.poolIdx none)

/-! ### The pool mapping -/

/-- `LGPoolKey`. -/
abbrev LGPoolKey := ℕ × ℕ

/-- The peer's views that match a view of this rank: same roles and a common layer. -/
def candidates (view : PoolView) (layers : List ℕ) (peerLg : LayerGroup) :
    Except PeerError (List (ℕ × List ℕ)) :=
  peerLg.poolViews.zipIdx.filterMapM fun p => do
    if p.1.poolRole ≠ view.poolRole then return none
    let peerLayers ← getPoolViewGlobalLayerIds p.1 peerLg
    if peerLayers.all (· ∉ layers) then return none
    if p.1.mapperKind ≠ view.mapperKind then
      throw (.mapperKinds view.poolRole view.mapperKind p.1.mapperKind p.2)
    return some (p.2, peerLayers)

/-- The roles of the peer's views that hold one of the layers. -/
def unmatchedRoles (layers : List ℕ) (peerLg : LayerGroup) :
    Except PeerError (List (Finset String)) :=
  peerLg.poolViews.filterMapM fun view => do
    let peerLayers ← getPoolViewGlobalLayerIds view peerLg
    return if peerLayers.any (· ∈ layers) then some view.poolRole else none

/-- The layers that this rank keeps in other views of the same roles. -/
def otherLayers (pool : ℕ) (view : PoolView) (lg : LayerGroup) : Except PeerError (List ℕ) := do
  let others := lg.poolViews.zipIdx.filter fun o => o.2 ≠ pool ∧ o.1.poolRole = view.poolRole
  let layers ← others.mapM fun o => getPoolViewGlobalLayerIds o.1 lg
  return layers.flatten

/-- The peer's view that corresponds to a view of this rank. -/
def matchView (peerTable : PageTable) (lgIdx : ℕ) (lg : LayerGroup) (pool : ℕ) (view : PoolView) :
    Except PeerError (Option LGPoolKey) := do
  let layers ← getPoolViewGlobalLayerIds view lg
  if layers = [] then return none
  let peerLayerToGroup ← getLayerToLayerGroup peerTable lg.kind
  match (layers.filterMap fun gid => peerLayerToGroup.find? gid).dedup with
  | [] => return none
  | [peerIdx] =>
    let peerLg ← index peerTable.layerGroups peerIdx
    match ← candidates view layers peerLg with
    | [] =>
      let unmatched ← unmatchedRoles layers peerLg
      if unmatched ≠ [] ∧ lg.kind = .PAGED then
        throw (.noPeerView lgIdx pool view.poolRole unmatched)
      return none
    | [(peerPool, peerLayers)] =>
      let others ← otherLayers pool view lg
      let misplaced := peerLayers.filter fun gid => gid ∈ others ∧ gid ∉ layers
      if misplaced ≠ [] then throw (.misplacedLayers peerIdx peerPool misplaced view.poolRole)
      return some (peerIdx, peerPool)
    | several => throw (.severalPeerViews lgIdx pool view.poolRole (several.map fst))
  | groups => throw (.spansMultipleGroups lgIdx pool groups)

/-- `get_pool_mapping` without its cache. -/
def poolMapping (table peerTable : Option PageTable) :
    Except PeerError (UMap LGPoolKey LGPoolKey) :=
  match table, peerTable with
  | some table, some peerTable =>
    if table.layerGroups = [] ∨ peerTable.layerGroups = [] then .ok ∅
    else table.layerGroups.zipIdx.foldlM (fun mapping g =>
      g.1.poolViews.zipIdx.foldlM (fun (mapping : UMap LGPoolKey LGPoolKey) v => do
        match ← matchView peerTable g.2 g.1 v.2 v.1 with
        | some peerKey => return mapping.assign (g.2, v.2) peerKey
        | none => return mapping) mapping) ∅
  | _, _ => .ok ∅

/-- The views of a pair of the mapping, with the group of this rank. -/
def viewPair (table peerTable : PageTable) (key peerKey : LGPoolKey) :
    Except PeerError (LayerGroup × PoolView × PoolView) := do
  let lg ← index table.layerGroups key.1
  let view ← index lg.poolViews key.2
  let peerLg ← index peerTable.layerGroups peerKey.1
  let peerView ← index peerLg.poolViews peerKey.2
  return (lg, view, peerView)

/-- The page table, or `AttributeError` for `None`. -/
def tableOf (table : Option PageTable) : Except PeerError PageTable :=
  match table with
  | some table => .ok table
  | none => .error .attributeError

/-- The bytes of a head of a view. -/
def headBytes (view : PoolView) (key : LGPoolKey) : Except PeerError ℤ := do
  let heads ← viewKvHeads view
  let buffers ← getBuffersPerLayer view key.1 key.2
  let (_, layerBytes) ← getLayerByteRanges view
  if (layerBytes : ℤ) % (buffers * heads) ≠ 0 then
    throw (.headBytes key.1 key.2 layerBytes buffers heads)
  return (layerBytes : ℤ) / (buffers * heads)

/-- `validate_view_head_geometry`, for a mapping. -/
def validateViewHeadGeometry (table peerTable : Option PageTable)
    (mapping : UMap LGPoolKey LGPoolKey) : Except PeerError Unit :=
  mapping.entries.forM fun (key, peerKey) => do
    let table ← tableOf table
    let lg ← index table.layerGroups key.1
    let view ← index lg.poolViews key.2
    if lg.kind ≠ .PAGED ∨ view.mapperKind = .REPLICATED then return ()
    let peerTable ← tableOf peerTable
    let (_, _, peerView) ← viewPair table peerTable key peerKey
    let mine ← headBytes view key
    let peer ← headBytes peerView peerKey
    if mine ≠ peer then throw (.bytesPerHead view.poolRole mine peer)

/-! ### Head factors and overlap -/

namespace RankInfo

/-- `tp_size_per_dp_group`, and `_tp_per_dp` of the policy. -/
def tpSizePerDpGroup (ri : RankInfo) : ℕ :=
  match ri.attention with
  | none => ri.tpSize
  | some attention => if attention.enableAttentionDp then ri.tpSize / ri.dpSize else ri.tpSize

/-- `attention.kv_heads_per_rank`. -/
def kvHeadsPerRank (ri : RankInfo) : Except PeerError ℤ :=
  match ri.attention with
  | some attention => .ok attention.kvHeadsPerRank
  | none => .error .attributeError

end RankInfo

/-- `duplicate_head_factors`, for given head counts. -/
def duplicateHeadFactors (mine peer : RankInfo) (selfHeads peerHeads : ℤ) : ℤ × ℤ :=
  if selfHeads = 0 ∨ peerHeads = 0 then (1, 1)
  else
    let factorSelf := selfHeads * mine.tpSizePerDpGroup
    let factorPeer := peerHeads * peer.tpSizePerDpGroup
    (max 1 (factorSelf / factorPeer), max 1 (factorPeer / factorSelf))

/-- `_view_duplicate_head_factors`, for a mapping. -/
def viewDuplicateHeadFactors (mine peer : RankInfo) (table : Option PageTable)
    (mapping : UMap LGPoolKey LGPoolKey) (rankWide : ℤ × ℤ) :
    Except PeerError (UMap LGPoolKey (ℤ × ℤ)) :=
  mapping.entries.foldlM (fun (factors : UMap LGPoolKey (ℤ × ℤ)) e => do
    let table ← tableOf table
    let lg ← index table.layerGroups e.1.1
    let view ← index lg.poolViews e.1.2
    if lg.kind ≠ .PAGED ∨ view.mapperKind = .REPLICATED then return factors
    let peerTable ← tableOf peer.pageTable
    let (_, _, peerView) ← viewPair table peerTable e.1 e.2
    let pair := duplicateHeadFactors mine peer (← viewKvHeads view) (← viewKvHeads peerView)
    return if pair ≠ rankWide then factors.assign e.1 pair else factors) ∅

/-- `PeerOverlap`. -/
structure PeerOverlap where
  overlapPpSize : ℕ
  overlapTpSize : ℕ
  overlapCpSize : ℕ
  duplicateHeadFactor : ℤ
  peerDuplicateHeadFactor : ℤ
  ranks : List ℕ
  viewDuplicateHeadFactors : UMap LGPoolKey (ℤ × ℤ)

/-- `PeerOverlap()`. -/
def PeerOverlap.none : PeerOverlap := ⟨0, 0, 0, 1, 1, [], ∅⟩

/-- `_find_overlap`: how many ranks of the peer overlap, and from which to which. -/
def findOverlap (selfVal peerVal selfRank : ℕ) (peerRank : Option ℕ) : ℕ × ℕ × ℕ :=
  let base := match peerRank with
    | some peerRank => peerRank * peerVal
    | none => 0
  if selfVal ≤ peerVal then
    let overlap := peerVal / selfVal
    let start := selfRank * overlap + base
    (overlap, start, start + overlap)
  else
    let start := selfRank / (selfVal / peerVal) + base
    (1, start, start + 1)

/-- The ranks of the peer's pipeline with a layer of this rank. -/
def targetPpRanks (mine peer : RankInfo) : Except PeerError (List ℕ) := do
  let selfStart := (mine.layerNumPerPp.take mine.ppRank).sum
  let selfEnd := selfStart + (← index mine.layerNumPerPp mine.ppRank)
  let counts ← (range peer.ppSize).mapM fun p => index peer.layerNumPerPp p
  return (range peer.ppSize).filter fun p =>
    let peerStart := (counts.take p).sum
    selfStart < peerStart + counts.getD p 0 ∧ peerStart < selfEnd

/-- `get_peer_overlap` without its cache, up to the factors of the views; `none` if there is no
overlap. -/
def overlapOf (mine peer : RankInfo) (peerDpRank : ℕ) : Except PeerError (Option PeerOverlap) := do
  match ← targetPpRanks mine peer with
  | [] => return none
  | startPp :: rest =>
    let ppSize := rest.length + 1
    let (tpSize, startTp, endTp) := findOverlap mine.tpSizePerDpGroup peer.tpSizePerDpGroup
      (mine.tpRank % mine.tpSizePerDpGroup) (some peerDpRank)
    let (cpSize, startCp, endCp) := findOverlap mine.cpSize peer.cpSize mine.cpRank .none
    let ranks := (range' startPp ppSize).flatMap fun pp =>
      (range' startTp (endTp - startTp)).flatMap fun tp =>
        (range' startCp (endCp - startCp)).map fun cp =>
          pp * peer.tpSize * peer.cpSize + tp * peer.cpSize + cp
    let factors := duplicateHeadFactors mine peer (← mine.kvHeadsPerRank) (← peer.kvHeadsPerRank)
    return some ⟨ppSize, tpSize, cpSize, factors.1, factors.2, ranks, ∅⟩

/-! ### The mapper of a pair -/

/-- The arguments of `build_mapper`. -/
structure MapperArgs where
  peerRi : RankInfo
  mapperKind : MapperKind
  selfLayerOffsets : List ℕ
  peerLayerOffsets : List ℕ
  selfBytesPerLayer : ℕ
  peerBytesPerLayer : ℕ
  selfBuffersPerLayer : ℕ
  peerBuffersPerLayer : ℕ
  kind : CacheKind
  selfPv : PoolView
  peerPv : PoolView
  layerOffs : Option (ℕ × ℕ)

/-- The offset of a layer by its global id. -/
def layerOffset (lg : LayerGroup) (starts : UMap ℕ ℕ) (gid : ℕ) : Except PeerError ℕ := do
  let globalToLocal : UMap ℕ ℕ :=
    lg.localLayers.foldl (fun m ll => m.assign ll.globalLayerId ll.localLayerId) ∅
  lookup starts (← lookup globalToLocal gid)

/-- The position of a layer, the last one if it is there twice. -/
def lastPosition (layers : List ℕ) (gid : ℕ) : ℕ := layers.length - 1 - layers.reverse.idxOf gid

/-- The arguments with which `get_kv_map` builds a mapper. -/
def mapperArgs (table : Option PageTable) (peer : RankInfo) (key peerKey : LGPoolKey) :
    Except PeerError MapperArgs := do
  match table, peer.pageTable with
  | some table, some peerTable =>
    let (lg, view, peerView) ← viewPair table peerTable key peerKey
    let peerLg ← index peerTable.layerGroups peerKey.1
    if view.mapperKind ≠ peerView.mapperKind then
      throw (.kvMapKinds view.mapperKind peerView.mapperKind)
    let selfLayers ← getPoolViewGlobalLayerIds view lg
    let peerLayers ← getPoolViewGlobalLayerIds peerView peerLg
    let overlapping := selfLayers.filter (· ∈ peerLayers)
    let (selfStarts, selfBytes) ← getLayerByteRanges view
    let (peerStarts, peerBytes) ← getLayerByteRanges peerView
    let selfOffsets ← overlapping.mapM (layerOffset lg selfStarts)
    let peerOffsets ← overlapping.mapM (layerOffset peerLg peerStarts)
    let selfBuffers ← getBuffersPerLayer view key.1 key.2
    let peerBuffers ← getBuffersPerLayer peerView peerKey.1 peerKey.2
    let first := overlapping.head?
    let layerOffs := if lg.kind = .STATE then
      some ((first.map (lastPosition selfLayers)).getD 0,
        (first.map (lastPosition peerLayers)).getD 0) else none
    return ⟨peer, view.mapperKind, selfOffsets, peerOffsets, selfBytes, peerBytes, selfBuffers,
      peerBuffers, lg.kind, view, peerView, layerOffs⟩
  | _, _ => throw .assertion

end TrtLlm.Peers
