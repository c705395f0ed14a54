import TrtLlm.Disagg.PeerGeometry

/-!
`PeerRegistrar` (`native/peer.py`): the peers that a rank knows, and the caches of what it computed
about them.

The pool mapping and the mappers are cached under the name and the rank of a peer written one after
the other, the overlap under the pair. Registering fills the pool mapping, also if the peer is
refused, and clears no cache of the three; unregistering clears two of them.
-/

namespace TrtLlm.Peers

open List Function Option UMap

/-- The rank itself: `_ri`, the page table of its extractor, the checks of `_check_peer_compatible`
that read the two `RankInfo`s alone, and `build_mapper` of the policies. -/
structure LocalRank (μ : Type) where
  ri : RankInfo
  pageTable : Option PageTable
  policiesAccept : RankInfo → Except PeerError Bool
  buildMapper : MapperArgs → Except PeerError μ

/-- `PeerRegistrar`, apart from the layouts of the auxiliary buffers. -/
structure Registrar (μ : Type) where
  peerRiCache : UMap String RankInfo
  kvMapCache : UMap (String × LGPoolKey × LGPoolKey) μ
  peerExtCache : UMap String PageTable
  overlapCache : UMap (String × ℕ × ℕ) PeerOverlap
  lgPoolMappingCache : UMap String (UMap LGPoolKey LGPoolKey)

/-- A peer as it is called. -/
abbrev PeerId := String × ℕ

/-- `_unique_key`. -/
def uniqueKey (peer : PeerId) : String := peer.1 ++ toString peer.2

/-- The peer that a `RankInfo` says it is. -/
def RankInfo.peerId (ri : RankInfo) : PeerId := (ri.instanceName, ri.instanceRank)

namespace LocalRank

variable {μ : Type} (loc : LocalRank μ)

variable (ri : RankInfo)

/-- What the pool mapping of a peer is. -/
def mappingOf : Except PeerError (UMap LGPoolKey LGPoolKey) :=
  Peers.poolMapping loc.pageTable ri.pageTable

/-- What the mapper of a pair is. -/
def kvMapOf (key peerKey : LGPoolKey) : Except PeerError μ := do
  loc.buildMapper (← mapperArgs loc.pageTable ri key peerKey)

/-- The overlap, for a mapping of the views. -/
def overlapWith (base : PeerOverlap) (mapping : UMap LGPoolKey LGPoolKey) :
    Except PeerError PeerOverlap := do
  let factors ← Peers.viewDuplicateHeadFactors loc.ri ri loc.pageTable mapping
    (base.duplicateHeadFactor, base.peerDuplicateHeadFactor)
  return { base with viewDuplicateHeadFactors := factors }

/-- What the overlap with a peer is. -/
def overlap (peerDpRank : ℕ) : Except PeerError PeerOverlap := do
  match ← Peers.overlapOf loc.ri ri peerDpRank with
  | none => return .none
  | some base => loc.overlapWith ri base (← loc.mappingOf ri)

end LocalRank

namespace Registrar

variable {μ : Type} (loc : LocalRank μ)

/-- A registrar that knows no peer. -/
def init : Registrar μ := ⟨∅, ∅, ∅, ∅, ∅⟩

/-- `get_peer_rank_info`. -/
def getPeerRankInfo (peer : PeerId) (s : Registrar μ) : Except PeerError RankInfo :=
  lookup s.peerRiCache (uniqueKey peer)

section

variable (ri : RankInfo)

/-- `get_pool_mapping`. -/
def getPoolMapping (s : Registrar μ) : Except PeerError (UMap LGPoolKey LGPoolKey) × Registrar μ :=
  let key := uniqueKey ri.peerId
  match s.lgPoolMappingCache.find? key with
  | some mapping => (.ok mapping, s)
  | none =>
    match loc.mappingOf ri with
    | .error e => (.error e, s)
    | .ok mapping =>
      (.ok mapping, { s with lgPoolMappingCache := s.lgPoolMappingCache.assign key mapping })

/-- `get_kv_map`. -/
def getKvMap (key peerKey : LGPoolKey) (s : Registrar μ) : Except PeerError μ × Registrar μ :=
  let cacheKey := (uniqueKey ri.peerId, key, peerKey)
  match s.kvMapCache.find? cacheKey with
  | some mapper => (.ok mapper, s)
  | none =>
    match loc.kvMapOf ri key peerKey with
    | .error e => (.error e, s)
    | .ok mapper => (.ok mapper, { s with kvMapCache := s.kvMapCache.assign cacheKey mapper })

/-- `get_peer_overlap`. -/
def getPeerOverlap (peerDpRank : ℕ) (s : Registrar μ) :
    Except PeerError PeerOverlap × Registrar μ :=
  let key := (ri.instanceName, ri.instanceRank, peerDpRank)
  match s.overlapCache.find? key with
  | some targets => (.ok targets, s)
  | none =>
    match Peers.overlapOf loc.ri ri peerDpRank with
    | .error e => (.error e, s)
    | .ok none => (.ok .none, { s with overlapCache := s.overlapCache.assign key .none })
    | .ok (some base) =>
      match getPoolMapping loc ri s with
      | (.error e, s) => (.error e, s)
      | (.ok mapping, s) =>
        match loc.overlapWith ri base mapping with
        | .error e => (.error e, s)
        | .ok targets => (.ok targets, { s with overlapCache := s.overlapCache.assign key targets })

/-- `_check_peer_compatible`: the policies' checks, and `validate_view_head_geometry` of the
mapping. -/
def checkPeerCompatible (s : Registrar μ) : Except PeerError Bool × Registrar μ :=
  match loc.policiesAccept ri with
  | .error e => (.error e, s)
  | .ok false => (.ok false, s)
  | .ok true =>
    match getPoolMapping loc ri s with
    | (.error e, s) => (.error e, s)
    | (.ok mapping, s) =>
      match validateViewHeadGeometry loc.pageTable ri.pageTable mapping with
      | .error e => (.error e, s)
      | .ok () => (.ok true, s)

/-- The head counts that `register` asks for to warn about token-major views. -/
def nhdWarning (mapping : UMap LGPoolKey LGPoolKey) : Except PeerError Unit :=
  mapping.entries.forM fun (key, peerKey) => do
    let table ← tableOf loc.pageTable
    let lg ← index table.layerGroups key.1
    let view ← index lg.poolViews key.2
    if view.mapperKind ≠ .NHD then return ()
    let (_, _, peerView) ← viewPair table (← tableOf ri.pageTable) key peerKey
    let _ ← viewKvHeads view
    let _ ← viewKvHeads peerView
    return ()

end

/-- `register`. -/
def register (peer : PeerId) (ri : RankInfo)
    (s : Registrar μ) : Except PeerError Unit × Registrar μ :=
  match checkPeerCompatible loc ri s with
  | (.error e, s) => (.error e, s)
  | (.ok false, s) => (.error (.incompatible peer.1 peer.2), s)
  | (.ok true, s) =>
    let key := uniqueKey peer
    let s := { s with peerRiCache := s.peerRiCache.assign key ri }
    match ri.pageTable with
    | none => (.error .attributeError, s)
    | some table =>
      let s := { s with peerExtCache := s.peerExtCache.assign key table }
      match getPoolMapping loc ri s with
      | (.error e, s) => (.error e, s)
      | (.ok mapping, s) => (nhdWarning loc ri mapping, s)

/-- `unregister`. -/
def unregister (peer : PeerId) (s : Registrar μ) : Registrar μ :=
  let key := uniqueKey peer
  { s with
    peerRiCache := s.peerRiCache.erase key
    peerExtCache := s.peerExtCache.erase key
    kvMapCache := s.kvMapCache.filter fun k _ => k.1 ≠ key
    lgPoolMappingCache := s.lgPoolMappingCache.erase key }

end Registrar

/-! ### Runs -/

/-- A question about a peer. -/
inductive PeerQuery where
  | rankInfo
  | poolMapping
  | kvMap (key peerKey : LGPoolKey)
  | overlap (peerDpRank : ℕ)

/-- The answer to it. -/
inductive PeerAnswer (μ : Type) where
  | rankInfo (ri : RankInfo)
  | poolMapping (mapping : UMap LGPoolKey LGPoolKey)
  | kvMap (mapper : μ)
  | overlap (targets : PeerOverlap)

/-- A call of the registrar. -/
inductive PeerCall where
  | register (peer : PeerId) (ri : RankInfo)
  | unregister (peer : PeerId)
  | ask (peer : PeerId) (query : PeerQuery)

/-- The peer that a call names. -/
def PeerCall.peer : PeerCall → PeerId
  | .register peer _ => peer
  | .unregister peer => peer
  | .ask peer _ => peer

namespace Registrar

variable {μ : Type} (loc : LocalRank μ)

/-- A query of a peer: its `RankInfo` is looked up and passed on. -/
def ask (peer : PeerId) (query : PeerQuery) (s : Registrar μ) :
    Except PeerError (PeerAnswer μ) × Registrar μ :=
  match s.getPeerRankInfo peer with
  | .error e => (.error e, s)
  | .ok ri =>
    match query with
    | .rankInfo => (.ok (.rankInfo ri), s)
    | .poolMapping => let r := s.getPoolMapping loc ri; (r.1.map .poolMapping, r.2)
    | .kvMap key peerKey => let r := s.getKvMap loc ri key peerKey; (r.1.map .kvMap, r.2)
    | .overlap peerDpRank => let r := s.getPeerOverlap loc ri peerDpRank; (r.1.map .overlap, r.2)

/-- What a call leaves. -/
def step (s : Registrar μ) : PeerCall → Registrar μ
  | .register peer ri => (s.register loc peer ri).2
  | .unregister peer => s.unregister peer
  | .ask peer query => (s.ask loc peer query).2

/-- The registrar after a sequence of calls. -/
def after (calls : List PeerCall) : Registrar μ := calls.foldl (step loc) init

end Registrar

end TrtLlm.Peers
