import TrtLlm.Util.Shards
import TrtLlm.Util.Stages

/-!
Which ranks exchange the KV cache of a request (`cacheSplitConcat.cu`, `cacheFormatter.h`,
`mlaCacheFormatter.cpp`).

The context and the generation side run the same functions with their roles exchanged: each one
computes from the two cache states the ranks of the other side that hold a part of its own cache.

* `targetRanksInfoForDPImpl`, `targetIRanks`: the ranks of the peer, ordered by context, tensor and
  pipeline rank, and how often a head is duplicated on either side;
* `needSendCache`, `pickSendConnections`, `pickRecvConnections`: what the general formatter sends
  and receives; the `Mla` ones are those of the MLA formatter.

A value is missing where the source throws, or takes the front of an empty vector. Sizes and ranks
are natural numbers. The head and block sizes, the data type and the RNN and indexer caches of a
cache state are left out.
-/

namespace TrtLlm.CacheTransmission

open List Prod

/-- The members of `CacheState` that decide about the ranks. -/
structure CacheState where
  mNbKvHeadsPerLayer : List ℕ
  mTensorParallelism : ℕ
  mPipelineParallelism : ℕ
  mContextParallelism : ℕ
  mEnableAttentionDP : Bool
  mDPrank : ℕ
  mDPsize : ℕ
  mAttentionLayerNumPerPP : List ℕ

structure TargetRanksInfo where
  mDomainPPSize : ℕ
  mDomainTPSize : ℕ
  mDomainCPSize : ℕ
  mIRanks : List ℕ
  mDupHeadFactor : ℕ
  mPeerDupHeadFactor : ℕ
  mPeerLayerNumInDomainPP : List ℕ
deriving DecidableEq, Repr

namespace CacheState

variable (c : CacheState)

/-- `mEnableAttentionDP ? mTensorParallelism / mDPsize : mTensorParallelism`. -/
def tpSizePerDPGroup : ℕ :=
  if c.mEnableAttentionDP then c.mTensorParallelism / c.mDPsize else c.mTensorParallelism

/-- `mEnableAttentionDP ? mDPrank : 0`. -/
def dpRank : ℕ := if c.mEnableAttentionDP then c.mDPrank else 0

/-- The tensor rank of a rank. -/
def tpRankOf (rank : ℕ) : ℕ :=
  rank % (c.mTensorParallelism * c.mContextParallelism) / c.mContextParallelism

/-- The pipeline rank of a rank. -/
def ppRankOf (rank : ℕ) : ℕ :=
  rank / (c.mTensorParallelism * c.mContextParallelism)

/-- The KV heads of one layer on a rank. -/
def nbHeadsPerLayer : ℕ := c.mNbKvHeadsPerLayer.headD 0

end CacheState

def isPowerOfTwo (n : ℕ) : Bool := 0 < n ∧ n &&& (n - 1) = 0

/-- The loop over the pipeline ranks of the peer: those whose layers meet the own ones, with the
number of layers in common. -/
def targetPeerPPRanks (selfStartLayerId selfEndLayerId : ℕ) : ℕ → ℕ → List ℕ → List (ℕ × ℕ)
  | _, _, [] => []
  | ppRank, prePeerPPLayerId, layerNum :: rest =>
    let peerPPEndLayerId := prePeerPPLayerId + layerNum
    let others :=
      targetPeerPPRanks selfStartLayerId selfEndLayerId (ppRank + 1) peerPPEndLayerId rest
    if selfStartLayerId < peerPPEndLayerId ∧ prePeerPPLayerId < selfEndLayerId then
      (ppRank, min peerPPEndLayerId selfEndLayerId - max prePeerPPLayerId
        selfStartLayerId) :: others
    else others

/-- The ranks of the peer in one dimension, tensor or context, as the first one and their number. -/
def peerDomain (selfSize peerSize selfRank : ℕ) : ℕ × ℕ :=
  if selfSize ≤ peerSize then (selfRank * (peerSize / selfSize), peerSize / selfSize)
  else (selfRank / (selfSize / peerSize), 1)

/-- The heads of the first side over those of the second, where there are more. -/
def dupHeadFactor (heads tpSize otherHeads otherTpSize : ℕ) : ℕ :=
  if otherHeads * otherTpSize < heads * tpSize then heads * tpSize / (otherHeads * otherTpSize)
    else 1

/-- `TargetRanksInfoForDPImpl`. -/
def targetRanksInfoForDPImpl (peer self : CacheState) (selfRank : ℕ)
    (peerNumLayerPerPP selfNumLayerPerPP : List ℕ) (peerNbHeadsPerLayer selfNbHeadsPerLayer : ℕ) :
    Option TargetRanksInfo :=
  let selfCPRank := selfRank % self.mContextParallelism
  let selfTPRank := self.tpRankOf selfRank
  let selfPPRank := self.ppRankOf selfRank
  if selfNumLayerPerPP.getD selfPPRank 0 = 0 then
    -- no layer, no transfer
    some { mDomainPPSize := 0, mDomainTPSize := 0, mDomainCPSize := 0, mIRanks := []
           mDupHeadFactor := 1, mPeerDupHeadFactor := 1, mPeerLayerNumInDomainPP := [] }
  else do
    guard (peerNumLayerPerPP.length = peer.mPipelineParallelism)
    guard (selfNumLayerPerPP.length = self.mPipelineParallelism)
    let selfStartLayerId := (selfNumLayerPerPP.take selfPPRank).sum
    let selfEndLayerId := selfStartLayerId + selfNumLayerPerPP.getD selfPPRank 0
    let targets := targetPeerPPRanks selfStartLayerId selfEndLayerId 0 0 peerNumLayerPerPP
    let peerPPRankStart ← (targets.map fst).head?
    guard ((targets.map snd).sum = selfNumLayerPerPP.getD selfPPRank 0)
    let selfTPrankInDPGroup := selfTPRank % self.tpSizePerDPGroup
    guard (isPowerOfTwo peer.tpSizePerDPGroup && isPowerOfTwo self.tpSizePerDPGroup)
    let tp := peerDomain self.tpSizePerDPGroup peer.tpSizePerDPGroup selfTPrankInDPGroup
    let peerTPRankStart := tp.1 + peer.dpRank * peer.tpSizePerDPGroup
    guard (isPowerOfTwo peer.mContextParallelism && isPowerOfTwo self.mContextParallelism)
    let cp := peerDomain self.mContextParallelism peer.mContextParallelism selfCPRank
    let retRanks := (range' cp.1 cp.2).flatMap fun i =>
      (range' peerTPRankStart tp.2).flatMap fun j =>
        (range' peerPPRankStart targets.length).map fun k =>
          k * peer.mTensorParallelism * peer.mContextParallelism + j * peer.mContextParallelism + i
    return {
      mDomainPPSize := targets.length
      mDomainTPSize := tp.2
      mDomainCPSize := cp.2
      mIRanks := retRanks
      mDupHeadFactor := dupHeadFactor selfNbHeadsPerLayer self.tpSizePerDPGroup peerNbHeadsPerLayer
        peer.tpSizePerDPGroup
      mPeerDupHeadFactor := dupHeadFactor peerNbHeadsPerLayer peer.tpSizePerDPGroup
        selfNbHeadsPerLayer self.tpSizePerDPGroup
      mPeerLayerNumInDomainPP := targets.map snd }

def targetIRanks (peer self : CacheState) (selfRank : ℕ) : Option TargetRanksInfo :=
  targetRanksInfoForDPImpl peer self selfRank peer.mAttentionLayerNumPerPP
    self.mAttentionLayerNumPerPP peer.nbHeadsPerLayer self.nbHeadsPerLayer

/-! ### The general formatter -/

section

variable (selfConfig destConfig : CacheState) (selfIdx : ℕ)

/-- `needSendCache`, with the target ranks given. -/
def needSendCacheFor (targetInfo : TargetRanksInfo) : Bool :=
  if targetInfo.mDupHeadFactor ≤ 1 then true
  else
    let selfTpRank := selfConfig.tpRankOf selfIdx
    let selfTpRankInDpGroup :=
      if selfConfig.mEnableAttentionDP then
        selfTpRank % (selfConfig.mTensorParallelism / selfConfig.mDPsize)
      else selfTpRank
    destConfig.dpRank % targetInfo.mDupHeadFactor
      = selfTpRankInDpGroup % targetInfo.mDupHeadFactor

def needSendCache : Option Bool :=
  (targetIRanks destConfig selfConfig selfIdx).map (needSendCacheFor selfConfig destConfig selfIdx)

end

/-- The place of every rank of a list among the counterparts; no value if one is not there. -/
def indicesIn (counterPartRanks ranks : List ℕ) : Option (List ℕ) :=
  ranks.mapM fun rank =>
    if rank ∈ counterPartRanks then some (counterPartRanks.idxOf rank) else none

def pickSendConnections (numConnections : ℕ) (counterPartRanks : List ℕ)
    (targetInfo : TargetRanksInfo) : Option (List ℕ) := do
  guard (numConnections = counterPartRanks.length)
  indicesIn counterPartRanks targetInfo.mIRanks

/-- The places inside the domain that `pickRecvConnections` takes where heads are duplicated. -/
def pickedIndices (targetInfo : TargetRanksInfo) (selfDPRank : ℕ) : List ℕ :=
  ((range targetInfo.mDomainTPSize).filter fun i =>
    i % targetInfo.mPeerDupHeadFactor = selfDPRank % targetInfo.mPeerDupHeadFactor).flatMap fun i =>
      (range targetInfo.mDomainPPSize).map fun j => i * targetInfo.mDomainPPSize + j

/-- `pickRecvConnections`, with the target ranks given: places among the counterparts and inside the
domain. -/
def pickRecvConnectionsFor (numConnections : ℕ) (selfConfig : CacheState)
    (counterPartRanks : List ℕ) (targetInfo : TargetRanksInfo) : Option (List ℕ × List ℕ) :=
  if targetInfo.mIRanks = [] then some ([], [])
  else do
    let baseIndices ← pickSendConnections numConnections counterPartRanks targetInfo
    if targetInfo.mPeerDupHeadFactor ≤ 1 then return (baseIndices, range baseIndices.length)
    else
      let localRankIndices := pickedIndices targetInfo selfConfig.dpRank
      let pickUpConnections ← localRankIndices.mapM fun localIdx => baseIndices[localIdx]?
      return (pickUpConnections, localRankIndices)

def pickRecvConnections (numConnections : ℕ) (selfConfig : CacheState) (selfIdx : ℕ)
    (destConfig : CacheState) (counterPartRanks : List ℕ) : Option (List ℕ × List ℕ) := do
  let targetInfo ← targetIRanks destConfig selfConfig selfIdx
  pickRecvConnectionsFor numConnections selfConfig counterPartRanks targetInfo

/-! ### The MLA formatter -/

/-- `MLACacheFormatter::needSendCache`. -/
def mlaNeedSendCache (selfConfig destConfig : CacheState) (selfIdx : ℕ) : Bool :=
  let selfTpRank := selfConfig.tpRankOf selfIdx
  let destTPNumInDPGroup := destConfig.tpSizePerDPGroup
  let destDPRank := destConfig.dpRank
  if selfConfig.mEnableAttentionDP then
    let selfTPNumInDPGroup := selfConfig.mTensorParallelism / selfConfig.mDPsize
    let selfTPrankINDPGroup := selfTpRank % selfTPNumInDPGroup
    if selfTPNumInDPGroup ≤ destTPNumInDPGroup then true
    else
      let dupHeadFactor := selfTPNumInDPGroup / destTPNumInDPGroup
      selfTPrankINDPGroup % dupHeadFactor = destDPRank % dupHeadFactor
  else
    let selfTPNum := selfConfig.mTensorParallelism
    if selfTPNum ≤ destTPNumInDPGroup then true
    else
      let dupHeadFactor := selfTPNum / destTPNumInDPGroup
      selfTpRank % dupHeadFactor = destDPRank % dupHeadFactor

/-- `MLACacheFormatter::pickRecvConnections`. -/
def mlaPickRecvConnections (numConnections : ℕ) (selfConfig : CacheState) (selfIdx : ℕ)
    (destConfig : CacheState) (counterPartRanks : List ℕ) : Option (List ℕ × List ℕ) := do
  let targetInfo ← targetIRanks destConfig selfConfig selfIdx
  if targetInfo.mIRanks = [] then return ([], [])
  else
    guard (targetInfo.mDomainCPSize = 1)
    guard (numConnections = counterPartRanks.length)
    let localRankIndices := (range targetInfo.mDomainPPSize).map fun i =>
      i + selfConfig.dpRank % targetInfo.mDomainTPSize * targetInfo.mDomainPPSize
    let ranks ← localRankIndices.mapM fun rankIdx => targetInfo.mIRanks[rankIdx]?
    let pickUpConnections ← indicesIn counterPartRanks ranks
    return (pickUpConnections, localRankIndices)

end TrtLlm.CacheTransmission
