import TrtLlm.Disagg.PeerRegistrar

/-!
What a rank answers about its peers.

* `RegistryOk`: the caches of a peer hold what the last `RankInfo` given for it gives;
* `answers_follow_registration`: **the answers are those of the latest registration**, in every run
  in which a peer is registered again only with the same `RankInfo` or with nothing cached;
* `registrations_go_stale`: a peer that restarts with another page table or another topology, and
  two peers with one key.
-/

namespace TrtLlm.Peers

open List Function Option UMap

/-! ### What was registered -/

/-- The peer passes every check of `_check_peer_compatible`. -/
def LocalRank.accepts {μ : Type} (loc : LocalRank μ) (ri : RankInfo) : Bool :=
  match loc.policiesAccept ri, loc.mappingOf ri with
  | .ok true, .ok mapping => (validateViewHeadGeometry loc.pageTable ri.pageTable mapping).isOk
  | _, _ => false

/-- What is computed for a peer with nothing cached. -/
def LocalRank.answer {μ : Type} (loc : LocalRank μ) (ri : RankInfo) :
    PeerQuery → Except PeerError (PeerAnswer μ)
  | .rankInfo => .ok (.rankInfo ri)
  | .poolMapping => (loc.mappingOf ri).map .poolMapping
  | .kvMap key peerKey => (loc.kvMapOf ri key peerKey).map .kvMap
  | .overlap peerDpRank => (loc.overlap ri peerDpRank).map .overlap

/-- The latest registration of every peer, and the `RankInfo` of the last `register` call for it,
which may have refused it. -/
structure Registrations where
  latest : PeerId → Option RankInfo
  given : PeerId → Option RankInfo

namespace Registrations

/-- What a call changes. -/
def step {μ : Type} (loc : LocalRank μ) (r : Registrations) : PeerCall → Registrations
  | .register peer ri =>
    { latest := if loc.accepts ri then update r.latest peer (some ri) else r.latest
      given := update r.given peer (some ri) }
  | .unregister peer => { r with latest := update r.latest peer none }
  | .ask _ _ => r

/-- The registrations after a sequence of calls. -/
def after {μ : Type} (loc : LocalRank μ) (calls : List PeerCall) : Registrations :=
  calls.foldl (step loc) ⟨fun _ => none, fun _ => none⟩

end Registrations

namespace Registrar

variable {μ : Type} {loc : LocalRank μ}

/-- Nothing is cached about the peer. -/
structure Clean (s : Registrar μ) (peer : PeerId) : Prop where
  mapping : s.lgPoolMappingCache.find? (uniqueKey peer) = none
  kvMap : ∀ key peerKey, s.kvMapCache.find? (uniqueKey peer, key, peerKey) = none
  overlap : ∀ peerDpRank, s.overlapCache.find? (peer.1, peer.2, peerDpRank) = none

/-- A peer is registered as the one it says it is, with the `RankInfo` that was given for it last or
with nothing cached about it. -/
def CallOk (s : Registrar μ) (r : Registrations) : PeerCall → Prop
  | .register peer ri => ri.peerId = peer ∧ (s.Clean peer ∨ r.given peer = some ri)
  | _ => True

/-- **The condition on a run**: its peers have different keys, and every call is one as above. -/
structure Admissible (loc : LocalRank μ) (peers : Set PeerId) (calls : List PeerCall) : Prop where
  keys : Set.InjOn uniqueKey peers
  mem : ∀ call ∈ calls, call.peer ∈ peers
  ok : ∀ before call rest, calls = before ++ call :: rest →
    CallOk (after loc before) (Registrations.after loc before) call

/-- **The registry is right**: it knows the peers that are registered, and what is cached about a
peer comes from the `RankInfo` that was given for it last. -/
structure RegistryOk (loc : LocalRank μ) (peers : Set PeerId) (s : Registrar μ)
    (r : Registrations) : Prop where
  known : ∀ peer ∈ peers, s.peerRiCache.find? (uniqueKey peer) = r.latest peer
  latest : ∀ peer ∈ peers, ∀ ri, r.latest peer = some ri → r.given peer = some ri ∧ ri.peerId = peer
    ∧ loc.accepts ri = true ∧ ∃ mapping, s.lgPoolMappingCache.find? (uniqueKey peer) = some mapping
  mapping : ∀ peer ∈ peers, ∀ mapping, s.lgPoolMappingCache.find? (uniqueKey peer) = some mapping →
    ∃ ri, r.given peer = some ri ∧ loc.mappingOf ri = .ok mapping
  kvMap : ∀ peer ∈ peers, ∀ key peerKey mapper,
    s.kvMapCache.find? (uniqueKey peer, key, peerKey) = some mapper →
      ∃ ri, r.given peer = some ri ∧ loc.kvMapOf ri key peerKey = .ok mapper
  overlap : ∀ peer ∈ peers, ∀ peerDpRank targets,
    s.overlapCache.find? (peer.1, peer.2, peerDpRank) = some targets →
      ∃ ri, r.given peer = some ri ∧ loc.overlap ri peerDpRank = .ok targets

variable {peers : Set PeerId} {s s' : Registrar μ} {r : Registrations} {peer : PeerId}
    {ri : RankInfo}

variable {call : PeerCall}

/-- A peer that is accepted has a mapping. -/
lemma mapping_of_accepts (h : loc.accepts ri = true) :
    ∃ mapping, loc.mappingOf ri = .ok mapping := by
  rw [LocalRank.accepts] at h
  cases hmapping : loc.mappingOf ri with
  | ok mapping => exact ⟨mapping, rfl⟩
  | error e =>
    rw [hmapping] at h
    split at h <;> simp_all

/-- Asking for the pool mapping leaves it in the cache and nothing else. -/
structure Mapped (loc : LocalRank μ) (ri : RankInfo) (s s' : Registrar μ) : Prop where
  peerRi : s'.peerRiCache = s.peerRiCache
  kvMap : s'.kvMapCache = s.kvMapCache
  overlap : s'.overlapCache = s.overlapCache
  others : ∀ key, key ≠ uniqueKey ri.peerId →
    s'.lgPoolMappingCache.find? key = s.lgPoolMappingCache.find? key
  mapping : s'.lgPoolMappingCache.find? (uniqueKey ri.peerId) = (loc.mappingOf ri).toOption

/-- **The pool mapping is what it is computed to be**, if what is cached is. -/
lemma getPoolMapping_spec
    (hcache : ∀ mapping, s.lgPoolMappingCache.find? (uniqueKey ri.peerId) = some mapping →
      loc.mappingOf ri = .ok mapping) :
    (s.getPoolMapping loc ri).1 = loc.mappingOf ri
      ∧ Mapped loc ri s (s.getPoolMapping loc ri).2 := by
  rw [getPoolMapping]
  cases hfind : s.lgPoolMappingCache.find? (uniqueKey ri.peerId) with
  | some mapping =>
    have hmapping := hcache mapping hfind
    exact ⟨hmapping.symm, rfl, rfl, rfl, fun _ _ => rfl, by rw [hmapping]; exact hfind⟩
  | none =>
    cases hmapping : loc.mappingOf ri with
    | error e => exact ⟨rfl, rfl, rfl, rfl, fun _ _ => rfl, by rw [hmapping]; exact hfind⟩
    | ok mapping =>
      refine ⟨rfl, rfl, rfl, rfl, fun key hne => ?_, ?_⟩
      · rw [find?_assign, if_neg hne]
      · rw [find?_assign, if_pos rfl, hmapping]
        rfl

section

variable (h : RegistryOk loc peers s r)
include h

/-- The mapping of the peer that was given last may be cached. -/
lemma RegistryOk.mapped (hkeys : Set.InjOn uniqueKey peers)
    (hpeer : ri.peerId ∈ peers) (hgiven : r.given ri.peerId = some ri)
    (hmapped : Mapped loc ri s s') : RegistryOk loc peers s' r where
  known p hp := by
    rw [hmapped.peerRi]
    exact h.known p hp
  latest p hp ri' hlatest := by
    obtain ⟨hgiven', hid, haccepts, mapping, hfind⟩ := h.latest p hp ri' hlatest
    refine ⟨hgiven', hid, haccepts, ?_⟩
    by_cases hp' : p = ri.peerId
    · obtain rfl : ri' = ri := some.inj (hgiven'.symm.trans (hp' ▸ hgiven))
      obtain ⟨mapping', hmapping⟩ := mapping_of_accepts haccepts
      exact ⟨mapping', by rw [hp', hmapped.mapping, hmapping]; rfl⟩
    · exact ⟨mapping, by rw [hmapped.others _ fun heq => hp' (hkeys hp hpeer heq)]; exact hfind⟩
  mapping p hp mapping hfind := by
    by_cases hp' : p = ri.peerId
    · rw [hp', hmapped.mapping] at hfind
      refine ⟨ri, hp' ▸ hgiven, ?_⟩
      cases hmapping : loc.mappingOf ri with
      | error e =>
        rw [hmapping] at hfind
        cases hfind
      | ok mapping' =>
        rw [hmapping] at hfind
        rw [some.inj hfind]
    · rw [hmapped.others _ fun heq => hp' (hkeys hp hpeer heq)] at hfind
      exact h.mapping p hp mapping hfind
  kvMap := by
    rw [hmapped.kvMap]
    exact h.kvMap
  overlap := by
    rw [hmapped.overlap]
    exact h.overlap

/-- What is cached for a peer is what its `RankInfo` gives. -/
lemma RegistryOk.mapping_of_given (hpeer : ri.peerId ∈ peers)
    (hgiven : r.given ri.peerId = some ri) (mapping : UMap LGPoolKey LGPoolKey)
    (hfind : s.lgPoolMappingCache.find? (uniqueKey ri.peerId) = some mapping) :
    loc.mappingOf ri = .ok mapping := by
  obtain ⟨ri', hgiven', hmapping⟩ := h.mapping ri.peerId hpeer mapping hfind
  rwa [some.inj (hgiven'.symm.trans hgiven)] at hmapping

/-! ### Queries -/

section

variable (hkeys : Set.InjOn uniqueKey peers) (hpeer : ri.peerId ∈ peers)
  (hgiven : r.given ri.peerId = some ri)
include hkeys hpeer hgiven

/-- **A mapper is what it is computed to be.** -/
lemma RegistryOk.getKvMap (key peerKey : LGPoolKey) :
    (s.getKvMap loc ri key peerKey).1 = loc.kvMapOf ri key peerKey
    ∧ RegistryOk loc peers (s.getKvMap loc ri key peerKey).2 r := by
  rw [Registrar.getKvMap]
  cases hfind : s.kvMapCache.find? (uniqueKey ri.peerId, key, peerKey) with
  | some mapper =>
    obtain ⟨ri', hgiven', hmapper⟩ := h.kvMap ri.peerId hpeer key peerKey mapper hfind
    rw [some.inj (hgiven'.symm.trans hgiven)] at hmapper
    exact ⟨hmapper.symm, h⟩
  | none =>
    cases hmapper : loc.kvMapOf ri key peerKey with
    | error e => exact ⟨rfl, h⟩
    | ok mapper =>
      refine ⟨rfl, h.known, h.latest, h.mapping, fun p hp k k' m hm => ?_, h.overlap⟩
      rw [find?_assign] at hm
      split_ifs at hm with heq
      · obtain ⟨hkey, rfl, rfl⟩ : uniqueKey p = uniqueKey ri.peerId ∧ k = key ∧ k' = peerKey := by
          simpa only [Prod.mk.injEq] using heq
        obtain rfl := some.inj hm
        exact ⟨ri, hkeys hp hpeer hkey ▸ hgiven, hmapper⟩
      · exact h.kvMap p hp k k' m hm

/-- **An overlap is what it is computed to be.** -/
lemma RegistryOk.getPeerOverlap (peerDpRank : ℕ) :
    (s.getPeerOverlap loc ri peerDpRank).1 = loc.overlap ri peerDpRank
    ∧ RegistryOk loc peers (s.getPeerOverlap loc ri peerDpRank).2 r := by
  have hstore : ∀ {s' : Registrar μ} {targets : PeerOverlap}, RegistryOk loc peers s' r →
      loc.overlap ri peerDpRank = .ok targets → RegistryOk loc peers { s' with
        overlapCache :=
          s'.overlapCache.assign (ri.instanceName, ri.instanceRank, peerDpRank) targets } r := by
    intro s' targets h' htargets
    refine ⟨h'.known, h'.latest, h'.mapping, h'.kvMap, fun p hp dp found hfound => ?_⟩
    rw [find?_assign] at hfound
    split_ifs at hfound with heq
    · obtain ⟨hname, hrank, rfl⟩ : p.1 = ri.instanceName ∧ p.2 = ri.instanceRank
        ∧ dp = peerDpRank := by
        simpa only [Prod.mk.injEq] using heq
      obtain rfl := some.inj hfound
      exact ⟨ri, (Prod.ext hname hrank : p = ri.peerId) ▸ hgiven, htargets⟩
    · exact h'.overlap p hp dp found hfound
  rw [Registrar.getPeerOverlap]
  cases hfind : s.overlapCache.find? (ri.instanceName, ri.instanceRank, peerDpRank) with
  | some targets =>
    obtain ⟨ri', hgiven', htargets⟩ := h.overlap ri.peerId hpeer peerDpRank targets hfind
    rw [some.inj (hgiven'.symm.trans hgiven)] at htargets
    exact ⟨htargets.symm, h⟩
  | none =>
    cases hbase : Peers.overlapOf loc.ri ri peerDpRank with
    | error e => exact ⟨by rw [LocalRank.overlap, hbase]; rfl, h⟩
    | ok base =>
      cases base with
      | none =>
        have hnone : loc.overlap ri peerDpRank = .ok .none := by
          rw [LocalRank.overlap, hbase]
          rfl
        exact ⟨hnone.symm, hstore h hnone⟩
      | some base =>
        have hoverlap : loc.overlap ri peerDpRank
            = (loc.mappingOf ri).bind (loc.overlapWith ri base) := by
          rw [LocalRank.overlap, hbase]
          rfl
        obtain ⟨hmapping, hmapped⟩ := getPoolMapping_spec (h.mapping_of_given hpeer hgiven)
        have h' := h.mapped hkeys hpeer hgiven hmapped
        revert hmapping h'
        generalize s.getPoolMapping loc ri = answer
        obtain ⟨mapping, s'⟩ := answer
        intro hmapping h'
        rw [hoverlap, ← hmapping]
        cases mapping with
        | error e => exact ⟨rfl, h'⟩
        | ok mapping =>
          dsimp only
          cases htargets : loc.overlapWith ri base mapping with
          | error e => exact ⟨htargets.symm, h'⟩
          | ok targets =>
            refine ⟨htargets.symm, hstore h' ?_⟩
            rw [hoverlap, ← hmapping]
            exact htargets

end

/-- **A query is answered from the latest registration**, and changes no registration. -/
lemma RegistryOk.ask (hkeys : Set.InjOn uniqueKey peers) (hpeer : peer ∈ peers)
    (query : PeerQuery) :
    (s.ask loc peer query).1 = (match r.latest peer with
      | none => .error .keyError
      | some ri => loc.answer ri query)
    ∧ RegistryOk loc peers (s.ask loc peer query).2 r := by
  rw [Registrar.ask, getPeerRankInfo, lookup, h.known peer hpeer]
  cases hlatest : r.latest peer with
  | none => exact ⟨rfl, h⟩
  | some ri =>
    obtain ⟨hgiven, rfl, -, -⟩ := h.latest peer hpeer ri hlatest
    cases query with
    | rankInfo => exact ⟨rfl, h⟩
    | poolMapping =>
      obtain ⟨hmapping, hmapped⟩ := getPoolMapping_spec (h.mapping_of_given hpeer hgiven)
      exact ⟨congrArg (Except.map PeerAnswer.poolMapping) hmapping,
        h.mapped hkeys hpeer hgiven hmapped⟩
    | kvMap key peerKey =>
      obtain ⟨hmapper, h'⟩ := h.getKvMap hkeys hpeer hgiven key peerKey
      exact ⟨congrArg (Except.map PeerAnswer.kvMap) hmapper, h'⟩
    | overlap peerDpRank =>
      obtain ⟨htargets, h'⟩ := h.getPeerOverlap hkeys hpeer hgiven peerDpRank
      exact ⟨congrArg (Except.map PeerAnswer.overlap) htargets, h'⟩

/-! ### Registering -/

/-- The `RankInfo` of the next call is given, with nothing cached about its peer or not for the
first time. -/
lemma RegistryOk.give (hpeer : peer ∈ peers) (hok : s.Clean peer ∨ r.given peer = some ri) :
    RegistryOk loc peers s { r with given := update r.given peer (some ri) } := by
  have hothers : ∀ p, p ≠ peer → update r.given peer (some ri) p = r.given p :=
    fun p hne => update_of_ne hne ..
  rcases hok with hclean | hsame
  · have hnot : ∀ p ∈ peers, ∀ ri', r.latest p = some ri' → p ≠ peer := by
      rintro p hp ri' hlatest rfl
      obtain ⟨-, -, -, mapping, hfind⟩ := h.latest p hp ri' hlatest
      rw [hclean.mapping] at hfind
      cases hfind
    refine ⟨h.known, fun p hp ri' hlatest => ?_, fun p hp mapping hfind => ?_,
      fun p hp key peerKey mapper hfind => ?_, fun p hp dp targets hfind => ?_⟩
    · obtain ⟨hgiven, hrest⟩ := h.latest p hp ri' hlatest
      exact ⟨(hothers p (hnot p hp ri' hlatest)).trans hgiven, hrest⟩
    · have hne : p ≠ peer := by
        rintro rfl
        rw [hclean.mapping] at hfind
        cases hfind
      obtain ⟨ri', hgiven, hmapping⟩ := h.mapping p hp mapping hfind
      exact ⟨ri', (hothers p hne).trans hgiven, hmapping⟩
    · have hne : p ≠ peer := by
        rintro rfl
        rw [hclean.kvMap] at hfind
        cases hfind
      obtain ⟨ri', hgiven, hmapper⟩ := h.kvMap p hp key peerKey mapper hfind
      exact ⟨ri', (hothers p hne).trans hgiven, hmapper⟩
    · have hne : p ≠ peer := by
        rintro rfl
        rw [hclean.overlap] at hfind
        cases hfind
      obtain ⟨ri', hgiven, htargets⟩ := h.overlap p hp dp targets hfind
      exact ⟨ri', (hothers p hne).trans hgiven, htargets⟩
  · rw [← hsame, update_eq_self]
    exact h

variable (hkeys : Set.InjOn uniqueKey peers)
include hkeys

/-- **The checks of a peer are those with nothing cached.** -/
lemma RegistryOk.checkPeerCompatible
    (hpeer : ri.peerId ∈ peers) (hgiven : r.given ri.peerId = some ri) :
    ((s.checkPeerCompatible loc ri).1 = .ok true ↔ loc.accepts ri = true)
    ∧ RegistryOk loc peers (s.checkPeerCompatible loc ri).2 r
    ∧ (loc.accepts ri = true → Mapped loc ri s (s.checkPeerCompatible loc ri).2) := by
  rw [Registrar.checkPeerCompatible, LocalRank.accepts]
  cases hpolicies : loc.policiesAccept ri with
  | error e => exact ⟨by simp, h, fun haccepts => by simp at haccepts⟩
  | ok accepted =>
    cases accepted with
    | false => exact ⟨by simp, h, fun haccepts => by simp at haccepts⟩
    | true =>
      obtain ⟨hmapping, hmapped⟩ := getPoolMapping_spec (h.mapping_of_given hpeer hgiven)
      have h' := h.mapped hkeys hpeer hgiven hmapped
      revert hmapping hmapped h'
      generalize s.getPoolMapping loc ri = answer
      obtain ⟨mapping, s'⟩ := answer
      intro hmapping hmapped h'
      rw [← hmapping]
      cases mapping with
      | error e => exact ⟨by simp, h', fun _ => hmapped⟩
      | ok mapping =>
        dsimp only
        cases hvalid : validateViewHeadGeometry loc.pageTable ri.pageTable mapping with
        | error e => exact ⟨iff_of_false nofun Bool.false_ne_true, h', fun _ => hmapped⟩
        | ok u => exact ⟨iff_of_true rfl rfl, h', fun _ => hmapped⟩

/-- **A peer is registered**, if it passes the checks. -/
lemma RegistryOk.register
    (hpeer : ri.peerId ∈ peers) (hok : s.Clean ri.peerId ∨ r.given ri.peerId = some ri) :
    RegistryOk loc peers (s.register loc ri.peerId ri).2 (r.step loc (.register ri.peerId ri)) := by
  have hgive := h.give hpeer hok
  have hgiven : (update r.given ri.peerId (some ri)) ri.peerId = some ri := update_self ..
  obtain ⟨hiff, hcheck, hmapped⟩ := hgive.checkPeerCompatible hkeys hpeer hgiven
  revert hiff hcheck hmapped
  rw [Registrar.register, Registrations.step]
  generalize s.checkPeerCompatible loc ri = answer
  obtain ⟨accepted, s₁⟩ := answer
  intro hiff hcheck hmapped
  have hrefused : ¬ loc.accepts ri = true → RegistryOk loc peers s₁
      ⟨if loc.accepts ri then update r.latest ri.peerId (some ri) else r.latest,
        update r.given ri.peerId (some ri)⟩ := fun hnot => by
    rw [if_neg hnot]
    exact hcheck
  match accepted, hiff with
  | .error e, hiff => exact hrefused fun haccepts => by cases hiff.mpr haccepts
  | .ok false, hiff => exact hrefused fun haccepts => by cases hiff.mpr haccepts
  | .ok true, hiff =>
    have haccepts := hiff.mp rfl
    rw [if_pos haccepts]
    have hstored : RegistryOk loc peers { s₁ with
          peerRiCache := s₁.peerRiCache.assign (uniqueKey ri.peerId) ri }
        ⟨update r.latest ri.peerId (some ri), update r.given ri.peerId (some ri)⟩ := by
      refine ⟨fun p hp => ?_, fun p hp ri' hlatest => ?_, hcheck.mapping, hcheck.kvMap,
        hcheck.overlap⟩
      · show _ = update r.latest ri.peerId (some ri) p
        rw [find?_assign]
        by_cases hp' : p = ri.peerId
        · rw [hp', if_pos rfl, update_self]
        · rw [if_neg fun heq => hp' (hkeys hp hpeer heq), update_of_ne hp']
          exact hcheck.known p hp
      · have hlatest : update r.latest ri.peerId (some ri) p = some ri' := hlatest
        by_cases hp' : p = ri.peerId
        · subst hp'
          rw [update_self] at hlatest
          obtain rfl := some.inj hlatest
          obtain ⟨mapping, hmapping⟩ := mapping_of_accepts haccepts
          exact ⟨hgiven, rfl, haccepts, mapping, by rw [(hmapped haccepts).mapping, hmapping]; rfl⟩
        · rw [update_of_ne hp'] at hlatest
          exact hcheck.latest p hp ri' hlatest
    cases htable : ri.pageTable with
    | none => exact hstored
    | some table =>
      dsimp only
      -- the extractor of the peer is in no answer
      have hext : RegistryOk loc peers ⟨s₁.peerRiCache.assign (uniqueKey ri.peerId) ri,
        s₁.kvMapCache, s₁.peerExtCache.assign (uniqueKey ri.peerId) table, s₁.overlapCache,
          s₁.lgPoolMappingCache⟩
          ⟨update r.latest ri.peerId (some ri), update r.given ri.peerId (some ri)⟩ :=
        ⟨hstored.known, hstored.latest, hstored.mapping, hstored.kvMap, hstored.overlap⟩
      obtain ⟨-, hmapped'⟩ := getPoolMapping_spec (hext.mapping_of_given hpeer hgiven)
      have h' := hext.mapped hkeys hpeer hgiven hmapped'
      revert h'
      generalize getPoolMapping loc ri _ = answer
      obtain ⟨mapping, s₂⟩ := answer
      intro h'
      cases mapping with
      | error | ok => exact h'

/-- **A peer is forgotten**, but for its overlaps. -/
lemma RegistryOk.unregister (hpeer : peer ∈ peers) :
    RegistryOk loc peers (s.unregister peer) (r.step loc (.unregister peer)) := by
  refine ⟨fun p hp => ?_, fun p hp ri hlatest => ?_, fun p hp mapping hfind => ?_,
    fun p hp key peerKey mapper hfind => ?_, h.overlap⟩
  · show (s.peerRiCache.erase (uniqueKey peer)).find? (uniqueKey p) = update r.latest peer none p
    rw [find?_erase]
    by_cases hp' : p = peer
    · rw [hp', if_pos rfl, update_self]
    · rw [if_neg fun heq => hp' (hkeys hp hpeer heq), update_of_ne hp']
      exact h.known p hp
  · have hlatest : update r.latest peer none p = some ri := hlatest
    have hp' : p ≠ peer := by
      rintro rfl
      rw [update_self] at hlatest
      cases hlatest
    rw [update_of_ne hp'] at hlatest
    obtain ⟨hgiven, hid, haccepts, mapping, hfind⟩ := h.latest p hp ri hlatest
    refine ⟨hgiven, hid, haccepts, mapping, ?_⟩
    show (s.lgPoolMappingCache.erase (uniqueKey peer)).find? (uniqueKey p) = some mapping
    rw [find?_erase, if_neg fun heq => hp' (hkeys hp hpeer heq)]
    exact hfind
  · have hfind : (s.lgPoolMappingCache.erase (uniqueKey peer)).find? (uniqueKey p) = some mapping :=
      hfind
    rw [find?_erase] at hfind
    split_ifs at hfind
    exact h.mapping p hp mapping hfind
  · have hfind : (s.kvMapCache.filter fun k _ => k.1 ≠ uniqueKey peer).find?
        (uniqueKey p, key, peerKey) = some mapper := hfind
    rw [UMap.find?_filter] at hfind
    exact h.kvMap p hp key peerKey mapper (filter_eq_some_iff.mp hfind).1

/-! ### Every run -/

/-- **Every call keeps the registry right.** -/
lemma RegistryOk.step (hpeer : call.peer ∈ peers) (hok : CallOk s r call) :
    RegistryOk loc peers (s.step loc call) (r.step loc call) := by
  cases call with
  | register peer ri =>
    obtain ⟨rfl, hok⟩ := hok
    exact h.register hkeys hpeer hok
  | unregister peer => exact h.unregister hkeys hpeer
  | ask peer query => exact (h.ask hkeys hpeer query).2

end

/-- The part of an admissible run before a call. -/
lemma Admissible.init {calls : List PeerCall} (h : Admissible loc peers (calls ++ [call])) :
    Admissible loc peers calls where
  keys := h.keys
  mem c hc := h.mem c (mem_append_left _ hc)
  ok before c rest heq := h.ok before c (rest ++ [call]) (by rw [heq, append_assoc]; rfl)

/-- **The registry is right after every admissible run.** -/
lemma registryOk_after {calls : List PeerCall} (h : Admissible loc peers calls) :
    RegistryOk loc peers (after loc calls) (Registrations.after loc calls) := by
  induction calls using reverseRecOn with
  | nil => exact ⟨fun _ _ => rfl, nofun, nofun, nofun, nofun⟩
  | append_singleton calls call ih =>
    rw [after, Registrations.after, foldl_concat, foldl_concat]
    exact (ih h.init).step h.keys (h.mem call (by simp)) (h.ok calls call [] rfl)

/-- A registrar that knows one peer alone. -/
def fresh (loc : LocalRank μ) (ri : RankInfo) : Registrar μ := (init.register loc ri.peerId ri).2

/-- It answers what is computed. -/
lemma fresh_answer (haccepts : loc.accepts ri = true) (query : PeerQuery) :
    ((fresh loc ri).ask loc ri.peerId query).1 = loc.answer ri query := by
  have hadmissible : Admissible loc {ri.peerId} [.register ri.peerId ri] := by
    refine ⟨Set.injOn_singleton _ _, fun c hc => ?_, fun before c rest heq => ?_⟩
    · rw [mem_singleton.mp hc]
      rfl
    · obtain ⟨rfl, rfl, -⟩ : before = [] ∧ PeerCall.register ri.peerId ri = c ∧ rest = [] := by
        cases before with
        | nil => exact ⟨rfl, (cons.inj heq).1, (cons.inj heq).2.symm⟩
        | cons _ _ => simp at heq
      exact ⟨rfl, .inl ⟨rfl, fun _ _ => rfl, fun _ => rfl⟩⟩
  have hanswer :=
    ((registryOk_after hadmissible).ask hadmissible.keys (Set.mem_singleton _) query).1
  have hlatest : (Registrations.after loc [.register ri.peerId ri]).latest ri.peerId = some ri := by
    rw [Registrations.after, foldl_cons, foldl_nil, Registrations.step]
    dsimp only
    rw [if_pos haccepts, update_self]
  rw [hlatest] at hanswer
  exact hanswer

/-- What a call to another peer leaves of the registrations. -/
lemma latest_step_of_ne (hne : peer ≠ call.peer) :
    (r.step loc call).latest peer = r.latest peer := by
  cases call with
  | register p ri =>
    rw [Registrations.step]
    split_ifs
    · exact update_of_ne hne ..
    · rfl
  | unregister p => exact update_of_ne hne ..
  | ask p query => rfl

/-- **The answers follow the latest registration**: in every admissible run, a peer that is
registered is answered for as by a registrar that knows its latest registration alone, one that is
not registered is unknown, and no call to another peer changes an answer. -/
theorem answers_follow_registration (loc : LocalRank μ) (peers : Set PeerId) (calls : List PeerCall)
    (h : Admissible loc peers calls) :
    (∀ peer ∈ peers, ∀ query, ((after loc calls).ask loc peer query).1 =
      match (Registrations.after loc calls).latest peer with
      | none => .error .keyError
      | some ri => ((fresh loc ri).ask loc peer query).1)
    ∧ (∀ peer ∈ peers, ∀ query, (((after loc calls).unregister peer).ask loc peer query).1
      = .error .keyError)
    ∧ ∀ call, Admissible loc peers (calls ++ [call]) → ∀ peer ∈ peers, peer ≠ call.peer → ∀ query,
      (((after loc calls).step loc call).ask loc peer query).1
        = ((after loc calls).ask loc peer query).1 := by
  have hok := registryOk_after h
  refine ⟨fun peer hpeer query => ?_, fun peer hpeer query => ?_,
    fun call hcall peer hpeer hne query => ?_⟩
  · rw [(hok.ask h.keys hpeer query).1]
    cases hlatest : (Registrations.after loc calls).latest peer with
    | none => rfl
    | some ri =>
      obtain ⟨-, rfl, haccepts, -⟩ := hok.latest peer hpeer ri hlatest
      exact (fresh_answer haccepts query).symm
  · rw [((hok.unregister h.keys hpeer).ask h.keys hpeer query).1]
    have hnone : ((Registrations.after loc calls).step loc (.unregister peer)).latest peer = none :=
      update_self ..
    rw [hnone]
  · have hstep := hok.step h.keys (hcall.mem call (by simp)) (hcall.ok calls call [] rfl)
    rw [(hstep.ask h.keys hpeer query).1, (hok.ask h.keys hpeer query).1, latest_step_of_ne hne]

end Registrar

/-! ### A peer that restarts -/

/-- A group of one layer, with the key cache that an indexer replicates on every rank. -/
def indexerGroup (layer : ℕ) : LayerGroup :=
  ⟨.PAGED, [⟨0, layer⟩], [⟨0, [⟨0, 0, 8⟩], {"index_key"}, .REPLICATED, some 8, none⟩]⟩

/-- A rank of a peer with the groups in the order given, of `tpSize` tensor-parallel ranks. -/
def samplePeer (peer : PeerId) (tpSize : ℕ) (layers : List ℕ) : RankInfo where
  instanceName := peer.1
  instanceRank := peer.2
  tpSize := tpSize
  tpRank := 0
  ppSize := 1
  ppRank := 0
  layerNumPerPp := [2]
  dpSize := 1
  dpRank := 0
  cpSize := 1
  cpRank := 0
  attention := some ⟨1, false⟩
  pageTable := some ⟨layers.map indexerGroup⟩

/-- A rank that holds the first layer, and whose policies accept the peers below. -/
def sampleRank : LocalRank MapperArgs where
  ri := samplePeer ("self", 0) 1 [0]
  pageTable := some ⟨[indexerGroup 0]⟩
  policiesAccept _ := .ok true
  buildMapper args := .ok args

section

variable (answer : Except PeerError (PeerAnswer MapperArgs))

/-- The entry of the mapping for the first view. -/
def firstView : Option (Option LGPoolKey) :=
  match answer with
  | .ok (.poolMapping mapping) => some (mapping.find? (0, 0))
  | _ => none

/-- The ranks of an overlap. -/
def overlapRanks : Option (List ℕ) :=
  match answer with
  | .ok (.overlap targets) => some targets.ranks
  | _ => none

/-- The peer is known. -/
def isKnown : Bool :=
  match answer with
  | .ok (.rankInfo _) => true
  | _ => false

end

open Registrar

/-- A peer is registered twice with the same `RankInfo`, and answered for as if it was registered
once. -/
theorem answers_follow_registration_twice : let ri := samplePeer ("p", 0) 1 [0, 1]
    ((after sampleRank [.register ("p", 0) ri, .register ("p", 0) ri]).ask sampleRank ("p",
      0) .poolMapping).1
      = ((fresh sampleRank ri).ask sampleRank ("p", 0) .poolMapping).1 := by
  intro ri
  have hadmissible : Admissible sampleRank {("p", 0)} [.register ("p", 0) ri,
    .register ("p", 0) ri] := by
    refine ⟨Set.injOn_singleton _ _, fun c hc => ?_, fun before c rest heq => ?_⟩
    · obtain rfl : c = .register ("p", 0) ri := by simpa using hc
      rfl
    · match before, heq with
      | [], heq =>
        obtain ⟨rfl, -⟩ := cons.inj heq
        exact ⟨rfl, .inl ⟨rfl, fun _ _ => rfl, fun _ => rfl⟩⟩
      | [first], heq =>
        obtain ⟨rfl, hrest⟩ := cons.inj heq
        obtain ⟨rfl, -⟩ := cons.inj hrest
        exact ⟨rfl, .inr rfl⟩
      | first :: second :: before, heq => simp at heq
  have hanswer := (answers_follow_registration sampleRank {("p", 0)} _ hadmissible).1 ("p", 0)
    (Set.mem_singleton _) .poolMapping
  have hlatest :
      (Registrations.after sampleRank [.register ("p", 0) ri, .register ("p", 0) ri]).latest ("p",
        0)
      = some ri := by decide +kernel
  rw [hlatest] at hanswer
  exact hanswer

/-- **Answers go stale**: a peer registers again with its layers grouped in another order, and its
pool mapping is that of before; it is unregistered and comes back with two tensor-parallel ranks,
and its overlap is that of before; and unregistering one peer makes another one with the same key
unknown. -/
theorem registrations_go_stale : (let before := samplePeer ("p", 0) 1 [0, 1]
      let now := samplePeer ("p", 0) 1 [1, 0]
      let calls := [.register ("p", 0) before, .register ("p", 0) now]
      (Registrations.after sampleRank calls).latest ("p", 0) = some now
      ∧ ((after sampleRank calls).ask sampleRank ("p", 0) .poolMapping).1
        ≠ ((fresh sampleRank now).ask sampleRank ("p", 0) .poolMapping).1)
    ∧ (let before := samplePeer ("p", 0) 1 [0, 1]
      let now := samplePeer ("p", 0) 2 [0, 1]
      let calls := [.register ("p", 0) before, .ask ("p", 0) (.overlap 0), .unregister ("p", 0),
        .register ("p", 0) now]
      (Registrations.after sampleRank calls).latest ("p", 0) = some now
      ∧ ((after sampleRank calls).ask sampleRank ("p", 0) (.overlap 0)).1
        ≠ ((fresh sampleRank now).ask sampleRank ("p", 0) (.overlap 0)).1)
    ∧ (let other := samplePeer ("a", 12) 1 [0, 1]
      let calls := [.register ("a1", 2) (samplePeer ("a1", 2) 1 [0, 1]), .register ("a", 12) other,
        .unregister ("a1", 2)]
      (Registrations.after sampleRank calls).latest ("a", 12) = some other
      ∧ ((after sampleRank calls).ask sampleRank ("a", 12) .rankInfo).1
        ≠ ((fresh sampleRank other).ask sampleRank ("a", 12) .rankInfo).1) := by
  refine ⟨⟨by decide +kernel, fun heq => ?_⟩, ⟨by decide +kernel, fun heq => ?_⟩,
    ⟨by decide +kernel, fun heq => ?_⟩⟩
  · exact absurd (congrArg firstView heq) (by decide +kernel)
  · exact absurd (congrArg overlapRanks heq) (by decide +kernel)
  · exact absurd (congrArg isKnown heq) (by decide +kernel)

end TrtLlm.Peers
