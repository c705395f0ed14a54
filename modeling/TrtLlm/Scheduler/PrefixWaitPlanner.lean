import TrtLlm.Util.Machine
import TrtLlm.Util.PyDict

/-!
`PrefixWaitPlanner`: which new context requests wait while another request prefills a prefix that
they share (`scheduler/prefix_wait_planner.py`).

Prompts are compared by chained digests of their units; an equal digest means the same units in the
same scope (`Digests`).  The requests that prefill are the owners, and an index maps every digest to
the owners that have it.

* `mem_fingerprints_iff`: **what an equal digest says about two prompts**;
* `PlannerOk`: the index is the inverse of the owners' digests;
* `PlannerOk.dropFinishedOwners`, `PlannerOk.addOwner`: the two calls that change the owners.
-/

namespace TrtLlm.PrefixWait

open List Option UMap

/-! ### The planner -/

/-- `PREFIX_UNIT_BLOCKS`. -/
def PREFIX_UNIT_BLOCKS : ℕ := 8

/-- `MIN_GAIN_BLOCKS`. -/
def MIN_GAIN_BLOCKS : ℕ := 64

/-- `MAX_WAIT_PASSES`. -/
def MAX_WAIT_PASSES : ℕ := 128

/-- The digests of a scope and of a unit after a digest; a chain of them is that of one scope and
one list of units only. -/
structure Digests (σ δ : Type) where
  seed : σ → δ
  chain : δ → List ℤ → δ
  injective : ∀ {s s' : σ} {us us' : List (List ℤ)},
    us.foldl chain (seed s) = us'.foldl chain (seed s') → s = s' ∧ us = us'

/-- What does not change: the size of a block, and the scope and the prompt of every request. -/
structure Setup (σ δ : Type) where
  digests : Digests σ δ
  tokensPerBlock : ℕ
  scope : ℕ → σ
  tokens : ℕ → List ℤ

/-- What `_is_candidate` reads of a request. -/
structure Request where
  id : ℕ
  isFirstContextChunk : Bool
  isDummyRequest : Bool
  hasMultimodalHashes : Bool
deriving DecidableEq

/-- A call of `plan`: the pending requests, each once, and the answers of the cache manager. -/
structure Pass where
  requests : List Request
  kvCacheMap : Finset ℕ
  contextRemainingLength : ℕ → ℕ
  probeContextReuse : ℕ → Option ℕ
  requestPrefixSnapshot : ℕ → ℕ → Bool
  nodup : (requests.map Request.id).Nodup

/-- The fields of the planner; an owner is its id. -/
structure Planner (δ : Type) where
  fingerprints : UMap ℕ (List δ)
  owners : USet ℕ
  ownersByDigest : UMap δ (Finset ℕ)
  waitPasses : UMap ℕ ℕ

def Planner.new (δ : Type) : Planner δ := ⟨∅, ∅, ∅, ∅⟩

variable {σ δ : Type} [DecidableEq δ]

namespace Setup

variable (e : Setup σ δ)

/-- `_unit_tokens`. -/
def unitTokens : ℕ := PREFIX_UNIT_BLOCKS * e.tokensPerBlock

/-- `_min_gain_tokens`. -/
def minGainTokens : ℕ := MIN_GAIN_BLOCKS * e.tokensPerBlock

/-- The full units of a prompt without its last token. -/
def units (id : ℕ) : List (List ℤ) :=
  (range (((e.tokens id).length - 1) / e.unitTokens)).map fun k =>
    ((e.tokens id).drop (k * e.unitTokens)).take e.unitTokens

end Setup

/-- The loop of `_fingerprints_of`. -/
def chained (chain : δ → List ℤ → δ) (digest : δ) : List (List ℤ) → List δ
  | [] => []
  | u :: us => chain digest u :: chained chain (chain digest u) us

/-- What `_fingerprints_of` computes for a request. -/
def Setup.fingerprints (e : Setup σ δ) (id : ℕ) : List δ :=
  chained e.digests.chain (e.digests.seed (e.scope id)) (e.units id)

namespace Planner

/-- `_fingerprints_of`: the cached digests, or new ones. -/
def fingerprintsOf (e : Setup σ δ) (id : ℕ) (s : Planner δ) : List δ × Planner δ :=
  match s.fingerprints.find? id with
  | some cached => (cached, s)
  | none => (e.fingerprints id,
    { s with fingerprints := s.fingerprints.assign id (e.fingerprints id) })

/-- The owners with a digest. -/
def ownersOf (index : UMap δ (Finset ℕ)) (d : δ) : Finset ℕ := (index.find? d).getD ∅

section

variable (id : ℕ) (ds : List δ) (index : UMap δ (Finset ℕ))

/-- `owners_by_digest[d].add(id)` for the digests in turn. -/
def addAll : UMap δ (Finset ℕ) :=
  ds.foldl (fun index d => index.assign d (insert id (ownersOf index d))) index

/-- `owners_by_digest[d].discard(id)` for the digests in turn; an empty set is deleted. -/
def discardAll : UMap δ (Finset ℕ) :=
  ds.foldl (fun index d =>
    if (ownersOf index d).erase id = ∅ then index.erase d
    else index.assign d ((ownersOf index d).erase id)) index

end

def addOwner (id : ℕ) (s : Planner δ) : Planner δ :=
  match s.fingerprints.find? id with
  | none => s
  | some fingerprints =>
    if id ∈ s.owners then s
    else { s with
      owners := s.owners.insert id
      ownersByDigest := addAll id fingerprints s.ownersByDigest }

/-- One owner of the loop of `_drop_finished_owners`. -/
def dropOwner (s : Planner δ) (id : ℕ) : Planner δ := { s with
  owners := s.owners.erase id
  fingerprints := s.fingerprints.erase id
  ownersByDigest := discardAll id ((s.fingerprints.find? id).getD []) s.ownersByDigest }

/-- An owner that finished its context or gave up its claim. -/
def Finished (p : Pass) (id : ℕ) : Prop := p.contextRemainingLength id = 0 ∨ id ∉ p.kvCacheMap

instance (p : Pass) (id : ℕ) : Decidable (Finished p id) := inferInstanceAs (Decidable (_ ∨ _))

def dropFinishedOwners (p : Pass) (s : Planner δ) : Planner δ :=
  (s.owners.keys.filter fun id => Finished p id).foldl dropOwner s

end Planner

/-- `for depth in range(hi, lo, -1)`: the first depth with a result. -/
def deepest (lookup : δ → Option ℕ) (fingerprints : List δ) (lo : ℕ) : ℕ → Option (ℕ × ℕ)
  | 0 => none
  | d + 1 =>
    if d + 1 ≤ lo then none
    else
      match fingerprints[d]?.bind lookup with
      | some owner => some (owner, d + 1)
      | none => deepest lookup fingerprints lo d

namespace Planner

/-- `min(owner_ids)` of a digest, if there are any. -/
def leastOwner (index : UMap δ (Finset ℕ)) (d : δ) : Option ℕ :=
  if h : (ownersOf index d).Nonempty then some ((ownersOf index d).min' h) else none

/-- `_deepest_owner`. -/
def deepestOwner (s : Planner δ) (fingerprints : List δ) : Option (ℕ × ℕ) :=
  deepest (leastOwner s.ownersByDigest) fingerprints 0 fingerprints.length

/-- `_owner_to_wait_for`. -/
def ownerToWaitFor (e : Setup σ δ) (p : Pass) (s : Planner δ) (passOwners : UMap δ ℕ) (id : ℕ)
    (fingerprints : List δ) : Option ℕ :=
  let owner := s.deepestOwner fingerprints
  let owner :=
    (deepest passOwners.find? fingerprints ((owner.map Prod.snd).getD 0) fingerprints.length).or
      owner
  match owner with
  | none => none
  | some (owner, units) =>
    let shared := units * e.unitTokens
    let reusable := (p.probeContextReuse id).getD 0
    if (shared : ℤ) - reusable < e.minGainTokens then none
    else if p.requestPrefixSnapshot owner shared then some owner
    else none

end Planner

/-- `_is_candidate`. -/
def Pass.isCandidate (p : Pass) (r : Request) : Bool :=
  r.isFirstContextChunk && r.id ∉ p.kvCacheMap && !r.isDummyRequest && !r.hasMultimodalHashes

/-- The variables of the loop of `plan`. -/
structure PlanLoop (δ : Type) where
  planner : Planner δ
  waiting : UMap ℕ (Option ℕ)
  waitPasses : UMap ℕ ℕ
  passOwners : UMap δ ℕ

/-- `pass_owners.setdefault(digest, req)` for the digests in turn. -/
def setDefaults (id : ℕ) (ds : List δ) (passOwners : UMap δ ℕ) : UMap δ ℕ :=
  ds.foldl (fun owners d => if d ∈ owners then owners else owners.assign d id) passOwners

/-- One request of the loop of `plan`. -/
def planRequest (e : Setup σ δ) (p : Pass) (l : PlanLoop δ) (r : Request) : PlanLoop δ :=
  if !p.isCandidate r then l
  else
    let (fingerprints, planner) := l.planner.fingerprintsOf e r.id
    let waited := (planner.waitPasses.find? r.id).getD 0
    let owner :=
      if waited < MAX_WAIT_PASSES then planner.ownerToWaitFor e p l.passOwners r.id fingerprints
        else none
    match owner with
    | none => ⟨planner, l.waiting, l.waitPasses.assign r.id waited,
        setDefaults r.id fingerprints l.passOwners⟩
    | some owner => ⟨planner,
        l.waiting.assign r.id (if owner ∈ planner.owners then none else some owner),
        l.waitPasses.assign r.id (waited + 1), l.passOwners⟩

def plan (e : Setup σ δ) (p : Pass) (s : Planner δ) : UMap ℕ (Option ℕ) × Planner δ :=
  let l := p.requests.foldl (planRequest e p) ⟨s.dropFinishedOwners p, ∅, ∅, ∅⟩
  (l.waiting, { l.planner with
    waitPasses := l.waitPasses
    fingerprints := l.planner.fingerprints.filter fun id _ => id ∈ l.waitPasses
      ∨ id ∈ l.planner.owners })

/-! ### Digests and shared units -/

/-- The number of first units that two lists have in common. -/
def commonUnits : List (List ℤ) → List (List ℤ) → ℕ
  | u :: us, v :: vs => if u = v then commonUnits us vs + 1 else 0
  | _, _ => 0

lemma le_commonUnits_iff {k : ℕ} {us vs : List (List ℤ)} :
    k ≤ commonUnits us vs ↔ k ≤ us.length ∧ k ≤ vs.length ∧ us.take k = vs.take k := by
  induction us generalizing k vs with
  | nil =>
    rw [commonUnits]
    · constructor
      · intro h
        obtain rfl := Nat.le_zero.mp h
        exact ⟨Nat.zero_le _, Nat.zero_le _, rfl⟩
      · exact fun h => h.1
    · intro u us v vs h
      cases h
  | cons u us ih =>
    cases vs with
    | nil =>
      rw [commonUnits]
      · constructor
        · intro h
          obtain rfl := Nat.le_zero.mp h
          exact ⟨Nat.zero_le _, Nat.zero_le _, rfl⟩
        · exact fun h => h.2.1
      · intro u us v vs _ h
        cases h
    | cons v vs =>
      rw [commonUnits]
      cases k with
      | zero => simp
      | succ k =>
        simp only [length_cons, take_succ_cons, cons.injEq, Nat.add_le_add_iff_right]
        split_ifs with huv
        · rw [Nat.add_le_add_iff_right, ih]
          simp [huv]
        · constructor
          · intro h
            omega
          · exact fun h => absurd h.2.2.1 huv

/-- The units that two requests share: the first ones of their prompts, in the same scope. -/
def Setup.shared [DecidableEq σ] (e : Setup σ δ) (id id' : ℕ) : ℕ :=
  if e.scope id = e.scope id' then commonUnits (e.units id) (e.units id') else 0

omit [DecidableEq δ] in
lemma getElem?_chained (chain : δ → List ℤ → δ) (digest : δ) (us : List (List ℤ)) (k : ℕ) :
    (chained chain digest us)[k]?
      = if k < us.length then some ((us.take (k + 1)).foldl chain digest) else none := by
  induction us generalizing digest k with
  | nil => simp [chained]
  | cons u us ih =>
    rw [chained]
    cases k with
    | zero => simp
    | succ k => simp [ih]

omit [DecidableEq δ] in
lemma length_chained (chain : δ → List ℤ → δ) (digest : δ) (us : List (List ℤ)) :
    (chained chain digest us).length = us.length := by
  induction us generalizing digest with
  | nil => rfl
  | cons u us ih => rw [chained, length_cons, ih, length_cons]

section Shared

variable [DecidableEq σ] (e : Setup σ δ)

omit [DecidableEq δ] in
lemma shared_le (id id' : ℕ) : e.shared id id' ≤ (e.fingerprints id).length := by
  rw [Setup.shared, Setup.fingerprints, length_chained]
  split_ifs
  · exact (le_commonUnits_iff.mp (le_refl _)).1
  · exact Nat.zero_le _

omit [DecidableEq δ] in
/-- **A request has the digest of another one at a depth if and only if they share as many
units.** -/
lemma mem_fingerprints_iff {id id' k : ℕ} {d : δ} (hd : (e.fingerprints id)[k]? = some d) :
    d ∈ e.fingerprints id' ↔ k < e.shared id id' := by
  rw [Setup.fingerprints, getElem?_chained] at hd
  split_ifs at hd with hk
  rw [← some.inj hd, Setup.fingerprints, mem_iff_getElem?, Setup.shared]
  constructor
  · rintro ⟨j, hj⟩
    rw [getElem?_chained] at hj
    split_ifs at hj with hjlen
    obtain ⟨hscope, htake⟩ := e.digests.injective (some.inj hj)
    have hlen := congrArg length htake
    rw [length_take, length_take] at hlen
    obtain rfl : j = k := by omega
    rw [if_pos hscope.symm]
    exact le_commonUnits_iff.mpr ⟨hk, hjlen, htake.symm⟩
  · intro hlt
    split_ifs at hlt with hscope
    · obtain ⟨-, hlen, htake⟩ := le_commonUnits_iff.mp (Nat.succ_le_of_lt hlt)
      refine ⟨k, ?_⟩
      rw [getElem?_chained, if_pos (show k < _ from hlen), ← htake, hscope]
    · exact absurd hlt (Nat.not_lt_zero k)

end Shared

omit [DecidableEq δ] in
/-- The result of a search from the deepest unit on. -/
lemma deepest_eq_some {lookup : δ → Option ℕ} {ds : List δ} {lo hi owner depth : ℕ}
    (h : deepest lookup ds lo hi = some (owner, depth)) :
    lo < depth ∧ depth ≤ hi ∧ (∃ d, ds[depth - 1]? = some d ∧ lookup d = some owner)
    ∧ ∀ k d, depth ≤ k → k < hi → ds[k]? = some d → lookup d = none := by
  induction hi with
  | zero => cases h
  | succ n ih =>
    rw [deepest] at h
    split_ifs at h with hlo
    cases hfound : ds[n]?.bind lookup with
    | some x =>
      rw [hfound] at h
      obtain ⟨rfl, rfl⟩ := Prod.mk.inj (some.inj h)
      obtain ⟨d, hd, hx⟩ := bind_eq_some_iff.mp hfound
      exact ⟨by omega, le_refl _, ⟨d, hd, hx⟩, fun k d hle hlt => by omega⟩
    | none =>
      rw [hfound] at h
      obtain ⟨hlt, hle, hd, hnone⟩ := ih h
      refine ⟨hlt, by omega, hd, fun k d hk hkn hkd => ?_⟩
      rcases Nat.lt_succ_iff_lt_or_eq.mp hkn with hkn | rfl
      · exact hnone k d hk hkn hkd
      · rw [hkd] at hfound
        exact hfound

omit [DecidableEq δ] in
lemma deepest_eq_none {lookup : δ → Option ℕ} {ds : List δ} {lo hi : ℕ}
    (h : deepest lookup ds lo hi = none) {k : ℕ} {d : δ} (hlo : lo ≤ k) (hk : k < hi)
    (hd : ds[k]? = some d) : lookup d = none := by
  induction hi with
  | zero => exact absurd hk (Nat.not_lt_zero k)
  | succ n ih =>
    rw [deepest, if_neg (by omega)] at h
    cases hfound : ds[n]?.bind lookup with
    | some x =>
      rw [hfound] at h
      cases h
    | none =>
      rw [hfound] at h
      rcases Nat.lt_succ_iff_lt_or_eq.mp hk with hk | rfl
      · exact ih h hk
      · rw [hd] at hfound
        exact hfound

/-! ### The index -/

namespace Planner

lemma ownersOf_assign (index : UMap δ (Finset ℕ)) (d d' : δ) (ids : Finset ℕ) :
    ownersOf (index.assign d ids) d' = if d' = d then ids else ownersOf index d' := by
  rw [ownersOf, find?_assign]
  split_ifs
  · rfl
  · rfl

section

variable (id : ℕ) (ds : List δ) (index : UMap δ (Finset ℕ)) (d : δ)

lemma ownersOf_addAll : ownersOf (addAll id ds index) d
      = if d ∈ ds then insert id (ownersOf index d) else ownersOf index d := by
  induction ds generalizing index with
  | nil => rw [if_neg not_mem_nil]; rfl
  | cons d' ds ih =>
    have hstep : addAll id (d' :: ds) index
        = addAll id ds (index.assign d' (insert id (ownersOf index d'))) := rfl
    rw [hstep, ih, ownersOf_assign]
    by_cases hd : d = d'
    · subst hd
      simp
    · simp [hd]

lemma ownersOf_discardAll : ownersOf (discardAll id ds index) d
      = if d ∈ ds then (ownersOf index d).erase id else ownersOf index d := by
  induction ds generalizing index with
  | nil => rw [if_neg not_mem_nil]; rfl
  | cons d' ds ih =>
    have hone : ∀ d, ownersOf (if (ownersOf index d').erase id = ∅ then index.erase d'
        else index.assign d' ((ownersOf index d').erase id)) d
          = if d = d' then (ownersOf index d).erase id else ownersOf index d := by
      intro d
      split_ifs with hempty hd hd
      · rw [hd, hempty, ownersOf, find?_erase, if_pos rfl]
        rfl
      · rw [ownersOf, find?_erase, if_neg hd]
        rfl
      · rw [hd, ownersOf_assign, if_pos rfl]
      · rw [ownersOf_assign, if_neg hd]
    rw [discardAll, foldl_cons, ← discardAll, ih, hone]
    by_cases hd : d = d'
    · subst hd
      simp
    · simp [hd]

end

/-- **The invariant of the planner**: the cached digests are those of the prompts, every owner has
its digests cached, and the index is their inverse. -/
structure PlannerOk (e : Setup σ δ) (s : Planner δ) : Prop where
  cached : ∀ id ds, s.fingerprints.find? id = some ds → ds = e.fingerprints id
  owned : ∀ id ∈ s.owners, id ∈ s.fingerprints
  index : ∀ d id, id ∈ ownersOf s.ownersByDigest d ↔ id ∈ s.owners ∧ d ∈ e.fingerprints id
  nonempty : ∀ d ids, s.ownersByDigest.find? d = some ids → ids.Nonempty

variable {e : Setup σ δ} {s : Planner δ}

lemma plannerOk_new (e : Setup σ δ) : PlannerOk e (Planner.new δ) where
  cached id ds h := by
    rw [Planner.new, find?_empty] at h
    cases h
  owned id h := absurd h (not_mem_empty id)
  index d id := by
    refine iff_of_false (fun h => ?_) fun h => absurd h.1 (not_mem_empty id)
    rw [ownersOf, Planner.new, find?_empty] at h
    exact absurd h (Finset.notMem_empty id)
  nonempty d ids h := by
    rw [Planner.new, find?_empty] at h
    cases h

lemma nonempty_addAll (id : ℕ) (ds : List δ) {index : UMap δ (Finset ℕ)}
    (h : ∀ d ids, index.find? d = some ids → ids.Nonempty) :
    ∀ d ids, (addAll id ds index).find? d = some ids → ids.Nonempty := by
  induction ds generalizing index with
  | nil => exact h
  | cons d' ds ih =>
    refine ih fun d ids hd => ?_
    rw [find?_assign] at hd
    split_ifs at hd with heq
    · exact some.inj hd ▸ Finset.insert_nonempty _ _
    · exact h d ids hd

lemma nonempty_discardAll (id : ℕ) (ds : List δ) {index : UMap δ (Finset ℕ)}
    (h : ∀ d ids, index.find? d = some ids → ids.Nonempty) :
    ∀ d ids, (discardAll id ds index).find? d = some ids → ids.Nonempty := by
  induction ds generalizing index with
  | nil => exact h
  | cons d' ds ih =>
    refine ih fun d ids hd => ?_
    dsimp only at hd
    split_ifs at hd with hempty
    · rw [find?_erase] at hd
      split_ifs at hd with heq
      exact h d ids hd
    · rw [find?_assign] at hd
      split_ifs at hd with heq
      · exact some.inj hd ▸ Finset.nonempty_iff_ne_empty.mpr hempty
      · exact h d ids hd

lemma PlannerOk.addOwner (h : PlannerOk e s) (id : ℕ) : PlannerOk e (s.addOwner id) := by
  rw [Planner.addOwner]
  cases hfind : s.fingerprints.find? id with
  | none => exact h
  | some ds =>
    split_ifs with howner
    · exact h
    · obtain rfl := h.cached id ds hfind
      refine ⟨h.cached, fun id' hid' => ?_, fun d id' => ?_, nonempty_addAll id _ h.nonempty⟩
      · rcases USet.mem_insert.mp hid' with rfl | hid'
        · exact mem_of_find? hfind
        · exact h.owned id' hid'
      · rw [ownersOf_addAll, USet.mem_insert]
        by_cases hid : id' = id
        · subst hid
          split_ifs with hd
          · simp [hd]
          · rw [h.index d id']
            simp [hd]
        · split_ifs with hd
          · rw [Finset.mem_insert, h.index d id']
            simp [hid]
          · rw [h.index d id']
            simp [hid]

lemma PlannerOk.dropOwner (h : PlannerOk e s) {id : ℕ} (hid : id ∈ s.owners) :
    PlannerOk e (s.dropOwner id) := by
  obtain ⟨ds, hfind⟩ := mem_iff_find?.mp (h.owned id hid)
  obtain rfl := h.cached id ds hfind
  refine ⟨fun id' ds hds => ?_, fun id' hid' => ?_, fun d id' => ?_,
    nonempty_discardAll id _ h.nonempty⟩
  · rw [Planner.dropOwner, find?_erase] at hds
    split_ifs at hds
    exact h.cached id' ds hds
  · obtain ⟨hne, hid'⟩ := mem_erase.mp hid'
    exact mem_erase.mpr ⟨hne, h.owned id' hid'⟩
  · rw [Planner.dropOwner, hfind, getD_some, ownersOf_discardAll, mem_erase]
    by_cases heq : id' = id
    · subst heq
      split_ifs with hd
      · simp
      · rw [h.index d id']
        simp [hd]
    · split_ifs with hd
      · rw [Finset.mem_erase, h.index d id']
        simp [heq]
      · rw [h.index d id']
        simp [heq]

lemma dropOwners_ok (ids : List ℕ) (hnodup : ids.Nodup) (h : PlannerOk e s)
    (hids : ∀ id ∈ ids, id ∈ s.owners) :
    PlannerOk e (ids.foldl Planner.dropOwner s)
    ∧ (∀ id, id ∈ (ids.foldl Planner.dropOwner s).owners ↔ id ∈ s.owners ∧ id ∉ ids)
    ∧ (ids.foldl Planner.dropOwner s).waitPasses = s.waitPasses := by
  induction ids generalizing s with
  | nil => exact ⟨h, fun id => by simp, rfl⟩
  | cons id ids ih =>
    rw [nodup_cons] at hnodup
    rw [foldl_cons]
    have hrest : ∀ id' ∈ ids, id' ∈ (s.dropOwner id).owners := fun id' hid' =>
      mem_erase.mpr ⟨fun heq => hnodup.1 (heq ▸ hid'), hids id' (mem_cons_of_mem id hid')⟩
    obtain ⟨hok, howners, hpasses⟩ := ih hnodup.2 (h.dropOwner (hids id mem_cons_self)) hrest
    refine ⟨hok, fun id' => ?_, hpasses⟩
    rw [howners id', Planner.dropOwner, mem_erase, mem_cons, not_or]
    tauto

/-- **After the finished owners are dropped, every owner still prefills.** -/
lemma PlannerOk.dropFinishedOwners (h : PlannerOk e s) (p : Pass) :
    PlannerOk e (s.dropFinishedOwners p)
    ∧ (∀ id, id ∈ (s.dropFinishedOwners p).owners ↔ id ∈ s.owners ∧ ¬ Finished p id)
    ∧ (s.dropFinishedOwners p).waitPasses = s.waitPasses := by
  obtain ⟨hok, howners, hpasses⟩ := dropOwners_ok
    (s.owners.keys.filter fun id => Finished p id) (s.owners.keys_nodup.filter _) h
    fun id hid => (mem_filter.mp hid).1
  refine ⟨hok, fun id => ?_, hpasses⟩
  rw [Planner.dropFinishedOwners, howners id, mem_filter, decide_eq_true_eq]
  constructor
  · rintro ⟨hid, hnot⟩
    exact ⟨hid, fun hfin => hnot ⟨hid, hfin⟩⟩
  · rintro ⟨hid, hfin⟩
    exact ⟨hid, fun hmem => hfin hmem.2⟩

end Planner

end TrtLlm.PrefixWait
