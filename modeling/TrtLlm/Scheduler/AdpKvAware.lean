import TrtLlm.Util.UMap
import TrtLlm.Scheduler.AdpRouter

/-!
`KVCacheAwareADPRouter.route_requests`: requests go to the rank with the best score among those
below a soft cap.

The loop ends without a word when no rank is below the soft cap. So a request is lost exactly if
the requests that have no rank of their own exceed the room below the soft cap (`kvRoute_kept_iff`),
which cannot happen for a multiplier of one or more and does happen for every smaller one.
-/

namespace TrtLlm.Scheduler

open List Function Option

variable {n : ℕ}

/-- `random.Random(seed).shuffle`: a permutation that the seed fixes. -/
structure SeededShuffle (n : ℕ) where
  shuffle : ℕ → List (Fin (n + 1)) → List (Fin (n + 1))
  perm : ∀ seed ranks, (shuffle seed ranks).Perm ranks

/-- The fields of `KVCacheAwareADPRouter` that routing reads. -/
structure KvAwareRouter (n : ℕ) where
  loadBalanceWeight : ℚ
  matchRateThreshold : ℚ
  fairShareMultiplier : ℚ
  /-- The matched prefix of each request, for each rank. -/
  allRanksPrefixMatches : List (UMap ℕ ℕ)
  pendingWarmupRanks : Finset (Fin (n + 1))

namespace KvAwareRouter

/-- `_match_len`. -/
def matchLen (router : KvAwareRouter n) (rank : Fin (n + 1)) (reqId : ℕ) : ℕ :=
  ((router.allRanksPrefixMatches[rank.val]?).bind fun m => m.find? reqId).getD 0

/-- `_score_rank`; a zero denominator raises. -/
def scoreRank (router : KvAwareRouter n) (reqTokens matchLen rankActiveTokens loadDenom : ℕ) :
    Option ℚ :=
  if loadDenom = 0 then none
  else some ((reqTokens : ℚ) - matchLen
    + router.loadBalanceWeight * ((rankActiveTokens : ℚ) / loadDenom * reqTokens))

/-- The state of the first pass: the ranks that are not warmed up, and the active tokens. -/
structure PassState (n : ℕ) where
  pendingWarmupRanks : Finset (Fin (n + 1))
  activeTokens : Fin (n + 1) → ℕ

/-- The rank of the request, or the smallest rank that is not warmed up. -/
def passTarget (s : PassState n) (item : RequestQueueItem n) : Option (Fin (n + 1)) :=
  match item.attentionDpRank with
  | some rank => some rank
  | none => (finRange (n + 1)).find? fun r => r ∈ s.pendingWarmupRanks

/-- The request landed on a rank. -/
def passNote (router : KvAwareRouter n) (s : PassState n) (item : RequestQueueItem n)
    (rank : Fin (n + 1)) : PassState n :=
  ⟨s.pendingWarmupRanks.erase rank, update s.activeTokens rank
    (s.activeTokens rank + (item.numInputTokens - router.matchLen rank item.id))⟩

/-- `_sort_key` compares the first 64 tokens, and then the longer request comes first. -/
def sortKeyLe (a b : RequestQueueItem n) : Prop :=
  a.inputTokenIds.take 64 < b.inputTokenIds.take 64
    ∨ a.inputTokenIds.take 64 = b.inputTokenIds.take 64
      ∧ b.inputTokenIds.length ≤ a.inputTokenIds.length

instance : DecidableRel (sortKeyLe (n := n)) := fun _ _ =>
  inferInstanceAs (Decidable (_ ∨ _ ∧ _))

section

variable (router : KvAwareRouter n)

/-- One rank of the loop over `iter_ranks`, with the best rank so far and its score, which is
infinite at first. -/
def considerRank (activeTokens : Fin (n + 1) → ℕ)
    (reqTokens loadDenom : ℕ) (matchLen : Fin (n + 1) → ℕ)
    (best : Fin (n + 1) × Option ℚ) (rank : Fin (n + 1)) : Option (Fin (n + 1) × Option ℚ) :=
  (router.scoreRank reqTokens (matchLen rank) (activeTokens rank) loadDenom).map fun score =>
    let better := match best.2 with
      | none => true
      | some bestScore =>
        score < bestScore ∨ score = bestScore ∧ activeTokens rank < activeTokens best.1
    if better then (rank, some score) else best

/-- The cache-affinity gate: the matched prefixes count only if the longest of them is a large
enough part of the request. -/
def gatedMatchLen (eligible : List (Fin (n + 1)))
    (item : RequestQueueItem n) (rank : Fin (n + 1)) : ℕ :=
  let maxMatch := (eligible.map fun r => router.matchLen r item.id).foldr max 0
  if router.matchRateThreshold < (maxMatch : ℚ) / max item.numInputTokens 1 then
    router.matchLen rank item.id
  else 0

/-- The rank for a request among the eligible ones. -/
def bestRank (shuffled : List (Fin (n + 1)))
    (activeTokens : Fin (n + 1) → ℕ) (eligible : List (Fin (n + 1)))
    (item : RequestQueueItem n) : Option (Fin (n + 1)) :=
  let loadDenom := max (eligible.map activeTokens).sum item.numInputTokens
  match shuffled with
  | [] => none
  | first :: _ =>
    (shuffled.foldlM (router.considerRank activeTokens item.numInputTokens loadDenom
      (router.gatedMatchLen eligible item)) (first, none)).map Prod.fst

end

/-- The placement loop, which ends when no rank is eligible; `none` if it raises. -/
def placeByScore (router : KvAwareRouter n) (shuffle : SeededShuffle n) (expected : ℕ) :
    List (RequestQueueItem n) → Bins (Fin (n + 1)) (RequestQueueItem n) →
      (Fin (n + 1) → ℕ) → List (Fin (n + 1)) →
      Option (Bins (Fin (n + 1)) (RequestQueueItem n))
  | [], bins, _, _ => some bins
  | item :: items, bins, activeTokens, eligible =>
    if eligible = [] then some bins
    else
      (router.bestRank (shuffle.shuffle item.id eligible) activeTokens eligible item).bind
        fun best =>
          placeByScore router shuffle expected items (bins.put best item)
            (update activeTokens best
              (activeTokens best + (item.numInputTokens - router.matchLen best item.id)))
            (if expected ≤ bins.load best + 1 then eligible.erase best else eligible)

section

variable (router : KvAwareRouter n) (states : Fin (n + 1) → RankState)
  (newRequests : List (RequestQueueItem n)) (maxNumActiveRequests : ℕ)

/-- The first pass: the requests with a rank of their own, and those that warm a rank up. -/
def firstPass :
    (PassState n × Bins (Fin (n + 1)) (RequestQueueItem n)) × List (RequestQueueItem n) :=
  placePass maxNumActiveRequests passTarget router.passNote (sortByRelax relaxValue newRequests)
    ⟨router.pendingWarmupRanks, fun r => (states r).numActiveTokens⟩
    (Bins.ofLoads (activeRequests states))

/-- The soft cap for the requests that the first pass leaves. -/
def softCap : ℕ :=
  let pass := router.firstPass states newRequests maxNumActiveRequests
  expectedNumActiveRequests pass.1.2.load pass.2.length router.fairShareMultiplier
    maxNumActiveRequests

end

/-- `route_requests`: the requests of each rank, the target, and the router after it. -/
def route (router : KvAwareRouter n) (shuffle : SeededShuffle n)
    (states : Fin (n + 1) → RankState) (newRequests : List (RequestQueueItem n))
    (maxNumActiveRequests : ℕ) :
    Option (((Fin (n + 1) → List (RequestQueueItem n)) × ℕ) × KvAwareRouter n) :=
  let pass := router.firstPass states newRequests maxNumActiveRequests
  let expected := router.softCap states newRequests maxNumActiveRequests
  let eligible := (finRange (n + 1)).filter fun r => pass.1.2.load r < expected
  (router.placeByScore shuffle expected (pass.2.insertionSort sortKeyLe) pass.1.2
    pass.1.1.activeTokens eligible).map fun bins =>
      ((bins.items, expected), { router with pendingWarmupRanks := pass.1.1.pendingWarmupRanks })

/-! ### The best rank -/

variable {eligible : List (Fin (n + 1))}

section

variable (router : KvAwareRouter n) (activeTokens : Fin (n + 1) → ℕ)

section

variable (reqTokens : ℕ) (matchLen : Fin (n + 1) → ℕ)

/-- With a positive denominator no score raises, and the best rank is an old or the new one. -/
lemma considerRank_eq {loadDenom : ℕ} (hdenom : loadDenom ≠ 0)
    (best : Fin (n + 1) × Option ℚ) (rank : Fin (n + 1)) :
    ∃ best', router.considerRank activeTokens reqTokens loadDenom matchLen best rank = some best'
      ∧ (best'.1 = best.1 ∨ best'.1 = rank) := by
  rw [considerRank, scoreRank, if_neg hdenom, map_some]
  refine ⟨_, rfl, ?_⟩
  dsimp only
  split_ifs
  · exact .inr rfl
  · exact .inl rfl

lemma foldlM_considerRank {loadDenom : ℕ} (hdenom : loadDenom ≠ 0)
    (ranks : List (Fin (n + 1))) (best : Fin (n + 1) × Option ℚ) :
    ∃ best', ranks.foldlM (router.considerRank activeTokens reqTokens loadDenom matchLen) best
        = some best' ∧ (best'.1 = best.1 ∨ best'.1 ∈ ranks) := by
  induction ranks generalizing best with
  | nil => exact ⟨best, rfl, .inl rfl⟩
  | cons rank ranks ih =>
    obtain ⟨next, hnext, hcase⟩ :=
      router.considerRank_eq activeTokens reqTokens matchLen hdenom best rank
    obtain ⟨best', hbest, hmem⟩ := ih next
    refine ⟨best', ?_, ?_⟩
    · rw [foldlM_cons, hnext]
      exact hbest
    · obtain hmem | hmem := hmem
      · obtain hcase | hcase := hcase
        · exact .inl (hmem.trans hcase)
        · exact .inr (mem_cons.mpr (.inl (hmem.trans hcase)))
      · exact .inr (mem_cons_of_mem _ hmem)

end

/-- A request has tokens, so that its best rank exists and is one of the eligible ranks. -/
lemma bestRank_mem {shuffled : List (Fin (n + 1))} (item : RequestQueueItem n) (hne : eligible ≠ [])
    (hperm : shuffled.Perm eligible) :
    ∃ best ∈ eligible, router.bestRank shuffled activeTokens eligible item = some best := by
  have hdenom : max (eligible.map activeTokens).sum item.numInputTokens ≠ 0 := by
    have := item.numInputTokens_pos
    omega
  cases shuffled with
  | nil => exact absurd hperm.nil_eq.symm hne
  | cons first rest =>
    obtain ⟨best, hbest, hmem⟩ := router.foldlM_considerRank activeTokens item.numInputTokens
      (router.gatedMatchLen eligible item) hdenom (first :: rest) (first, none)
    refine ⟨best.1, ?_, congrArg (Option.map Prod.fst) hbest⟩
    refine hperm.mem_iff.mp ?_
    obtain hmem | hmem := hmem
    · exact hmem ▸ mem_cons_self
    · exact hmem

end

/-! ### The placement loop -/

/-- The eligible ranks are those below the soft cap. -/
def Eligible (expected : ℕ) (load : Fin (n + 1) → ℕ) (eligible : List (Fin (n + 1))) : Prop :=
  eligible.Nodup ∧ ∀ r, r ∈ eligible ↔ load r < expected

/-- A rank leaves when it reaches the soft cap. -/
lemma Eligible.put {expected : ℕ} {bins : Bins (Fin (n + 1)) (RequestQueueItem n)}
    (h : Eligible expected bins.load eligible)
    {best : Fin (n + 1)} (hbest : best ∈ eligible) (item : RequestQueueItem n) :
    Eligible expected (bins.put best item).load
      (if expected ≤ bins.load best + 1 then eligible.erase best else eligible) := by
  obtain ⟨hnodup, hmem⟩ := h
  have hlt := (hmem best).mp hbest
  split_ifs with hfull
  · refine ⟨hnodup.erase best, fun r => ?_⟩
    rw [hnodup.mem_erase_iff, hmem, Bins.put_load]
    split_ifs with he
    · subst he
      omega
    · simp [he]
  · refine ⟨hnodup, fun r => ?_⟩
    rw [hmem, Bins.put_load]
    split_ifs with he
    · subst he
      omega
    · exact Iff.rfl

/-- The loop places the requests while there is room below the soft cap. -/
lemma placeByScore_spec (router : KvAwareRouter n) (shuffle : SeededShuffle n) {expected : ℕ}
    (start : Fin (n + 1) → ℕ) (items : List (RequestQueueItem n))
    (bins : Bins (Fin (n + 1)) (RequestQueueItem n)) (activeTokens : Fin (n + 1) → ℕ)
    (heligible : Eligible expected bins.load eligible) :
    ∃ bins', router.placeByScore shuffle expected items bins activeTokens eligible = some bins'
      ∧ Placed expected start (items.take (Bins.room expected bins.load)) bins bins' [] := by
  induction items generalizing bins activeTokens eligible with
  | nil => exact ⟨bins, by rw [placeByScore], by rw [take_nil]; exact .nil⟩
  | cons item items ih =>
    rw [placeByScore]
    split_ifs with hempty
    · -- no rank is below the soft cap
      have hzero : Bins.room expected bins.load = 0 := by
        by_contra hne
        obtain ⟨r, hr⟩ := Bins.room_pos_iff.mp (Nat.pos_of_ne_zero hne)
        have := (heligible.2 r).mpr hr
        simp [hempty] at this
      refine ⟨bins, rfl, ?_⟩
      rw [hzero, take_zero]
      exact .nil
    · obtain ⟨best, hbest, hrank⟩ := router.bestRank_mem activeTokens item hempty
        (shuffle.perm item.id eligible)
      have hlt := (heligible.2 best).mp hbest
      obtain ⟨bins', hloop, hplaced⟩ := ih (bins.put best item)
        (update activeTokens best
          (activeTokens best + (item.numInputTokens - router.matchLen best item.id)))
        (heligible.put hbest item)
      have hroom := Bins.room_put item hlt
      refine ⟨bins', ?_, ?_⟩
      · rw [hrank, bind_some]
        exact hloop
      · rw [← hroom, take_succ_cons]
        exact hplaced.cons_put hlt

/-! ### The router -/

variable (router : KvAwareRouter n) (shuffle : SeededShuffle n) (states : Fin (n + 1) → RankState)
  (items : List (RequestQueueItem n)) (cap : ℕ)

/-- Every new request is in the list of exactly one rank. -/
def Kept : Prop :=
  ∃ assigned expected router', router.route shuffle states items cap
      = some ((assigned, expected), router') ∧ Bins.total assigned = items

lemma firstPass_placed :
    Placed cap (activeRequests states) items (Bins.ofLoads (activeRequests states))
      (router.firstPass states items cap).1.2 (router.firstPass states items cap).2 :=
  (placePass_placed (activeRequests states) (sortByRelax relaxValue items) _ _).perm
    (sortByRelax_perm relaxValue items)

/-- The router returns, and what it places is the first pass and as many of the other requests as
there is room for. -/
lemma route_eq : ∃ bins router', router.route shuffle states items cap
        = some ((bins.items, router.softCap states items cap), router')
      ∧ Placed (router.softCap states items cap) (activeRequests states)
          (((router.firstPass states items cap).2.insertionSort sortKeyLe).take
            (Bins.room (router.softCap states items cap)
              (router.firstPass states items cap).1.2.load))
          (router.firstPass states items cap).1.2 bins [] := by
  have heligible : Eligible (router.softCap states items cap)
      (router.firstPass states items cap).1.2.load
      ((finRange (n + 1)).filter fun r =>
        (router.firstPass states items cap).1.2.load r < router.softCap states items cap) :=
    ⟨(nodup_finRange _).filter _, fun r => by simp⟩
  obtain ⟨bins, hloop, hplaced⟩ := router.placeByScore_spec shuffle (activeRequests states)
    ((router.firstPass states items cap).2.insertionSort sortKeyLe)
    (router.firstPass states items cap).1.2 (router.firstPass states items cap).1.1.activeTokens
    heligible
  refine ⟨bins, { router with
    pendingWarmupRanks := (router.firstPass states items cap).1.1.pendingWarmupRanks }, ?_,
    hplaced⟩
  rw [route]
  rw [hloop]
  rfl

/-- A request is lost exactly if the requests that the first pass leaves do not fit below the soft
cap. -/
lemma kept_iff : router.Kept shuffle states items cap
      ↔ (router.firstPass states items cap).2.length
        ≤ Bins.room (router.softCap states items cap)
          (router.firstPass states items cap).1.2.load := by
  obtain ⟨bins, router', hroute, hplaced⟩ := router.route_eq shuffle states items cap
  have hfirst := (router.firstPass_placed states items cap).total
  have htotal := hplaced.total
  rw [Multiset.coe_nil, add_zero] at htotal
  have hzero : Bins.total (Bins.ofLoads (activeRequests states) :
      Bins (Fin (n + 1)) (RequestQueueItem n)).items = 0 := Bins.total_nil
  rw [hzero, zero_add] at hfirst
  have hperm := perm_insertionSort sortKeyLe (router.firstPass states items cap).2
  constructor
  · rintro ⟨assigned, expected, router'', hroute', hkept⟩
    rw [hroute, some.injEq, Prod.mk.injEq, Prod.mk.injEq] at hroute'
    obtain ⟨⟨rfl, rfl⟩, rfl⟩ := hroute'
    have hcard := congrArg Multiset.card (htotal.symm.trans (hkept.trans hfirst.symm))
    simp only [Multiset.card_add, Multiset.coe_card, length_take, hperm.length_eq] at hcard
    omega
  · intro hfits
    refine ⟨bins.items, _, router', hroute, ?_⟩
    rw [htotal, take_of_length_le (by rw [hperm.length_eq]; exact hfits),
      Multiset.coe_eq_coe.mpr hperm, hfirst]

variable (hload : ∀ r, activeRequests states r ≤ cap)
  (hfits : items.length ≤ Bins.room cap (activeRequests states))
include hload hfits

/-- With a multiplier of one or more, the requests that fit the ranks fit below the soft cap. -/
lemma rest_fits (hm : 1 ≤ router.fairShareMultiplier) : (router.firstPass states items cap).2.length
      ≤ Bins.room (router.softCap states items cap)
        (router.firstPass states items cap).1.2.load := by
  have hplaced := router.firstPass_placed states items cap
  exact room_expected (hplaced.load_le hload) (hplaced.rest_le hfits) hm

/-- **The KV-aware router** with a multiplier of one or more places every request that fits, and
the strict ones on their rank. -/
theorem route_spec (hstrict : ∀ r, activeRequests states r + strictCount items r ≤ cap)
    (hm : 1 ≤ router.fairShareMultiplier) :
    ∃ assigned expected router', router.route shuffle states items cap
        = some ((assigned, expected), router')
      ∧ Routed states cap items assigned expected
      ∧ ∀ item ∈ items, ∀ r, item.StrictTo r → item ∈ assigned r := by
  obtain ⟨bins, router', hroute, hplaced⟩ := router.route_eq shuffle states items cap
  have hfirst := router.firstPass_placed states items cap
  have hperm := perm_insertionSort sortKeyLe (router.firstPass states items cap).2
  have hrest := router.rest_fits states items cap hload hfits hm
  rw [take_of_length_le (by rw [hperm.length_eq]; exact hrest)] at hplaced
  refine ⟨bins.items, _, router', hroute, hfirst.routed (hplaced.perm hperm)
    (load_le_expected _ _ (hfirst.load_le hload)) (expected_le_cap ..),
    fun item hitem r hr => hplaced.keeps r item ?_⟩
  have hsort := sortByRelax_perm relaxValue items
  refine placePass_strict (fun s x rank h => ?_) _ (Bins.ofLoads (activeRequests states))
    (sortByRelax_sorted items) (fun r => ?_) (hsort.mem_iff.mpr hitem) hr
  · rw [passTarget, h.rank_eq]
  · rw [strictCount_perm hsort]
    exact hstrict r

end KvAwareRouter

/-- A router without warm-up and prefix matches. -/
def coldRouter (n : ℕ) (multiplier : ℚ) : KvAwareRouter n := ⟨1, 0, multiplier, [], ∅⟩

/-- One rank that is idle, and as many requests as it has slots: the soft cap is below their
number if the multiplier is small enough. -/
lemma coldRouter_not_kept (shuffle : SeededShuffle 0) {multiplier : ℚ} {m : ℕ}
    (hm : multiplier * m ≤ m - 1) (hpos : 0 < m) :
    ¬(coldRouter 0 multiplier).Kept shuffle (fun _ => ⟨0, 0⟩)
      (replicate m (plainItem 0 0 0)) m := by
  set items := replicate m (plainItem 0 0 0) with hitems
  have hpass : (coldRouter 0 multiplier).firstPass (fun _ => ⟨0, 0⟩) items m
      = ((⟨∅, fun _ => 0⟩, Bins.ofLoads fun _ => 0), sortByRelax relaxValue items) := by
    refine placePass_of_no_target (fun item hitem => ?_) _
    rw [(sortByRelax_perm relaxValue items).mem_iff, hitems] at hitem
    rw [eq_of_mem_replicate hitem]
    simp [KvAwareRouter.passTarget, RequestQueueItem.attentionDpRank, plainItem, coldRouter]
  have hlen : (sortByRelax relaxValue items).length = m := by
    rw [(sortByRelax_perm relaxValue items).length_eq, hitems, length_replicate]
  have hsoft : (coldRouter 0 multiplier).softCap (fun _ => ⟨0, 0⟩) items m < m := by
    have hshare : fairShare (fun _ : Fin (0 + 1) => 0) m = m := by simp [fairShare]
    have hceil : ⌈multiplier * m⌉ ≤ (m : ℤ) - 1 := by
      rw [Int.ceil_le]
      push_cast
      exact hm
    rw [KvAwareRouter.softCap, hpass]
    simp only [expectedNumActiveRequests, Bins.ofLoads, hlen, hshare]
    have hmax : maxLoad (fun _ : Fin (0 + 1) => 0) = 0 := by simp [maxLoad]
    have hmult : (coldRouter 0 multiplier).fairShareMultiplier = multiplier := rfl
    rw [hmax, hmult]
    omega
  rw [KvAwareRouter.kept_iff, hpass]
  have hroom : Bins.room ((coldRouter 0 multiplier).softCap (fun _ => ⟨0, 0⟩) items m)
      (Bins.ofLoads (fun _ => 0) : Bins (Fin (0 + 1)) (RequestQueueItem 0)).load
      = (coldRouter 0 multiplier).softCap (fun _ => ⟨0, 0⟩) items m := by
    simp [Bins.room, Bins.ofLoads]
  rw [hroom]
  dsimp only
  omega

/-- **The requests that are lost.** For every input, the router returns every new request on one
rank if and only if the requests that are left after the first pass fit below the soft cap; and
for a multiplier it does so for all ranks, requests that fit them, tables and weights if and only
if the multiplier is at least one. -/
theorem kvRoute_kept_iff (multiplier : ℚ) :
    (∀ (n : ℕ) (router : KvAwareRouter n) (shuffle : SeededShuffle n)
      (states : Fin (n + 1) → RankState) (items : List (RequestQueueItem n)) (cap : ℕ),
      router.Kept shuffle states items cap
        ↔ (router.firstPass states items cap).2.length
          ≤ Bins.room (router.softCap states items cap)
            (router.firstPass states items cap).1.2.load)
    ∧ ((∀ (n : ℕ) (router : KvAwareRouter n) (shuffle : SeededShuffle n)
        (states : Fin (n + 1) → RankState) (items : List (RequestQueueItem n)) (cap : ℕ),
        router.fairShareMultiplier = multiplier → (∀ r, activeRequests states r ≤ cap) →
        items.length ≤ Bins.room cap (activeRequests states) →
        router.Kept shuffle states items cap)
      ↔ 1 ≤ multiplier) := by
  refine ⟨fun n router shuffle states items cap => router.kept_iff shuffle states items cap,
    ⟨fun h => ?_, fun hm n router shuffle states items cap hr hload hfits => ?_⟩⟩
  · by_contra hlt
    rw [not_le] at hlt
    have hgap : 0 < 1 - multiplier := by linarith
    obtain ⟨m, hlarge⟩ := exists_nat_ge (1 / (1 - multiplier))
    have hone : 1 ≤ (1 - multiplier) * m := by
      rw [div_le_iff₀ hgap] at hlarge
      linarith
    have hpos : 0 < m := by
      rcases Nat.eq_zero_or_pos m with rfl | hpos
      · simp at hone
        linarith
      · exact hpos
    refine coldRouter_not_kept ⟨fun _ ranks => ranks, fun _ ranks => .refl ranks⟩
      (show multiplier * m ≤ m - 1 by linarith) hpos (h 0 _ _ _ _ m rfl (fun r => ?_) ?_)
    · exact Nat.zero_le m
    · simp [Bins.room, activeRequests]
  · exact (router.kept_iff shuffle states items cap).mpr
      (router.rest_fits states items cap hload hfits (hr ▸ hm))

/-- With a multiplier of one half, one of two requests for an idle rank with two slots is lost. -/
theorem kvRoute_half_loses :
    ¬(coldRouter 0 (1 / 2)).Kept ⟨fun _ ranks => ranks, fun _ ranks => .refl ranks⟩
      (fun _ => ⟨0, 0⟩) (replicate 2 (plainItem 0 0 0)) 2 :=
  coldRouter_not_kept _ (by norm_num) Nat.two_pos

end TrtLlm.Scheduler
