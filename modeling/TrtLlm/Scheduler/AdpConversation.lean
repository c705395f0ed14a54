import TrtLlm.Util.PyDict
import TrtLlm.Scheduler.AdpRouter

/-!
`ConversationAwareADPRouter.route_requests`: a conversation that is bound to a rank returns to it
while the rank has a free slot, and the other requests are spread below a soft cap.

* `route_spec`: every request is placed within the caps. A sticky return may use up room below
  the soft cap that a later request counts on, but never more than one place for one request;
* `route_sticky`: a request whose conversation is bound when its turn comes lands on that rank
  unless the rank is full;
* `route_home`: as long as the session limit drops no binding, this is the binding from before
  the call.
-/

namespace TrtLlm.Scheduler

open List Option

variable {n : ℕ}

/-- The strategies for requests without a bound conversation. -/
inductive NewConvPlacement
  | roundRobin
  | leastQueued
  | leastTokens
  deriving DecidableEq

/-- The fields of `ConversationAwareADPRouter` that routing reads. -/
structure ConversationRouter (n : ℕ) where
  /-- `_conv_to_rank`, the least recently used conversation first. -/
  convToRank : UMap String (Fin (n + 1))
  maxSessions : ℕ
  fairShareMultiplier : ℚ
  one_le_multiplier : 1 ≤ fairShareMultiplier
  newConvPlacement : NewConvPlacement
  roundRobinCursor : ℕ

/-- `_conversation_id`: the affinity id of a sub-agent comes first, unless it is empty. -/
def RequestQueueItem.conversationKey (item : RequestQueueItem n) : Option String :=
  match item.schedulingParams.bind SchedulingParams.subagentAffinityId with
  | some affinityId => if affinityId = "" then item.conversationId else some affinityId
  | none => item.conversationId

namespace ConversationRouter

/-- `__init__`. -/
def init (n : ℕ) (maxSessions : ℤ) (fairShareMultiplier : ℚ) (newConvPlacement : String) :
    ConversationRouter n where
  convToRank := ∅
  maxSessions := (max 1 maxSessions).toNat
  fairShareMultiplier := max 1 fairShareMultiplier
  one_le_multiplier := le_max_left _ _
  newConvPlacement :=
    if newConvPlacement = "least_queued" then .leastQueued
    else if newConvPlacement = "least_tokens" then .leastTokens
    else .roundRobin
  roundRobinCursor := 0

section

variable (router : ConversationRouter n)

/-- `_record_target_rank`. -/
def recordTargetRank (convId : String) (rank : Fin (n + 1)) :
    ConversationRouter n :=
  { router with convToRank := router.convToRank.touch router.maxSessions convId rank }

/-- The rank that the conversation of a request is bound to. -/
def boundRank (item : RequestQueueItem n) :
    Option (Fin (n + 1)) :=
  item.conversationKey.bind router.convToRank.find?

/-- A conversation that has an id is recorded. -/
def recordItem (item : RequestQueueItem n) (rank : Fin (n + 1)) :
    ConversationRouter n :=
  match item.conversationKey with
  | some convId => router.recordTargetRank convId rank
  | none => router

end

/-- `get_relax_value` of this router. -/
def relax (item : RequestQueueItem n) : Bool :=
  match item.schedulingParams with
  | none => true
  | some params => params.attentionDpRelax

/-- The explicit rank of a request counts for a conversation that is not bound. -/
def explicitTarget (router : ConversationRouter n) (item : RequestQueueItem n) :
    Option (Fin (n + 1)) :=
  match router.boundRank item with
  | some _ => none
  | none => item.attentionDpRank

/-- `_assign_new_conversation_explicit_dp_ranks` on the sorted requests. -/
def firstPass (router : ConversationRouter n) (states : Fin (n + 1) → RankState)
    (newRequests : List (RequestQueueItem n)) (cap : ℕ) :
    (ConversationRouter n × Bins (Fin (n + 1)) (RequestQueueItem n))
      × List (RequestQueueItem n) :=
  placePass cap explicitTarget recordItem (sortByRelax relax newRequests) router
    (Bins.ofLoads (activeRequests states))

/-- The ranks below the soft cap, or all ranks if there are none. -/
def candidateRanks (softCap : ℕ) (load : Fin (n + 1) → ℕ) : List (Fin (n + 1)) :=
  let cands := (finRange (n + 1)).filter fun r => load r < softCap
  if cands = [] then finRange (n + 1) else cands

/-- `_least_loaded`. -/
def leastLoaded (softCap : ℕ) (load : Fin (n + 1) → ℕ) : Option (Fin (n + 1)) :=
  (candidateRanks softCap load).argmin fun r => (toLex (load r, r) : ℕ ×ₗ Fin (n + 1))

local instance (priority := 2000) ranks_ne (n : ℕ) : NeZero (n + 1) := ⟨n.succ_ne_zero⟩

/-- The loop of `_next_rr`: the rank and the cursor after it. -/
def nextRr (softCap : ℕ) (load : Fin (n + 1) → ℕ) : ℕ → ℕ → Option (Fin (n + 1)) × ℕ
  | 0, cursor => (leastLoaded softCap load, cursor)
  | tries + 1, cursor =>
    if load (Fin.ofNat (n + 1) cursor) < softCap then
      (some (Fin.ofNat (n + 1) cursor), (cursor + 1) % (n + 1))
    else nextRr softCap load tries ((cursor + 1) % (n + 1))

/-- `_least_active_tokens`. -/
def leastActiveTokens (softCap : ℕ) (load tokenLoad : Fin (n + 1) → ℕ) (cursor : ℕ) :
    Option (Fin (n + 1)) × ℕ :=
  let rank := (candidateRanks softCap load).argmin fun r =>
    (toLex (tokenLoad r, toLex (load r, (((r.val : ℤ) - cursor) % (n + 1 : ℕ)).toNat)) :
      ℕ ×ₗ ℕ ×ₗ ℕ)
  (rank, match rank with
    | some r => (r.val + 1) % (n + 1)
    | none => cursor)

/-- The rank for a request whose conversation is not bound or whose rank is full. -/
def newConvRank (router : ConversationRouter n) (softCap : ℕ)
    (load tokenLoad : Fin (n + 1) → ℕ) : Option (Fin (n + 1)) × ℕ :=
  match router.newConvPlacement with
  | .leastTokens => leastActiveTokens softCap load tokenLoad router.roundRobinCursor
  | .leastQueued => (leastLoaded softCap load, router.roundRobinCursor)
  | .roundRobin => nextRr softCap load (n + 1) router.roundRobinCursor

/-- The state of the loop over the remaining requests. -/
structure LoopState (n : ℕ) where
  router : ConversationRouter n
  bins : Bins (Fin (n + 1)) (RequestQueueItem n)
  tokenLoad : Fin (n + 1) → ℕ

/-- The request is put on its rank. -/
def LoopState.place (s : LoopState n) (router : ConversationRouter n) (item : RequestQueueItem n)
    (rank : Fin (n + 1)) : LoopState n where
  router := router
  bins := s.bins.put rank item
  tokenLoad :=
    if router.newConvPlacement = .leastTokens then
      Function.update s.tokenLoad rank (s.tokenLoad rank + item.numInputTokens)
    else s.tokenLoad

/-- A request that does not return to the rank of its conversation. An overflowing conversation
keeps its binding. -/
def spread (expected : ℕ) (s : LoopState n) (item : RequestQueueItem n) : Option (LoopState n) :=
  let r := s.router.newConvRank expected s.bins.load s.tokenLoad
  r.1.map fun rank =>
    let moved := { s.router with roundRobinCursor := r.2 }
    s.place (if s.router.boundRank item = none then moved.recordItem item rank else moved) item rank

/-- One turn of the loop; `none` if it raises. -/
def turn (cap expected : ℕ) (s : LoopState n) (item : RequestQueueItem n) :
    Option (LoopState n) :=
  match s.router.boundRank item with
  | some target =>
    if s.bins.load target < cap then
      some (s.place (s.router.recordItem item target) item target)
    else spread expected s item
  | none => spread expected s item

section

variable (router : ConversationRouter n) (states : Fin (n + 1) → RankState)
  (newRequests : List (RequestQueueItem n)) (cap : ℕ)

/-- The target for the requests that the first pass leaves. -/
def softCap : ℕ :=
  let pass := router.firstPass states newRequests cap
  expectedNumActiveRequests pass.1.2.load pass.2.length router.fairShareMultiplier cap

/-- The state before the loop. -/
def loopStart : LoopState n :=
  let pass := router.firstPass states newRequests cap
  ⟨pass.1.1, pass.1.2, fun r => (states r).numActiveTokens
    + ((pass.1.2.items r).map RequestQueueItem.numInputTokens).sum⟩

end

/-- The loop. -/
def loop (cap expected : ℕ) (items : List (RequestQueueItem n)) (s : LoopState n) :
    Option (LoopState n) :=
  items.foldlM (turn cap expected) s

/-- `route_requests`: the requests of each rank, the target, and the router after it. -/
def route (router : ConversationRouter n) (states : Fin (n + 1) → RankState)
    (newRequests : List (RequestQueueItem n)) (cap : ℕ) :
    Option (((Fin (n + 1) → List (RequestQueueItem n)) × ℕ) × ConversationRouter n) :=
  (loop cap (router.softCap states newRequests cap) (router.firstPass states newRequests cap).2
    (router.loopStart states newRequests cap)).map fun s =>
      ((s.bins.items, max (router.softCap states newRequests cap) (maxLoad s.bins.load)), s.router)

/-! ### The rank of a request that is spread -/

variable {load : Fin (n + 1) → ℕ} {softCap : ℕ}

/-- If a rank is below the soft cap, the candidates are such ranks. -/
lemma candidateRanks_lt (hroom : ∃ r, load r < softCap) :
    candidateRanks softCap load ≠ [] ∧ ∀ r ∈ candidateRanks softCap load, load r < softCap := by
  obtain ⟨r, hr⟩ := hroom
  have hmem : r ∈ (finRange (n + 1)).filter fun r => load r < softCap := by simpa using hr
  have hne : ((finRange (n + 1)).filter fun r => load r < softCap) ≠ [] := ne_nil_of_mem hmem
  rw [candidateRanks, if_neg hne]
  exact ⟨hne, fun r' hr' => by simpa using (mem_filter.mp hr').2⟩

lemma argmin_candidateRanks {κ : Type*} [LinearOrder κ] (key : Fin (n + 1) → κ)
    (hroom : ∃ r, load r < softCap) :
    ∃ rank, (candidateRanks softCap load).argmin key = some rank ∧ load rank < softCap := by
  obtain ⟨hne, hlt⟩ := candidateRanks_lt hroom
  cases harg : (candidateRanks softCap load).argmin key with
  | none => exact absurd (argmin_eq_none.mp harg) hne
  | some rank => exact ⟨rank, rfl, hlt rank (argmin_mem harg)⟩

lemma nextRr_lt (hroom : ∃ r, load r < softCap) (tries cursor : ℕ) :
    ∃ rank, (nextRr softCap load tries cursor).1 = some rank ∧ load rank < softCap := by
  induction tries generalizing cursor with
  | zero => exact argmin_candidateRanks _ hroom
  | succ tries ih =>
    rw [nextRr]
    split_ifs with hlt
    · exact ⟨_, rfl, hlt⟩
    · exact ih _

lemma newConvRank_lt (router : ConversationRouter n) (tokenLoad : Fin (n + 1) → ℕ)
    (hroom : ∃ r, load r < softCap) :
    ∃ rank, (router.newConvRank softCap load tokenLoad).1 = some rank ∧ load rank < softCap := by
  rw [newConvRank]
  cases router.newConvPlacement with
  | leastTokens | leastQueued => exact argmin_candidateRanks _ hroom
  | roundRobin => exact nextRr_lt hroom _ _

/-- What a turn can do: the request returns to its rank, which has a free slot, or it is spread to
a rank below the soft cap because its conversation is not bound or its rank is full. -/
lemma turn_cases (cap : ℕ) {expected : ℕ} (s : LoopState n) (item : RequestQueueItem n)
    (hroom : ∃ r, s.bins.load r < expected) :
    ∃ rank router', turn cap expected s item = some (s.place router' item rank)
      ∧ ((s.router.boundRank item = some rank ∧ s.bins.load rank < cap
          ∧ router' = s.router.recordItem item rank)
        ∨ (s.bins.load rank < expected
          ∧ ((s.router.boundRank item = none
              ∧ ∃ cursor, router'
                = { s.router with roundRobinCursor := cursor }.recordItem item rank)
            ∨ ∃ target, s.router.boundRank item = some target ∧ cap ≤ s.bins.load target
              ∧ router'.convToRank = s.router.convToRank
              ∧ router'.maxSessions = s.router.maxSessions))) := by
  obtain ⟨rank, hrank, hlt⟩ := s.router.newConvRank_lt s.tokenLoad hroom
  have hspread : spread expected s item = some (s.place
      (if s.router.boundRank item = none then
        { s.router with
          roundRobinCursor :=
            (s.router.newConvRank expected s.bins.load s.tokenLoad).2 }.recordItem item rank
      else { s.router with
        roundRobinCursor :=
          (s.router.newConvRank expected s.bins.load s.tokenLoad).2 }) item rank) := by
    rw [spread]
    simp only [hrank, map_some]
  rw [turn]
  cases hbound : s.router.boundRank item with
  | none =>
    rw [hbound, if_pos rfl] at hspread
    exact ⟨rank, _, hspread, .inr ⟨hlt, .inl ⟨rfl, _, rfl⟩⟩⟩
  | some target =>
    dsimp only
    split_ifs with hfree
    · exact ⟨target, _, rfl, .inl ⟨rfl, hfree, rfl⟩⟩
    · rw [hbound, if_neg (some_ne_none target)] at hspread
      exact ⟨rank, _, hspread, .inr ⟨hlt, .inr ⟨target, rfl, not_lt.mp hfree, rfl, rfl⟩⟩⟩

/-! ### The loop -/

/-- The loop places every request below the hard cap, as long as the requests fit below the soft
cap: each placement takes at most one place there. -/
lemma loop_placed {cap expected : ℕ} (hexpected : expected ≤ cap) (start : Fin (n + 1) → ℕ)
    (items : List (RequestQueueItem n)) (s : LoopState n)
    (hroom : items.length ≤ Bins.room expected s.bins.load) :
    ∃ s', loop cap expected items s = some s' ∧ Placed cap start items s.bins s'.bins []
      ∧ Bins.room expected s.bins.load ≤ Bins.room expected s'.bins.load + items.length := by
  induction items generalizing s with
  | nil => exact ⟨s, rfl, .nil, le_rfl⟩
  | cons item items ih =>
    rw [length_cons] at hroom
    have hfree : ∃ r, s.bins.load r < expected := Bins.room_pos_iff.mp (by omega)
    obtain ⟨rank, router', hturn, hcase⟩ := turn_cases cap s item hfree
    have hlt : s.bins.load rank < cap := by
      obtain ⟨-, hlt, -⟩ | ⟨hlt, -⟩ := hcase
      · exact hlt
      · exact hlt.trans_le hexpected
    have hless := Bins.room_le_put expected s.bins rank item
    obtain ⟨s', hloop, hplaced, hleft⟩ := ih (s.place router' item rank)
      (show items.length ≤ Bins.room expected (s.bins.put rank item).load by omega)
    refine ⟨s', ?_, hplaced.cons_put hlt, ?_⟩
    · rw [loop, foldlM_cons, hturn]
      exact hloop
    · have hleft' : Bins.room expected (s.bins.put rank item).load
          ≤ Bins.room expected s'.bins.load + items.length := hleft
      rw [length_cons]
      omega

variable (router : ConversationRouter n) (states : Fin (n + 1) → RankState)
  (items : List (RequestQueueItem n)) (cap : ℕ)

variable {item : RequestQueueItem n}

lemma firstPass_placed :
    Placed cap (activeRequests states) items (Bins.ofLoads (activeRequests states))
      (router.firstPass states items cap).1.2 (router.firstPass states items cap).2 :=
  (placePass_placed (activeRequests states) (sortByRelax relax items) _ _).perm
    (sortByRelax_perm relax items)

section

variable (hload : ∀ r, activeRequests states r ≤ cap)
  (hfits : items.length ≤ Bins.room cap (activeRequests states))
include hload hfits

/-- The requests that the first pass leaves fit below the soft cap. -/
lemma rest_fits : (router.firstPass states items cap).2.length
      ≤ Bins.room (router.softCap states items cap)
        (router.loopStart states items cap).bins.load := by
  have hplaced := router.firstPass_placed states items cap
  exact room_expected (hplaced.load_le hload) (hplaced.rest_le hfits) router.one_le_multiplier

/-- **The conversation router** places every request that fits within the caps. -/
theorem route_spec : ∃ assigned expected router', router.route states items cap
        = some ((assigned, expected), router')
      ∧ Routed states cap items assigned expected := by
  have hfirst := router.firstPass_placed states items cap
  have hexpected : router.softCap states items cap ≤ cap := expected_le_cap ..
  obtain ⟨s, hloop, hplaced, -⟩ := loop_placed hexpected (activeRequests states)
    (router.firstPass states items cap).2 (router.loopStart states items cap)
    (router.rest_fits states items cap hload hfits)
  have hall := hfirst.trans hplaced
  have hle := hall.load_le hload
  refine ⟨s.bins.items, max (router.softCap states items cap) (maxLoad s.bins.load), s.router,
    ?_, ?_, fun r => ?_, ?_⟩
  · rw [route, hloop]
    rfl
  · have htotal := hall.total
    rw [Multiset.coe_nil, add_zero] at htotal
    rw [htotal]
    simp [Bins.ofLoads]
  · rw [← hall.counts (Bins.Counts.ofLoads _) r]
    exact (load_le_maxLoad s.bins.load r).trans (le_max_right _ _)
  · exact max_le hexpected (Finset.sup_le fun r _ => hle r)

end

/-! ### Bound conversations -/

/-- A request whose conversation is bound at its turn lands on that rank unless the rank is
full. -/
lemma loop_sticky {cap expected : ℕ} (hexpected : expected ≤ cap)
    (before after : List (RequestQueueItem n)) (item : RequestQueueItem n) (s : LoopState n)
    (hroom : (before ++ item :: after).length ≤ Bins.room expected s.bins.load) :
    ∃ t s', loop cap expected before s = some t
      ∧ loop cap expected (before ++ item :: after) s = some s'
      ∧ (∀ r, t.bins.load r ≤ s'.bins.load r)
      ∧ ∀ rank, t.router.boundRank item = some rank →
        item ∈ s'.bins.items rank ∨ cap ≤ t.bins.load rank := by
  rw [length_append, length_cons] at hroom
  obtain ⟨t, hbefore, -, hleft⟩ := loop_placed hexpected s.bins.load before s (by omega)
  have hfree : ∃ r, t.bins.load r < expected := Bins.room_pos_iff.mp (by omega)
  obtain ⟨rank, router', hturn, hcase⟩ := turn_cases cap t item hfree
  have hless := Bins.room_le_put expected t.bins rank item
  obtain ⟨s', hafter, hplaced, -⟩ := loop_placed hexpected (fun r => 0) after
    (t.place router' item rank)
    (show after.length ≤ Bins.room expected (t.bins.put rank item).load by omega)
  refine ⟨t, s', hbefore, ?_, fun r => ?_, fun bound hbound => ?_⟩
  · rw [loop, foldlM_append]
    rw [loop] at hbefore hafter
    rw [hbefore]
    show (item :: after).foldlM (turn cap expected) t = some s'
    rw [foldlM_cons, hturn]
    exact hafter
  · calc t.bins.load r ≤ (t.bins.put rank item).load r := Bins.load_le_put ..
      _ ≤ s'.bins.load r := hplaced.grows r
  · obtain ⟨hrank, -, -⟩ | ⟨-, ⟨hnone, -⟩ | ⟨target, htarget, hfull, -⟩⟩ := hcase
    · obtain rfl := some.inj (hrank.symm.trans hbound)
      exact .inl (hplaced.keeps _ item (Bins.mem_put.mpr (.inr ⟨rfl, rfl⟩)))
    · exact absurd (hbound.symm.trans hnone) (some_ne_none bound)
    · obtain rfl := some.inj (htarget.symm.trans hbound)
      exact .inr hfull

/-- Nothing is tracked beyond the given conversations, which fit the session limit, and the
bindings from before the call are in force. -/
structure Bindings (keys : Finset String) (home : UMap String (Fin (n + 1)))
    (router : ConversationRouter n) : Prop where
  tracked : ∀ convId ∈ router.convToRank, convId ∈ keys
  limit : keys.card ≤ router.maxSessions
  home : ∀ convId rank, home.find? convId = some rank →
    router.convToRank.find? convId = some rank

lemma Bindings.record {keys : Finset String} {home : UMap String (Fin (n + 1))}
    {router : ConversationRouter n} (h : Bindings keys home router) {rank : Fin (n + 1)}
    (hkey : ∀ convId ∈ item.conversationKey, convId ∈ keys)
    (hbound : ∀ target, router.boundRank item = some target → target = rank) :
    Bindings keys home (router.recordItem item rank) := by
  rw [recordItem]
  cases hconv : item.conversationKey with
  | none => exact h
  | some convId =>
    have hmem : convId ∈ keys := hkey convId hconv
    refine ⟨fun convId' hin => ?_, h.limit, fun convId' rank' hhome => ?_⟩
    · obtain rfl | hin := UMap.mem_of_mem_touch hin
      · exact hmem
      · exact h.tracked convId' hin
    · have hold := h.home convId' rank' hhome
      show (router.convToRank.touch router.maxSessions convId rank).find? convId' = some rank'
      rw [UMap.find?_touch h.tracked hmem h.limit]
      split_ifs with heq
      · subst heq
        rw [hbound rank' (by rw [boundRank, hconv]; exact hold)]
      · exact hold

/-- A turn keeps the bindings. -/
lemma Bindings.loop {keys : Finset String} {home : UMap String (Fin (n + 1))} {cap expected : ℕ}
    (items : List (RequestQueueItem n))
    (hkeys : ∀ item ∈ items, ∀ convId ∈ item.conversationKey, convId ∈ keys) {s s' : LoopState n}
    (h : Bindings keys home s.router) (hroom : items.length ≤ Bins.room expected s.bins.load)
    (hloop : loop cap expected items s = some s') : Bindings keys home s'.router := by
  induction items generalizing s with
  | nil =>
    obtain rfl : s = s' := some.inj hloop
    exact h
  | cons item items ih =>
    rw [length_cons] at hroom
    obtain ⟨rank, router', hturn, hcase⟩ := turn_cases cap s item
      (Bins.room_pos_iff.mp (show 0 < Bins.room expected s.bins.load by omega))
    rw [ConversationRouter.loop, foldlM_cons, hturn] at hloop
    have hless := Bins.room_le_put expected s.bins rank item
    refine ih (fun x hx => hkeys x (mem_cons_of_mem _ hx)) ?_
      (show items.length ≤ Bins.room expected (s.bins.put rank item).load by omega) hloop
    have hkey := hkeys item mem_cons_self
    obtain ⟨hbound, -, rfl⟩ | ⟨-, ⟨hnone, cursor, rfl⟩ | ⟨-, -, -, hmap, hmax⟩⟩ := hcase
    · exact h.record hkey fun target htarget => some.inj (htarget.symm.trans hbound)
    · have hsame : Bindings keys home { s.router with roundRobinCursor := cursor } :=
        ⟨h.tracked, h.limit, h.home⟩
      refine hsame.record hkey fun target htarget => ?_
      exact absurd (htarget.symm.trans hnone) (some_ne_none target)
    · refine ⟨?_, ?_, ?_⟩
      · show ∀ convId ∈ router'.convToRank, convId ∈ keys
        rw [hmap]
        exact h.tracked
      · exact hmax ▸ h.limit
      · show ∀ convId rank, home.find? convId = some rank →
          router'.convToRank.find? convId = some rank
        rw [hmap]
        exact h.home

variable (hload : ∀ r, activeRequests states r ≤ cap)
  (hfits : items.length ≤ Bins.room cap (activeRequests states))
include hload hfits

/-- **A bound conversation returns**: a request whose conversation is bound when its turn comes
lands on that rank unless the rank is full then. -/
theorem route_sticky {before after : List (RequestQueueItem n)}
    (hrest : (router.firstPass states items cap).2 = before ++ item :: after) :
    ∃ t s, loop cap (router.softCap states items cap) before (router.loopStart states items cap)
        = some t
      ∧ loop cap (router.softCap states items cap) (router.firstPass states items cap).2
        (router.loopStart states items cap) = some s
      ∧ (∀ r, t.bins.load r ≤ activeRequests states r + (s.bins.items r).length)
      ∧ ∀ rank, t.router.boundRank item = some rank →
        item ∈ s.bins.items rank ∨ cap ≤ t.bins.load rank := by
  have hexpected : router.softCap states items cap ≤ cap := expected_le_cap ..
  have hroom := router.rest_fits states items cap hload hfits
  obtain ⟨s, hs, hplaced, -⟩ := loop_placed hexpected (activeRequests states) _
    (router.loopStart states items cap) hroom
  rw [hrest] at hroom
  obtain ⟨t, s', ht, hs', hgrows, hsticky⟩ := loop_sticky hexpected before after item
    (router.loopStart states items cap) hroom
  rw [← hrest, hs, some.injEq] at hs'
  subst hs'
  refine ⟨t, s, ht, hs, fun r => ?_, hsticky⟩
  have hcounts := (router.firstPass_placed states items cap).counts (Bins.Counts.ofLoads _)
  rw [← hplaced.counts hcounts r]
  exact hgrows r

/-- **A conversation that is bound before the call returns** to its rank unless the rank is full,
if the conversations that are tracked and those of the new requests fit the session limit. -/
theorem route_home (hsessions : (router.convToRank.keys.toFinset
      ∪ (items.filterMap RequestQueueItem.conversationKey).toFinset).card ≤ router.maxSessions)
    (hitem : item ∈ items) {rank : Fin (n + 1)} (hbound : router.boundRank item = some rank) :
    ∃ assigned expected router', router.route states items cap
        = some ((assigned, expected), router')
      ∧ (item ∈ assigned rank ∨ cap ≤ activeRequests states rank + (assigned rank).length) := by
  set keys := router.convToRank.keys.toFinset
    ∪ (items.filterMap RequestQueueItem.conversationKey).toFinset with hkeys
  have hkey : ∀ x ∈ items, ∀ convId ∈ x.conversationKey, convId ∈ keys := by
    intro x hx convId hconv
    rw [hkeys, Finset.mem_union, List.mem_toFinset, List.mem_toFinset, mem_filterMap]
    exact .inr ⟨x, hx, hconv⟩
  have hstart : Bindings keys router.convToRank router :=
    ⟨fun convId hin => Finset.mem_union_left _ (List.mem_toFinset.mpr hin), hsessions,
      fun _ _ h => h⟩
  have hhome : ∀ r', Bindings keys router.convToRank r' → r'.boundRank item = some rank := by
    intro r' hr'
    obtain ⟨convId, hconv, hfind⟩ := bind_eq_some_iff.mp hbound
    rw [boundRank, hconv]
    exact hr'.home convId rank hfind
  -- the first pass leaves the request, as its conversation stays bound
  have hnote : ∀ r' : ConversationRouter n, ∀ x ∈ sortByRelax relax items, ∀ target,
      Bindings keys router.convToRank r' → r'.explicitTarget x = some target →
      Bindings keys router.convToRank (r'.recordItem x target) := by
    intro r' x hx target hr' htarget
    refine hr'.record (hkey x ((sortByRelax_perm relax items).mem_iff.mp hx)) ?_
    intro bound hbound'
    rw [explicitTarget, hbound'] at htarget
    exact absurd htarget.symm (some_ne_none target)
  obtain ⟨hpass, hleft⟩ := placePass_keeps hnote hstart (Bins.ofLoads (activeRequests states))
  have hrest : item ∈ (router.firstPass states items cap).2 :=
    hleft item ((sortByRelax_perm relax items).mem_iff.mpr hitem) fun r' hr' => by
      rw [explicitTarget, hhome r' hr']
  obtain ⟨before, after, hsplit⟩ := append_of_mem hrest
  obtain ⟨t, s, ht, hs, hgrows, hsticky⟩ := router.route_sticky states items cap hload hfits hsplit
  have hsub : ∀ x ∈ before, x ∈ items := by
    intro x hx
    have hmem : x ∈ Bins.total (router.firstPass states items cap).1.2.items
        + ((router.firstPass states items cap).2 : Multiset (RequestQueueItem n)) := by
      rw [Multiset.mem_add, Multiset.mem_coe, hsplit]
      exact .inr (mem_append_left _ hx)
    rw [(router.firstPass_placed states items cap).total] at hmem
    simpa [Bins.ofLoads] using hmem
  have hroom := router.rest_fits states items cap hload hfits
  rw [hsplit, length_append] at hroom
  have hturn : t.router.boundRank item = some rank :=
    hhome t.router (Bindings.loop before (fun x hx => hkey x (hsub x hx)) hpass (by omega) ht)
  refine ⟨s.bins.items, max (router.softCap states items cap) (maxLoad s.bins.load), s.router,
    ?_, ?_⟩
  · rw [route, hs]
    rfl
  · obtain hin | hfull := hsticky rank hturn
    · exact .inl hin
    · exact .inr (hfull.trans (hgrows rank))

end ConversationRouter

end TrtLlm.Scheduler
