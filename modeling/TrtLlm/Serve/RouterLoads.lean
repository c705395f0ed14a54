import TrtLlm.Util.PyDict
import TrtLlm.Util.Machine

/-!
The load counters of the routers of `tensorrt_llm/serve/router.py`.

`LoadBalancingRouter` and `KvCacheAwareRouter` keep a `ServerState` object for each listed server
and the server of each request.  Every section under the lock is one event; the second router
reads the table in one section and places the request in a later one, if the object that it read
is still in the table.

* `inFlight`: the unfinished requests placed on a server since it was last added, read off the
  log of a run;
* `Counts.step`: an event keeps the counters equal to it, if a finished request finds the object
  that it was placed on;
* `load_eq_inFlight`: so do all runs of such events;
* `load_negative_readded`: a request that outlives its server's entry is taken off the next one.

The score by which the second router selects is left open: any server that it read may be taken.
-/

namespace TrtLlm.Serve

open List UMap

/-- `ServerState`; objects are told apart by their number. -/
structure ServerState where
  ident : ℕ
  numActiveRequests : ℤ
  numActiveTokens : ℤ
deriving DecidableEq

def ServerState.new (ident : ℕ) : ServerState := ⟨ident, 0, 0⟩

def ServerState.incrementLoadBy (s : ServerState) (numTokens : ℤ) : ServerState :=
  { s with
    numActiveRequests := s.numActiveRequests + 1
    numActiveTokens := s.numActiveTokens + numTokens }

def ServerState.decrementLoadBy (s : ServerState) (numTokens : ℤ) : ServerState :=
  { s with
    numActiveRequests := s.numActiveRequests - 1
    numActiveTokens := s.numActiveTokens - numTokens }

/-- A router over the types of servers and of request keys. -/
structure Router (σ κ : Type*) where
  servers : List σ
  serverState : UMap σ ServerState
  reqRoutingTable : UMap κ σ
  rrCounter : ℕ
  useTokens : Bool
  /-- The number of the next object. -/
  nextIdent : ℕ
  /-- `server_states` of the `_route` calls under way: the objects that were read. -/
  serverStates : UMap κ (UMap σ ℕ)

/-- What a run shows of placing, finishing and adding. -/
inductive Log (σ κ : Type*)
  | placed (key : κ) (server : σ)
  | finished (key : κ)
  | added (server : σ)
deriving DecidableEq

inductive Event (σ κ : Type*)
  | getNextServer (key : κ) (numTokens : ℤ) (excludeServer : Option σ)
  /-- The first section of `_route`. -/
  | routeRead (key : κ) (excludeServer : Option σ)
  /-- Its last section, for the server selected; `_stash_routed_blocks` may raise. -/
  | routePlace (key : κ) (server : σ) (numTokens : ℤ) (stashed : Bool)
  | finishRequest (key : κ) (numTokens : ℤ)
  /-- The sections of `add_server`. -/
  | stageServer (server : σ)
  | unstageServer (server : σ)
  | addServer (server : σ)
  | removeServer (server : σ)
  /-- The section of `_monitor_servers`. -/
  | monitorServers (finalServers : List σ)

namespace Router

variable {σ κ : Type*} [DecidableEq σ] [DecidableEq κ]

/-- One turn of the loop of `_on_servers_updated`. -/
def keepState (old : UMap σ ServerState) (acc : UMap σ ServerState × ℕ) (server : σ) :
    UMap σ ServerState × ℕ :=
  match old.find? server with
  | some state => (acc.1.assign server state, acc.2)
  | none => (acc.1.assign server (.new acc.2), acc.2 + 1)

/-- `_on_servers_updated`, after the list has changed. -/
def onServersUpdated (r : Router σ κ) : Router σ κ :=
  let acc := r.servers.foldl (keepState r.serverState) (∅, r.nextIdent)
  { r with serverState := acc.1, nextIdent := acc.2 }

/-- `_init_load_balancing`. -/
def init (servers : List σ) (useTokens : Bool) : Router σ κ :=
  onServersUpdated ⟨servers, ∅, ∅, 0, useTokens, 0, ∅⟩

variable (r : Router σ κ)

def getServerLoad (server : σ) : Option ℤ :=
  (r.serverState.find? server).map fun state =>
    if r.useTokens then state.numActiveTokens else state.numActiveRequests

/-- `_select_least_loaded`; it raises when no server is left, and when one has no object. -/
def selectLeastLoaded (excludeServer : Option σ) : Option σ :=
  let candidates := r.servers.filter fun s => some s ≠ excludeServer
  if candidates.all (· ∈ r.serverState) then
    let minLoad := (candidates.filterMap r.getServerLoad).min?
    let tied := candidates.filter fun s => r.getServerLoad s = minLoad
    tied[r.rrCounter % tied.length]?
  else none

/-- `_register_request`. -/
def registerRequest (server : σ) (key : κ) (numTokens : ℤ) :
    List (Log σ κ) × Router σ κ :=
  match r.serverState.find? server with
  | none => ([], r)
  | some state => ([.placed key server], { r with
        serverState := r.serverState.assign server (state.incrementLoadBy numTokens)
        reqRoutingTable := r.reqRoutingTable.assign key server })

def getNextServer (key : κ) (numTokens : ℤ) (excludeServer : Option σ) :
    List (Log σ κ) × Router σ κ :=
  match r.selectLeastLoaded excludeServer with
  | none => ([], r)
  | some server => { r with rrCounter := r.rrCounter + 1 }.registerRequest server key numTokens

def routeRead (key : κ) (excludeServer : Option σ) : Router σ κ :=
  let states := r.serverState.filter fun s _ => s ∈ r.servers ∧ some s ≠ excludeServer
  { r with serverStates := r.serverStates.assign key (states.mapVal fun _ state => state.ident) }

/-- The last section of `_route`: the object in the table must be the one that was read. -/
def routePlace (key : κ) (server : σ) (numTokens : ℤ) (stashed : Bool) :
    List (Log σ κ) × Router σ κ :=
  match (r.serverStates.find? key).bind fun m => m.find? server, r.serverState.find? server with
  | some ident, some state =>
    if state.ident = ident then
      if stashed then r.registerRequest server key numTokens
      else
        -- the request is taken off again
        let undone := (state.incrementLoadBy numTokens).decrementLoadBy numTokens
        ([], { r with
          serverState := r.serverState.assign server undone
          reqRoutingTable := r.reqRoutingTable.erase key })
    else ([], r)
  | _, _ => ([], r)

/-- `_unregister_request` and the section of `_finish`: the server is looked up by its name. -/
def finishRequest (key : κ) (numTokens : ℤ) : Router σ κ :=
  match r.reqRoutingTable.find? key with
  | none => r
  | some server =>
    let r := { r with reqRoutingTable := r.reqRoutingTable.erase key }
    match r.serverState.find? server with
    | none => r
    | some state =>
      { r with serverState := r.serverState.assign server (state.decrementLoadBy numTokens) }

/-- `_stage_server`: `setdefault`. -/
def stageServer (server : σ) : Router σ κ :=
  { r with
    serverState := if server ∈ r.serverState then r.serverState
      else r.serverState.assign server (.new r.nextIdent)
    nextIdent := r.nextIdent + 1 }

/-- `_unstage_server`. -/
def unstageServer (server : σ) : Router σ κ :=
  if server ∈ r.servers then r else { r with serverState := r.serverState.erase server }

/-- The list of servers is replaced. -/
def setServers (servers : List σ) : List (Log σ κ) × Router σ κ :=
  ((servers.filter (· ∉ r.servers)).map .added, onServersUpdated { r with servers := servers })

def step : Event σ κ → List (Log σ κ) × Router σ κ
  | .getNextServer key numTokens excludeServer => r.getNextServer key numTokens excludeServer
  | .routeRead key excludeServer => ([], r.routeRead key excludeServer)
  | .routePlace key server numTokens stashed => r.routePlace key server numTokens stashed
  | .finishRequest key numTokens => ([.finished key], r.finishRequest key numTokens)
  | .stageServer server => ([], r.stageServer server)
  | .unstageServer server => ([], r.unstageServer server)
  | .addServer server =>
    if server ∈ r.servers then ([], r) else r.setServers (r.servers ++ [server])
  | .removeServer server => r.setServers (r.servers.filter (· ≠ server))
  | .monitorServers finalServers =>
    if finalServers = r.servers then ([], r) else r.setServers finalServers

end Router

/-! ### The work in flight -/

variable {σ κ : Type*} [DecidableEq σ] [DecidableEq κ]

def track (server : σ) (work : Finset κ) : Log σ κ → Finset κ
  | .placed key s => if s = server then insert key work else work
  | .finished key => work.erase key
  | .added s => if s = server then ∅ else work

/-- The unfinished requests placed on a server since it was last added. -/
def inFlight (server : σ) (log : List (Log σ κ)) : Finset κ := log.foldl (track server) ∅

/-- Each request is placed once, and finished at most once after it. -/
def Contract (log : List (Log σ κ)) : Event σ κ → Prop
  | .getNextServer key _ _ | .routePlace key _ _ _ => ∀ s, .placed key s ∉ log
  | .finishRequest key _ => (∃ s, .placed key s ∈ log) ∧ .finished key ∉ log
  | _ => True

/-- A finished request whose server has an entry was placed on it since the server was added. -/
def FindsOwn (log : List (Log σ κ)) (r : Router σ κ) : Event σ κ → Prop
  | .finishRequest key _ => ∀ s, r.reqRoutingTable.find? key = some s → s ∈ r.serverState →
      s ∈ r.servers ∧ key ∈ inFlight s log
  | _ => True

/-- The routers after events that meet a condition, with their logs. -/
inductive Reachable (C : List (Log σ κ) → Router σ κ → Event σ κ → Prop) (servers : List σ)
    (useTokens : Bool) : List (Log σ κ) → Router σ κ → Prop
  | init : Reachable C servers useTokens [] (.init servers useTokens)
  | step {log r e} (h : Reachable C servers useTokens log r) (he : C log r e) :
      Reachable C servers useTokens (log ++ (r.step e).1) (r.step e).2

variable {log : List (Log σ κ)} {r : Router σ κ} {s : σ} {key : κ}

lemma inFlight_append (s : σ) (log ls : List (Log σ κ)) :
    inFlight s (log ++ ls) = ls.foldl (track s) (inFlight s log) := foldl_append

/-- Servers that are added start without work. -/
lemma inFlight_added (s : σ) (log : List (Log σ κ)) (new : List σ) :
    inFlight s (log ++ new.map .added) = if s ∈ new then ∅ else inFlight s log := by
  rw [inFlight_append]
  generalize inFlight s log = work
  induction new generalizing work with
  | nil => simp
  | cons t new ih =>
    rw [map_cons, foldl_cons, ih, track]
    by_cases hs : s ∈ new
    · simp [hs]
    · by_cases ht : t = s
      · simp [ht]
      · simp [hs, ht, Ne.symm ht]

/-! ### The counters -/

/-- The counters, and what keeps them. -/
structure Counts (log : List (Log σ κ)) (r : Router σ κ) : Prop where
  counted : ∀ s ∈ r.servers, ∃ state, r.serverState.find? s = some state
    ∧ state.numActiveRequests = (inFlight s log).card
  staged : ∀ s state, s ∉ r.servers → r.serverState.find? s = some state →
    state.numActiveRequests = 0
  routed : ∀ s ∈ r.servers, ∀ key ∈ inFlight s log, r.reqRoutingTable.find? key = some s
  placed : ∀ key s, r.reqRoutingTable.find? key = some s → .placed key s ∈ log
  idents : ∀ s state, r.serverState.find? s = some state → state.ident < r.nextIdent
  /-- An object that was read stays in the table only while its server is listed. -/
  reads : ∀ key m s ident, r.serverStates.find? key = some m → m.find? s = some ident →
    ident < r.nextIdent
      ∧ ∀ state, r.serverState.find? s = some state → state.ident = ident → s ∈ r.servers

namespace Counts

/-- The objects of a new list of servers: those of the old ones, and new ones. -/
lemma keepState_spec (old : UMap σ ServerState) (servers : List σ) (n : ℕ) (s : σ) :
    let acc := servers.foldl (Router.keepState old) (∅, n)
    n ≤ acc.2 ∧ (s ∈ servers → ∃ state, acc.1.find? s = some state)
      ∧ ∀ state, acc.1.find? s = some state → s ∈ servers ∧ (old.find? s = some state
        ∨ old.find? s = none ∧ state.numActiveRequests = 0 ∧ state.ident < acc.2) := by
  induction servers using reverseRecOn with
  | nil => exact ⟨Nat.le_refl n, fun h => absurd h not_mem_nil, fun state h => by cases h⟩
  | append_singleton servers t ih =>
    obtain ⟨hn, hin, hold⟩ := ih
    simp only [foldl_append, foldl_cons, foldl_nil]
    set acc := servers.foldl (Router.keepState old) (∅, n)
    obtain ⟨new, m, heq, hm, hnew⟩ : ∃ new m, Router.keepState old acc t = (acc.1.assign t new, m)
        ∧ acc.2 ≤ m ∧ (old.find? t = some new
          ∨ old.find? t = none ∧ new.numActiveRequests = 0 ∧ new.ident < m) := by
      rw [Router.keepState]
      split
      · exact ⟨_, _, rfl, Nat.le_refl _, .inl (by assumption)⟩
      · exact ⟨_, _, rfl, Nat.le_succ _, .inr ⟨by assumption, rfl, Nat.lt_succ_self _⟩⟩
    rw [heq]
    refine ⟨hn.trans hm, fun hs => ?_, fun state hfind => ?_⟩
    · rw [find?_assign]
      split_ifs with ht
      · exact ⟨new, rfl⟩
      · exact hin (by simpa [ht] using hs)
    · rw [find?_assign] at hfind
      split_ifs at hfind with ht
      · cases hfind
        exact ⟨by simp [ht], ht ▸ hnew⟩
      · obtain ⟨hs, hcase⟩ := hold state hfind
        exact ⟨mem_append_left _ hs, hcase.imp_right fun h => ⟨h.1, h.2.1, h.2.2.trans_le hm⟩⟩

section

variable (h : Counts log r)
include h

/-- The list of servers is replaced: those that stay keep their objects. -/
lemma setServers (servers : List σ) :
    Counts (log ++ (r.setServers servers).1) (r.setServers servers).2 := by
  have hspec := keepState_spec r.serverState servers r.nextIdent
  have hwork : ∀ s ∈ servers, inFlight s (log ++ (r.setServers servers).1)
      = if s ∈ r.servers then inFlight s log else ∅ := by
    intro s hs
    rw [Router.setServers, inFlight_added]
    by_cases hold : s ∈ r.servers <;> simp [hs, hold]
  simp only [Router.setServers, Router.onServersUpdated] at hwork ⊢
  set acc := servers.foldl (Router.keepState r.serverState) (∅, r.nextIdent)
  refine ⟨fun s hs => ?_, fun s state hs hfind => ?_, fun s hs key hkey => ?_, fun key s hkey => ?_,
    fun s state hfind => ?_, fun key m s ident hm hident => ?_⟩
  · obtain ⟨state, hfind⟩ := (hspec s).2.1 hs
    refine ⟨state, hfind, ?_⟩
    rw [hwork s hs]
    rcases ((hspec s).2.2 state hfind).2 with hold | ⟨hold, hzero, -⟩ <;> split_ifs with hlisted
    · obtain ⟨state', hfind', hcount⟩ := h.counted s hlisted
      obtain rfl : state' = state := Option.some.inj (hfind'.symm.trans hold)
      exact hcount
    · exact h.staged s state hlisted hold
    · obtain ⟨state', hfind', -⟩ := h.counted s hlisted
      rw [hold] at hfind'
      cases hfind'
    · exact hzero
  · exact absurd ((hspec s).2.2 state hfind).1 hs
  · rw [hwork s hs] at hkey
    split_ifs at hkey with hlisted
    · exact h.routed s hlisted key hkey
    · exact absurd hkey (Finset.notMem_empty _)
  · exact mem_append_left _ (h.placed key s hkey)
  · rcases ((hspec s).2.2 state hfind).2 with hold | ⟨-, -, hlt⟩
    · exact (h.idents s state hold).trans_le (hspec s).1
    · exact hlt
  · exact ⟨(h.reads key m s ident hm hident).1.trans_le (hspec s).1,
      fun state hfind _ => ((hspec s).2.2 state hfind).1⟩

/-- A change of the load of one object leaves the objects that are read. -/
lemma objects {state : ServerState} (state' : ServerState)
    (hfind : r.serverState.find? s = some state)
    (hident : state'.ident = state.ident) :
    (∀ t st, (r.serverState.assign s state').find? t = some st → st.ident < r.nextIdent)
    ∧ ∀ key m t ident, r.serverStates.find? key = some m → m.find? t = some ident →
      ident < r.nextIdent ∧ ∀ st, (r.serverState.assign s state').find? t = some st →
        st.ident = ident → t ∈ r.servers := by
  have hold : ∀ {t st}, (r.serverState.assign s state').find? t = some st →
      ∃ st', r.serverState.find? t = some st' ∧ st'.ident = st.ident := by
    intro t st ht
    rw [find?_assign] at ht
    split_ifs at ht with heq
    · cases ht
      exact ⟨state, heq ▸ hfind, hident.symm⟩
    · exact ⟨st, ht, rfl⟩
  refine ⟨fun t st ht => ?_, fun key m t ident hm ht => ⟨(h.reads key m t ident hm ht).1, ?_⟩⟩
  · obtain ⟨st', hst', heq⟩ := hold ht
    exact heq ▸ h.idents t st' hst'
  · intro st hst heq
    obtain ⟨st', hst', heq'⟩ := hold hst
    exact (h.reads key m t ident hm ht).2 st' hst' (heq'.trans heq)

/-- A request is placed on a listed server. -/
lemma registerRequest (hs : s ∈ r.servers) (hkey : ∀ s, .placed key s ∉ log)
    (n : ℤ) : Counts (log ++ (r.registerRequest s key n).1) (r.registerRequest s key n).2 := by
  obtain ⟨state, hfind, hcount⟩ := h.counted s hs
  have hfresh : ∀ t ∈ r.servers, key ∉ inFlight t log := fun t ht hmem =>
    hkey t (h.placed key t (h.routed t ht key hmem))
  have hwork : ∀ t, inFlight t (log ++ [.placed key s])
      = if s = t then insert key (inFlight t log) else inFlight t log := fun t => inFlight_append ..
  rw [Router.registerRequest, hfind]
  obtain ⟨hidents, hreads⟩ := h.objects (state.incrementLoadBy n) hfind rfl
  refine ⟨fun t ht => ?_, fun t st ht hst => ?_, fun t ht k hk => ?_, fun k t hk => ?_, hidents,
    hreads⟩
  · rw [hwork, find?_assign]
    rcases eq_or_ne t s with rfl | hne
    · refine ⟨_, if_pos rfl, ?_⟩
      rw [if_pos rfl, Finset.card_insert_of_notMem (hfresh t hs)]
      simp [ServerState.incrementLoadBy, hcount]
    · rw [if_neg hne, if_neg hne.symm]
      exact h.counted t ht
  · have hne : t ≠ s := fun heq => ht (heq ▸ hs)
    rw [find?_assign, if_neg hne] at hst
    exact h.staged t st ht hst
  · rw [hwork] at hk
    rw [find?_assign]
    split_ifs with heq
    · rw [heq] at hk
      split_ifs at hk with hst
      · rw [hst]
      · exact absurd hk (hfresh t ht)
    · refine h.routed t ht k ?_
      split_ifs at hk with hst
      · exact (Finset.mem_insert.mp hk).resolve_left heq
      · exact hk
  · rw [find?_assign] at hk
    split_ifs at hk with heq
    · cases hk
      exact mem_append_right _ (mem_singleton.mpr (by rw [heq]))
    · exact mem_append_left _ (h.placed k t hk)

/-- **A finished request is taken off the object that it was placed on.** -/
lemma finishRequest (n : ℤ) (hown : FindsOwn log r (.finishRequest key n)) :
    Counts (log ++ [.finished key]) (r.finishRequest key n) := by
  have hwork : ∀ t, inFlight t (log ++ [.finished key]) = (inFlight t log).erase key :=
    fun t => inFlight_append ..
  -- only the server of the request has it in flight
  have hsame : ∀ t ∈ r.servers, r.reqRoutingTable.find? key ≠ some t →
      inFlight t (log ++ [.finished key]) = inFlight t log := fun t ht hne => by
    rw [hwork, Finset.erase_eq_of_notMem fun hmem => hne (h.routed t ht key hmem)]
  have hrouted : ∀ t ∈ r.servers, ∀ k ∈ inFlight t (log ++ [.finished key]),
      (r.reqRoutingTable.erase key).find? k = some t := by
    intro t ht k hk
    obtain ⟨hne, hmem⟩ := Finset.mem_erase.mp (hwork t ▸ hk)
    rw [find?_erase, if_neg hne]
    exact h.routed t ht k hmem
  have hplaced : ∀ k t, (r.reqRoutingTable.erase key).find? k = some t →
      .placed k t ∈ log ++ [.finished key] := by
    intro k t hk
    rw [find?_erase] at hk
    split_ifs at hk
    exact mem_append_left _ (h.placed k t hk)
  unfold Router.finishRequest
  split
  · rename_i hnone
    refine ⟨fun t ht => ?_, h.staged, fun t ht k hk => ?_,
      fun k t hk => mem_append_left _ (h.placed k t hk), h.idents, h.reads⟩
    · rw [hsame t ht (by simp [hnone])]
      exact h.counted t ht
    · exact h.routed t ht k (Finset.mem_of_mem_erase (hwork t ▸ hk))
  · rename_i s hs
    dsimp only
    split
    · rename_i hnone
      refine ⟨fun t ht => ?_, h.staged, hrouted, hplaced, h.idents, h.reads⟩
      have hne : s ≠ t := by
        rintro rfl
        obtain ⟨state, hfind, -⟩ := h.counted s ht
        rw [hnone] at hfind
        cases hfind
      rw [hsame t ht (by simpa [hs] using hne)]
      exact h.counted t ht
    · rename_i state hfind
      obtain ⟨hlisted, hmem⟩ := hown s hs (mem_of_find? hfind)
      obtain ⟨hidents, hreads⟩ := h.objects (state.decrementLoadBy n) hfind rfl
      refine ⟨fun t ht => ?_, fun t st ht hst => ?_, hrouted, hplaced, hidents, hreads⟩
      · rw [find?_assign]
        rcases eq_or_ne t s with rfl | hne
        · obtain ⟨state', hfind', hcount⟩ := h.counted t ht
          obtain rfl : state' = state := Option.some.inj (hfind'.symm.trans hfind)
          refine ⟨_, if_pos rfl, ?_⟩
          have hpos := Finset.card_pos.mpr ⟨key, hmem⟩
          rw [hwork, Finset.card_erase_of_mem hmem, Nat.cast_sub hpos, ← hcount]
          rfl
        · rw [if_neg hne, hsame t ht (by simpa [hs] using hne.symm)]
          exact h.counted t ht
      · have hne : t ≠ s := fun heq => ht (heq ▸ hlisted)
        rw [find?_assign, if_neg hne] at hst
        exact h.staged t st ht hst

/-- A router whose lookups are those of another one. -/
lemma congr {state : UMap σ ServerState} {table : UMap κ σ}
    (hstate : ∀ s, state.find? s = r.serverState.find? s)
    (htable : ∀ k, table.find? k = r.reqRoutingTable.find? k) :
    Counts log { r with serverState := state, reqRoutingTable := table } := by
  refine ⟨?_, ?_, ?_, ?_, ?_, ?_⟩ <;> simp only [hstate, htable]
  exacts [h.counted, h.staged, h.routed, h.placed, h.idents, h.reads]

lemma stageServer (s : σ) : Counts log (r.stageServer s) := by
  unfold Router.stageServer
  have hnext : ∀ {n}, n < r.nextIdent → n < r.nextIdent + 1 :=
    fun hn => hn.trans (Nat.lt_succ_self _)
  split_ifs with hmem
  · exact ⟨h.counted, h.staged, h.routed, h.placed, fun t st ht => hnext (h.idents t st ht),
      fun k m t i hm ht => ⟨hnext (h.reads k m t i hm ht).1, (h.reads k m t i hm ht).2⟩⟩
  have hlisted : s ∉ r.servers := fun hs => by
    obtain ⟨state, hfind, -⟩ := h.counted s hs
    exact hmem (mem_of_find? hfind)
  refine ⟨fun t ht => ?_, fun t st ht hst => ?_, h.routed, h.placed, fun t st hst => ?_,
    fun k m t i hm ht => ⟨hnext (h.reads k m t i hm ht).1, fun st hst hident => ?_⟩⟩
  · have hne : t ≠ s := fun heq => hlisted (heq ▸ ht)
    rw [find?_assign, if_neg hne]
    exact h.counted t ht
  all_goals
    rw [find?_assign] at hst
    split_ifs at hst with heq
  · cases hst
    rfl
  · exact h.staged t st ht hst
  · cases hst
    exact Nat.lt_succ_self _
  · exact hnext (h.idents t st hst)
  · cases hst
    exact absurd hident (h.reads k m t i hm ht).1.ne'
  · exact (h.reads k m t i hm ht).2 st hst hident

lemma unstageServer (s : σ) : Counts log (r.unstageServer s) := by
  unfold Router.unstageServer
  split_ifs with hlisted
  · exact h
  have hold : ∀ {t st}, (r.serverState.erase s).find? t = some st →
      r.serverState.find? t = some st := by
    intro t st ht
    rw [find?_erase] at ht
    split_ifs at ht
    exact ht
  refine ⟨fun t ht => ?_, fun t st ht hst => h.staged t st ht (hold hst), h.routed, h.placed,
    fun t st ht => h.idents t st (hold ht), fun k m t i hm ht =>
      ⟨(h.reads k m t i hm ht).1, fun st hst => (h.reads k m t i hm ht).2 st (hold hst)⟩⟩
  have hne : t ≠ s := fun heq => hlisted (heq ▸ ht)
  rw [find?_erase, if_neg hne]
  exact h.counted t ht

lemma routeRead (key : κ) (excludeServer : Option σ) :
    Counts log (r.routeRead key excludeServer) := by
  refine ⟨h.counted, h.staged, h.routed, h.placed, h.idents, fun k m t i hm ht => ?_⟩
  simp only [Router.routeRead, find?_assign] at hm
  split_ifs at hm with heq
  · cases hm
    rw [find?_mapVal, UMap.find?_filter] at ht
    obtain ⟨st, hst, rfl⟩ := Option.map_eq_some_iff.mp ht
    obtain ⟨hfind, hlisted⟩ := Option.filter_eq_some_iff.mp hst
    exact ⟨h.idents t st hfind, fun _ _ _ => (of_decide_eq_true hlisted).1⟩
  · exact h.reads k m t i hm ht

/-- The last section of `_route` places the request on a listed server, or nowhere. -/
lemma routePlace (hkey : ∀ s, .placed key s ∉ log) (s : σ) (n : ℤ) (stashed : Bool) :
    Counts (log ++ (r.routePlace key s n stashed).1) (r.routePlace key s n stashed).2 := by
  have hsame : Counts (log ++ []) r := (append_nil log).symm ▸ h
  unfold Router.routePlace
  split
  · rename_i ident state hread hfind
    obtain ⟨m, hm, hs⟩ := Option.bind_eq_some_iff.mp hread
    split_ifs with hident
    · exact h.registerRequest ((h.reads key m s ident hm hs).2 state hfind hident) hkey n
    · refine hsame.congr (fun t => ?_) fun k => ?_
      · rw [find?_assign]
        split_ifs with ht
        · rw [ht, hfind]
          simp [ServerState.incrementLoadBy, ServerState.decrementLoadBy]
        · rfl
      · rw [find?_erase]
        split_ifs with hk
        · rw [hk]
          exact (Option.eq_none_iff_forall_ne_some.mpr fun t ht => hkey t (h.placed key t ht)).symm
        · rfl
    · exact hsame
  · exact hsame

/-- **Every event** keeps the counters. -/
lemma step {e : Event σ κ} (hc : Contract log e) (hown : FindsOwn log r e) :
    Counts (log ++ (r.step e).1) (r.step e).2 := by
  have hsame : ∀ {r' : Router σ κ}, Counts log r' → Counts (log ++ []) r' :=
    fun h' => (append_nil log).symm ▸ h'
  cases e with
  | getNextServer key n excl =>
    change Counts (log ++ (r.getNextServer key n excl).1) (r.getNextServer key n excl).2
    unfold Router.getNextServer
    split
    · exact hsame h
    · rename_i s hs
      have hlisted : s ∈ r.servers := by
        unfold Router.selectLeastLoaded at hs
        dsimp only at hs
        split at hs
        · exact (mem_filter.mp (mem_filter.mp (mem_of_getElem? hs)).1).1
        · cases hs
      have hr : Counts log { r with rrCounter := r.rrCounter + 1 } :=
        ⟨h.counted, h.staged, h.routed, h.placed, h.idents, h.reads⟩
      exact hr.registerRequest hlisted hc n
  | routeRead key excl => exact hsame (h.routeRead key excl)
  | routePlace key s n stashed => exact h.routePlace hc s n stashed
  | finishRequest key n => exact h.finishRequest n hown
  | stageServer s => exact hsame (h.stageServer s)
  | unstageServer s => exact hsame (h.unstageServer s)
  | addServer s =>
    simp only [Router.step]
    split_ifs
    · exact hsame h
    · exact h.setServers _
  | removeServer s => exact h.setServers _
  | monitorServers final =>
    simp only [Router.step]
    split_ifs
    · exact hsame h
    · exact h.setServers _

end

/-- A new router lists its servers with nothing in flight. -/
lemma init (servers : List σ) (useTokens : Bool) :
    Counts [] (Router.init servers useTokens : Router σ κ) := by
  have hspec := keepState_spec (∅ : UMap σ ServerState) servers 0
  simp only [Router.init, Router.onServersUpdated]
  refine ⟨fun s hs => ?_, fun s state hs hfind => ?_, fun s _ key hkey => ?_, fun key s hkey => ?_,
    fun s state hfind => ?_, fun key m s ident hm => ?_⟩
  · obtain ⟨state, hfind⟩ := (hspec s).2.1 hs
    rcases ((hspec s).2.2 state hfind).2 with hold | ⟨-, hzero, -⟩
    · cases hold
    · exact ⟨state, hfind, hzero⟩
  · exact absurd ((hspec s).2.2 state hfind).1 hs
  · exact absurd hkey (Finset.notMem_empty key)
  · cases hkey
  · rcases ((hspec s).2.2 state hfind).2 with hold | ⟨-, -, hlt⟩
    · cases hold
    · exact hlt
  · cases hm

end Counts

/-- **Load counters**: where every finished request finds the object that it was placed on, the
counter of a listed server is the number of unfinished requests placed on it since it was last
added, after every sequence of events. -/
theorem load_eq_inFlight {servers : List σ} {useTokens : Bool}
    (h : Reachable (fun log r e => Contract log e ∧ FindsOwn log r e) servers useTokens log r) :
    ∀ s ∈ r.servers, ∃ state, r.serverState.find? s = some state ∧ 0 ≤ state.numActiveRequests
      ∧ state.numActiveRequests = (inFlight s log).card := by
  have hcounts : Counts log r := by
    induction h with
    | init => exact Counts.init servers useTokens
    | step _ he ih => exact ih.step he.1 he.2
  intro s hs
  obtain ⟨state, hfind, hcount⟩ := hcounts.counted s hs
  exact ⟨state, hfind, hcount ▸ Int.natCast_nonneg _, hcount⟩

/-- A request is placed, a second server is added and the request is finished. -/
theorem load_eq_inFlight_added :
    let r := ((((Router.init [0] false : Router ℕ ℕ).step (.getNextServer 7 3 none)).2.step
      (.addServer 1)).2.step (.finishRequest 7 3)).2
    r.servers = [0, 1] ∧ ∀ s ∈ r.servers, ∃ state, r.serverState.find? s = some state
      ∧ 0 ≤ state.numActiveRequests
      ∧ state.numActiveRequests = (inFlight s [.placed 7 0, .added 1, .finished 7]).card := by
  refine ⟨rfl, load_eq_inFlight (Reachable.step (e := .finishRequest 7 3)
    (.step (e := .addServer 1) (.step (e := .getNextServer 7 3 none)
      (.init : Reachable _ [0] false _ _) ⟨fun s => not_mem_nil, trivial⟩) ⟨trivial, trivial⟩)
    ⟨⟨⟨0, by decide⟩, by decide⟩, fun s hs _ => ?_⟩)⟩
  have h0 : some 0 = some s := hs
  cases h0
  decide

/-- **The server selected**: a router that counts requests finds one whenever a listed server is not
excluded, and it has the fewest unfinished requests of these. -/
theorem selected_fewest {servers : List σ} {useTokens : Bool}
    (h : Reachable (fun log r e => Contract log e ∧ FindsOwn log r e) servers useTokens log r)
    (huse : r.useTokens = false) (excludeServer : Option σ) :
    ((∃ t ∈ r.servers, some t ≠ excludeServer) →
        ∃ s, r.selectLeastLoaded excludeServer = some s)
      ∧ ∀ s, r.selectLeastLoaded excludeServer = some s → s ∈ r.servers ∧ some s ≠ excludeServer
        ∧ ∀ t ∈ r.servers, some t ≠ excludeServer →
          (inFlight s log).card ≤ (inFlight t log).card := by
  have hcounts : Counts log r := by
    clear huse
    induction h with
    | init => exact Counts.init servers useTokens
    | step _ he ih => exact ih.step he.1 he.2
  have hload : ∀ t ∈ r.servers, r.getServerLoad t = some ((inFlight t log).card : ℤ) := by
    intro t ht
    obtain ⟨state, hfind, hcount⟩ := hcounts.counted t ht
    simp [Router.getServerLoad, hfind, huse, hcount]
  unfold Router.selectLeastLoaded
  dsimp only
  set candidates := r.servers.filter fun s => some s ≠ excludeServer
  have hmem : ∀ t, t ∈ candidates ↔ t ∈ r.servers ∧ some t ≠ excludeServer := by simp [candidates]
  have hall : candidates.all (· ∈ r.serverState) = true := all_eq_true.mpr fun t ht =>
    decide_eq_true ((hcounts.counted t ((hmem t).mp ht).1).elim fun _ hs => mem_of_find? hs.1)
  rw [if_pos hall]
  refine ⟨fun ht => ?_, fun s hs => ?_⟩
  · -- the least load is that of a candidate
    obtain ⟨t, ht⟩ := ht
    have ht := mem_filterMap.mpr ⟨t, (hmem t).mpr ht, hload t ht.1⟩
    obtain ⟨m, hm⟩ := Option.isSome_iff_exists.mp (isSome_min?_of_mem ht)
    obtain ⟨u, hu, hum⟩ := mem_filterMap.mp (min?_mem hm)
    rw [hm]
    refine ⟨_, getElem?_eq_getElem (Nat.mod_lt _ (length_pos_of_mem (a := u) ?_))⟩
    exact mem_filter.mpr ⟨hu, decide_eq_true hum⟩
  · obtain ⟨hs, hmin⟩ := mem_filter.mp (mem_of_getElem? hs)
    refine ⟨((hmem s).mp hs).1, ((hmem s).mp hs).2, fun t ht hne => ?_⟩
    have hle := (min?_eq_some_iff.mp ((of_decide_eq_true hmin).symm.trans
      (hload s ((hmem s).mp hs).1))).2
    exact Int.ofNat_le.mp (hle _ (mem_filterMap.mpr ⟨t, (hmem t).mpr ⟨ht, hne⟩, hload t ht⟩))

theorem selected_fewest_second :
    ((Router.init [0, 1] false : Router ℕ ℕ).step (.getNextServer 7 3 none)).2.selectLeastLoaded
        none = some 1
      ∧ (inFlight 1 [.placed 7 0]).card ≤ (inFlight 0 [.placed 7 0]).card := by
  have hreach := Reachable.step (C := fun log r e => Contract log e ∧ FindsOwn log r e)
    (e := .getNextServer 7 3 none)
    (.init : Reachable _ [0, 1] false _ (.init [0, 1] false : Router ℕ ℕ))
    ⟨fun s => not_mem_nil, trivial⟩
  exact ⟨by decide, ((selected_fewest hreach rfl none).2 1 (by decide)).2.2 0 (by decide) (by simp)⟩

/-- Request 7 outlives its server's entry: it is finished after the server was removed and added
again, and the counter of the new entry falls below zero. -/
theorem load_negative_readded : ¬ ∀ (log : List (Log ℕ ℕ)) (r : Router ℕ ℕ),
      Reachable (fun log _ e => Contract log e) [0] false log r →
      ∀ s ∈ r.servers, ∀ state, r.serverState.find? s = some state →
        0 ≤ state.numActiveRequests ∧ state.numActiveRequests = (inFlight s log).card := by
  intro h
  have hreach := Reachable.step (C := fun log _ e => Contract log e) (e := .finishRequest 7 3)
    (.step (e := .addServer 0) (.step (e := .stageServer 0) (.step (e := .removeServer 0)
      (.step (e := .getNextServer 7 3 none) (.init : Reachable _ [0] false _ (_ : Router ℕ ℕ))
        fun s => not_mem_nil) trivial) trivial) trivial) ⟨⟨0, by decide⟩, by decide⟩
  exact absurd (h _ _ hreach 0 (by decide) ⟨1, -1, -3⟩ (by decide)).1 (by decide)

end TrtLlm.Serve
