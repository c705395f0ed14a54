import TrtLlm.Util.Bins

/-!
What the attention-DP routers share: the requests that are popped from the waiting queue, the
placement of requests with an explicit rank, and the target for the number of active requests.

* `getFromWaitingQueue_spec`: the popped requests fit the budget, and the strict ones among them
  fit their ranks;
* `assignExplicitDpRanks_spec`: the requests with an explicit rank are placed while their rank
  has room, the others are left;
* `room_expected`: the target leaves room for all new requests once the multiplier is at least
  one.

There are `n + 1` ranks.
-/

namespace TrtLlm.Scheduler

open List Function Option

/-- `SchedulingParams`. An explicit rank is one of the ranks there are. -/
structure SchedulingParams (n : ℕ) where
  attentionDpRank : Option (Fin (n + 1))
  attentionDpRelax : Bool
  subagentAffinityId : Option String
  deriving DecidableEq

/-- `RequestQueueItem` of a normal request, which has input tokens. -/
structure RequestQueueItem (n : ℕ) where
  id : ℕ
  inputTokenIds : List ℕ
  hasInput : inputTokenIds ≠ []
  generationOnly : Bool
  schedulingParams : Option (SchedulingParams n)
  /-- `conversation_params.conversation_id`. -/
  conversationId : Option String
  childReqIds : List ℕ
  deriving DecidableEq

/-- `RankState` of a rank, which its position in the list of all ranks identifies. -/
structure RankState where
  numActiveRequests : ℕ
  numActiveTokens : ℕ

variable {n : ℕ}

namespace RequestQueueItem

/-- `_num_input_tokens`. -/
def numInputTokens (item : RequestQueueItem n) : ℕ := item.inputTokenIds.length

lemma numInputTokens_pos (item : RequestQueueItem n) : 0 < item.numInputTokens :=
  length_pos_iff.mpr item.hasInput

def attentionDpRank (item : RequestQueueItem n) : Option (Fin (n + 1)) :=
  item.schedulingParams.bind SchedulingParams.attentionDpRank

/-- The request is to run on this rank and on no other. -/
def StrictTo (item : RequestQueueItem n) (rank : Fin (n + 1)) : Prop :=
  ∃ params ∈ item.schedulingParams,
    params.attentionDpRank = some rank ∧ params.attentionDpRelax = false

instance (item : RequestQueueItem n) (rank : Fin (n + 1)) : Decidable (item.StrictTo rank) :=
  inferInstanceAs (Decidable (∃ params ∈ item.schedulingParams, _))

/-- The requests that an item stands for: its own and those of its children. -/
def numRequests (item : RequestQueueItem n) : ℕ := 1 + item.childReqIds.length

end RequestQueueItem

/-- An item without scheduling parameters. -/
def plainItem (n id children : ℕ) : RequestQueueItem n where
  id := id
  inputTokenIds := [0]
  hasInput := cons_ne_nil _ _
  generationOnly := false
  schedulingParams := none
  conversationId := none
  childReqIds := replicate children 0

/-! ### `get_from_waiting_queue` -/

/-- `can_process_attention_dp_request`: the loads after the reservation of a strict request, or
`none` if its rank is full. -/
def canProcessAttentionDpRequest (maxNumActiveRequests : ℕ) (load : Fin (n + 1) → ℕ)
    (item : RequestQueueItem n) : Option (Fin (n + 1) → ℕ) :=
  match item.schedulingParams with
  | none => some load
  | some params =>
    match params.attentionDpRank with
    | none => some load
    | some target =>
      if params.attentionDpRelax then some load
      else if load target < maxNumActiveRequests then
        some (update load target (load target + 1))
      else none

/-- The loop of `get_from_waiting_queue`: the items to process, those that are put back, and the
rest of the queue. -/
def popLoop (maxReqCount : ℤ) (maxNumActiveRequests : ℕ) :
    List (RequestQueueItem n) → ℕ → (Fin (n + 1) → ℕ) →
      List (RequestQueueItem n) × List (RequestQueueItem n) × List (RequestQueueItem n)
  | [], _, _ => ([], [], [])
  | item :: queue, reqCount, load =>
    if ¬(reqCount : ℤ) < maxReqCount ∨ maxReqCount < reqCount + item.numRequests then
      ([], [], item :: queue)
    else
      match canProcessAttentionDpRequest maxNumActiveRequests load item with
      | some load' =>
        let r := popLoop maxReqCount maxNumActiveRequests queue (reqCount + item.numRequests) load'
        (item :: r.1, r.2.1, r.2.2)
      | none =>
        let r := popLoop maxReqCount maxNumActiveRequests queue reqCount load
        (r.1, item :: r.2.1, r.2.2)

/-- `get_from_waiting_queue` under attention DP: the items to process, and the queue after it,
both in the order in which the queue is popped. -/
def getFromWaitingQueue (queue : List (RequestQueueItem n)) (maxReqCount : ℤ)
    (maxNumActiveRequests : ℕ) (load : Fin (n + 1) → ℕ) :
    List (RequestQueueItem n) × List (RequestQueueItem n) :=
  if maxReqCount ≤ 0 then ([], queue)
  else
    let r := popLoop maxReqCount maxNumActiveRequests queue 0 load
    (r.1, r.2.1 ++ r.2.2)

/-- The requests that the items stand for. -/
def requestCount (items : List (RequestQueueItem n)) : ℕ :=
  (items.map RequestQueueItem.numRequests).sum

/-- The strict requests for a rank. -/
def strictCount (items : List (RequestQueueItem n)) (rank : Fin (n + 1)) : ℕ :=
  items.countP fun item => item.StrictTo rank

variable {item : RequestQueueItem n}

lemma length_le_requestCount (items : List (RequestQueueItem n)) :
    items.length ≤ requestCount items := by
  induction items with
  | nil => exact le_rfl
  | cons item items ih =>
    rw [requestCount, map_cons, sum_cons, length_cons, RequestQueueItem.numRequests]
    rw [requestCount] at ih
    omega

lemma canProcess_cases {cap : ℕ} {load load' : Fin (n + 1) → ℕ}
    (h : canProcessAttentionDpRequest cap load item = some load') :
    (load' = load ∧ ∀ rank, ¬item.StrictTo rank)
    ∨ ∃ rank, load rank < cap ∧ load' = update load rank (load rank + 1)
        ∧ ∀ rank', item.StrictTo rank' ↔ rank' = rank := by
  rw [canProcessAttentionDpRequest] at h
  cases hparams : item.schedulingParams with
  | none =>
    simp only [hparams, some.injEq] at h
    exact .inl ⟨h.symm, by simp [RequestQueueItem.StrictTo, hparams]⟩
  | some params =>
    simp only [hparams] at h
    cases hrank : params.attentionDpRank with
    | none =>
      simp only [hrank, some.injEq] at h
      exact .inl ⟨h.symm, by simp [RequestQueueItem.StrictTo, hparams, hrank]⟩
    | some target =>
      simp only [hrank] at h
      split_ifs at h with hrelax hroom
      · simp only [some.injEq] at h
        exact .inl ⟨h.symm, by simp [RequestQueueItem.StrictTo, hparams, hrelax]⟩
      · simp only [some.injEq] at h
        refine .inr ⟨target, hroom, h.symm, fun rank' => ?_⟩
        constructor
        · rintro ⟨params', hp, hr, -⟩
          obtain rfl : params = params' := by simpa [hparams] using hp
          exact some.inj (hr.symm.trans hrank)
        · rintro rfl
          exact ⟨params, hparams, hrank, by simpa using hrelax⟩

/-- What is popped stands in the queue, fits the budget, and reserves no rank twice. -/
lemma popLoop_spec (budget : ℤ) (cap : ℕ) (queue : List (RequestQueueItem n)) (reqCount : ℕ)
    (load : Fin (n + 1) → ℕ) (hcount : (reqCount : ℤ) ≤ budget) (hload : ∀ r, load r ≤ cap) :
    (popLoop budget cap queue reqCount load).1.Sublist queue
    ∧ (reqCount + requestCount (popLoop budget cap queue reqCount load).1 : ℤ) ≤ budget
    ∧ ∀ r, load r + strictCount (popLoop budget cap queue reqCount load).1 r ≤ cap := by
  induction queue generalizing reqCount load with
  | nil => simpa [popLoop, requestCount, strictCount] using ⟨hcount, hload⟩
  | cons item queue ih =>
    rw [popLoop]
    split_ifs with hstop
    · simpa [requestCount, strictCount] using ⟨hcount, hload⟩
    · rw [not_or, not_lt] at hstop
      cases hcan : canProcessAttentionDpRequest cap load item with
      | none =>
        obtain ⟨hsub, hbudget, hstrict⟩ := ih reqCount load hcount hload
        exact ⟨hsub.cons _, hbudget, hstrict⟩
      | some load' =>
        have hcount' : ((reqCount + item.numRequests : ℕ) : ℤ) ≤ budget := by
          push_cast
          exact not_lt.mp hstop.2
        obtain ⟨rfl, hnot⟩ | ⟨rank, hroom, rfl, hiff⟩ := canProcess_cases hcan
        · obtain ⟨hsub, hbudget, hstrict⟩ := ih _ load' hcount' hload
          refine ⟨hsub.cons_cons _, ?_, fun r => ?_⟩
          · rw [requestCount, map_cons, sum_cons]
            rw [requestCount] at hbudget
            push_cast at hbudget ⊢
            omega
          · rw [strictCount, countP_cons_of_neg (by simpa using hnot r)]
            exact hstrict r
        · have hload' : ∀ r, update load rank (load rank + 1) r ≤ cap := by
            intro r
            rw [update_apply]
            split_ifs
            · exact hroom
            · exact hload r
          obtain ⟨hsub, hbudget, hstrict⟩ := ih _ _ hcount' hload'
          refine ⟨hsub.cons_cons _, ?_, fun r => ?_⟩
          · rw [requestCount, map_cons, sum_cons]
            rw [requestCount] at hbudget
            push_cast at hbudget ⊢
            omega
          · have hr := hstrict r
            rw [update_apply] at hr
            by_cases he : r = rank
            · subst he
              rw [if_pos rfl, strictCount] at hr
              rw [strictCount, countP_cons_of_pos (by simpa using (hiff r).mpr rfl)]
              omega
            · rw [strictCount, countP_cons_of_neg (by simpa using (hiff r).not.mpr he)]
              rw [if_neg he] at hr
              exact hr

/-- **What is popped** fits the budget, and the strict requests fit their ranks. -/
lemma getFromWaitingQueue_spec (queue : List (RequestQueueItem n)) (budget : ℤ) (cap : ℕ)
    (load : Fin (n + 1) → ℕ) (hload : ∀ r, load r ≤ cap) :
    (getFromWaitingQueue queue budget cap load).1.Sublist queue
    ∧ requestCount (getFromWaitingQueue queue budget cap load).1 ≤ budget.toNat
    ∧ ∀ r, load r + strictCount (getFromWaitingQueue queue budget cap load).1 r ≤ cap := by
  rw [getFromWaitingQueue]
  split_ifs with hneg
  · simpa [requestCount, strictCount] using hload
  · obtain ⟨hsub, hbudget, hstrict⟩ := popLoop_spec budget cap queue 0 load (by omega) hload
    exact ⟨hsub, by dsimp only; omega, hstrict⟩

lemma popLoop_perm (budget : ℤ) (cap : ℕ) (queue : List (RequestQueueItem n)) (reqCount : ℕ)
    (load : Fin (n + 1) → ℕ) :
    ((popLoop budget cap queue reqCount load).1
      ++ ((popLoop budget cap queue reqCount load).2.1
        ++ (popLoop budget cap queue reqCount load).2.2)).Perm queue := by
  induction queue generalizing reqCount load with
  | nil => exact .refl _
  | cons item queue ih =>
    rw [popLoop]
    split_ifs with hstop
    · exact .refl _
    · cases canProcessAttentionDpRequest cap load item with
      | some load' => exact (ih _ load').cons item
      | none => exact perm_middle.trans ((ih reqCount load).cons item)

/-- No item is lost: what is not popped stays in the queue. -/
lemma getFromWaitingQueue_perm (queue : List (RequestQueueItem n)) (budget : ℤ) (cap : ℕ)
    (load : Fin (n + 1) → ℕ) :
    ((getFromWaitingQueue queue budget cap load).1
      ++ (getFromWaitingQueue queue budget cap load).2).Perm queue := by
  rw [getFromWaitingQueue]
  split_ifs
  · exact .refl _
  · exact popLoop_perm budget cap queue 0 load

/-! ### Requests with an explicit rank -/

/-- `get_relax_value` of the default and the KV-aware router. -/
def relaxValue (item : RequestQueueItem n) : Bool :=
  match item.schedulingParams with
  | none => true
  | some params => if params.attentionDpRank = none then true else params.attentionDpRelax

/-- `sorted(requests, key=relax)`, which is stable. -/
def sortByRelax (relax : RequestQueueItem n → Bool) (items : List (RequestQueueItem n)) :
    List (RequestQueueItem n) :=
  items.insertionSort fun a b => relax a ≤ relax b

/-- A pass over the requests that places those with a target rank below the cap and leaves the
others. The target depends on the state of the router, which notes every placement. -/
def placePass {σ : Type*} (maxNumActiveRequests : ℕ)
    (target : σ → RequestQueueItem n → Option (Fin (n + 1)))
    (note : σ → RequestQueueItem n → Fin (n + 1) → σ) :
    List (RequestQueueItem n) → σ → Bins (Fin (n + 1)) (RequestQueueItem n) →
      (σ × Bins (Fin (n + 1)) (RequestQueueItem n)) × List (RequestQueueItem n)
  | [], s, bins => ((s, bins), [])
  | item :: items, s, bins =>
    match target s item with
    | some rank =>
      if bins.load rank < maxNumActiveRequests then
        placePass maxNumActiveRequests target note items (note s item rank) (bins.put rank item)
      else
        let r := placePass maxNumActiveRequests target note items s bins
        (r.1, item :: r.2)
    | none =>
      let r := placePass maxNumActiveRequests target note items s bins
      (r.1, item :: r.2)

/-- `_assign_explicit_dp_ranks`. -/
def assignExplicitDpRanks (maxNumActiveRequests : ℕ) (items : List (RequestQueueItem n))
    (bins : Bins (Fin (n + 1)) (RequestQueueItem n)) :
    Bins (Fin (n + 1)) (RequestQueueItem n) × List (RequestQueueItem n) :=
  let r := placePass maxNumActiveRequests (fun _ item => item.attentionDpRank) (fun s _ _ => s)
    items () bins
  (r.1.2, r.2)

lemma relaxValue_eq_false : relaxValue item = false ↔ ∃ rank, item.StrictTo rank := by
  rw [relaxValue]
  cases hparams : item.schedulingParams with
  | none => simp [RequestQueueItem.StrictTo, hparams]
  | some params =>
    cases hrank : params.attentionDpRank with
    | none | some => simp [RequestQueueItem.StrictTo, hparams, hrank]

lemma RequestQueueItem.StrictTo.rank_eq {rank : Fin (n + 1)}
    (h : item.StrictTo rank) : item.attentionDpRank = some rank := by
  obtain ⟨params, hparams, hrank, -⟩ := h
  rw [RequestQueueItem.attentionDpRank, show item.schedulingParams = some params from hparams]
  exact hrank

/-- What a pass over some requests does: every request is placed or left, no rank goes above the
cap, and no more room is taken than requests are placed. -/
structure Placed (cap : ℕ) (start : Fin (n + 1) → ℕ) (items : List (RequestQueueItem n))
    (bins bins' : Bins (Fin (n + 1)) (RequestQueueItem n)) (rest : List (RequestQueueItem n)) :
    Prop where
  total : Bins.total bins'.items + rest = Bins.total bins.items + items
  counts : bins.Counts start → bins'.Counts start
  load_le : (∀ r, bins.load r ≤ cap) → ∀ r, bins'.load r ≤ cap
  room : Bins.room cap bins'.load + items.length = Bins.room cap bins.load + rest.length
  keeps : ∀ r, ∀ item ∈ bins.items r, item ∈ bins'.items r
  grows : ∀ r, bins.load r ≤ bins'.load r

namespace Placed

variable {cap : ℕ} {start : Fin (n + 1) → ℕ} {items rest : List (RequestQueueItem n)}
  {bins bins' : Bins (Fin (n + 1)) (RequestQueueItem n)} {item : RequestQueueItem n}

lemma nil : Placed cap start [] bins bins [] :=
  ⟨rfl, id, id, rfl, fun _ _ => id, fun _ => le_rfl⟩

/-- The first request is placed on a rank below the cap. -/
lemma cons_put {rank : Fin (n + 1)} (hroom : bins.load rank < cap)
    (h : Placed cap start items (bins.put rank item) bins' rest) :
    Placed cap start (item :: items) bins bins' rest where
  total := by
    rw [h.total, Bins.total_put, ← Multiset.cons_coe, Multiset.cons_add, Multiset.add_cons]
  counts hc := h.counts (hc.put rank item)
  load_le hl := h.load_le (Bins.put_load_le hl hroom)
  room := by
    have h1 := h.room
    have h2 := Bins.room_put item hroom
    rw [length_cons]
    omega
  keeps r x hx := h.keeps r x (Bins.mem_put.mpr (.inl hx))
  grows r := (Bins.load_le_put bins rank r item).trans (h.grows r)

variable (h : Placed cap start items bins bins' rest)
include h

/-- The first request is left. -/
lemma cons_left : Placed cap start (item :: items) bins bins' (item :: rest) where
  total := by
    rw [← Multiset.cons_coe, ← Multiset.cons_coe, Multiset.add_cons, Multiset.add_cons, h.total]
  counts := h.counts
  load_le := h.load_le
  room := by
    have h1 := h.room
    rw [length_cons, length_cons]
    omega
  keeps := h.keeps
  grows := h.grows

/-- The order of the requests does not matter for what is placed and left. -/
lemma perm {items' : List (RequestQueueItem n)}
    (hp : items.Perm items') : Placed cap start items' bins bins' rest where
  total := by rw [h.total, Multiset.coe_eq_coe.mpr hp]
  counts := h.counts
  load_le := h.load_le
  room := by rw [← hp.length_eq]; exact h.room
  keeps := h.keeps
  grows := h.grows

/-- One pass after the other. -/
lemma trans {bins'' : Bins (Fin (n + 1)) (RequestQueueItem n)} {rest' : List (RequestQueueItem n)}
    (h' : Placed cap start rest bins' bins'' rest') : Placed cap start items bins bins'' rest' where
  total := by rw [h'.total, h.total]
  counts := h'.counts ∘ h.counts
  load_le := h'.load_le ∘ h.load_le
  room := by
    have h1 := h.room
    have h2 := h'.room
    omega
  keeps r item hitem := h'.keeps r item (h.keeps r item hitem)
  grows r := (h.grows r).trans (h'.grows r)

end Placed

section PlacePass

variable {σ : Type*} {cap : ℕ} {target : σ → RequestQueueItem n → Option (Fin (n + 1))}
  {note : σ → RequestQueueItem n → Fin (n + 1) → σ}

variable {items : List (RequestQueueItem n)}

lemma placePass_placed (start : Fin (n + 1) → ℕ) (items : List (RequestQueueItem n)) (s : σ)
    (bins : Bins (Fin (n + 1)) (RequestQueueItem n)) :
    Placed cap start items bins (placePass cap target note items s bins).1.2
      (placePass cap target note items s bins).2 := by
  induction items generalizing s bins with
  | nil => exact .nil
  | cons item items ih =>
    rw [placePass]
    cases target s item with
    | none => exact (ih s bins).cons_left
    | some rank =>
      dsimp only
      split_ifs with hroom
      · exact (ih _ _).cons_put hroom
      · exact (ih s bins).cons_left

/-- What the notes of a pass keep holds after it, and a request without a target in such states is
left. -/
lemma placePass_keeps {J : σ → Prop}
    (hnote : ∀ s, ∀ item ∈ items, ∀ rank, J s → target s item = some rank → J (note s item rank))
    {s : σ} (hs : J s) (bins : Bins (Fin (n + 1)) (RequestQueueItem n)) :
    J (placePass cap target note items s bins).1.1
    ∧ ∀ item ∈ items, (∀ s, J s → target s item = none) →
      item ∈ (placePass cap target note items s bins).2 := by
  induction items generalizing s bins with
  | nil => exact ⟨hs, fun _ h => absurd h not_mem_nil⟩
  | cons first items ih =>
    have hrest : ∀ s, ∀ item ∈ items, ∀ rank, J s → target s item = some rank →
        J (note s item rank) := fun s item hitem =>
      hnote s item (mem_cons_of_mem _ hitem)
    rw [placePass]
    cases htarget : target s first with
    | none =>
      obtain ⟨hJ, hleft⟩ := ih hrest hs bins
      refine ⟨hJ, fun item hitem hnone => ?_⟩
      obtain rfl | hitem := mem_cons.mp hitem
      · exact mem_cons_self
      · exact mem_cons_of_mem _ (hleft item hitem hnone)
    | some rank =>
      dsimp only
      split_ifs with hroom
      · obtain ⟨hJ, hleft⟩ := ih hrest
          (hnote s first mem_cons_self rank hs htarget) (bins.put rank first)
        refine ⟨hJ, fun item hitem hnone => ?_⟩
        obtain rfl | hitem := mem_cons.mp hitem
        · exact absurd ((hnone s hs).symm.trans htarget) (by simp)
        · exact hleft item hitem hnone
      · obtain ⟨hJ, hleft⟩ := ih hrest hs bins
        refine ⟨hJ, fun item hitem hnone => ?_⟩
        obtain rfl | hitem := mem_cons.mp hitem
        · exact mem_cons_self
        · exact mem_cons_of_mem _ (hleft item hitem hnone)

/-- Requests without a target are left. -/
lemma placePass_of_no_target {s : σ} (h : ∀ item ∈ items, target s item = none)
    (bins : Bins (Fin (n + 1)) (RequestQueueItem n)) :
    placePass cap target note items s bins = ((s, bins), items) := by
  induction items with
  | nil => rfl
  | cons item items ih =>
    rw [placePass, h item mem_cons_self, ih fun x hx => h x (mem_cons_of_mem _ hx)]

/-- The strict requests come first and fit their ranks, so that all of them are placed. -/
lemma placePass_strict (htarget : ∀ s item rank, item.StrictTo rank → target s item = some rank)
    (s : σ) (bins : Bins (Fin (n + 1)) (RequestQueueItem n))
    (hsorted : items.Pairwise fun a b => relaxValue a ≤ relaxValue b)
    (hfits : ∀ r, bins.load r + strictCount items r ≤ cap) {item : RequestQueueItem n}
    (hitem : item ∈ items) {rank : Fin (n + 1)} (hstrict : item.StrictTo rank) :
    item ∈ (placePass cap target note items s bins).1.2.items rank := by
  induction items generalizing s bins with
  | nil => simp at hitem
  | cons first items ih =>
    rw [pairwise_cons] at hsorted
    -- a strict request stands behind strict requests only
    have hfirst : relaxValue first = false := by
      obtain rfl | hin := mem_cons.mp hitem
      · exact relaxValue_eq_false.mpr ⟨rank, hstrict⟩
      · have hle := hsorted.1 item hin
        rw [relaxValue_eq_false.mpr ⟨rank, hstrict⟩] at hle
        exact Bool.eq_false_of_le_false hle
    obtain ⟨target', hto⟩ := relaxValue_eq_false.mp hfirst
    have hone : strictCount (first :: items) target' = strictCount items target' + 1 :=
      countP_cons_of_pos (by simpa using hto)
    have hroom : bins.load target' < cap := by
      have := hfits target'
      omega
    rw [placePass, htarget s first target' hto]
    dsimp only
    rw [if_pos hroom]
    obtain rfl | hin := mem_cons.mp hitem
    · have hsame : rank = target' := some.inj (hstrict.rank_eq.symm.trans hto.rank_eq)
      exact (placePass_placed bins.load items _ _).keeps rank item
        (Bins.mem_put.mpr (.inr ⟨hsame, rfl⟩))
    · refine ih _ _ hsorted.2 (fun r => ?_) hin
      rw [Bins.put_load]
      have hr := hfits r
      split_ifs with he
      · subst he
        omega
      · have hle : strictCount items r ≤ strictCount (first :: items) r :=
          (sublist_cons_self first items).countP_le
        omega

end PlacePass

variable {cap : ℕ} {items : List (RequestQueueItem n)}

lemma sortByRelax_perm (relax : RequestQueueItem n → Bool) (items : List (RequestQueueItem n)) :
    (sortByRelax relax items).Perm items :=
  perm_insertionSort _ items

lemma strictCount_perm {items' : List (RequestQueueItem n)} (h : items.Perm items')
    (rank : Fin (n + 1)) : strictCount items rank = strictCount items' rank :=
  h.countP_eq _

lemma sortByRelax_sorted (items : List (RequestQueueItem n)) :
    (sortByRelax relaxValue items).Pairwise fun a b => relaxValue a ≤ relaxValue b := by
  have : Std.Total fun a b : RequestQueueItem n => relaxValue a ≤ relaxValue b :=
    ⟨fun a b => le_total _ _⟩
  have : IsTrans (RequestQueueItem n) fun a b => relaxValue a ≤ relaxValue b :=
    ⟨fun a b c => le_trans⟩
  exact pairwise_insertionSort _ items

/-! ### The target for the number of active requests -/

section

variable (load : Fin (n + 1) → ℕ)

/-- The largest load. -/
def maxLoad : ℕ := Finset.univ.sup load

/-- The fair share, rounded up. -/
def fairShare (numNewRequests : ℕ) : ℕ :=
  (∑ r, load r + numNewRequests + (n + 1) - 1) / (n + 1)

/-- `_expected_num_active_requests` with a hard cap. -/
def expectedNumActiveRequests (numNewRequests : ℕ) (multiplier : ℚ)
    (hardCap : ℕ) : ℕ :=
  min (max ⌈multiplier * fairShare load numNewRequests⌉.toNat (maxLoad load)) hardCap

end

section

variable (load : Fin (n + 1) → ℕ)

lemma load_le_maxLoad (r : Fin (n + 1)) : load r ≤ maxLoad load := Finset.le_sup (Finset.mem_univ r)

lemma le_fairShare (numNew : ℕ) : ∑ r, load r + numNew ≤ (n + 1) * fairShare load numNew := by
  have h := Nat.div_add_mod (∑ r, load r + numNew + (n + 1) - 1) (n + 1)
  have hlt := Nat.mod_lt (∑ r, load r + numNew + (n + 1) - 1) (show 0 < n + 1 by omega)
  rw [fairShare]
  omega

lemma expected_le_cap (numNew : ℕ) (multiplier : ℚ) (cap : ℕ) :
    expectedNumActiveRequests load numNew multiplier cap ≤ cap :=
  min_le_right _ _

end

lemma load_le_expected {load : Fin (n + 1) → ℕ} (numNew : ℕ) (multiplier : ℚ)
    (hload : ∀ r, load r ≤ cap) (r : Fin (n + 1)) :
    load r ≤ expectedNumActiveRequests load numNew multiplier cap :=
  le_min ((load_le_maxLoad load r).trans (le_max_right _ _)) (hload r)

/-- With a multiplier of one or more, the requests that fit the cap fit the target. -/
lemma room_expected {load : Fin (n + 1) → ℕ} {numNew : ℕ} {multiplier : ℚ}
    (hload : ∀ r, load r ≤ cap) (hroom : numNew ≤ Bins.room cap load) (hm : 1 ≤ multiplier) :
    numNew ≤ Bins.room (expectedNumActiveRequests load numNew multiplier cap) load := by
  have hle := load_le_expected numNew multiplier hload
  obtain hcap | hcap := min_choice
    (max ⌈multiplier * fairShare load numNew⌉.toNat (maxLoad load)) cap
  · have hfair : fairShare load numNew
        ≤ expectedNumActiveRequests load numNew multiplier cap := by
      rw [expectedNumActiveRequests, hcap]
      refine le_trans ?_ (le_max_left _ _)
      have hq : (fairShare load numNew : ℚ) ≤ ⌈multiplier * fairShare load numNew⌉ :=
        calc (fairShare load numNew : ℚ)
            ≤ multiplier * fairShare load numNew := le_mul_of_one_le_left (Nat.cast_nonneg _) hm
          _ ≤ ⌈multiplier * fairShare load numNew⌉ := Int.le_ceil _
      have hz : (fairShare load numNew : ℤ) ≤ ⌈multiplier * fairShare load numNew⌉ := by
        exact_mod_cast hq
      omega
    have hfill := Bins.room_add_sum hle
    have hshare := le_fairShare load numNew
    have hmul := Nat.mul_le_mul_left (n + 1) hfair
    rw [Fintype.card_fin] at hfill
    omega
  · rw [expectedNumActiveRequests, hcap]
    exact hroom

/-! ### What a router promises -/

/-- The active requests of the ranks. -/
def activeRequests (states : Fin (n + 1) → RankState) (r : Fin (n + 1)) : ℕ :=
  (states r).numActiveRequests

/-- The routing of some requests: each goes to one rank, and no rank goes above the target, which
is within the cap. -/
structure Routed (states : Fin (n + 1) → RankState) (cap : ℕ) (items : List (RequestQueueItem n))
    (assigned : Fin (n + 1) → List (RequestQueueItem n)) (expected : ℕ) : Prop where
  total : Bins.total assigned = items
  load_le : ∀ r, activeRequests states r + (assigned r).length ≤ expected
  expected_le : expected ≤ cap

/-- A pass that leaves some requests, and another one that leaves none, below the target. -/
lemma Placed.routed {states : Fin (n + 1) → RankState} {expected : ℕ}
    {rest : List (RequestQueueItem n)} {bins bins' : Bins (Fin (n + 1)) (RequestQueueItem n)}
    (h : Placed cap (activeRequests states) items (Bins.ofLoads (activeRequests states)) bins rest)
    (h' : Placed expected (activeRequests states) rest bins bins' [])
    (hload : ∀ r, bins.load r ≤ expected) (hcap : expected ≤ cap) :
    Routed states cap items bins'.items expected where
  total := by
    have h1 := h.total
    have h2 := h'.total
    rw [Multiset.coe_nil, add_zero] at h2
    rw [h2, h1]
    simp [Bins.ofLoads]
  load_le r := by
    have hcounts := h'.counts (h.counts (Bins.Counts.ofLoads _)) r
    rw [← hcounts]
    exact h'.load_le hload r
  expected_le := hcap

/-- The requests that the first pass leaves fit the cap, if all of them did. -/
lemma Placed.rest_le {start : Fin (n + 1) → ℕ} {rest : List (RequestQueueItem n)}
    {bins bins' : Bins (Fin (n + 1)) (RequestQueueItem n)}
    (h : Placed cap start items bins bins' rest)
    (hfits : items.length ≤ Bins.room cap bins.load) : rest.length ≤ Bins.room cap bins'.load := by
  have := h.room
  omega

end TrtLlm.Scheduler
