import TrtLlm.Util.FirstFit
import TrtLlm.Util.Machine
import TrtLlm.Util.PyDict

/-!
`SlotQueue`: the staging slots of the lender and the leases that wait for them
(`sharing/_slots.py`).

Every pool group has its free slots as runs; a ticket takes one run of every group it wants at once,
and the tickets are served in the order in which they were queued.  The queue does not record its
grants; who holds a slot is kept beside it (`owner`).

* `QueueOk`: the free runs are canonical, and a slot is free or held by one grant.
-/

namespace TrtLlm

open FirstFit List Option Nat Prod UMap

/-- `_RunAllocator`. -/
structure RunAllocator where
  numSlots : ℕ
  free : List Run
deriving DecidableEq

/-- The constructor. -/
def RunAllocator.new (numSlots : ℕ) : RunAllocator :=
  ⟨numSlots, if numSlots ≠ 0 then [(0, numSlots)] else []⟩

/-- The exceptions: `ValueError` with its cause, and `KeyError`. -/
inductive SlotQueueError where
  | negativeCount
  | unknownGroup
  | tooManySlots
  | outsideGroup
  | freedTwice
  | notFree
  | key
deriving DecidableEq

/-- `SlotQueue`; the number of slots of a group is that of its allocator. -/
structure SlotQueue (κ : Type) where
  allocators : UMap κ RunAllocator
  waiting : UMap ℕ (UMap κ ℕ)
  nextTicket : ℕ

namespace SlotQueue

variable {κ : Type} [DecidableEq κ]

/-- The constructor. -/
def new (numSlots : UMap κ ℕ) : SlotQueue κ :=
  ⟨numSlots.mapVal fun _ count => RunAllocator.new count, ∅, 0⟩

/-- `_checked_counts`, for the items that are left. -/
def checkedCounts (q : SlotQueue κ) :
    List (κ × ℤ) → UMap κ ℕ → Except SlotQueueError (UMap κ ℕ)
  | [], wanted => .ok wanted
  | (g, c) :: counts, wanted =>
    if c < 0 then .error .negativeCount
    else if c = 0 then q.checkedCounts counts wanted
    else
      match q.allocators.find? g with
      | none => .error .unknownGroup
      | some a =>
        if (a.numSlots : ℤ) < c then .error .tooManySlots
        else q.checkedCounts counts (wanted.assign g c.toNat)

def enqueue (counts : UMap κ ℤ) (q : SlotQueue κ) : Except SlotQueueError ℕ × SlotQueue κ :=
  match q.checkedCounts counts.entries ∅ with
  | .error e => (.error e, q)
  | .ok wanted =>
    (.ok q.nextTicket,
      { q with waiting := q.waiting.assign q.nextTicket wanted, nextTicket := q.nextTicket + 1 })

/-- The first loop of `try_grant`: a free run of every group that is wanted. -/
def findStarts (q : SlotQueue κ) :
    List (κ × ℕ) → UMap κ ℕ → Except SlotQueueError (Option (UMap κ ℕ))
  | [], starts => .ok (some starts)
  | (g, c) :: wanted, starts =>
    match q.allocators.find? g with
    | none => .error .key
    | some a =>
      match FirstFit.find c a.free with
      | none => .ok none
      | some start => q.findStarts wanted (starts.assign g start)

/-- The second loop of `try_grant`. -/
def takeAll (starts : UMap κ ℕ) : List (κ × ℕ) → SlotQueue κ →
    Except SlotQueueError Unit × SlotQueue κ
  | [], q => (.ok (), q)
  | (g, c) :: wanted, q =>
    match q.allocators.find? g, starts.find? g with
    | some a, some start =>
      match FirstFit.take start c a.free with
      | none => (.error .notFree, q)
      | some free =>
        takeAll starts wanted { q with allocators := q.allocators.assign g { a with free := free } }
    | _, _ => (.error .key, q)

/-- The runs of a grant. -/
def runsOf (wanted starts : UMap κ ℕ) : UMap κ (ℕ × ℕ) :=
  wanted.mapVal fun g c => ((starts.find? g).getD 0, c)

def tryGrant (ticket : ℕ) (q : SlotQueue κ) :
    Except SlotQueueError (Option (UMap κ (ℕ × ℕ))) × SlotQueue κ :=
  match q.waiting.find? ticket with
  | none => (.error .key, q)
  | some wanted =>
    if q.waiting.keys.head? ≠ some ticket then (.ok none, q)
    else
      match q.findStarts wanted.entries ∅ with
      | .error e => (.error e, q)
      | .ok none => (.ok none, q)
      | .ok (some starts) =>
        match takeAll starts wanted.entries q with
        | (.error e, q) => (.error e, q)
        | (.ok _, q) =>
          (.ok (some (runsOf wanted starts)), { q with waiting := q.waiting.erase ticket })

def cancel (ticket : ℕ) (q : SlotQueue κ) : SlotQueue κ :=
  { q with waiting := q.waiting.erase ticket }

/-- The checks of `give_back` for one run. -/
def checkRun (q : SlotQueue κ) (g : κ) (start count : ℤ) : Option SlotQueueError :=
  match q.allocators.find? g with
  | none => some .unknownGroup
  | some a =>
    if count ≠ 0
      ∧ (start < 0 ∨ count < 0 ∨ (a.numSlots : ℤ) < start + count) then some .outsideGroup
    else if count ≠ 0 ∧ overlaps start.toNat count.toNat a.free then some .freedTwice
    else none

/-- `_RunAllocator.give`, for one group. -/
def giveRun (q : SlotQueue κ) (g : κ) (start count : ℤ) : SlotQueue κ :=
  match q.allocators.find? g with
  | none => q
  | some a => { q with
      allocators := q.allocators.assign g { a with free := give start.toNat count.toNat a.free } }

def giveBack (runs : UMap κ (ℤ × ℤ)) (q : SlotQueue κ) : Except SlotQueueError Unit × SlotQueue κ :=
  match runs.entries.findSome? fun r => q.checkRun r.1 r.2.1 r.2.2 with
  | some e => (.error e, q)
  | none => (.ok (), runs.entries.foldl (fun q r => q.giveRun r.1 r.2.1 r.2.2) q)

/-! ### Who holds a slot -/

/-- The queue, and for every slot the ticket of the grant that holds it. -/
structure Held (κ : Type) where
  queue : SlotQueue κ
  owner : κ → ℕ → Option ℕ

/-- The run of a group, if any, has the slot. -/
def InRuns (runs : UMap κ (ℤ × ℤ)) (g : κ) (k : ℕ) : Prop :=
  ∃ run, runs.find? g = some run ∧ run.1 ≤ k ∧ (k : ℤ) < run.1 + run.2

instance (runs : UMap κ (ℤ × ℤ)) (g : κ) (k : ℕ) : Decidable (InRuns runs g k) :=
  decidable_of_iff ((runs.find? g).any fun run =>
      decide (run.1 ≤ (k : ℤ)) && decide ((k : ℤ) < run.1 + run.2)) (by
    rw [Option.any_eq_true]
    simp only [InRuns, Bool.and_eq_true, decide_eq_true_eq])

/-- Runs as a lease keeps them. -/
def asGiven (runs : UMap κ (ℕ × ℕ)) : UMap κ (ℤ × ℤ) := runs.mapVal fun _ run => (run.1, run.2)

inductive Call (κ : Type) where
  | enqueue (counts : UMap κ ℤ)
  | tryGrant (ticket : ℕ)
  | cancel (ticket : ℕ)
  | giveBack (runs : UMap κ (ℤ × ℤ))

/-- What a call returns. -/
inductive Answer (κ : Type) where
  | enqueued (r : Except SlotQueueError ℕ)
  | tried (r : Except SlotQueueError (Option (UMap κ (ℕ × ℕ))))
  | cancelled
  | given (r : Except SlotQueueError Unit)

/-- One call: a grant holds its slots until they are given back. -/
def step (s : Held κ) : Call κ → List (Answer κ) × Held κ
  | .enqueue counts =>
    let r := s.queue.enqueue counts
    ([.enqueued r.1], { s with queue := r.2 })
  | .tryGrant ticket =>
    let r := s.queue.tryGrant ticket
    ([.tried r.1], ⟨r.2, match r.1 with
      | .ok (some runs) => fun g k => if InRuns (asGiven runs) g k then some ticket else s.owner g k
      | _ => s.owner⟩)
  | .cancel ticket => ([.cancelled], { s with queue := s.queue.cancel ticket })
  | .giveBack runs =>
    let r := s.queue.giveBack runs
    ([.given r.1], ⟨r.2, match r.1 with
      | .ok _ => fun g k => if InRuns runs g k then none else s.owner g k
      | .error _ => s.owner⟩)

/-- Before the first call nothing is held. -/
def init (numSlots : UMap κ ℕ) : Held κ := ⟨new numSlots, fun _ _ => none⟩

/-- **The invariant**: the free runs of a group are in order, apart and not empty; a slot of the
group is free if and only if no grant holds it; and a waiting ticket wants runs that its groups can
have. -/
structure QueueOk (numSlots : UMap κ ℕ) (s : Held κ) : Prop where
  sizes : ∀ g, (s.queue.allocators.find? g).map RunAllocator.numSlots = numSlots.find? g
  canonical : ∀ g a, s.queue.allocators.find? g = some a → Canonical a.free
  free_iff : ∀ g a, s.queue.allocators.find? g = some a →
    ∀ k, Has a.free k ↔ k < a.numSlots ∧ s.owner g k = none
  held : ∀ g k, s.owner g k ≠ none → ∃ a, s.queue.allocators.find? g = some a ∧ k < a.numSlots
  wanted : ∀ t w, s.queue.waiting.find? t = some w → t < s.queue.nextTicket
    ∧ ∀ g c, w.find? g = some c → 0 < c ∧ ∃ a, s.queue.allocators.find? g = some a ∧ c ≤ a.numSlots
  order : s.queue.waiting.keys.Pairwise (· < ·)

/-! ### The loops -/

variable {q : SlotQueue κ}

/-- What is wanted is positive, and some group has as many slots. -/
def Grantable (q : SlotQueue κ) (w : UMap κ ℕ) : Prop :=
  ∀ g c, w.find? g = some c → 0 < c ∧ ∃ a, q.allocators.find? g = some a ∧ c ≤ a.numSlots

variable {wanted : List (κ × ℕ)}

lemma checkedCounts_grantable {counts : List (κ × ℤ)} {wanted w : UMap κ ℕ}
    (hwanted : q.Grantable wanted)
    (h : q.checkedCounts counts wanted = .ok w) : q.Grantable w := by
  induction counts generalizing wanted with
  | nil =>
    rw [checkedCounts] at h
    exact Except.ok.inj h ▸ hwanted
  | cons e counts ih =>
    obtain ⟨g, c⟩ := e
    rw [checkedCounts] at h
    split_ifs at h with hneg hzero
    · exact ih hwanted h
    · cases hfind : q.allocators.find? g with
      | none =>
        rw [hfind] at h
        cases h
      | some a =>
        rw [hfind] at h
        dsimp only at h
        split_ifs at h with hmany
        refine ih (fun g' c' hc' => ?_) h
        rw [find?_assign] at hc'
        split_ifs at hc' with heq
        · obtain rfl := some.inj hc'
          subst heq
          exact ⟨by omega, a, hfind, by omega⟩
        · exact hwanted g' c' hc'

/-- A free run was found for every group that is wanted. -/
def Found (q : SlotQueue κ) (starts : UMap κ ℕ) (wanted : List (κ × ℕ)) : Prop :=
  ∀ g c, (g, c) ∈ wanted → ∃ a start, q.allocators.find? g = some a
    ∧ FirstFit.find c a.free = some start ∧ starts.find? g = some start

lemma findStarts_found (hnodup : (wanted.map fst).Nodup)
    {starts starts' : UMap κ ℕ} (h : q.findStarts wanted starts = .ok (some starts')) :
    q.Found starts' wanted ∧ ∀ g, g ∉ wanted.map fst → starts'.find? g = starts.find? g := by
  induction wanted generalizing starts with
  | nil =>
    rw [findStarts] at h
    obtain rfl := some.inj (Except.ok.inj h)
    exact ⟨fun g c hmem => absurd hmem not_mem_nil, fun g _ => rfl⟩
  | cons e wanted ih =>
    obtain ⟨g, c⟩ := e
    rw [map_cons, nodup_cons] at hnodup
    rw [findStarts] at h
    cases hfind : q.allocators.find? g with
    | none =>
      rw [hfind] at h
      cases h
    | some a =>
      rw [hfind] at h
      dsimp only at h
      cases hstart : FirstFit.find c a.free with
      | none =>
        rw [hstart] at h
        cases h
      | some start =>
        rw [hstart] at h
        obtain ⟨hfound, hother⟩ := ih hnodup.2 h
        refine ⟨fun g' c' hmem => ?_, fun g' hg' => ?_⟩
        · rcases mem_cons.mp hmem with heq | hmem
          · obtain ⟨rfl, rfl⟩ := Prod.mk.inj heq
            refine ⟨a, start, hfind, hstart, ?_⟩
            rw [hother g' hnodup.1, find?_assign, if_pos rfl]
          · exact hfound g' c' hmem
        · rw [map_cons, mem_cons, not_or] at hg'
          rw [hother g' hg'.2, find?_assign, if_neg hg'.1]

/-- If every group that is wanted has a long run, one is found in each. -/
lemma findStarts_of_long (h : ∀ g c, (g, c) ∈ wanted → ∃ a, q.allocators.find? g = some a
      ∧ (FirstFit.find c a.free).isSome = true) (starts : UMap κ ℕ) :
    ∃ starts', q.findStarts wanted starts = .ok (some starts') := by
  induction wanted generalizing starts with
  | nil => exact ⟨starts, rfl⟩
  | cons e wanted ih =>
    obtain ⟨g, c⟩ := e
    obtain ⟨a, hfind, hsome⟩ := h g c mem_cons_self
    obtain ⟨start, hstart⟩ := isSome_iff_exists.mp hsome
    rw [findStarts, hfind]
    dsimp only
    rw [hstart]
    exact ih (fun g' c' hmem => h g' c' (mem_cons_of_mem _ hmem)) _

/-- The runs that are wanted were taken, and nothing else changed. -/
structure Taken (q : SlotQueue κ) (starts : UMap κ ℕ) (wanted : List (κ × ℕ)) (q' : SlotQueue κ) :
    Prop where
  waiting : q'.waiting = q.waiting
  nextTicket : q'.nextTicket = q.nextTicket
  taken : ∀ g c, (g, c) ∈ wanted → ∃ a start free, q.allocators.find? g = some a
    ∧ starts.find? g = some start ∧ FirstFit.take start c a.free = some free
    ∧ q'.allocators.find? g = some { a with free := free }
  others : ∀ g, g ∉ wanted.map fst → q'.allocators.find? g = q.allocators.find? g

/-- **The runs that were found can be taken.** -/
lemma takeAll_taken (hnodup : (wanted.map fst).Nodup) {starts : UMap κ ℕ} :
    ∀ {q : SlotQueue κ}, q.Found starts wanted →
    ∃ q', takeAll starts wanted q = (.ok (), q') ∧ Taken q starts wanted q' := by
  induction wanted with
  | nil =>
    intro q _
    exact ⟨q, rfl, rfl, rfl, fun g c hmem => absurd hmem not_mem_nil, fun g _ => rfl⟩
  | cons e wanted ih =>
    obtain ⟨g, c⟩ := e
    intro q hfound
    rw [map_cons, nodup_cons] at hnodup
    obtain ⟨a, start, hfind, hlong, hstart⟩ := hfound g c mem_cons_self
    obtain ⟨free, htake⟩ := take_isSome (find_fits hlong)
    set q₁ : SlotQueue κ :=
      { q with allocators := q.allocators.assign g { a with free := free } } with hq₁
    have hother : ∀ g', g' ≠ g → q₁.allocators.find? g' = q.allocators.find? g' := fun g' hne => by
      rw [hq₁, find?_assign, if_neg hne]
    have hne : ∀ g' c', (g', c') ∈ wanted → g' ≠ g := fun g' c' hmem heq =>
      hnodup.1 (List.mem_map.mpr ⟨_, hmem, heq⟩)
    have hfound₁ : q₁.Found starts wanted := by
      intro g' c' hmem
      rw [hother g' (hne g' c' hmem)]
      exact hfound g' c' (mem_cons_of_mem _ hmem)
    obtain ⟨q', hall, htaken⟩ := ih hnodup.2 hfound₁
    refine ⟨q', ?_, htaken.waiting, htaken.nextTicket, fun g' c' hmem => ?_, fun g' hg' => ?_⟩
    · rw [takeAll, hfind, hstart]
      dsimp only
      rw [htake]
      exact hall
    · rcases mem_cons.mp hmem with heq | hmem
      · obtain ⟨rfl, rfl⟩ := Prod.mk.inj heq
        refine ⟨a, start, free, hfind, hstart, htake, ?_⟩
        rw [htaken.others g' hnodup.1, hq₁, find?_assign, if_pos rfl]
      · obtain ⟨a', start', free', hfind', hstart', htake', hq'⟩ := htaken.taken g' c' hmem
        rw [hother g' (hne g' c' hmem)] at hfind'
        exact ⟨a', start', free', hfind', hstart', htake', hq'⟩
    · rw [map_cons, mem_cons, not_or] at hg'
      rw [htaken.others g' hg'.2, hother g' hg'.1]

/-- The allocators after runs were given back. -/
lemma find?_giveAll {runs : List (κ × ℤ × ℤ)} (hnodup : (runs.map fst).Nodup) : ∀ {q : SlotQueue κ},
    (∀ g start count, (g, start, count) ∈ runs →
      (runs.foldl (fun q r => q.giveRun r.1 r.2.1 r.2.2) q).allocators.find? g
        = (q.allocators.find? g).map fun a =>
          { a with free := give start.toNat count.toNat a.free })
    ∧ (∀ g, g ∉ runs.map fst →
      (runs.foldl (fun q r => q.giveRun r.1 r.2.1 r.2.2) q).allocators.find? g
        = q.allocators.find? g)
    ∧ (runs.foldl (fun q r => q.giveRun r.1 r.2.1 r.2.2) q).waiting = q.waiting
    ∧ (runs.foldl (fun q r => q.giveRun r.1 r.2.1 r.2.2) q).nextTicket = q.nextTicket := by
  induction runs with
  | nil =>
    intro q
    exact ⟨fun g start count hmem => absurd hmem not_mem_nil, fun g _ => rfl, rfl, rfl⟩
  | cons r runs ih =>
    obtain ⟨g, start, count⟩ := r
    intro q
    rw [map_cons, nodup_cons] at hnodup
    rw [foldl_cons]
    have hself : (q.giveRun g start count).allocators.find? g
        = (q.allocators.find? g).map fun a =>
          { a with free := give start.toNat count.toNat a.free } := by
      cases hfind : q.allocators.find? g with
      | none =>
        rw [giveRun, hfind]
        exact hfind
      | some a =>
        rw [giveRun, hfind]
        rw [find?_assign, if_pos rfl]
        rfl
    have hrest : ∀ g', g' ≠ g → (q.giveRun g start count).allocators.find? g'
        = q.allocators.find? g' := by
      intro g' hne
      cases hfind : q.allocators.find? g with
      | none => rw [giveRun, hfind]
      | some a =>
        rw [giveRun, hfind]
        rw [find?_assign, if_neg hne]
    have hkept : (q.giveRun g start count).waiting = q.waiting
        ∧ (q.giveRun g start count).nextTicket = q.nextTicket := by
      rw [giveRun]
      split
      · exact ⟨rfl, rfl⟩
      · exact ⟨rfl, rfl⟩
    obtain ⟨hgiven, hothers, hwaiting, hticket⟩ := ih hnodup.2 (q := q.giveRun g start count)
    refine ⟨fun g' start' count' hmem => ?_, fun g' hg' => ?_, hwaiting.trans hkept.1,
      hticket.trans hkept.2⟩
    · rcases mem_cons.mp hmem with heq | hmem
      · obtain ⟨rfl, rfl, rfl⟩ : g' = g ∧ start' = start ∧ count' = count := by simpa using heq
        exact (hothers g' hnodup.1).trans hself
      · have hne : g' ≠ g := fun heq => hnodup.1 (List.mem_map.mpr ⟨_, hmem, heq⟩)
        exact (hgiven g' start' count' hmem).trans (by rw [hrest g' hne])
    · rw [map_cons, mem_cons, not_or] at hg'
      exact (hothers g' hg'.2).trans (hrest g' hg'.1)

/-- A group without a long run ends the search. -/
lemma findStarts_of_short (hknown : ∀ g c, (g, c) ∈ wanted → g ∈ q.allocators)
    (h : ∃ g c a, (g, c) ∈ wanted ∧ q.allocators.find? g = some a ∧ FirstFit.find c a.free = none)
    (starts : UMap κ ℕ) : q.findStarts wanted starts = .ok none := by
  induction wanted generalizing starts with
  | nil =>
    obtain ⟨g, c, a, hmem, -⟩ := h
    exact absurd hmem not_mem_nil
  | cons e wanted ih =>
    obtain ⟨g, c⟩ := e
    obtain ⟨a, hfind⟩ := mem_iff_find?.mp (hknown g c mem_cons_self)
    rw [findStarts, hfind]
    dsimp only
    cases hstart : FirstFit.find c a.free with
    | none => rfl
    | some start =>
      refine ih (fun g' c' hmem => hknown g' c' (mem_cons_of_mem _ hmem)) ?_ _
      obtain ⟨g', c', a', hmem, hfind', hshort⟩ := h
      rcases mem_cons.mp hmem with heq | hmem
      · obtain ⟨rfl, rfl⟩ := Prod.mk.inj heq
        rw [hfind] at hfind'
        rw [← some.inj hfind', hstart] at hshort
        cases hshort
      · exact ⟨g', c', a', hmem, hfind', hshort⟩

end SlotQueue

end TrtLlm
