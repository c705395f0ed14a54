import TrtLlm.Util.Tally

/-!
The transfer buffers that threads share (`baseTransBuffer.cpp`).

`assignBufferIndex` waits on a condition variable until the counter of assigned buffers is below
their number, and then takes the first free index under the mutex. `freeBufferIndex` clears the
flag of an index under the mutex, but lowers the counter and notifies outside of it.
`poisonBufferIndex` stores that the pool is poisoned, marks the index under the mutex and notifies
everyone. A section under the mutex, an access of an atomic, a test of the predicate, a block and a
notification are one step each; a notification wakes threads that are blocked already, and a
blocked thread may wake up by itself.

* `Resource`, `Action`: the pool with its threads, and their steps;
* `Resource.Inv`: what every step keeps;
* `Resource.inv_of_reaches`: **it holds in every interleaving**.
-/

namespace TrtLlm.TransBuffer

open List Function Option

/-- `mBufferIndexFlag`: 0, 1 and 2. -/
inductive IndexFlag where
  | free
  | assigned
  | poisoned
deriving DecidableEq, Repr

/-- What a thread is doing. -/
inductive Phase (n : ℕ) where
  | outside
  /-- In `assignBufferIndex` with the mutex, and the predicate held. -/
  | admitted
  /-- In `assignBufferIndex` with the mutex, and the predicate did not hold. -/
  | refused
  | blocked
  /-- Notified; the mutex is not taken again yet. -/
  | woken
  /-- In `freeBufferIndex` with the flag cleared. -/
  | cleared
  /-- In `freeBufferIndex` with the counter lowered. -/
  | lowered
  /-- In `poisonBufferIndex` with the pool poisoned. -/
  | poisoning (i : Fin n)
  /-- In `poisonBufferIndex` with the index marked. -/
  | marked
  /-- The search of `assignBufferIndex` found no index. -/
  | failed
deriving DecidableEq, Repr

namespace Phase

variable {n : ℕ}

/-- The thread has the mutex between two of its steps. -/
def HasMutex (p : Phase n) : Prop := p = .admitted ∨ p = .refused

/-- The thread has a notification still to perform. -/
def Notifies : Phase n → Prop
  | .cleared | .lowered | .poisoning _ | .marked => True
  | _ => False

instance : DecidablePred (Notifies (n := n))
  | .cleared | .lowered | .poisoning _ | .marked => isTrue trivial
  | .outside | .admitted | .refused | .blocked | .woken | .failed => isFalse id

/-- The thread goes on with `assignBufferIndex` without another notification. -/
def Proceeds (p : Phase n) : Prop := p = .woken ∨ p = .admitted

instance : DecidablePred (Proceeds (n := n)) := fun _ => inferInstanceAs (Decidable (_ ∨ _))

end Phase

/-- `ConcurrenceResource`, with the threads that use it and the indices each of them holds. -/
structure Resource (T : Type) (n : ℕ) where
  flag : Fin n → IndexFlag
  concurrence : ℤ
  poisoned : Bool
  mutex : Option T
  phase : T → Phase n
  held : T → Finset (Fin n)

/-- The steps of the threads. -/
inductive Action (T : Type) (n : ℕ) where
  /-- `assignBufferIndex` takes the mutex, for the first time or woken, and tests the predicate. -/
  | test (t : T)
  | block (t : T)
  /-- The rest of the section of `assignBufferIndex`. -/
  | assign (t : T)
  /-- A blocked thread wakes up by itself. -/
  | wake (t : T)
  /-- The section of `freeBufferIndex`. -/
  | clear (t : T) (i : Fin n)
  | lower (t : T)
  /-- `notify_one`, with the thread it wakes. -/
  | notifyOne (t : T) (woken : Option T)
  /-- The store of `poisonBufferIndex`. -/
  | store (t : T) (i : Fin n)
  /-- The section of `poisonBufferIndex`. -/
  | mark (t : T)
  | notifyAll (t : T)

namespace Resource

variable {T : Type} {n : ℕ} [DecidableEq T]

/-- No thread has called anything. -/
def init (T : Type) (n : ℕ) : Resource T n where
  flag _ := .free
  concurrence := 0
  poisoned := false
  mutex := none
  phase _ := .outside
  held _ := ∅

variable (s : Resource T n)

/-- What `assignBufferIndex` waits for. The counter is compared as an unsigned number. -/
def predicate : Bool := s.poisoned || (decide (0 ≤ s.concurrence) && decide (s.concurrence < n))

/-- The first index whose flag is cleared. -/
def search : Option (Fin n) := (finRange n).find? fun i => s.flag i = .free

section

variable (t : T) (p : Phase n)

def setPhase : Resource T n :=
  { s with phase := update s.phase t p }

@[simp] lemma setPhase_concurrence :
    (s.setPhase t p).concurrence = s.concurrence := rfl

@[simp] lemma setPhase_phase :
    (s.setPhase t p).phase = update s.phase t p := rfl

@[simp] lemma setPhase_mutex : (s.setPhase t p).mutex = s.mutex := rfl

end

/-- The thread does not hold the index any more. -/
def drop (t : T) (i : Fin n) : T → Finset (Fin n) :=
  update s.held t ((s.held t).erase i)

lemma mem_drop (t u : T) (i j : Fin n) : j ∈ s.drop t i u ↔ j ∈ s.held u ∧ ¬ (u = t ∧ j = i) := by
  unfold drop
  obtain rfl | hne := eq_or_ne u t
  · simp [and_comm]
  · simp [hne]

/-- A step is possible. -/
def Enabled : Action T n → Prop
  | .test t => (s.phase t = .outside ∨ s.phase t = .woken) ∧ s.mutex = none
  | .block t => s.phase t = .refused
  | .assign t => s.phase t = .admitted
  | .wake t => s.phase t = .blocked
  | .clear t i => s.phase t = .outside ∧ i ∈ s.held t ∧ s.mutex = none
  | .lower t => s.phase t = .cleared
  | .notifyOne t none => s.phase t = .lowered ∧ ∀ u, s.phase u ≠ .blocked
  | .notifyOne t (some u) => s.phase t = .lowered ∧ s.phase u = .blocked
  | .store t i => s.phase t = .outside ∧ i ∈ s.held t
  | .mark t => (∃ i, s.phase t = .poisoning i) ∧ s.mutex = none
  | .notifyAll t => s.phase t = .marked

instance [Fintype T] : DecidablePred s.Enabled
  | .test _ | .clear _ _ | .notifyOne _ none | .notifyOne _ (some _) | .store _ _ | .mark _ =>
    inferInstanceAs (Decidable (_ ∧ _))
  | .block _ | .assign _ | .wake _ | .lower _ | .notifyAll _ => inferInstanceAs (Decidable (_ = _))

/-- The state after a step. -/
def next : Action T n → Resource T n
  | .test t =>
    { s.setPhase t (if s.predicate then .admitted else .refused) with mutex := some t }
  | .block t => { s.setPhase t .blocked with mutex := none }
  | .assign t =>
    if s.poisoned then { s.setPhase t .outside with mutex := none }
    else
      match s.search with
      | none => { s.setPhase t .failed with mutex := none }
      | some i =>
        { s.setPhase t .outside with
          flag := update s.flag i .assigned
          concurrence := s.concurrence + 1
          held := update s.held t (insert i (s.held t))
          mutex := none }
  | .wake t => s.setPhase t .woken
  | .clear t i =>
    if s.flag i = .poisoned then { s with held := s.drop t i }
    else
      { s.setPhase t .cleared with
        flag := update s.flag i .free
        held := s.drop t i }
  | .lower t => { s.setPhase t .lowered with concurrence := s.concurrence - 1 }
  | .notifyOne t woken =>
    match woken with
    | none => s.setPhase t .outside
    | some u => (s.setPhase t .outside).setPhase u .woken
  | .store t i => { s.setPhase t (.poisoning i) with poisoned := true }
  | .mark t =>
    match s.phase t with
    | .poisoning i =>
      { s.setPhase t .marked with
        flag := if s.flag i = .assigned then update s.flag i .poisoned else s.flag
        held := s.drop t i }
    | _ => s
  | .notifyAll t =>
    { s with phase := fun u =>
        if u = t then .outside else if s.phase u = .blocked then .woken else s.phase u }

/-- One step of some thread. -/
def Step (s s' : Resource T n) : Prop := ∃ a, s.Enabled a ∧ s' = s.next a

/-- The states of all interleavings. -/
def Reaches : Resource T n → Resource T n → Prop := Relation.ReflTransGen Step

/-- The steps of one interleaving are possible in turn. -/
def possible [Fintype T] : Resource T n → List (Action T n) → Bool
  | _, [] => true
  | s, a :: as => decide (s.Enabled a) && possible (s.next a) as

lemma reaches_foldl [Fintype T] {as : List (Action T n)} {s : Resource T n} (h : s.possible as) :
    Reaches s (as.foldl next s) := by
  induction as generalizing s with
  | nil => exact .refl
  | cons a as ih =>
    obtain ⟨hen, hrest⟩ := by simpa only [possible, Bool.and_eq_true, decide_eq_true_eq] using h
    exact .head ⟨a, hen, rfl⟩ (ih hrest)

/-! ### What every step keeps -/

variable [Fintype T]

/-- The invariant of the pool. A thread has the mutex only if it owns it; the assigned indices are
those that threads hold, each held by one thread; the counter counts the flags that are set and the
frees that are between their two updates; and a thread that was admitted finds an index. -/
structure Inv : Prop where
  owner : ∀ t, (s.phase t).HasMutex → s.mutex = some t
  assigned_iff : ∀ i, s.flag i = .assigned ↔ ∃ t, i ∈ s.held t
  exclusive : ∀ t u i, i ∈ s.held t → i ∈ s.held u → t = u
  poisoning : ∀ t i, s.phase t = .poisoning i → i ∈ s.held t ∧ s.poisoned
  marked : ∀ t, s.phase t = .marked → s.poisoned
  count : s.concurrence = tally s.flag (· ≠ .free) + tally s.phase (· = .cleared)
  room : ∀ t, s.phase t = .admitted → s.poisoned = false → ∃ i, s.flag i = .free
  searched : ∀ t, s.phase t ≠ .failed

omit [DecidableEq T] in
lemma inv_init : (init T n).Inv where
  owner := by simp [init, Phase.HasMutex]
  assigned_iff := by simp [init]
  exclusive := by simp [init]
  poisoning := by simp [init]
  marked := by simp [init]
  count := by
    have hflags : tally (init T n).flag (· ≠ .free) = 0 := tally_eq_zero fun _ h => h rfl
    have hphases : tally (init T n).phase (· = .cleared) = 0 := tally_eq_zero fun _ h => nomatch h
    rw [hflags, hphases]
    rfl
  room := by simp [init]
  searched := by simp [init]

namespace Inv

variable {s : Resource T n} (h : s.Inv)
include h

variable {i : Fin n} {p : Phase n} {t : T}

omit [DecidableEq T] in
/-- There is a free index when the counter is below the number of buffers. -/
lemma exists_free (hlt : s.concurrence < n) : ∃ i, s.flag i = .free := by
  have hcount := h.count
  obtain ⟨i, hi⟩ := exists_not_of_tally_lt (f := s.flag) (p := (· ≠ .free))
    (by rw [Fintype.card_fin]; omega)
  exact ⟨i, not_not.1 hi⟩

omit [DecidableEq T] in
/-- A thread whose mutex nobody owns is outside of the section of `assignBufferIndex`. -/
lemma not_hasMutex (hmutex : s.mutex = none) (t : T) : ¬ (s.phase t).HasMutex := by
  intro ht
  have := h.owner t ht
  simp [hmutex] at this

/-- A thread goes on to a phase that says nothing about the flags; another one may give the mutex
up or take it. -/
lemma setPhase {m : Option T} {c : ℤ} (hm : p.HasMutex → m = some t)
    (hothers : ∀ u, u ≠ t → (s.phase u).HasMutex → m = some u)
    (hpoisoning : ∀ i, p ≠ .poisoning i) (hmarked : p ≠ .marked) (hfailed : p ≠ .failed)
    (hcleared : c + (if s.phase t = .cleared then 1 else 0)
      = s.concurrence + if p = .cleared then 1 else 0)
    (hroom : p = .admitted → s.poisoned = false → ∃ i, s.flag i = .free) :
    ({ s.setPhase t p with mutex := m, concurrence := c } : Resource T n).Inv where
  owner u hu := by
    dsimp only [Resource.setPhase] at hu
    obtain rfl | hne := eq_or_ne u t
    · rw [update_self] at hu
      exact hm hu
    · rw [update_of_ne hne] at hu
      exact hothers u hne hu
  assigned_iff := h.assigned_iff
  exclusive := h.exclusive
  poisoning u i hu := by
    dsimp only [Resource.setPhase] at hu
    rw [update_apply] at hu
    split_ifs at hu
    · exact absurd hu (hpoisoning i)
    · exact h.poisoning u i hu
  marked u hu := by
    dsimp only [Resource.setPhase] at hu
    rw [update_apply] at hu
    split_ifs at hu
    · exact absurd hu hmarked
    · exact h.marked u hu
  count := by
    have hcount := h.count
    have htally := tally_update (p := (· = .cleared)) s.phase t p
    dsimp only [Resource.setPhase]
    split_ifs at hcleared htally <;> omega
  room u hu := by
    dsimp only [Resource.setPhase] at hu ⊢
    rw [update_apply] at hu
    split_ifs at hu
    · exact hroom hu
    · exact h.room u hu
  searched u hu := by
    dsimp only [Resource.setPhase] at hu
    rw [update_apply] at hu
    split_ifs at hu
    · exact hfailed hu
    · exact h.searched u hu

lemma test (hen : s.Enabled (.test t)) : (s.next (.test t)).Inv := by
  obtain ⟨hphase, hmutex⟩ := hen
  refine h.setPhase (fun _ => rfl) (fun u _ hu => absurd hu (h.not_hasMutex hmutex u)) ?_ ?_ ?_ ?_
    ?_
  · split_ifs <;> simp
  · split_ifs <;> simp
  · split_ifs <;> simp
  · obtain hphase | hphase := hphase <;> by_cases hpred : s.predicate <;> simp [hphase, hpred]
  · intro hp hpoisoned
    have hpred : s.predicate := by
      by_contra hpred
      simp [hpred] at hp
    simp only [predicate, hpoisoned, Bool.false_or, Bool.and_eq_true, decide_eq_true_eq] at hpred
    exact h.exists_free hpred.2

lemma block (hen : s.Enabled (.block t)) : (s.next (.block t)).Inv := by
  change s.phase t = .refused at hen
  refine h.setPhase (by simp [Phase.HasMutex]) (fun u hne hu => ?_) (by simp) (by simp) (by simp)
    (by simp [hen]) (by simp)
  have := h.owner u hu
  rw [h.owner t (.inr hen), some.injEq] at this
  exact absurd this.symm hne

lemma wake (hen : s.Enabled (.wake t)) : (s.next (.wake t)).Inv := by
  change s.phase t = .blocked at hen
  exact h.setPhase (by simp [Phase.HasMutex]) (fun u _ => h.owner u) (by simp) (by simp) (by simp)
    (by simp [hen]) (by simp)

lemma lower (hen : s.Enabled (.lower t)) : (s.next (.lower t)).Inv := by
  change s.phase t = .cleared at hen
  exact h.setPhase (by simp [Phase.HasMutex]) (fun u _ => h.owner u) (by simp) (by simp) (by simp)
    (by simp [hen]) (by simp)

/-- A phase that has neither the mutex nor a flag to look after. -/
lemma toPlain {q : Phase n} (hq : s.phase t = q) (hcleared : q ≠ .cleared)
    (hp : p = .outside ∨ p = .woken) : (s.setPhase t p).Inv := by
  obtain rfl | rfl := hp <;>
    exact h.setPhase (by simp [Phase.HasMutex]) (fun u _ => h.owner u) (by simp) (by simp) (by simp)
      (by simp [hq, hcleared]) (by simp)

lemma notifyOne {woken : Option T} (hen : s.Enabled (.notifyOne t woken)) :
    (s.next (.notifyOne t woken)).Inv := by
  cases woken with
  | none => exact h.toPlain hen.1 (by simp) (.inl rfl)
  | some u =>
    obtain ⟨ht, hu⟩ := hen
    have hne : u ≠ t := by
      rintro rfl
      simp [ht] at hu
    refine (h.toPlain ht (by simp) (.inl rfl)).toPlain (q := .blocked) ?_ (by simp) (.inr rfl)
    rw [setPhase_phase, update_of_ne hne, hu]

lemma store (hen : s.Enabled (.store t i)) : (s.next (.store t i)).Inv := by
  obtain ⟨hphase, hheld⟩ := hen
  have hother : ∀ {u p}, (s.next (.store t i)).phase u = p → p ≠ .poisoning i → s.phase u = p := by
    intro u p hu hp
    dsimp only [next, Resource.setPhase] at hu
    rw [update_apply] at hu
    split_ifs at hu
    · exact absurd hu.symm hp
    · exact hu
  refine ⟨fun u hu => ?_, h.assigned_iff, h.exclusive, fun u j hu => ⟨?_, rfl⟩, fun u _ => rfl, ?_,
    fun u _ hfalse => Bool.noConfusion hfalse, fun u hu => h.searched u (hother hu (by simp))⟩
  · exact h.owner u (hu.imp (hother · (by simp)) (hother · (by simp)))
  · dsimp only [next, Resource.setPhase] at hu ⊢
    rw [update_apply] at hu
    split_ifs at hu with hut
    · obtain rfl := Phase.poisoning.inj hu
      exact hut ▸ hheld
    · exact (h.poisoning u j hu).1
  · have hcount := h.count
    have htally := tally_update (p := (· = .cleared)) s.phase t (.poisoning i)
    simp only [hphase, reduceCtorEq, if_false, add_zero] at htally
    dsimp only [next, Resource.setPhase]
    omega

lemma notifyAll (hen : s.Enabled (.notifyAll t)) : (s.next (.notifyAll t)).Inv := by
  change s.phase t = .marked at hen
  have hother : ∀ {u p}, (s.next (.notifyAll t)).phase u = p → p ≠ .outside → p ≠ .woken →
      s.phase u = p := by
    intro u p hu hp hp'
    dsimp only [next] at hu
    split_ifs at hu
    · exact absurd hu.symm hp
    · exact absurd hu.symm hp'
    · exact hu
  refine ⟨fun u hu => ?_, h.assigned_iff, h.exclusive,
    fun u i hu => h.poisoning u i (hother hu (by simp) (by simp)),
    fun u hu => h.marked u (hother hu (by simp) (by simp)), ?_,
    fun u hu => h.room u (hother hu (by simp) (by simp)),
    fun u hu => h.searched u (hother hu (by simp) (by simp))⟩
  · exact h.owner u (hu.imp (hother · (by simp) (by simp)) (hother · (by simp) (by simp)))
  · rw [show (s.next (.notifyAll t)).concurrence = s.concurrence from rfl, h.count]
    congr 2
    refine tally_congr fun u => ⟨fun hu => ?_, fun hu => hother hu (by simp) (by simp)⟩
    dsimp only [next]
    rw [if_neg (by rintro rfl; simp [hen] at hu), if_neg (by simp [hu]), hu]

omit [DecidableEq T] in
lemma flag_of_mem (hheld : i ∈ s.held t) : s.flag i = .assigned := (h.assigned_iff i).2 ⟨t, hheld⟩

/-- The rest of the section of `assignBufferIndex` takes a free index. -/
lemma take {t : T} {i : Fin n} (hphase : s.phase t = .admitted) (hfree : s.flag i = .free) :
    ({ s.setPhase t .outside with
      flag := update s.flag i .assigned
      concurrence := s.concurrence + 1
      held := update s.held t (insert i (s.held t))
      mutex := none } : Resource T n).Inv := by
  have hnone : ∀ u, i ∉ s.held u := fun u hu => by simp [h.flag_of_mem hu] at hfree
  have hmem : ∀ u j, j ∈ update s.held t (insert i (s.held t)) u
      ↔ j ∈ s.held u ∨ u = t ∧ j = i := by
    intro u j
    obtain rfl | hne := eq_or_ne u t
    · simp [or_comm]
    · simp [hne]
  have hother : ∀ {u p}, update s.phase t .outside u = p → p ≠ .outside →
      u ≠ t ∧ s.phase u = p := by
    intro u p hu hp
    rw [update_apply] at hu
    split_ifs at hu with hut
    · exact absurd hu.symm hp
    · exact ⟨hut, hu⟩
  -- The other threads are not in the section.
  have hlone : ∀ u, u ≠ t → ¬ (s.phase u).HasMutex := by
    intro u hne hu
    have hsome := h.owner u hu
    rw [h.owner t (.inl hphase), some.injEq] at hsome
    exact hne hsome.symm
  refine ⟨fun u hu => ?_, fun j => ?_, fun u v j hu hv => ?_, fun u j hu => ?_,
    fun u hu => h.marked u (hother hu (by simp)).2, ?_, fun u hu => ?_,
    fun u hu => h.searched u (hother hu (by simp)).2⟩
  · obtain hu | hu := hu
    · exact absurd (.inl (hother hu (by simp)).2) (hlone u (hother hu (by simp)).1)
    · exact absurd (.inr (hother hu (by simp)).2) (hlone u (hother hu (by simp)).1)
  · simp only [hmem]
    obtain rfl | hne := eq_or_ne j i
    · simp
    · simp [hne, h.assigned_iff]
  · rw [hmem] at hu hv
    obtain hu | ⟨rfl, rfl⟩ := hu <;> obtain hv | ⟨rfl, hv⟩ := hv
    · exact h.exclusive u v j hu hv
    · exact absurd (hv ▸ hu) (hnone u)
    · exact absurd hv (hnone v)
    · rfl
  · obtain ⟨hj, hpoisoned⟩ := h.poisoning u j (hother hu (by simp)).2
    exact ⟨(hmem u j).2 (.inl hj), hpoisoned⟩
  · have hcount := h.count
    have hflags := tally_update (p := (· ≠ .free)) s.flag i .assigned
    have hphases := tally_update (p := (· = .cleared)) s.phase t .outside
    rw [if_neg (not_not.2 hfree), if_pos (by simp)] at hflags
    rw [if_neg (by simp [hphase]), if_neg (by simp)] at hphases
    dsimp only [setPhase_phase]
    omega
  · exact absurd (.inl (hother hu (by simp)).2) (hlone u (hother hu (by simp)).1)

lemma assign (hen : s.Enabled (.assign t)) : (s.next (.assign t)).Inv := by
  change s.phase t = .admitted at hen
  dsimp only [next]
  split_ifs with hpoisoned
  · refine h.setPhase (by simp [Phase.HasMutex]) (fun u hne hu => ?_) (by simp) (by simp) (by simp)
      (by simp [hen]) (by simp)
    have hsome := h.owner u hu
    rw [h.owner t (.inl hen), some.injEq] at hsome
    exact absurd hsome.symm hne
  · obtain ⟨i, hi⟩ := h.room t hen (by simpa using hpoisoned)
    cases hsearch : s.search with
    | none =>
      have := find?_eq_none.1 hsearch i (mem_finRange i)
      simp [hi] at this
    | some j => exact h.take hen (by simpa using find?_some hsearch)

/-- An index that a thread holds is freed or poisoned in a section of its own. -/
lemma give {f : IndexFlag} (hmutex : s.mutex = none)
    (hheld : i ∈ s.held t) (hphase : s.phase t ≠ .cleared)
    (hp : p = .cleared ∧ f = .free ∨ p = .marked ∧ f = .poisoned ∧ s.poisoned) :
    ({ s.setPhase t p with
      flag := update s.flag i f
      held := s.drop t i } : Resource T n).Inv := by
  have hf : f ≠ .assigned := by obtain ⟨-, rfl⟩ | ⟨-, rfl, -⟩ := hp <;> simp
  have hpcases : p = .cleared ∨ p = .marked := hp.imp And.left And.left
  have hother : ∀ {u q}, update s.phase t p u = q → q ≠ .cleared → q ≠ .marked →
      u ≠ t ∧ s.phase u = q := by
    intro u q hu hq hq'
    rw [update_apply] at hu
    split_ifs at hu with hut
    · obtain rfl | rfl := hpcases
      · exact absurd hu.symm hq
      · exact absurd hu.symm hq'
    · exact ⟨hut, hu⟩
  refine ⟨fun u hu => ?_, fun j => ?_, fun u v j hu hv => ?_, fun u j hu => ?_, fun u hu => ?_, ?_,
    fun u hu => ?_, fun u hu => h.searched u (hother hu (by simp) (by simp)).2⟩
  · exact absurd (hu.imp (hother · (by simp) (by simp) |>.2) (hother · (by simp) (by simp) |>.2))
      (h.not_hasMutex hmutex u)
  · simp only [mem_drop]
    obtain rfl | hne := eq_or_ne j i
    · rw [update_self, iff_false_left hf]
      exact fun ⟨u, hu, hne⟩ => hne ⟨h.exclusive u t j hu hheld, rfl⟩
    · simp [hne, h.assigned_iff]
  · exact h.exclusive u v j ((mem_drop _ _ _ _ _).1 hu).1 ((mem_drop _ _ _ _ _).1 hv).1
  · obtain ⟨hne, hu⟩ := hother hu (by simp) (by simp)
    obtain ⟨hj, hpoisoned⟩ := h.poisoning u j hu
    exact ⟨(mem_drop _ _ _ _ _).2 ⟨hj, fun hand => hne hand.1⟩, hpoisoned⟩
  · dsimp only [setPhase_phase] at hu
    rw [update_apply] at hu
    split_ifs at hu
    · obtain ⟨rfl, -⟩ | ⟨-, -, hpoisoned⟩ := hp
      · cases hu
      · exact hpoisoned
    · exact h.marked u hu
  · have hcount := h.count
    have hflags := tally_update (p := (· ≠ .free)) s.flag i f
    have hphases := tally_update (p := (· = .cleared)) s.phase t p
    rw [if_pos (by simp [h.flag_of_mem hheld])] at hflags
    rw [if_neg hphase] at hphases
    dsimp only [setPhase_phase, setPhase_concurrence]
    obtain ⟨rfl, rfl⟩ | ⟨rfl, rfl, -⟩ := hp
    · rw [if_neg (not_not.2 rfl)] at hflags
      rw [if_pos rfl] at hphases
      omega
    · rw [if_pos (by simp)] at hflags
      rw [if_neg (by simp)] at hphases
      omega
  · exact absurd (.inl (hother hu (by simp) (by simp)).2) (h.not_hasMutex hmutex u)

lemma clear (hen : s.Enabled (.clear t i)) : (s.next (.clear t i)).Inv := by
  obtain ⟨hphase, hheld, hmutex⟩ := hen
  dsimp only [next]
  rw [if_neg (by simp [h.flag_of_mem hheld])]
  exact h.give hmutex hheld (by simp [hphase]) (.inl ⟨rfl, rfl⟩)

lemma mark (hen : s.Enabled (.mark t)) : (s.next (.mark t)).Inv := by
  obtain ⟨⟨i, hphase⟩, hmutex⟩ := hen
  obtain ⟨hheld, hpoisoned⟩ := h.poisoning t i hphase
  dsimp only [next]
  rw [hphase]
  dsimp only
  rw [if_pos (h.flag_of_mem hheld)]
  exact h.give hmutex hheld (by simp [hphase]) (.inr ⟨rfl, rfl, hpoisoned⟩)

/-- **Every step keeps the invariant.** -/
theorem step {s' : Resource T n} (hstep : Step s s') : s'.Inv := by
  obtain ⟨a, hen, rfl⟩ := hstep
  cases a with
  | test t => exact h.test hen
  | block t => exact h.block hen
  | assign t => exact h.assign hen
  | wake t => exact h.wake hen
  | clear t i => exact h.clear hen
  | lower t => exact h.lower hen
  | notifyOne t woken => exact h.notifyOne hen
  | store t i => exact h.store hen
  | mark t => exact h.mark hen
  | notifyAll t => exact h.notifyAll hen

end Inv

/-- **The invariant holds in every interleaving.** -/
theorem inv_of_reaches {s : Resource T n} (h : Reaches (init T n) s) : s.Inv := by
  induction h with
  | refl => exact inv_init
  | tail _ hstep ih => exact ih.step hstep

end Resource

end TrtLlm.TransBuffer
