import TrtLlm.Util.Buckets

/-!
`PerLevelEvictionController`: the pages of a cache level that may be evicted, in one queue for
each pool group, by priority and then by the time they were scheduled (`evictionController.cpp`).

Pages are numbers.  The node reference of a page is kept as the bucket its node is in.

* `Inv`: a page's node reference is the bucket that holds it, once;
* `Inv.evictGroups`: an eviction takes the first pages of every group, or puts back what it took;
* `eviction_safe`: both, in every state of every run.
-/

namespace TrtLlm

open List Function Option

/-- The members of `Page` that the controller reads and writes. -/
structure EvictPage where
  lifeCycle : ℕ
  priority : ℤ
  nodeRef : Option (ℕ × ℤ)
deriving DecidableEq

/-- The exceptions; `emptyQueue` stands for a pop without an element. -/
inductive EvictError where
  | logic
  | outOfPages
  | emptyQueue
deriving DecidableEq

/-- `PerLevelEvictionController`, with the pages it is given; one policy for each pool group. -/
structure EvictionController where
  mLifeCycleGrouping : List ℕ
  mPolicies : ℕ → Buckets ℤ ℕ
  pages : ℕ → EvictPage

namespace EvictionController

/-- The number of pool groups: one more than the largest. -/
def numPoolGroups (c : EvictionController) : ℕ :=
  c.mLifeCycleGrouping.foldl (fun n g => if n < g + 1 then g + 1 else n) 0

/-- The pool group of a page, by its life cycle. -/
def groupOf (c : EvictionController) (x : ℕ) : ℕ :=
  c.mLifeCycleGrouping.getD (c.pages x).lifeCycle 0

/-- The size of the policy of a pool group. -/
def size (c : EvictionController) (g : ℕ) : ℕ := ((c.mPolicies g).map fun e => e.2.length).sum

def scheduleForEviction (x : ℕ) (evictFirst : Bool) (c : EvictionController) : EvictionController :=
  let g := c.groupOf x
  let p := (c.pages x).priority
  { c with
    mPolicies := update c.mPolicies g ((c.mPolicies g).push p x evictFirst)
    pages := update c.pages x { c.pages x with nodeRef := some (g, p) } }

/-- `remove`, with the node of page `x`. -/
def remove (x : ℕ) (c : EvictionController) : EvictionController :=
  let g := c.groupOf x
  { c with
    mPolicies := update c.mPolicies g ((c.mPolicies g).remove (c.pages x).priority x)
    pages := update c.pages x { c.pages x with nodeRef := none } }

def kPriorityMin : ℤ := 0

def kPriorityMax : ℤ := 100

/-- `StorageManager::updatePriority` of a page of this level; `none` when its check fails. -/
def updatePriority (x : ℕ) (priority : ℤ) (c : EvictionController) : Option EvictionController :=
  if ¬ (kPriorityMin ≤ priority ∧ priority ≤ kPriorityMax) then none
  else if priority = (c.pages x).priority then some c
  else
    let queued := (c.pages x).nodeRef.isSome
    let c := if queued then c.remove x else c
    let c := { c with pages := update c.pages x { c.pages x with priority := priority } }
    some (if queued then c.scheduleForEviction x false else c)

/-- A pop of the policy of a pool group. -/
def popPage (g : ℕ) (c : EvictionController) : Option (ℕ × EvictionController) :=
  match (c.mPolicies g).pop with
  | none => none
  | some (x, b) =>
    some (x, { c with
      mPolicies := update c.mPolicies g b
      pages := update c.pages x { c.pages x with nodeRef := none } })

/-- The loop of `evict` for one pool group, until `n` more pages are popped. -/
def popLoop (g : ℕ) : ℕ → List ℕ → EvictionController → Option (List ℕ × EvictionController)
  | 0, group, c => some (group, c)
  | n + 1, group, c =>
    match c.popPage g with
    | none => none
    | some (x, c) => popLoop g n (group ++ [x]) c

/-- The handler of `evict`: the pages of all groups back to the front, last first. -/
def requeue (ret : List (List ℕ)) (c : EvictionController) : EvictionController :=
  ret.flatten.reverse.foldl (fun c x => c.scheduleForEviction x true) c

/-- The loop of `evict` over the pool groups that are left, after those of `ret`. -/
def evictGroups (minNumPages : ℕ → ℤ) :
    List ℕ → List (List ℕ) → EvictionController →
      Except EvictError (List (List ℕ)) × EvictionController
  | [], ret, c => (.ok ret, c)
  | g :: gs, ret, c =>
    if minNumPages g < 0 then (.error .logic, c.requeue ret)
    else if (c.size g : ℤ) < minNumPages g then (.error .outOfPages, c.requeue ret)
    else
      match c.popLoop g (minNumPages g).toNat [] with
      | none => (.error .emptyQueue, c)
      | some (group, c) => evictGroups minNumPages gs (ret ++ [group]) c

def evict (minNumPages : ℕ → ℤ) (c : EvictionController) :
    Except EvictError (List (List ℕ)) × EvictionController :=
  evictGroups minNumPages (range c.numPoolGroups) [] c

/-! ### The invariant -/

/-- The bucket of a priority in the policy of a pool group. -/
def queue (c : EvictionController) (g : ℕ) (p : ℤ) : List ℕ := (c.mPolicies g).bucket p

/-- The pages of a pool group in the order in which they are evicted. -/
def order (c : EvictionController) (g : ℕ) : List ℕ := (c.mPolicies g).flat

/-- The invariant, for pages that were scheduled in the order of their stamps: a node reference
names the bucket that holds the page, which is that of its pool group and priority, and each
bucket is in the order of the stamps. -/
structure Inv (stamp : ℕ → ℤ) (c : EvictionController) : Prop where
  wf : ∀ g, (c.mPolicies g).WF
  queued : ∀ g p x, x ∈ c.queue g p ↔ (c.pages x).nodeRef = some (g, p)
  place : ∀ x g p, (c.pages x).nodeRef = some (g, p) → g = c.groupOf x ∧ p = (c.pages x).priority
  sorted : ∀ g p, (c.queue g p).Pairwise fun x y => stamp x < stamp y

lemma size_eq (c : EvictionController) (g : ℕ) : c.size g = (c.order g).length := by
  rw [size, order, Buckets.flat, length_flatMap]

section
variable {stamp : ℕ → ℤ} {c : EvictionController}

/-! ### One page -/

variable {c c' : EvictionController} {g x y : ℕ}

@[simp] lemma pages_scheduleForEviction_self (x : ℕ) (evictFirst : Bool) :
    (c.scheduleForEviction x evictFirst).pages x
      = { c.pages x with nodeRef := some (c.groupOf x, (c.pages x).priority) } :=
  update_self ..

lemma pages_scheduleForEviction_of_ne (h : y ≠ x) (evictFirst : Bool) :
    (c.scheduleForEviction x evictFirst).pages y = c.pages y :=
  update_of_ne h ..

@[simp] lemma groupOf_scheduleForEviction (x : ℕ) (evictFirst : Bool) (y : ℕ) :
    (c.scheduleForEviction x evictFirst).groupOf y = c.groupOf y := by
  have hlife : ((c.scheduleForEviction x evictFirst).pages y).lifeCycle
      = (c.pages y).lifeCycle := by
    by_cases h : y = x
    · subst h
      rw [pages_scheduleForEviction_self]
    · rw [pages_scheduleForEviction_of_ne h]
  rw [groupOf, hlife]
  rfl

lemma queue_scheduleForEviction (h : c.Inv stamp) (x : ℕ) (evictFirst : Bool) (g : ℕ) (p : ℤ) :
    (c.scheduleForEviction x evictFirst).queue g p
      = if g = c.groupOf x ∧ p = (c.pages x).priority then Buckets.join evictFirst x (c.queue g p)
        else c.queue g p := by
  simp only [queue, scheduleForEviction]
  by_cases hg : g = c.groupOf x
  · subst hg
    rw [update_self, Buckets.bucket_push (h.wf _)]
    by_cases hp : p = (c.pages x).priority
    · subst hp
      simp
    · simp [hp]
  · rw [update_of_ne hg, if_neg (fun hc => hg hc.1)]

lemma mem_join {front : Bool} {l : List ℕ} : y ∈ Buckets.join front x l ↔ y = x ∨ y ∈ l := by
  cases front <;> simp [Buckets.join, or_comm]

/-- **Scheduling** a page that is in no queue, at a time before or after all others. -/
lemma Inv.scheduleForEviction (h : c.Inv stamp) (hx : (c.pages x).nodeRef = none)
    {evictFirst : Bool} {t : ℤ} (ht : ∀ y, if evictFirst then t < stamp y else stamp y < t) :
    (c.scheduleForEviction x evictFirst).Inv (update stamp x t) := by
  have hnot : ∀ g p, x ∉ c.queue g p := by
    intro g p hmem
    rw [h.queued, hx] at hmem
    cases hmem
  have hstamp : ∀ g p, ∀ y ∈ c.queue g p, update stamp x t y = stamp y := by
    intro g p y hy
    exact update_of_ne (fun heq : y = x => hnot g p (heq ▸ hy)) ..
  have hold : ∀ g p, (c.queue g p).Pairwise fun y z =>
      update stamp x t y < update stamp x t z := by
    intro g p
    refine (h.sorted g p).imp_of_mem fun {y z} hy hz hyz => ?_
    rwa [hstamp g p y hy, hstamp g p z hz]
  refine ⟨?_, ?_, ?_, ?_⟩
  · intro g
    by_cases hg : g = c.groupOf x
    · subst hg
      simp only [EvictionController.scheduleForEviction, update_self]
      exact (h.wf _).push _ _ _
    · simp only [EvictionController.scheduleForEviction, update_of_ne hg]
      exact h.wf g
  · intro g p y
    rw [queue_scheduleForEviction h]
    by_cases hy : y = x
    · subst hy
      rw [pages_scheduleForEviction_self, some.injEq, Prod.mk.injEq]
      split_ifs with hp
      · rw [mem_join]
        simp [hp]
      · simp only [hnot, false_iff]
        rintro ⟨rfl, rfl⟩
        exact hp ⟨rfl, rfl⟩
    · rw [pages_scheduleForEviction_of_ne hy, ← h.queued]
      split_ifs with hp
      · rw [mem_join, or_iff_right hy]
      · rfl
  · intro y g p hy
    rw [groupOf_scheduleForEviction]
    by_cases hyx : y = x
    · subst hyx
      rw [pages_scheduleForEviction_self, some.injEq, Prod.mk.injEq] at hy
      rw [pages_scheduleForEviction_self]
      exact ⟨hy.1.symm, hy.2.symm⟩
    · rw [pages_scheduleForEviction_of_ne hyx] at hy ⊢
      exact h.place y g p hy
  · intro g p
    rw [queue_scheduleForEviction h]
    split_ifs with hp
    · cases evictFirst with
      | true =>
        refine pairwise_cons.mpr ⟨fun y hy => ?_, hold g p⟩
        rw [update_self, hstamp g p y hy]
        exact ht y
      | false =>
        refine pairwise_append.mpr ⟨hold g p, pairwise_singleton _ _, fun y hy z hz => ?_⟩
        obtain rfl := mem_singleton.mp hz
        rw [update_self, hstamp g p y hy]
        exact ht y
    · exact hold g p

@[simp] lemma pages_remove_self (x : ℕ) :
    (c.remove x).pages x = { c.pages x with nodeRef := none } :=
  update_self ..

lemma pages_remove_of_ne (h : y ≠ x) : (c.remove x).pages y = c.pages y := update_of_ne h ..

@[simp] lemma groupOf_remove (x y : ℕ) : (c.remove x).groupOf y = c.groupOf y := by
  have hlife : ((c.remove x).pages y).lifeCycle = (c.pages y).lifeCycle := by
    by_cases h : y = x
    · subst h
      rw [pages_remove_self]
    · rw [pages_remove_of_ne h]
  rw [groupOf, hlife]
  rfl

lemma Inv.nodup (h : c.Inv stamp) (g : ℕ) (p : ℤ) : (c.queue g p).Nodup :=
  (h.sorted g p).imp fun hlt heq => (heq ▸ hlt).ne rfl

lemma queue_remove (h : c.Inv stamp) (x : ℕ) (g : ℕ) (p : ℤ) :
    (c.remove x).queue g p = (c.queue g p).erase x := by
  simp only [queue, EvictionController.remove]
  have hnot : ¬ (g = c.groupOf x ∧ p = (c.pages x).priority) → x ∉ (c.mPolicies g).bucket p := by
    intro hne hmem
    have hmem : x ∈ c.queue g p := hmem
    exact hne (h.place x g p ((h.queued g p x).mp hmem))
  by_cases hg : g = c.groupOf x
  · subst hg
    rw [update_self, Buckets.bucket_remove (h.wf _)]
    split_ifs with hp
    · rw [hp]
    · rw [erase_of_not_mem (hnot fun hc => hp hc.2)]
  · rw [update_of_ne hg, erase_of_not_mem (hnot fun hc => hg hc.1)]

/-- **Excluding** a page from eviction. -/
lemma Inv.remove (h : c.Inv stamp) (x : ℕ) : (c.remove x).Inv stamp := by
  refine ⟨?_, ?_, ?_, ?_⟩
  · intro g
    by_cases hg : g = c.groupOf x
    · subst hg
      simp only [EvictionController.remove, update_self]
      exact (h.wf _).remove _ _
    · simp only [EvictionController.remove, update_of_ne hg]
      exact h.wf g
  · intro g p y
    rw [queue_remove h, (h.nodup g p).mem_erase_iff]
    by_cases hy : y = x
    · subst hy
      simp
    · rw [pages_remove_of_ne hy, ← h.queued]
      simp [hy]
  · intro y g p hy
    rw [groupOf_remove]
    by_cases hyx : y = x
    · subst hyx
      rw [pages_remove_self] at hy
      cases hy
    · rw [pages_remove_of_ne hyx] at hy ⊢
      exact h.place y g p hy
  · intro g p
    rw [queue_remove h]
    exact (h.sorted g p).sublist erase_sublist

/-- A new priority for a page that is in no queue. -/
lemma Inv.setPriority (h : c.Inv stamp) (hx : (c.pages x).nodeRef = none) (p : ℤ) :
    Inv stamp { c with pages := update c.pages x { c.pages x with priority := p } } := by
  have hnode : ∀ y, (update c.pages x { c.pages x with priority := p } y).nodeRef
      = (c.pages y).nodeRef := by
    intro y
    by_cases hy : y = x
    · subst hy
      rw [update_self]
    · rw [update_of_ne hy]
  refine ⟨h.wf, fun g q y => ?_, fun y g q hy => ?_, h.sorted⟩
  · rw [hnode]
    exact h.queued g q y
  · rw [hnode] at hy
    have hyx : y ≠ x := by
      rintro rfl
      rw [hx] at hy
      cases hy
    have := h.place y g q hy
    simp only [groupOf, update_of_ne hyx]
    exact this

/-! ### The order -/

lemma order_remove_sublist (x g : ℕ) : ((c.remove x).order g).Sublist (c.order g) := by
  simp only [order, EvictionController.remove]
  by_cases hg : g = c.groupOf x
  · subst hg
    rw [update_self]
    exact Buckets.flat_remove_sublist _ _ _
  · rw [update_of_ne hg]

/-- The pages of an order are those of its pool group that are in a queue. -/
lemma Inv.mem_order (h : c.Inv stamp) :
    x ∈ c.order g ↔ (c.pages x).nodeRef ≠ none ∧ c.groupOf x = g := by
  rw [order, Buckets.mem_flat (h.wf g)]
  constructor
  · rintro ⟨p, hx⟩
    have hnode := (h.queued g p x).mp hx
    exact ⟨by rw [hnode]; exact some_ne_none _, (h.place x g p hnode).1.symm⟩
  · rintro ⟨hne, rfl⟩
    obtain ⟨⟨g, p⟩, hnode⟩ := ne_none_iff_exists'.mp hne
    obtain ⟨rfl, -⟩ := h.place x g p hnode
    exact ⟨p, (h.queued _ p x).mpr hnode⟩

/-- The order of a pool group is by priority and then by the time of scheduling. -/
lemma Inv.order_pairwise (h : c.Inv stamp) (g : ℕ) : (c.order g).Pairwise fun x y =>
    (c.pages x).priority < (c.pages y).priority
      ∨ ((c.pages x).priority = (c.pages y).priority ∧ stamp x < stamp y) := by
  refine Buckets.flat_pairwise (h.wf g) (fun p x hx => ?_) (h.sorted g)
  exact (h.place x g p ((h.queued g p x).mp hx)).2.symm

lemma Inv.order_nodup (h : c.Inv stamp) (g : ℕ) : (c.order g).Nodup := by
  refine (h.order_pairwise g).imp fun {x y} hxy heq => ?_
  subst heq
  rcases hxy with hlt | ⟨-, hlt⟩
  · exact lt_irrefl _ hlt
  · exact lt_irrefl _ hlt

/-! ### Eviction -/

/-- What a pop does: the first page of the order leaves its queue, and to schedule it again as
the first one undoes the pop. -/
structure Popped (c : EvictionController) (g x : ℕ) (c' : EvictionController) : Prop where
  eq_remove : c' = c.remove x
  order_eq : c.order g = x :: c'.order g
  others : ∀ g', g' ≠ g → c'.mPolicies g' = c.mPolicies g'
  undo : c'.scheduleForEviction x true = c

lemma Inv.popPage (h : c.Inv stamp) (hpop : c.popPage g = some (x, c')) : c.Popped g x c' := by
  unfold EvictionController.popPage at hpop
  split at hpop
  · cases hpop
  · rename_i y b hb
    rw [some.injEq, Prod.mk.injEq] at hpop
    obtain ⟨rfl, rfl⟩ := hpop
    obtain ⟨p, hbucket, -⟩ := Buckets.bucket_of_pop (h.wf g) hb
    have hmem : y ∈ c.queue g p := by
      rw [queue, hbucket]
      exact mem_cons_self
    have hnode := (h.queued g p y).mp hmem
    obtain ⟨hg, hp⟩ := h.place y g p hnode
    have honce : ∀ q, y ∈ (c.mPolicies g).bucket q → q = p := by
      intro q hq
      have hq : y ∈ c.queue g q := hq
      rw [h.queued, hnode] at hq
      cases hq
      rfl
    refine ⟨?_, ?_, fun g' hg' => update_of_ne hg' .., ?_⟩
    · simp only [EvictionController.remove, ← hg, ← hp, Buckets.remove_of_pop hb honce]
    · simp only [order, update_self]
      exact Buckets.flat_of_pop hb
    · have hpush : b.push p y true = c.mPolicies g := Buckets.push_of_pop (h.wf g) hb hmem honce
      have hpage : EvictPage.mk (c.pages y).lifeCycle p (some (g, p)) = c.pages y := by
        rw [← hnode, hp]
      have hgroup : c.mLifeCycleGrouping.getD (c.pages y).lifeCycle 0 = g := hg.symm
      simp only [EvictionController.scheduleForEviction, groupOf, update_self,
        update_idem, hgroup, ← hp, hpush, update_eq_self]
      rw [hpage, update_eq_self]

lemma Inv.popPage_isSome (h : c.Inv stamp) (hne : c.order g ≠ []) :
    ∃ x c', c.popPage g = some (x, c') := by
  obtain ⟨x, b, hb⟩ := Buckets.pop_isSome (h.wf g) hne
  rw [EvictionController.popPage, hb]
  exact ⟨_, _, rfl⟩

/-- **One pool group**: the loop pops the first pages of the order, and to schedule them again
as the first ones, the last of them first, undoes it. -/
lemma Inv.popLoop (h : c.Inv stamp) {n : ℕ} (hn : n ≤ (c.order g).length) (group : List ℕ) :
    ∃ c', c.popLoop g n group = some (group ++ (c.order g).take n, c') ∧ c'.Inv stamp
      ∧ c'.order g = (c.order g).drop n ∧ (∀ g', g' ≠ g → c'.mPolicies g' = c.mPolicies g')
      ∧ ((c.order g).take n).reverse.foldl (fun c x => c.scheduleForEviction x true) c' = c := by
  induction n generalizing c group with
  | zero => exact ⟨c, by rw [take_zero, append_nil]; rfl, h, rfl, fun _ _ => rfl, rfl⟩
  | succ n ih =>
    obtain ⟨x, c₁, hpop⟩ :=
      h.popPage_isSome (ne_nil_of_length_pos (by omega : 0 < (c.order g).length))
    have hp := h.popPage hpop
    have h₁ : c₁.Inv stamp := hp.eq_remove ▸ h.remove x
    rw [hp.order_eq, length_cons] at hn
    obtain ⟨c', hloop, hinv, horder, hothers, hundo⟩ := ih h₁ (by omega) (group ++ [x])
    refine ⟨c', ?_, hinv, ?_, fun g' hg' => ?_, ?_⟩
    · rw [EvictionController.popLoop, hpop, hp.order_eq, take_succ_cons]
      dsimp only
      rw [hloop, append_assoc, singleton_append]
    · rw [horder, hp.order_eq, drop_succ_cons]
    · rw [hothers g' hg', hp.others g' hg']
    · rw [hp.order_eq, take_succ_cons, reverse_cons, foldl_append, hundo]
      exact hp.undo

/-- The pages are in the same pool groups. -/
structure SameGroups (c c' : EvictionController) : Prop where
  grouping : c'.mLifeCycleGrouping = c.mLifeCycleGrouping
  lifeCycle : ∀ x, (c'.pages x).lifeCycle = (c.pages x).lifeCycle

lemma SameGroups.groupOf (h : c.SameGroups c') (x : ℕ) : c'.groupOf x = c.groupOf x := by
  rw [EvictionController.groupOf, EvictionController.groupOf, h.grouping, h.lifeCycle]

lemma SameGroups.numPoolGroups (h : c.SameGroups c') : c'.numPoolGroups = c.numPoolGroups := by
  rw [EvictionController.numPoolGroups, EvictionController.numPoolGroups, h.grouping]

lemma SameGroups.refl (c : EvictionController) : c.SameGroups c := ⟨rfl, fun _ => rfl⟩

lemma SameGroups.trans {c'' : EvictionController} (h : c.SameGroups c') (h' : c'.SameGroups c'') :
    c.SameGroups c'' :=
  ⟨h'.grouping.trans h.grouping, fun x => (h'.lifeCycle x).trans (h.lifeCycle x)⟩

/-- A page with another place in the queues is in the pool group it was in. -/
lemma sameGroups_update (policies : ℕ → Buckets ℤ ℕ) (x : ℕ)
    (nodeRef : Option (ℕ × ℤ)) : c.SameGroups { c with
      mPolicies := policies
      pages := update c.pages x { c.pages x with nodeRef := nodeRef } } := by
  refine ⟨rfl, fun y => ?_⟩
  by_cases hy : y = x
  · subst hy
    dsimp only
    rw [update_self]
  · dsimp only
    rw [update_of_ne hy]

lemma sameGroups_popPage (hpop : c.popPage g = some (x, c')) : c.SameGroups c' := by
  unfold EvictionController.popPage at hpop
  split at hpop
  · cases hpop
  · obtain ⟨rfl, rfl⟩ := Prod.mk.inj (some.inj hpop)
    exact sameGroups_update _ _ _

lemma sameGroups_popLoop {n : ℕ} {group group' : List ℕ}
    (hloop : c.popLoop g n group = some (group', c')) : c.SameGroups c' := by
  induction n generalizing c group with
  | zero =>
    obtain ⟨-, rfl⟩ := Prod.mk.inj (some.inj hloop)
    exact .refl c
  | succ n ih =>
    rw [EvictionController.popLoop] at hloop
    split at hloop
    · cases hloop
    · rename_i x c₁ hpop
      exact (sameGroups_popPage hpop).trans (ih hloop)

lemma sameGroups_evictGroups {minNumPages : ℕ → ℤ} {gs : List ℕ} {ret ret' : List (List ℕ)}
 (hevict : EvictionController.evictGroups minNumPages gs ret c = (.ok ret', c')) :
    c.SameGroups c' := by
  induction gs generalizing c ret with
  | nil =>
    obtain ⟨-, rfl⟩ := Prod.mk.inj hevict
    exact .refl c
  | cons g gs ih =>
    rw [EvictionController.evictGroups] at hevict
    split_ifs at hevict
    · cases hevict
    · cases hevict
    · split at hevict
      · cases hevict
      · rename_i group c₁ hloop
        exact (sameGroups_popLoop hloop).trans (ih hevict)

/-- What the groups `gs` can give is enough for the counts. -/
def Suffices (c : EvictionController) (minNumPages : ℕ → ℤ) (gs : List ℕ) : Prop :=
  ∀ g ∈ gs, 0 ≤ minNumPages g ∧ minNumPages g ≤ c.size g

/-- **All pool groups**: the loop takes the first pages of each, or ends with the state that the
pages taken so far came from. -/
lemma Inv.evictGroups (h : c.Inv stamp) (minNumPages : ℕ → ℤ) {gs : List ℕ} (hgs : gs.Nodup)
    (ret : List (List ℕ)) :
    (c.Suffices minNumPages gs ∧ ∃ c', EvictionController.evictGroups minNumPages gs ret c
        = (.ok (ret ++ gs.map fun g => (c.order g).take (minNumPages g).toNat), c') ∧ c'.Inv stamp
      ∧ (∀ g ∈ gs, c'.order g = (c.order g).drop (minNumPages g).toNat)
      ∧ ∀ g, g ∉ gs → c'.mPolicies g = c.mPolicies g)
    ∨ (¬ c.Suffices minNumPages gs ∧ ∃ e,
        EvictionController.evictGroups minNumPages gs ret c = (.error e, c.requeue ret)) := by
  induction gs generalizing c ret with
  | nil => exact .inl ⟨by simp [Suffices], c, by simp [EvictionController.evictGroups], h, by simp,
      fun _ _ => rfl⟩
  | cons g gs ih =>
    obtain ⟨hg, hgs⟩ := nodup_cons.mp hgs
    rw [EvictionController.evictGroups]
    split_ifs with h1 h2
    · refine .inr ⟨fun hs => ?_, _, rfl⟩
      have := (hs g mem_cons_self).1
      omega
    · refine .inr ⟨fun hs => ?_, _, rfl⟩
      have := (hs g mem_cons_self).2
      omega
    · have hsize := c.size_eq g
      obtain ⟨c₁, hloop, h₁, horder, hothers, hundo⟩ :=
        h.popLoop (by omega : (minNumPages g).toNat ≤ (c.order g).length) []
      rw [hloop]
      dsimp only
      rw [nil_append]
      have hne : ∀ g' ∈ gs, g' ≠ g := fun g' hg' heq => hg (heq ▸ hg')
      have hsame : ∀ g' ∈ gs, c₁.order g' = c.order g' := fun g' hg' => by
        rw [order, hothers g' (hne g' hg'), order]
      have hsuffices : c.Suffices minNumPages (g :: gs) ↔ c₁.Suffices minNumPages gs := by
        rw [Suffices, forall_mem_cons, and_iff_right (by omega), Suffices]
        refine forall₂_congr fun g' hg' => ?_
        rw [size_eq, size_eq, hsame g' hg']
      have hrequeue : c₁.requeue (ret ++ [(c.order g).take (minNumPages g).toNat])
          = c.requeue ret := by
        rw [requeue, flatten_append, reverse_append, foldl_append, flatten_singleton,
          hundo, requeue]
      have hmap : gs.map (fun g => (c₁.order g).take (minNumPages g).toNat)
          = gs.map fun g => (c.order g).take (minNumPages g).toNat :=
        map_congr_left fun g' hg' => by rw [hsame g' hg']
      rcases ih h₁ hgs (ret ++ [(c.order g).take (minNumPages g).toNat]) with
        ⟨hs, c', heq, hinv, hdrop, hrest⟩ | ⟨hs, e, heq⟩
      · refine .inl ⟨hsuffices.mpr hs, c', ?_, hinv, forall_mem_cons.mpr ⟨?_, fun g' hg' => ?_⟩,
          fun g' hg' => ?_⟩
        · rw [heq, hmap, append_assoc, singleton_append, map_cons]
        · rw [← horder, order, hrest g hg, order]
        · rw [hdrop g' hg', hsame g' hg']
        · rw [mem_cons, not_or] at hg'
          rw [hrest g' hg'.2, hothers g' hg'.1]
      · refine .inr ⟨fun hc => hs (hsuffices.mp hc), e, ?_⟩
        rw [heq, hrequeue]

/-- **Eviction**: when every pool group has enough pages, the first pages of each order; else an
exception, and the state before. -/
lemma Inv.evict (h : c.Inv stamp) (minNumPages : ℕ → ℤ) :
    (c.Suffices minNumPages (range c.numPoolGroups) ∧ ∃ c', c.evict minNumPages
        = (.ok ((range c.numPoolGroups).map fun g => (c.order g).take (minNumPages g).toNat), c')
      ∧ c'.Inv stamp
      ∧ ∀ g < c.numPoolGroups, c'.order g = (c.order g).drop (minNumPages g).toNat)
    ∨ (¬ c.Suffices minNumPages (range c.numPoolGroups)
      ∧ ∃ e, c.evict minNumPages = (.error e, c)) := by
  rcases h.evictGroups minNumPages (nodup_range (n := c.numPoolGroups)) [] with
    ⟨hs, c', heq, hinv, hdrop, -⟩ | ⟨hs, e, heq⟩
  · exact .inl ⟨hs, c', heq, hinv, fun g hg => hdrop g (mem_range.mpr hg)⟩
  · exact .inr ⟨hs, e, heq⟩

end

/-! ### Runs -/

/-- The calls; `exclude` stands for `excludeFromEviction`. -/
inductive Call where
  | schedule (x : ℕ) (evictFirst : Bool)
  | exclude (x : ℕ)
  | updatePriority (x : ℕ) (priority : ℤ)
  | evict (minNumPages : ℕ → ℤ)

/-- A page is scheduled when it is in no queue, and excluded when it is in one. -/
def Call.Allowed (c : EvictionController) : Call → Prop
  | schedule x _ => (c.pages x).nodeRef = none
  | exclude x => (c.pages x).nodeRef ≠ none
  | _ => True

def step (c : EvictionController) : Call → EvictionController
  | .schedule x evictFirst => c.scheduleForEviction x evictFirst
  | .exclude x => c.remove x
  | .updatePriority x priority => (c.updatePriority x priority).getD c
  | .evict minNumPages => (c.evict minNumPages).2

/-- The times at which pages were last scheduled: a page that is to be evicted first gets a time
before all others. -/
structure Times where
  stamp : ℕ → ℤ
  first : ℤ
  last : ℤ

namespace Times

/-- Page `x` is scheduled. -/
def schedule (t : Times) (x : ℕ) (evictFirst : Bool) : Times :=
  if evictFirst then { t with stamp := update t.stamp x (t.first - 1), first := t.first - 1 }
  else { t with stamp := update t.stamp x (t.last + 1), last := t.last + 1 }

/-- A call schedules the page it names; a new priority schedules a page that is in a queue. -/
def after (t : Times) (c : EvictionController) : Call → Times
  | .schedule x evictFirst => t.schedule x evictFirst
  | .exclude _ => t
  | .updatePriority x priority =>
    if kPriorityMin ≤ priority ∧ priority ≤ kPriorityMax ∧ priority ≠ (c.pages x).priority
        ∧ (c.pages x).nodeRef.isSome then t.schedule x false
    else t
  | .evict _ => t

/-- The times so far. -/
def Bounds (t : Times) : Prop := ∀ x, t.first ≤ t.stamp x ∧ t.stamp x ≤ t.last

lemma Bounds.schedule {t : Times} (h : t.Bounds) (x : ℕ) (evictFirst : Bool) :
    (t.schedule x evictFirst).Bounds := by
  intro y
  unfold Times.schedule
  have hy := h y
  split_ifs
  · by_cases hyx : y = x
    · subst hyx
      simp only [update_self]
      omega
    · simp only [update_of_ne hyx]
      omega
  · by_cases hyx : y = x
    · subst hyx
      simp only [update_self]
      omega
    · simp only [update_of_ne hyx]
      omega

end Times

/-- A new controller for the given pages, all in no queue. -/
def new (grouping : List ℕ) (pages : ℕ → ℕ × ℤ) : EvictionController :=
  { mLifeCycleGrouping := grouping
    mPolicies := fun _ => []
    pages := fun x => ⟨(pages x).1, (pages x).2, none⟩ }

/-- The states that a sequence of allowed calls can reach, with the times. -/
inductive Reachable (grouping : List ℕ) (pages : ℕ → ℕ × ℤ) : EvictionController → Times → Prop
  | new : Reachable grouping pages (new grouping pages) ⟨fun _ => 0, 0, 0⟩
  | call {c : EvictionController} {t : Times} (h : Reachable grouping pages c t) {e : Call}
      (he : e.Allowed c) : Reachable grouping pages (c.step e) (t.after c e)

section
variable {c : EvictionController} {t : Times}

section

variable (h : c.Inv t.stamp) (ht : t.Bounds)
include h ht

lemma Inv.schedule {x : ℕ} (hx : (c.pages x).nodeRef = none) (evictFirst : Bool) :
    (c.scheduleForEviction x evictFirst).Inv (t.schedule x evictFirst).stamp := by
  cases evictFirst with
  | true =>
    refine h.scheduleForEviction hx fun y => ?_
    have := ht y
    simp only [if_true]
    omega
  | false =>
    refine h.scheduleForEviction hx fun y => ?_
    have := ht y
    simp only [Bool.false_eq_true, if_false]
    omega

/-- **A new priority** moves a page that is in a queue to the end of another bucket. -/
lemma Inv.updatePriority (x : ℕ) (priority : ℤ) :
    ((c.updatePriority x priority).getD c).Inv (t.after c (.updatePriority x priority)).stamp
      ∧ (t.after c (.updatePriority x priority)).Bounds := by
  rw [EvictionController.updatePriority, Times.after]
  by_cases hrange : kPriorityMin ≤ priority ∧ priority ≤ kPriorityMax
  swap
  · rw [if_pos hrange, if_neg (fun hc => hrange ⟨hc.1, hc.2.1⟩)]
    exact ⟨h, ht⟩
  rw [if_neg (not_not.mpr hrange)]
  by_cases hsame : priority = (c.pages x).priority
  · rw [if_pos hsame, if_neg (fun hc => hc.2.2.1 hsame)]
    exact ⟨h, ht⟩
  rw [if_neg hsame]
  rw [getD_some]
  cases hq : (c.pages x).nodeRef.isSome with
  | true =>
    rw [if_pos ⟨hrange.1, hrange.2, hsame, rfl⟩, if_pos rfl, if_pos rfl]
    have hnone : ((c.remove x).pages x).nodeRef = none := by rw [pages_remove_self]
    have h' := (h.remove x).setPriority hnone priority
    refine ⟨h'.schedule ht ?_ false, ht.schedule x false⟩
    simp only [update_self]
    exact hnone
  | false =>
    rw [if_neg (fun hc => Bool.false_ne_true hc.2.2.2), if_neg Bool.false_ne_true,
      if_neg Bool.false_ne_true]
    exact ⟨h.setPriority (isSome_eq_false_iff.mp hq |> isNone_iff_eq_none.mp) priority, ht⟩

/-- **One call** keeps the invariant. -/
lemma Inv.step {e : Call} (he : e.Allowed c) :
    (c.step e).Inv (t.after c e).stamp ∧ (t.after c e).Bounds := by
  cases e with
  | schedule x evictFirst => exact ⟨h.schedule ht he evictFirst, ht.schedule x evictFirst⟩
  | exclude x => exact ⟨h.remove x, ht⟩
  | updatePriority x priority => exact h.updatePriority ht x priority
  | evict minNumPages =>
    refine ⟨?_, ht⟩
    rw [EvictionController.step]
    rcases h.evict minNumPages with ⟨-, c', heq, hinv, -⟩ | ⟨-, e, heq⟩
    · rw [heq]
      exact hinv
    · rw [heq]
      exact h

end

lemma inv_new (grouping : List ℕ) (pages : ℕ → ℕ × ℤ) : (new grouping pages).Inv fun _ => 0 where
  wf _ := ⟨.nil, fun _ he => by cases he⟩
  queued g p x := by simp [queue, new, Buckets.bucket]
  place x g p h := by simp [new] at h
  sorted _ _ := .nil

/-- **Every reachable state** satisfies the invariant. -/
lemma Reachable.inv {grouping : List ℕ} {pages : ℕ → ℕ × ℤ} (h : Reachable grouping pages c t) :
    c.Inv t.stamp ∧ t.Bounds := by
  induction h with
  | new => exact ⟨inv_new grouping pages, fun _ => ⟨le_rfl, le_rfl⟩⟩
  | call _ he ih => exact ih.1.step ih.2 he

/-- What is promised of a state and of an eviction there. -/
structure Safe (c : EvictionController) (t : Times) : Prop where
  /-- A node reference is set exactly when the page is in the bucket of its priority. -/
  placed : ∀ x, (c.pages x).nodeRef ≠ none ↔ x ∈ c.queue (c.groupOf x) (c.pages x).priority
  /-- A page is in no other bucket, and once in this one. -/
  once : ∀ x g p, x ∈ c.queue g p →
    g = c.groupOf x ∧ p = (c.pages x).priority ∧ (c.queue g p).count x = 1
  /-- The order of a pool group is by priority and then by the time of scheduling. -/
  ordered : ∀ g, (c.order g).Pairwise fun x y => (c.pages x).priority < (c.pages y).priority
    ∨ ((c.pages x).priority = (c.pages y).priority ∧ t.stamp x < t.stamp y)
  scheduled : ∀ g x, x ∈ c.order g ↔ (c.pages x).nodeRef ≠ none ∧ c.groupOf x = g
  /-- An eviction takes the first pages of each order, or leaves the state as it was. -/
  evict : ∀ minNumPages : ℕ → ℤ,
    ((∀ g < c.numPoolGroups, 0 ≤ minNumPages g ∧ minNumPages g ≤ ((c.order g).length : ℤ))
      ∧ ∃ c', c.evict minNumPages
        = (.ok ((range c.numPoolGroups).map fun g => (c.order g).take (minNumPages g).toNat), c'))
    ∨ ((∃ g < c.numPoolGroups, minNumPages g < 0 ∨ ((c.order g).length : ℤ) < minNumPages g)
      ∧ ∃ e, c.evict minNumPages = (.error e, c))

/-- **Eviction** in every state that any sequence of calls can reach, for any number of pool
groups. -/
theorem eviction_safe {grouping : List ℕ} {pages : ℕ → ℕ × ℤ}
    (hreach : Reachable grouping pages c t) : c.Safe t := by
  obtain ⟨h, -⟩ := hreach.inv
  have hplaced : ∀ x, (c.pages x).nodeRef ≠ none ↔
      x ∈ c.queue (c.groupOf x) (c.pages x).priority := by
    intro x
    rw [h.queued]
    constructor
    · intro hne
      obtain ⟨⟨g, p⟩, hnode⟩ := ne_none_iff_exists'.mp hne
      obtain ⟨rfl, rfl⟩ := h.place x g p hnode
      exact hnode
    · intro hnode hnone
      rw [hnone] at hnode
      cases hnode
  have hmem : ∀ x g p, x ∈ c.queue g p → g = c.groupOf x ∧ p = (c.pages x).priority :=
    fun x g p hx => h.place x g p ((h.queued g p x).mp hx)
  refine ⟨hplaced, fun x g p hx => ?_, fun g => ?_, fun g x => ?_, fun minNumPages => ?_⟩
  · obtain ⟨hg, hp⟩ := hmem x g p hx
    exact ⟨hg, hp, count_eq_one_of_mem (h.nodup g p) hx⟩
  · exact h.order_pairwise g
  · exact h.mem_order
  · rcases h.evict minNumPages with ⟨hs, c', heq, -, -⟩ | ⟨hs, e, heq⟩
    · refine .inl ⟨fun g hg => ?_, c', heq⟩
      have hcount := hs g (mem_range.mpr hg)
      rwa [size_eq] at hcount
    · refine .inr ⟨?_, e, heq⟩
      simp only [Suffices, not_forall] at hs
      obtain ⟨g, hg, hnot⟩ := hs
      rw [size_eq] at hnot
      exact ⟨g, mem_range.mp hg, by omega⟩

end

/-- Three pages of one pool group, the last to be evicted first, and the second with a lower
priority than the others since it was scheduled. -/
theorem eviction_safe_sample :
    let c := (((((new [0, 1] fun _ => (0, 35)).step (.schedule 0 false)).step
      (.schedule 1 false)).step
      (.schedule 2 true)).step (.updatePriority 1 20))
    c.order 0 = [1, 2, 0] ∧ ∃ t, c.Safe t := by
  refine ⟨by decide, _, eviction_safe (Reachable.call (e := .updatePriority 1 20)
    (Reachable.call (e := .schedule 2 true) (Reachable.call (e := .schedule 1 false)
      (Reachable.call (e := .schedule 0 false) .new ?_) ?_) ?_) trivial)⟩ <;>
    simp only [Call.Allowed] <;> decide

end EvictionController

end TrtLlm
