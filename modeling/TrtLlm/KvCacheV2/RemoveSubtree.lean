import TrtLlm.KvCacheV2.TreeLinks

/-!
`removeSubtree` detaches a block and everything below it.

The traversal walks down to a first child while there is one and detaches on the way back up.
Descending raises the ordinal of the current block, detaching lowers the number of attached
blocks, and both are bounded: that is why it ends. What it detached is exactly the subtree of
the tree it started from, every block after all those below it.
-/

namespace TrtLlm.KvCacheV2.BlockRadixTree

open List Option Relation UMap

variable {Key : Type*} [DecidableEq Key] {keys : KeyScheme Key} {tree t u : BlockRadixTree Key}

section

variable (tree : BlockRadixTree Key)

/-- `j` is a child of the block `i`. -/
def IsChild (i j : ℕ) : Prop :=
  ∃ k, (tree.next (.block i)).find? k = some j

/-- `j` is in the subtree of the block `i`. -/
def Below : ℕ → ℕ → Prop := ReflTransGen tree.IsChild

/-- The block is in the tree. -/
def Attached (id : ℕ) : Prop :=
  ∃ block n, tree.blocks.find? id = some block ∧ block.prev = some n

end

/-! ### Sets of detached blocks -/

/-- The block without its previous node. -/
def orphaned (block : Block Key) : Block Key := { block with prev := none }

/-- `gone` are detached in this order, and nothing else changed. -/
structure Detached (tree t : BlockRadixTree Key) (gone : List ℕ) : Prop where
  blocks : ∀ i, t.blocks.find? i
    = if i ∈ gone then (tree.blocks.find? i).map orphaned else tree.blocks.find? i
  next : ∀ n k, (t.next n).find? k = ((tree.next n).find? k).filter (· ∉ gone)
  roots : t.mRoots = tree.mRoots
  registry : t.mLifeCycles = tree.mLifeCycles
  tokens : t.mTokensPerBlock = tree.mTokensPerBlock
  storage : t.storage = tree.storage
  pages : t.pages = tree.pages
  events : t.events = tree.events
    ++ (gone.filterMap fun i => tree.keyOf (.block i)).map TreeEvent.addRemovedBlock

variable {block : Block Key} {id j : ℕ}

lemma Detached.refl (tree : BlockRadixTree Key) : Detached tree tree [] :=
  ⟨by simp, fun n k => by cases (tree.next n).find? k <;> rfl, rfl, rfl, rfl, rfl, rfl, by simp⟩

lemma Detached.keyOf {gone : List ℕ} (h : Detached tree t gone) (n : NodeRef Key) :
    t.keyOf n = tree.keyOf n := by
  cases n with
  | root key => simp only [BlockRadixTree.keyOf, h.roots]
  | block i =>
    simp only [BlockRadixTree.keyOf, h.blocks]
    split_ifs
    · rw [Option.map_map]
      rfl
    · rfl

lemma Detached.trans {gone gone' : List ℕ} (h : Detached tree t gone)
    (h' : Detached t u gone') : Detached tree u (gone ++ gone') := by
  refine ⟨fun i => ?_, fun n k => ?_, h'.roots.trans h.roots, h'.registry.trans h.registry,
    h'.tokens.trans h.tokens, h'.storage.trans h.storage, h'.pages.trans h.pages, ?_⟩
  · rw [h'.blocks, h.blocks]
    by_cases hi : i ∈ gone <;> by_cases hi' : i ∈ gone' <;> simp [hi, hi']
    cases tree.blocks.find? i <;> rfl
  · rw [h'.next, h.next]
    cases (tree.next n).find? k with
    | none => rfl
    | some i =>
      by_cases hi : i ∈ gone <;> by_cases hi' : i ∈ gone' <;> simp [Option.filter, hi, hi']
  · rw [h'.events, h.events, append_assoc, filterMap_append, map_append]
    simp only [h.keyOf]

/-- A child of the rest was one before. -/
lemma Detached.child {gone : List ℕ} (h : Detached tree t gone) {n : NodeRef Key} {k : Key}
    {i : ℕ} : (t.next n).find? k = some i ↔ (tree.next n).find? k = some i ∧ i ∉ gone := by
  rw [h.next, filter_eq_some_iff]
  simp

/-- Detaching one leaf. -/
lemma detached_leaf {n : NodeRef Key} (h : tree.WellFormed keys)
    (hblock : tree.blocks.find? id = some block) (hprev : block.prev = some n)
    (hleaf : ∀ k, (tree.next (.block id)).find? k = none) :
    (tree.detachNext n block.key).WellFormed keys
      ∧ Detached tree (tree.detachNext n block.key) [id] := by
  have hchild := h.parent hblock hprev
  obtain ⟨hrelinked, hevents⟩ := detachNext_relinked hchild hblock
  refine ⟨h.detachNext hchild hblock hleaf, ?_, ?_, hrelinked.roots, hrelinked.registry,
    hrelinked.tokens, hrelinked.storage, hrelinked.pages, ?_⟩
  · intro i
    rw [hrelinked.blocks, find?_set]
    simp only [mem_singleton]
    split_ifs with hi
    · rw [hi, hblock]
      rfl
    · rfl
  · intro m k
    rw [hrelinked.next, Function.update_apply]
    -- An entry naming the block is the one under its key.
    have hname : ∀ {m k}, (tree.next m).find? k = some id → m = n ∧ k = block.key := by
      intro m k hi
      obtain ⟨b, hb, hk, hp⟩ := h.child hi
      cases hblock.symm.trans hb
      exact ⟨some.inj (hp.symm.trans hprev), hk.symm⟩
    have hkeep : ¬ (m = n ∧ k = block.key) →
        (tree.next m).find? k = ((tree.next m).find? k).filter (· ∉ [id]) := by
      intro hne
      cases hfind : (tree.next m).find? k with
      | none => rfl
      | some i =>
        have hi : i ≠ id := fun hi => hne (hname (hi ▸ hfind))
        simp [Option.filter, hi]
    split_ifs with hm
    · subst hm
      rw [find?_erase]
      split_ifs with hk
      · rw [hk, hchild]
        simp [Option.filter]
      · exact hkeep fun hmk => hk hmk.2
    · exact hkeep fun hmk => hm hmk.1
  · rw [hevents]
    simp [BlockRadixTree.keyOf, hblock]

/-! ### Subtrees -/

/-- The parent of a child is a block of the tree with the ordinal before. -/
lemma Chained.child_ordinal (hc : tree.Chained keys) {i : ℕ} (h : tree.IsChild i j) :
    ∃ b b', tree.blocks.find? i = some b ∧ tree.blocks.find? j = some b'
      ∧ b.prev.isSome ∧ b'.prev = some (.block i) ∧ b'.ordinal = b.ordinal + 1 := by
  obtain ⟨k, hk⟩ := h
  obtain ⟨b', hb', -, hprev⟩ := hc.child hk
  obtain ⟨b, hb, -, hattached⟩ := hc.full hk
  refine ⟨b, b', hb, hb', hattached, hprev, ?_⟩
  rw [hc.ordinal hb' hprev, nextOrdinal, hb]
  rfl

/-- Only the block itself is below a leaf. -/
lemma below_leaf (hleaf : ∀ k, (tree.next (.block id)).find? k = none)
    (h : tree.Below id j) : j = id := by
  obtain rfl | ⟨i, ⟨k, hk⟩, -⟩ := ReflTransGen.cases_head h
  · rfl
  · rw [hleaf] at hk
    cases hk

/-- A leaf is detached: the other blocks stay in the subtrees they were in. -/
lemma below_detach_leaf {i : ℕ} (h : Detached tree t [id])
    (hleaf : ∀ k, (tree.next (.block id)).find? k = none) (hj : j ≠ id) :
    t.Below i j ↔ tree.Below i j := by
  have hchild : ∀ {i j}, t.IsChild i j ↔ tree.IsChild i j ∧ j ≠ id := by
    intro i j
    constructor
    · rintro ⟨k, hk⟩
      obtain ⟨hk, hne⟩ := h.child.1 hk
      exact ⟨⟨k, hk⟩, fun hj => hne (by simp [hj])⟩
    · rintro ⟨⟨k, hk⟩, hne⟩
      exact ⟨k, h.child.2 ⟨hk, by simp [hne]⟩⟩
  constructor
  · intro hbelow
    exact ReflTransGen.mono (fun _ _ hij => (hchild.1 hij).1) _ _ hbelow
  · intro hbelow
    induction hbelow with
    | refl => exact .refl
    | tail hbelow hlast ih =>
      rename_i m l
      have hm : m ≠ id := by
        rintro rfl
        obtain ⟨k, hk⟩ := hlast
        rw [hleaf] at hk
        cases hk
      exact (ih hm).tail (hchild.2 ⟨hlast, hj⟩)

/-- What a removal of the subtree of a block does. -/
structure Removed (keys : KeyScheme Key) (tree t : BlockRadixTree Key) (root : ℕ)
    (gone : List ℕ) : Prop where
  wellFormed : t.WellFormed keys
  detached : Detached tree t gone
  subtree : ∀ i, i ∈ gone ↔ tree.Below root i
  nodup : gone.Nodup
  /-- Descendants come before their ancestors. -/
  order : gone.Pairwise fun i j => ¬ tree.Below i j

/-- The subtree without one of its leaves is removed after the leaf. -/
lemma Removed.cons {root id : ℕ} {gone : List ℕ} (h : Detached tree t [id])
    (hleaf : ∀ k, (tree.next (.block id)).find? k = none) (hbelow : tree.Below root id)
    (hroot : id ≠ root) (hrest : Removed keys t u root gone) :
    Removed keys tree u root (id :: gone) := by
  have hne : ∀ {i}, i ∈ gone → i ≠ id := by
    rintro i hi rfl
    obtain rfl | ⟨m, -, k, hk⟩ := ReflTransGen.cases_tail ((hrest.subtree _).1 hi)
    · exact hroot rfl
    · exact (h.child.1 hk).2 (mem_singleton.2 rfl)
  refine ⟨hrest.wellFormed, h.trans hrest.detached, fun i => ?_, ?_, ?_⟩
  · rw [mem_cons, hrest.subtree]
    by_cases hi : i = id
    · simp [hi, hbelow]
    · simp [hi, below_detach_leaf h hleaf hi]
  · exact nodup_cons.2 ⟨fun hid => hne hid rfl, hrest.nodup⟩
  · refine pairwise_cons.2 ⟨fun j hj hbelow => hne hj (below_leaf hleaf hbelow), ?_⟩
    refine hrest.order.imp_of_mem fun {i j} _ hj hij hbelow => hij ?_
    exact (below_detach_leaf h hleaf (hne hj)).2 hbelow

/-! ### The traversal -/

/-- The number of blocks in the tree. -/
def attachedBlocks (tree : BlockRadixTree Key) : ℕ :=
  tree.blocks.total fun _ block => if block.prev.isSome then 1 else 0

omit [DecidableEq Key] in
lemma attachedBlocks_le (tree : BlockRadixTree Key) : tree.attachedBlocks ≤ tree.blocks.size := by
  simp only [attachedBlocks, total, UMap.size]
  induction tree.blocks.entries with
  | nil => simp
  | cons e entries ih =>
    simp only [map_cons, sum_cons, length_cons]
    split_ifs <;> omega

lemma attachedBlocks_detach (h : Detached tree t [id])
    (hblock : tree.blocks.find? id = some block) (hattached : block.prev.isSome) :
    t.attachedBlocks + 1 = tree.attachedBlocks := by
  have hupdate := @UMap.total_update _ _ _ tree.blocks t.blocks
    (fun _ block => if block.prev.isSome then 1 else 0)
    (fun _ block => if block.prev.isSome then 1 else 0) id fun i hi => by
      simp [UMap.weight, h.blocks, hi]
  have hbefore : tree.blocks.weight
      (fun _ block => if block.prev.isSome then 1 else 0) id = 1 := by
    simp [UMap.weight, hblock, hattached]
  have hafter : t.blocks.weight
      (fun _ block => if block.prev.isSome then 1 else 0) id = 0 := by
    simp [UMap.weight, h.blocks, hblock, orphaned]
  simp only [attachedBlocks]
  omega

omit [DecidableEq Key] in
lemma ordinal_le_maxOrdinal (h : tree.blocks.find? id = some block) :
    block.ordinal ≤ tree.maxOrdinal := by
  have hmem : block.ordinal ∈ tree.blocks.entries.map fun entry => entry.2.ordinal :=
    List.mem_map.2 ⟨(id, block), find?_eq_some_iff.1 h, rfl⟩
  rw [maxOrdinal]
  generalize (tree.blocks.entries.map fun entry => entry.2.ordinal) = ordinals at hmem
  induction ordinals with
  | nil => cases hmem
  | cons o ordinals ih =>
    rw [foldr_cons]
    obtain heq | htail := mem_cons.1 hmem
    · omega
    · have := ih htail
      omega

/-- No entry, no child. -/
lemma leaf_of_entries (h : (tree.next (.block id)).entries = []) (k : Key) :
    (tree.next (.block id)).find? k = none := by
  rw [UMap.find?, h]
  rfl

/-- The traversal ends, wherever in the subtree it stands. -/
lemma removeSubtreeLoop_removed {root : ℕ} (bound fuel : ℕ) :
    ∀ {tree : BlockRadixTree Key} {current : ℕ} {block : Block Key}, tree.WellFormed keys →
      (∀ i b, tree.blocks.find? i = some b → b.ordinal ≤ bound) → tree.Below root current →
      tree.blocks.find? current = some block → block.prev.isSome →
      tree.attachedBlocks * (bound + 2) + (bound - block.ordinal) < fuel →
      ∃ t gone, removeSubtreeLoop root fuel tree current = some (t, gone)
        ∧ Removed keys tree t root gone := by
  induction fuel with
  | zero => intro tree current block _ _ _ _ _ hfuel; omega
  | succ fuel ih =>
    intro tree current block h hbound hbelow hblock hattached hfuel
    obtain ⟨parent, hprev⟩ := isSome_iff_exists.1 hattached
    rw [removeSubtreeLoop]
    cases hentries : (tree.next (.block current)).entries with
    | cons child rest =>
      -- Down: the ordinal rises.
      have hchild : tree.IsChild current child.2 :=
        ⟨child.1, find?_eq_some_iff.2 (hentries ▸ mem_cons_self)⟩
      obtain ⟨b, b', hb, hb', -, hprev', hordinal⟩ := h.toChained.child_ordinal hchild
      cases hblock.symm.trans hb
      have hle := hbound _ _ hb'
      exact ih h hbound (hbelow.tail hchild) hb' (by rw [hprev']; rfl) (by omega)
    | nil =>
      have hleaf := leaf_of_entries hentries
      obtain ⟨hwf, hdetached⟩ := detached_leaf h hblock hprev hleaf
      simp only [hblock, hprev]
      by_cases hroot : current = root
      · subst hroot
        refine ⟨_, [current], if_pos rfl, hwf, hdetached, fun i => ?_, by simp, by simp⟩
        rw [mem_singleton]
        exact ⟨fun hi => hi ▸ .refl, below_leaf hleaf⟩
      · -- Up: one block less is attached.
        obtain rfl | ⟨m, hm, hchild⟩ := ReflTransGen.cases_tail hbelow
        · exact absurd rfl hroot
        obtain ⟨b, b', hb, hb', hmattached, hprev', hordinal⟩ := h.toChained.child_ordinal hchild
        cases hblock.symm.trans hb'
        cases hprev.symm.trans hprev'
        have hne : m ≠ current := by
          rintro rfl
          cases hb.symm.trans hblock
          omega
        have hcount := attachedBlocks_detach hdetached hblock hattached
        have hm' : (tree.detachNext (.block m) block.key).blocks.find? m = some b := by
          rw [hdetached.blocks, if_neg (by simp [hne]), hb]
        have hbound' : ∀ i b, (tree.detachNext (.block m) block.key).blocks.find? i = some b →
            b.ordinal ≤ bound := by
          intro i b hb
          rw [hdetached.blocks] at hb
          split_ifs at hb
          · obtain ⟨b', hb', rfl⟩ := map_eq_some_iff.1 hb
            exact hbound i b' hb'
          · exact hbound i b hb
        have hfuel' : (tree.detachNext (.block m) block.key).attachedBlocks * (bound + 2)
            + (bound - b.ordinal) < fuel := by
          rw [← hcount, Nat.add_mul] at hfuel
          omega
        obtain ⟨t, gone, hloop, hremoved⟩ := ih hwf hbound'
          ((below_detach_leaf hdetached hleaf hne).2 hm) hm' hmattached hfuel'
        refine ⟨t, current :: gone, ?_, hremoved.cons hdetached hleaf hbelow hroot⟩
        rw [if_neg hroot]
        simp only [hloop, map_some]

/-- **`removeSubtree` ends and removes the subtree.** -/
theorem WellFormed.removeSubtree {root : ℕ} (h : tree.WellFormed keys)
    (hattached : tree.Attached root) :
    ∃ t gone, tree.removeSubtree root = some (t, gone) ∧ Removed keys tree t root gone := by
  obtain ⟨block, n, hblock, hprev⟩ := hattached
  refine removeSubtreeLoop_removed tree.maxOrdinal _ h
    (fun _ _ hb => ordinal_le_maxOrdinal hb) .refl hblock (by rw [hprev]; rfl) ?_
  have hle := Nat.mul_le_mul_right (tree.maxOrdinal + 2) tree.attachedBlocks_le
  rw [traversalBound]
  omega

/-! ### What the sink announces -/

/-- `addRemovedBlock` of a sink that keeps the blocks it announced: the blocks it announces as
removed. `StreamingEventSink` puts each into one removed event, `EventManager` emits one event for
each life cycle of the block. A removal of a life cycle is not one of a block. -/
def removedEvents (stored : USet Key) : List (TreeEvent Key) → List Key
  | [] => []
  | .addRemovedBlock key :: events =>
    if key ∈ stored then key :: removedEvents (stored.erase key) events
    else removedEvents stored events
  | _ :: events => removedEvents stored events

variable (stored : USet Key) (removed : List Key)

/-- A key is announced as removed once, if it was announced and a removed block has it. -/
lemma mem_removedEvents (k : Key) : k ∈ removedEvents stored (removed.map TreeEvent.addRemovedBlock)
      ↔ k ∈ stored ∧ k ∈ removed := by
  induction removed generalizing stored with
  | nil => simp [removedEvents]
  | cons key removed ih =>
    rw [map_cons, removedEvents, mem_cons]
    split_ifs with hstored
    · rw [mem_cons, ih, mem_erase]
      by_cases hk : k = key <;> simp [hk, hstored]
    · rw [ih]
      by_cases hk : k = key <;> simp [hk, hstored]

lemma nodup_removedEvents :
    (removedEvents stored (removed.map TreeEvent.addRemovedBlock)).Nodup := by
  induction removed generalizing stored with
  | nil => exact nodup_nil
  | cons key removed ih =>
    rw [map_cons, removedEvents]
    split_ifs with hstored
    · refine nodup_cons.2 ⟨fun hmem => ?_, ih _⟩
      rw [mem_removedEvents, mem_erase] at hmem
      exact hmem.1.1 rfl
    · exact ih _

end TrtLlm.KvCacheV2.BlockRadixTree
