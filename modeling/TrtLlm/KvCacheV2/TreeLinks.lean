import TrtLlm.KvCacheV2.TreePages

/-!
What the operations of the tree do to its chains.

A block is attached or detached together with the entry of its parent.
-/

namespace TrtLlm.KvCacheV2.BlockRadixTree

open List Function Option Prod

variable {Key : Type*} {keys : KeyScheme Key} {tree t u : BlockRadixTree Key}
  {block : Block Key} {id other p : ℕ}

/-! ### Chains -/

variable [DecidableEq Key]

lemma SameChains.chained (h : SameChains tree t) (hc : tree.Chained keys) : t.Chained keys := by
  obtain ⟨hnext, hblocks, hroots, -, htokens, -⟩ := h
  have hkey : ∀ n, t.keyOf n = tree.keyOf n := by
    intro n
    cases n <;> simp [keyOf, hroots, hblocks]
  have hordinal : ∀ n, t.nextOrdinal n = tree.nextOrdinal n := by
    intro n
    cases n <;> simp [nextOrdinal, hblocks]
  have hparent : ∀ n, t.CanBeParent n ↔ tree.CanBeParent n := by
    intro n
    cases n <;> simp [CanBeParent, hroots, hblocks, htokens]
  constructor
  · simpa only [hnext, hblocks] using @hc.child
  · simpa only [hnext, hblocks] using @hc.parent
  · simpa only [hblocks, hkey] using @hc.key
  · simpa only [hblocks, hordinal] using @hc.ordinal
  · simpa only [hblocks, htokens] using @hc.size
  · simpa only [hnext, hparent] using @hc.full

lemma SameChains.incomparable (h : SameChains tree t) (hi : tree.SiblingsIncomparable) :
    t.SiblingsIncomparable := by
  have htokens : ∀ id, t.tokensOf id = tree.tokensOf id :=
    fun id => by rw [tokensOf, tokensOf, h.blocks]
  intro n k k' id id' hid hid' hpre
  rw [h.next] at hid hid'
  rw [htokens, htokens] at hpre
  exact hi hid hid' hpre

/-- A block gets another previous node, and the children of one node change. -/
structure Relinked (tree t : BlockRadixTree Key) (n : NodeRef Key) (children : UMap Key ℕ)
    (id : ℕ) (block : Block Key) (prev : Option (NodeRef Key)) : Prop where
  next : t.next = update tree.next n children
  blocks : t.blocks = tree.blocks.set id { block with prev := prev }
  roots : t.mRoots = tree.mRoots
  registry : t.mLifeCycles = tree.mLifeCycles
  tokens : t.mTokensPerBlock = tree.mTokensPerBlock
  storage : t.storage = tree.storage
  pages : t.pages = tree.pages

section Relinked

variable {n : NodeRef Key} {children : UMap Key ℕ} {id : ℕ} {block : Block Key}
  {prev : Option (NodeRef Key)}

section

variable (h : Relinked tree t n children id block prev) (hblock : tree.blocks.find? id = some block)
include h hblock

lemma Relinked.tokensOf (i : ℕ) : t.tokensOf i = tree.tokensOf i := by
  simp only [BlockRadixTree.tokensOf, h.blocks, UMap.find?_set]
  split_ifs with hi
  · rw [hi, hblock]
    rfl
  · rfl

lemma Relinked.keyOf (m : NodeRef Key) : t.keyOf m = tree.keyOf m := by
  cases m with
  | root key => simp [BlockRadixTree.keyOf, h.roots]
  | block i =>
    simp only [BlockRadixTree.keyOf, h.blocks, UMap.find?_set]
    split_ifs with hi
    · rw [hi, hblock]
      rfl
    · rfl

lemma Relinked.nextOrdinal (m : NodeRef Key) : t.nextOrdinal m = tree.nextOrdinal m := by
  cases m with
  | root key => rfl
  | block i =>
    simp only [BlockRadixTree.nextOrdinal, h.blocks, UMap.find?_set]
    split_ifs with hi
    · rw [hi, hblock]
      rfl
    · rfl

/-- The pages do not depend on the chains. -/
lemma Relinked.paged (hp : tree.Paged) : t.Paged := by
  refine ⟨?_, ?_, ?_⟩
  · simpa only [h.storage, h.pages] using @hp.page
  · intro p page i hpage hi
    rw [h.pages] at hpage
    obtain ⟨b, hb, hle⟩ := hp.covers hpage hi
    rw [h.blocks, UMap.find?_set]
    split_ifs with hid
    · rw [hid, hblock] at hb
      cases hb
      exact ⟨_, rfl, hle⟩
    · exact ⟨b, hb, hle⟩
  · simpa only [h.pages, h.registry] using @hp.slot

end

/-- A parent other than the block itself stays one. -/
lemma Relinked.canBeParent (h : Relinked tree t n children id block prev) {m : NodeRef Key}
    (hm : m ≠ .block id) (hparent : tree.CanBeParent m) : t.CanBeParent m := by
  cases m with
  | root key =>
    change key ∈ t.mRoots
    rw [h.roots]
    exact hparent
  | block i =>
    obtain ⟨b, hb, hlength, hprev⟩ := hparent
    refine ⟨b, ?_, h.tokens ▸ hlength, hprev⟩
    rw [h.blocks, UMap.find?_set, if_neg fun hi : i = id => hm (congrArg NodeRef.block hi)]
    exact hb

/-- A leaf is detached. -/
lemma Chained.detach (hc : tree.Chained keys) (hchild : (tree.next n).find? block.key = some id)
    (hblock : tree.blocks.find? id = some block)
    (hleaf : ∀ k, (tree.next (.block id)).find? k = none)
    (h : Relinked tree t n ((tree.next n).erase block.key) id block none) : t.Chained keys := by
  have hnext : ∀ {m k i}, (t.next m).find? k = some i →
      (tree.next m).find? k = some i ∧ i ≠ id := by
    intro m k i hi
    rw [h.next, update_apply] at hi
    split_ifs at hi with hm
    · subst hm
      rw [UMap.find?_erase] at hi
      split_ifs at hi with hk
      refine ⟨hi, ?_⟩
      rintro rfl
      obtain ⟨b, hb, hkey, -⟩ := hc.child hi
      cases hblock.symm.trans hb
      exact hk hkey.symm
    · refine ⟨hi, ?_⟩
      rintro rfl
      obtain ⟨b, hb, -, hprev⟩ := hc.child hi
      obtain ⟨b', hb', -, hprev'⟩ := hc.child hchild
      cases hb.symm.trans hb'
      exact hm (some.inj (hprev.symm.trans hprev'))
  have hblocks : ∀ {i b m}, t.blocks.find? i = some b → b.prev = some m →
      tree.blocks.find? i = some b ∧ i ≠ id := by
    intro i b m hb hprev
    rw [h.blocks, UMap.find?_set] at hb
    split_ifs at hb with hi
    · cases hb
      cases hprev
    · exact ⟨hb, hi⟩
  refine ⟨?_, ?_, ?_, ?_, ?_, ?_⟩
  · intro m k i hi
    obtain ⟨hi, hne⟩ := hnext hi
    obtain ⟨b, hb, hkey, hprev⟩ := hc.child hi
    exact ⟨b, by rw [h.blocks, UMap.find?_set, if_neg hne]; exact hb, hkey, hprev⟩
  · intro i b m hb hprev
    obtain ⟨hb, hne⟩ := hblocks hb hprev
    have hold := hc.parent hb hprev
    rw [h.next, update_apply]
    split_ifs with hm
    · subst hm
      rw [UMap.find?_erase, if_neg fun hk => ?_]
      · exact hold
      · rw [hk] at hold
        exact hne (some.inj (hold.symm.trans hchild))
    · exact hold
  · intro i b m hb hprev
    obtain ⟨hb, -⟩ := hblocks hb hprev
    rw [h.keyOf hblock]
    exact hc.key hb hprev
  · intro i b m hb hprev
    obtain ⟨hb, -⟩ := hblocks hb hprev
    rw [h.nextOrdinal hblock]
    exact hc.ordinal hb hprev
  · intro i b hb
    rw [h.blocks, UMap.find?_set] at hb
    rw [h.tokens]
    split_ifs at hb with hi
    · cases hb
      exact @Chained.size _ _ _ _ hc id block hblock
    · exact hc.size hb
  · intro m k i hi
    obtain ⟨hi, -⟩ := hnext hi
    refine h.canBeParent ?_ (hc.full hi)
    rintro rfl
    rw [hleaf] at hi
    cases hi

/-- A detached block is attached. -/
lemma Chained.attach {prevKey : Key} (hc : tree.Chained keys) (hparent : tree.CanBeParent n)
    (hblock : tree.blocks.find? id = some block) (horphan : block.prev = none)
    (hkey : tree.keyOf n = some prevKey) (hmake : block.key = keys.makeKey prevKey block.tokens)
    (hordinal : block.ordinal = tree.nextOrdinal n)
    (hfresh : (tree.next n).find? block.key = none)
    (h : Relinked tree t n ((tree.next n).set block.key id) id block (some n)) :
    t.Chained keys := by
  -- No entry of the tree names a detached block.
  have hunlinked : ∀ {m k}, (tree.next m).find? k ≠ some id := by
    intro m k hi
    obtain ⟨b, hb, -, hprev⟩ := hc.child hi
    cases hblock.symm.trans hb
    rw [horphan] at hprev
    cases hprev
  have hself : n ≠ .block id := by
    rintro rfl
    obtain ⟨b, hb, -, hprev⟩ := hparent
    cases hblock.symm.trans hb
    rw [horphan] at hprev
    cases hprev
  have hnext : ∀ {m k i}, (t.next m).find? k = some i →
      (m = n ∧ k = block.key ∧ i = id) ∨ ((tree.next m).find? k = some i ∧ i ≠ id) := by
    intro m k i hi
    rw [h.next, update_apply] at hi
    split_ifs at hi with hm
    · rw [UMap.find?_set] at hi
      split_ifs at hi with hk
      · exact .inl ⟨hm, hk, (some.inj hi).symm⟩
      · exact .inr ⟨hm ▸ hi, fun hid => hunlinked (hid ▸ hi)⟩
    · exact .inr ⟨hi, fun hid => hunlinked (hid ▸ hi)⟩
  have hblocks : ∀ {i b m}, t.blocks.find? i = some b → b.prev = some m →
      (i = id ∧ b = { block with prev := some n } ∧ m = n)
        ∨ (tree.blocks.find? i = some b ∧ i ≠ id) := by
    intro i b m hb hprev
    rw [h.blocks, UMap.find?_set] at hb
    split_ifs at hb with hi
    · cases hb
      exact .inl ⟨hi, rfl, (some.inj hprev).symm⟩
    · exact .inr ⟨hb, hi⟩
  refine ⟨?_, ?_, ?_, ?_, ?_, ?_⟩
  · intro m k i hi
    obtain ⟨rfl, rfl, rfl⟩ | ⟨hi, hne⟩ := hnext hi
    · exact ⟨{ block with prev := some m }, by rw [h.blocks, UMap.find?_set, if_pos rfl], rfl, rfl⟩
    · obtain ⟨b, hb, hk, hprev⟩ := hc.child hi
      exact ⟨b, by rw [h.blocks, UMap.find?_set, if_neg hne]; exact hb, hk, hprev⟩
  · intro i b m hb hprev
    rw [h.next, update_apply]
    obtain ⟨rfl, rfl, rfl⟩ | ⟨hb, hne⟩ := hblocks hb hprev
    · rw [if_pos rfl, UMap.find?_set, if_pos rfl]
    · have hold := hc.parent hb hprev
      split_ifs with hm
      · subst hm
        rw [UMap.find?_set, if_neg fun hk => ?_]
        · exact hold
        · rw [hk, hfresh] at hold
          cases hold
      · exact hold
  · intro i b m hb hprev
    rw [h.keyOf hblock]
    obtain ⟨rfl, rfl, rfl⟩ | ⟨hb, -⟩ := hblocks hb hprev
    · exact ⟨prevKey, hkey, hmake⟩
    · exact hc.key hb hprev
  · intro i b m hb hprev
    rw [h.nextOrdinal hblock]
    obtain ⟨rfl, rfl, rfl⟩ | ⟨hb, -⟩ := hblocks hb hprev
    · exact hordinal
    · exact hc.ordinal hb hprev
  · intro i b hb
    rw [h.blocks, UMap.find?_set] at hb
    rw [h.tokens]
    split_ifs at hb with hi
    · cases hb
      exact @Chained.size _ _ _ _ hc id block hblock
    · exact hc.size hb
  · intro m k i hi
    obtain ⟨rfl, -, -⟩ | ⟨hi, -⟩ := hnext hi
    · exact h.canBeParent hself hparent
    · refine h.canBeParent ?_ (hc.full hi)
      rintro rfl
      obtain ⟨b, hb, -, hprev⟩ := hc.full hi
      cases hblock.symm.trans hb
      rw [horphan] at hprev
      cases hprev

/-! ### Detaching and attaching -/

lemma detachNext_relinked {k : Key} (hchild : (tree.next n).find? k = some id)
    (hblock : tree.blocks.find? id = some block) :
    Relinked tree (tree.detachNext n k) n ((tree.next n).erase k) id block none
      ∧ (tree.detachNext n k).events = tree.events ++ [.addRemovedBlock block.key] := by
  have hkey : (tree.keyOf (.block id)).getD k = block.key := by
    rw [BlockRadixTree.keyOf, hblock]
    rfl
  have hprev : tree.setPrev id none
      = { tree with blocks := tree.blocks.set id { block with prev := none } } := by
    simp only [setPrev, hblock]
  simp only [detachNext, hchild, hkey, hprev]
  cases n with
  | block i => exact ⟨⟨rfl, rfl, rfl, rfl, rfl, rfl, rfl⟩, rfl⟩
  | root key =>
    split_ifs
    · exact ⟨⟨rfl, rfl, rfl, rfl, rfl, rfl, rfl⟩, rfl⟩
    · exact ⟨⟨rfl, rfl, rfl, rfl, rfl, rfl, rfl⟩, rfl⟩

/-- Detaching a leaf keeps the tree well-formed. -/
lemma WellFormed.detachNext (h : tree.WellFormed keys)
    (hchild : (tree.next n).find? block.key = some id) (hblock : tree.blocks.find? id = some block)
    (hleaf : ∀ k, (tree.next (.block id)).find? k = none) :
    (tree.detachNext n block.key).WellFormed keys := by
  have hrelinked := (detachNext_relinked hchild hblock).1
  refine ⟨h.toChained.detach hchild hblock hleaf hrelinked, hrelinked.paged hblock h.toPaged, ?_⟩
  have hnext : ∀ {m k i}, ((tree.detachNext n block.key).next m).find? k = some i →
      (tree.next m).find? k = some i := by
    intro m k i hi
    rw [hrelinked.next, update_apply] at hi
    split_ifs at hi with hm
    · subst hm
      rw [UMap.find?_erase] at hi
      split_ifs at hi
      exact hi
    · exact hi
  intro m k k' i i' hi hi' hpre
  rw [hrelinked.tokensOf hblock, hrelinked.tokensOf hblock] at hpre
  exact h.incomparable (hnext hi) (hnext hi') hpre

/-- A block that is not full has no children. -/
lemma Chained.leaf (hc : tree.Chained keys) (hblock : tree.blocks.find? id = some block)
    (hshort : block.tokens.length < tree.mTokensPerBlock) (k : Key) :
    (tree.next (.block id)).find? k = none := by
  by_contra hne
  obtain ⟨i, hi⟩ := ne_none_iff_exists'.1 hne
  obtain ⟨b, hb, hfull, -⟩ := hc.full hi
  cases hblock.symm.trans hb
  omega

end Relinked

variable {block : Block Key} {id : ℕ} {n : NodeRef Key} {prevKey : Key} {tokens : List TokenIdExt}

/-- The children that a block covers are shorter prefixes of it. -/
lemma mem_coveredSiblings {sibling : Key × ℕ} :
    sibling ∈ tree.coveredSiblings n tokens ↔ (tree.next n).find? sibling.1 = some sibling.2
      ∧ (tree.tokensOf sibling.2).length < tokens.length
      ∧ tree.tokensOf sibling.2 <+: tokens := by
  simp only [coveredSiblings, mem_filter, Bool.and_eq_true, decide_eq_true_eq,
    isPrefixOf_iff_prefix, UMap.find?_eq_some_iff]

/-- The siblings that a new block covers are absorbed one by one: their entries go, and their
pages move. -/
lemma foldl_absorbSibling (siblings : List (Key × ℕ)) (hc : tree.Chained keys) (hp : tree.Paged)
    (hblock : tree.blocks.find? id = some block) (hnodup : (siblings.map fst).Nodup)
    (hsib : ∀ s ∈ siblings, (tree.next n).find? s.1 = some s.2
      ∧ (tree.tokensOf s.2).length < block.tokens.length ∧ s.2 ≠ id) :
    (siblings.foldl (absorbSibling n id) tree).Chained keys
      ∧ (siblings.foldl (absorbSibling n id) tree).Paged
      ∧ (∀ m k, ((siblings.foldl (absorbSibling n id) tree).next m).find? k
        = if m = n ∧ k ∈ siblings.map fst then none else (tree.next m).find? k)
      ∧ ∀ i, (siblings.foldl (absorbSibling n id) tree).tokensOf i = tree.tokensOf i := by
  induction siblings generalizing tree block with
  | nil => exact ⟨hc, hp, by simp, fun _ => rfl⟩
  | cons s siblings ih =>
    obtain ⟨hchild, hshort, hne⟩ := hsib s mem_cons_self
    obtain ⟨b, hb, hkey, hprev⟩ := hc.child hchild
    rw [← hkey] at hchild
    have hle := (hc.size hblock).2
    have hrelinked := (detachNext_relinked hchild hb).1
    have hleaf := fun k => hc.leaf hb (by rw [← tokensOf_eq hb]; omega) k
    have hblock' : (tree.detachNext n b.key).blocks.find? id = some block := by
      rw [hrelinked.blocks, UMap.find?_set, if_neg hne.symm, hblock]
    obtain ⟨hsame, hpaged⟩ := adoptPagesFrom_paged (hrelinked.paged hb hp) hblock'
      (show ((tree.detachNext n b.key).tokensOf s.2).length ≤ _ by
        rw [hrelinked.tokensOf hb]
        omega)
    have hstep : absorbSibling n id tree s = (tree.detachNext n b.key).adoptPagesFrom id s.2 := by
      rw [absorbSibling, hkey]
    have htokens : ∀ i, (absorbSibling n id tree s).tokensOf i = tree.tokensOf i := by
      intro i
      rw [hstep, tokensOf, hsame.blocks, ← tokensOf, hrelinked.tokensOf hb]
    have hnext : ∀ m k, ((absorbSibling n id tree s).next m).find? k
        = if m = n ∧ k = s.1 then none else (tree.next m).find? k := by
      intro m k
      rw [hstep, hsame.next, hrelinked.next, update_apply]
      by_cases hm : m = n
      · rw [if_pos hm, UMap.find?_erase, hkey, hm]
        simp only [true_and]
      · rw [if_neg hm, if_neg fun h => hm h.1]
    rw [map_cons, nodup_cons] at hnodup
    have hrest : ∀ r ∈ siblings, ((absorbSibling n id tree s).next n).find? r.1 = some r.2
        ∧ ((absorbSibling n id tree s).tokensOf r.2).length < block.tokens.length ∧ r.2 ≠ id := by
      intro r hr
      obtain ⟨hr1, hr2, hr3⟩ := hsib r (mem_cons_of_mem _ hr)
      refine ⟨?_, by rw [htokens]; exact hr2, hr3⟩
      rw [hnext, if_neg, hr1]
      rintro ⟨-, heq⟩
      exact hnodup.1 (heq ▸ List.mem_map_of_mem hr)
    obtain ⟨hchained, hpaged', hnext', htokens'⟩ := @ih (absorbSibling n id tree s) block
      (hstep ▸ hsame.chained (hc.detach hchild hb hleaf hrelinked)) (hstep ▸ hpaged)
      (by rw [hstep, hsame.blocks]; exact hblock') hnodup.2 hrest
    refine ⟨hchained, hpaged', fun m k => ?_, fun i => (htokens' i).trans (htokens i)⟩
    rw [foldl_cons, hnext', hnext]
    simp only [map_cons, mem_cons]
    split_ifs <;> first | rfl | tauto

/-- No block is found: no child has the key, and none covers the tokens. -/
lemma getExistingBlock_eq_none {k : Key} : tree.getExistingBlock n k tokens = none ↔
      (tree.next n).find? k = none ∧ (tokens.length < tree.tokensPerBlock n →
        ∀ k' id, (tree.next n).find? k' = some id → ¬ tokens <+: tree.tokensOf id) := by
  simp only [getExistingBlock]
  split
  · rename_i id hid
    simp [hid]
  · rename_i hnone
    split_ifs with hlt
    · simp only [map_eq_none_iff, find?_eq_none, isPrefixOf_iff_prefix,
        Prod.forall, hnone, hlt, true_and, true_imp_iff, UMap.find?_eq_some_iff]
    · simp [hnone, hlt]

section

variable (hc : tree.Chained keys)
include hc

/-- An existing block extends the tokens. -/
lemma getExistingBlock_eq_some (hkeys : keys.Injective) (hkey : tree.keyOf n = some prevKey)
    (h : tree.getExistingBlock n (keys.makeKey prevKey tokens) tokens = some id) :
    (∃ k, (tree.next n).find? k = some id) ∧ tokens <+: tree.tokensOf id := by
  simp only [getExistingBlock] at h
  split at h
  · rename_i id' hid
    cases h
    obtain ⟨b, hb, hbkey, hprev⟩ := hc.child hid
    obtain ⟨prevKey', hkey', hmake⟩ := hc.key hb hprev
    cases hkey.symm.trans hkey'
    have heq := (hkeys (hmake.symm.trans hbkey)).2
    exact ⟨⟨_, hid⟩, by rw [tokensOf_eq hb, heq]⟩
  · split_ifs at h
    obtain ⟨sibling, hsibling, rfl⟩ := map_eq_some_iff.1 h
    have hmem := mem_of_find?_eq_some hsibling
    have hpre := find?_some hsibling
    exact ⟨⟨sibling.1, UMap.find?_eq_some_iff.2 hmem⟩, isPrefixOf_iff_prefix.1 hpre⟩

/-- Blocks of the tree's size are expected below an attached block. -/
lemma Chained.tokensPerBlock_eq (hblock : tree.blocks.find? id = some block) :
    tree.tokensPerBlock (.block id) = tree.mTokensPerBlock := by
  simp only [tokensPerBlock, hblock, bind_some]
  split
  · rename_i prev hprev
    obtain ⟨p, hp, hlength, -⟩ := hc.full (hc.parent hblock hprev)
    rw [tokensOf_eq hp, hlength]
  · rfl

/-- The checks on a parent. -/
lemma Chained.checkParent_iff : tree.checkParent n = true ↔ tree.CanBeParent n := by
  cases n with
  | root key => simp [checkParent, CanBeParent]
  | block id =>
    simp only [checkParent, CanBeParent, Option.any_eq_true, Bool.and_eq_true, decide_eq_true_eq]
    constructor
    · rintro ⟨b, hb, hattached, hfull⟩
      exact ⟨b, hb, by rw [hfull, hc.tokensPerBlock_eq hb], hattached⟩
    · rintro ⟨b, hb, hfull, hattached⟩
      exact ⟨b, hb, hattached, by rw [hfull, hc.tokensPerBlock_eq hb]⟩

lemma Chained.tokensPerBlock_parent (h : tree.CanBeParent n) :
    tree.tokensPerBlock n = tree.mTokensPerBlock := by
  cases n with
  | root key => rfl
  | block id =>
    obtain ⟨b, hb, -, -⟩ := h
    exact hc.tokensPerBlock_eq hb

/-- A child with these tokens is stored under the key made of them. -/
lemma Chained.key_of_tokens {k : Key} (hkey : tree.keyOf n = some prevKey)
    (hchild : (tree.next n).find? k = some id) : k = keys.makeKey prevKey (tree.tokensOf id) := by
  obtain ⟨b, hb, hbkey, hprev⟩ := hc.child hchild
  obtain ⟨prevKey', hkey', hmake⟩ := hc.key hb hprev
  cases hkey.symm.trans hkey'
  rw [tokensOf_eq hb, ← hmake, hbkey]

end

lemma attachBlock_relinked (hblock : tree.blocks.find? id = some block) :
    Relinked tree ((tree.setPrev id (some n)).setNext n ((tree.next n).set block.key id)) n
      ((tree.next n).set block.key id) id block (some n) := by
  have hprev : tree.setPrev id (some n)
      = { tree with blocks := tree.blocks.set id { block with prev := some n } } := by
    simp only [setPrev, hblock]
  rw [hprev]
  exact ⟨rfl, rfl, rfl, rfl, rfl, rfl, rfl⟩

/-- **Attaching a block that nothing in the tree covers** keeps the tree well-formed: the
siblings that the block covers are absorbed. -/
theorem WellFormed.attachBlock (h : tree.WellFormed keys) (hparent : tree.CanBeParent n)
    (hblock : tree.blocks.find? id = some block) (horphan : block.prev = none)
    (hkey : tree.keyOf n = some prevKey) (hmake : block.key = keys.makeKey prevKey block.tokens)
    (hordinal : block.ordinal = tree.nextOrdinal n)
    (hnone : tree.getExistingBlock n block.key block.tokens = none) :
    (tree.attachBlock n id block).WellFormed keys
      ∧ ((tree.attachBlock n id block).next n).find? block.key = some id
      ∧ ∀ i, (tree.attachBlock n id block).tokensOf i = tree.tokensOf i := by
  have hT := h.toChained.tokensPerBlock_parent hparent
  obtain ⟨hfresh, huncovered⟩ := getExistingBlock_eq_none.1 hnone
  have hrelinked := attachBlock_relinked (n := n) hblock
  have hchained := h.toChained.attach hparent hblock horphan hkey hmake hordinal hfresh hrelinked
  have hpaged := hrelinked.paged hblock h.toPaged
  generalize ht0 : (tree.setPrev id (some n)).setNext n ((tree.next n).set block.key id) = t0
    at hrelinked hchained hpaged
  have hunlinked : ∀ {m k}, (tree.next m).find? k ≠ some id := by
    intro m k hi
    obtain ⟨b, hb, -, hprev⟩ := h.child hi
    cases hblock.symm.trans hb
    rw [horphan] at hprev
    cases hprev
  have hnext0 : ∀ m k, (t0.next m).find? k
      = if m = n ∧ k = block.key then some id else (tree.next m).find? k := by
    intro m k
    rw [hrelinked.next, update_apply]
    by_cases hm : m = n
    · subst hm
      rw [if_pos rfl, UMap.find?_set]
      simp only [true_and]
    · rw [if_neg hm, if_neg fun hmk => hm hmk.1]
  have hsib : ∀ s ∈ tree.coveredSiblings n block.tokens, (t0.next n).find? s.1 = some s.2
      ∧ (t0.tokensOf s.2).length < ({ block with prev := some n } : Block Key).tokens.length
      ∧ s.2 ≠ id := by
    intro s hs
    obtain ⟨hchild, hshort, -⟩ := mem_coveredSiblings.1 hs
    refine ⟨?_, by rw [hrelinked.tokensOf hblock]; exact hshort, fun hid => ?_⟩
    · rw [hnext0, if_neg, hchild]
      rintro ⟨-, hk⟩
      rw [hk, hfresh] at hchild
      cases hchild
    · exact hunlinked (hid ▸ hchild)
  have hnodup : ((tree.coveredSiblings n block.tokens).map fst).Nodup :=
    (Sublist.map fst filter_sublist).nodup (tree.next n).nodup
  obtain ⟨hchained', hpaged', hnext, htokens⟩ := foldl_absorbSibling
    (tree.coveredSiblings n block.tokens) hchained hpaged
    (by rw [hrelinked.blocks, UMap.find?_set, if_pos rfl]) hnodup hsib
  have hresult : tree.attachBlock n id block
      = (tree.coveredSiblings n block.tokens).foldl (absorbSibling n id) t0 := by
    rw [BlockRadixTree.attachBlock, ht0]
  rw [← hresult] at hchained' hpaged' hnext htokens
  have htokens' : ∀ i, (tree.attachBlock n id block).tokensOf i = tree.tokensOf i :=
    fun i => (htokens i).trans (hrelinked.tokensOf hblock i)
  have hkeyOfTokens : ∀ {k i}, (tree.next n).find? k = some i →
      tree.tokensOf i = block.tokens → False := by
    intro k i hi heq
    rw [h.toChained.key_of_tokens hkey hi, heq, ← hmake, hfresh] at hi
    cases hi
  -- A child of the result is the new block, or an old one that was not covered.
  have hcases : ∀ {m k i}, ((tree.attachBlock n id block).next m).find? k = some i →
      (m = n ∧ i = id) ∨ ((tree.next m).find? k = some i
        ∧ (m = n → (k, i) ∉ tree.coveredSiblings n block.tokens)) := by
    intro m k i hi
    rw [hnext] at hi
    split_ifs at hi with hcovered
    rw [hnext0] at hi
    split_ifs at hi with hnew
    · exact .inl ⟨hnew.1, (some.inj hi).symm⟩
    · exact .inr ⟨hi, fun hm hmem => hcovered ⟨hm, List.mem_map_of_mem hmem⟩⟩
  refine ⟨⟨hchained', hpaged', ?_⟩, ?_, htokens'⟩
  · intro m k k' i i' hi hi' hpre
    rw [htokens', htokens'] at hpre
    obtain ⟨rfl, rfl⟩ | ⟨hold, hkept⟩ := hcases hi
    · obtain ⟨-, rfl⟩ | ⟨hold', -⟩ := hcases hi'
      · rfl
      · rw [tokensOf_eq hblock] at hpre
        exfalso
        obtain ⟨b, hb, -, -⟩ := h.child hold'
        have hsize := (h.size hb).2
        rw [← tokensOf_eq hb] at hsize
        by_cases hlt : block.tokens.length < tree.mTokensPerBlock
        · exact huncovered (hT ▸ hlt) k' i' hold' hpre
        · exact hkeyOfTokens hold' (hpre.eq_of_length_le (by omega)).symm
    · obtain ⟨rfl, rfl⟩ | ⟨hold', -⟩ := hcases hi'
      · rw [tokensOf_eq hblock] at hpre
        exfalso
        by_cases hlt : (tree.tokensOf i).length < block.tokens.length
        · exact hkept rfl (mem_coveredSiblings.2 ⟨hold, hlt, hpre⟩)
        · exact hkeyOfTokens hold (hpre.eq_of_length_le (by omega))
      · exact h.incomparable hold hold' hpre
  · rw [hnext, if_neg, hnext0, if_pos ⟨rfl, rfl⟩]
    rintro ⟨-, hmem⟩
    obtain ⟨s, hs, hs1⟩ := List.mem_map.1 hmem
    have hchild := (mem_coveredSiblings.1 hs).1
    rw [hs1, hfresh] at hchild
    cases hchild

end TrtLlm.KvCacheV2.BlockRadixTree
