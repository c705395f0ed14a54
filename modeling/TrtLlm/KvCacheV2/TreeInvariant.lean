import TrtLlm.KvCacheV2.RemoveSubtree

/-!
Every operation of the block radix tree keeps it well-formed, and so does every sequence of
calls on an empty tree.
-/

namespace TrtLlm.KvCacheV2.BlockRadixTree

open List Option UMap

variable {Key : Type*} [DecidableEq Key] {keys : KeyScheme Key} {tree t u : BlockRadixTree Key}

/-! ### Attaching -/

variable {block : Block Key} {i id : ℕ} {n : NodeRef Key}

omit [DecidableEq Key] in
lemma le_foldr_max {ids : List ℕ} (h : i ∈ ids) : i ≤ ids.foldr max 0 := by
  induction ids with
  | nil => cases h
  | cons a ids ih =>
    rw [foldr_cons]
    obtain rfl | htail := mem_cons.1 h
    · exact le_max_left _ _
    · exact (ih htail).trans (le_max_right _ _)

omit [DecidableEq Key] in
lemma find?_freshBlock (tree : BlockRadixTree Key) : tree.blocks.find? tree.freshBlock = none := by
  rw [find?_eq_none_iff]
  intro hmem
  have := le_foldr_max hmem
  simp only [freshBlock] at this
  omega

omit [DecidableEq Key] in
lemma find?_freshPage (tree : BlockRadixTree Key) : tree.pages.find? tree.freshPage = none := by
  rw [find?_eq_none_iff]
  intro hmem
  have := le_foldr_max hmem
  simp only [freshPage] at this
  omega

omit [DecidableEq Key] in
lemma find?_addBlock (i : ℕ) : (tree.addBlock block).blocks.find? i
    = if i = tree.freshBlock then some block else tree.blocks.find? i :=
  find?_set _ _ _ _

omit [DecidableEq Key] in
lemma find?_addBlock_of_some (block : Block Key) {b : Block Key}
    (h : tree.blocks.find? i = some b) : (tree.addBlock block).blocks.find? i = some b := by
  rw [find?_addBlock, if_neg, h]
  rintro rfl
  rw [find?_freshBlock] at h
  cases h

omit [DecidableEq Key] in
lemma tokensOf_addBlock {b : Block Key} (h : tree.blocks.find? i = some b) :
    (tree.addBlock block).tokensOf i = tree.tokensOf i := by
  rw [tokensOf_eq h, tokensOf_eq (find?_addBlock_of_some block h)]

/-- A new block is not a parent. -/
lemma CanBeParent.addBlock (h : tree.CanBeParent n) (block : Block Key) :
    (tree.addBlock block).CanBeParent n ∧ (tree.addBlock block).keyOf n = tree.keyOf n
      ∧ (tree.addBlock block).nextOrdinal n = tree.nextOrdinal n := by
  cases n with
  | root key => exact ⟨h, rfl, rfl⟩
  | block i =>
    obtain ⟨b, hb, hlength, hprev⟩ := h
    have hb' := find?_addBlock_of_some block hb
    refine ⟨⟨b, hb', hlength, hprev⟩, ?_, ?_⟩
    · rw [keyOf, keyOf, hb, hb']
    · rw [nextOrdinal, nextOrdinal, hb, hb']

section

variable (h : tree.WellFormed keys)
include h

/-- A block under construction is in no relation to the others. -/
lemma WellFormed.addBlock (horphan : block.prev = none)
    (hsize : 0 < block.tokens.length ∧ block.tokens.length ≤ tree.mTokensPerBlock) :
    (tree.addBlock block).WellFormed keys := by
  have hold : ∀ {i b n}, (tree.addBlock block).blocks.find? i = some b → b.prev = some n →
      tree.blocks.find? i = some b := by
    intro i b n hb hprev
    rw [find?_addBlock] at hb
    split_ifs at hb with hi
    · cases hb
      rw [horphan] at hprev
      cases hprev
    · exact hb
  refine ⟨⟨?_, ?_, ?_, ?_, ?_, ?_⟩, ⟨h.page, ?_, h.slot⟩, ?_⟩
  · intro n k id hid
    obtain ⟨b, hb, hkey, hprev⟩ := h.child hid
    exact ⟨b, find?_addBlock_of_some block hb, hkey, hprev⟩
  · exact fun hb hprev => h.parent (hold hb hprev) hprev
  · intro id b n hb hprev
    have hb := hold hb hprev
    rw [((h.full (h.parent hb hprev)).addBlock block).2.1]
    exact h.key hb hprev
  · intro id b n hb hprev
    have hb := hold hb hprev
    rw [((h.full (h.parent hb hprev)).addBlock block).2.2]
    exact h.ordinal hb hprev
  · intro id b hb
    rw [find?_addBlock] at hb
    split_ifs at hb with hi
    · cases hb
      exact hsize
    · exact h.size hb
  · exact fun hid => ((h.full hid).addBlock block).1
  · intro p page id hpage hid
    obtain ⟨b, hb, hle⟩ := h.covers hpage hid
    exact ⟨b, find?_addBlock_of_some block hb, hle⟩
  · intro n k k' id id' hid hid' hpre
    obtain ⟨b, hb, -, -⟩ := h.child hid
    obtain ⟨b', hb', -, -⟩ := h.child hid'
    rw [tokensOf_addBlock hb, tokensOf_addBlock hb'] at hpre
    exact h.incomparable hid hid' hpre

/-- **Adding a block**: the tree stays well-formed, and the block it returns is a child of the
node whose tokens extend the requested ones. -/
theorem WellFormed.addOrGetExistingBlock (hkeys : keys.Injective) {tokens : List TokenIdExt}
    (hadd : tree.addOrGetExistingBlock keys n tokens = some (t, id)) :
    t.WellFormed keys ∧ tokens <+: t.tokensOf id ∧ ∃ k, (t.next n).find? k = some id := by
  simp only [BlockRadixTree.addOrGetExistingBlock] at hadd
  split at hadd
  · rename_i hchecks
    simp only [Bool.and_eq_true, decide_eq_true_eq] at hchecks
    obtain ⟨⟨hcheck, hpos⟩, hle⟩ := hchecks
    have hparent := h.toChained.checkParent_iff.1 hcheck
    obtain ⟨prevKey, hkey, hresult⟩ := map_eq_some_iff.1 hadd
    split at hresult
    · rename_i existing hexisting
      cases hresult
      obtain ⟨hchild, hpre⟩ := getExistingBlock_eq_some h.toChained hkeys hkey hexisting
      exact ⟨h, hpre, hchild⟩
    · rename_i hnone
      cases hresult
      set block : Block Key := ⟨keys.makeKey prevKey tokens, tokens, none, tree.nextOrdinal n⟩
      have hwf : (tree.addBlock block).WellFormed keys := h.addBlock rfl ⟨hpos, hle⟩
      obtain ⟨hparent', hkeyOf, hordinal⟩ := hparent.addBlock block
      have hblock : (tree.addBlock block).blocks.find? tree.freshBlock = some block := by
        rw [find?_addBlock, if_pos rfl]
      -- The query does not see the new block.
      have hnone' : (tree.addBlock block).getExistingBlock n block.key block.tokens = none := by
        rw [getExistingBlock_eq_none] at hnone ⊢
        refine ⟨hnone.1, fun hlt k' i hi => ?_⟩
        rw [hwf.toChained.tokensPerBlock_parent hparent'] at hlt
        obtain ⟨b, hb, -, -⟩ := h.child hi
        rw [tokensOf_addBlock hb]
        exact hnone.2 (by rw [h.toChained.tokensPerBlock_parent hparent]; exact hlt) k' i hi
      obtain ⟨hresult, hchild, htokens⟩ := hwf.attachBlock hparent' hblock rfl
        (hkeyOf.trans hkey) rfl hordinal.symm hnone'
      exact ⟨hresult, by rw [htokens, tokensOf_eq hblock], _, hchild⟩
  · cases hadd

/-- **Attaching a block again**: the block that is then in the tree extends it. -/
theorem WellFormed.attachOrGetExistingBlock (hkeys : keys.Injective) {id' : ℕ}
    (hattach : tree.attachOrGetExistingBlock keys n id = some (t, id')) :
    t.WellFormed keys ∧ tree.tokensOf id <+: t.tokensOf id'
      ∧ ∃ k, (t.next n).find? k = some id' := by
  obtain ⟨block, hblock, hresult⟩ := bind_eq_some_iff.1 hattach
  split at hresult
  · rename_i hchecks
    simp only [Bool.and_eq_true, continues, decide_eq_true_eq, Option.any_eq_true] at hchecks
    obtain ⟨hcheck, ⟨horphan, hordinal⟩, prevKey, hkey, hmake⟩ := hchecks
    have hparent := h.toChained.checkParent_iff.1 hcheck
    rw [tokensOf_eq hblock]
    split at hresult
    · rename_i existing hexisting
      rw [hmake] at hexisting
      obtain ⟨⟨k, hchild⟩, hpre⟩ := getExistingBlock_eq_some h.toChained hkeys hkey hexisting
      cases hresult
      split_ifs with hadopt
      · obtain ⟨found, hfound, -, -⟩ := h.child hchild
        have hle := hpre.length_le
        rw [tokensOf_eq hfound] at hle
        obtain ⟨hsame, hpaged⟩ := adoptPagesFrom_paged h.toPaged hfound
          (show (tree.tokensOf id).length ≤ _ by rw [tokensOf_eq hblock]; exact hle)
        refine ⟨⟨hsame.chained h.toChained, hpaged, hsame.incomparable h.incomparable⟩, ?_, k, ?_⟩
        · rw [tokensOf, hsame.blocks]
          exact hpre
        · rw [hsame.next, hchild]
      · exact ⟨h, hpre, k, hchild⟩
    · rename_i hnone
      cases hresult
      obtain ⟨hwf, hchild, htokens⟩ :=
        h.attachBlock hparent hblock horphan hkey hmake hordinal hnone
      exact ⟨hwf, by rw [htokens, tokensOf_eq hblock], _, hchild⟩
  · cases hresult

/-! ### Pages -/

/-- Operations on the pages keep the chains. -/
lemma SameChains.wellFormed (hsame : SameChains tree t)
    (hpaged : t.Paged) : t.WellFormed keys :=
  ⟨hsame.chained h.toChained, hpaged, hsame.incomparable h.incomparable⟩

/-- **Committing a page.** -/
theorem WellFormed.commitPage {lc numTokens : ℕ}
    (hcommit : tree.commitPage id lc numTokens = some t) : t.WellFormed keys := by
  obtain ⟨block, hblock, hresult⟩ := bind_eq_some_iff.1 hcommit
  split at hresult
  · rename_i hchecks
    simp only [Bool.and_eq_true, decide_eq_true_eq] at hchecks
    obtain ⟨⟨⟨hlc, -⟩, hcovers⟩, -⟩ := hchecks
    cases hresult
    set built : BlockRadixTree Key :=
      { tree with pages := tree.pages.set tree.freshPage ⟨none, lc, numTokens⟩ } with hbuilt
    have hpages : ∀ p, built.pages.find? p
        = if p = tree.freshPage then some ⟨none, lc, numTokens⟩ else tree.pages.find? p :=
      fun p => find?_set _ _ _ _
    -- The page sits in no slot yet.
    have hloose : PagedBut built (some tree.freshPage) := by
      refine ⟨?_, ?_, ?_, ?_⟩
      · intro i l p hp
        rw [hpages, if_neg fun heq => hp (congrArg some heq)]
        exact h.page
      · intro i l p hp hslot
        cases hp
        obtain ⟨page, hpage, -, -⟩ := h.page.1 hslot
        rw [find?_freshPage] at hpage
        cases hpage
      · intro p page i hp hpage hi
        rw [hpages, if_neg fun heq => hp (congrArg some heq)] at hpage
        exact h.covers hpage hi
      · intro p page hpage
        rw [hpages] at hpage
        split_ifs at hpage
        · cases hpage
          exact hlc
        · exact h.slot hpage
    have hsame : SameChains tree (built.replacePage id lc tree.freshPage) :=
      SameChains.trans (t := built) ⟨rfl, rfl, rfl, rfl, rfl, rfl⟩ (replacePage_same _ _ _ _)
    exact hsame.wellFormed h
      (hloose.replacePage (by rw [hpages, if_pos rfl]) hblock hcovers)
  · cases hresult

end

/-- Blocks are pruned from the tail up, each a leaf when its turn comes. -/
lemma pruneTail_detached (fuel : ℕ) : ∀ {tree : BlockRadixTree Key} (id : ℕ),
    tree.WellFormed keys → (pruneTail fuel tree id).WellFormed keys
      ∧ ∃ gone, Detached tree (pruneTail fuel tree id) gone := by
  induction fuel with
  | zero => exact fun id h => ⟨h, [], .refl _⟩
  | succ fuel ih =>
    intro tree id h
    simp only [pruneTail]
    split
    · rename_i hempty
      simp only [Bool.and_eq_true, decide_eq_true_eq] at hempty
      have hleaf := leaf_of_entries (length_eq_zero_iff.1 hempty.1)
      cases hblock : tree.blocks.find? id with
      | none => exact ⟨h, [], .refl _⟩
      | some block =>
        cases hprev : block.prev with
        | none => simpa only [hprev] using ⟨h, [], .refl _⟩
        | some n =>
          obtain ⟨hwf, hdetached⟩ := detached_leaf h hblock hprev hleaf
          cases n with
          | root key => simpa only [hprev] using ⟨hwf, [id], hdetached⟩
          | block prev =>
            obtain ⟨hwf', gone, hgone⟩ := ih prev hwf
            simpa only [hprev] using ⟨hwf', [id] ++ gone, hdetached.trans hgone⟩
    · exact ⟨h, [], .refl _⟩

section

variable (h : tree.WellFormed keys)
include h

lemma WellFormed.emit (event : TreeEvent Key) : (tree.emit event).WellFormed keys :=
  ⟨⟨h.child, h.parent, h.key, h.ordinal, h.size, h.full⟩, ⟨h.page, h.covers, h.slot⟩,
    h.incomparable⟩

/-- **Clearing stale blocks** ends, and leaves the pages and their slots alone. -/
lemma WellFormed.clearStaleBlocksAfterPageUnlink (hblock : tree.blocks.find? id = some block)
    (lc : ℕ) : ∃ t, tree.clearStaleBlocksAfterPageUnlink id lc = some t ∧ t.WellFormed keys
      ∧ t.pages = tree.pages ∧ t.storage = tree.storage := by
  rw [BlockRadixTree.clearStaleBlocksAfterPageUnlink, hblock, bind_some]
  cases hprev : block.prev with
  | none => exact ⟨tree, rfl, h, rfl, rfl⟩
  | some n =>
    dsimp only
    split
    · obtain ⟨t, gone, hremove, hremoved⟩ := h.removeSubtree ⟨block, n, hblock, hprev⟩
      rw [hremove]
      cases n with
      | root key =>
        exact ⟨t, rfl, hremoved.wellFormed, hremoved.detached.pages, hremoved.detached.storage⟩
      | block prev =>
        obtain ⟨hwf, gone', hgone⟩ := pruneTail_detached block.ordinal prev hremoved.wellFormed
        exact ⟨_, rfl, hwf, hgone.pages.trans hremoved.detached.pages,
          hgone.storage.trans hremoved.detached.storage⟩
    · obtain ⟨hwf, gone, hgone⟩ := pruneTail_detached (block.ordinal + 1) id
        (h.emit (.addRemovedLifeCycle block.key lc))
      exact ⟨_, rfl, hwf, hgone.pages, hgone.storage⟩

/-- A page that sits in no slot may go. -/
lemma WellFormed.erasePage {p : ℕ}
    (hloose : ∀ page, tree.pages.find? p = some page → page.block = none) :
    WellFormed { tree with pages := tree.pages.erase p } keys := by
  have hsame : SameChains tree { tree with pages := tree.pages.erase p } :=
    ⟨rfl, rfl, rfl, rfl, rfl, rfl⟩
  refine hsame.wellFormed h ⟨?_, ?_, ?_⟩
  · intro i lc q
    simp only [find?_erase]
    split_ifs with hq
    · subst hq
      simp only [false_and, exists_false, iff_false]
      intro hslot
      obtain ⟨page, hpage, hblock, -⟩ := h.page.1 hslot
      rw [hloose page hpage] at hblock
      cases hblock
    · exact h.page
  · intro q page i hpage hi
    simp only [find?_erase] at hpage
    split_ifs at hpage
    exact h.covers hpage hi
  · intro q page hpage
    simp only [find?_erase] at hpage
    split_ifs at hpage
    exact h.slot hpage

/-- **Dropping a page** succeeds for every page. -/
theorem WellFormed.dropPage {p : ℕ} {page : CommittedPage}
    (hpage : tree.pages.find? p = some page) :
    ∃ t, tree.dropPage p = some t ∧ t.WellFormed keys := by
  rw [BlockRadixTree.dropPage, hpage, bind_some, cleanUpPage]
  cases hblock : page.block with
  | none =>
    refine ⟨_, rfl, h.erasePage fun page' hpage' => ?_⟩
    cases hpage.symm.trans hpage'
    exact hblock
  | some id =>
    have hslot := h.page.2 ⟨page, hpage, hblock, rfl⟩
    obtain ⟨block, hid, -⟩ := h.covers hpage hblock
    have hsame := unlinkPage_same tree id page.lifeCycle
    have hwf := hsame.wellFormed h (h.toPaged.but.unlink id page.lifeCycle).paged
    obtain ⟨t, hclear, hwf', hpages, hstorage⟩ := hwf.clearStaleBlocksAfterPageUnlink
      (by rw [hsame.blocks, hid]) page.lifeCycle
    dsimp only
    rw [if_pos hslot, hclear]
    refine ⟨_, rfl, hwf'.erasePage fun page' hpage' => ?_⟩
    rw [hpages] at hpage'
    simp only [unlinkPage, hslot, setStorage] at hpage'
    rw [find?_setPageBlock, if_pos rfl, hpage] at hpage'
    cases hpage'
    rfl

/-- **A detached block is destroyed** together with the links of its pages. -/
theorem WellFormed.destroyBlock (hdestroy : tree.destroyBlock id = some t) : t.WellFormed keys := by
  obtain ⟨block, hblock, hresult⟩ := bind_eq_some_iff.1 hdestroy
  split at hresult
  · rename_i horphan
    cases hresult
    obtain ⟨hsame, hpaged, hstorage⟩ := foldl_unlinkPage id
      (range tree.mLifeCycles.size) h.toPaged
    generalize (range tree.mLifeCycles.size).foldl (fun t lc => unlinkPage t id lc) tree
      = released at hsame hpaged hstorage
    have hwf := hsame.wellFormed h hpaged
    rw [← hsame.blocks] at hblock
    -- No page is left in a slot of the block.
    have hempty : ∀ lc, released.storage id lc = none := by
      intro lc
      by_contra hne
      obtain ⟨p, hp⟩ := ne_none_iff_exists'.1 hne
      obtain ⟨page, hpage, -, rfl⟩ := hwf.page.1 hp
      have hlc := hwf.slot hpage
      rw [hsame.registry] at hlc
      rw [hstorage, if_pos ⟨rfl, mem_range.2 hlc⟩] at hp
      cases hp
    have hkept : ∀ {i b n}, released.blocks.find? i = some b → b.prev = some n →
        (released.blocks.erase id).find? i = some b := by
      intro i b n hb hprev
      rw [find?_erase, if_neg, hb]
      rintro rfl
      cases hblock.symm.trans hb
      rw [horphan] at hprev
      cases hprev
    have hold : ∀ {i b}, (released.blocks.erase id).find? i = some b →
        released.blocks.find? i = some b := by
      intro i b hb
      rw [find?_erase] at hb
      split_ifs at hb
      exact hb
    set t : BlockRadixTree Key := { released with blocks := released.blocks.erase id } with ht
    have hnode : ∀ {n}, released.CanBeParent n → t.CanBeParent n
        ∧ t.keyOf n = released.keyOf n ∧ t.nextOrdinal n = released.nextOrdinal n := by
      intro n hn
      cases n with
      | root key => exact ⟨hn, rfl, rfl⟩
      | block i =>
        obtain ⟨b, hb, hlength, hattached⟩ := hn
        obtain ⟨m, hm⟩ := isSome_iff_exists.1 hattached
        have hb' : t.blocks.find? i = some b := hkept hb hm
        refine ⟨⟨b, hb', hlength, hattached⟩, ?_, ?_⟩
        · rw [keyOf, keyOf, hb, hb']
        · rw [nextOrdinal, nextOrdinal, hb, hb']
    refine ⟨⟨?_, ?_, ?_, ?_, ?_, ?_⟩, ⟨hwf.page, ?_, hwf.slot⟩, ?_⟩
    · intro n k i hi
      obtain ⟨b, hb, hkey, hprev⟩ := hwf.child hi
      exact ⟨b, hkept hb hprev, hkey, hprev⟩
    · exact fun hb hprev => hwf.parent (hold hb) hprev
    · intro i b n hb hprev
      rw [(hnode (hwf.full (hwf.parent (hold hb) hprev))).2.1]
      exact hwf.key (hold hb) hprev
    · intro i b n hb hprev
      rw [(hnode (hwf.full (hwf.parent (hold hb) hprev))).2.2]
      exact hwf.ordinal (hold hb) hprev
    · exact fun hb => hwf.size (hold hb)
    · exact fun hi => (hnode (hwf.full hi)).1
    · intro p page i hpage hi
      obtain ⟨b, hb, hle⟩ := hwf.covers hpage hi
      refine ⟨b, ?_, hle⟩
      rw [ht, find?_erase, if_neg, hb]
      rintro rfl
      have hslot := hwf.page.2 ⟨page, hpage, hi, rfl⟩
      rw [hempty] at hslot
      cases hslot
    · intro n k k' i i' hi hi' hpre
      obtain ⟨b, hb, -, hprev⟩ := hwf.child hi
      obtain ⟨b', hb', -, hprev'⟩ := hwf.child hi'
      have hi1 : t.tokensOf i = b.tokens := tokensOf_eq (hkept hb hprev)
      have hi2 : t.tokensOf i' = b'.tokens := tokensOf_eq (hkept hb' hprev')
      rw [hi1, hi2, ← tokensOf_eq hb, ← tokensOf_eq hb'] at hpre
      exact hwf.incomparable hi hi' hpre
  · cases hresult

/-! ### Roots -/

/-- Roots without children come and go. -/
lemma WellFormed.withRoots {roots : USet Key} {pending : List Key}
    (hroots : ∀ {key k id}, (tree.next (.root key)).find? k = some id → key ∈ roots) :
    WellFormed { tree with mRoots := roots, mPendingRootErases := pending } keys := by
  set t : BlockRadixTree Key := { tree with mRoots := roots, mPendingRootErases := pending }
  have hkeyOf : ∀ {n k id}, (tree.next n).find? k = some id → t.keyOf n = tree.keyOf n := by
    intro n k id hid
    cases n with
    | root key =>
      have hold : key ∈ tree.mRoots := h.full hid
      have hnew : key ∈ t.mRoots := hroots hid
      rw [keyOf, keyOf, if_pos hold, if_pos hnew]
    | block i => rfl
  refine ⟨⟨h.child, h.parent, ?_, ?_, h.size, ?_⟩, ⟨h.page, h.covers, h.slot⟩, h.incomparable⟩
  · intro id b n hb hprev
    rw [hkeyOf (h.parent hb hprev)]
    exact h.key hb hprev
  · intro id b n hb hprev
    rw [h.ordinal hb hprev]
    cases n <;> rfl
  · intro n k id hid
    cases n with
    | root key => exact hroots hid
    | block i => exact h.full hid

end

/-- Draining the proposals leaves the roots that have children. -/
lemma mem_drain {key : Key} (pending : List Key) (roots : USet Key)
    (hchild : (tree.next (.root key)).size ≠ 0) (hroot : key ∈ roots) :
    key ∈ pending.foldl
      (fun roots key => if (tree.next (.root key)).size = 0 then roots.erase key else roots)
      roots := by
  induction pending generalizing roots with
  | nil => exact hroot
  | cons first pending ih =>
    refine ih _ ?_
    dsimp only
    split_ifs with hempty
    · refine mem_erase.2 ⟨?_, hroot⟩
      rintro rfl
      exact hchild hempty
    · exact hroot

theorem WellFormed.addOrGetExisting (h : tree.WellFormed keys) (reuseScope : ReuseScope) :
    (tree.addOrGetExisting keys reuseScope).WellFormed keys := by
  refine h.withRoots fun {key k id} hid => USet.mem_insert.2 (.inr ?_)
  refine mem_drain _ _ ?_ (h.full hid)
  have hmem := find?_eq_some_iff.1 hid
  exact (length_pos_of_mem hmem).ne'

/-- The loop over the children of a root ends. -/
lemma clearRoot_detached {key : Key} (fuel : ℕ) : ∀ {tree : BlockRadixTree Key},
    tree.WellFormed keys → (tree.next (.root key)).size < fuel →
      ∃ t gone, clearRoot fuel tree key = some t ∧ t.WellFormed keys ∧ Detached tree t gone
        ∧ (t.next (.root key)).entries = [] := by
  induction fuel with
  | zero => intro tree _ hfuel; omega
  | succ fuel ih =>
    intro tree h hfuel
    rw [clearRoot]
    cases hentries : (tree.next (.root key)).entries with
    | nil => exact ⟨tree, [], rfl, h, .refl _, hentries⟩
    | cons child rest =>
      have hchild : (tree.next (.root key)).find? child.1 = some child.2 :=
        find?_eq_some_iff.2 (hentries ▸ mem_cons_self)
      obtain ⟨b, hb, -, hprev⟩ := h.child hchild
      obtain ⟨t, gone, hremove, hremoved⟩ := h.removeSubtree ⟨b, _, hb, hprev⟩
      have hlt : (t.next (.root key)).size < (tree.next (.root key)).size := by
        refine size_lt (fun k hk => ?_) (mem_of_find? hchild) fun hk => ?_
        · obtain ⟨i, hi⟩ := mem_iff_find?.1 hk
          exact mem_of_find? (hremoved.detached.child.1 hi).1
        · obtain ⟨i, hi⟩ := mem_iff_find?.1 hk
          obtain ⟨hold, hne⟩ := hremoved.detached.child.1 hi
          cases hchild.symm.trans hold
          exact hne ((hremoved.subtree _).2 .refl)
      obtain ⟨u, gone', hclear, hwf, hgone, hempty⟩ := ih hremoved.wellFormed (by omega)
      refine ⟨u, gone ++ gone', ?_, hwf, hremoved.detached.trans hgone, hempty⟩
      dsimp only
      rw [hremove, bind_some, hclear]

lemma clearRoots_detached (roots : List Key) : ∀ {tree : BlockRadixTree Key},
    tree.WellFormed keys → ∃ t gone, clearRoots roots tree = some t ∧ t.WellFormed keys
      ∧ Detached tree t gone ∧ ∀ key ∈ roots, ∀ k, (t.next (.root key)).find? k = none := by
  induction roots with
  | nil => exact fun h => ⟨_, [], rfl, h, .refl _, by simp⟩
  | cons key roots ih =>
    intro tree h
    obtain ⟨t, gone, hclear, hwf, hgone, hempty⟩ := clearRoot_detached
      ((tree.next (.root key)).size + 1) h (Nat.lt_succ_self _)
    obtain ⟨u, gone', hclears, hwf', hgone', hempty'⟩ := ih hwf
    refine ⟨u, gone ++ gone', ?_, hwf', hgone.trans hgone', fun key' hkey' k => ?_⟩
    · rw [clearRoots, hclear, bind_some, hclears]
    · obtain rfl | hkey' := mem_cons.1 hkey'
      · have : (t.next (.root key')).find? k = none := by
          rw [UMap.find?, hempty]
          rfl
        rw [hgone'.next, this]
        rfl
      · exact hempty' key' hkey' k

/-- An attached block hangs below a root. -/
lemma Chained.exists_root (hc : tree.Chained keys) (m : ℕ) : ∀ {id : ℕ} {block : Block Key},
    tree.blocks.find? id = some block → block.prev.isSome → block.ordinal ≤ m →
      ∃ key k i, key ∈ tree.mRoots ∧ (tree.next (.root key)).find? k = some i := by
  induction m with
  | zero =>
    intro id block hblock hattached hle
    obtain ⟨n, hn⟩ := isSome_iff_exists.1 hattached
    have hchild := hc.parent hblock hn
    cases n with
    | root key => exact ⟨key, _, _, hc.full hchild, hchild⟩
    | block i =>
      obtain ⟨b, b', -, hb', -, -, hordinal⟩ := hc.child_ordinal ⟨_, hchild⟩
      cases hblock.symm.trans hb'
      omega
  | succ m ih =>
    intro id block hblock hattached hle
    obtain ⟨n, hn⟩ := isSome_iff_exists.1 hattached
    have hchild := hc.parent hblock hn
    cases n with
    | root key => exact ⟨key, _, _, hc.full hchild, hchild⟩
    | block i =>
      obtain ⟨b, b', hb, hb', hattached', -, hordinal⟩ := hc.child_ordinal ⟨_, hchild⟩
      cases hblock.symm.trans hb'
      exact ih hb hattached' (by omega)

/-- **Clearing the tree** ends, and no block is attached after it. -/
theorem WellFormed.clear (h : tree.WellFormed keys) :
    ∃ t, tree.clear = some t ∧ t.WellFormed keys ∧ ∀ id, ¬ t.Attached id := by
  obtain ⟨t, gone, hclear, hwf, hgone, hempty⟩ := clearRoots_detached tree.mRoots.keys h
  have hroots : ∀ {key k i}, (t.next (.root key)).find? k ≠ some i := by
    intro key k i hi
    have hkey : key ∈ t.mRoots := hwf.full hi
    rw [hgone.roots] at hkey
    rw [hempty key hkey] at hi
    cases hi
  refine ⟨_, by rw [BlockRadixTree.clear, hclear]; rfl,
    (hwf.withRoots fun hid => absurd hid hroots).emit _, ?_⟩
  rintro id ⟨b, n, hb, hn⟩
  have hattached : b.prev.isSome := by rw [hn]; rfl
  obtain ⟨key, k, i, -, hi⟩ := hwf.toChained.exists_root b.ordinal hb hattached le_rfl
  exact hroots hi

/-! ### Runs -/

/-- The calls on a tree. -/
inductive Call (Key : Type*) where
  | addOrGetExisting (reuseScope : ReuseScope)
  | addOrGetExistingBlock (prev : NodeRef Key) (tokens : List TokenIdExt)
  | attachOrGetExistingBlock (prev : NodeRef Key) (id : ℕ)
  | commitPage (id lcIdx numTokensInBlock : ℕ)
  | dropPage (p : ℕ)
  | destroyBlock (id : ℕ)
  | removeSubtree (root : ℕ)
  | clear

/-- A call, unless one of its checks fails. -/
def step (keys : KeyScheme Key) (tree : BlockRadixTree Key) :
    Call Key → Option (BlockRadixTree Key)
  | .addOrGetExisting reuseScope => some (tree.addOrGetExisting keys reuseScope)
  | .addOrGetExistingBlock prev tokens => (tree.addOrGetExistingBlock keys prev tokens).map Prod.fst
  | .attachOrGetExistingBlock prev id => (tree.attachOrGetExistingBlock keys prev id).map Prod.fst
  | .commitPage id lcIdx numTokensInBlock => tree.commitPage id lcIdx numTokensInBlock
  | .dropPage p => tree.dropPage p
  | .destroyBlock id => tree.destroyBlock id
  | .removeSubtree root =>
    if ((tree.blocks.find? root).bind Block.prev).isSome then
      (tree.removeSubtree root).map Prod.fst
    else none
  | .clear => tree.clear

/-- A sequence of calls. -/
def run (keys : KeyScheme Key) : BlockRadixTree Key → List (Call Key) → Option (BlockRadixTree Key)
  | tree, [] => some tree
  | tree, call :: calls => (tree.step keys call).bind fun t => run keys t calls

section

variable (lifeCycles : LifeCycleRegistry) (tokensPerBlock : ℕ) (hpos : 0 < tokensPerBlock)
include hpos

/-- `BlockRadixTree::BlockRadixTree`. -/
def new :
    BlockRadixTree Key where
  mLifeCycles := lifeCycles
  mTokensPerBlock := tokensPerBlock
  tokensPerBlock_pos := hpos
  mRoots := ∅
  mPendingRootErases := []
  next := fun _ => ∅
  blocks := ∅
  storage := fun _ _ => none
  pages := ∅
  events := []

lemma new_wellFormed :
    (new lifeCycles tokensPerBlock hpos : BlockRadixTree Key).WellFormed keys := by
  constructor
  · constructor <;> simp [new]
  · constructor <;> simp [new]
  · simp [SiblingsIncomparable, new]

end

omit [DecidableEq Key] in
lemma attached_of_isSome (h : ((tree.blocks.find? id).bind Block.prev).isSome = true) :
    tree.Attached id := by
  obtain ⟨n, hn⟩ := isSome_iff_exists.1 h
  obtain ⟨block, hblock, hprev⟩ := bind_eq_some_iff.1 hn
  exact ⟨block, n, hblock, hprev⟩

/-- One call keeps the tree well-formed. -/
lemma WellFormed.step (hkeys : keys.Injective) {call : Call Key} (h : tree.WellFormed keys)
    (hstep : tree.step keys call = some t) : t.WellFormed keys := by
  cases call with
  | addOrGetExisting reuseScope =>
    cases hstep
    exact h.addOrGetExisting reuseScope
  | addOrGetExistingBlock prev tokens =>
    obtain ⟨r, hr, rfl⟩ := map_eq_some_iff.1 hstep
    exact (h.addOrGetExistingBlock hkeys hr).1
  | attachOrGetExistingBlock prev id =>
    obtain ⟨r, hr, rfl⟩ := map_eq_some_iff.1 hstep
    exact (h.attachOrGetExistingBlock hkeys hr).1
  | commitPage id lcIdx numTokensInBlock => exact h.commitPage hstep
  | dropPage p =>
    obtain ⟨page, hpage, -⟩ := bind_eq_some_iff.1 hstep
    obtain ⟨u, hu, hwf⟩ := h.dropPage hpage
    cases hstep.symm.trans hu
    exact hwf
  | destroyBlock id => exact h.destroyBlock hstep
  | removeSubtree root =>
    simp only [BlockRadixTree.step] at hstep
    split at hstep
    · rename_i hattached
      obtain ⟨u, gone, hu, hremoved⟩ := h.removeSubtree (attached_of_isSome hattached)
      rw [hu] at hstep
      cases hstep
      exact hremoved.wellFormed
    · cases hstep
  | clear =>
    obtain ⟨u, hu, hwf, -⟩ := h.clear
    cases hstep.symm.trans hu
    exact hwf

/-- Every sequence of calls does. -/
lemma WellFormed.run (hkeys : keys.Injective) (calls : List (Call Key)) :
    ∀ {tree : BlockRadixTree Key}, tree.WellFormed keys → tree.run keys calls = some t →
      t.WellFormed keys := by
  induction calls with
  | nil =>
    intro tree h hrun
    cases hrun
    exact h
  | cons call calls ih =>
    intro tree h hrun
    obtain ⟨u, hu, hrest⟩ := bind_eq_some_iff.1 hrun
    exact ih (h.step hkeys hu) hrest

/-- The sink is told once about every block of a removed subtree. -/
lemma Removed.told {root : ℕ} {gone : List ℕ} (h : Removed keys tree t root gone)
    (hattached : tree.Attached root) (hc : tree.Chained keys) :
    ∃ told : List Key, gone.map (fun i => tree.keyOf (.block i)) = told.map some
      ∧ t.events = tree.events ++ told.map TreeEvent.addRemovedBlock := by
  refine ⟨gone.filterMap fun i => tree.keyOf (.block i), ?_, h.detached.events⟩
  have hexists : ∀ i ∈ gone, ∃ key, tree.keyOf (.block i) = some key := by
    intro i hi
    obtain rfl | ⟨m, -, hchild⟩ := Relation.ReflTransGen.cases_tail ((h.subtree i).1 hi)
    · obtain ⟨b, -, hb, -⟩ := hattached
      exact ⟨b.key, by rw [keyOf, hb]; rfl⟩
    · obtain ⟨-, b, -, hb, -⟩ := hc.child_ordinal hchild
      exact ⟨b.key, by rw [keyOf, hb]; rfl⟩
  generalize gone = ids at hexists
  induction ids with
  | nil => rfl
  | cons i ids ih =>
    obtain ⟨key, hkey⟩ := hexists i mem_cons_self
    have hrest := ih fun j hj => hexists j (mem_cons_of_mem _ hj)
    simp only [map_cons, filterMap_cons, hkey, hrest]

lemma Detached.attached_iff {gone : List ℕ} (h : Detached tree t gone) (i : ℕ) :
    t.Attached i ↔ tree.Attached i ∧ i ∉ gone := by
  constructor
  · rintro ⟨b, n, hb, hn⟩
    rw [h.blocks] at hb
    split_ifs at hb with hi
    · obtain ⟨b', -, rfl⟩ := map_eq_some_iff.1 hb
      cases hn
    · exact ⟨⟨b, n, hb, hn⟩, hi⟩
  · rintro ⟨⟨b, n, hb, hn⟩, hi⟩
    exact ⟨b, n, by rw [h.blocks, if_neg hi, hb], hn⟩

/-- **The radix tree is well-formed in every state that calls can reach.** There, a block that
is added or attached again ends up in a block that extends its tokens; `removeSubtree` ends,
detaches exactly the subtree, descendants first, and tells the sink once about every block, which
announces once the removal of those it knows; pages can always be dropped, and the tree can be
cleared. -/
theorem radixTree_calls (keys : KeyScheme Key) (hkeys : keys.Injective)
    (lifeCycles : LifeCycleRegistry)
    (tokensPerBlock : ℕ) (hpos : 0 < tokensPerBlock) (calls : List (Call Key))
    (tree : BlockRadixTree Key)
    (hrun : (new lifeCycles tokensPerBlock hpos).run keys calls = some tree) :
    tree.WellFormed keys
      ∧ (∀ n tokens t id, tree.addOrGetExistingBlock keys n tokens = some (t, id) →
        tokens <+: t.tokensOf id ∧ ∃ k, (t.next n).find? k = some id)
      ∧ (∀ n id t id', tree.attachOrGetExistingBlock keys n id = some (t, id') →
        tree.tokensOf id <+: t.tokensOf id' ∧ ∃ k, (t.next n).find? k = some id')
      ∧ (∀ root, tree.Attached root → ∃ t gone, tree.removeSubtree root = some (t, gone)
        ∧ gone.Nodup ∧ (∀ i, i ∈ gone ↔ tree.Below root i)
        ∧ (∀ i, t.Attached i ↔ tree.Attached i ∧ i ∉ gone)
        ∧ gone.Pairwise (fun i j => ¬ tree.Below i j)
        ∧ ∃ told : List Key, gone.map (fun i => tree.keyOf (.block i)) = told.map some
          ∧ t.events = tree.events ++ told.map TreeEvent.addRemovedBlock
          ∧ ∀ stored, (removedEvents stored (told.map TreeEvent.addRemovedBlock)).Nodup
            ∧ ∀ key, key ∈ removedEvents stored (told.map TreeEvent.addRemovedBlock)
              ↔ key ∈ stored ∧ key ∈ told)
      ∧ (∀ p ∈ tree.pages, (tree.dropPage p).isSome) ∧ tree.clear.isSome := by
  have h : tree.WellFormed keys := 
    (new_wellFormed lifeCycles tokensPerBlock hpos).run hkeys calls hrun
  refine ⟨h, fun n tokens t id hadd => (h.addOrGetExistingBlock hkeys hadd).2,
    fun n id t id' hattach => (h.attachOrGetExistingBlock hkeys hattach).2, ?_, ?_, ?_⟩
  · intro root hroot
    obtain ⟨t, gone, hremove, hremoved⟩ := h.removeSubtree hroot
    obtain ⟨told, htold, hevents⟩ := hremoved.told hroot h.toChained
    exact ⟨t, gone, hremove, hremoved.nodup, hremoved.subtree, hremoved.detached.attached_iff,
      hremoved.order, told, htold, hevents,
      fun stored => ⟨nodup_removedEvents stored told, mem_removedEvents stored told⟩⟩
  · intro p hp
    obtain ⟨page, hpage⟩ := mem_iff_find?.1 hp
    obtain ⟨t, ht, -⟩ := h.dropPage hpage
    rw [ht]
    rfl
  · obtain ⟨t, ht, -⟩ := h.clear
    rw [ht]
    rfl

local instance (priority := 2000) treeIds_ne : NeZero (2 ^ 31) := normal_ne

/-- A block of two tokens that replaced a shorter one, and a block behind it. -/
def growingCalls : List (Call SymbolicKey) :=
  [.addOrGetExisting plainScope, .addOrGetExistingBlock (.root (.root plainScope)) [.normal 5],
    .commitPage 1 0 1,
    .addOrGetExistingBlock (.root (.root plainScope)) [.normal 5, .normal 6],
    .addOrGetExistingBlock (.block 2) [.normal 7]]

/-- In the tree they build, the first block can be removed with what is behind it. -/
theorem radixTree_calls_growing :
    ∃ tree, (new ⟨[.attn ⟨none, 0, .REQUIRED⟩], by decide⟩ 2 (by decide)).run symbolicKeys
        growingCalls = some tree
      ∧ tree.WellFormed symbolicKeys ∧ tree.Attached 2
      ∧ ∃ t gone, tree.removeSubtree 2 = some (t, gone) ∧ ∀ i, i ∈ gone ↔ tree.Below 2 i := by
  have hattached : (((new ⟨[.attn ⟨none, 0, .REQUIRED⟩], by decide⟩ 2 (by decide)).run symbolicKeys
      growingCalls).bind fun tree => (tree.blocks.find? 2).bind Block.prev).isSome := by
    decide +kernel
  obtain ⟨n, hn⟩ := isSome_iff_exists.1 hattached
  obtain ⟨tree, hrun, hprev⟩ := bind_eq_some_iff.1 hn
  obtain ⟨hwf, -, -, hremove, -⟩ :=
    radixTree_calls symbolicKeys symbolicKeys_injective _ 2 (by decide)
    growingCalls tree hrun
  have h2 : tree.Attached 2 := attached_of_isSome (by rw [hprev]; rfl)
  obtain ⟨t, gone, ht, -, hgone, -⟩ := hremove 2 h2
  exact ⟨tree, hrun, hwf, h2, t, gone, ht, hgone⟩

end TrtLlm.KvCacheV2.BlockRadixTree
