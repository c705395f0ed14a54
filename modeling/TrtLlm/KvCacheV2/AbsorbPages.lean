import TrtLlm.KvCacheV2.TreeInvariant

/-!
What `attachBlock` does to a partial sibling that the new block covers.

* `attachBlock_absorbs`: one sibling is absorbed; the new block takes its place among the children
  of the parent, and its pages move where they cover more.
-/

namespace TrtLlm.KvCacheV2.BlockRadixTree

open List Function Option Prod UMap

variable {Key : Type*} {keys : KeyScheme Key} {tree t : BlockRadixTree Key}

/-! ### Pages that move -/

variable {i l : ℕ}

lemma numTokens_setPageBlock (p : ℕ) (b : Option ℕ) (q : ℕ) :
    ((tree.setPageBlock p b).pages.find? q).map CommittedPage.numTokensInBlock
      = (tree.pages.find? q).map CommittedPage.numTokensInBlock := by
  rw [find?_setPageBlock]
  split_ifs with hq
  · rw [hq, Option.map_map]
    rfl
  · rfl

/-- The tokens of the page in a slot, by the slots and the token counts of the pages. -/
lemma pageCoverage_congr {j l' : ℕ} (hslot : t.storage i l = tree.storage j l')
    (hpages : ∀ q, (t.pages.find? q).map CommittedPage.numTokensInBlock
      = (tree.pages.find? q).map CommittedPage.numTokensInBlock) :
    t.pageCoverage i l = tree.pageCoverage j l' := by
  rw [pageCoverage, pageCoverage, hslot]
  cases tree.storage j l' with
  | none => rfl
  | some q =>
    rw [bind_some, bind_some, hpages]

lemma pageCoverage_none (h : tree.storage i l = none) : tree.pageCoverage i l = 0 := by
  rw [pageCoverage, h]
  rfl

lemma pageCoverage_some {p : ℕ} (h : tree.storage i l = some p) :
    tree.pageCoverage i l = tree.numTokensInPage p := by
  rw [pageCoverage, h]
  rfl

section

variable (tree : BlockRadixTree Key)

lemma replacePage_coverage (id lc p : ℕ) :
    (∀ q, ((tree.replacePage id lc p).pages.find? q).map CommittedPage.numTokensInBlock
        = (tree.pages.find? q).map CommittedPage.numTokensInBlock)
      ∧ ∀ i l, (tree.replacePage id lc p).storage i l
        = if i = id ∧ l = lc then some p else tree.storage i l := by
  have hunlink : ∀ q, ((tree.unlinkPage id lc).pages.find? q).map CommittedPage.numTokensInBlock
      = (tree.pages.find? q).map CommittedPage.numTokensInBlock := by
    intro q
    rw [unlinkPage]
    split
    · rfl
    · exact numTokens_setPageBlock _ _ q
  constructor
  · intro q
    exact (numTokens_setPageBlock p (some id) q).trans (hunlink q)
  · intro i l
    rw [replacePage, setStorage]
    dsimp only
    split_ifs with hslot
    · rfl
    · rw [(setPageBlock_same _ _ _).2, unlinkPage_storage, if_neg hslot]

/-- One life cycle of the adoption: the wider page is in the slot, and the others stay. -/
lemma adoptPage_coverage (id other lc : ℕ) : (adoptPage id other tree lc).pageCoverage id lc
        = max (tree.pageCoverage id lc) (tree.pageCoverage other lc)
      ∧ (∀ i l, l ≠ lc → (adoptPage id other tree lc).pageCoverage i l = tree.pageCoverage i l)
      ∧ ∀ i l, i ≠ id → i ≠ other →
        (adoptPage id other tree lc).pageCoverage i l = tree.pageCoverage i l := by
  rw [adoptPage]
  cases hslot : tree.storage other lc with
  | none =>
    refine ⟨?_, fun _ _ _ => rfl, fun _ _ _ _ => rfl⟩
    rw [pageCoverage_none hslot, Nat.max_zero]
  | some p =>
    dsimp only
    by_cases hreplace : tree.canReplacePage id lc (tree.numTokensInPage p) = true
    · rw [if_pos hreplace]
      obtain ⟨hpages, hstorage⟩ := replacePage_coverage (tree.setStorage other lc none) id lc p
      have hstay : ∀ i l, ¬ (i = id ∧ l = lc) → ¬ (i = other ∧ l = lc) →
          ((tree.setStorage other lc none).replacePage id lc p).storage i l = tree.storage i l := by
        intro i l h₁ h₂
        rw [hstorage, if_neg h₁, setStorage]
        exact if_neg h₂
      refine ⟨?_, fun i l hl => ?_, fun i l hi hi' => ?_⟩
      · have hmoved : ((tree.setStorage other lc none).replacePage id lc p).pageCoverage id lc
            = tree.pageCoverage other lc := by
          refine pageCoverage_congr ?_ hpages
          rw [hstorage, if_pos ⟨rfl, rfl⟩, hslot]
        rw [hmoved, pageCoverage_some hslot]
        refine (Nat.max_eq_right ?_).symm
        rw [canReplacePage] at hreplace
        cases hold : tree.storage id lc with
        | none => exact (pageCoverage_none hold).trans_le (Nat.zero_le _)
        | some old =>
          rw [hold] at hreplace
          rw [pageCoverage_some hold]
          exact (of_decide_eq_true hreplace).le
      · exact pageCoverage_congr (hstay i l (fun h => hl h.2) fun h => hl h.2) hpages
      · exact pageCoverage_congr (hstay i l (fun h => hi h.1) fun h => hi' h.1) hpages
    · rw [if_neg hreplace]
      refine ⟨?_, fun _ _ _ => rfl, fun _ _ _ _ => rfl⟩
      rw [pageCoverage_some hslot]
      refine (Nat.max_eq_left ?_).symm
      rw [canReplacePage] at hreplace
      cases hold : tree.storage id lc with
      | none =>
        rw [hold] at hreplace
        exact absurd rfl hreplace
      | some old =>
        rw [hold] at hreplace
        rw [pageCoverage_some hold]
        simpa using hreplace

/-- The adoption over all life cycles. -/
lemma foldl_adoptPage_coverage (id other : ℕ) (lcs : List ℕ) (hnd : lcs.Nodup) :
    (∀ l ∈ lcs, (lcs.foldl (adoptPage id other) tree).pageCoverage id l
        = max (tree.pageCoverage id l) (tree.pageCoverage other l))
      ∧ (∀ i l, l ∉ lcs → (lcs.foldl (adoptPage id other) tree).pageCoverage i l
        = tree.pageCoverage i l)
      ∧ ∀ i l, i ≠ id → i ≠ other →
        (lcs.foldl (adoptPage id other) tree).pageCoverage i l = tree.pageCoverage i l := by
  induction lcs generalizing tree with
  | nil => simp
  | cons lc lcs ih =>
    obtain ⟨hlc, hnd⟩ := nodup_cons.mp hnd
    obtain ⟨hmax, hother, hrest⟩ := adoptPage_coverage tree id other lc
    obtain ⟨ihmax, ihother, ihrest⟩ := ih (adoptPage id other tree lc) hnd
    rw [foldl_cons]
    refine ⟨fun l hl => ?_, fun i l hl => ?_, fun i l hi hi' => ?_⟩
    · rcases mem_cons.mp hl with rfl | hl
      · rw [ihother id l hlc, hmax]
      · have hne' : l ≠ lc := fun heq => hlc (heq ▸ hl)
        rw [ihmax l hl, hother id l hne', hother other l hne']
    · rw [mem_cons, not_or] at hl
      rw [ihother i l hl.2, hother i l hl.1]
    · rw [ihrest i l hi hi', hrest i l hi hi']

lemma foldl_adoptPage_same (id other : ℕ) (lcs : List ℕ) :
    SameChains tree (lcs.foldl (adoptPage id other) tree) := by
  induction lcs generalizing tree with
  | nil => exact .refl _
  | cons lc lcs ih => exact (adoptPage_same id other tree lc).trans (ih _)

end

variable [DecidableEq Key] {n : NodeRef Key}

/-! ### The sibling that is absorbed -/

/-- What the callers of `attachBlock` check: the block is detached and continues the chain of an
attached node, and no child of the node has its key or covers its tokens. -/
structure Attachable (keys : KeyScheme Key) (tree : BlockRadixTree Key) (n : NodeRef Key) (id : ℕ)
    (block : Block Key) (prevKey : Key) : Prop where
  parent : tree.CanBeParent n
  mem : tree.blocks.find? id = some block
  orphan : block.prev = none
  keyOf : tree.keyOf n = some prevKey
  key : block.key = keys.makeKey prevKey block.tokens
  ordinal : block.ordinal = tree.nextOrdinal n
  unmatched : tree.getExistingBlock n block.key block.tokens = none

/-- The tree `t` has the new block in the place of a sibling that is a prefix of it. -/
structure Absorbs (tree t : BlockRadixTree Key) (n : NodeRef Key) (id : ℕ) (block : Block Key)
    (sibling : Key × ℕ) : Prop where
  child : (tree.next n).find? sibling.1 = some sibling.2
  initial : tree.tokensOf sibling.2 <+: block.tokens
  shorter : (tree.tokensOf sibling.2).length < block.tokens.length
  next : ∀ k, (t.next n).find? k = if k = block.key then some id
    else if k = sibling.1 then none else (tree.next n).find? k
  other : ∀ m, m ≠ n → t.next m = tree.next m
  size : (t.next n).size ≤ (tree.next n).size
  roots : t.mRoots = tree.mRoots
  registry : t.mLifeCycles = tree.mLifeCycles
  tokens : t.mTokensPerBlock = tree.mTokensPerBlock
  moved : ∀ lc < tree.mLifeCycles.size, tree.pageCoverage sibling.2 lc ≤ t.pageCoverage id lc
  kept : ∀ i lc, i ≠ id → i ≠ sibling.2 → t.pageCoverage i lc = tree.pageCoverage i lc

section
variable {n : NodeRef Key} {id : ℕ} {block : Block Key} {prevKey : Key}

/-- The siblings that a block covers are prefixes of each other, so there is only one. -/
lemma WellFormed.coveredSiblings_eq (h : tree.WellFormed keys)
    (habsorb : tree.coveredSiblings n block.tokens ≠ []) :
    ∃ s, tree.coveredSiblings n block.tokens = [s] := by
  cases hl : tree.coveredSiblings n block.tokens with
  | nil => exact absurd hl habsorb
  | cons s rest =>
    refine ⟨s, ?_⟩
    have hsame : ∀ s' ∈ tree.coveredSiblings n block.tokens, s'.1 = s.1 := by
      intro s' hs'
      obtain ⟨hchild, -, hpre⟩ := mem_coveredSiblings.1 (hl ▸ mem_cons_self : s ∈ _)
      obtain ⟨hchild', -, hpre'⟩ := mem_coveredSiblings.1 hs'
      have hid : s'.2 = s.2 := by
        rcases prefix_or_prefix_of_prefix hpre' hpre with hle | hle
        · exact h.incomparable hchild' hchild hle
        · exact (h.incomparable hchild hchild' hle).symm
      obtain ⟨b, hb, hkey, -⟩ := h.child hchild
      obtain ⟨b', hb', hkey', -⟩ := h.child hchild'
      rw [hid, hb] at hb'
      cases hb'
      exact hkey'.symm.trans hkey
    have hnodup : ((tree.coveredSiblings n block.tokens).map fst).Nodup :=
      (Sublist.map fst filter_sublist).nodup (tree.next n).nodup
    rw [hl, map_cons, nodup_cons] at hnodup
    cases rest with
    | nil => rfl
    | cons s' rest =>
      have heq := hsame s' (by rw [hl]; simp)
      exact absurd (heq ▸ by simp) hnodup.1

/-- No child is a block that is detached. -/
lemma WellFormed.ne_of_orphan (h : tree.WellFormed keys) (hmem : tree.blocks.find? id = some block)
    (horphan : block.prev = none) {m : NodeRef Key}
    {k : Key} : (tree.next m).find? k ≠ some id := by
  intro hi
  obtain ⟨b, hb, -, hprev⟩ := h.child hi
  cases hmem.symm.trans hb
  rw [horphan] at hprev
  cases hprev

/-- The number of children does not grow when one key replaces another. -/
lemma size_replaced {children children' : UMap Key ℕ} {k : Key} (k' : Key) {i : ℕ}
    (hk : children.find? k = some i)
    (hkeys : ∀ j, j ∈ children' → j = k' ∨ (j ≠ k ∧ j ∈ children)) :
    children'.size ≤ children.size := by
  have hmem : k ∈ children.keys := mem_of_find? hk
  have hsub : children'.keys ⊆ k' :: children.keys.erase k := by
    intro j hj
    rcases hkeys j hj with rfl | ⟨hne, hj⟩
    · exact mem_cons_self
    · exact mem_cons_of_mem _ ((mem_erase_of_ne hne).mpr hj)
  have hle := (subperm_of_subset children'.keys_nodup hsub).length_le
  have hpos := length_pos_of_mem hmem
  rw [length_cons, length_erase_of_mem hmem] at hle
  simp only [UMap.keys, length_map] at hle hpos
  rw [UMap.size, UMap.size]
  omega

/-- **One sibling is absorbed**, and its pages move to the new block where they cover more. -/
lemma attachBlock_absorbs (h : tree.WellFormed keys) (ha : Attachable keys tree n id block prevKey)
    (habsorb : tree.coveredSiblings n block.tokens ≠ []) :
    ∃ s, Absorbs tree (tree.attachBlock n id block) n id block s := by
  obtain ⟨s, hs⟩ := h.coveredSiblings_eq habsorb
  obtain ⟨hchild, hshort, hpre⟩ := mem_coveredSiblings.1 (hs ▸ mem_cons_self : s ∈ _)
  obtain ⟨hfresh, -⟩ := getExistingBlock_eq_none.1 ha.unmatched
  have hne : s.1 ≠ block.key := by
    intro heq
    rw [heq, hfresh] at hchild
    cases hchild
  have hid : s.2 ≠ id := fun heq => h.ne_of_orphan ha.mem ha.orphan (heq ▸ hchild)
  have hrelinked := attachBlock_relinked (n := n) ha.mem
  have hresult : tree.attachBlock n id block = absorbSibling n id
      ((tree.setPrev id (some n)).setNext n ((tree.next n).set block.key id)) s := by
    rw [attachBlock, hs]
    rfl
  rw [hresult]
  generalize (tree.setPrev id (some n)).setNext n ((tree.next n).set block.key id)
    = t₀ at hrelinked ⊢
  obtain ⟨b, hb, hkey, hprev⟩ := h.child hchild
  have hb₀ : t₀.blocks.find? s.2 = some b := by
    rw [hrelinked.blocks, find?_set, if_neg hid, hb]
  have hchild₀ : (t₀.next n).find? s.1 = some s.2 := by
    rw [hrelinked.next, update_self, find?_set, if_neg hne, hchild]
  have hdetached := (detachNext_relinked hchild₀ hb₀).1
  rw [absorbSibling]
  generalize t₀.detachNext n s.1 = t₁ at hdetached ⊢
  have hsame := foldl_adoptPage_same t₁ id s.2 (range t₁.mLifeCycles.size)
  obtain ⟨hmax, -, hkept⟩ := foldl_adoptPage_coverage t₁ id s.2
    (range t₁.mLifeCycles.size) nodup_range
  rw [← adoptPagesFrom] at hsame hmax hkept
  -- the two links change no page
  have hcoverage : ∀ i lc, t₁.pageCoverage i lc = tree.pageCoverage i lc := by
    intro i lc
    rw [pageCoverage, pageCoverage, hdetached.storage, hdetached.pages, hrelinked.storage,
      hrelinked.pages]
  have hregistry : t₁.mLifeCycles = tree.mLifeCycles := hdetached.registry.trans hrelinked.registry
  have hnext : ∀ k, ((t₁.adoptPagesFrom id s.2).next n).find? k = if k = block.key then some id
      else if k = s.1 then none else (tree.next n).find? k := by
    intro k
    rw [hsame.next, hdetached.next, update_self, find?_erase, hrelinked.next,
      update_self, find?_set]
    by_cases hk : k = block.key
    · rw [if_neg (fun heq => hne (heq.symm.trans hk)), if_pos hk, if_pos hk]
    · rw [if_neg hk, if_neg hk]
  refine ⟨s, hchild, hpre, hshort, hnext, fun m hm => ?_, ?_, ?_, ?_, ?_, fun lc hlc => ?_,
    fun i lc hi hi' => ?_⟩
  · rw [hsame.next, hdetached.next, update_of_ne hm, hrelinked.next, update_of_ne hm]
  · refine size_replaced block.key hchild fun j hj => ?_
    obtain ⟨i, hi⟩ := mem_iff_find?.mp hj
    rw [hnext] at hi
    split_ifs at hi with hblock hgone
    · exact .inl hblock
    · exact .inr ⟨hgone, mem_of_find? hi⟩
  · exact hsame.roots.trans (hdetached.roots.trans hrelinked.roots)
  · exact hsame.registry.trans hregistry
  · exact hsame.tokens.trans (hdetached.tokens.trans hrelinked.tokens)
  · rw [hmax lc (mem_range.mpr (hregistry ▸ hlc)), hcoverage, hcoverage]
    exact le_max_right _ _
  · rw [hkept i lc hi hi', hcoverage]

end

end TrtLlm.KvCacheV2.BlockRadixTree
