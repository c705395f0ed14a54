import TrtLlm.KvCacheV2.TreeOperations

/-!
What the operations of the tree do to the pages of its blocks.

A page changes its slot together with its back pointer. The chains and the pages of a tree are
separate relations: an operation on the one leaves the other alone.
-/

namespace TrtLlm.KvCacheV2.BlockRadixTree

open List Function Option Prod

variable {Key : Type*} {keys : KeyScheme Key} {tree t u : BlockRadixTree Key}

/-! ### Pages -/

/-- Nothing of the chains is changed. -/
structure SameChains (tree t : BlockRadixTree Key) : Prop where
  next : t.next = tree.next
  blocks : t.blocks = tree.blocks
  roots : t.mRoots = tree.mRoots
  registry : t.mLifeCycles = tree.mLifeCycles
  tokens : t.mTokensPerBlock = tree.mTokensPerBlock
  events : t.events = tree.events

variable {block : Block Key} {id other p : ℕ}

lemma SameChains.refl (tree : BlockRadixTree Key) : SameChains tree tree :=
  ⟨rfl, rfl, rfl, rfl, rfl, rfl⟩

lemma SameChains.trans (h : SameChains tree t) (h' : SameChains t u) : SameChains tree u :=
  ⟨h'.next.trans h.next, h'.blocks.trans h.blocks, h'.roots.trans h.roots,
    h'.registry.trans h.registry, h'.tokens.trans h.tokens, h'.events.trans h.events⟩

/-- The pages and the slots agree, up to one page that sits in no slot. -/
structure PagedBut (tree : BlockRadixTree Key) (loose : Option ℕ) : Prop where
  page : ∀ {id lc p}, some p ≠ loose → (tree.storage id lc = some p ↔
    ∃ page, tree.pages.find? p = some page ∧ page.block = some id ∧ page.lifeCycle = lc)
  absent : ∀ {id lc p}, some p = loose → tree.storage id lc ≠ some p
  covers : ∀ {p page id}, some p ≠ loose → tree.pages.find? p = some page →
    page.block = some id →
    ∃ block, tree.blocks.find? id = some block ∧ page.numTokensInBlock ≤ block.tokens.length
  slot : ∀ {p page}, tree.pages.find? p = some page → page.lifeCycle < tree.mLifeCycles.size

lemma Paged.but (h : tree.Paged) : PagedBut tree none :=
  ⟨fun _ => h.page, fun hp => (by cases hp), fun _ => h.covers, h.slot⟩

lemma PagedBut.paged (h : PagedBut tree none) : tree.Paged :=
  ⟨h.page (by simp), h.covers (by simp), h.slot⟩

lemma find?_setPageBlock {q : ℕ} {id : Option ℕ} : (tree.setPageBlock p id).pages.find? q
      = if q = p then (tree.pages.find? p).map fun page => { page with block := id }
        else tree.pages.find? q := by
  simp only [setPageBlock]
  split
  · rename_i page hpage
    simp only [UMap.find?_set, hpage, map_some]
  · rename_i hpage
    split_ifs with hq
    · rw [hq, hpage]
      rfl
    · rfl

section

variable (tree : BlockRadixTree Key)

lemma setPageBlock_same (p : ℕ) (id : Option ℕ) :
    SameChains tree (tree.setPageBlock p id) ∧ (tree.setPageBlock p id).storage = tree.storage := by
  simp only [setPageBlock]
  split
  · exact ⟨⟨rfl, rfl, rfl, rfl, rfl, rfl⟩, rfl⟩
  · exact ⟨.refl _, rfl⟩

lemma unlinkPage_same (id lc : ℕ) : SameChains tree (tree.unlinkPage id lc) := by
  simp only [unlinkPage]
  split
  · exact .refl _
  · exact (setPageBlock_same _ _ _).1.trans ⟨rfl, rfl, rfl, rfl, rfl, rfl⟩

lemma unlinkPage_storage (id lc i l : ℕ) : (tree.unlinkPage id lc).storage i l
      = if i = id ∧ l = lc then none else tree.storage i l := by
  simp only [unlinkPage]
  split
  · rename_i hnone
    split_ifs with hslot
    · rw [hslot.1, hslot.2, hnone]
    · rfl
  · simp only [setStorage, (setPageBlock_same _ _ _).2]

end

/-- Emptying a slot clears the back pointer of its page. -/
lemma PagedBut.unlink {loose : Option ℕ} (h : PagedBut tree loose) (id lc : ℕ) :
    PagedBut (tree.unlinkPage id lc) loose := by
  cases hslot : tree.storage id lc with
  | none =>
    have : tree.unlinkPage id lc = tree := by simp only [unlinkPage, hslot]
    rwa [this]
  | some p =>
    have hp : some p ≠ loose := fun hp => h.absent hp hslot
    obtain ⟨page, hpage, hblock, hlc⟩ := (h.page hp).1 hslot
    have hpages : ∀ q, (tree.unlinkPage id lc).pages.find? q
        = if q = p then some { page with block := none } else tree.pages.find? q := by
      intro q
      have : (tree.unlinkPage id lc).pages = (tree.setPageBlock p none).pages := by
        simp only [unlinkPage, hslot, setStorage]
      rw [this, find?_setPageBlock, hpage]
      rfl
    refine ⟨?_, ?_, ?_, ?_⟩
    · intro i l q hq
      rw [unlinkPage_storage, hpages]
      by_cases hqp : q = p
      · subst hqp
        simp only [if_true, some.injEq, exists_eq_left', reduceCtorEq, false_and, iff_false]
        split_ifs with hil
        · simp
        · intro hil'
          obtain ⟨page', hpage', hblock', hlc'⟩ := (h.page hq).1 hil'
          cases hpage.symm.trans hpage'
          exact hil ⟨some.inj (hblock'.symm.trans hblock), hlc'.symm.trans hlc⟩
      · rw [if_neg hqp]
        split_ifs with hil
        · obtain ⟨rfl, rfl⟩ := hil
          simp only [false_iff]
          intro hex
          exact hqp (some.inj (((h.page hq).2 hex).symm.trans hslot))
        · exact h.page hq
    · intro i l q hq
      rw [unlinkPage_storage]
      split_ifs
      · simp
      · exact h.absent hq
    · intro q page' b hq hpage' hblock'
      rw [hpages] at hpage'
      rw [(unlinkPage_same tree id lc).blocks]
      split_ifs at hpage' with hqp
      · cases hpage'
        cases hblock'
      · exact h.covers hq hpage' hblock'
    · intro q page' hpage'
      rw [hpages] at hpage'
      rw [(unlinkPage_same tree id lc).registry]
      split_ifs at hpage' with hqp
      · cases hpage'
        exact @PagedBut.slot _ _ _ h p page hpage
      · exact h.slot hpage'

lemma unlinkPage_loose {loose : ℕ} (h : PagedBut tree (some loose)) (id lc : ℕ) :
    (tree.unlinkPage id lc).pages.find? loose = tree.pages.find? loose := by
  simp only [unlinkPage]
  split
  · rfl
  · rename_i q hslot
    have hne : loose ≠ q := by
      rintro rfl
      exact h.absent rfl hslot
    change (tree.setPageBlock q none).pages.find? loose = _
    rw [find?_setPageBlock, if_neg hne]

/-- A loose page takes an empty slot. -/
lemma PagedBut.link {p id : ℕ} {page : CommittedPage} {block : Block Key}
    (h : PagedBut tree (some p)) (hpage : tree.pages.find? p = some page)
    (hblock : tree.blocks.find? id = some block)
    (hcovers : page.numTokensInBlock ≤ block.tokens.length)
    (hfree : tree.storage id page.lifeCycle = none) :
    ((tree.setPageBlock p (some id)).setStorage id page.lifeCycle (some p)).Paged := by
  have hpages : ∀ q, ((tree.setPageBlock p (some id)).setStorage id page.lifeCycle
      (some p)).pages.find? q
      = if q = p then some { page with block := some id } else tree.pages.find? q := by
    intro q
    change (tree.setPageBlock p (some id)).pages.find? q = _
    rw [find?_setPageBlock, hpage]
    rfl
  have hstorage : ∀ i l, ((tree.setPageBlock p (some id)).setStorage id page.lifeCycle
      (some p)).storage i l
      = if i = id ∧ l = page.lifeCycle then some p else tree.storage i l := by
    intro i l
    simp only [setStorage, (setPageBlock_same _ _ _).2]
  have hblocks : ((tree.setPageBlock p (some id)).setStorage id page.lifeCycle (some p)).blocks
      = tree.blocks := (setPageBlock_same tree p (some id)).1.blocks
  have hregistry : ((tree.setPageBlock p (some id)).setStorage id page.lifeCycle
      (some p)).mLifeCycles = tree.mLifeCycles := (setPageBlock_same tree p (some id)).1.registry
  refine ⟨?_, ?_, ?_⟩
  · intro i l q
    rw [hstorage, hpages]
    by_cases hq : q = p
    · subst hq
      simp only [if_true, some.injEq, exists_eq_left']
      split_ifs with hil
      · simp [hil.1, hil.2]
      · constructor
        · exact fun hil' => absurd hil' (h.absent rfl)
        · rintro ⟨rfl, rfl⟩
          exact absurd ⟨rfl, rfl⟩ hil
    · rw [if_neg hq]
      have hloose : some q ≠ some p := fun h => hq (some.inj h)
      split_ifs with hil
      · obtain ⟨rfl, rfl⟩ := hil
        refine ⟨fun hqp => absurd (some.inj hqp).symm hq, fun hex => ?_⟩
        have := (h.page hloose).2 hex
        rw [hfree] at this
        cases this
      · exact h.page hloose
  · intro q page' i hpage' hi
    rw [hpages] at hpage'
    rw [hblocks]
    split_ifs at hpage' with hq
    · cases hpage'
      cases hi
      exact ⟨block, hblock, hcovers⟩
    · exact h.covers (fun h => hq (some.inj h)) hpage' hi
  · intro q page' hpage'
    rw [hpages] at hpage'
    rw [hregistry]
    split_ifs at hpage' with hq
    · cases hpage'
      exact @PagedBut.slot _ _ _ h p page hpage
    · exact h.slot hpage'

lemma replacePage_same (tree : BlockRadixTree Key) (id lc p : ℕ) :
    SameChains tree (tree.replacePage id lc p) :=
  ((unlinkPage_same tree id lc).trans (setPageBlock_same _ _ _).1).trans
    ⟨rfl, rfl, rfl, rfl, rfl, rfl⟩

/-- Installing a loose page. -/
lemma PagedBut.replacePage {page : CommittedPage} (h : PagedBut tree (some p))
    (hpage : tree.pages.find? p = some page)
    (hblock : tree.blocks.find? id = some block)
    (hcovers : page.numTokensInBlock ≤ block.tokens.length) :
    (tree.replacePage id page.lifeCycle p).Paged := by
  refine @PagedBut.link _ _ p id page block (h.unlink id page.lifeCycle) ?_ ?_ hcovers ?_
  · rw [unlinkPage_loose h, hpage]
  · rw [(unlinkPage_same tree id page.lifeCycle).blocks, hblock]
  · rw [unlinkPage_storage, if_pos ⟨rfl, rfl⟩]

/-- A page that leaves its slot without its back pointer being cleared is loose. -/
lemma Paged.loosen {lc : ℕ} (h : tree.Paged) (hslot : tree.storage other lc = some p) :
    PagedBut (tree.setStorage other lc none) (some p) := by
  obtain ⟨page, hpage, hblock, hlc⟩ := h.page.1 hslot
  refine ⟨?_, ?_, fun _ => h.covers, h.slot⟩
  · intro i l q hq
    simp only [setStorage]
    split_ifs with hil
    · obtain ⟨rfl, rfl⟩ := hil
      simp only [false_iff]
      intro hex
      exact hq (congrArg some (some.inj ((h.page.2 hex).symm.trans hslot)))
    · exact h.page
  · intro i l q hq
    cases hq
    simp only [setStorage]
    split_ifs with hil
    · simp
    · intro hil'
      obtain ⟨page', hpage', hblock', hlc'⟩ := h.page.1 hil'
      cases hpage.symm.trans hpage'
      exact hil ⟨some.inj (hblock'.symm.trans hblock), hlc'.symm.trans hlc⟩

lemma adoptPage_same (id other : ℕ) (tree : BlockRadixTree Key) (lc : ℕ) :
    SameChains tree (adoptPage id other tree lc) := by
  simp only [adoptPage]
  split
  · exact .refl _
  · split_ifs
    · exact SameChains.trans (t := tree.setStorage other lc none) ⟨rfl, rfl, rfl, rfl, rfl, rfl⟩
        (replacePage_same _ _ _ _)
    · exact .refl _

lemma tokensOf_eq (h : tree.blocks.find? id = some block) : tree.tokensOf id = block.tokens := by
  rw [tokensOf, h]
  rfl

/-- A block may adopt the pages of one whose tokens are no more than its own. -/
lemma adoptPage_paged (h : tree.Paged) (hblock : tree.blocks.find? id = some block)
    (hle : (tree.tokensOf other).length ≤ block.tokens.length) (lc : ℕ) :
    (adoptPage id other tree lc).Paged := by
  simp only [adoptPage]
  split
  · exact h
  · rename_i p hslot
    obtain ⟨page, hpage, hother, rfl⟩ := h.page.1 hslot
    split_ifs
    · obtain ⟨otherBlock, hotherBlock, hcovers⟩ := h.covers hpage hother
      rw [tokensOf_eq hotherBlock] at hle
      exact (h.loosen hslot).replacePage hpage hblock (hcovers.trans hle)
    · exact h

lemma foldl_adoptPage (lcs : List ℕ) (h : tree.Paged) (hblock : tree.blocks.find? id = some block)
    (hle : (tree.tokensOf other).length ≤ block.tokens.length) :
    SameChains tree (lcs.foldl (adoptPage id other) tree)
      ∧ (lcs.foldl (adoptPage id other) tree).Paged := by
  induction lcs generalizing tree with
  | nil => exact ⟨.refl _, h⟩
  | cons lc lcs ih =>
    have hsame := adoptPage_same id other tree lc
    have htokens : (adoptPage id other tree lc).tokensOf other = tree.tokensOf other := by
      rw [tokensOf, tokensOf, hsame.blocks]
    obtain ⟨hsame', hpaged⟩ := ih (adoptPage_paged h hblock hle lc) (hsame.blocks ▸ hblock)
      (htokens ▸ hle)
    exact ⟨hsame.trans hsame', hpaged⟩

lemma adoptPagesFrom_paged (h : tree.Paged) (hblock : tree.blocks.find? id = some block)
    (hle : (tree.tokensOf other).length ≤ block.tokens.length) :
    SameChains tree (tree.adoptPagesFrom id other) ∧ (tree.adoptPagesFrom id other).Paged :=
  foldl_adoptPage _ h hblock hle

lemma foldl_unlinkPage (id : ℕ) (lcs : List ℕ) (h : tree.Paged) :
    SameChains tree (lcs.foldl (fun t lc => unlinkPage t id lc) tree)
      ∧ (lcs.foldl (fun t lc => unlinkPage t id lc) tree).Paged
      ∧ ∀ i lc, (lcs.foldl (fun t lc => unlinkPage t id lc) tree).storage i lc
        = if i = id ∧ lc ∈ lcs then none else tree.storage i lc := by
  induction lcs generalizing tree with
  | nil => exact ⟨.refl _, h, fun i lc => by simp⟩
  | cons first lcs ih =>
    obtain ⟨hsame, hpaged, hstorage⟩ := ih (h.but.unlink id first).paged
    refine ⟨(unlinkPage_same tree id first).trans hsame, hpaged, fun i lc => ?_⟩
    rw [foldl_cons, hstorage, unlinkPage_storage]
    simp only [mem_cons]
    split_ifs <;> first | rfl | tauto

end TrtLlm.KvCacheV2.BlockRadixTree
