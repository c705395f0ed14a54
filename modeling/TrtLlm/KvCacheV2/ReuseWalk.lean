import TrtLlm.KvCacheV2.ReuseEndpoint

/-!
The walk of a query along the keys, and what `BlockRadixTree::match` returns.

A match ends at the greatest usable endpoint (`reuseMatch_maximal`). What is matched is found by
the keys, and a key fixes the bytes of a block but not how they are laid out as ids and digests.
So the tokens up to the endpoint are those of the query exactly when no usable endpoint lies
behind a place where the two layouts differ (`reuseMatch_sound_iff`).
-/

namespace TrtLlm.KvCacheV2

open List UMap

namespace BlockRadixTree

variable {Key : Type*} {tree : BlockRadixTree Key}

/-! ### The walk along the keys -/

section Walk

variable [DecidableEq Key] {keys : KeyScheme Key}

variable (tree) in
/-- A chain of blocks, each a child of the one before, from a node down. -/
def IsPath : NodeRef Key → List ℕ → Prop
  | _, [] => True
  | n, id :: path => (∃ k, (tree.next n).find? k = some id) ∧ IsPath (.block id) path

lemma IsPath.of_prefix {n : NodeRef Key} {path path' : List ℕ} (h : tree.IsPath n path)
    (hpre : path' <+: path) : tree.IsPath n path' := by
  induction path' generalizing n path with
  | nil => trivial
  | cons id path' ih =>
    obtain ⟨rest, rfl⟩ := hpre
    exact ⟨h.1, ih h.2 (prefix_append _ _)⟩

lemma partialMatchThisNode_le (tokens other : List TokenIdExt) :
    partialMatchThisNode tokens other ≤ other.length := by
  induction tokens generalizing other with
  | nil => exact Nat.zero_le _
  | cons token tokens ih =>
    cases other with
    | nil => exact le_rfl
    | cons o other =>
      simp only [partialMatchThisNode]
      split_ifs
      · exact Nat.succ_le_succ (ih other)
      · exact Nat.zero_le _

lemma take_partialMatchThisNode {tokens other : List TokenIdExt} {e : ℕ}
    (h : e ≤ partialMatchThisNode tokens other) : tokens.take e = other.take e := by
  induction tokens generalizing other e with
  | nil =>
    cases other <;> simp_all [partialMatchThisNode]
  | cons token tokens ih =>
    cases other with
    | nil => simp_all [partialMatchThisNode]
    | cons o other =>
      cases e with
      | zero => rfl
      | succ e =>
        simp only [partialMatchThisNode] at h
        split_ifs at h with heq
        · rw [take_succ_cons, take_succ_cons, heq, ih (Nat.le_of_succ_le_succ h)]
        · omega

variable (tree) in
/-- A child matched on its leading tokens. -/
def IsPartialMatch (nextMap : UMap Key ℕ) (tokens : List TokenIdExt) (m : MatchResult) : Prop :=
  (∃ k, nextMap.find? k = some m.block) ∧ 0 < m.numMatchedTokens
    ∧ m.numMatchedTokens = partialMatchThisNode (tree.tokensOf m.block) tokens

lemma findBestPartialMatch_eq_some {nextMap : UMap Key ℕ} {tokens : List TokenIdExt}
    {m : MatchResult} (h : tree.findBestPartialMatchInNextNodes nextMap tokens = some m) :
    tree.IsPartialMatch nextMap tokens m := by
  simp only [findBestPartialMatchInNextNodes] at h
  split at h
  · cases h
  · refine foldlRecOn (motive := fun best => ∀ m, best = some m →
      tree.IsPartialMatch nextMap tokens m) _ _ (fun _ h => by cases h) ?_ m h
    intro best hbest child hchild m' hm'
    split_ifs at hm' with hbetter
    · cases hm'
      exact ⟨⟨child.1, find?_eq_some_iff.2 hchild⟩, Nat.zero_lt_of_lt hbetter, rfl⟩
    · exact hbest m' hm'

variable (keys tree) in
/-- The children that have the key of a block of the query have its bytes. -/
def KeysSpell (tokens : List TokenIdExt) : Prop :=
  ∀ {n prevKey id step}, step ∈ blocksOf tree.mTokensPerBlock tokens →
    tree.keyOf n = some prevKey → (tree.next n).find? (keys.makeKey prevKey step) = some id →
    (tree.tokensOf id).flatMap tokenBytes = step.flatMap tokenBytes

variable (keys tree) in
/-- What a walk from a node yields: a match along a path. Where keys spell the bytes, the tokens
of the path are those of the query up to every endpoint that is reached with the same layout. -/
structure Walked (n : NodeRef Key) (tokens : List TokenIdExt) (path : List ℕ) (e : ℕ) : Prop where
  bound : e ≤ tree.mTokensPerBlock * path.length
  lookup : e ≤ tokens.length
  isPath : tree.IsPath n path
  agrees : tree.KeysSpell keys tokens → ∀ x ≤ e,
    layout ((path.flatMap tree.tokensOf).take x) = layout (tokens.take x) →
      (path.flatMap tree.tokensOf).take x = tokens.take x

variable {id : ℕ} {n : NodeRef Key}

lemma walked_nil (n : NodeRef Key) (tokens : List TokenIdExt) : tree.Walked keys n tokens [] 0 :=
  ⟨Nat.zero_le _, Nat.zero_le _, trivial, fun _ x hx _ => by simp [Nat.le_zero.1 hx]⟩

/-- A walk that ends in a child, matched in part or to the end of the query. -/
lemma walked_last {tokens : List TokenIdExt} {e : ℕ}
    (hchild : ∃ k, (tree.next n).find? k = some id) (hbound : e ≤ tree.mTokensPerBlock)
    (hlookup : e ≤ tokens.length)
    (htokens : tree.KeysSpell keys tokens → ∀ x ≤ e,
      layout ((tree.tokensOf id).take x) = layout (tokens.take x) →
        (tree.tokensOf id).take x = tokens.take x) :
    tree.Walked keys n tokens [id] e :=
  ⟨by simpa using hbound, hlookup, ⟨hchild, trivial⟩, by simpa using htokens⟩

/-- A block that has a child in a path is full. -/
lemma WellFormed.length_of_isPath (hwf : tree.WellFormed keys) {path : List ℕ}
    (h : tree.IsPath (.block id) path) (hne : path ≠ []) :
    (tree.tokensOf id).length = tree.mTokensPerBlock := by
  cases path with
  | nil => exact absurd rfl hne
  | cons child path =>
    obtain ⟨⟨k, hk⟩, -⟩ := h
    obtain ⟨block, hblock, hlength, -⟩ := hwf.full hk
    rw [tokensOf, hblock]
    exact hlength

/-- The tokens that precede an endpoint are those of the matched blocks. -/
lemma WellFormed.take_entries (hwf : tree.WellFormed keys) {path : List ℕ} {x : ℕ}
    (hpath : tree.IsPath n path) :
    (((entries tree.mTokensPerBlock path x).map MatchResult.block).flatMap tree.tokensOf).take x
      = (path.flatMap tree.tokensOf).take x := by
  induction path generalizing n x with
  | nil => rfl
  | cons id path ih =>
    rcases Nat.eq_zero_or_pos x with rfl | hpos
    · simp
    rw [entries_cons hpos, map_cons, flatMap_cons, flatMap_cons, take_append, take_append]
    by_cases hnil : path = []
    · subst hnil
      rfl
    · rw [hwf.length_of_isPath hpath.2 hnil, ih hpath.2]

/-- Bytes that are laid out alike up to some token agree up to it. -/
lemma take_eq_of_layout {l l' : List TokenIdExt} {x : ℕ}
    (h : l.flatMap tokenBytes = l'.flatMap tokenBytes)
    (hl : layout (l.take x) = layout (l'.take x)) : l.take x = l'.take x := by
  have hbytes : ∀ l : List TokenIdExt, (l.take x).flatMap tokenBytes
      = (l.flatMap tokenBytes).take ((l.take x).flatMap tokenBytes).length := by
    intro l
    have hsplit := congrArg (flatMap tokenBytes) (take_append_drop x l)
    rw [flatMap_append] at hsplit
    exact prefix_iff_eq_take.1 ⟨_, hsplit⟩
  refine tokens_eq_of_layout hl ?_
  rw [hbytes l, hbytes l', h, length_bytes_of_layout hl]

/-- A walk goes on behind a full block. -/
lemma Walked.cons (hwf : tree.WellFormed keys) {tokens : List TokenIdExt} {e : ℕ}
    {path : List ℕ} (hchild : ∃ k, (tree.next n).find? k = some id)
    (hfull : tree.mTokensPerBlock ≤ tokens.length)
    (hspell : tree.KeysSpell keys tokens → (tree.tokensOf id).flatMap tokenBytes
      = (tokens.take tree.mTokensPerBlock).flatMap tokenBytes)
    (hrest : tree.KeysSpell keys tokens →
      tree.KeysSpell keys (tokens.drop tree.mTokensPerBlock))
    (h : tree.Walked keys (.block id) (tokens.drop tree.mTokensPerBlock) path e) :
    tree.Walked keys n tokens (id :: path) (tree.mTokensPerBlock + e) := by
  have hbound := h.bound
  have hlookup := h.lookup
  rw [length_drop] at hlookup
  refine ⟨?_, by omega, ⟨hchild, h.isPath⟩, fun hkeys x hx hlayout => ?_⟩
  · rw [length_cons, Nat.mul_succ]
    omega
  rw [flatMap_cons] at hlayout ⊢
  rcases Nat.lt_or_ge tree.mTokensPerBlock x with hlt | hle
  · -- The endpoint lies in a later block, so this one is full.
    obtain ⟨y, rfl⟩ := Nat.exists_eq_add_of_le hlt.le
    have hne : path ≠ [] := by
      rintro rfl
      simp only [length_nil, Nat.mul_zero] at hbound
      omega
    have hlength := hwf.length_of_isPath h.isPath hne
    rw [take_append, hlength, Nat.add_sub_cancel_left, take_of_length_le (by omega),
      take_add] at hlayout ⊢
    rw [layout, layout, map_append, map_append] at hlayout
    obtain ⟨hhead, htail⟩ := append_inj hlayout (by simp [hlength, hfull])
    rw [tokens_eq_of_layout hhead (hspell hkeys), h.agrees (hrest hkeys) y (by omega) htail]
  · have htake : (tree.tokensOf id ++ path.flatMap tree.tokensOf).take x
        = (tree.tokensOf id).take x := by
      by_cases hnil : path = []
      · subst hnil
        simp
      · exact take_append_of_le_length (by rwa [hwf.length_of_isPath h.isPath hnil])
    have hinner : tokens.take x = (tokens.take tree.mTokensPerBlock).take x := by
      rw [take_take, min_eq_left hle]
    rw [htake, hinner] at hlayout ⊢
    exact take_eq_of_layout (hspell hkeys) hlayout

/-- A child found under the key of some tokens has this key. -/
lemma WellFormed.keyOf_child (hwf : tree.WellFormed keys) {prevKey : Key}
    {step : List TokenIdExt}
    (h : (tree.next n).find? (keys.makeKey prevKey step) = some id) :
    tree.keyOf (.block id) = some (keys.makeKey prevKey step) := by
  obtain ⟨block, hblock, hblockKey, -⟩ := hwf.child h
  rw [keyOf, hblock]
  exact congrArg some hblockKey

lemma blocksOf_nil (T : ℕ) : blocksOf T [] = [] := by
  rw [blocksOf]
  simp

lemma matchSteps_walked (hwf : tree.WellFormed keys) (enablePartialMatch : Bool) {prevKey : Key}
    (hkey : tree.keyOf n = some prevKey) (tokens : List TokenIdExt) :
    ∃ path e, tree.Walked keys n tokens path e
      ∧ matchSteps keys tree enablePartialMatch prevKey (tree.next n)
        (blocksOf tree.mTokensPerBlock tokens) = entries tree.mTokensPerBlock path e
      ∧ (entries tree.mTokensPerBlock path e).map MatchResult.block = path := by
  have hT := tree.tokensPerBlock_pos
  induction hlen : tokens.length using Nat.strong_induction_on generalizing n prevKey tokens with
  | _ len ih =>
    subst hlen
    by_cases hnil : tokens = []
    · subst hnil
      exact ⟨[], 0, walked_nil _ _, by rw [blocksOf_nil]; rfl, rfl⟩
    have hpos := length_pos_iff.2 hnil
    have hblocks : blocksOf tree.mTokensPerBlock tokens = tokens.take tree.mTokensPerBlock
        :: blocksOf tree.mTokensPerBlock (tokens.drop tree.mTokensPerBlock) := by
      rw [blocksOf, dif_pos ⟨hT, hnil⟩]
    rw [hblocks, matchSteps]
    split
    · rename_i id hid
      have hspell : tree.KeysSpell keys tokens → (tree.tokensOf id).flatMap tokenBytes
          = (tokens.take tree.mTokensPerBlock).flatMap tokenBytes :=
        fun hkeys => hkeys (hblocks ▸ mem_cons_self) hkey hid
      rcases Nat.lt_or_ge tree.mTokensPerBlock tokens.length with hmore | hlast
      -- A full block, and more tokens behind it.
      · obtain ⟨path, e, hwalked, hsteps, hpath⟩ := ih (tokens.drop tree.mTokensPerBlock).length
          (by rw [length_drop]; omega) (hwf.keyOf_child hid) _ rfl
        refine ⟨id :: path, tree.mTokensPerBlock + e,
          .cons hwf ⟨_, hid⟩ hmore.le hspell (fun hkeys _ _ _ _ hstep => ?_) hwalked, ?_, ?_⟩
        · exact hkeys (hblocks ▸ mem_cons_of_mem _ hstep)
        · rw [hsteps, entries_add hT, length_take, min_eq_left hmore.le]
        · rw [entries_add hT, map_cons, hpath]
      -- The last block of the query.
      · rw [take_of_length_le hlast] at hspell
        refine ⟨[id], tokens.length, walked_last ⟨_, hid⟩ hlast le_rfl
          (fun hkeys _ _ => take_eq_of_layout (hspell hkeys)), ?_, ?_⟩
        · rw [entries_first hpos hlast, drop_eq_nil_of_le hlast, blocksOf_nil,
            take_of_length_le hlast]
          rfl
        · rw [entries_first hpos hlast]
          rfl
    · cases enablePartialMatch with
      | false => exact ⟨[], 0, walked_nil _ _, rfl, rfl⟩
      | true =>
        cases hbest : tree.findBestPartialMatchInNextNodes (tree.next n)
            (tokens.take tree.mTokensPerBlock) with
        | none => exact ⟨[], 0, walked_nil _ _, rfl, rfl⟩
        | some m =>
          obtain ⟨hchild, hmpos, hm⟩ := findBestPartialMatch_eq_some hbest
          have hle := partialMatchThisNode_le (tree.tokensOf m.block)
            (tokens.take tree.mTokensPerBlock)
          rw [← hm, length_take, le_min_iff] at hle
          refine ⟨[m.block], m.numMatchedTokens, walked_last hchild hle.1 hle.2
            (fun _ x hx _ => ?_), ?_, ?_⟩
          · rw [take_partialMatchThisNode (hx.trans hm.le), take_take,
              min_eq_left (hx.trans hle.1)]
          · rw [entries_first hmpos hle.1]
            rfl
          · rw [entries_first hmpos hle.1]
            rfl

lemma matchTokenPath_walked (hwf : tree.WellFormed keys) (scope : ReuseScope)
    (tokens : List TokenIdExt) (enablePartialMatch : Bool) :
    ∃ path e, tree.Walked keys (.root (keys.rootKey scope)) tokens path e
      ∧ tree.matchTokenPath keys scope tokens enablePartialMatch
        = entries tree.mTokensPerBlock path e
      ∧ (entries tree.mTokensPerBlock path e).map MatchResult.block = path := by
  simp only [matchTokenPath]
  split
  · rename_i hroot
    have hkey : tree.keyOf (.root (keys.rootKey scope)) = some (keys.rootKey scope) := if_pos hroot
    exact matchSteps_walked hwf enablePartialMatch hkey tokens
  · exact ⟨[], 0, walked_nil _ _, rfl, rfl⟩

/-! ### What a match returns -/

variable (keys tree) in
/-- The endpoints that a match may end at: none beyond the raw match less the backoff, and
everything that the life cycles require is there. The empty match stands for the endpoint
zero. -/
def Usable (scope : ReuseScope) (tokens : List TokenIdExt) (enablePartialMatch : Bool)
    (backoff : ℕ) : Set ℕ :=
  let raw := tree.matchTokenPath keys scope tokens enablePartialMatch
  {e | e ≤ numMatchedTokens raw tree.mTokensPerBlock - backoff
    ∧ (0 < e → tree.Reusable (raw.map MatchResult.block) e)}

variable (keys tree) in
/-- **A match ends at the greatest usable endpoint**, and its blocks lead there on a path from
the root. -/
structure Maximal (scope : ReuseScope) (tokens : List TokenIdExt) (enablePartialMatch : Bool)
    (backoff : ℕ) (m : ReuseMatch) : Prop where
  isPath : tree.IsPath (.root (keys.rootKey scope)) m.blocks
  initial : m.blocks
    <+: (tree.matchTokenPath keys scope tokens enablePartialMatch).map MatchResult.block
  length : m.blocks.length = divUp m.numTokens tree.mTokensPerBlock
  greatest : IsGreatest (tree.Usable keys scope tokens enablePartialMatch backoff) m.numTokens

/-- Every match is maximal, and where keys spell the bytes its tokens are those of the query as
far as the layouts agree. -/
lemma reuseMatch_maximal (hwf : tree.WellFormed keys) (scope : ReuseScope)
    (tokens : List TokenIdExt) (enablePartialMatch : Bool) (backoff : ℕ) :
    let path := (tree.matchTokenPath keys scope tokens enablePartialMatch).map MatchResult.block
    let m := tree.reuseMatch keys scope tokens enablePartialMatch backoff
    tree.Maximal keys scope tokens enablePartialMatch backoff m
      ∧ (m.blocks.flatMap tree.tokensOf).take m.numTokens
        = (path.flatMap tree.tokensOf).take m.numTokens
      ∧ (tree.KeysSpell keys tokens → ∀ x ≤ m.numTokens,
        layout ((path.flatMap tree.tokensOf).take x) = layout (tokens.take x) →
          (path.flatMap tree.tokensOf).take x = tokens.take x) := by
  intro rawPath m
  obtain ⟨path, raw, hwalked, hraw, hpath⟩ :=
    matchTokenPath_walked hwf scope tokens enablePartialMatch
  have hT := tree.tokensPerBlock_pos
  have hbound : raw - backoff ≤ tree.mTokensPerBlock * path.length :=
    (Nat.sub_le _ _).trans hwalked.bound
  obtain ⟨e, hle, hprune, hreusable, hpassed⟩ := pruneMatch_entries hbound
  have hmatched : tree.pruneMatch tree.mLifeCycles.requiredSsmLifeCycleId (backOffMatch
      (tree.matchTokenPath keys scope tokens enablePartialMatch) backoff)
      = entries tree.mTokensPerBlock path e := by
    rw [hraw, backOffMatch_entries hT hwalked.bound, hprune]
  have hblocks : m.blocks = (entries tree.mTokensPerBlock path e).map MatchResult.block :=
    congrArg (map MatchResult.block) hmatched
  have hnum : m.numTokens = e :=
    (congrArg (numMatchedTokens · tree.mTokensPerBlock) hmatched).trans
      (numMatchedTokens_entries (hle.trans hbound))
  have hrawPath : rawPath = path := by rw [← hpath, ← hraw]
  have hrawNum : numMatchedTokens (tree.matchTokenPath keys scope tokens enablePartialMatch)
      tree.mTokensPerBlock = raw :=
    (congrArg (numMatchedTokens · tree.mTokensPerBlock) hraw).trans
      (numMatchedTokens_entries hwalked.bound)
  refine ⟨⟨?_, ?_, ?_, ?_, ?_⟩, ?_, ?_⟩
  · rw [hblocks]
    exact hwalked.isPath.of_prefix entries_prefix
  · exact hblocks ▸ hrawPath.symm ▸ entries_prefix
  · rw [hblocks, hnum, length_map, length_entries hT (hle.trans hbound)]
  · rw [hnum, Usable, hrawNum]
    refine ⟨hle, fun hpos => ?_⟩
    have hpathReusable := hreusable hpos
    rwa [← hrawPath] at hpathReusable
  · rintro x ⟨hx, hxreusable⟩
    rw [hrawNum] at hx
    rw [hnum]
    by_contra hlt
    exact hpassed x (by omega) hx (hrawPath ▸ hxreusable (by omega))
  · rw [hblocks, hnum, hrawPath, hwf.take_entries hwalked.isPath]
  · rw [hnum, hrawPath]
    exact fun hkeys x hx => hwalked.agrees hkeys x (by omega)

end Walk

/-! ### Soundness of the keys of the source -/

section Sound

variable {sha256 : List UInt8 → Digest} {tree : BlockRadixTree Digest}

/-- A hash without a collision between a block of the tree and a block of the query below one
node. -/
def Collisionless (sha256 : List UInt8 → Digest) (tree : BlockRadixTree Digest)
    (tokens : List TokenIdExt) : Prop :=
  ∀ {n prevKey id block step}, step ∈ blocksOf tree.mTokensPerBlock tokens →
    tree.keyOf n = some prevKey → tree.blocks.find? id = some block → block.prev = some n →
    let hashed := fun tokens : List TokenIdExt => prevKey.toList ++ tokens.flatMap tokenBytes
    sha256 (hashed block.tokens) = sha256 (hashed step) → hashed block.tokens = hashed step

lemma Collisionless.keysSpell {tokens : List TokenIdExt} (h : Collisionless sha256 tree tokens)
    (hwf : tree.WellFormed (hashKeys sha256)) : tree.KeysSpell (hashKeys sha256) tokens := by
  intro n prevKey id step hstep hkey hid
  obtain ⟨block, hblock, hblockKey, hprev⟩ := hwf.child hid
  obtain ⟨prevKey', hkey', hmake⟩ := hwf.key hblock hprev
  cases hkey.symm.trans hkey'
  have hhash := hmake.symm.trans hblockKey
  simp only [hashKeys, makeKey_eq] at hhash
  have hbytes := h hstep hkey hblock hprev hhash
  rw [tokensOf, hblock]
  exact append_cancel_left hbytes

end Sound

/-! ### A tree of one block -/

section OneBlock

variable {Key : Type*} [DecidableEq Key] (keys : KeyScheme Key) {T : ℕ} (hT : 0 < T)
  (tokens : List TokenIdExt)

/-- The block of some tokens under the root. -/
def onlyBlock : Block Key where
  key := keys.makeKey (keys.rootKey plainScope) tokens
  tokens := tokens
  prev := some (.root (keys.rootKey plainScope))
  ordinal := 0

/-- One block, with a page for full attention. -/
def oneBlockTree : BlockRadixTree Key where
  mLifeCycles := ⟨[.attn ⟨none, 0, .REQUIRED⟩], by decide⟩
  mTokensPerBlock := T
  tokensPerBlock_pos := hT
  mRoots := (∅ : USet Key).set (keys.rootKey plainScope) ()
  mPendingRootErases := []
  next n := if n = .root (keys.rootKey plainScope)
    then (∅ : UMap Key ℕ).set (onlyBlock keys tokens).key 0 else ∅
  blocks := (∅ : UMap ℕ (Block Key)).set 0 (onlyBlock keys tokens)
  storage id lc := if id = 0 ∧ lc = 0 then some 0 else none
  pages := (∅ : UMap ℕ CommittedPage).set 0 ⟨some 0, 0, tokens.length⟩
  events := []

variable {keys hT tokens} {id : ℕ}

lemma oneBlockTree_block {block : Block Key}
    (h : (oneBlockTree keys hT tokens).blocks.find? id = some block) :
    id = 0 ∧ block = onlyBlock keys tokens := by
  simp only [oneBlockTree, find?_set, find?_empty] at h
  split_ifs at h with hid
  exact ⟨hid, (Option.some.inj h).symm⟩

lemma oneBlockTree_next {n : NodeRef Key} {k : Key}
    (h : ((oneBlockTree keys hT tokens).next n).find? k = some id) :
    n = .root (keys.rootKey plainScope) ∧ k = (onlyBlock keys tokens).key ∧ id = 0 := by
  simp only [oneBlockTree] at h
  split_ifs at h with hn
  · simp only [find?_set, find?_empty] at h
    split_ifs at h with hk
    exact ⟨hn, hk, (Option.some.inj h).symm⟩
  · cases h

lemma oneBlockTree_page {p : ℕ} {page : CommittedPage}
    (h : (oneBlockTree keys hT tokens).pages.find? p = some page) :
    p = 0 ∧ page = ⟨some 0, 0, tokens.length⟩ := by
  simp only [oneBlockTree, find?_set, find?_empty] at h
  split_ifs at h with hp
  exact ⟨hp, (Option.some.inj h).symm⟩

lemma mem_oneBlockTree_roots : keys.rootKey plainScope ∈ (oneBlockTree keys hT tokens).mRoots :=
  UMap.mem_set.2 (.inl rfl)

lemma oneBlockTree_keyOf : (oneBlockTree keys hT tokens).keyOf (.root (keys.rootKey plainScope))
    = some (keys.rootKey plainScope) :=
  if_pos mem_oneBlockTree_roots

lemma oneBlockTree_wellFormed (hpos : 0 < tokens.length) (hle : tokens.length ≤ T) :
    (oneBlockTree keys hT tokens).WellFormed keys where
  child h := by
    obtain ⟨rfl, rfl, rfl⟩ := oneBlockTree_next h
    exact ⟨onlyBlock keys tokens, rfl, rfl, rfl⟩
  parent h hprev := by
    obtain ⟨rfl, rfl⟩ := oneBlockTree_block h
    cases hprev
    simp [oneBlockTree]
  key h hprev := by
    obtain ⟨rfl, rfl⟩ := oneBlockTree_block h
    cases hprev
    exact ⟨keys.rootKey plainScope, oneBlockTree_keyOf, rfl⟩
  ordinal h hprev := by
    obtain ⟨rfl, rfl⟩ := oneBlockTree_block h
    cases hprev
    rfl
  size h := by
    obtain ⟨rfl, rfl⟩ := oneBlockTree_block h
    exact ⟨hpos, hle⟩
  full h := by
    obtain ⟨rfl, -, -⟩ := oneBlockTree_next h
    exact mem_oneBlockTree_roots
  page := by
    intro id lc p
    constructor
    · intro hp
      simp only [oneBlockTree] at hp
      split_ifs at hp with hslot
      obtain ⟨rfl, rfl⟩ := hslot
      cases hp
      exact ⟨_, rfl, rfl, rfl⟩
    · rintro ⟨page, hpage, hblock, hlc⟩
      obtain ⟨rfl, rfl⟩ := oneBlockTree_page hpage
      cases hblock
      cases hlc
      rfl
  covers hpage hblock := by
    obtain ⟨rfl, rfl⟩ := oneBlockTree_page hpage
    cases hblock
    exact ⟨onlyBlock keys tokens, rfl, le_rfl⟩
  slot hpage := by
    obtain ⟨rfl, rfl⟩ := oneBlockTree_page hpage
    exact Nat.one_pos
  incomparable h h' _ := by
    obtain ⟨-, -, rfl⟩ := oneBlockTree_next h
    obtain ⟨-, -, rfl⟩ := oneBlockTree_next h'
    rfl

/-- A query with the key of the block takes the block. -/
lemma oneBlockTree_matchTokenPath {query : List TokenIdExt} (hne : query ≠ [])
    (hle : query.length ≤ T) (enablePartialMatch : Bool)
    (hkey : keys.makeKey (keys.rootKey plainScope) query = (onlyBlock keys tokens).key) :
    (oneBlockTree keys hT tokens).matchTokenPath keys plainScope query enablePartialMatch
      = [⟨0, query.length⟩] := by
  have hblocks : blocksOf T query = [query] := by
    rw [blocksOf, dif_pos ⟨hT, hne⟩, take_of_length_le hle, drop_eq_nil_of_le hle, blocksOf_nil]
  have hchild : ((oneBlockTree keys hT tokens).next (.root (keys.rootKey plainScope))).find?
      (onlyBlock keys tokens).key = some 0 := by
    simp [oneBlockTree]
  rw [matchTokenPath, if_pos mem_oneBlockTree_roots]
  change matchSteps keys _ _ _ _ (blocksOf T query) = _
  rw [hblocks, matchSteps, hkey, hchild]
  rfl

/-- The page reaches to the end of the block. -/
lemma oneBlockTree_reusable {e : ℕ} (he : e ≤ tokens.length) :
    (oneBlockTree keys hT tokens).Reusable [0] e := by
  have hcovered : ∀ lcId attn, (oneBlockTree keys hT tokens).mLifeCycles.lifeCycles[lcId]?
      = some (.attn attn) → ∀ needed,
        (oneBlockTree keys hT tokens).CoveredAt lcId needed [0] e := by
    intro lcId attn hlc needed j id hj _ _
    obtain ⟨rfl, rfl⟩ : j = 0 ∧ id = 0 := by
      cases j with
      | zero => exact ⟨rfl, (Option.some.inj hj).symm⟩
      | succ j => simp at hj
    obtain rfl : lcId = 0 := by
      cases lcId with
      | zero => rfl
      | succ lcId => simp [oneBlockTree] at hlc
    rw [Nat.zero_mul, Nat.sub_zero]
    exact (min_le_right _ _).trans he
  refine ⟨fun lcId attn hlc _ => hcovered lcId attn hlc _,
    fun lcId attn hlc _ => hcovered lcId attn hlc _, fun lcId hlc => ?_⟩
  cases lcId <;> simp [oneBlockTree] at hlc

end OneBlock

local instance (priority := 2000) blockIds_ne : NeZero (2 ^ 31) := normal_ne

/-- The SHA-256 digests of what is hashed to look the ids `5, 6, 7` up in blocks of two, without
adapter and salt. -/
def sha256OfFives (x : List UInt8) : Digest :=
  let root : Digest :=
    ⟨[110, 52, 11, 156, 255, 179, 122, 152, 156, 165, 68, 230, 187, 120, 10, 44, 120, 144, 29,
      63, 179, 55, 56, 118, 133, 17, 163, 6, 23, 175, 160, 29], rfl⟩
  if x = [0] then root
  else if x = root.toList ++ [5, 0, 0, 0, 6, 0, 0, 0] then
    ⟨[91, 240, 129, 92, 158, 224, 221, 173, 47, 114, 119, 246, 2, 182, 199, 19, 180, 86, 49,
      194, 15, 183, 227, 67, 131, 233, 126, 74, 181, 115, 192, 39], rfl⟩
  else if x = root.toList ++ [7, 0, 0, 0] then
    ⟨[155, 95, 197, 25, 212, 144, 36, 118, 58, 132, 14, 124, 161, 138, 155, 169, 141, 21, 65,
      60, 85, 24, 145, 126, 40, 47, 186, 36, 195, 44, 116, 6], rfl⟩
  else
    ⟨[80, 213, 194, 124, 132, 179, 70, 141, 20, 31, 175, 87, 88, 222, 21, 45, 19, 21, 167, 159,
      179, 5, 173, 11, 39, 91, 128, 246, 128, 214, 84, 1], rfl⟩

end BlockRadixTree

end TrtLlm.KvCacheV2
