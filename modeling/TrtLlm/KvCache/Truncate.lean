import TrtLlm.KvCache.ReleaseSubtree

/-!
What a truncation does to a cached token sequence.

* `truncateBlocks_tail`: the tail of the sequence is out of the tree, and what starts before it is
  kept.
-/

namespace TrtLlm.KvCache

open List Function Option

namespace WindowBlocks

variable {s s' : WindowBlocks} {node : List BlockKey} {id : ℕ} {k : ℤ} {numMatched : ℕ}

/-! ### The lookup -/

/-- A match is a child that holds a block, in not more tokens than the key has. -/
lemma findMatchingBlock_spec {key : BlockKey} {isPartial : Bool} {child : List BlockKey}
    (h : s.findMatchingBlock key node = some (isPartial, numMatched, child)) :
    (∃ key', child = key' :: node) ∧ (∃ id, s.block child = some id)
      ∧ numMatched ≤ key.uniqueTokens.length := by
  rw [findMatchingBlock] at h
  split_ifs at h with hempty hexact hpartial
  · obtain ⟨id, hid, heq⟩ := map_eq_some_iff.mp h
    obtain ⟨-, rfl, rfl⟩ := heq
    exact ⟨⟨key, rfl⟩, ⟨id, hid⟩, le_refl _⟩
  · obtain ⟨found, hfound, h⟩ := exists_of_findSome?_eq_some h
    obtain ⟨id, hid, h⟩ := bind_eq_some_iff.mp h
    split_ifs at h
    obtain ⟨-, rfl, rfl⟩ := h
    rw [findPartiallyMatchingNodes] at hfound
    split_ifs at hfound
    · rw [mem_insertionSort, mem_filterMap] at hfound
      obtain ⟨key', -, hkey⟩ := hfound
      dsimp only at hkey
      split_ifs at hkey
      obtain rfl := some.inj hkey
      exact ⟨⟨key', rfl⟩, ⟨id, hid⟩, BlockKey.numMatchingTokens_le key key'⟩
    · cases hfound

/-- A child with the key itself that holds a block is found. -/
lemma findMatchingBlock_exact {key : BlockKey} (hkey : 0 < key.uniqueTokens.length)
    (hid : s.block (key :: node) = some id) :
    ∃ isPartial, s.findMatchingBlock key node
      = some (isPartial, key.uniqueTokens.length, key :: node) := by
  have hne : key.uniqueTokens ≠ [] := length_pos_iff.mp hkey
  have hmem : key ∈ s.tree.nextNodes node := Trie.mem_nextNodes.mpr (Trie.mem_of_getValue hid)
  refine ⟨!s.isFull id, ?_⟩
  rw [findMatchingBlock, if_neg hne, if_pos hmem, hid]
  rfl

/-- The loop releases the block the lookup stops at. -/
lemma truncateLoop_eq (k : ℤ) (keys searchRoot : List BlockKey) (numMatched : ℕ)
    (s : WindowBlocks) :
    truncateLoop k keys searchRoot numMatched s = match s.pastIn k keys searchRoot numMatched with
      | none => some s
      | some node => (s.block node).bind fun id =>
        (s.setPriority id kMinRetentionPriority).releaseSubtree node := by
  induction keys generalizing searchRoot numMatched with
  | nil => rfl
  | cons key keys ih =>
    rw [truncateLoop, pastIn]
    cases hfind : s.findMatchingBlock key searchRoot with
    | none => rfl
    | some found =>
      obtain ⟨isPartial, num, node⟩ := found
      dsimp only
      split_ifs with hk
      · rfl
      · exact ih node _
      · exact ih node _

/-- **The block the lookup stops at starts behind the tokens to keep.** -/
lemma pastIn_spec {keys searchRoot : List BlockKey} {T : ℕ}
    (hkeys : ∀ key ∈ keys, key.uniqueTokens.length ≤ T)
    (hmatched : numMatched ≤ searchRoot.length * T)
    (h : s.pastIn k keys searchRoot numMatched = some node) :
    (∃ id, s.block node = some id) ∧ node ≠ [] ∧ k < ((node.length - 1) * T : ℕ) := by
  induction keys generalizing searchRoot numMatched with
  | nil => cases h
  | cons key keys ih =>
    rw [pastIn] at h
    cases hfind : s.findMatchingBlock key searchRoot with
    | none =>
      rw [hfind] at h
      cases h
    | some found =>
      obtain ⟨isPartial, num, child⟩ := found
      rw [hfind] at h
      dsimp only at h
      obtain ⟨⟨key', rfl⟩, hblock, hnum⟩ := findMatchingBlock_spec hfind
      by_cases hk : k < numMatched
      · rw [if_pos hk] at h
        obtain rfl := some.inj h
        refine ⟨hblock, cons_ne_nil _ _, ?_⟩
        rw [length_cons, Nat.add_sub_cancel]
        exact hk.trans_le (Int.ofNat_le.mpr hmatched)
      · rw [if_neg hk] at h
        have hkey := hkeys key mem_cons_self
        refine ih (fun key hmem => hkeys key (mem_cons_of_mem _ hmem)) ?_ h
        rw [length_cons, add_one_mul]
        refine Nat.add_le_add hmatched ?_
        split_ifs
        · exact hnum.trans hkey
        · exact hkey

/-- **The lookup stops on the way to a cached block that starts behind the tokens to keep**, when
all the blocks before it are cached too. -/
lemma exists_pastIn {keys searchRoot : List BlockKey} {T i : ℕ}
    (hpos : ∀ key ∈ keys, 0 < key.uniqueTokens.length)
    (hfull : ∀ j (hj : j + 1 < keys.length), (keys.get ⟨j, by omega⟩).uniqueTokens.length = T)
    (hi : 0 < i) (hle : i ≤ keys.length)
    (hcached : ∀ j, 0 < j → j ≤ i → ∃ id, s.block ((keys.take j).reverse ++ searchRoot) = some id)
    (hk : k < (numMatched + (i - 1) * T : ℕ)) :
    ∃ node, s.pastIn k keys searchRoot numMatched = some node
      ∧ node <:+ (keys.take i).reverse ++ searchRoot := by
  induction keys generalizing searchRoot numMatched i with
  | nil =>
    rw [length_nil] at hle
    omega
  | cons key keys ih =>
    obtain ⟨id, hid⟩ := hcached 1 (by omega) hi
    rw [take_succ_cons, take_zero, reverse_singleton, singleton_append] at hid
    obtain ⟨isPartial, hfind⟩ := findMatchingBlock_exact (hpos key mem_cons_self) hid
    rw [pastIn, hfind]
    dsimp only
    obtain ⟨i, rfl⟩ : ∃ j, i = j + 1 := ⟨i - 1, by omega⟩
    rw [take_succ_cons, reverse_cons, append_assoc, singleton_append]
    by_cases hnow : k < numMatched
    · rw [if_pos hnow]
      exact ⟨_, rfl, suffix_append _ _⟩
    · rw [if_neg hnow, if_pos (hpos key mem_cons_self)]
      have hi' : 0 < i := by
        rcases Nat.eq_zero_or_pos i with rfl | hi'
        · rw [Nat.zero_add, Nat.sub_self, Nat.zero_mul, Nat.add_zero] at hk
          exact absurd hk hnow
        · exact hi'
      rw [length_cons] at hle
      have hkey : key.uniqueTokens.length = T := hfull 0 (by rw [length_cons]; omega)
      refine ih (fun key hmem => hpos key (mem_cons_of_mem _ hmem))
        (fun j hj => hfull (j + 1) (by rw [length_cons]; omega)) hi' (by omega)
          (fun j hj hji => ?_) ?_
      · have hstep := hcached (j + 1) (by omega) (by omega)
        rwa [take_succ_cons, reverse_cons, append_assoc, singleton_append] at hstep
      · obtain ⟨i, rfl⟩ : ∃ j, i = j + 1 := ⟨i - 1, by omega⟩
        rw [hkey]
        rw [Nat.add_sub_cancel, add_one_mul] at hk
        rw [Nat.add_sub_cancel]
        push_cast at hk ⊢
        omega

/-- The keys of a token sequence. -/
lemma blockKeys_spec (hT : 0 < s.tokensPerBlock) (tokens : List ℤ) :
    (∀ key ∈ s.blockKeys tokens, 0 < key.uniqueTokens.length
      ∧ key.uniqueTokens.length ≤ s.tokensPerBlock)
      ∧ ∀ j (hj : j + 1 < (s.blockKeys tokens).length),
          ((s.blockKeys tokens).get ⟨j, by omega⟩).uniqueTokens.length = s.tokensPerBlock := by
  constructor
  · intro key hkey
    obtain ⟨chunk, hchunk, rfl⟩ := List.mem_map.mp hkey
    rw [BlockKey.length_uniqueTokens_ofTokens]
    exact length_of_mem_chopVectorIntoBlocks hT hchunk
  · intro j hj
    rw [blockKeys, length_map] at hj
    have hlen := length_getElem_chopVectorIntoBlocks hT hj
    simp only [blockKeys, get_eq_getElem, getElem_map, BlockKey.length_uniqueTokens_ofTokens]
    exact hlen

/-- The lookup stops on the way to a cached block of the sequence that starts behind the tokens to
keep. -/
lemma exists_firstPast (hT : 0 < s.tokensPerBlock) {tokens : List ℤ} {i : ℕ} (hi : 0 < i)
    (hle : i ≤ (s.blockKeys tokens).length) (hcached : s.CachedTo tokens i)
    (hk : k < s.startOf (s.pathNode tokens i)) :
    ∃ node, s.firstPast tokens k = some node ∧ node <:+ s.pathNode tokens i := by
  obtain ⟨hkeys, hfull⟩ := blockKeys_spec hT tokens
  have hlen : (s.pathNode tokens i).length = i := by
    rw [pathNode, length_reverse, length_take]
    omega
  rw [startOf, hlen] at hk
  have hpath : ∀ j, 0 < j → j ≤ i → ∃ id, s.block (((s.blockKeys tokens).take j).reverse ++ [])
      = some id := by
    intro j hj hji
    rw [append_nil]
    exact hcached j hj hji
  have hpast : ∃ node, s.pastIn k (s.blockKeys tokens) [] 0 = some node
      ∧ node <:+ ((s.blockKeys tokens).take i).reverse ++ [] :=
    exists_pastIn (fun key hmem => (hkeys key hmem).1) hfull hi hle hpath
      (by rw [Nat.zero_add]; exact hk)
  rwa [append_nil] at hpast

lemma sameBlocks_setPriority (s : WindowBlocks) (id priority : ℕ) :
    Pool.SameBlocks s.pool (s.setPriority id priority).pool := by
  show Pool.SameBlocks s.pool (s.pool.modify id fun b => { b with priority := priority })
  exact Pool.SameBlocks.modify s.pool id rfl rfl

/-- Different nodes hold different blocks. -/
lemma WellFormed.nodup_blocks (h : s.WellFormed) {nodes : List (List BlockKey)}
    (hnodup : nodes.Nodup) : (nodes.filterMap s.block).Nodup :=
  hnodup.filterMap fun node node' id hid hid' => h.once node node' id hid hid'

/-- **Truncating a token sequence releases its tail**: what is behind the tokens to keep, and not
what starts within them. -/
theorem truncateBlocks_tail (h : s.WellFormed) (tokens : List ℤ) (k : ℤ)
    (hown : ∀ node, s.firstPast tokens k = some node → s.Own node) :
    ∃ s', s.truncateBlocks tokens k = some s' ∧ Truncated s tokens k s' := by
  rw [truncateBlocks, truncateLoop_eq, ← firstPast]
  cases hpast : s.firstPast tokens k with
  | none =>
    refine ⟨s, rfl, fun i hi hle hcached hk => ?_, fun _ _ _ => rfl, fun node id hid hnone => ?_,
      h.intact.counted⟩
    · obtain ⟨node, hnode, -⟩ := exists_firstPast h.tokensPerBlock_pos hi hle hcached hk
      rw [hpast] at hnode
      cases hnode
    · rw [hid] at hnone
      cases hnone
  | some past =>
    have hkeys := (blockKeys_spec h.tokensPerBlock_pos tokens).1
    obtain ⟨⟨id, hid⟩, hroot, hstart⟩ := pastIn_spec (fun key hmem => (hkeys key hmem).2)
      (Nat.zero_le _) hpast
    set s₀ := s.setPriority id kMinRetentionPriority with hs₀
    have hsame : Pool.SameBlocks s.pool s₀.pool := sameBlocks_setPriority s id kMinRetentionPriority
    obtain ⟨s', nodes, hrun, hreleased, hnodup, hmem⟩ :=
      releaseSubtree_spec (s := s₀) hid hroot (hown past hpast)
    have hwf : (nodes.filterMap s₀.block).Nodup := h.nodup_blocks hnodup
    have hpool := Pool.releasedAtMin_foldr s₀.pool hwf
    rw [← hreleased.pool] at hpool
    have hvalues : ∀ node window, s'.tree.getValue node window
        = if node ∈ nodes ∧ window = s.windowSize then none else s.tree.getValue node window :=
      hreleased.values
    have hblock : ∀ node, s'.block node = if node ∈ nodes then none else s.block node := by
      intro node
      rw [block, hvalues, hreleased.window]
      simp only [hs₀, setPriority, and_true]
      rfl
    refine ⟨s', ?_, fun i hi hle hcached hk node hsuffix => ?_, fun node window hkeep => ?_,
      fun node id' hid' hnone href hfree => ?_, hpool.counted h.intact.counted⟩
    · show (s.block past).bind _ = _
      rw [hid]
      exact hrun
    · obtain ⟨past', hpast', hsuffix'⟩ := exists_firstPast h.tokensPerBlock_pos hi hle hcached hk
      obtain rfl := some.inj (hpast.symm.trans hpast')
      rw [hblock]
      split_ifs with hin
      · rfl
      · rw [← not_isSome_iff_eq_none, isSome_iff_exists]
        rintro ⟨id', hid'⟩
        exact hin ((hmem node).mpr ⟨Trie.mem_of_getValue hid', hsuffix'.trans hsuffix⟩)
    · rw [hvalues, if_neg]
      rintro ⟨hin, hwindow⟩
      obtain hkeep | hkeep := hkeep
      · have hle := ((hmem node).mp hin).2.length_le
        have hmul : (past.length - 1) * s.tokensPerBlock ≤ s.startOf node :=
          Nat.mul_le_mul_right _ (by omega)
        omega
      · exact hkeep hwindow
    · have hin : node ∈ nodes := by
        by_contra hin
        rw [hblock, if_neg hin, hid'] at hnone
        cases hnone
      have hids : id' ∈ nodes.filterMap s₀.block := mem_filterMap.mpr ⟨node, hin, hid'⟩
      have href₀ : (s₀.pool.blocks id').refCount = 0 := (hsame.refCount id').trans href
      refine ⟨hpool.priority id' hids href₀, fun level priority => ?_⟩
      have hbefore : (s₀.pool.queues level priority).count id' = 0 :=
        count_eq_zero_of_not_mem (h.intact.not_mem hfree level priority)
      rw [hpool.counts, hbefore, Nat.zero_add, hsame.level]
      simp only [hids, href₀, true_and]

/-- A sequence of three blocks of one token: the first two are held, and nothing is queued. -/
def sampleKey (token : ℤ) : BlockKey := BlockKey.ofTokens [token] none

/-- The tree of the three blocks. -/
def sampleTree : Trie BlockKey ℤ ℕ where
  nodes := [[], [sampleKey 1], [sampleKey 2, sampleKey 1], [sampleKey 3, sampleKey 2, sampleKey 1]]
  nodup := by decide
  root_mem := by decide
  parent_mem key node h := by
    simp only [mem_cons, not_mem_nil, or_false, List.cons.injEq, reduceCtorEq, false_or] at h
    rcases h with ⟨-, rfl⟩ | ⟨-, rfl⟩ | ⟨-, rfl⟩
    · decide
    · decide
    · decide
  values node :=
    if node = [sampleKey 1] then ⟨[(4, 0)], by decide⟩
    else if node = [sampleKey 2, sampleKey 1] then ⟨[(4, 1)], by decide⟩
    else if node = [sampleKey 3, sampleKey 2, sampleKey 1] then ⟨[(4, 2)], by decide⟩
    else ∅
  mem_of_value node h := by
    split_ifs at h with h₁ h₂ h₃
    · rw [h₁]
      decide
    · rw [h₂]
      decide
    · rw [h₃]
      decide
    · exact absurd rfl h

/-- A window with these blocks: the first two are held, the last one is free. -/
def sampleWindow : WindowBlocks where
  windowSize := 4
  tokensPerBlock := 1
  enablePartialReuse := true
  copyOnPartialReuse := true
  tree := sampleTree
  isFull _ := true
  pool :=
    { blocks := fun id => ⟨if id = 2 then 0 else 1, 35, .primary, true, true⟩
      queues := fun level priority => if level = .primary ∧ priority = 35 then [2] else []
      queued := fun id => decide (id = 2)
      numFree := fun level => if level = .primary then 1 else 0
      secondaryOffloadMinPriority := 0 }

lemma sampleWindow_wellFormed : sampleWindow.WellFormed where
  tokensPerBlock_pos := by decide
  intact :=
    { free := fun level priority id h => by
        simp only [sampleWindow] at h ⊢
        split_ifs at h with hqueue
        · obtain rfl := mem_singleton.mp h
          exact ⟨hqueue.1.symm, hqueue.2.symm, rfl, rfl⟩
        · cases h
      nodup := fun level priority => by
        simp only [sampleWindow]
        split_ifs
        · exact nodup_singleton 2
        · exact nodup_nil
      queued := fun id h => by
        obtain rfl := of_decide_eq_true h
        exact mem_singleton.mpr rfl
      priority_lt := fun _ => (by decide : 35 < kNumPriorities)
      counted := fun level => by cases level <;> decide }
  once node node' id hid hid' := by
    have hcases : ∀ node id, sampleWindow.block node = some id → node = match id with
        | 0 => [sampleKey 1]
        | 1 => [sampleKey 2, sampleKey 1]
        | _ => [sampleKey 3, sampleKey 2, sampleKey 1] := by
      intro node id h
      have hmem := Trie.mem_of_getValue h
      simp only [sampleWindow, sampleTree, mem_cons, not_mem_nil, or_false] at hmem
      rcases hmem with rfl | rfl | rfl | rfl
      · cases h
      · obtain rfl : 0 = id := some.inj h
        rfl
      · obtain rfl : 1 = id := some.inj h
        rfl
      · obtain rfl : 2 = id := some.inj h
        rfl
    exact (hcases node id hid).trans (hcases node' id hid').symm

/-- The last two blocks are released, though the second one is held. -/
theorem truncateBlocks_tail_sample :
    sampleWindow.firstPast [1, 2, 3] 0 = some [sampleKey 2, sampleKey 1]
      ∧ ∃ s', sampleWindow.truncateBlocks [1, 2, 3] 0 = some s'
        ∧ Truncated sampleWindow [1, 2, 3] 0 s' := by
  have hpast : sampleWindow.firstPast [1, 2, 3] 0 = some [sampleKey 2, sampleKey 1] := by decide
  refine ⟨hpast, truncateBlocks_tail sampleWindow_wellFormed [1, 2, 3] 0 fun node hnode => ?_⟩
  obtain rfl := some.inj (hpast.symm.trans hnode)
  intro node' hmem hsuffix hne
  simp only [sampleWindow, sampleTree, mem_cons, not_mem_nil, or_false] at hmem
  rcases hmem with rfl | rfl | rfl | rfl
  · exact absurd hsuffix (by decide)
  · exact absurd hsuffix (by decide)
  · exact absurd rfl hne
  · refine ⟨⟨2, by decide⟩, fun window hwindow => ?_⟩
    show UMap.find? ⟨[((4 : ℤ), 2)], _⟩ window = none
    rw [UMap.find?_eq_none_iff]
    intro hin
    exact hwindow (mem_singleton.mp hin)

/-- **A block that starts right at the number of tokens to keep stays in the tree.** -/
theorem truncateBlocks_keeps_border :
    ¬ ∀ s : WindowBlocks, s.WellFormed → ∀ (tokens : List ℤ) (k : ℤ),
      ∃ s', s.truncateBlocks tokens k = some s'
        ∧ ∀ i, 0 < i → i ≤ (s.blockKeys tokens).length →
          (∃ id, s.block (s.pathNode tokens i) = some id) →
          k ≤ s.startOf (s.pathNode tokens i) → s'.block (s.pathNode tokens i) = none := by
  intro h
  obtain ⟨s', hrun, hout⟩ := h sampleWindow sampleWindow_wellFormed [1, 2, 3] 0
  have hkept : (sampleWindow.truncateBlocks [1, 2, 3] 0).map (fun s => s.block [sampleKey 1])
      = some (some 0) := by decide
  rw [hrun] at hkept
  have hnone := hout 1 (by decide) (by decide) ⟨0, by decide⟩ (by decide)
  have hpath : sampleWindow.pathNode [1, 2, 3] 1 = [sampleKey 1] := by decide
  rw [hpath] at hnone
  rw [map_some, hnone] at hkept
  exact absurd hkept (by decide)

end WindowBlocks

end TrtLlm.KvCache
