import TrtLlm.KvCacheV2.AbsorbPages
import TrtLlm.KvCacheV2.ReuseWalk

/-!
What a query can reuse after `attachBlock` replaced a partial sibling by a longer block.

The pages of the sibling move with their token counts, so the old endpoint is reached through the
longer block, by the search for the best partial match.  That search takes the first child with
the longest leading match in the order of the container: between two of them it may take either,
and their pages need not reach equally far.  And a query that has the key of a block, but other
tokens (see `keys_confuse_digest_and_ids`), finds it by the key alone.

* `Absorbs.matchSteps`: the walk of a query meets the longer block in place of the sibling;
* `attachBlock_keeps_reuse`: **no query that is unambiguous at the parent loses tokens**.
-/

namespace TrtLlm.KvCacheV2

open BlockRadixTree List Function Option Prod UMap
/-! ### Leading matches -/

section
variable {tokens other q : List TokenIdExt}

/-- A longer block matches at least as far as its prefix, and no farther where that is left. -/
lemma partialMatchThisNode_longer (h : tokens <+: other) (q : List TokenIdExt) :
    partialMatchThisNode tokens q ≤ partialMatchThisNode other q
      ∧ (partialMatchThisNode tokens q < tokens.length →
        partialMatchThisNode other q = partialMatchThisNode tokens q) := by
  obtain ⟨rest, rfl⟩ := h
  induction tokens generalizing q with
  | nil => simp [partialMatchThisNode]
  | cons token tokens ih =>
    cases q with
    | nil => simp [partialMatchThisNode]
    | cons o q =>
      simp only [cons_append, partialMatchThisNode, length_cons]
      split_ifs
      · obtain ⟨hle, heq⟩ := ih q
        exact ⟨by omega, fun hlt => by rw [heq (by omega)]⟩
      · exact ⟨le_rfl, fun _ => rfl⟩

/-- A block that is matched to its end is a prefix of the query. -/
lemma prefix_of_partialMatch (h : tokens.length ≤ partialMatchThisNode tokens q) :
    tokens <+: q := by
  have htake := take_partialMatchThisNode h
  rw [take_length] at htake
  exact htake ▸ take_prefix _ _

lemma partialMatchThisNode_eq_length (h : tokens <+: q) :
    partialMatchThisNode tokens q = tokens.length := by
  obtain ⟨rest, rfl⟩ := h
  induction tokens with
  | nil => cases rest <;> rfl
  | cons token tokens ih =>
    rw [cons_append, partialMatchThisNode, if_pos rfl, ih, length_cons]

/-- A block that matches as far as the end of another has it as a prefix. -/
lemma prefix_of_le_partialMatch (hfull : tokens <+: q)
    (h : tokens.length ≤ partialMatchThisNode other q) : tokens <+: other := by
  have htake := take_partialMatchThisNode h
  have htokens : q.take tokens.length = tokens := (prefix_iff_eq_take.mp hfull).symm
  rw [htokens] at htake
  exact htake ▸ take_prefix _ _

end

namespace BlockRadixTree

variable {Key : Type*} {keys : KeyScheme Key} {tree t : BlockRadixTree Key}

/-! ### Matches that serve for others -/

/-- A match of a block in the tree `t` that serves for one in `tree`. -/
def Serves (tree t : BlockRadixTree Key) (m m' : MatchResult) : Prop :=
  (∀ lc < tree.mLifeCycles.size, tree.pageCoverage m.block lc ≤ t.pageCoverage m'.block lc)
    ∧ m.numMatchedTokens ≤ m'.numMatchedTokens

/-- A match of as many blocks, each at least as far. -/
lemma numMatchedTokens_le {l l' : List MatchResult} (T : ℕ)
    (h : Forall₂ (Serves tree t) l l') : numMatchedTokens l T ≤ numMatchedTokens l' T := by
  induction h with
  | nil => exact le_rfl
  | @cons m m' l l' hserves hrest ih =>
    have hlen := hrest.length_eq
    by_cases hl : l = []
    · subst hl
      obtain rfl : l' = [] := length_eq_zero_iff.mp hlen.symm
      simpa [numMatchedTokens] using hserves.2
    · have hl' : l' ≠ [] := by
        rintro rfl
        exact hl (length_eq_zero_iff.mp hlen)
      rw [numMatchedTokens_cons hl, numMatchedTokens_cons hl']
      exact Nat.add_le_add_left ih T

/-- What can be reused of a path can be of one whose pages cover as much. -/
lemma Reusable.of_serves {l l' : List MatchResult} {e : ℕ}
    (hattn : ∀ lc ∈ tree.mLifeCycles.lifeCycles, ∃ attn, lc = .attn attn)
    (hregistry : t.mLifeCycles = tree.mLifeCycles)
    (htokens : t.mTokensPerBlock = tree.mTokensPerBlock)
    (h : Forall₂ (Serves tree t) l l') (hreuse : tree.Reusable (l.map MatchResult.block) e) :
    t.Reusable (l'.map MatchResult.block) e := by
  have hcovered : ∀ lcId attn, tree.mLifeCycles.lifeCycles[lcId]? = some (.attn attn) →
      ∀ needed : ℕ → Prop, tree.CoveredAt lcId needed (l.map MatchResult.block) e →
        t.CoveredAt lcId needed (l'.map MatchResult.block) e := by
    intro lcId attn hlc needed hcov j i hi hlt hneeded
    have hsize : lcId < tree.mLifeCycles.size := (List.getElem?_eq_some_iff.mp hlc).1
    rw [getElem?_map, map_eq_some_iff] at hi
    obtain ⟨m', hm', rfl⟩ := hi
    obtain ⟨hj', rfl⟩ := List.getElem?_eq_some_iff.mp hm'
    have hj : j < l.length := h.length_eq ▸ hj'
    have hserves := (h.get hj hj').1 lcId hsize
    rw [htokens] at hlt ⊢
    refine (hcov j l[j].block ?_ hlt hneeded).trans hserves
    rw [getElem?_map, getElem?_eq_getElem hj]
    rfl
  refine ⟨fun lcId attn hlc hpolicy => ?_, fun lcId attn hlc hpolicy => ?_, fun lcId hlc => ?_⟩
  · rw [hregistry] at hlc
    rw [htokens]
    exact hcovered lcId attn hlc _ (hreuse.window lcId attn hlc hpolicy)
  · rw [hregistry] at hlc
    rw [htokens]
    exact hcovered lcId attn hlc _ (hreuse.sinks lcId attn hlc hpolicy)
  · rw [hregistry] at hlc
    obtain ⟨attn, heq⟩ := hattn _ (mem_of_getElem? hlc)
    cases heq

/-! ### The best partial match -/

/-- The loop of the search keeps a child with the longest leading match so far. -/
lemma foldl_best (step : List TokenIdExt) (l : List (Key × ℕ)) (best : Option MatchResult) :
    let found := l.foldl (fun best child =>
      let m := partialMatchThisNode (tree.tokensOf child.2) step
      if (best.elim 0 MatchResult.numMatchedTokens) < m then some ⟨child.2, m⟩ else best) best
    best.elim 0 MatchResult.numMatchedTokens ≤ found.elim 0 MatchResult.numMatchedTokens
      ∧ ∀ child ∈ l, partialMatchThisNode (tree.tokensOf child.2) step
        ≤ found.elim 0 MatchResult.numMatchedTokens := by
  induction l generalizing best with
  | nil => simp
  | cons child l ih =>
    simp only [foldl_cons, mem_cons, forall_eq_or_imp]
    split_ifs with hbetter
    · obtain ⟨hle, hall⟩ := ih (some ⟨child.2, partialMatchThisNode (tree.tokensOf child.2) step⟩)
      exact ⟨hbetter.le.trans hle, hle, hall⟩
    · obtain ⟨hle, hall⟩ := ih best
      exact ⟨hle, (not_lt.mp hbetter).trans hle, hall⟩

variable [DecidableEq Key]

/-- The children of a node. -/
def HasChild (tree : BlockRadixTree Key) (n : NodeRef Key) (i : ℕ) : Prop :=
  ∃ k, (tree.next n).find? k = some i

/-- Two children of a node share the longest leading match with a block of a query. -/
def Tied (tree : BlockRadixTree Key) (n : NodeRef Key) (step : List TokenIdExt) : Prop :=
  ∃ i i', tree.HasChild n i ∧ tree.HasChild n i' ∧ i ≠ i'
    ∧ 0 < partialMatchThisNode (tree.tokensOf i) step
    ∧ partialMatchThisNode (tree.tokensOf i) step = partialMatchThisNode (tree.tokensOf i') step
    ∧ ∀ j, tree.HasChild n j →
      partialMatchThisNode (tree.tokensOf j) step ≤ partialMatchThisNode (tree.tokensOf i) step

/-- The block of a query at the parent decides between the children: none of them ties with
another, and only the tokens of the new block, or of a sibling that it covers, have its key. -/
structure Unambiguous (keys : KeyScheme Key) (tree : BlockRadixTree Key) (n : NodeRef Key)
    (block : Block Key) (prevKey : Key) (step : List TokenIdExt) : Prop where
  untied : ¬ tree.Tied n step
  new : keys.makeKey prevKey step = block.key → step = block.tokens
  sibling : ∀ s ∈ tree.coveredSiblings n block.tokens,
    keys.makeKey prevKey step = s.1 → step = tree.tokensOf s.2

variable {n : NodeRef Key}

/-- What the search returns among fewer than 32 children has the longest leading match. -/
lemma findBest_ge (hfew : (tree.next n).size < 32) (step : List TokenIdExt) {i : ℕ}
    (hi : tree.HasChild n i) : partialMatchThisNode (tree.tokensOf i) step
      ≤ (tree.findBestPartialMatchInNextNodes (tree.next n) step).elim 0
        MatchResult.numMatchedTokens := by
  obtain ⟨k, hk⟩ := hi
  rw [findBestPartialMatchInNextNodes, if_neg (not_le.mpr hfew)]
  exact (foldl_best step (tree.next n).entries none).2 (k, i) (find?_eq_some_iff.1 hk)

/-- The child with the longest leading match is found when no other has as long a one. -/
lemma findBest_of_unique (hfew : (tree.next n).size < 32) {step : List TokenIdExt}
    {i : ℕ} (hi : tree.HasChild n i) (hpos : 0 < partialMatchThisNode (tree.tokensOf i) step)
    (hbest : ∀ j, tree.HasChild n j → j ≠ i → partialMatchThisNode (tree.tokensOf j) step
      < partialMatchThisNode (tree.tokensOf i) step) :
    tree.findBestPartialMatchInNextNodes (tree.next n) step
      = some ⟨i, partialMatchThisNode (tree.tokensOf i) step⟩ := by
  have hge := findBest_ge hfew step hi
  cases hfound : tree.findBestPartialMatchInNextNodes (tree.next n) step with
  | none =>
    rw [hfound] at hge
    exact absurd hge (not_le.mpr hpos)
  | some m =>
    rw [hfound] at hge
    obtain ⟨hchild, -, hlead⟩ := findBestPartialMatch_eq_some hfound
    have hblock : m.block = i := by
      by_contra hne
      have hlt := hbest m.block hchild hne
      rw [← hlead] at hlt
      exact absurd hge (not_le.mpr hlt)
    cases m with
    | mk b numMatched =>
      dsimp only at hblock hlead
      rw [hlead, hblock]

/-- Nothing is found when no child matches a token. -/
lemma findBest_eq_none {step : List TokenIdExt}
    (hzero : ∀ j, tree.HasChild n j → partialMatchThisNode (tree.tokensOf j) step = 0) :
    tree.findBestPartialMatchInNextNodes (tree.next n) step = none := by
  cases hfound : tree.findBestPartialMatchInNextNodes (tree.next n) step with
  | none => rfl
  | some m =>
    obtain ⟨hchild, hpos, hlead⟩ := findBestPartialMatch_eq_some hfound
    rw [hlead, hzero m.block hchild] at hpos
    exact absurd hpos (lt_irrefl 0)

section
variable {n : NodeRef Key} {id : ℕ} {block : Block Key} {prevKey : Key}

/-! ### The walk of a query -/

/-- A node without children ends the walk. -/
lemma matchSteps_of_no_child {m : NodeRef Key} (hm : ∀ j, ¬ tree.HasChild m j) (k : Key)
    (steps : List (List TokenIdExt)) : matchSteps keys tree true k (tree.next m) steps = [] := by
  cases steps with
  | nil => rfl
  | cons q steps =>
    have hnone : (tree.next m).find? (keys.makeKey k q) = none :=
      eq_none_iff_forall_ne_some.mpr fun j hj => hm j ⟨_, hj⟩
    rw [matchSteps, hnone]
    rw [if_pos rfl, findBest_eq_none fun j hj => absurd hj (hm j)]
    rfl

section
variable {s : Key × ℕ} (h : tree.WellFormed keys) (ha : Attachable keys tree n id block prevKey)
  (hA : Absorbs tree t n id block s)

include h hA in
/-- The sibling is a child of this node only. -/
lemma Absorbs.parent_eq {m : NodeRef Key} (hm : tree.HasChild m s.2) : m = n := by
  obtain ⟨k, hk⟩ := hm
  obtain ⟨b, hb, -, hprev⟩ := h.child hk
  obtain ⟨b', hb', -, hprev'⟩ := h.child hA.child
  cases hb.symm.trans hb'
  exact some.inj (hprev.symm.trans hprev')

include h ha hA in
/-- The children afterwards: the new block, and the others but the sibling. -/
lemma Absorbs.hasChild_iff (j : ℕ) : t.HasChild n j ↔ j = id ∨ (tree.HasChild n j ∧ j ≠ s.2) := by
  obtain ⟨hfresh, -⟩ := getExistingBlock_eq_none.1 ha.unmatched
  constructor
  · rintro ⟨k, hk⟩
    rw [hA.next] at hk
    split_ifs at hk with hkey hgone
    · exact .inl (some.inj hk).symm
    · refine .inr ⟨⟨k, hk⟩, fun heq => hgone ?_⟩
      rw [h.toChained.key_of_tokens ha.keyOf hk, h.toChained.key_of_tokens ha.keyOf hA.child, heq]
  · rintro (rfl | ⟨⟨k, hk⟩, hne⟩)
    · exact ⟨block.key, by rw [hA.next, if_pos rfl]⟩
    · refine ⟨k, ?_⟩
      rw [hA.next, if_neg, if_neg, hk]
      · rintro rfl
        rw [hA.child] at hk
        exact hne (some.inj hk).symm
      · rintro rfl
        rw [hfresh] at hk
        cases hk

include h hA in
/-- A query that reaches the end of the sibling matches no other child as far. -/
lemma Absorbs.lead_lt {q : List TokenIdExt} (hq : tree.tokensOf s.2 <+: q) {j : ℕ}
    (hj : tree.HasChild n j) (hne : j ≠ s.2) :
    partialMatchThisNode (tree.tokensOf j) q < (tree.tokensOf s.2).length := by
  by_contra hge
  obtain ⟨k, hk⟩ := hj
  exact hne (h.incomparable hA.child hk (prefix_of_le_partialMatch hq (not_lt.mp hge))).symm

include h hA in
lemma Absorbs.sibling_pos : 0 < (tree.tokensOf s.2).length := by
  obtain ⟨b, hb, -, -⟩ := h.child hA.child
  rw [tokensOf_eq hb]
  exact (h.size hb).1

include h ha hA in
/-- The search at the parent meets the new block where it met the sibling. -/
lemma Absorbs.findBest (htok : ∀ i, t.tokensOf i = tree.tokensOf i)
    (hfew : (tree.next n).size < 32) {q : List TokenIdExt} (hties : ¬ tree.Tied n q) :
    (tree.findBestPartialMatchInNextNodes (tree.next n) q = none
        ∧ t.findBestPartialMatchInNextNodes (t.next n) q = none)
      ∨ (∃ i lead, i ≠ id ∧ i ≠ s.2
        ∧ tree.findBestPartialMatchInNextNodes (tree.next n) q = some ⟨i, lead⟩
        ∧ t.findBestPartialMatchInNextNodes (t.next n) q = some ⟨i, lead⟩)
      ∨ ∃ lead lead', lead ≤ lead'
        ∧ tree.findBestPartialMatchInNextNodes (tree.next n) q = some ⟨s.2, lead⟩
        ∧ t.findBestPartialMatchInNextNodes (t.next n) q = some ⟨id, lead'⟩ := by
  have hblock : tree.tokensOf id = block.tokens := tokensOf_eq ha.mem
  have hfew' : (t.next n).size < 32 := hA.size.trans_lt hfew
  have hsibling : tree.HasChild n s.2 := ⟨s.1, hA.child⟩
  obtain ⟨hlong, hsame⟩ := partialMatchThisNode_longer hA.initial q
  rw [← hblock] at hlong hsame
  cases hfound : tree.findBestPartialMatchInNextNodes (tree.next n) q with
  | none =>
    have hzero : ∀ j, tree.HasChild n j → partialMatchThisNode (tree.tokensOf j) q = 0 := by
      intro j hj
      have hge := findBest_ge hfew q hj
      rw [hfound] at hge
      exact Nat.le_zero.mp hge
    refine .inl ⟨rfl, findBest_eq_none fun j hj => ?_⟩
    rw [htok]
    rcases (hA.hasChild_iff h ha j).mp hj with rfl | ⟨hj, -⟩
    · have hpos := hA.sibling_pos h
      rw [hsame (by rw [hzero _ hsibling]; exact hpos), hzero _ hsibling]
    · exact hzero j hj
  | some best =>
    obtain ⟨i, lead⟩ := best
    obtain ⟨hchild, hpos, hlead⟩ := findBestPartialMatch_eq_some hfound
    dsimp only at hchild hpos hlead
    -- no other child matches as far, since there is no tie
    have hbest : ∀ j, tree.HasChild n j → j ≠ i →
        partialMatchThisNode (tree.tokensOf j) q < partialMatchThisNode (tree.tokensOf i) q := by
      intro j hj hne
      have hge : ∀ j, tree.HasChild n j →
          partialMatchThisNode (tree.tokensOf j) q ≤ partialMatchThisNode (tree.tokensOf i) q := by
        intro j hj
        have hge := findBest_ge hfew q hj
        rw [hfound] at hge
        exact hge.trans_eq hlead
      refine lt_of_le_of_ne (hge j hj) fun heq => hties ?_
      exact ⟨i, j, hchild, hj, hne.symm, hlead ▸ hpos, heq.symm, hge⟩
    rw [hlead] at hpos
    by_cases hi : i = s.2
    · subst hi
      refine .inr (.inr ⟨lead, partialMatchThisNode (tree.tokensOf id) q, hlead.trans_le hlong, rfl,
        ?_⟩)
      rw [← htok id]
      refine findBest_of_unique hfew' ((hA.hasChild_iff h ha id).mpr (.inl rfl)) ?_ fun j hj hne =>
        ?_
      · rw [htok]
        exact hpos.trans_le hlong
      · rw [htok, htok]
        obtain ⟨hj, hne'⟩ := ((hA.hasChild_iff h ha j).mp hj).resolve_left hne
        exact (hbest j hj hne').trans_le hlong
    · have hid : i ≠ id := by
        rintro rfl
        obtain ⟨k, hk⟩ := hchild
        exact h.ne_of_orphan ha.mem ha.orphan hk
      refine .inr (.inl ⟨i, lead, hid, hi, rfl, ?_⟩)
      have hlt := hbest s.2 hsibling (Ne.symm hi)
      -- the query leaves the sibling before its end, so the new block matches no farther
      have hleft : partialMatchThisNode (tree.tokensOf s.2) q < (tree.tokensOf s.2).length := by
        by_contra hge
        have hq := prefix_of_partialMatch (not_lt.mp hge)
        have hother := hA.lead_lt h hq hchild hi
        rw [partialMatchThisNode_eq_length hq] at hlt
        exact absurd hlt (not_lt.mpr hother.le)
      rw [hlead, ← htok i]
      refine findBest_of_unique hfew' ((hA.hasChild_iff h ha i).mpr (.inr ⟨hchild, hi⟩)) ?_
        fun j hj hne => ?_
      · rwa [htok]
      · rw [htok, htok]
        rcases (hA.hasChild_iff h ha j).mp hj with rfl | ⟨hj, -⟩
        · rwa [hsame hleft]
        · exact hbest j hj hne

include h ha hA in
/-- Away from the parent a step of the walk is the same. -/
lemma Absorbs.serves_refl {m : NodeRef Key} (hm : m ≠ n) {i : ℕ} (hi : tree.HasChild m i) (e : ℕ) :
    Serves tree t ⟨i, e⟩ ⟨i, e⟩ := by
  refine ⟨fun lc _ => le_of_eq (hA.kept i lc ?_ ?_).symm, le_rfl⟩
  · rintro rfl
    obtain ⟨k, hk⟩ := hi
    exact h.ne_of_orphan ha.mem ha.orphan hk
  · rintro rfl
    exact hm (hA.parent_eq h hi)

include h ha hA in
/-- The new block has no children, and no more has the sibling. -/
lemma Absorbs.no_child : (∀ j, ¬ t.HasChild (.block id) j) ∧ ∀ j,
    ¬ tree.HasChild (.block s.2) j := by
  constructor
  · rintro j ⟨k, hk⟩
    have hne : NodeRef.block id ≠ n := by
      rintro rfl
      obtain ⟨b, hb, -, hprev⟩ := ha.parent
      cases ha.mem.symm.trans hb
      rw [ha.orphan] at hprev
      cases hprev
    rw [hA.other _ hne] at hk
    obtain ⟨b, hb, -, hprev⟩ := h.full hk
    cases ha.mem.symm.trans hb
    rw [ha.orphan] at hprev
    cases hprev
  · rintro j ⟨k, hk⟩
    obtain ⟨b, hb, -, -⟩ := h.child hA.child
    have hshort := hA.shorter
    have hsize := (h.size ha.mem).2
    rw [tokensOf_eq hb] at hshort
    rw [h.toChained.leaf hb (by omega)] at hk
    cases hk

/-- A step that finds no child by its key searches for a partial match. -/
lemma matchSteps_partial {k : Key} {next next' : UMap Key ℕ} {q : List TokenIdExt}
    {steps : List (List TokenIdExt)} (hi : next.find? (keys.makeKey k q) = none)
    (hi' : next'.find? (keys.makeKey k q) = none)
    (hbest : Forall₂ (Serves tree t) (tree.findBestPartialMatchInNextNodes next q).toList
      (t.findBestPartialMatchInNextNodes next' q).toList) :
    Forall₂ (Serves tree t) (matchSteps keys tree true k next (q :: steps))
      (matchSteps keys t true k next' (q :: steps)) := by
  rw [matchSteps, matchSteps, hi, hi']
  exact hbest

/-- The walk below the child that a step finds by its key meets blocks that serve for those it
met before. -/
def ServesBelow (keys : KeyScheme Key) (tree t : BlockRadixTree Key) (m : NodeRef Key) (k : Key)
    (steps : List (List TokenIdExt)) : Prop :=
  ∀ i, (tree.next m).find? k = some i →
    Forall₂ (Serves tree t) (matchSteps keys tree true k (tree.next (.block i)) steps)
      (matchSteps keys t true k (t.next (.block i)) steps)

section
variable {m : NodeRef Key} {k : Key} {q : List TokenIdExt} {steps : List (List TokenIdExt)}

include hA in
/-- A child that the walk passes by its key, in both trees. -/
lemma Absorbs.matchSteps_pass {i : ℕ} (hi : (tree.next m).find? (keys.makeKey k q) = some i)
    (hi' : (t.next m).find? (keys.makeKey k q) = some i) (hid : i ≠ id) (hs : i ≠ s.2)
    (hbelow : ServesBelow keys tree t m (keys.makeKey k q) steps) :
    Forall₂ (Serves tree t) (matchSteps keys tree true k (tree.next m) (q :: steps))
      (matchSteps keys t true k (t.next m) (q :: steps)) := by
  rw [matchSteps, matchSteps, hi, hi']
  exact .cons ⟨fun lc _ => le_of_eq (hA.kept i lc hid hs).symm, le_rfl⟩ (hbelow i hi)

include h ha hA in
/-- A step at another node. -/
lemma Absorbs.matchSteps_away (htok : ∀ i, t.tokensOf i = tree.tokensOf i) (hm : m ≠ n)
    (hbelow : ServesBelow keys tree t m (keys.makeKey k q) steps) :
    Forall₂ (Serves tree t) (matchSteps keys tree true k (tree.next m) (q :: steps))
      (matchSteps keys t true k (t.next m) (q :: steps)) := by
  have hnext := hA.other m hm
  cases hi : (tree.next m).find? (keys.makeKey k q) with
  | some i =>
    refine hA.matchSteps_pass hi (hnext ▸ hi) (fun heq => ?_)
      (fun heq => hm (hA.parent_eq h ⟨_, heq ▸ hi⟩)) hbelow
    exact h.ne_of_orphan ha.mem ha.orphan (heq ▸ hi)
  | none =>
    refine matchSteps_partial hi (hnext ▸ hi) ?_
    have hbest : t.findBestPartialMatchInNextNodes (t.next m) q
        = tree.findBestPartialMatchInNextNodes (tree.next m) q := by
      simp only [findBestPartialMatchInNextNodes, hnext, htok]
    rw [hbest]
    cases hfound : tree.findBestPartialMatchInNextNodes (tree.next m) q with
    | none => exact .nil
    | some best =>
      exact .cons (hA.serves_refl h ha hm (findBestPartialMatch_eq_some hfound).1 _) .nil

include h ha hA in
/-- A step with the tokens of the new block, which matched the sibling to its end. -/
lemma Absorbs.matchSteps_block (hfew : (tree.next n).size < 32) :
    Forall₂ (Serves tree t)
      (matchSteps keys tree true prevKey (tree.next n) (block.tokens :: steps))
      (matchSteps keys t true prevKey (t.next n) (block.tokens :: steps)) := by
  obtain ⟨hfresh, -⟩ := getExistingBlock_eq_none.1 ha.unmatched
  have hbest : tree.findBestPartialMatchInNextNodes (tree.next n) block.tokens
      = some ⟨s.2, (tree.tokensOf s.2).length⟩ := by
    rw [← partialMatchThisNode_eq_length hA.initial]
    refine findBest_of_unique hfew ⟨s.1, hA.child⟩ ?_ fun j hj hne => ?_
    · rw [partialMatchThisNode_eq_length hA.initial]
      exact hA.sibling_pos h
    · rw [partialMatchThisNode_eq_length hA.initial]
      exact hA.lead_lt h hA.initial hj hne
  have hthere : (t.next n).find? block.key = some id := by rw [hA.next, if_pos rfl]
  rw [matchSteps, matchSteps, ← ha.key, hfresh, hthere]
  dsimp only
  rw [if_pos rfl, hbest, matchSteps_of_no_child (hA.no_child h ha).1]
  exact .cons ⟨hA.moved, hA.shorter.le⟩ .nil

include h ha hA in
/-- A step with the tokens of the sibling, which the new block holds. -/
lemma Absorbs.matchSteps_sibling (htok : ∀ i, t.tokensOf i = tree.tokensOf i)
    (hfew : (tree.next n).size < 32)
    (hblock : keys.makeKey prevKey (tree.tokensOf s.2) ≠ block.key) :
    Forall₂ (Serves tree t)
      (matchSteps keys tree true prevKey (tree.next n) (tree.tokensOf s.2 :: steps))
      (matchSteps keys t true prevKey (t.next n) (tree.tokensOf s.2 :: steps)) := by
  have hkey : keys.makeKey prevKey (tree.tokensOf s.2) = s.1 :=
    (h.toChained.key_of_tokens ha.keyOf hA.child).symm
  have hnone : (t.next n).find? s.1 = none := by
    rw [hA.next, if_neg (hkey ▸ hblock), if_pos rfl]
  obtain ⟨hlong, -⟩ := partialMatchThisNode_longer hA.initial (tree.tokensOf s.2)
  rw [partialMatchThisNode_eq_length prefix_rfl, ← tokensOf_eq ha.mem] at hlong
  have hbest : t.findBestPartialMatchInNextNodes (t.next n) (tree.tokensOf s.2)
      = some ⟨id, partialMatchThisNode (tree.tokensOf id) (tree.tokensOf s.2)⟩ := by
    rw [← htok id]
    refine findBest_of_unique (hA.size.trans_lt hfew)
      ((hA.hasChild_iff h ha id).mpr (.inl rfl)) ?_ fun j hj hne => ?_
    · rw [htok]
      exact (hA.sibling_pos h).trans_le hlong
    · rw [htok, htok]
      obtain ⟨hj, hne'⟩ := ((hA.hasChild_iff h ha j).mp hj).resolve_left hne
      exact (hA.lead_lt h prefix_rfl hj hne').trans_le hlong
  rw [matchSteps, matchSteps, hkey, hnone, hA.child]
  dsimp only
  rw [if_pos rfl, hbest, matchSteps_of_no_child (hA.no_child h ha).2]
  exact .cons ⟨hA.moved, hlong⟩ .nil

include h ha hA in
/-- A step at the parent that has neither key. -/
lemma Absorbs.matchSteps_between (htok : ∀ i, t.tokensOf i = tree.tokensOf i)
    (hfew : (tree.next n).size < 32) (hblock : keys.makeKey prevKey q ≠ block.key)
    (hsibling : keys.makeKey prevKey q ≠ s.1) (hties : ¬ tree.Tied n q)
    (hbelow : ServesBelow keys tree t n (keys.makeKey prevKey q) steps) :
    Forall₂ (Serves tree t) (matchSteps keys tree true prevKey (tree.next n) (q :: steps))
      (matchSteps keys t true prevKey (t.next n) (q :: steps)) := by
  have hsame : (t.next n).find? (keys.makeKey prevKey q)
      = (tree.next n).find? (keys.makeKey prevKey q) := by
    rw [hA.next, if_neg hblock, if_neg hsibling]
  cases hi : (tree.next n).find? (keys.makeKey prevKey q) with
  | some i =>
    refine hA.matchSteps_pass hi (hsame ▸ hi)
      (fun heq => h.ne_of_orphan ha.mem ha.orphan (heq ▸ hi)) (fun heq => hsibling ?_) hbelow
    rw [h.toChained.key_of_tokens ha.keyOf hi, h.toChained.key_of_tokens ha.keyOf hA.child, heq]
  | none =>
    refine matchSteps_partial hi (hsame ▸ hi) ?_
    rcases hA.findBest h ha htok hfew hties with
      ⟨hnone, hnone'⟩ | ⟨i, lead, hid, hs, hfound, hfound'⟩ | ⟨lead, lead', hle, hfound, hfound'⟩
    · rw [hnone, hnone']
      exact .nil
    · rw [hfound, hfound']
      exact .cons ⟨fun lc _ => le_of_eq (hA.kept i lc hid hs).symm, le_rfl⟩ .nil
    · rw [hfound, hfound']
      exact .cons ⟨hA.moved, hle⟩ .nil

end

include h ha hA in
/-- **The walk** of a query meets blocks that serve for those it met before. -/
lemma Absorbs.matchSteps (htok : ∀ i, t.tokensOf i = tree.tokensOf i)
    (hfew : (tree.next n).size < 32) (steps : List (List TokenIdExt)) :
    ∀ {m : NodeRef Key} {k : Key}, tree.keyOf m = some k →
      (∀ before step after, steps = before ++ step :: after →
        tree.keyOf n = some (before.foldl keys.makeKey k) →
        Unambiguous keys tree n block prevKey step) →
      Forall₂ (Serves tree t) (matchSteps keys tree true k (tree.next m) steps)
        (matchSteps keys t true k (t.next m) steps) := by
  induction steps with
  | nil => exact fun _ _ => .nil
  | cons q steps ih =>
    intro m k hkey hclear
    have hbelow : ServesBelow keys tree t m (keys.makeKey k q) steps := by
      intro i hi
      refine ih (h.keyOf_child hi) ?_
      rintro before step after rfl hn
      exact hclear (q :: before) step after rfl hn
    by_cases hm : m = n
    swap
    · exact hA.matchSteps_away h ha htok hm hbelow
    subst hm
    obtain rfl : prevKey = k := some.inj (ha.keyOf.symm.trans hkey)
    have hq := hclear [] q steps rfl hkey
    by_cases hblock : keys.makeKey prevKey q = block.key
    · obtain rfl := hq.new hblock
      exact hA.matchSteps_block h ha hfew
    by_cases hsibling : keys.makeKey prevKey q = s.1
    · obtain rfl := hq.sibling s
        (mem_coveredSiblings.2 ⟨hA.child, hA.shorter, hA.initial⟩) hsibling
      exact hA.matchSteps_sibling h ha htok hfew hblock
    · exact hA.matchSteps_between h ha htok hfew hblock hsibling hq.untied hbelow

end

/-! ### Reuse -/

/-- **Absorbing a partial sibling loses no reuse** for a query that is unambiguous at the
parent. -/
theorem attachBlock_keeps_reuse (h : tree.WellFormed keys)
    (hattn : ∀ lc ∈ tree.mLifeCycles.lifeCycles, ∃ attn, lc = .attn attn)
    (hfew : ∀ m, (tree.next m).size < 32) (ha : Attachable keys tree n id block prevKey)
    (habsorb : tree.coveredSiblings n block.tokens ≠ []) (scope : ReuseScope)
    (tokens : List TokenIdExt) (backoff : ℕ)
    (hclear : ∀ before step after, blocksOf tree.mTokensPerBlock tokens = before ++ step :: after →
      tree.keyOf n = some (before.foldl keys.makeKey (keys.rootKey scope)) →
      Unambiguous keys tree n block prevKey step) :
    (tree.reuseMatch keys scope tokens true backoff).numTokens
      ≤ ((tree.attachBlock n id block).reuseMatch keys scope tokens true backoff).numTokens := by
  obtain ⟨s, hA⟩ := attachBlock_absorbs h ha habsorb
  obtain ⟨hwf, -, htok⟩ := h.attachBlock ha.parent ha.mem ha.orphan ha.keyOf ha.key ha.ordinal
    ha.unmatched
  generalize tree.attachBlock n id block = t at hA hwf htok ⊢
  have hwalk : Forall₂ (Serves tree t) (tree.matchTokenPath keys scope tokens true)
      (t.matchTokenPath keys scope tokens true) := by
    rw [matchTokenPath, matchTokenPath, hA.roots, hA.tokens]
    split_ifs with hroot
    · exact hA.matchSteps h ha htok (hfew n) _ (if_pos hroot) hclear
    · exact .nil
  have hold := (reuseMatch_maximal h scope tokens true backoff).1.greatest.1
  have hnew := (reuseMatch_maximal hwf scope tokens true backoff).1.greatest.2
  refine hnew ⟨?_, fun hpos => ?_⟩
  · have hle := numMatchedTokens_le tree.mTokensPerBlock hwalk
    rw [hA.tokens]
    exact hold.1.trans (Nat.sub_le_sub_right hle backoff)
  · exact (hold.2 hpos).of_serves hattn hA.registry hA.tokens hwalk

end

/-! ### Two children that share their leading tokens -/

/-- The children of a node are different blocks. -/
lemma Chained.next_size_le (hc : tree.Chained keys) (n : NodeRef Key) :
    (tree.next n).size ≤ tree.blocks.size := by
  have hnodup : ((tree.next n).entries.map snd).Nodup := by
    refine Nodup.map_on ?_ (tree.next n).nodup.of_map
    rintro ⟨k, i⟩ hk ⟨k', i'⟩ hk' heq
    obtain rfl : i = i' := heq
    obtain ⟨b, hb, hkey, -⟩ := hc.child (find?_eq_some_iff.2 hk)
    obtain ⟨b', hb', hkey', -⟩ := hc.child (find?_eq_some_iff.2 hk')
    cases hb.symm.trans hb'
    rw [← hkey, hkey']
  have hsub : (tree.next n).entries.map snd ⊆ tree.blocks.keys := by
    intro i hi
    obtain ⟨⟨k, j⟩, hk, rfl⟩ := List.mem_map.mp hi
    obtain ⟨b, hb, -⟩ := hc.child (find?_eq_some_iff.2 hk)
    exact mem_of_find? hb
  simpa [UMap.size, UMap.keys] using (subperm_of_subset hnodup hsub).length_le

/-- Full attention and a sliding window of four tokens. -/
def twinRegistry : LifeCycleRegistry :=
  ⟨[.attn ⟨none, 0, .REQUIRED⟩, .attn ⟨some 4, 0, .REQUIRED⟩], by decide⟩

/-- The root of the requests without a salt. -/
def twinRoot : NodeRef SymbolicKey := .root (.root plainScope)

local instance (priority := 2000) twinIds_ne : NeZero (2 ^ 31) := normal_ne

/-- Two partial blocks that differ in their last token, the first one without a window page. -/
def twinCalls : List (Call SymbolicKey) :=
  [.addOrGetExisting plainScope, .addOrGetExistingBlock twinRoot [.normal 1, .normal 2, .normal 3],
    .commitPage 1 0 3,
    .addOrGetExistingBlock twinRoot [.normal 1, .normal 2, .normal 4],
    .commitPage 2 0 3,
    .commitPage 2 1 3]

/-- A full block that extends the first one. -/
def longBlock : Block SymbolicKey :=
  let tokens := [.normal 1, .normal 2, .normal 3, .normal 7]
  ⟨.block (.root plainScope) tokens, tokens, none, 0⟩

/-- The tree of the two blocks, in which the full block waits to be attached. -/
def twinTree : BlockRadixTree SymbolicKey :=
  (((new twinRegistry 4 (by decide)).run symbolicKeys twinCalls).getD
    (new twinRegistry 4 (by decide))).addBlock longBlock

lemma twinTree_wellFormed : twinTree.WellFormed symbolicKeys := by
  have hrun : ((new twinRegistry 4 (by decide)).run symbolicKeys twinCalls).isSome = true := by
    decide +kernel
  obtain ⟨tree, htree⟩ := isSome_iff_exists.mp hrun
  have hnew : (new twinRegistry 4 (by decide)).WellFormed symbolicKeys :=
    new_wellFormed twinRegistry 4 (by decide)
  have hwf := hnew.run symbolicKeys_injective twinCalls htree
  have htokens : tree.mTokensPerBlock = 4 := by
    have hall : (((new twinRegistry 4 (by decide)).run symbolicKeys twinCalls).all
        fun tree => tree.mTokensPerBlock = 4) = true := by
      decide +kernel
    rw [htree] at hall
    simpa using hall
  rw [twinTree, htree, getD_some]
  exact hwf.addBlock rfl (by rw [htokens]; decide)

lemma twinTree_attachable :
    Attachable symbolicKeys twinTree twinRoot 3 longBlock (.root plainScope) where
  parent := by
    change SymbolicKey.root plainScope ∈ twinTree.mRoots
    decide +kernel
  mem := rfl
  orphan := rfl
  keyOf := by decide +kernel
  key := rfl
  ordinal := rfl
  unmatched := by decide +kernel

lemma twinTree_small (m : NodeRef SymbolicKey) : (twinTree.next m).size < 32 := by
  have hsize : twinTree.blocks.size = 3 := by decide +kernel
  exact (twinTree_wellFormed.toChained.next_size_le m).trans_lt (by omega)

/-- A query that leaves both blocks at the same token is served by the one with the window page,
and after the full block absorbed the other, by the full block, which has none. -/
theorem attachBlock_loses_tied_reuse : twinTree.WellFormed symbolicKeys
      ∧ (∀ lc ∈ twinTree.mLifeCycles.lifeCycles, ∃ attn, lc = .attn attn)
      ∧ (∀ m, (twinTree.next m).size < 32)
      ∧ Attachable symbolicKeys twinTree twinRoot 3 longBlock (.root plainScope)
      ∧ twinTree.coveredSiblings twinRoot longBlock.tokens ≠ []
      ∧ (twinTree.reuseMatch symbolicKeys plainScope [.normal 1, .normal 2,
        .normal 5] true 0).numTokens
        = 2
      ∧ ((twinTree.attachBlock twinRoot 3 longBlock).reuseMatch symbolicKeys plainScope
        [.normal 1, .normal 2, .normal 5] true 0).numTokens = 0 := by
  refine ⟨twinTree_wellFormed, ?_, twinTree_small, twinTree_attachable, by decide +kernel,
    by decide +kernel, by decide +kernel⟩
  have hall : twinTree.mLifeCycles.lifeCycles = twinRegistry.lifeCycles := by decide +kernel
  rw [hall]
  simp [twinRegistry]

/-- A query that ends with the absorbed block has no tie, and is served as far as before. -/
theorem attachBlock_keeps_endpoint :
    (twinTree.reuseMatch symbolicKeys plainScope [.normal 1, .normal 2, .normal 3] true 0).numTokens
      ≤ ((twinTree.attachBlock twinRoot 3 longBlock).reuseMatch symbolicKeys plainScope
        [.normal 1, .normal 2, .normal 3] true 0).numTokens := by
  refine attachBlock_keeps_reuse twinTree_wellFormed ?_ twinTree_small twinTree_attachable
    (by decide +kernel) plainScope _ 0 ?_
  · have hall : twinTree.mLifeCycles.lifeCycles = twinRegistry.lifeCycles := by decide +kernel
    rw [hall]
    simp [twinRegistry]
  · intro before step after hsplit _
    have hblocks : blocksOf twinTree.mTokensPerBlock [.normal 1, .normal 2, .normal 3]
        = [[.normal 1, .normal 2, .normal 3]] := by decide +kernel
    rw [hblocks] at hsplit
    obtain ⟨rfl, rfl, rfl⟩ : before = [] ∧ step = [.normal 1, .normal 2, .normal 3]
      ∧ after = [] := by
      cases before with
      | nil => simpa [eq_comm] using hsplit
      | cons b before => simp at hsplit
    refine ⟨?_, fun hkey => (symbolicKeys_injective hkey).2, fun s hs hkey => ?_⟩
    swap
    · rw [twinTree_wellFormed.toChained.key_of_tokens twinTree_attachable.keyOf
        (mem_coveredSiblings.1 hs).1] at hkey
      exact (symbolicKeys_injective hkey).2
    rintro ⟨i, i', ⟨k, hk⟩, ⟨k', hk'⟩, hne, -, heq, hall⟩
    have hmem : ∀ {k i}, (twinTree.next twinRoot).find? k = some i → i = 2 ∨ i = 1 := by
      intro k i hi
      have hentries : (twinTree.next twinRoot).entries.map snd = [2, 1] := by decide +kernel
      have hin := List.mem_map_of_mem (f := snd) (find?_eq_some_iff.1 hi)
      rw [hentries] at hin
      simpa using hin
    have hlead : partialMatchThisNode (twinTree.tokensOf 1) [.normal 1, .normal 2, .normal 3]
        ≠ partialMatchThisNode (twinTree.tokensOf 2) [.normal 1, .normal 2, .normal 3] := by
      decide +kernel
    rcases hmem hk with rfl | rfl <;> rcases hmem hk' with rfl | rfl
    · exact hne rfl
    · exact hlead heq.symm
    · exact hlead heq
    · exact hne rfl

end BlockRadixTree

end TrtLlm.KvCacheV2
