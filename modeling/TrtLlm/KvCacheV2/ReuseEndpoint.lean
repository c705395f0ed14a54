import TrtLlm.KvCacheV2.ReuseMatch

/-!
The endpoint of a match: the pruning loop ends at the greatest endpoint at which every page it
needs is there (`pruneMatch_entries`).
-/

namespace TrtLlm.KvCacheV2

open List UMap

/-! ### Matches with an endpoint -/

/-- The match of a path of blocks up to an endpoint: blocks of `T` tokens, the last one matched
in part. -/
def entries (T : ℕ) : List ℕ → ℕ → List MatchResult
  | [], _ => []
  | id :: path, e => if e = 0 then [] else ⟨id, min T e⟩ :: entries T path (e - T)

section Entries

variable {T : ℕ} {path : List ℕ} {e : ℕ}

variable {id : ℕ}

@[simp] lemma entries_zero (T : ℕ) (path : List ℕ) : entries T path 0 = [] := by
  cases path <;> rfl

lemma entries_cons (he : 0 < e) :
    entries T (id :: path) e = ⟨id, min T e⟩ :: entries T path (e - T) := by
  rw [entries, if_neg he.ne']

lemma entries_prefix : (entries T path e).map MatchResult.block <+: path := by
  induction path generalizing e with
  | nil => exact nil_prefix
  | cons id path ih =>
    rcases Nat.eq_zero_or_pos e with rfl | he
    · simp
    · rw [entries_cons he, map_cons, prefix_cons_inj]
      exact ih

lemma numMatchedTokens_cons {m : MatchResult} {l : List MatchResult} (h : l ≠ []) :
    numMatchedTokens (m :: l) T = T + numMatchedTokens l T := by
  obtain ⟨last, hlast⟩ := Option.ne_none_iff_exists'.1 (mt getLast?_eq_none_iff.1 h)
  have hpos := length_pos_iff.2 h
  have hcons : (m :: l).getLast? = some last := by
    rw [getLast?_cons, hlast]
    rfl
  simp only [numMatchedTokens, hlast, hcons, length_cons]
  have : T * (l.length + 1 - 1) = T * (l.length - 1) + T := by
    rw [← Nat.mul_succ]
    congr 1
    omega
  omega

lemma numMatchedTokens_entries (he : e ≤ T * path.length) :
    numMatchedTokens (entries T path e) T = e := by
  induction path generalizing e with
  | nil =>
    simp only [length_nil, Nat.mul_zero, Nat.le_zero] at he
    subst he
    rfl
  | cons id path ih =>
    rcases Nat.eq_zero_or_pos e with rfl | hpos
    · rfl
    · rw [entries_cons hpos]
      rw [length_cons, Nat.mul_succ] at he
      rcases Nat.lt_or_ge T e with hlt | hle
      · have hne : entries T path (e - T) ≠ [] := by
          intro h
          have := @ih (e - T) (by omega)
          rw [h] at this
          simp only [numMatchedTokens, getLast?_nil] at this
          omega
        rw [numMatchedTokens_cons hne, ih (by omega)]
        omega
      · have : e - T = 0 := by omega
        simp only [this, entries_zero, numMatchedTokens, getLast?_singleton, length_singleton]
        omega

lemma entries_eq_nil (he : e ≤ T * path.length) : entries T path e = [] ↔ e = 0 := by
  constructor
  · intro h
    have := numMatchedTokens_entries he
    rw [h] at this
    exact this.symm
  · rintro rfl
    exact entries_zero T path

/-- A match that ends in the first block. -/
lemma entries_first {c : ℕ} (hc : 0 < c) (hle : c ≤ T) : entries T (id :: path) c = [⟨id, c⟩] := by
  rw [entries_cons hc, min_eq_right hle, Nat.sub_eq_zero_of_le hle, entries_zero]

/-- A match that goes on behind the first block. -/
lemma entries_add (hT : 0 < T) (x : ℕ) :
    entries T (id :: path) (T + x) = ⟨id, T⟩ :: entries T path x := by
  rw [entries_cons (by omega), min_eq_left (by omega), Nat.add_sub_cancel_left]

lemma length_entries (hT : 0 < T) (he : e ≤ T * path.length) :
    (entries T path e).length = divUp e T := by
  induction path generalizing e with
  | nil =>
    simp only [length_nil, Nat.mul_zero, Nat.le_zero] at he
    subst he
    exact (Nat.div_eq_of_lt (by omega)).symm
  | cons id path ih =>
    rw [length_cons, Nat.mul_succ] at he
    rcases Nat.eq_zero_or_pos e with rfl | hpos
    · exact (Nat.div_eq_of_lt (by omega)).symm
    · have hstep : divUp e T = divUp (e - T) T + 1 := by
        rw [divUp, divUp, ← Nat.add_div_right _ hT]
        rcases Nat.lt_or_ge T e with hlt | hle
        · congr 1
          omega
        · have hone : (e + T - 1) / T = 1 := Nat.div_eq_of_lt_le (by omega) (by omega)
          rw [Nat.sub_eq_zero_of_le hle, Nat.zero_add, hone]
          exact (Nat.div_eq_of_lt_le (by omega) (by omega)).symm
      rw [entries_cons hpos, length_cons, ih (by omega), hstep]

/-- The last entry of a match, and the same match with another end in that block. -/
lemma entries_concat (hT : 0 < T) (hpos : 0 < e) (he : e ≤ T * path.length) :
    ∃ n last id, 0 < last ∧ last ≤ T ∧ e = n * T + last ∧ ∀ c, 0 < c → c ≤ T →
      entries T path (n * T + c) = entries T path (n * T) ++ [⟨id, c⟩] := by
  induction path generalizing e with
  | nil =>
    simp only [length_nil, Nat.mul_zero, Nat.le_zero] at he
    omega
  | cons first path ih =>
    rw [length_cons, Nat.mul_succ] at he
    rcases Nat.lt_or_ge T e with hlt | hle
    · obtain ⟨n, last, id, hlast, hlastT, hn, hid⟩ := @ih (e - T) (by omega) (by omega)
      have hend : (n + 1) * T = T + n * T := by
        rw [Nat.succ_mul]
        omega
      refine ⟨n + 1, last, id, hlast, hlastT, by omega, fun c hc hcT => ?_⟩
      rw [hend, Nat.add_assoc, entries_add hT, entries_add hT, hid c hc hcT, cons_append]
    · refine ⟨0, e, first, hpos, hle, by omega, fun c hc hcT => ?_⟩
      rw [Nat.zero_mul, Nat.zero_add, entries_zero, entries_first hc hcT, nil_append]

/-- Backing off moves the endpoint down. -/
lemma backOffMatch_entries (hT : 0 < T) (he : e ≤ T * path.length) (backoff : ℕ) :
    backOffMatch (entries T path e) backoff = entries T path (e - backoff) := by
  rw [backOffMatch, reverse_eq_iff]
  induction e using Nat.strong_induction_on generalizing backoff with
  | _ e ih =>
    rcases Nat.eq_zero_or_pos e with rfl | hpos
    · simp [backOffLoop]
    obtain ⟨n, last, id, hlast, hlastT, rfl, hid⟩ := entries_concat hT hpos he
    rw [hid last hlast hlastT, reverse_append, reverse_singleton, singleton_append, backOffLoop]
    split_ifs with hzero hwithin
    · rw [hzero, Nat.sub_zero, hid last hlast hlastT, reverse_append,
        reverse_singleton, singleton_append]
    · dsimp only at hwithin
      rw [Nat.add_sub_assoc hwithin.le, hid _ (by omega) (by omega), reverse_append,
        reverse_singleton, singleton_append]
    · dsimp only at hwithin ⊢
      rw [ih (n * T) (by omega) (by omega)]
      congr 2
      omega

end Entries

namespace BlockRadixTree

variable {Key : Type*} (tree : BlockRadixTree Key)

/-! ### What an endpoint needs -/

/-- A snapshot of the recurrent state ends exactly at the endpoint. -/
def SnapshotAt (lcId : ℕ) (path : List ℕ) (e : ℕ) : Prop :=
  ∃ j id, path[j]? = some id ∧ 0 < tree.pageCoverage id lcId
    ∧ tree.pageCoverage id lcId ≤ tree.mTokensPerBlock
    ∧ e = j * tree.mTokensPerBlock + tree.pageCoverage id lcId

/-- The page of every matched block that the condition selects covers its matched tokens. -/
def CoveredAt (lcId : ℕ) (needed : ℕ → Prop) (path : List ℕ) (e : ℕ) : Prop :=
  ∀ j id, path[j]? = some id → j * tree.mTokensPerBlock < e → needed j →
    min tree.mTokensPerBlock (e - j * tree.mTokensPerBlock) ≤ tree.pageCoverage id lcId

/-- An endpoint at which a path of blocks can be reused: the sinks and the live window of every
required attention life cycle, and the sinks of those that require only their sinks, are covered
by their pages, and every required recurrent life cycle has a snapshot there. -/
structure Reusable (path : List ℕ) (e : ℕ) : Prop where
  window : ∀ lcId attn, tree.mLifeCycles.lifeCycles[lcId]? = some (.attn attn) →
    attn.reusePolicy = .REQUIRED →
    tree.CoveredAt lcId (fun j => j < (attn.getStaleRange e tree.mTokensPerBlock).beg
      ∨ (attn.getStaleRange e tree.mTokensPerBlock).fin ≤ j) path e
  sinks : ∀ lcId attn, tree.mLifeCycles.lifeCycles[lcId]? = some (.attn attn) →
    attn.reusePolicy = .SINK_REQUIRED_ONLY →
    tree.CoveredAt lcId (fun j => j < (attn.getStaleRange e tree.mTokensPerBlock).beg) path e
  snapshot : ∀ lcId, tree.mLifeCycles.lifeCycles[lcId]? = some (.ssm .REQUIRED) →
    tree.SnapshotAt lcId path e

/-! ### The steps of the loop -/

variable {tree} {path : List ℕ} {e : ℕ}

variable {attn : AttnLifeCycle} {lcId x : ℕ} {reg : LifeCycleRegistry}

/-- A snapshot within the first block is the one of this block. -/
lemma snapshotAt_first {id : ℕ} (hx : x ≤ tree.mTokensPerBlock) :
    tree.SnapshotAt lcId (id :: path) x ↔ 0 < x ∧ x = tree.pageCoverage id lcId := by
  constructor
  · rintro ⟨j, b, hj, hcov, hle, rfl⟩
    cases j with
    | zero =>
      cases hj
      simpa using hcov
    | succ j =>
      rw [Nat.succ_mul] at hx
      omega
  · rintro ⟨hpos, rfl⟩
    exact ⟨0, id, rfl, hpos, hx, by omega⟩

/-- A snapshot behind the first block is one of the tail. -/
lemma snapshotAt_add {id : ℕ} (hx : 0 < x) :
    tree.SnapshotAt lcId (id :: path) (tree.mTokensPerBlock + x)
      ↔ tree.SnapshotAt lcId path x := by
  constructor
  · rintro ⟨j, b, hj, hcov, hle, heq⟩
    cases j with
    | zero => omega
    | succ j =>
      rw [Nat.succ_mul] at heq
      exact ⟨j, b, by simpa using hj, hcov, hle, by omega⟩
  · rintro ⟨j, b, hj, hcov, hle, heq⟩
    refine ⟨j + 1, b, by simpa using hj, hcov, hle, ?_⟩
    rw [Nat.succ_mul]
    omega

/-- The recurrent-state step moves the endpoint down to the last snapshot. -/
lemma cutAtSnapshot_entries (lcId : ℕ) (he : e ≤ tree.mTokensPerBlock * path.length) :
    ∃ e' ≤ e, tree.cutAtSnapshot lcId (entries tree.mTokensPerBlock path e)
        = entries tree.mTokensPerBlock path e'
      ∧ (0 < e' → tree.SnapshotAt lcId path e')
      ∧ ∀ x, e' < x → x ≤ e → ¬ tree.SnapshotAt lcId path x := by
  induction path generalizing e with
  | nil =>
    refine ⟨0, Nat.zero_le _, rfl, fun h => absurd h (lt_irrefl 0), fun x _ _ => ?_⟩
    rintro ⟨j, id, hj, -⟩
    simp at hj
  | cons id path ih =>
    rcases Nat.eq_zero_or_pos e with rfl | hpos
    · exact ⟨0, le_rfl, by simp [cutAtSnapshot], fun h => absurd h (lt_irrefl 0),
        fun x hx hle => by omega⟩
    have hT := tree.tokensPerBlock_pos
    rw [length_cons, Nat.mul_succ] at he
    obtain ⟨e', hle, hcut, hsnap, hnone⟩ := @ih (e - tree.mTokensPerBlock) (by omega)
    have hbehind : ∀ x, tree.mTokensPerBlock + e' < x → x ≤ e →
        ¬ tree.SnapshotAt lcId (id :: path) x := by
      intro x hx hxe
      obtain ⟨y, rfl⟩ := Nat.exists_eq_add_of_le (show tree.mTokensPerBlock ≤ x by omega)
      rw [snapshotAt_add (by omega)]
      exact hnone y (by omega) (by omega)
    rw [entries_cons hpos]
    simp only [cutAtSnapshot, hcut]
    rcases Nat.eq_zero_or_pos e' with rfl | hpos'
    · rw [entries_zero]
      simp only
      split_ifs with hcov
      -- The last snapshot is the one of the first block.
      · refine ⟨_, hcov.2.trans (min_le_right _ _), (entries_first hcov.1
          (hcov.2.trans (min_le_left _ _))).symm, fun h => ?_, fun x hx hxe => ?_⟩
        · exact (snapshotAt_first (hcov.2.trans (min_le_left _ _))).2 ⟨h, rfl⟩
        · rcases Nat.lt_or_ge tree.mTokensPerBlock x with hlt | hge
          · exact hbehind x (by omega) hxe
          · rw [snapshotAt_first hge]
            omega
      · refine ⟨0, Nat.zero_le _, (entries_zero _ _).symm, fun h => absurd h (lt_irrefl 0),
          fun x hx hxe => ?_⟩
        rcases Nat.lt_or_ge tree.mTokensPerBlock x with hlt | hge
        · exact hbehind x (by omega) hxe
        · rw [snapshotAt_first hge]
          rintro ⟨-, rfl⟩
          exact hcov ⟨hx, le_min hge hxe⟩
    · have hne : entries tree.mTokensPerBlock path e' ≠ [] := by
        rw [ne_eq, entries_eq_nil (by omega)]
        omega
      refine ⟨tree.mTokensPerBlock + e', by omega, ?_, fun _ => ?_, hbehind⟩
      · rw [entries_add hT, min_eq_left (by omega)]
        obtain ⟨m, l, hml⟩ := exists_cons_of_ne_nil hne
        rw [hml]
      · exact (snapshotAt_add hpos').2 (hsnap hpos')

/-- The attention step changes nothing when every block that counts is covered. -/
lemma cutUncovered_entries_none {i : ℕ} {stale : HalfOpenRange}
    (h : tree.cutUncovered lcId attn stale i (entries tree.mTokensPerBlock path e) = none) :
    tree.CoveredAt lcId (fun j => constrains attn stale (i + j) = true) path e := by
  induction path generalizing i e with
  | nil =>
    intro j id hj
    simp at hj
  | cons first path ih =>
    intro j id hj hlt hneeded
    have hpos : 0 < e := Nat.zero_lt_of_lt hlt
    rw [entries_cons hpos, cutUncovered] at h
    split at h
    · split at h <;> cases h
    · rename_i hcovered
      cases j with
      | zero =>
        cases hj
        simp only [Bool.and_eq_true, decide_eq_true_eq, not_and, Nat.not_lt] at hcovered
        simpa using hcovered (by simpa using hneeded)
      | succ j =>
        rw [Nat.succ_mul] at hlt ⊢
        have hindex : i + 1 + j = i + (j + 1) := by omega
        have hrest := ih (Option.map_eq_none_iff.1 h) j id (by simpa using hj) (by omega)
          (by simpa only [hindex] using hneeded)
        rwa [Nat.sub_sub, Nat.add_comm] at hrest

/-- The attention step cuts at a block that counts and is not covered. -/
lemma cutUncovered_entries_some {i : ℕ} {stale : HalfOpenRange} {cut : List MatchResult}
    (h : tree.cutUncovered lcId attn stale i (entries tree.mTokensPerBlock path e) = some cut) :
    ∃ j id, path[j]? = some id ∧ constrains attn stale (i + j) = true
      ∧ j * tree.mTokensPerBlock + tree.pageCoverage id lcId < e
      ∧ tree.pageCoverage id lcId < tree.mTokensPerBlock
      ∧ cut = entries tree.mTokensPerBlock path
        (j * tree.mTokensPerBlock + tree.pageCoverage id lcId) := by
  induction path generalizing i e cut with
  | nil => cases h
  | cons first path ih =>
    rcases Nat.eq_zero_or_pos e with rfl | hpos
    · simp [cutUncovered] at h
    rw [entries_cons hpos, cutUncovered] at h
    split at h
    · rename_i hcut
      simp only [Bool.and_eq_true, decide_eq_true_eq, lt_min_iff] at hcut
      obtain ⟨hcount, hT, hlt⟩ := hcut
      refine ⟨0, first, rfl, hcount, by omega, hT, ?_⟩
      rw [Nat.zero_mul, Nat.zero_add]
      split at h
      · rename_i hcov
        cases h
        exact (entries_first hcov hT.le).symm
      · rename_i hcov
        cases h
        rw [Nat.eq_zero_of_not_pos hcov, entries_zero]
    · obtain ⟨rest, hrest, rfl⟩ := Option.map_eq_some_iff.1 h
      obtain ⟨j, id, hj, hcount, hlt, hT, rfl⟩ := ih hrest
      have hindex : i + 1 + j = i + (j + 1) := by omega
      have hend : (j + 1) * tree.mTokensPerBlock + tree.pageCoverage id lcId
          = tree.mTokensPerBlock + (j * tree.mTokensPerBlock + tree.pageCoverage id lcId) := by
        rw [Nat.succ_mul]
        omega
      refine ⟨j + 1, id, by simpa using hj, hindex ▸ hcount, by omega, hT, ?_⟩
      rw [hend, entries_add tree.tokensPerBlock_pos, min_eq_left (by omega)]

/-! ### The window moves with the endpoint -/

lemma lt_divUp {j T : ℕ} (hT : 0 < T) (h : j * T < x) : j < divUp x T := by
  rw [divUp, Nat.lt_iff_add_one_le, Nat.le_div_iff_mul_le hT, Nat.succ_mul]
  omega

lemma divUp_mono {y : ℕ} (T : ℕ) (h : x ≤ y) : divUp x T ≤ divUp y T :=
  Nat.div_le_div_right (by omega)

lemma constrains_required (h : attn.reusePolicy = .REQUIRED) (stale : HalfOpenRange) (j : ℕ) :
    constrains attn stale j = true ↔ j < stale.beg ∨ stale.fin ≤ j := by
  have hnot : decide (attn.reusePolicy = .SINK_REQUIRED_ONLY) = false := by rw [h]; rfl
  simp only [constrains, hnot, Bool.false_and, Bool.or_false, Bool.not_eq_true',
    Bool.and_eq_false_iff, decide_eq_false_iff_not]
  omega

lemma constrains_sinks (h : attn.reusePolicy = .SINK_REQUIRED_ONLY)
    (stale : HalfOpenRange) (j : ℕ) : constrains attn stale j = true ↔ j < stale.beg := by
  simp only [constrains, h, decide_true, Bool.true_and, Bool.not_eq_true', Bool.or_eq_false_iff,
    Bool.and_eq_false_iff, decide_eq_false_iff_not]
  omega

/-- A block that counts at an endpoint counts at every smaller endpoint that reaches it. -/
lemma constrains_of_le {T j : ℕ} (hT : 0 < T) (hj : j * T < x)
    (hxe : x ≤ e) (h : constrains attn (attn.getStaleRange e T) j = true) :
    constrains attn (attn.getStaleRange x T) j = true := by
  have hstart := divUp_mono T hxe
  have hreach := lt_divUp hT hj
  have hslide : ∀ windowSize, (x + 1 - windowSize) / T ≤ (e + 1 - windowSize) / T :=
    fun _ => Nat.div_le_div_right (by omega)
  by_cases hsinks : attn.reusePolicy = .SINK_REQUIRED_ONLY
  · rw [constrains_sinks hsinks] at h ⊢
    have hbeg : ∀ y, (attn.getStaleRange y T).beg = min (divUp y T) attn.numSinkBlocks := by
      intro y
      simp only [AttnLifeCycle.getStaleRange]
      split <;> rfl
    rw [hbeg] at h ⊢
    omega
  · simp only [constrains, hsinks, decide_false, Bool.false_and, Bool.or_false, Bool.not_eq_true',
      Bool.and_eq_false_iff, decide_eq_false_iff_not] at h ⊢
    cases hwindow : attn.windowSize with
    | none =>
      simp only [AttnLifeCycle.getStaleRange, hwindow] at h ⊢
      omega
    | some windowSize =>
      have := hslide windowSize
      simp only [AttnLifeCycle.getStaleRange, hwindow] at h ⊢
      omega

lemma mem_attentionLifeCycles :
    (lcId, attn) ∈ reg.attentionLifeCycles ↔ reg.lifeCycles[lcId]? = some (.attn attn) := by
  simp only [LifeCycleRegistry.attentionLifeCycles, mem_filterMap]
  constructor
  · rintro ⟨⟨lc, n⟩, hmem, hlc⟩
    cases lc with
    | attn lc =>
      cases hlc
      exact (mem_zipIdx_iff_getElem?.1 hmem)
    | ssm policy => cases hlc
  · intro h
    exact ⟨(.attn attn, lcId), mem_zipIdx_iff_getElem?.2 h, rfl⟩

/-- An attention life cycle takes part in pruning. -/
def prunes (attn : AttnLifeCycle) : Prop :=
  attn.reusePolicy = .REQUIRED ∨ attn.reusePolicy = .SINK_REQUIRED_ONLY

/-- Both attention requirements say that the blocks that count are covered. -/
lemma Reusable.covered (h : tree.Reusable path e)
    (hlc : tree.mLifeCycles.lifeCycles[lcId]? = some (.attn attn)) (hprunes : prunes attn) :
    tree.CoveredAt lcId
      (fun j => constrains attn (attn.getStaleRange e tree.mTokensPerBlock) j = true) path e := by
  intro j id hj hlt hneeded
  rcases hprunes with hpolicy | hpolicy
  · exact h.window lcId attn hlc hpolicy j id hj hlt ((constrains_required hpolicy _ _).1 hneeded)
  · exact h.sinks lcId attn hlc hpolicy j id hj hlt ((constrains_sinks hpolicy _ _).1 hneeded)

lemma shorten_entries_none (he : e ≤ tree.mTokensPerBlock * path.length)
    (h : tree.shorten (entries tree.mTokensPerBlock path e) = none) {lcId : ℕ}
    {attn : AttnLifeCycle} (hlc : tree.mLifeCycles.lifeCycles[lcId]? = some (.attn attn))
    (hprunes : prunes attn) :
    tree.CoveredAt lcId
      (fun j => constrains attn (attn.getStaleRange e tree.mTokensPerBlock) j = true) path e := by
  have hcut := findSome?_eq_none_iff.1 h _ (mem_attentionLifeCycles.2 hlc)
  simp only [show attn.reusePolicy = .REQUIRED
    ∨ attn.reusePolicy = .SINK_REQUIRED_ONLY from hprunes, if_true, numMatchedTokens_entries he]
      at hcut
  simpa only [Nat.zero_add] using cutUncovered_entries_none hcut

/-- What the attention step passes over is not reusable. -/
lemma shorten_entries_some {cut : List MatchResult} (he : e ≤ tree.mTokensPerBlock * path.length)
    (h : tree.shorten (entries tree.mTokensPerBlock path e) = some cut) :
    ∃ e' < e, cut = entries tree.mTokensPerBlock path e'
      ∧ ∀ x, e' < x → x ≤ e → ¬ tree.Reusable path x := by
  obtain ⟨⟨lcId, attn⟩, hmem, hcut⟩ := exists_of_findSome?_eq_some h
  split at hcut
  · rename_i hprunes
    simp only [numMatchedTokens_entries he] at hcut
    obtain ⟨j, id, hj, hcount, hlt, hshort, rfl⟩ := cutUncovered_entries_some hcut
    rw [Nat.zero_add] at hcount
    refine ⟨_, hlt, rfl, fun x hx hxe hreusable => ?_⟩
    have hreach : j * tree.mTokensPerBlock < x := by omega
    have hcovered := hreusable.covered (mem_attentionLifeCycles.1 hmem) hprunes j id hj hreach
      (constrains_of_le tree.tokensPerBlock_pos hreach hxe hcount)
    omega
  · cases hcut

/-! ### The pruning loop -/

lemma requiredSsmLifeCycleId_eq_some (h : reg.requiredSsmLifeCycleId = some lcId) (lcId' : ℕ) :
    reg.lifeCycles[lcId']? = some (.ssm .REQUIRED) ↔ lcId' = lcId := by
  obtain ⟨hlt, hget, -⟩ := findIdx?_eq_some_iff_getElem.1 h
  have hlc : reg.lifeCycles[lcId]? = some (.ssm .REQUIRED) := by
    rw [getElem?_eq_getElem hlt]
    simpa using hget
  constructor
  · intro h'
    have hlt' := (List.getElem?_eq_some_iff.1 h').1
    exact (getElem?_inj hlt' reg.nodup).1 (h'.trans hlc.symm)
  · rintro rfl
    exact hlc

lemma requiredSsmLifeCycleId_eq_none (h : reg.requiredSsmLifeCycleId = none) (lcId : ℕ) :
    reg.lifeCycles[lcId]? ≠ some (.ssm .REQUIRED) := by
  intro hget
  have := findIdx?_eq_none_iff.1 h _ (mem_of_getElem? hget)
  simp at this

/-- The recurrent-state step, for the life cycle that the registry requires. -/
lemma snapshotCandidate_entries (he : e ≤ tree.mTokensPerBlock * path.length) :
    ∃ e' ≤ e, tree.snapshotCandidate tree.mLifeCycles.requiredSsmLifeCycleId
        (entries tree.mTokensPerBlock path e) = entries tree.mTokensPerBlock path e'
      ∧ (0 < e' → ∀ lcId, tree.mLifeCycles.lifeCycles[lcId]? = some (.ssm .REQUIRED) →
        tree.SnapshotAt lcId path e')
      ∧ ∀ x, e' < x → x ≤ e → ¬ tree.Reusable path x := by
  cases hssm : tree.mLifeCycles.requiredSsmLifeCycleId with
  | none =>
    refine ⟨e, le_rfl, rfl, fun _ lcId hlc => ?_, fun x hx hxe => by omega⟩
    exact absurd hlc (requiredSsmLifeCycleId_eq_none hssm lcId)
  | some lcId =>
    obtain ⟨e', hle, hcut, hsnap, hnone⟩ := @cutAtSnapshot_entries _ tree path e lcId he
    refine ⟨e', hle, hcut, fun hpos lcId' hlc => ?_, fun x hx hxe hreusable => ?_⟩
    · rw [(requiredSsmLifeCycleId_eq_some hssm lcId').1 hlc]
      exact hsnap hpos
    · exact hnone x hx hxe
        (hreusable.snapshot lcId ((requiredSsmLifeCycleId_eq_some hssm lcId).2 rfl))

/-- **Pruning ends at the greatest reusable endpoint.** -/
theorem pruneMatch_entries (he : e ≤ tree.mTokensPerBlock * path.length) :
    ∃ e' ≤ e, tree.pruneMatch tree.mLifeCycles.requiredSsmLifeCycleId
        (entries tree.mTokensPerBlock path e) = entries tree.mTokensPerBlock path e'
      ∧ (0 < e' → tree.Reusable path e')
      ∧ ∀ x, e' < x → x ≤ e → ¬ tree.Reusable path x := by
  induction e using Nat.strong_induction_on with
  | _ e ih =>
    obtain ⟨c, hle, hcandidate, hsnap, hpassed⟩ := snapshotCandidate_entries he
    rw [pruneMatch, hcandidate]
    split
    · rename_i hnone
      refine ⟨c, hle, rfl, fun hpos => ?_, hpassed⟩
      have hcovered :=
        fun {lcId attn} => @shorten_entries_none _ tree path c (by omega) hnone lcId attn
      refine ⟨fun lcId attn hlc hpolicy j id hj hlt hneeded => ?_,
        fun lcId attn hlc hpolicy j id hj hlt hneeded => ?_, hsnap hpos⟩
      · exact hcovered hlc (.inl hpolicy) j id hj hlt ((constrains_required hpolicy _ _).2 hneeded)
      · exact hcovered hlc (.inr hpolicy) j id hj hlt ((constrains_sinks hpolicy _ _).2 hneeded)
    · rename_i shorter hsome
      obtain ⟨d, hlt, rfl, hcut⟩ := shorten_entries_some (by omega) hsome
      obtain ⟨e', hle', hprune, hreusable, hbelow⟩ := ih d (by omega) (by omega)
      refine ⟨e', by omega, hprune, hreusable, fun x hx hxe => ?_⟩
      -- The three stretches that the round passes over.
      rcases Nat.lt_or_ge c x with hc | hc
      · exact hpassed x hc hxe
      · rcases Nat.lt_or_ge d x with hd | hd
        · exact hcut x hd hc
        · exact hbelow x hx hd

end BlockRadixTree

end TrtLlm.KvCacheV2
