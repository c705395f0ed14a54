import TrtLlm.Sharing.StagingCapacity

/-!
`_max_resume_position` and `_clip_to_bidirectional_runs` of `sharing/_fetch_ledger.py`: the position
at which a request resumes, given what was computed and the blocks that fetches delivered.

The search goes from the top down, counts the missing blocks with prefix sums and does not look past
the first missing block of a group with full attention.

* `maxResumePosition_spec`: **the search finds the largest position** at which no layer group misses
  a block;
* `clipToBidirectionalRuns_outside`: after clipping, no bound is strictly inside a multimodal run.
-/

namespace TrtLlm

open List Option

open KvCacheV2 (AttnLifeCycle)

/-! ### The search -/

/-- `have`: the blocks of a mask from `first` to `last`. -/
def blocksBetween (blocks : List Bool) (first last : ℕ) : List Bool :=
  let mine := (blocks.take last).drop first
  mine ++ replicate (last - first - mine.length) false

/-- `missing[j]`: how many of the first `j` blocks are not there. -/
def missing (blocks : List Bool) (j : ℕ) : ℕ := (blocks.take j).count false

/-- `gap`: a block from `a` to `b` is missing. -/
def gap (first last : ℕ) (blocks : List Bool) (a b : ℕ) : Bool :=
  let a := max a first
  let b := min b last
  let among := blocksBetween blocks first last
  decide (a < b) && decide (0 < missing among (b - first) - missing among (a - first))

namespace ManagerLayout

variable (layout : ManagerLayout)

/-- `bad`: a layer group misses a block that it reads at `endBlock`. -/
def bad (first last endBlock : ℕ) (lg : LayerGroup) (blocks : List Bool) : Bool :=
  let stale := layout.staleRange lg (endBlock * layout.tokensPerBlock)
  if stale.1 < stale.2 then
    gap first last blocks first (min stale.1 endBlock) || gap first last blocks stale.2 endBlock
  else gap first last blocks first endBlock

/-- `top`: no start is past the first missing block of a group with full attention. -/
def top (first last : ℕ) (groups : List (LayerGroup × List Bool)) : ℕ :=
  groups.foldl (fun top g =>
    let among := blocksBetween g.2 first last
    if g.1.window = none ∧ false ∈ among then min top (first + among.idxOf false) else top) last

/-- `_max_resume_position`; `masks` has a mask for every layer group. -/
def maxResumePosition (masks : List (List Bool)) (known : ℕ) : ℕ :=
  let first := known / layout.tokensPerBlock
  let last := (masks.map length).foldr max 0
  if last ≤ first then known
  else
    let groups := layout.layerGroups.zip masks
    let ends := (range' (first + 1) (top first last groups - first)).reverse
    match ends.find? fun endBlock => groups.all fun g => !layout.bad first last endBlock g.1 g.2
      with
    | some endBlock => endBlock * layout.tokensPerBlock
    | none => known

/-! ### What it is for -/

/-- The block `b` is below `endBlock` and not behind the window of the layer group there. -/
def Reads (lg : LayerGroup) (endBlock b : ℕ) : Prop :=
  let stale := layout.staleRange lg (endBlock * layout.tokensPerBlock)
  b < endBlock ∧ ¬ (stale.1 ≤ b ∧ b < stale.2)

/-- A request can resume at `n` blocks: this is above what is known, some block of those in
`recorded` is not before it, and every layer group has what it reads among the known blocks and
those in `delivered`. -/
structure Usable (delivered recorded : ℕ → ℕ → Prop) (known n : ℕ) : Prop where
  above : known < n * layout.tokensPerBlock
  within : ∃ i b, recorded i b ∧ n ≤ b + 1
  reads : ∀ i lg, layout.layerGroups[i]? = some lg → ∀ b, layout.Reads lg n b →
    (b + 1) * layout.tokensPerBlock ≤ known ∨ delivered i b

/-- **The resume position**: the largest one that is usable, or what is known if there is none. -/
def IsResumePosition (delivered recorded : ℕ → ℕ → Prop) (known position : ℕ) : Prop :=
  (∃ n, position = n * layout.tokensPerBlock
    ∧ IsGreatest {n | layout.Usable delivered recorded known n} n)
  ∨ (∀ n, ¬ layout.Usable delivered recorded known n) ∧ position = known

end ManagerLayout

/-! ### Prefix sums -/

variable {first last : ℕ}

lemma le_foldr_max_zero {l : List ℕ} {x : ℕ} (h : x ∈ l) : x ≤ l.foldr max 0 := by
  induction l with
  | nil => cases h
  | cons y l ih =>
    rw [foldr_cons]
    rcases mem_cons.mp h with rfl | hx
    · exact le_max_left _ _
    · exact (ih hx).trans (le_max_right _ _)

lemma foldr_max_mem_or_zero (l : List ℕ) : l.foldr max 0 = 0 ∨ l.foldr max 0 ∈ l := by
  induction l with
  | nil => exact .inl rfl
  | cons y l ih =>
    rw [foldr_cons]
    rcases max_choice y (l.foldr max 0) with heq | heq
    · rw [heq]
      exact .inr mem_cons_self
    · rw [heq]
      exact ih.imp_right (mem_cons_of_mem y)

section

variable (blocks : List Bool)

lemma blocksBetween_getElem? {j : ℕ} (hj : first + j < last) :
    (blocksBetween blocks first last)[j]? = some (blocks.getD (first + j) false) := by
  rw [blocksBetween, getD_eq_getElem?_getD]
  have hlen : ((blocks.take last).drop first).length = min last blocks.length - first := by
    rw [length_drop, length_take]
  by_cases hin : first + j < blocks.length
  · rw [getElem?_append_left (by omega), getElem?_drop, getElem?_take_of_lt hj,
      getElem?_eq_getElem hin, getD_some]
  · rw [getElem?_append_right (by omega), getElem?_replicate, if_pos (by omega),
      getElem?_eq_none (by omega), getD_none]

lemma length_blocksBetween : (blocksBetween blocks first last).length = last - first := by
  rw [blocksBetween, length_append, length_replicate, length_drop, length_take]
  omega

/-- The difference of two prefix sums counts what is missing in between. -/
lemma missing_lt_iff {p q : ℕ} (hpq : p ≤ q) :
    0 < missing blocks q - missing blocks p ↔ ∃ j, p ≤ j ∧ j < q ∧ blocks[j]? = some false := by
  have hsplit : missing blocks q = missing blocks p + ((blocks.take q).drop p).count false := by
    calc missing blocks q
      _ = ((blocks.take q).take p ++ (blocks.take q).drop p).count false := by
          rw [take_append_drop, missing]
      _ = missing blocks p + ((blocks.take q).drop p).count false := by
          rw [count_append, take_take, min_eq_left hpq, missing]
  rw [hsplit, Nat.add_sub_cancel_left, count_pos_iff, mem_iff_getElem?]
  constructor
  · rintro ⟨i, hi⟩
    rw [getElem?_drop, getElem?_take] at hi
    split_ifs at hi with hlt
    exact ⟨p + i, Nat.le_add_right p i, hlt, hi⟩
  · rintro ⟨j, hp, hq, hj⟩
    refine ⟨j - p, ?_⟩
    rw [getElem?_drop, Nat.add_sub_cancel' hp, getElem?_take_of_lt hq, hj]

/-- **A gap** is a missing block. -/
lemma gap_iff {a b : ℕ} (hb : b ≤ last) :
    gap first last blocks a b = true ↔ ∃ c, first ≤ c ∧ a ≤ c ∧ c < b
      ∧ blocks.getD c false = false := by
  rw [gap, min_eq_left hb, Bool.and_eq_true, decide_eq_true_iff, decide_eq_true_iff]
  constructor
  · rintro ⟨hlt, hmissing⟩
    obtain ⟨j, hp, hq, hj⟩ := (missing_lt_iff _ (by omega)).mp hmissing
    rw [blocksBetween_getElem? blocks (by omega), some.injEq] at hj
    exact ⟨first + j, by omega, by omega, by omega, hj⟩
  · rintro ⟨c, hfirst, ha, hc, hnot⟩
    refine ⟨by omega, (missing_lt_iff _ (by omega)).mpr ⟨c - first, by omega, by omega, ?_⟩⟩
    rw [blocksBetween_getElem? blocks (by omega), Nat.add_sub_cancel' hfirst, hnot]

end

namespace ManagerLayout

variable {layout : ManagerLayout} {first last n : ℕ}

/-- A layer group fails the test if it misses a block that it reads. -/
lemma bad_iff (lg : LayerGroup) (blocks : List Bool) (hn : n ≤ last) :
    layout.bad first last n lg blocks = true
      ↔ ∃ b, first ≤ b ∧ layout.Reads lg n b ∧ blocks.getD b false = false := by
  rw [bad]
  simp only [Reads]
  generalize layout.staleRange lg (n * layout.tokensPerBlock) = stale
  split_ifs with hstale
  · rw [Bool.or_eq_true, gap_iff blocks (by omega), gap_iff blocks hn]
    constructor
    · rintro (⟨c, hc, -, hlt, hnot⟩ | ⟨c, hc, hge, hlt, hnot⟩)
      · exact ⟨c, hc, ⟨by omega, by omega⟩, hnot⟩
      · exact ⟨c, hc, ⟨hlt, by omega⟩, hnot⟩
    · rintro ⟨c, hc, ⟨hlt, hout⟩, hnot⟩
      by_cases hbeg : c < stale.1
      · exact .inl ⟨c, hc, hc, by omega, hnot⟩
      · exact .inr ⟨c, hc, by omega, hlt, hnot⟩
  · rw [gap_iff blocks hn]
    constructor
    · rintro ⟨c, hc, -, hlt, hnot⟩
      exact ⟨c, hc, ⟨hlt, by omega⟩, hnot⟩
    · rintro ⟨c, hc, ⟨hlt, -⟩, hnot⟩
      exact ⟨c, hc, hc, hlt, hnot⟩

/-- A group with full attention reads every block. -/
lemma reads_of_full {lg : LayerGroup} (hfull : lg.window = none) {b : ℕ}
    (hb : b < n) : layout.Reads lg n b := by
  rw [Reads, staleRange, hfull]
  exact ⟨hb, fun h => absurd h.2 (Nat.not_lt_zero b)⟩

lemma le_top_iff (groups : List (LayerGroup × List Bool)) :
    n ≤ top first last groups ↔ n ≤ last ∧ ∀ g ∈ groups, g.1.window = none →
      false ∈ blocksBetween g.2 first last →
        n ≤ first + (blocksBetween g.2 first last).idxOf false := by
  have hgen : ∀ bound : ℕ, n ≤ groups.foldl (fun top g =>
        let among := blocksBetween g.2 first last
        if g.1.window = none ∧ false ∈ among then min top (first + among.idxOf false)
          else top) bound
      ↔ n ≤ bound ∧ ∀ g ∈ groups, g.1.window = none → false ∈ blocksBetween g.2 first last →
        n ≤ first + (blocksBetween g.2 first last).idxOf false := by
    induction groups with
    | nil => simp
    | cons g groups ih =>
      intro bound
      rw [foldl_cons, ih, forall_mem_cons]
      dsimp only
      split_ifs with hg
      · rw [le_min_iff, and_assoc]
        exact and_congr_right fun _ => and_congr_left fun _ =>
          ⟨fun h _ _ => h, fun h => h hg.1 hg.2⟩
      · refine and_congr_right fun _ => ⟨fun h => ⟨fun hw hf => absurd ⟨hw, hf⟩ hg, h⟩,
          fun h => h.2⟩
  exact hgen last

/-! ### The largest position -/

/-- The first hit from the top down is the largest one. -/
lemma isGreatest_of_find?_reverse {p : ℕ → Bool} {start len m : ℕ}
    (h : (range' start len).reverse.find? p = some m) :
    IsGreatest {n | start ≤ n ∧ n < start + len ∧ p n = true} m := by
  obtain ⟨hm, above, below, hsplit, habove⟩ := find?_eq_some_iff_append.mp h
  have hmem : ∀ n, n ∈ (range' start len).reverse ↔ start ≤ n ∧ n < start + len := fun n => by
    rw [mem_reverse, mem_range'_1]
  have hsorted : (range' start len).reverse.Pairwise (· > ·) := by
    rw [pairwise_reverse]
    exact pairwise_lt_range' 1
  rw [hsplit] at hmem hsorted
  have hin := (hmem m).mp (by simp)
  refine ⟨⟨hin.1, hin.2, hm⟩, fun n hn => ?_⟩
  rcases mem_append.mp ((hmem n).mpr ⟨hn.1, hn.2.1⟩) with hn' | hn'
  · have hnot := habove n hn'
    rw [hn.2.2] at hnot
    cases hnot
  · rcases mem_cons.mp hn' with rfl | hlt
    · exact le_refl n
    · exact le_of_lt ((pairwise_cons.mp (pairwise_append.mp hsorted).2.1).1 n hlt)

/-- A mask has the block. -/
def Has (masks : List (List Bool)) (i b : ℕ) : Prop :=
  ∃ blocks, masks[i]? = some blocks ∧ blocks.getD b false = true

variable {masks : List (List Bool)} {recorded : ℕ → ℕ → Prop} {known : ℕ}

/-- What the loop tests. -/
lemma usable_iff (hlen : masks.length = layout.layerGroups.length) (hrecorded : ∀ n, 0 < n →
      ((∃ i b, recorded i b ∧ n ≤ b + 1) ↔ n ≤ (masks.map length).foldr max 0)) :
    layout.Usable (Has masks) recorded known n
      ↔ known / layout.tokensPerBlock < n ∧ n ≤ (masks.map length).foldr max 0
        ∧ ∀ g ∈ layout.layerGroups.zip masks, layout.bad (known / layout.tokensPerBlock)
          ((masks.map length).foldr max 0) n g.1 g.2 = false := by
  set last := (masks.map length).foldr max 0
  have ht := layout.tokensPerBlock_pos
  have hknown : ∀ b, (b + 1) * layout.tokensPerBlock ≤ known ↔ b < known / layout.tokensPerBlock :=
    fun b => by
    rw [← Nat.le_div_iff_mul_le ht, Nat.succ_le_iff]
  constructor
  · rintro ⟨habove, hwithin, hreads⟩
    have hlt : known / layout.tokensPerBlock < n := (Nat.div_lt_iff_lt_mul ht).mpr habove
    have hn : n ≤ last := (hrecorded n (Nat.zero_lt_of_lt hlt)).mp hwithin
    refine ⟨hlt, hn, fun g hg => ?_⟩
    rw [Bool.eq_false_iff]
    intro hbad
    obtain ⟨b, hb, hread, hnot⟩ := (bad_iff g.1 g.2 hn).mp hbad
    obtain ⟨i, hi⟩ := mem_iff_getElem?.mp hg
    obtain ⟨hlg, hmask⟩ := getElem?_zip_eq_some.mp hi
    rcases hreads i g.1 hlg b hread with hbelow | ⟨blocks, hblocks, hhas⟩
    · rw [hknown] at hbelow
      omega
    · obtain rfl := some.inj (hmask.symm.trans hblocks)
      rw [hnot] at hhas
      cases hhas
  · rintro ⟨hlt, hn, hgood⟩
    refine ⟨(Nat.div_lt_iff_lt_mul ht).mp hlt, (hrecorded n (Nat.zero_lt_of_lt hlt)).mpr hn,
      fun i lg hlg b hread => ?_⟩
    obtain ⟨blocks, hmask⟩ : ∃ blocks, masks[i]? = some blocks := by
      have hi : i < masks.length := by
        rw [hlen]
        exact (List.getElem?_eq_some_iff.mp hlg).1
      exact ⟨masks[i], getElem?_eq_getElem hi⟩
    have hok := hgood (lg, blocks) (mem_of_getElem? (getElem?_zip_eq_some.mpr ⟨hlg, hmask⟩))
    rw [hknown]
    by_contra hnone
    rw [not_or] at hnone
    refine Bool.eq_false_iff.mp hok ((bad_iff lg blocks hn).mpr ⟨b, by omega, hread, ?_⟩)
    rw [Bool.eq_false_iff]
    exact fun hhas => hnone.2 ⟨blocks, hmask, hhas⟩

/-- The search leaves out no usable position. -/
lemma le_top_of_good {groups : List (LayerGroup × List Bool)} (hn : n ≤ last)
    (hgood : ∀ g ∈ groups, layout.bad first last n g.1 g.2 = false) :
    n ≤ top first last groups := by
  refine (le_top_iff groups).mpr ⟨hn, fun g hg hfull hmissing => ?_⟩
  by_contra hlt
  set among := blocksBetween g.2 first last with hamong
  -- the first missing block is read at every later position
  have hidx : among.idxOf false < last - first := by
    rw [← length_blocksBetween g.2]
    exact idxOf_lt_length_iff.mpr hmissing
  have hnot : g.2.getD (first + among.idxOf false) false = false := by
    have hget := blocksBetween_getElem? g.2 (show first + among.idxOf false < last by omega)
    rw [← hamong, getElem?_eq_getElem (idxOf_lt_length_iff.mpr hmissing), getElem_idxOf,
      some.injEq] at hget
    exact hget.symm
  exact Bool.eq_false_iff.mp (hgood g hg)
    ((bad_iff g.1 g.2 hn).mpr ⟨_, Nat.le_add_right first _, reads_of_full hfull (by omega), hnot⟩)

/-- **The search finds the largest usable position.** -/
theorem maxResumePosition_spec (hlen : masks.length = layout.layerGroups.length)
    (hrecorded : ∀ n, 0 < n →
      ((∃ i b, recorded i b ∧ n ≤ b + 1) ↔ n ≤ (masks.map length).foldr max 0)) :
    layout.IsResumePosition (Has masks) recorded known (layout.maxResumePosition masks known) := by
  have husable : ∀ n, layout.Usable (Has masks) recorded known n ↔ _ :=
    fun n => usable_iff hlen hrecorded
  rw [maxResumePosition]
  set first := known / layout.tokensPerBlock
  set last := (masks.map length).foldr max 0
  set groups := layout.layerGroups.zip masks
  dsimp only
  split_ifs with hnone
  · refine .inr ⟨fun n hn => ?_, rfl⟩
    obtain ⟨hlt, hle, -⟩ := (husable n).mp hn
    omega
  · have hall : ∀ n, (groups.all fun g => !layout.bad first last n g.1 g.2) = true
        ↔ ∀ g ∈ groups, layout.bad first last n g.1 g.2 = false := fun n => by simp
    have hrange : ∀ n, layout.Usable (Has masks) recorded known n
        ↔ first + 1 ≤ n ∧ n < first + 1 + (top first last groups - first)
          ∧ (groups.all fun g => !layout.bad first last n g.1 g.2) = true := by
      intro n
      rw [husable n, hall]
      constructor
      · rintro ⟨hlt, hle, hgood⟩
        have htop := le_top_of_good hle hgood
        exact ⟨hlt, by omega, hgood⟩
      · rintro ⟨hlt, hlt', hgood⟩
        have htop : n ≤ top first last groups := by omega
        exact ⟨hlt, ((le_top_iff groups).mp htop).1, hgood⟩
    cases hfind : (range' (first + 1) (top first last groups - first)).reverse.find?
        fun n => groups.all fun g => !layout.bad first last n g.1 g.2 with
    | none =>
      refine .inr ⟨fun n hn => ?_, rfl⟩
      obtain ⟨hge, hlt, hgood⟩ := (hrange n).mp hn
      have hin : n ∈ (range' (first + 1) (top first last groups - first)).reverse := by
        rw [mem_reverse, mem_range'_1]
        exact ⟨hge, hlt⟩
      exact find?_eq_none.mp hfind n hin hgood
    | some n =>
      refine .inl ⟨n, rfl, ?_⟩
      have hgreatest := isGreatest_of_find?_reverse hfind
      simp only [← hrange] at hgreatest
      exact hgreatest

/-- The last block before a position is read there, if every window has two tokens at least: a
window of one token reads what is computed next and nothing before it. -/
lemma reads_pred {lg : LayerGroup} (hwindow : ∀ w, lg.window = some w → 2 ≤ w) {b : ℕ} :
    layout.Reads lg (b + 1) b := by
  rw [Reads, staleRange]
  refine ⟨Nat.lt_succ_self b, ?_⟩
  cases hw : lg.window with
  | none => exact fun h => absurd h.2 (Nat.not_lt_zero b)
  | some w =>
    have htwo := hwindow w hw
    have ht := layout.tokensPerBlock_pos
    simp only [AttnLifeCycle.getStaleRange]
    set history := min ((b + 1) * layout.tokensPerBlock) (maxTokens - layout.tokensPerBlock)
    have hle : (history + 1 - w) / layout.tokensPerBlock ≤ b := by
      have hhistory : history ≤ (b + 1) * layout.tokensPerBlock := min_le_left _ _
      rw [← Nat.lt_succ_iff, Nat.div_lt_iff_lt_mul ht, Nat.succ_eq_add_one]
      have hpos : 0 < (b + 1) * layout.tokensPerBlock := Nat.mul_pos (Nat.succ_pos b) ht
      omega
    omega

end ManagerLayout

/-! ### Multimodal runs -/

/-- What `bidirectional_runs` reads of a request's multimodal data. -/
structure MultimodalData where
  mmBidirectionalBlocks : Bool
  multimodalEmbedMaskCumsum : Option (List ℤ)

/-- The positions at which a mask, after `prev` and before `false`, changes. -/
def edges (prev : Bool) (i : ℕ) : List Bool → List ℕ
  | [] => if prev then [i] else []
  | x :: xs => if x = prev then edges x (i + 1) xs else i :: edges x (i + 1) xs

/-- Two by two. -/
def pairs : List ℕ → List (ℕ × ℕ)
  | b :: e :: rest => (b, e) :: pairs rest
  | _ => []

/-- The tokens that raise the count by one. -/
def multimodalMask (cumsum : List ℤ) : List Bool :=
  zipWith (fun before after => decide (after - before = 1)) (0 :: cumsum) cumsum

/-- `bidirectional_runs`. -/
def bidirectionalRuns (data : Option MultimodalData) : List (ℕ × ℕ) :=
  match data with
  | some ⟨true, some cumsum⟩ => pairs (edges false 0 (multimodalMask cumsum))
  | _ => []

/-- `_clip_to_bidirectional_runs`. -/
def clipToBidirectionalRuns (runs : List (ℕ × ℕ)) (usable : ℕ) : ℕ × ℕ :=
  let usable :=
    runs.foldl (fun usable r => if r.1 < usable ∧ usable < r.2 then r.1 else usable) usable
  (usable, ((runs.filter fun r => r.2 ≤ usable).map Prod.snd).foldr max 0)

/-- The position is strictly inside a run. -/
def Inside (runs : List (ℕ × ℕ)) (position : ℕ) : Prop :=
  ∃ r ∈ runs, r.1 < position ∧ position < r.2

/-- A run of a mask: set inside, and not set on either side. -/
structure IsRun (mask : List Bool) (r : ℕ × ℕ) : Prop where
  set : ∀ j, r.1 ≤ j → j < r.2 → mask[j]? = some true
  before : ∀ j, j + 1 = r.1 → mask[j]? ≠ some true
  after : mask[r.2]? ≠ some true

/-- **The pairs of edges are runs**, also with a run that began at `b`. -/
lemma isRun_pairs_edges {mask rest : List Bool} {i : ℕ} (hrest : mask.drop i = rest) :
    ((∀ j, j + 1 = i → mask[j]? ≠ some true) → ∀ r ∈ pairs (edges false i rest), IsRun mask r)
    ∧ ∀ b, (∀ j, b ≤ j → j < i → mask[j]? = some true) → (∀ j, j + 1 = b → mask[j]? ≠ some true) →
      ∀ r ∈ pairs (b :: edges true i rest), IsRun mask r := by
  induction rest generalizing i with
  | nil =>
    have hend : mask[i]? = none := by
      rw [List.getElem?_eq_none_iff]
      exact drop_eq_nil_iff.mp hrest
    refine ⟨fun _ r hr => by simp [edges, pairs] at hr, fun b hset hbefore r hr => ?_⟩
    simp only [edges, if_true, pairs, mem_singleton] at hr
    subst hr
    exact ⟨hset, hbefore, by simp [hend]⟩
  | cons x rest ih =>
    have hx : mask[i]? = some x := by
      have hhead : (mask.drop i)[0]? = some x := by rw [hrest]; rfl
      rwa [getElem?_drop, Nat.add_zero] at hhead
    have hnext : mask.drop (i + 1) = rest := by
      rw [← tail_drop, hrest]
      rfl
    obtain ⟨hout, hin⟩ := ih hnext
    refine ⟨fun hbefore => ?_, fun b hset hbefore => ?_⟩
    · cases x with
      | false =>
        refine hout fun j hj => ?_
        obtain rfl : j = i := by omega
        simp [hx]
      | true =>
        refine hin i (fun j hj hj' => ?_) hbefore
        obtain rfl : j = i := by omega
        exact hx
    · cases x with
      | true =>
        refine hin b (fun j hj hj' => ?_) hbefore
        rcases Nat.lt_succ_iff_lt_or_eq.mp hj' with hlt | rfl
        · exact hset j hj hlt
        · exact hx
      | false =>
        refine forall_mem_cons.mpr ⟨⟨hset, hbefore, by simp [hx]⟩, hout fun j hj => ?_⟩
        obtain rfl : j = i := by omega
        simp [hx]

lemma isRun_bidirectionalRuns (data : Option MultimodalData) :
    ∃ mask, ∀ r ∈ bidirectionalRuns data, IsRun mask r := by
  unfold bidirectionalRuns
  split
  · rename_i cumsum
    refine ⟨multimodalMask cumsum, (isRun_pairs_edges rfl).1 ?_⟩
    exact fun j hj => absurd hj (Nat.succ_ne_zero j)
  · exact ⟨[], fun r hr => absurd hr not_mem_nil⟩

variable {mask : List Bool} {runs : List (ℕ × ℕ)}

/-- No run has its own bounds, or those of another one, strictly inside. -/
lemma not_inside_of_isRun (hruns : ∀ r ∈ runs, IsRun mask r) {r : ℕ × ℕ} (hr : IsRun mask r) :
    ¬ Inside runs r.1 ∧ ¬ Inside runs r.2 := by
  refine ⟨?_, ?_⟩
  · rintro ⟨r', hr', hlt, hlt'⟩
    exact hr.before (r.1 - 1) (by omega) ((hruns r' hr').set (r.1 - 1) (by omega) (by omega))
  · rintro ⟨r', hr', hlt, hlt'⟩
    exact hr.after ((hruns r' hr').set r.2 hlt.le hlt')

lemma clip_cases (runs : List (ℕ × ℕ)) (usable : ℕ) :
    (clipToBidirectionalRuns runs usable).1 = usable ∧ ¬ Inside runs usable
    ∨ ∃ r ∈ runs, (clipToBidirectionalRuns runs usable).1 = r.1 := by
  rw [clipToBidirectionalRuns]
  induction runs generalizing usable with
  | nil => exact .inl ⟨rfl, by simp [Inside]⟩
  | cons r runs ih =>
    rw [foldl_cons]
    split_ifs with hin
    · rcases ih r.1 with ⟨heq, -⟩ | ⟨r', hr', heq⟩
      · exact .inr ⟨r, mem_cons_self, heq⟩
      · exact .inr ⟨r', mem_cons_of_mem r hr', heq⟩
    · rcases ih usable with ⟨heq, hout⟩ | ⟨r', hr', heq⟩
      · refine .inl ⟨heq, ?_⟩
        rintro ⟨r', hr', hlt⟩
        rcases mem_cons.mp hr' with rfl | hmem
        · exact hin hlt
        · exact hout ⟨r', hmem, hlt⟩
      · exact .inr ⟨r', mem_cons_of_mem r hr', heq⟩

/-- **After clipping, neither bound is strictly inside a run**, and no position between them is,
whatever raises the lower one. -/
theorem clipToBidirectionalRuns_outside (hruns : ∀ r ∈ runs, IsRun mask r) (usable : ℕ) :
    ¬ Inside runs (clipToBidirectionalRuns runs usable).1
    ∧ ¬ Inside runs (clipToBidirectionalRuns runs usable).2
    ∧ ∀ position, (clipToBidirectionalRuns runs usable).2 ≤ position →
      position ≤ (clipToBidirectionalRuns runs usable).1 → ¬ Inside runs position := by
  have hupper : ¬ Inside runs (clipToBidirectionalRuns runs usable).1 := by
    rcases clip_cases runs usable with ⟨heq, hout⟩ | ⟨r, hr, heq⟩
    · rwa [heq]
    · rw [heq]
      exact (not_inside_of_isRun hruns (hruns r hr)).1
  set clipped := (clipToBidirectionalRuns runs usable).1 with hclipped
  have hfloor : (clipToBidirectionalRuns runs usable).2
      = ((runs.filter fun r => r.2 ≤ clipped).map Prod.snd).foldr max 0 := rfl
  refine ⟨hupper, ?_, fun position hle hge => ?_⟩
  · rcases foldr_max_mem_or_zero ((runs.filter fun r => r.2 ≤ clipped).map Prod.snd) with hzero
      | hmem
    · rw [hfloor, hzero]
      rintro ⟨r, -, hlt, -⟩
      exact absurd hlt (Nat.not_lt_zero _)
    · obtain ⟨r, hr, heq⟩ := List.mem_map.mp hmem
      rw [hfloor, ← heq]
      exact (not_inside_of_isRun hruns (hruns r (mem_of_mem_filter hr))).2
  · rintro ⟨r, hr, hlt, hlt'⟩
    by_cases hend : r.2 ≤ clipped
    · have hin : r.2 ∈ (runs.filter fun r => r.2 ≤ clipped).map Prod.snd :=
        List.mem_map.mpr ⟨r, mem_filter.mpr ⟨hr, decide_eq_true hend⟩, rfl⟩
      have hmax := le_foldr_max_zero hin
      omega
    · exact hupper ⟨r, hr, by omega, by omega⟩

end TrtLlm
