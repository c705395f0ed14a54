import TrtLlm.Bounce.MessageCodec
import TrtLlm.Bounce.PlanCopies

/-!
The plan entries of the copy kernel (`BounceTransport.cpp`): the scatter of a DATA message and
the gather of a chunk.

Both count the entries in one pass, since the layout of the pinned buffer needs their number
first, and write them in a second one.  A raw piece is split into entries of `kCopySplitBytes`
as far as the capacity allows:

* `length_appendSplitInto`: the split emits as many entries as `piecesFor` counts;
* `length_fillEntries`: so the pass that writes agrees with the pass that counts;
* `piece_inside`: a run that passes the checks reads inside its region only;
* `plans_exact`: what the scatter and the gather write.
-/

namespace TrtLlm

open List Nat

/-! ### The two passes -/

/-- An entry of the plan arrays. -/
structure PlanEntry where
  src : ℕ
  dst : ℕ
  size : ℕ
deriving DecidableEq, Repr

/-- The copy of an entry. -/
def PlanEntry.bytes (e : PlanEntry) : List (ℕ × ℕ) := copyBytes e.src e.dst e.size

/-- `appendSplitInto`: the entries that it writes, from the index on that it is given. -/
def appendSplitInto : ℕ → ℕ → ℕ → ℕ → List PlanEntry
  | src, dst, size, 0 => [⟨src, dst, size⟩]
  | src, dst, size, maxPieces + 1 =>
    if kCopySplitBytes < size ∧ 1 < maxPieces + 1 then
      ⟨src, dst, kCopySplitBytes⟩ :: appendSplitInto (add64 src kCopySplitBytes)
        (add64 dst kCopySplitBytes) (size - kCopySplitBytes) maxPieces
    else [⟨src, dst, size⟩]

/-- The pass that writes the entries of the raw pieces, after those of `acc`. -/
def fillEntries (maxEntries : ℕ) : List PlanEntry → List PlanEntry → List PlanEntry
  | acc, [] => acc
  | acc, r :: rs =>
    fillEntries maxEntries
      (acc ++ appendSplitInto r.src r.dst r.size (splitBudget acc.length rs.length maxEntries)) rs

/-- The entry copies a part of the raw piece. -/
def PlanEntry.PartOf (e r : PlanEntry) : Prop :=
  ∃ off, e.src = add64 r.src off ∧ off + e.size ≤ r.size

/-- **The split emits what `piecesFor` counts.** -/
lemma length_appendSplitInto (src dst size maxPieces : ℕ) :
    (appendSplitInto src dst size maxPieces).length = piecesFor size maxPieces := by
  induction maxPieces generalizing src dst size with
  | zero =>
    rw [appendSplitInto, piecesFor, length_singleton, kCopySplitBytes]
    omega
  | succ m ih =>
    rw [appendSplitInto]
    split_ifs with h
    · rw [length_cons, ih, piecesFor, piecesFor]
      rw [kCopySplitBytes] at *
      omega
    · rw [length_singleton, piecesFor]
      rw [kCopySplitBytes] at *
      omega

/-- The split copies what the raw piece copies. -/
lemma bytes_appendSplitInto (src dst size maxPieces : ℕ) :
    (appendSplitInto src dst size maxPieces).flatMap PlanEntry.bytes = copyBytes src dst size := by
  induction maxPieces generalizing src dst size with
  | zero => rw [appendSplitInto, flatMap_singleton, PlanEntry.bytes]
  | succ m ih =>
    rw [appendSplitInto]
    split_ifs with h
    · rw [flatMap_cons, ih, PlanEntry.bytes, ← copyBytes_add, Nat.add_sub_cancel' h.1.le]
    · rw [flatMap_singleton, PlanEntry.bytes]

/-- Each entry of the split copies a part of the raw piece. -/
lemma partOf_of_mem_appendSplitInto {src dst size maxPieces : ℕ} (hsrc : src < 2 ^ 64)
    {e : PlanEntry}
    (he : e ∈ appendSplitInto src dst size maxPieces) : e.PartOf ⟨src, dst, size⟩ := by
  induction maxPieces generalizing src dst size with
  | zero =>
    obtain rfl := mem_singleton.mp he
    exact ⟨0, (add64_zero hsrc).symm, (Nat.zero_add _).le⟩
  | succ m ih =>
    rw [appendSplitInto] at he
    split_ifs at he with h
    · rcases mem_cons.mp he with rfl | he
      · exact ⟨0, (add64_zero hsrc).symm, by dsimp only; omega⟩
      · obtain ⟨off, hoff, hle⟩ := ih (add64_lt _ _) he
        refine ⟨kCopySplitBytes + off, ?_, ?_⟩
        · rw [hoff, add64_add64]
        · dsimp only at hle ⊢
          omega
    · obtain rfl := mem_singleton.mp he
      exact ⟨0, (add64_zero hsrc).symm, (Nat.zero_add _).le⟩

/-- **The pass that writes agrees with the pass that counts.** -/
lemma length_fillEntries (maxEntries : ℕ) (acc rs : List PlanEntry) :
    (fillEntries maxEntries acc rs).length
      = planEntries maxEntries acc.length (rs.map PlanEntry.size) := by
  induction rs generalizing acc with
  | nil => rfl
  | cons r rs ih =>
    rw [fillEntries, ih, length_append, length_appendSplitInto, map_cons, planEntries, length_map]

lemma bytes_fillEntries (maxEntries : ℕ) (acc rs : List PlanEntry) :
    (fillEntries maxEntries acc rs).flatMap PlanEntry.bytes
      = acc.flatMap PlanEntry.bytes ++ rs.flatMap PlanEntry.bytes := by
  induction rs generalizing acc with
  | nil => rw [fillEntries, flatMap_nil, append_nil]
  | cons r rs ih =>
    rw [fillEntries, ih, flatMap_append, bytes_appendSplitInto, flatMap_cons, append_assoc]
    rfl

lemma partOf_of_mem_fillEntries {maxEntries : ℕ} {acc rs : List PlanEntry}
    (hrs : ∀ r ∈ rs, r.src < 2 ^ 64) {e : PlanEntry} (he : e ∈ fillEntries maxEntries acc rs) :
    e ∈ acc ∨ ∃ r ∈ rs, e.PartOf r := by
  induction rs generalizing acc with
  | nil => exact .inl he
  | cons r rs ih =>
    obtain ⟨hr, hrs⟩ := forall_mem_cons.mp hrs
    rcases ih hrs he with hacc | ⟨q, hq, hpart⟩
    · rcases mem_append.mp hacc with hacc | hsplit
      · exact .inl hacc
      · exact .inr ⟨r, mem_cons_self, partOf_of_mem_appendSplitInto hr hsplit⟩
    · exact .inr ⟨q, mem_cons_of_mem r hq, hpart⟩

/-! ### The scatter -/

/-- A region of the receiver's arena, by its offset. -/
structure ScatterRegion where
  arenaLo : ℕ
  arenaBytes : ℕ
  offset : ℕ
  regionBytes : ℕ

def ScatterRegion.regionBase (g : ScatterRegion) : ℕ := add64 g.arenaLo g.offset

/-- The region is allocated and ends inside the arena. -/
def ScatterRegion.inArena (g : ScatterRegion) : Bool :=
  0 < g.regionBytes ∧ add64 g.regionBase g.regionBytes ≤ add64 g.arenaLo g.arenaBytes

/-- The bytes of the region from the first piece of a run to the end of the last; `count - 1` is
taken in 32 bits and the rest in 64. -/
def runSpan (e : BounceScatterRun) : ℕ :=
  add64 ((e.count + 2 ^ 32 - 1) % 2 ^ 32 * e.bounceStride % 2 ^ 64) e.pieceSize

/-- The check of one run against the region. -/
def runInBounds (regionBytes : ℕ) (e : BounceScatterRun) : Bool :=
  1 ≤ e.count ∧ e.bounceOffset ≤ regionBytes ∧ runSpan e ≤ regionBytes - e.bounceOffset

/-- `rawPieces`: the number of pieces of all runs, in 64 bits. -/
def rawPieces (runs : List BounceScatterRun) : ℕ :=
  runs.foldl (fun n e => add64 n (max e.count 1)) 0

/-- The inner loop of the exact-count pass; the state is `seen` and `nTotal`. -/
def countRun (maxEntries raw : ℕ) (st : ℕ × ℕ) (e : BounceScatterRun) : ℕ × ℕ :=
  (range e.count).foldl (fun st _ =>
    (st.1 + 1, st.2 + piecesFor e.pieceSize (splitBudget st.2 (raw - (st.1 + 1)) maxEntries))) st

/-- Piece number `p` of a run, as the fill pass addresses it. -/
def pieceOf (regionBase : ℕ) (e : BounceScatterRun) (p : ℕ) : PlanEntry :=
  { src := add64 (add64 regionBase e.bounceOffset) (p * e.bounceStride)
    dst := add64 e.dstAddr (p * e.dstStride)
    size := e.pieceSize }

/-- The inner loop of the fill pass; the state is `seen` and the entries written. -/
def fillRun (maxEntries raw regionBase : ℕ) (st : ℕ × List PlanEntry) (e : BounceScatterRun) :
    ℕ × List PlanEntry :=
  (range e.count).foldl (fun st p =>
    (st.1 + 1, st.2 ++ appendSplitInto (pieceOf regionBase e p).src (pieceOf regionBase e p).dst
      e.pieceSize (splitBudget st.2.length (raw - (st.1 + 1)) maxEntries))) st

/-- What the worker does with the runs of a DATA before the launch: the outcome of its checks,
the piece iterations of the exact-count pass and its total, and the entries written. -/
structure ScatterPlan where
  srcInBounds : Bool
  seen : ℕ
  nTotal : ℕ
  entries : List PlanEntry

/-- `scatterWorkerLoop`, from the checks to the launch. -/
def scatterPlan (g : ScatterRegion) (job : List BounceScatterRun) (maxEntries : ℕ) : ScatterPlan :=
  let n := job.length % 2 ^ 32
  let runs := job.take n
  let raw := rawPieces runs
  let srcInBounds := g.inArena && runs.all (runInBounds g.regionBytes) && decide (raw ≤ maxEntries)
  let counted := if srcInBounds then runs.foldl (countRun maxEntries raw) (0, 0) else (0, 0)
  { srcInBounds := srcInBounds
    seen := counted.1
    nTotal := counted.2
    entries :=
      if srcInBounds ∧ 0 < counted.2 ∧ counted.2 ≤ maxEntries then
        (runs.foldl (fillRun maxEntries raw g.regionBase) (0, [])).2
      else [] }

/-- The copies that a run stands for, out of the region at `base`. -/
def BounceScatterRun.bytesFrom (base : ℕ) (r : BounceScatterRun) : List (ℕ × ℕ) :=
  (range r.count).flatMap fun p =>
    copyBytes (add64 base (r.bounceOffset + p * r.bounceStride)) (add64 r.dstAddr (p * r.dstStride))
      r.pieceSize

section

variable (base : ℕ) (runs : List BounceScatterRun)

/-- All pieces of the runs, in the order of the passes. -/
def piecesOf : List PlanEntry :=
  runs.flatMap fun e => (range e.count).map (pieceOf base e)

lemma bytes_piecesOf :
    (piecesOf base runs).flatMap PlanEntry.bytes
      = runs.flatMap (BounceScatterRun.bytesFrom base) := by
  rw [piecesOf, flatMap_assoc]
  refine flatMap_congr fun e _ => ?_
  rw [flatMap_map, BounceScatterRun.bytesFrom]
  refine flatMap_congr fun p _ => ?_
  rw [PlanEntry.bytes, pieceOf, add64_add64]

lemma length_piecesOf :
    (piecesOf base runs).length = (runs.map BounceScatterRun.count).sum := by
  rw [piecesOf, length_flatMap]
  congr 1
  refine map_congr_left fun e _ => ?_
  rw [length_map, length_range]

end

lemma foldl_add64 (ns : List ℕ) (n : ℕ) (hn : n < 2 ^ 64) :
    ns.foldl add64 n = (n + ns.sum) % 2 ^ 64 := by
  induction ns generalizing n with
  | nil => exact (mod_eq_of_lt hn).symm
  | cons m ns ih =>
    rw [foldl_cons, ih _ (add64_lt _ _), add64, mod_add_mod, sum_cons, Nat.add_assoc]

section

variable (maxEntries raw base : ℕ) (runs : List BounceScatterRun)

/-- The count pass as one loop over the pieces. -/
lemma foldl_countRun (st : ℕ × ℕ) : runs.foldl (countRun maxEntries raw) st
      = (piecesOf base runs).foldl (fun st r =>
          (st.1 + 1, st.2 + piecesFor r.size (splitBudget st.2 (raw - (st.1 + 1)) maxEntries)))
            st := by
  rw [piecesOf, foldl_flatMap]
  congr 1
  funext st e
  rw [foldl_map, countRun]
  rfl

/-- The fill pass as one loop over the pieces. -/
lemma foldl_fillRun (st : ℕ × List PlanEntry) : runs.foldl (fillRun maxEntries raw base) st
      = (piecesOf base runs).foldl (fun st r =>
          (st.1 + 1, st.2 ++ appendSplitInto r.src r.dst r.size
            (splitBudget st.2.length (raw - (st.1 + 1)) maxEntries))) st := by
  rw [piecesOf, foldl_flatMap]
  congr 1
  funext st e
  rw [foldl_map, fillRun]
  rfl

end

/-- What is left to see is what is left of the list, in the pass that counts. -/
lemma countPass_eq (maxEntries : ℕ) (rs : List PlanEntry) (seen nTotal : ℕ) :
    rs.foldl (fun st r => (st.1 + 1, st.2 + piecesFor r.size
        (splitBudget st.2 (seen + rs.length - (st.1 + 1)) maxEntries))) (seen, nTotal)
      = (seen + rs.length, planEntries maxEntries nTotal (rs.map PlanEntry.size)) := by
  induction rs generalizing seen nTotal with
  | nil => rfl
  | cons r rs ih =>
    have hraw : seen + (r :: rs).length = seen + 1 + rs.length := by
      rw [length_cons]
      omega
    rw [foldl_cons, hraw, ih, map_cons, planEntries, length_map, Nat.add_sub_cancel_left]

/-- The same in the pass that writes. -/
lemma fillPass_eq (maxEntries : ℕ) (rs : List PlanEntry) (seen : ℕ) (acc : List PlanEntry) :
    rs.foldl (fun st r => (st.1 + 1, st.2 ++ appendSplitInto r.src r.dst r.size
        (splitBudget st.2.length (seen + rs.length - (st.1 + 1)) maxEntries))) (seen, acc)
      = (seen + rs.length, fillEntries maxEntries acc rs) := by
  induction rs generalizing seen acc with
  | nil => rfl
  | cons r rs ih =>
    have hraw : seen + (r :: rs).length = seen + 1 + rs.length := by
      rw [length_cons]
      omega
    rw [foldl_cons, hraw, ih, fillEntries, Nat.add_sub_cancel_left]

/-! ### Runs of a DATA -/

/-- The widths of the fields of a run. -/
lemma widths_of_fits {e : BounceScatterRun} (h : runLayout.Fits e) :
    e.bounceStride < 2 ^ 32 ∧ e.pieceSize < 2 ^ 32 ∧ e.count < 2 ^ 32 := by
  simp only [PackedStruct.Fits, FitWords, runLayout, forall₂_cons] at h
  exact ⟨h.2.2.2.1, h.2.2.2.2.1, h.2.2.2.2.2.1⟩

/-- **A run that passes the check reads inside the region only.**  Neither the product nor the
sum of its span leaves 64 bits. -/
lemma piece_inside {regionBytes : ℕ} {e : BounceScatterRun} (hfits : runLayout.Fits e)
    (h : runInBounds regionBytes e = true) {p : ℕ} (hp : p < e.count) :
    e.bounceOffset + p * e.bounceStride + e.pieceSize ≤ regionBytes := by
  obtain ⟨hstride, hsize, hcount⟩ := widths_of_fits hfits
  obtain ⟨hpos, hoff, hspan⟩ := of_decide_eq_true h
  have hsub : (e.count + 2 ^ 32 - 1) % 2 ^ 32 = e.count - 1 := by omega
  have hlast : p * e.bounceStride ≤ (e.count - 1) * e.bounceStride :=
    Nat.mul_le_mul_right _ (by omega)
  have hprod : (e.count - 1) * e.bounceStride ≤ (2 ^ 32 - 1) * (2 ^ 32 - 1) :=
    Nat.mul_le_mul (by omega) (by omega)
  rw [runSpan, hsub, mod_eq_of_lt (by omega), add64_eq_of_lt (by omega)] at hspan
  omega

/-- The number of pieces does not leave 64 bits either. -/
lemma rawPieces_eq {runs : List BounceScatterRun} (hfits : ∀ e ∈ runs, runLayout.Fits e)
    (hlen : runs.length < 2 ^ 32) (hpos : ∀ e ∈ runs, 1 ≤ e.count) :
    rawPieces runs = (runs.map BounceScatterRun.count).sum := by
  have hmax : runs.map (fun e => max e.count 1) = runs.map BounceScatterRun.count :=
    map_congr_left fun e he => Nat.max_eq_left (hpos e he)
  have hle : (runs.map BounceScatterRun.count).sum ≤ runs.length * (2 ^ 32 - 1) := by
    rw [← length_map BounceScatterRun.count]
    refine sum_le_card_nsmul _ _ fun n hn => ?_
    obtain ⟨e, he, rfl⟩ := mem_map.mp hn
    have := (widths_of_fits (hfits e he)).2.2
    omega
  have hlt : (runs.map BounceScatterRun.count).sum < 2 ^ 64 := by
    have : runs.length * (2 ^ 32 - 1) ≤ (2 ^ 32 - 1) * (2 ^ 32 - 1) :=
      Nat.mul_le_mul_right _ (by omega)
    omega
  calc rawPieces runs = (runs.map fun e => max e.count 1).foldl add64 0 := (foldl_map ..).symm
    _ = (0 + (runs.map BounceScatterRun.count).sum) % 2 ^ 64 := by
        rw [foldl_add64 _ _ (by decide), hmax]
    _ = (runs.map BounceScatterRun.count).sum := by rw [Nat.zero_add, mod_eq_of_lt hlt]

/-- What a scatter plan is for: within the capacity, reading inside the region, and the copies
of the runs; or nothing.  The range read by an entry is given by an offset of the region, and by
its ends where the region does not wrap around the end of memory. -/
structure ScatterPlan.Exact (g : ScatterRegion) (runs : List BounceScatterRun) (maxEntries : ℕ)
    (plan : ScatterPlan) : Prop where
  iterations : plan.seen ≤ maxEntries
  counted : plan.srcInBounds = true → plan.entries.length = plan.nTotal
  capacity : plan.srcInBounds = true → plan.nTotal ≤ maxEntries
  inside : ∀ e ∈ plan.entries, ∃ off, e.src = add64 g.regionBase off ∧ off + e.size ≤ g.regionBytes
  range : g.regionBase + g.regionBytes < 2 ^ 64 → ∀ e ∈ plan.entries,
    g.regionBase ≤ e.src ∧ e.src + e.size ≤ g.regionBase + g.regionBytes
  copies : plan.srcInBounds = true →
    plan.entries.flatMap PlanEntry.bytes = runs.flatMap (BounceScatterRun.bytesFrom g.regionBase)
  rejected : plan.srcInBounds = false → plan.entries = []

/-- At least one entry for each piece. -/
lemma le_planEntries (maxEntries : ℕ) (sizes : List ℕ) (n : ℕ) :
    n + sizes.length ≤ planEntries maxEntries n sizes := by
  induction sizes generalizing n with
  | nil => exact Nat.le_refl n
  | cons size sizes ih =>
    rw [planEntries, length_cons]
    refine le_trans ?_ (ih _)
    have : 1 ≤ piecesFor size (splitBudget n sizes.length maxEntries) :=
      le_min (le_max_right _ _) (le_max_right _ _)
    omega

lemma scatterPlan_exact (g : ScatterRegion) {job : List BounceScatterRun} (maxEntries : ℕ)
    (hfits : ∀ e ∈ job, runLayout.Fits e) (hlen : job.length < 2 ^ 32) :
    (scatterPlan g job maxEntries).Exact g job maxEntries := by
  have hn : job.take (job.length % 2 ^ 32) = job := by
    rw [mod_eq_of_lt hlen, take_length]
  unfold scatterPlan
  dsimp only
  rw [hn]
  cases hb : g.inArena && job.all (runInBounds g.regionBytes) && decide (rawPieces job ≤ maxEntries)
    with
  | false =>
    exact ⟨Nat.zero_le _, by simp, by simp, by simp, by simp, by simp, by simp⟩
  | true =>
    obtain ⟨hb, hraw⟩ := Bool.and_eq_true_iff.mp hb
    obtain ⟨-, hall⟩ := Bool.and_eq_true_iff.mp hb
    have hall := all_eq_true.mp hall
    have hraw := of_decide_eq_true hraw
    have hpos : ∀ e ∈ job, 1 ≤ e.count := fun e he => (of_decide_eq_true (hall e he)).1
    have hpieces : rawPieces job = (piecesOf g.regionBase job).length := by
      rw [rawPieces_eq hfits hlen hpos, length_piecesOf]
    -- both passes are loops over the pieces
    have hcount : job.foldl (countRun maxEntries (rawPieces job)) (0, 0)
        = (rawPieces job, planEntries maxEntries 0
            ((piecesOf g.regionBase job).map PlanEntry.size)) := by
      have := countPass_eq maxEntries (piecesOf g.regionBase job) 0 0
      rw [Nat.zero_add, ← hpieces] at this
      rw [foldl_countRun maxEntries (rawPieces job) g.regionBase, this]
    have hfill : (job.foldl (fillRun maxEntries (rawPieces job) g.regionBase) (0, [])).2
        = fillEntries maxEntries [] (piecesOf g.regionBase job) := by
      have := fillPass_eq maxEntries (piecesOf g.regionBase job) 0 []
      rw [Nat.zero_add, ← hpieces] at this
      rw [foldl_fillRun, this]
    generalize hrs : piecesOf g.regionBase job = rs at hpieces hcount hfill
    have hcap : planEntries maxEntries 0 (rs.map PlanEntry.size) ≤ maxEntries := by
      refine planEntries_le _ _ 0 ?_
      rw [Nat.zero_add, length_map]
      omega
    have hentries : (if (true : Bool) = true ∧ 0 < planEntries maxEntries 0 (rs.map PlanEntry.size)
          ∧ planEntries maxEntries 0 (rs.map PlanEntry.size) ≤ maxEntries
        then fillEntries maxEntries [] rs else []) = fillEntries maxEntries [] rs := by
      split_ifs with hc
      · rfl
      · have hzero : planEntries maxEntries 0 (rs.map PlanEntry.size) = 0 := by
          by_contra hne
          exact hc ⟨rfl, Nat.pos_of_ne_zero hne, hcap⟩
        have hle := le_planEntries maxEntries (rs.map PlanEntry.size) 0
        have : rs = [] := by
          rw [← length_eq_zero_iff]
          rw [length_map] at hle
          omega
        rw [this, fillEntries]
    rw [if_pos rfl, hcount, hfill]
    rw [hentries]
    have hinside : ∀ e ∈ fillEntries maxEntries [] rs,
        ∃ off, e.src = add64 g.regionBase off ∧ off + e.size ≤ g.regionBytes := by
      intro e he
      have hsrc : ∀ r ∈ rs, ∃ off, r.src = add64 g.regionBase off
          ∧ off + r.size ≤ g.regionBytes := by
        intro r hr
        rw [← hrs, piecesOf] at hr
        obtain ⟨q, hq, hr⟩ := mem_flatMap.mp hr
        obtain ⟨p, hp, rfl⟩ := mem_map.mp hr
        exact ⟨_, add64_add64 _ _ _, piece_inside (hfits q hq) (hall q hq) (mem_range.mp hp)⟩
      have hlt : ∀ r ∈ rs, r.src < 2 ^ 64 := by
        intro r hr
        obtain ⟨off, hoff, -⟩ := hsrc r hr
        exact hoff ▸ add64_lt _ _
      rcases partOf_of_mem_fillEntries hlt he with hnil | ⟨r, hr, off', hoff', hle'⟩
      · cases hnil
      · obtain ⟨off, hoff, hle⟩ := hsrc r hr
        refine ⟨off + off', ?_, by omega⟩
        rw [hoff', hoff, add64_add64]
    refine ⟨hraw, fun _ => ?_, fun _ => hcap, hinside, fun hwrap e he => ?_, fun _ => ?_, by simp⟩
    · exact length_fillEntries maxEntries [] rs
    · obtain ⟨off, hsrc, hle⟩ := hinside e he
      rw [add64_eq_of_lt (by omega)] at hsrc
      omega
    · rw [bytes_fillEntries, flatMap_nil, nil_append, ← hrs, bytes_piecesOf]

/-! ### The gather -/

/-- The raw pieces of the gather of a chunk into the region at `regionBase`. -/
def gatherPieces (regionBase : ℕ) (chunk : BounceChunk) : List PlanEntry :=
  (chunk.srcPtrs.zip (chunk.bounceOffsets.zip chunk.sizes)).map fun d =>
    { src := d.1, dst := add64 regionBase d.2.1, size := d.2.2 }

/-- The gather plan of `pumpRequest`: the count and the entries, or `none` when the flow is
abandoned for its capacity. -/
def gatherPlan (regionBase : ℕ) (chunk : BounceChunk)
    (maxEntries : ℕ) : Option (ℕ × List PlanEntry) :=
  let nDesc := chunk.srcPtrs.length % 2 ^ 32
  let nTotal := planEntries maxEntries 0 (chunk.sizes.take nDesc)
  if maxEntries < nTotal then none
  else some (nTotal, fillEntries maxEntries [] ((gatherPieces regionBase chunk).take nDesc))

/-- The copies that gather a chunk into its region. -/
def BounceChunk.gatherBytes (regionBase : ℕ) (c : BounceChunk) : List (ℕ × ℕ) :=
  c.stagedCopies.flatMap fun d => copyBytes d.src (add64 regionBase d.off) d.size

lemma gatherPlan_exact {regionBase maxBytes maxDescs maxEntries : ℕ} {chunk : BounceChunk}
    (hc : chunk.Within maxBytes maxDescs) (hlen : chunk.srcPtrs.length < 2 ^ 32) {nTotal : ℕ}
    {entries : List PlanEntry}
    (h : gatherPlan regionBase chunk maxEntries = some (nTotal, entries)) :
    entries.length = nTotal ∧ nTotal ≤ maxEntries
      ∧ entries.flatMap PlanEntry.bytes = chunk.gatherBytes regionBase := by
  have hpieces : (gatherPieces regionBase chunk).length = chunk.srcPtrs.length := by
    rw [gatherPieces, length_map, length_zip, length_zip, hc.bounceOffsets, hc.sizes]
    omega
  have hsizes : (gatherPieces regionBase chunk).map PlanEntry.size = chunk.sizes := by
    have hle : (chunk.bounceOffsets.zip chunk.sizes).length = chunk.srcPtrs.length := by
      rw [length_zip, hc.bounceOffsets, hc.sizes, Nat.min_self]
    calc (gatherPieces regionBase chunk).map PlanEntry.size
        = ((chunk.srcPtrs.zip (chunk.bounceOffsets.zip chunk.sizes)).map Prod.snd).map
          Prod.snd := by
          rw [gatherPieces, map_map, map_map]
          rfl
      _ = chunk.sizes := by
          rw [map_snd_zip hle.le, map_snd_zip (hc.sizes.trans hc.bounceOffsets.symm).le]
  have htake : (gatherPieces regionBase chunk).take chunk.srcPtrs.length
      = gatherPieces regionBase chunk := take_of_length_le hpieces.le
  have htakeSizes : chunk.sizes.take chunk.srcPtrs.length = chunk.sizes :=
    take_of_length_le hc.sizes.le
  unfold gatherPlan at h
  dsimp only at h
  rw [mod_eq_of_lt hlen, htake, htakeSizes] at h
  split_ifs at h with hcap
  obtain ⟨rfl, rfl⟩ := Prod.mk.inj (Option.some.inj h)
  refine ⟨?_, by omega, ?_⟩
  · rw [length_fillEntries, hsizes, length_nil]
  · rw [bytes_fillEntries, flatMap_nil, nil_append, BounceChunk.gatherBytes, gatherPieces,
      BounceChunk.stagedCopies, flatMap_map, flatMap_map]
    rfl

end TrtLlm
