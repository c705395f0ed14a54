import TrtLlm.Util.PyDict

/-!
`RingMapper`: the copy of a token ring between two rings of different sizes
(`native/mixers/attention/peer.py`).

The token at position `p` is in slot `p % n` of a ring of `n` slots.  A range of positions is cut
wherever one of the rings wraps, and each piece is one contiguous copy for every layer; the copies
are grouped by their length.  Addresses are numbers without an upper bound.

* `length_slotRuns_le`: at most three pieces, since a range meets at most one wrap of each ring;
* `flatMap_slotRuns`: the pieces are the positions of the range, in order;
* `mapPositions_copies`: **every position is copied once**, from its slot to its slot.
-/

namespace TrtLlm

open List Function Nat UMap

/-- `RingMapper`, with the checks of its constructor. -/
structure RingMapper where
  srcLayerOffsets : List ℕ
  dstLayerOffsets : List ℕ
  slotBytes : ℕ
  srcNumSlots : ℕ
  dstNumSlots : ℕ
  layers_ne : srcLayerOffsets ≠ []
  layers_eq : srcLayerOffsets.length = dstLayerOffsets.length
  slotBytes_pos : 0 < slotBytes
  srcNumSlots_pos : 0 < srcNumSlots
  dstNumSlots_pos : 0 < dstNumSlots

/-- A `SpecRegionPair`: groups of regions of one size, paired one to one. -/
structure RegionPair where
  srcPtrs : List ℕ
  dstPtrs : List ℕ
  bytesPerRegion : ℕ
deriving DecidableEq

namespace RingMapper

/-- The constructor; `none` when it raises. -/
def new (srcLayerOffsets dstLayerOffsets : List ℕ) (slotBytes srcNumSlots dstNumSlots : ℕ) :
    Option RingMapper :=
  if hlayers : srcLayerOffsets ≠ [] ∧ srcLayerOffsets.length = dstLayerOffsets.length then
    if hpos : 0 < slotBytes ∧ 0 < srcNumSlots ∧ 0 < dstNumSlots then
      some ⟨srcLayerOffsets, dstLayerOffsets, slotBytes, srcNumSlots, dstNumSlots, hlayers.1,
        hlayers.2, hpos.1, hpos.2.1, hpos.2.2⟩
    else none
  else none

variable (m : RingMapper)

/-- How many of the last positions both rings hold. -/
def retainedPositions : ℕ := min m.srcNumSlots m.dstNumSlots

/-- The length of the run that starts at a position. -/
def runLength (position stop : ℕ) : ℕ :=
  min (stop - position) (min (m.srcNumSlots - position % m.srcNumSlots)
    (m.dstNumSlots - position % m.dstNumSlots))

variable {m} in
variable {byLength : Parts} {position stop : ℕ}

lemma runLength_pos {position stop : ℕ} (h : position < stop) : 0 < m.runLength position stop := by
  have hsrc := mod_lt position m.srcNumSlots_pos
  have hdst := mod_lt position m.dstNumSlots_pos
  rw [runLength]
  omega

/-- `_slot_runs`: the runs of the positions from `position` to `stop`, each with its source slot,
its destination slot and its number of slots. -/
def slotRuns (position stop : ℕ) : List (ℕ × ℕ × ℕ) :=
  if _h : position < stop then
    (position % m.srcNumSlots, position % m.dstNumSlots, m.runLength position stop)
      :: slotRuns (position + m.runLength position stop) stop
  else []
termination_by stop - position
decreasing_by
  have := @runLength_pos m position stop _h
  omega

/-- The parts of the copies, by the length of their runs. -/
abbrev Parts := UMap ℕ (List (List ℕ) × List (List ℕ))

/-- `by_length.setdefault`, and a part of each list added. -/
def addPart (byLength : Parts) (length : ℕ) (srcPart dstPart : List ℕ) : Parts :=
  let parts := (byLength.find? length).getD ([], [])
  byLength.assign length (parts.1 ++ [srcPart], parts.2 ++ [dstPart])

/-- One run of a block pair, in all layers. -/
def addRun (srcBase dstBase : ℕ) (byLength : Parts) (run : ℕ × ℕ × ℕ) : Parts :=
  addPart byLength run.2.2 (m.srcLayerOffsets.map fun offset =>
    srcBase + offset + run.1 * m.slotBytes)
    (m.dstLayerOffsets.map fun offset => dstBase + offset + run.2.1 * m.slotBytes)

/-- A source block, the destination block it is paired with, and the positions to move. -/
structure Block where
  srcBase : ℕ
  dstBase : ℕ
  start : ℕ
  stop : ℕ
deriving DecidableEq

/-- The loop of `map_positions`; `none` for a range that the rings cannot hold. -/
def collect : List Block → Parts → Option Parts
  | [], byLength => some byLength
  | b :: blocks, byLength =>
    if m.retainedPositions < b.stop - b.start then none
    else collect blocks ((m.slotRuns b.start b.stop).foldl (m.addRun b.srcBase b.dstBase) byLength)

section

variable (srcBlockPtrs dstBlockPtrs : List ℕ) (positionRanges : List (ℕ × ℕ))

/-- The blocks and ranges that `zip` pairs. -/
def blocksOf : List Block :=
  (srcBlockPtrs.zip (dstBlockPtrs.zip positionRanges)).map fun e => ⟨e.1, e.2.1, e.2.2.1, e.2.2.2⟩

/-- `map_positions`. -/
def mapPositions :
    Option (List RegionPair) :=
  if ¬ (srcBlockPtrs.length = dstBlockPtrs.length
      ∧ dstBlockPtrs.length = positionRanges.length) then
    none
  else
    (m.collect (blocksOf srcBlockPtrs dstBlockPtrs positionRanges) ∅).map fun byLength =>
      (byLength.entries.mergeSort fun e e' => e.1 ≤ e'.1).map fun e =>
        ⟨e.2.1.flatten, e.2.2.flatten, e.1 * m.slotBytes⟩

end

/-! ### The runs of a range -/

/-- How many wraps of a ring of `n` slots lie strictly between two positions. -/
def wraps (n position stop : ℕ) : ℕ := (stop - 1) / n - position / n

/-- A run that does not end its range ends at a wrap. -/
lemma wrap_of_runLength (h : position + m.runLength position stop < stop) :
    (position + m.runLength position stop) / m.srcNumSlots = position / m.srcNumSlots + 1
      ∨ (position + m.runLength position stop) / m.dstNumSlots = position / m.dstNumSlots + 1 := by
  have hwrap : ∀ n, 0 < n → (position + (n - position % n)) / n = position / n + 1 := by
    intro n hn
    have hmod := mod_lt position hn
    have hsplit := div_add_mod position n
    have heq : position + (n - position % n) = n * (position / n + 1) := by
      rw [Nat.mul_add, Nat.mul_one]
      omega
    rw [heq, Nat.mul_div_cancel_left _ hn]
  have hlen : m.runLength position stop = m.srcNumSlots - position % m.srcNumSlots
      ∨ m.runLength position stop = m.dstNumSlots - position % m.dstNumSlots := by
    rw [runLength] at h ⊢
    omega
  rcases hlen with hlen | hlen
  · rw [hlen]
    exact .inl (hwrap _ m.srcNumSlots_pos)
  · rw [hlen]
    exact .inr (hwrap _ m.dstNumSlots_pos)

/-- There is one run more than there are wraps, or fewer. -/
lemma length_slotRuns_le_wraps (position stop : ℕ) : (m.slotRuns position stop).length
      ≤ wraps m.srcNumSlots position stop + wraps m.dstNumSlots position stop + 1 := by
  fun_induction slotRuns m position stop with
  | case1 position hlt ih =>
    rw [length_cons]
    by_cases hmore : position + m.runLength position stop < stop
    · have hwrap := m.wrap_of_runLength hmore
      have hmono : ∀ n, position / n ≤ (position + m.runLength position stop) / n
          ∧ (position + m.runLength position stop) / n ≤ (stop - 1) / n := fun n =>
        ⟨Nat.div_le_div_right (Nat.le_add_right _ _), Nat.div_le_div_right (by omega)⟩
      have hsrc := hmono m.srcNumSlots
      have hdst := hmono m.dstNumSlots
      rw [wraps, wraps] at ih ⊢
      omega
    · rw [slotRuns, dif_neg hmore]
      simp
  | case2 position hge => simp

/-- **At most three runs.** -/
lemma length_slotRuns_le {start : ℕ} (h : stop - start ≤ m.retainedPositions) :
    (m.slotRuns start stop).length ≤ 3 := by
  have hone : ∀ n, stop - start ≤ n → 0 < n → wraps n start stop ≤ 1 := by
    intro n hle hn
    have hdiv : (stop - 1) / n ≤ (start + n) / n := Nat.div_le_div_right (by omega)
    rw [add_div_right _ hn] at hdiv
    rw [wraps]
    omega
  have hle := m.length_slotRuns_le_wraps start stop
  rw [retainedPositions] at h
  have hsrc := hone m.srcNumSlots (by omega) m.srcNumSlots_pos
  have hdst := hone m.dstNumSlots (by omega) m.dstNumSlots_pos
  omega

/-- A run stays in both rings, and its slots are those of its positions. -/
lemma slot_of_lt_runLength {i : ℕ} (hi : i < m.runLength position stop) :
    position % m.srcNumSlots + i = (position + i) % m.srcNumSlots
      ∧ position % m.dstNumSlots + i = (position + i) % m.dstNumSlots := by
  have hslot : ∀ n, i < n - position % n → position % n + i = (position + i) % n := by
    intro n hlt
    rw [add_mod, mod_eq_of_lt (show i < n by omega),
      mod_eq_of_lt (show position % n + i < n by omega)]
  rw [runLength] at hi
  exact ⟨hslot _ (by omega), hslot _ (by omega)⟩

/-- The slots of a run, from the first one on. -/
def runSlots (run : ℕ × ℕ × ℕ) : List (ℕ × ℕ) :=
  (range run.2.2).map fun i => (run.1 + i, run.2.1 + i)

/-- **The runs are the positions of the range**, in order, each with its two slots. -/
lemma flatMap_slotRuns (position stop : ℕ) : (m.slotRuns position stop).flatMap runSlots
      = (range' position (stop - position)).map fun p =>
        (p % m.srcNumSlots, p % m.dstNumSlots) := by
  fun_induction slotRuns m position stop with
  | case1 position hlt ih =>
    have hle : m.runLength position stop ≤ stop - position := by
      rw [runLength]
      omega
    have hfirst :
        runSlots (position % m.srcNumSlots, position % m.dstNumSlots, m.runLength position stop)
        = (range' position (m.runLength position stop)).map
          fun p => (p % m.srcNumSlots, p % m.dstNumSlots) := by
      rw [runSlots, range'_eq_map_range, map_map]
      refine map_congr_left fun i hi => ?_
      obtain ⟨hsrc, hdst⟩ := m.slot_of_lt_runLength (mem_range.mp hi)
      exact Prod.ext hsrc hdst
    rw [flatMap_cons, ih, hfirst, ← map_append, ← Nat.sub_sub, range'_append_1,
      Nat.add_sub_cancel' hle]
  | case2 position hge =>
    rw [Nat.sub_eq_zero_of_le (Nat.not_lt.mp hge)]
    rfl

lemma slotRuns_within {run : ℕ × ℕ × ℕ} (h : run ∈ m.slotRuns position stop) :
    run.1 + run.2.2 ≤ m.srcNumSlots ∧ run.2.1 + run.2.2 ≤ m.dstNumSlots := by
  fun_induction slotRuns m position stop with
  | case1 position hlt ih =>
    rcases mem_cons.mp h with rfl | h
    · have hsrc := mod_lt position m.srcNumSlots_pos
      have hdst := mod_lt position m.dstNumSlots_pos
      dsimp only
      rw [runLength]
      omega
    · exact ih h
  | case2 position hge => exact absurd h not_mem_nil

/-! ### The copies -/

/-- A contiguous copy. -/
structure Fragment where
  src : ℕ
  dst : ℕ
  size : ℕ
deriving DecidableEq

/-- The byte moves of a copy. -/
def Fragment.bytes (f : Fragment) : List (ℕ × ℕ) :=
  (range f.size).map fun k => (f.src + k, f.dst + k)

/-- The copies that a pair of region groups stands for. -/
def fragments (pair : RegionPair) : List Fragment :=
  (pair.srcPtrs.zip pair.dstPtrs).map fun e => ⟨e.1, e.2, pair.bytesPerRegion⟩

/-- The offsets of each layer in its source block and in its destination block. -/
def layers : List (ℕ × ℕ) := m.srcLayerOffsets.zip m.dstLayerOffsets

section

variable (b : Block) (layer : ℕ × ℕ)

/-- One run of a block pair in one layer. -/
def runFragment (run : ℕ × ℕ × ℕ) : Fragment :=
  ⟨b.srcBase + layer.1 + run.1 * m.slotBytes, b.dstBase + layer.2 + run.2.1 * m.slotBytes,
    run.2.2 * m.slotBytes⟩

/-- The copies of a block pair in one layer. -/
def ringFragments : List Fragment :=
  (m.slotRuns b.start b.stop).map (m.runFragment b layer)

/-- The bytes of one position of a block pair in one layer: from its source slot to its destination
slot. -/
def positionBytes (p : ℕ) : List (ℕ × ℕ) :=
  Fragment.bytes ⟨b.srcBase + layer.1 + p % m.srcNumSlots * m.slotBytes,
    b.dstBase + layer.2 + p % m.dstNumSlots * m.slotBytes, m.slotBytes⟩

end

/-- What the copies of a block pair in one layer do: there are at most three, they move the bytes of
every position of the range once and in order, they stay in the rings, and no two positions share a
destination slot. -/
structure MovesRing (b : Block) (layer : ℕ × ℕ) (copies : List Fragment) : Prop where
  few : copies.length ≤ 3
  moves : copies.flatMap Fragment.bytes
    = (range' b.start (b.stop - b.start)).flatMap (m.positionBytes b layer)
  within : ∀ f ∈ copies,
    b.srcBase + layer.1 ≤ f.src ∧ f.src + f.size ≤ b.srcBase + layer.1 + m.srcNumSlots * m.slotBytes
    ∧ b.dstBase + layer.2 ≤ f.dst ∧ f.dst + f.size
      ≤ b.dstBase + layer.2 + m.dstNumSlots * m.slotBytes
  apart : ∀ p q, b.start ≤ p → p < b.stop → b.start ≤ q → q < b.stop →
    p % m.dstNumSlots = q % m.dstNumSlots → p = q

/-- The bytes of a run are those of its slots. -/
lemma bytes_runFragment (b : Block) (layer : ℕ × ℕ) (run : ℕ × ℕ × ℕ) :
    (m.runFragment b layer run).bytes
      = (runSlots run).flatMap fun slots => Fragment.bytes
        ⟨b.srcBase + layer.1 + slots.1 * m.slotBytes, b.dstBase + layer.2 + slots.2 * m.slotBytes,
          m.slotBytes⟩ := by
  obtain ⟨srcSlot, dstSlot, n⟩ := run
  rw [runSlots, runFragment, Fragment.bytes, flatMap_map]
  induction n with
  | zero => simp
  | succ n ih =>
    rw [succ_mul, range_add, map_append, ih, range_succ, flatMap_append,
      flatMap_singleton, Fragment.bytes, map_map]
    congr 1
    refine map_congr_left fun k _ => Prod.ext ?_ ?_
    · dsimp only [comp_apply]
      rw [Nat.add_mul]
      omega
    · dsimp only [comp_apply]
      rw [Nat.add_mul]
      omega

/-- Positions closer than the size of a ring have different slots. -/
lemma eq_of_mod_eq {n p q : ℕ} (hpq : p ≤ q) (hclose : q - p < n) (h : p % n = q % n) : p = q := by
  have hdvd : n ∣ q - p := (modEq_iff_dvd' hpq).mp h
  have hzero := eq_zero_of_dvd_of_lt hdvd hclose
  omega

/-- **The copies of a range** in one layer. -/
lemma movesRing (b : Block) (layer : ℕ × ℕ) (h : b.stop - b.start ≤ m.retainedPositions) :
    m.MovesRing b layer (m.ringFragments b layer) := by
  refine ⟨?_, ?_, fun f hf => ?_, fun p q hp hp' hq hq' heq => ?_⟩
  · rw [ringFragments, length_map]
    exact m.length_slotRuns_le h
  · rw [ringFragments, flatMap_map]
    calc (m.slotRuns b.start b.stop).flatMap (fun run => (m.runFragment b layer run).bytes)
        = ((m.slotRuns b.start b.stop).flatMap runSlots).flatMap fun slots => Fragment.bytes
            ⟨b.srcBase + layer.1 + slots.1 * m.slotBytes,
              b.dstBase + layer.2 + slots.2 * m.slotBytes, m.slotBytes⟩ := by
          rw [flatMap_assoc]
          exact flatMap_congr fun run _ => m.bytes_runFragment b layer run
      _ = (range' b.start (b.stop - b.start)).flatMap (m.positionBytes b layer) := by
          rw [flatMap_slotRuns, flatMap_map]
          rfl
  · obtain ⟨run, hrun, rfl⟩ := mem_map.mp hf
    obtain ⟨hsrc, hdst⟩ := m.slotRuns_within hrun
    have hsrc' := Nat.mul_le_mul_right m.slotBytes hsrc
    have hdst' := Nat.mul_le_mul_right m.slotBytes hdst
    rw [Nat.add_mul] at hsrc' hdst'
    dsimp only [runFragment]
    omega
  · rw [retainedPositions] at h
    rcases Nat.le_total p q with hpq | hpq
    · exact eq_of_mod_eq hpq (by omega) heq
    · exact (eq_of_mod_eq hpq (by omega) heq.symm).symm

/-! ### The groups -/

/-- The copies that the parts stand for. -/
def partFragments (byLength : Parts) : List Fragment :=
  byLength.entries.flatMap fun e => (e.2.1.flatten.zip e.2.2.flatten).map
    fun ptrs => ⟨ptrs.1, ptrs.2, e.1 * m.slotBytes⟩

/-- The two lists of parts of each length pair up. -/
def Paired (byLength : Parts) : Prop :=
  ∀ length parts, byLength.find? length = some parts →
    parts.1.flatten.length = parts.2.flatten.length

lemma paired_getD (h : Paired byLength) (length : ℕ) :
    ((byLength.find? length).getD ([], [])).1.flatten.length
      = ((byLength.find? length).getD ([], [])).2.flatten.length := by
  cases hfind : byLength.find? length with
  | none => rfl
  | some parts => exact h length parts hfind

lemma paired_addPart (h : Paired byLength) (length : ℕ) {srcPart dstPart : List ℕ}
    (hpart : srcPart.length = dstPart.length) :
    Paired (addPart byLength length srcPart dstPart) := by
  intro length' parts hfind
  rw [addPart, find?_assign] at hfind
  split_ifs at hfind with heq
  · obtain rfl := Option.some.inj hfind
    simp only [flatten_append, length_append, paired_getD h, flatten_cons, hpart,
      flatten_nil, append_nil]
  · exact h length' parts hfind

/-- An assignment puts one entry in the place of the old one. -/
lemma entries_assign_perm (byLength : Parts) (length : ℕ) (parts : List (List ℕ) × List (List ℕ)) :
    (byLength.assign length parts).entries.Perm
      ((length, parts) :: (byLength.erase length).entries) := by
  have hfind : (byLength.assign length parts).find? length = some parts := by
    rw [find?_assign, if_pos rfl]
  refine (entries_perm hfind).trans (Perm.cons _ ?_)
  by_cases hmem : length ∈ byLength
  · rw [assign, dif_pos hmem, erase, erase, mapVal]
    dsimp only
    rw [filter_map]
    have hcomp : ((fun e : ℕ × (List (List ℕ) × List (List ℕ)) => decide (e.1 ≠ length))
        ∘ fun e : ℕ × (List (List ℕ) × List (List ℕ)) => (e.1, if e.1 = length then parts else e.2))
        = fun e => decide (e.1 ≠ length) := by
      funext e
      rfl
    rw [hcomp]
    refine Perm.of_eq ((map_congr_left fun e he => ?_).trans (map_id _))
    have hne : e.1 ≠ length := of_decide_eq_true (mem_filter.mp he).2
    rw [if_neg hne]
    rfl
  · rw [assign, dif_neg hmem, erase, erase]
    dsimp only
    rw [filter_append]
    simp

/-- One part more. -/
lemma partFragments_addPart (h : Paired byLength) (length : ℕ) {srcPart dstPart : List ℕ} :
    (m.partFragments (addPart byLength length srcPart dstPart)).Perm
      (m.partFragments byLength ++ (srcPart.zip dstPart).map
        fun ptrs => ⟨ptrs.1, ptrs.2, length * m.slotBytes⟩) := by
  set parts := (byLength.find? length).getD ([], []) with hparts
  have hlen : parts.1.flatten.length = parts.2.flatten.length := paired_getD h length
  set ofParts : ℕ × (List (List ℕ) × List (List ℕ)) → List Fragment := fun e =>
    (e.2.1.flatten.zip e.2.2.flatten).map fun ptrs => ⟨ptrs.1, ptrs.2, e.1 * m.slotBytes⟩ with hof
  have hold : (m.partFragments byLength).Perm
      (ofParts (length, parts) ++ (byLength.erase length).entries.flatMap ofParts) := by
    cases hfind : byLength.find? length with
    | none =>
      have hnil : parts = ([], []) := by rw [hparts, hfind]; rfl
      rw [hnil, UMap.erase_of_not_mem (find?_eq_none_iff.mp hfind)]
      exact Perm.refl _
    | some old =>
      have hsome : parts = old := by rw [hparts, hfind]; rfl
      rw [hsome, ← flatMap_cons]
      exact (entries_perm hfind).flatMap_right ofParts
  have hnew : (m.partFragments (addPart byLength length srcPart dstPart)).Perm
      (ofParts (length, (parts.1 ++ [srcPart], parts.2 ++ [dstPart]))
        ++ (byLength.erase length).entries.flatMap ofParts) := by
    rw [← flatMap_cons]
    exact (entries_assign_perm byLength length _).flatMap_right ofParts
  have hadd : ofParts (length, (parts.1 ++ [srcPart], parts.2 ++ [dstPart]))
      = ofParts (length, parts) ++ (srcPart.zip dstPart).map
        fun ptrs => ⟨ptrs.1, ptrs.2, length * m.slotBytes⟩ := by
    simp only [hof, flatten_append, flatten_cons, flatten_nil, append_nil]
    rw [zip_append hlen, map_append]
  rw [hadd] at hnew
  refine hnew.trans ?_
  rw [append_assoc]
  refine ((perm_append_comm).append_left _).trans ?_
  rw [← append_assoc]
  exact hold.symm.append_right _

/-- **One run more**, in every layer. -/
lemma partFragments_addRun (h : Paired byLength) (b : Block) (run : ℕ × ℕ × ℕ) :
    Paired (m.addRun b.srcBase b.dstBase byLength run)
      ∧ (m.partFragments (m.addRun b.srcBase b.dstBase byLength run)).Perm
        (m.partFragments byLength ++ m.layers.map fun layer => m.runFragment b layer run) := by
  constructor
  · refine paired_addPart h _ ?_
    rw [length_map, length_map, m.layers_eq]
  · refine (m.partFragments_addPart h _).trans (Perm.of_eq ?_)
    rw [zip_map, map_map]
    rfl

lemma partFragments_runs (b : Block) (runs : List (ℕ × ℕ × ℕ)) :
    ∀ {byLength : Parts}, Paired byLength →
    Paired (runs.foldl (m.addRun b.srcBase b.dstBase) byLength)
      ∧ (m.partFragments (runs.foldl (m.addRun b.srcBase b.dstBase) byLength)).Perm
        (m.partFragments byLength
          ++ runs.flatMap fun run => m.layers.map fun layer => m.runFragment b layer run) := by
  induction runs with
  | nil =>
    intro byLength h
    exact ⟨h, by simp⟩
  | cons run runs ih =>
    intro byLength h
    obtain ⟨hpaired, hperm⟩ := m.partFragments_addRun h b run
    obtain ⟨hpaired', hperm'⟩ := ih hpaired
    refine ⟨hpaired', hperm'.trans ?_⟩
    rw [flatMap_cons, ← append_assoc]
    exact hperm.append_right _

/-- The copies run by run are the copies layer by layer. -/
lemma layers_perm (b : Block) (layers : List (ℕ × ℕ)) (runs : List (ℕ × ℕ × ℕ)) :
    (runs.flatMap fun run => layers.map fun layer => m.runFragment b layer run).Perm
      (layers.flatMap fun layer => runs.map (m.runFragment b layer)) := by
  induction runs with
  | nil => simp
  | cons run runs ih =>
    rw [flatMap_cons]
    refine (ih.append_left _).trans ?_
    exact map_append_flatMap_perm _ _ _

/-- **The loop of `map_positions`**, for ranges that the rings hold. -/
lemma partFragments_collect (blocks : List Block)
    (h : ∀ b ∈ blocks, b.stop - b.start ≤ m.retainedPositions) :
    ∀ {byLength : Parts}, Paired byLength →
    ∃ parts, m.collect blocks byLength = some parts
      ∧ (m.partFragments parts).Perm (m.partFragments byLength
        ++ blocks.flatMap fun b => m.layers.flatMap (m.ringFragments b)) := by
  induction blocks with
  | nil =>
    intro byLength _
    exact ⟨byLength, rfl, by simp⟩
  | cons b blocks ih =>
    intro byLength hpaired
    obtain ⟨hb, hblocks⟩ := forall_mem_cons.mp h
    obtain ⟨hpaired', hperm⟩ := m.partFragments_runs b (m.slotRuns b.start b.stop) hpaired
    obtain ⟨parts, hparts, hperm'⟩ := ih hblocks hpaired'
    refine ⟨parts, ?_, hperm'.trans ?_⟩
    · rw [collect, if_neg (Nat.not_lt.mpr hb), hparts]
    · rw [flatMap_cons, ← append_assoc]
      refine Perm.append_right _ (hperm.trans (Perm.append_left _ ?_))
      exact m.layers_perm b m.layers (m.slotRuns b.start b.stop)

/-- **The copies of `map_positions`.** Ranges that the rings hold are accepted, and the copies are,
for every block pair and every layer, at most three contiguous ones that move each position of the
range once, from its source slot to its destination slot and within the rings. -/
theorem mapPositions_copies {srcBlockPtrs dstBlockPtrs : List ℕ} {positionRanges : List (ℕ × ℕ)}
    (hlen : srcBlockPtrs.length = dstBlockPtrs.length ∧ dstBlockPtrs.length = positionRanges.length)
    (hrange : ∀ range ∈ positionRanges, range.2 - range.1 ≤ m.retainedPositions) :
    ∃ pairs, m.mapPositions srcBlockPtrs dstBlockPtrs positionRanges = some pairs
      ∧ (pairs.flatMap fragments).Perm ((blocksOf srcBlockPtrs dstBlockPtrs positionRanges).flatMap
        fun b => m.layers.flatMap (m.ringFragments b))
      ∧ ∀ b ∈ blocksOf srcBlockPtrs dstBlockPtrs positionRanges, ∀ layer ∈ m.layers,
        m.MovesRing b layer (m.ringFragments b layer) := by
  have hblocks : ∀ b ∈ blocksOf srcBlockPtrs dstBlockPtrs positionRanges,
      b.stop - b.start ≤ m.retainedPositions := by
    intro b hb
    obtain ⟨e, he, rfl⟩ := mem_map.mp hb
    exact hrange _ (of_mem_zip (of_mem_zip he).2).2
  have hempty : Paired ∅ := by
    intro length parts hfind
    rw [find?_empty] at hfind
    cases hfind
  obtain ⟨parts, hparts, hperm⟩ := m.partFragments_collect _ hblocks hempty
  refine ⟨(parts.entries.mergeSort fun e e' => e.1 ≤ e'.1).map fun e =>
    ⟨e.2.1.flatten, e.2.2.flatten, e.1 * m.slotBytes⟩, ?_, ?_, fun b hb layer _ =>
    m.movesRing b layer (hblocks b hb)⟩
  · rw [mapPositions, if_neg (not_not_intro hlen), hparts]
    rfl
  · rw [flatMap_map]
    exact ((mergeSort_perm parts.entries _).flatMap_right _).trans hperm

/-- A ring of five slots and one of six, in two layers; the positions from four to seven are three
runs. -/
def fiveToSix : RingMapper :=
  ⟨[0, 40], [100, 148], 8, 5, 6, by decide, by decide, by decide, by decide, by decide⟩

theorem mapPositions_copies_fiveToSix :
    ∃ pairs, fiveToSix.mapPositions [1000] [2000] [(4, 8)] = some pairs
      ∧ (pairs.flatMap fragments).Perm ((blocksOf [1000] [2000] [(4, 8)]).flatMap
        fun b => fiveToSix.layers.flatMap (fiveToSix.ringFragments b))
      ∧ ∀ b ∈ blocksOf [1000] [2000] [(4, 8)], ∀ layer ∈ fiveToSix.layers,
        fiveToSix.MovesRing b layer (fiveToSix.ringFragments b layer) :=
  fiveToSix.mapPositions_copies (by decide) (by decide)

end RingMapper

end TrtLlm
