import Mathlib.Tactic

/-!
The rows of a blob submission, the driver calls they are cut into and the results the driver
reports for them (`disaggregation/blob/backend.py`, `store.py`).

* `RowResult`, `CallResults`: the logical result of a row, and the results of a call as an attempt
  records them;
* `GroupRows`, `callBounds`, `callRanges`: the rows of a layer group are cut into runs of at most
  the number of rows that the driver takes in one call, and before a key that the run names already;
* `callRanges_partition`, `callRanges_within`: the runs cover every row once and in order, and keep
  the limit and the distinct keys.

An object key is the list of its bytes.
-/

namespace TrtLlm.Blob

open List

/-! ### Results -/

/-- A fault text is given exactly for faults. -/
inductive RowResult
  | pending
  | ready
  | miss
  | notReady
  | declined
  | cancelled
  | fault (reason : String)
deriving DecidableEq, Repr

namespace RowResult

def concluded (r : RowResult) : Bool := r ≠ pending

def fault? : RowResult → Option String
  | fault reason => some reason
  | _ => none

end RowResult

def concluded (results : List RowResult) : Bool := results.all RowResult.concluded

/-- `_CallResults`: whether each row is ready, and the first row that faulted with its reason. -/
structure CallResults where
  ready : List Bool
  firstFault : Option (ℕ × String)
deriving DecidableEq, Repr

namespace CallResults

def noneDelivered (rows : ℕ) (fault : Option String) : CallResults where
  ready := replicate rows false
  firstFault := fault.map fun reason => (0, reason)

def of (results : List RowResult) : CallResults :=
  let ready := results.map fun r => decide (r = .ready)
  if ready.all id then ⟨ready, none⟩
  else ⟨ready, results.zipIdx.findSome? fun r => r.1.fault?.map fun reason => (r.2, reason)⟩

@[simp] lemma ready_of (results : List RowResult) :
    (of results).ready = results.map fun r => decide (r = .ready) := by
  simp only [of]
  split_ifs <;> rfl

end CallResults

/-! ### Cutting a group into calls -/

/-- The rows of one layer group. -/
structure GroupRows where
  objectKeys : List (List UInt8)
  addresses : List ℤ
  regionIndex : ℕ
deriving DecidableEq, Repr

section Bounds

variable {κ : Type*} [DecidableEq κ]

/-- The loop of `_call_bounds` over rows with a repeated key, from the row `index` on, inside a run
that began at `start` and has seen the keys `seen`. -/
def cutBounds (step : ℕ) : List κ → ℕ → ℕ → List κ → List (ℕ × ℕ)
  | [], index, start, _ => [(start, index)]
  | key :: rest, index, start, seen =>
    if index - start = step ∨ key ∈ seen then
      (start, index) :: cutBounds step rest (index + 1) index [key]
    else cutBounds step rest (index + 1) start (seen ++ [key])

/-- `_call_bounds`. -/
def callBounds (rows : List κ) (step : ℕ) : List (ℕ × ℕ) :=
  if rows = [] then []
  else if rows.Nodup then
    (range ((rows.length + step - 1) / step)).map fun i =>
      (i * step, min (i * step + step) rows.length)
  else cutBounds step rows 0 0 []

end Bounds

/-- The limit of a group: `self._max_rows_per_op or max(len(group_rows.addresses), 1)`. -/
def rowsPerCall (maxRowsPerOp : Option ℕ) (rows : GroupRows) : ℕ :=
  match maxRowsPerOp with
  | some (n + 1) => n + 1
  | _ => max rows.addresses.length 1

/-- `_call_ranges`: the position of the group, and the first row and the end of each call. -/
def callRanges (maxRowsPerOp : Option ℕ) (groups : List GroupRows) : List (ℕ × ℕ × ℕ) :=
  groups.zipIdx.flatMap fun group =>
    (callBounds group.1.objectKeys (rowsPerCall maxRowsPerOp group.1)).map fun bounds =>
      (group.2, bounds.1, bounds.2)

/-! ### The calls partition the rows -/

/-- The rows of a run. -/
def runRows (bounds : ℕ × ℕ) : List ℕ := range' bounds.1 (bounds.2 - bounds.1)

section Bounds

variable {κ : Type*} [DecidableEq κ]

variable {step : ℕ}

/-- **The loop** goes on from its run: the runs are consecutive, and none names a key twice. -/
lemma cutBounds_spec (hstep : 0 < step) (rest : List κ) : ∀ done seen : List κ,
    seen.Nodup → seen.length ≤ step →
      (cutBounds step rest (done ++ seen).length done.length seen).flatMap runRows
          = range' done.length (seen ++ rest).length ∧
        ∀ bounds ∈ cutBounds step rest (done ++ seen).length done.length seen,
          bounds.2 - bounds.1 ≤ step ∧
            (((done ++ seen ++ rest).drop bounds.1).take (bounds.2 - bounds.1)).Nodup := by
  induction rest with
  | nil =>
    intro done seen hnodup hlen
    have hlength : (done ++ seen).length - done.length = seen.length := by
      rw [length_append, Nat.add_sub_cancel_left]
    rw [cutBounds, flatMap_singleton, runRows, hlength, append_nil]
    refine ⟨rfl, fun bounds hbounds => ?_⟩
    obtain rfl := mem_singleton.mp hbounds
    rw [hlength, append_nil, drop_left, take_length]
    exact ⟨hlen, hnodup⟩
  | cons key rest ih =>
    intro done seen hnodup hlen
    have hlength : (done ++ seen).length - done.length = seen.length := by
      rw [length_append, Nat.add_sub_cancel_left]
    rw [cutBounds, hlength]
    split_ifs with hcut
    · -- the run ends before the key, which begins the next one
      obtain ⟨hrows, hwithin⟩ := ih (done ++ seen) [key] (nodup_singleton key) hstep
      have hnext : (done ++ seen ++ [key]).length = (done ++ seen).length + 1 := length_append
      rw [hnext] at hrows hwithin
      rw [flatMap_cons, hrows, runRows, hlength]
      constructor
      · have h₁ : (done ++ seen).length = done.length + seen.length := length_append
        have h₂ : (seen ++ key :: rest).length = seen.length + (key :: rest).length := length_append
        rw [h₁, h₂]
        exact range'_append_1
      · intro bounds hbounds
        obtain rfl | hbounds := mem_cons.mp hbounds
        · rw [hlength, append_assoc, drop_left, take_left]
          exact ⟨hlen, hnodup⟩
        · have := hwithin bounds hbounds
          rwa [append_assoc _ [key] rest, singleton_append] at this
    · -- the run goes on
      rw [not_or] at hcut
      have hnodup' : (seen ++ [key]).Nodup := by
        rw [nodup_append]
        refine ⟨hnodup, nodup_singleton key, fun a ha b hb hab => ?_⟩
        obtain rfl := mem_singleton.mp hb
        exact hcut.2 (hab ▸ ha)
      have hlen' : (seen ++ [key]).length ≤ step := by
        rw [length_append, length_singleton]
        omega
      obtain ⟨hrows, hwithin⟩ := ih done (seen ++ [key]) hnodup' hlen'
      have hnext : (done ++ (seen ++ [key])).length = (done ++ seen).length + 1 := by
        rw [← append_assoc]
        exact length_append
      rw [hnext] at hrows hwithin
      rw [append_assoc, singleton_append] at hrows
      refine ⟨hrows, fun bounds hbounds => ?_⟩
      have := hwithin bounds hbounds
      rwa [← append_assoc, append_assoc _ [key] rest, singleton_append] at this

/-- Whole steps up to the end. -/
lemma flatMap_wholeSteps (hstep : 0 < step) (count : ℕ) : ∀ n : ℕ,
    ((range n).map fun i => (i * step, min (i * step + step) count)).flatMap runRows
      = range (min (n * step) count) := by
  intro n
  induction n with
  | zero => simp
  | succ n ih =>
    rw [range_succ, map_append, flatMap_append, ih, map_singleton,
      flatMap_singleton, runRows, add_mul, one_mul]
    obtain hle | hlt := Nat.le_total count (n * step)
    · have h₁ : min (n * step) count = count := min_eq_right hle
      have h₂ : min (n * step + step) count = count :=
        min_eq_right (hle.trans (Nat.le_add_right ..))
      rw [h₁, h₂, Nat.sub_eq_zero_of_le hle]
      simp
    · rw [min_eq_left hlt, range_eq_range', range_eq_range']
      have hsum : min (n * step + step) count
          = n * step + (min (n * step + step) count - n * step) := by omega
      conv_rhs => rw [hsum]
      have := range'_append_1 (s := 0) (m := n * step)
        (n := min (n * step + step) count - n * step)
      rwa [Nat.zero_add] at this

/-- **The bounds of a group**: the runs cover its rows in order, each within the limit and with
distinct keys. -/
theorem callBounds_spec (rows : List κ) (hstep : 0 < step) :
    (callBounds rows step).flatMap runRows = range rows.length ∧
      ∀ bounds ∈ callBounds rows step, bounds.2 - bounds.1 ≤ step ∧
        ((rows.drop bounds.1).take (bounds.2 - bounds.1)).Nodup := by
  rw [callBounds]
  split_ifs with hnil hnodup
  · rw [hnil]
    exact ⟨rfl, fun bounds hbounds => absurd hbounds not_mem_nil⟩
  · constructor
    · rw [flatMap_wholeSteps hstep]
      congr 1
      refine min_eq_right ?_
      have := Nat.lt_div_mul_add (a := rows.length + step - 1) hstep
      omega
    · intro bounds hbounds
      obtain ⟨i, -, rfl⟩ := mem_map.mp hbounds
      refine ⟨by simp only; omega, ?_⟩
      exact hnodup.sublist ((take_sublist _ _).trans (drop_sublist _ _))
  · have := cutBounds_spec hstep rows [] [] nodup_nil (Nat.zero_le _)
    rw [range_eq_range']
    exact this

end Bounds

lemma rowsPerCall_pos (maxRowsPerOp : Option ℕ) (rows : GroupRows) :
    0 < rowsPerCall maxRowsPerOp rows := by
  obtain _ | _ | n := maxRowsPerOp
  · exact lt_of_lt_of_le Nat.one_pos (le_max_right _ _)
  · exact lt_of_lt_of_le Nat.one_pos (le_max_right _ _)
  · exact Nat.succ_pos n

/-- The calls cover the rows of every group once and in order. -/
lemma callRanges_partition (maxRowsPerOp : Option ℕ) (groups : List GroupRows) :
    ((callRanges maxRowsPerOp groups).flatMap fun range =>
        (runRows range.2).map fun row => (range.1, row))
      = groups.zipIdx.flatMap fun group =>
          (range group.1.objectKeys.length).map fun row => (group.2, row) := by
  rw [callRanges, flatMap_assoc]
  refine flatMap_congr fun group _ => ?_
  rw [← (callBounds_spec group.1.objectKeys (rowsPerCall_pos maxRowsPerOp group.1)).1,
    map_flatMap, flatMap_map]

/-- Every call keeps the limit of the driver, and names no key twice. -/
lemma callRanges_within {maxRowsPerOp : Option ℕ} {groups : List GroupRows} {g start stop : ℕ}
    (h : (g, start, stop) ∈ callRanges maxRowsPerOp groups) :
    ∃ rows, groups[g]? = some rows ∧ stop - start ≤ rowsPerCall maxRowsPerOp rows ∧
      ((rows.objectKeys.drop start).take (stop - start)).Nodup := by
  rw [callRanges, mem_flatMap] at h
  obtain ⟨⟨rows, g'⟩, hgroup, hmem⟩ := h
  obtain ⟨bounds, hbounds, heq⟩ := mem_map.mp hmem
  obtain ⟨rfl, rfl, rfl⟩ : g' = g ∧ bounds.1 = start ∧ bounds.2 = stop := by
    simpa only [Prod.mk.injEq] using heq
  refine ⟨rows, mem_zipIdx_iff_getElem?.mp hgroup, ?_⟩
  exact (callBounds_spec rows.objectKeys (rowsPerCall_pos maxRowsPerOp rows)).2 bounds hbounds

end TrtLlm.Blob
