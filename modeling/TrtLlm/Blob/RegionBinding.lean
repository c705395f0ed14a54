import Mathlib.Tactic

/-!
The lender's region hold and the registrations made under it (`RegionBinding` in
`disaggregation/blob/backend.py`).

The driver is arbitrary: it may register a region, refuse it, or fail in a way that leaves open
whether the store registered it, with a handle to revoke it or without. The binding keeps in `live`
what may be registered, as far as it can tell; `registered` is what the store may really hold.

* `register`: the construction, with its roll-back;
* `Revocation`, `revocations`: what `try_unregister_all` asks the driver to revoke, one region at a
  time or all that share a handle;
* `RegionBinding.Ok`: the store holds no region that is not accounted for, and the hold is out of
  the binding's hands only when nothing is live. The construction establishes it
  (`register_ok`), and the steps of a revocation keep it.

Handles are opaque; numbers stand for them.
-/

namespace TrtLlm.Blob

open List

inductive MemoryKind
  | host
  | device
deriving DecidableEq, Repr

structure SlotRegion where
  address : ℤ
  nbytes : ℤ
  slotBytes : ℤ
  slotCount : ℤ
  memoryKind : MemoryKind
deriving DecidableEq, Repr

/-- How a registration ends: a handle, or none by mistake; `DriverRejected`; `RegistrationError`
with its handle; any other exception. -/
inductive RegisterAnswer
  | returned (handle : Option ℕ)
  | rejected
  | registrationError (handle : Option ℕ)
  | raised
deriving DecidableEq, Repr

/-- The store certainly registered nothing. -/
def RegisterAnswer.nothingEscaped : RegisterAnswer → Bool
  | .rejected => true
  | .registrationError none => true
  | _ => false

/-- The handle that the error carries. -/
def RegisterAnswer.errorHandle : RegisterAnswer → Option ℕ
  | .registrationError handle => handle
  | _ => none

structure RegionBinding where
  /-- The driver takes the regions as one batch. -/
  together : Bool
  /-- `_live_registrations`: region index and handle. -/
  live : List (ℕ × Option ℕ)
  /-- The regions that the store may hold registered. -/
  registered : Finset ℕ
  holdReleased : Bool

namespace RegionBinding

variable (b : RegionBinding)

def liveLabels : List ℕ := b.live.map Prod.fst

def trackLiveRegistration (index : ℕ) (handle : Option ℕ) : RegionBinding :=
  { b with live := b.live ++ [(index, handle)] }

/-- The store may have registered the regions. -/
def mayHold (indices : List ℕ) : RegionBinding :=
  { b with registered := b.registered ∪ indices.toFinset }

def keepAll (handle : Option ℕ) : RegionBinding :=
  { b with live := b.live.map fun entry => (entry.1, handle) }

def release : RegionBinding := { b with holdReleased := true }

end RegionBinding

/-! ### Revoking -/

/-- One `unregister` or `unregister_regions`: the handle, and the regions it stands for. -/
structure Revocation where
  indices : List ℕ
  handle : ℕ
deriving DecidableEq, Repr

namespace RegionBinding

variable (b : RegionBinding)

/-- What `try_unregister_all` asks the driver to revoke. -/
def revocations : List Revocation :=
  if b.together then
    (b.live.filterMap Prod.snd).eraseDups.map fun handle =>
      ⟨(b.live.filter fun entry => entry.2 = some handle).map Prod.fst, handle⟩
  else b.live.filterMap fun entry => entry.2.map fun handle => ⟨[entry.1], handle⟩

/-- The driver revoked the registration. -/
def revoke (r : Revocation) : RegionBinding :=
  { b with registered := b.registered \ r.indices.toFinset }

/-- The binding forgets a registration that was revoked. -/
def forget (r : Revocation) : RegionBinding :=
  { b with live :=
      if b.together then b.live.filter fun entry => entry.2 ≠ some r.handle
      else b.live.filter fun entry => entry.1 ∉ r.indices }

/-- `try_unregister_all` on the builder thread, with the driver's answers. -/
def tryUnregisterAll (revoked : Revocation → Bool) : RegionBinding :=
  b.revocations.foldl (fun b r => if revoked r then (b.revoke r).forget r else b) b

/-- `release_hold`; no value where it refuses. -/
def releaseHold : Option RegionBinding :=
  if b.live = [] then some b.release else none

end RegionBinding

/-! ### Construction -/

inductive Construction
  | registered (b : RegionBinding)
  | rejected (b : RegionBinding)
  | failed (b : RegionBinding)

def Construction.binding : Construction → RegionBinding
  | registered b => b
  | rejected b => b
  | failed b => b

def servedRegionIndices (regions : List SlotRegion) (deviceMemory : Bool) : List ℕ :=
  (regions.zipIdx.filter fun r =>
    decide (0 < r.1.slotCount) && (decide (r.1.memoryKind = .host) || deviceMemory)).map Prod.snd

/-- The checks of `RegionLayout`. -/
def layoutOk (r : SlotRegion) : Bool := 0 < r.slotBytes ∧ 0 < r.slotCount

/-- The checks of `RegionSpec`. -/
def specOk (r : SlotRegion) : Bool :=
  0 ≤ r.address ∧ 0 < r.nbytes ∧ r.slotBytes * r.slotCount ≤ r.nbytes

/-- `_roll_back_if_possible_and_raise`. -/
def rollBackAndRaise (revoked : Revocation → Bool) (index : ℕ) (error : RegisterAnswer)
    (b : RegionBinding) : Construction :=
  if error.nothingEscaped then
    let b := b.tryUnregisterAll revoked
    if b.live = [] then .rejected b.release else .failed b
  else .failed ((b.mayHold [index]).trackLiveRegistration index error.errorHandle)

/-- The loop over the regions. -/
def registerEach (answer : ℕ → RegisterAnswer) (revoked : Revocation → Bool) :
    List ℕ → RegionBinding → Construction
  | [], b => .registered b
  | index :: rest, b =>
    match answer index with
    | .returned handle =>
      registerEach answer revoked rest
        ((b.mayHold [index]).trackLiveRegistration index handle)
    | error => rollBackAndRaise revoked index error b

/-- `_raise_for_failed_batch`. -/
def raiseForFailedBatch (revoked : Revocation → Bool) (indices : List ℕ) (error : RegisterAnswer)
    (b : RegionBinding) : Construction :=
  if error.nothingEscaped then .rejected { b with live := [] }.release
  else
    match error.errorHandle with
    | none => .failed (b.mayHold indices)
    | some handle =>
      let b := ((b.mayHold indices).keepAll (some handle)).tryUnregisterAll revoked
      if b.live = [] then .rejected b.release else .failed b

/-- `_register_together`. -/
def registerTogether (answer : RegisterAnswer) (revoked : Revocation → Bool)
    (regions : List SlotRegion) (indices : List ℕ) (b : RegionBinding) : Construction :=
  if indices.any fun i => (regions[i]?.map specOk).getD false = false then .rejected b.release
  else
    -- every region has an owner before the store is asked
    let b := { b with live := indices.map fun i => (i, none) }
    match answer with
    | .returned handle =>
      .registered ((b.mayHold indices).keepAll handle)
    | error => raiseForFailedBatch revoked indices error b

/-- `RegionBinding.register`, with the driver's answer for every region, for the batch, and to
every revocation. -/
def register (regions : List SlotRegion) (deviceMemory together : Bool)
    (answer : ℕ → RegisterAnswer) (batchAnswer : RegisterAnswer) (revoked : Revocation → Bool) :
    Construction :=
  let b : RegionBinding :=
    { together := together, live := [], registered := ∅, holdReleased := false }
  let indices := servedRegionIndices regions deviceMemory
  if indices = [] then .rejected b.release
  else if indices.any fun i => (regions[i]?.map layoutOk).getD false
    = false then .rejected b.release
  else if together then registerTogether batchAnswer revoked regions indices b
  else registerEach answer revoked indices b

/-! ### Every registration is accounted for -/

namespace RegionBinding

/-- Every region that the store may hold is live, and the hold is given back only when none is. -/
structure Ok (b : RegionBinding) : Prop where
  accounted : ∀ i ∈ b.registered, i ∈ b.liveLabels
  released : b.holdReleased → b.live = []

variable {b : RegionBinding} {r : Revocation}

/-- Nothing is registered once nothing is live. -/
lemma Ok.registered_eq_empty (h : b.Ok) (hlive : b.live = []) : b.registered = ∅ := by
  refine Finset.eq_empty_of_forall_notMem fun i hi => ?_
  have := h.accounted i hi
  rw [liveLabels, hlive] at this
  exact absurd this not_mem_nil

/-- The regions of a revocation are all that share its handle. -/
def Covers (b : RegionBinding) (r : Revocation) : Prop :=
  b.together → ∀ entry ∈ b.live, entry.2 = some r.handle → entry.1 ∈ r.indices

lemma covers_of_mem_revocations (h : r ∈ b.revocations) : b.Covers r := by
  intro htogether entry hentry hhandle
  rw [revocations, if_pos htogether, mem_map] at h
  obtain ⟨handle, -, rfl⟩ := h
  refine mem_map.mpr ⟨entry, mem_filter.mpr ⟨hentry, ?_⟩, rfl⟩
  rw [hhandle, decide_eq_true_eq]

lemma live_forget_subset (b : RegionBinding) (r : Revocation) :
    ∀ entry ∈ (b.forget r).live, entry ∈ b.live := by
  intro entry hentry
  simp only [forget] at hentry
  split_ifs at hentry with htogether
  · exact (mem_filter.mp hentry).1
  · exact (mem_filter.mp hentry).1

lemma Covers.forget (h : b.Covers r) (r' : Revocation) : (b.forget r').Covers r := by
  intro htogether entry hentry
  exact h htogether entry (b.live_forget_subset r' entry hentry)

lemma Ok.revoke (h : b.Ok) (r : Revocation) : (b.revoke r).Ok := by
  refine ⟨fun i hi => ?_, h.released⟩
  exact h.accounted i (Finset.mem_sdiff.mp hi).1

/-- A registration is forgotten once its regions are revoked. -/
lemma Ok.forget (h : b.Ok) (hcovers : b.Covers r)
    (hrevoked : ∀ i ∈ r.indices, i ∉ b.registered) : (b.forget r).Ok := by
  refine ⟨fun i hi => ?_, fun hreleased => ?_⟩
  · obtain ⟨entry, hentry, rfl⟩ := mem_map.mp (h.accounted i hi)
    have hnot : entry.1 ∉ r.indices := fun hmem => hrevoked _ hmem hi
    refine mem_map.mpr ⟨entry, ?_, rfl⟩
    simp only [RegionBinding.forget]
    split_ifs with htogether
    · refine mem_filter.mpr ⟨hentry, decide_eq_true ?_⟩
      intro hhandle
      exact hnot (hcovers htogether entry hentry hhandle)
    · exact mem_filter.mpr ⟨hentry, decide_eq_true hnot⟩
  · have hlive := h.released hreleased
    refine eq_nil_iff_forall_not_mem.mpr fun entry hentry => ?_
    have := b.live_forget_subset r entry hentry
    rw [hlive] at this
    exact absurd this not_mem_nil

lemma notMem_registered_revoke (b : RegionBinding) (r : Revocation) :
    ∀ i ∈ r.indices, i ∉ (b.revoke r).registered := by
  intro i hi hmem
  exact (Finset.mem_sdiff.mp hmem).2 (mem_toFinset.mpr hi)

/-- **A roll-back** keeps every region accounted for, whatever the driver answers. -/
lemma Ok.tryUnregisterAll (h : b.Ok) (revoked : Revocation → Bool) :
    (b.tryUnregisterAll revoked).Ok := by
  rw [RegionBinding.tryUnregisterAll]
  -- over the revocations that are still to come
  have hloop : ∀ (todo : List Revocation) (b : RegionBinding), b.Ok → (∀ r ∈ todo, b.Covers r) →
      (todo.foldl (fun b r => if revoked r then (b.revoke r).forget r else b) b).Ok := by
    intro todo
    induction todo with
    | nil =>
      intro b hb _
      exact hb
    | cons r todo ih =>
      intro b hb hcovers
      rw [foldl_cons]
      refine ih _ ?_ fun r' hr' => ?_
      · split_ifs
        · exact (hb.revoke r).forget (hcovers r mem_cons_self)
            (b.notMem_registered_revoke r)
        · exact hb
      · have hr'covers := hcovers r' (mem_cons_of_mem r hr')
        split_ifs
        · exact Covers.forget (b := b.revoke r) hr'covers r
        · exact hr'covers
  exact hloop _ b h fun r hr => covers_of_mem_revocations hr

lemma Ok.release (h : b.Ok) (hlive : b.live = []) : b.release.Ok :=
  ⟨h.accounted, fun _ => hlive⟩

/-- A region is tracked when the store may hold it. -/
lemma Ok.track (h : b.Ok) (hheld : b.holdReleased = false) (index : ℕ)
    (handle : Option ℕ) : ((b.mayHold [index]).trackLiveRegistration index handle).Ok := by
  refine ⟨fun i hi => ?_, fun hreleased => ?_⟩
  · rw [liveLabels, trackLiveRegistration, map_append, mem_append]
    obtain hi | hi := Finset.mem_union.mp hi
    · exact Or.inl (h.accounted i hi)
    · obtain rfl := mem_singleton.mp (mem_toFinset.mp hi)
      exact Or.inr mem_cons_self
  · have : b.holdReleased = true := hreleased
    rw [hheld] at this
    exact absurd this Bool.false_ne_true

end RegionBinding

lemma foldl_holdReleased (revoked : Revocation → Bool) (todo : List Revocation) :
    ∀ b : RegionBinding,
      (todo.foldl (fun b r => if revoked r then (b.revoke r).forget r else b) b).holdReleased
        = b.holdReleased := by
  induction todo with
  | nil =>
    intro b
    rfl
  | cons r todo ih =>
    intro b
    rw [foldl_cons, ih]
    split_ifs <;> rfl

/-- The hold is kept while the construction can still go on. -/
def Construction.Ok : Construction → Prop
  | registered b => b.Ok ∧ b.holdReleased = false
  | rejected b => b.Ok ∧ b.holdReleased ∧ b.registered = ∅
  | failed b => b.Ok ∧ b.holdReleased = false

/-- A roll-back gives the hold back exactly if nothing is left. -/
lemma rollBack_ok {b : RegionBinding} (h : b.Ok) (hheld : b.holdReleased = false)
    (revoked : Revocation → Bool) :
    Construction.Ok (if (b.tryUnregisterAll revoked).live = [] then
      .rejected (b.tryUnregisterAll revoked).release
        else .failed (b.tryUnregisterAll revoked)) := by
  have hok := h.tryUnregisterAll revoked
  split_ifs with hlive
  · exact ⟨hok.release hlive, rfl, hok.registered_eq_empty hlive⟩
  · refine ⟨hok, ?_⟩
    rw [RegionBinding.tryUnregisterAll, foldl_holdReleased]
    exact hheld

lemma registerEach_ok (answer : ℕ → RegisterAnswer) (revoked : Revocation → Bool)
    (indices : List ℕ) : ∀ {b : RegionBinding}, b.Ok → b.holdReleased = false →
      (registerEach answer revoked indices b).Ok := by
  induction indices with
  | nil =>
    intro b h hheld
    exact ⟨h, hheld⟩
  | cons index rest ih =>
    intro b h hheld
    have hfail : ∀ error, (rollBackAndRaise revoked index error b).Ok := by
      intro error
      rw [rollBackAndRaise]
      by_cases hnone : error.nothingEscaped
      · rw [if_pos hnone]
        exact rollBack_ok h hheld revoked
      · rw [if_neg hnone]
        exact ⟨h.track hheld index _, hheld⟩
    rw [registerEach]
    cases answer index with
    | returned handle => exact ih (h.track hheld index handle) hheld
    | rejected | registrationError | raised => exact hfail _

lemma registerTogether_ok (answer : RegisterAnswer) (revoked : Revocation → Bool)
    (regions : List SlotRegion) (indices : List ℕ) {b : RegionBinding} (hlive : b.live = [])
    (hregistered : b.registered = ∅) (hheld : b.holdReleased = false) :
    (registerTogether answer revoked regions indices b).Ok := by
  have hempty : ∀ i ∈ b.registered, False := by
    rw [hregistered]
    exact fun i hi => absurd hi (Finset.notMem_empty i)
  -- after the batch every region is live under one handle, or none
  have hbatch : ∀ (handle : Option ℕ), RegionBinding.Ok
      { b.mayHold indices with live := indices.map fun i => (i, handle) } := by
    intro handle
    refine ⟨fun i hi => ?_, fun hreleased => ?_⟩
    · obtain hi | hi := Finset.mem_union.mp hi
      · exact (hempty i hi).elim
      · rw [RegionBinding.liveLabels, map_map]
        exact mem_map.mpr ⟨i, mem_toFinset.mp hi, rfl⟩
    · have : b.holdReleased = true := hreleased
      rw [hheld] at this
      exact absurd this Bool.false_ne_true
  have hkeep : ∀ handle : Option ℕ,
      ((indices.map fun i => ((i, none) : ℕ × Option ℕ)).map fun entry => (entry.1, handle))
        = indices.map fun i => (i, handle) := by
    intro handle
    rw [map_map]
    rfl
  have hfail : ∀ error, (raiseForFailedBatch revoked indices error
      { b with live := indices.map fun i => (i, none) }).Ok := by
    intro error
    rw [raiseForFailedBatch]
    split_ifs with hnone
    · exact ⟨⟨fun i hi => (hempty i hi).elim, fun _ => rfl⟩, rfl, hregistered⟩
    · cases error.errorHandle with
      | none => exact ⟨hbatch none, hheld⟩
      | some handle =>
        have hok := hbatch (some handle)
        rw [← hkeep (some handle)] at hok
        exact rollBack_ok hok hheld revoked
  rw [registerTogether]
  split_ifs with hspec
  · exact ⟨⟨fun i hi => (hempty i hi).elim, fun _ => hlive⟩, rfl, hregistered⟩
  · cases answer with
    | returned handle =>
      have hok := hbatch handle
      rw [← hkeep handle] at hok
      exact ⟨hok, hheld⟩
    | rejected | registrationError | raised => exact hfail _

/-- **The construction** leaves every region accounted for, and gives the hold back only if it is
rejected, with nothing registered. -/
theorem register_ok (regions : List SlotRegion) (deviceMemory together : Bool)
    (answer : ℕ → RegisterAnswer) (batchAnswer : RegisterAnswer) (revoked : Revocation → Bool) :
    (register regions deviceMemory together answer batchAnswer revoked).Ok := by
  have hinit : ∀ released : Bool, RegionBinding.Ok
      { together := together, live := [], registered := ∅, holdReleased := released } :=
    fun released => ⟨fun i hi => absurd hi (Finset.notMem_empty i), fun _ => rfl⟩
  simp only [register]
  split_ifs
  · exact ⟨hinit true, rfl, rfl⟩
  · exact ⟨hinit true, rfl, rfl⟩
  · exact registerTogether_ok batchAnswer revoked regions _ rfl rfl rfl
  · exact registerEach_ok answer revoked _ (hinit false) rfl

end TrtLlm.Blob
