import TrtLlm.Util.Rounding
import TrtLlm.Util.Tiling

/-!
`StagingBufferManager`: a buffer whose ranges are reserved in a ring and retired with an event
(`stagingBuffer.cpp`).

A range of the list is known by a number, as the source knows it by its address; an iterator is
the ranges before it and those from it on.  Events and streams are numbers, and the waits on
events succeed.

* `splitRange_spec`: a split keeps the bytes, the events and the live ranges;
* `WF.reserveFrom`: the search takes the first run with space, or there is none;
* `WF.reserve`: **a buffer is returned exactly when a span fits**.
-/

namespace TrtLlm

open Tiling List Nat Bool

/-- `StagingBufferRange`, with its address; `stop` is its `end`, and event 0 the null event. -/
structure StagingRange where
  id : ℕ
  begin : ℕ
  stop : ℕ
  readyEvent : ℕ
  retired : Bool
deriving DecidableEq

def StagingRange.contains (r : StagingRange) (offset : ℕ) : Prop :=
  r.begin ≤ offset ∧ offset < r.stop

instance (r : StagingRange) (offset : ℕ) : Decidable (r.contains offset) :=
  inferInstanceAs (Decidable (_ ∧ _))

/-- An iterator of the list of ranges. -/
structure RangeIter where
  before : List StagingRange
  rest : List StagingRange
deriving DecidableEq

/-- The list an iterator belongs to. -/
def RangeIter.ranges (i : RangeIter) : List StagingRange := i.before ++ i.rest

/-- The iterator goes forward over ranges with a property. -/
def RangeIter.skip (p : StagingRange → Bool) (i : RangeIter) : RangeIter :=
  ⟨i.before ++ i.rest.takeWhile p, i.rest.dropWhile p⟩

/-- The arguments of `reserve`. -/
structure StagingRequest where
  minSize : ℕ
  maxSize : ℕ
  sizeGranularity : ℕ
  alignment : ℕ
deriving DecidableEq

/-- The size and the place of a range are as a request asks. -/
structure StagingRange.Suits (r : StagingRange) (base : ℕ) (q : StagingRequest) : Prop where
  aligned : q.alignment ∣ base + r.begin
  granular : q.sizeGranularity ∣ r.stop - r.begin
  ge : q.minSize ≤ r.stop - r.begin
  le : r.stop - r.begin ≤ q.maxSize

/-- Why `reserve` throws; `broken` is a failed check of the search. -/
inductive StagingError where
  | invalidArguments
  | minimumDoesNotFit
  | noContiguousRange
  | broken
deriving DecidableEq

/-- `StagingBufferManager`; the head is the number of its range. -/
structure StagingBufferManager where
  mSize : ℕ
  baseAddress : ℕ
  mRanges : List StagingRange
  mHead : ℕ
  nextId : ℕ
deriving DecidableEq

/-- What a reservation returns: the range, and the events it waits for, on a stream or by
synchronizing. -/
structure Reservation where
  range : StagingRange
  waits : List (Option ℕ × ℕ)
deriving DecidableEq

namespace StagingBufferManager

/-- The constructor. -/
def new (size base : ℕ) : StagingBufferManager where
  mSize := size
  baseAddress := base
  mRanges := [⟨0, 0, size, 0, true⟩]
  mHead := 0
  nextId := 1

/-- The checks of the arguments; a power of two has no bit in common with its predecessor. -/
def validArguments (q : StagingRequest) (m : StagingBufferManager) : Prop :=
  0 < q.minSize ∧ q.minSize ≤ m.mSize ∧ q.minSize ≤ q.maxSize ∧ 0 < q.sizeGranularity
    ∧ 0 < q.alignment ∧ q.alignment &&& (q.alignment - 1) = 0 ∧ q.sizeGranularity % q.alignment = 0
    ∧ q.minSize % q.sizeGranularity = 0 ∧ q.maxSize % q.sizeGranularity = 0

instance (q : StagingRequest) (m : StagingBufferManager) : Decidable (m.validArguments q) :=
  inferInstanceAs (Decidable (_ ∧ _))

def alignedOffset (q : StagingRequest) (m : StagingBufferManager) (offset : ℕ) : ℕ :=
  roundUp (m.baseAddress + offset) q.alignment - m.baseAddress

def findForward (offset : ℕ) : List StagingRange → List StagingRange → Option RangeIter
  | _, [] => none
  | before, r :: rest =>
    if r.contains offset then some ⟨before, r :: rest⟩ else findForward offset (before ++ [r]) rest

/-- The search from an iterator towards the front; the ranges before it, last first. -/
def findBackward (offset : ℕ) : List StagingRange → List StagingRange → Option RangeIter
  | [], _ => none
  | r :: before, rest =>
    if r.contains offset then some ⟨before.reverse, r :: rest⟩
    else findBackward offset before (r :: rest)

def findRange (size offset : ℕ) (hint : RangeIter) : Option RangeIter :=
  if ¬ offset < size then none
  else
    match hint.rest with
    | r :: _ =>
      if r.begin ≤ offset then findForward offset hint.before hint.rest
      else findBackward offset hint.before.reverse hint.rest
    | [] => findBackward offset hint.before.reverse hint.rest

/-- `splitRange`, with the number for a new range; the iterator of the range that begins at the
offset. -/
def splitRange (size fresh : ℕ) (hint : RangeIter) (offset : ℕ) : Option RangeIter :=
  if offset = 0 then some ⟨[], hint.ranges⟩
  else if offset = size then some ⟨hint.ranges, []⟩
  else
    match findRange size offset hint with
    | none => none
    | some ⟨before, rest⟩ =>
      match rest with
      | [] => none
      | r :: rest =>
        if r.begin = offset then some ⟨before, r :: rest⟩
        else if ¬ r.retired then none
        else
          some ⟨before ++ [{ r with stop := offset }],
            ⟨fresh, offset, r.stop, r.readyEvent, true⟩ :: rest⟩

/-- `hasSpace` of the search. -/
def hasSpace (dataBegin availableEnd size : ℕ) : Prop :=
  dataBegin ≤ availableEnd ∧ size ≤ availableEnd - dataBegin

instance (dataBegin availableEnd size : ℕ) : Decidable (hasSpace dataBegin availableEnd size) :=
  inferInstanceAs (Decidable (_ ∧ _))

/-- The loop that extends a run while its ranges are retired and `maxSize` does not fit. -/
def extendRun (dataBegin maxSize : ℕ) :
    ℕ → List StagingRange → List StagingRange → RangeIter × ℕ
  | availableEnd, before, [] => (⟨before, []⟩, availableEnd)
  | availableEnd, before, r :: rest =>
    if r.retired ∧ ¬ hasSpace dataBegin availableEnd maxSize then
      extendRun dataBegin maxSize r.stop (before ++ [r]) rest
    else (⟨before, r :: rest⟩, availableEnd)

/-- The bytes found are cut out of their run, waited for and made one live range. -/
def takePayload (q : StagingRequest) (stream : Option ℕ) (runBegin : RangeIter)
    (dataBegin availableEnd : ℕ) (m : StagingBufferManager) :
    Except StagingError Reservation × StagingBufferManager :=
  let usableBytes := min q.maxSize (availableEnd - dataBegin)
  let dataSize := usableBytes - usableBytes % q.sizeGranularity
  let stop := dataBegin + dataSize
  match splitRange m.mSize m.nextId runBegin dataBegin with
  | none => (.error .broken, m)
  | some payloadBegin =>
    match splitRange m.mSize (m.nextId + 1) payloadBegin stop with
    | none => (.error .broken, { m with mRanges := payloadBegin.ranges, nextId := m.nextId + 1 })
    | some payloadEnd =>
      let payload := payloadEnd.before.drop payloadBegin.before.length
      let range : StagingRange := ⟨m.nextId + 2, dataBegin, stop, 0, false⟩
      let ranges := payloadBegin.before ++ range :: payloadEnd.rest
      (.ok ⟨range, payload.map fun r => (stream, r.readyEvent)⟩, { m with
          mRanges := ranges
          mHead := ((if stop = m.mSize then ranges else payloadEnd.rest).head?.map (·.id)).getD 0
          nextId := m.nextId + 3 })

/-- `reserveFrom`, for at most so many runs; without a run that has space there is no result. -/
def reserveFrom (q : StagingRequest) (stream : Option ℕ) (m : StagingBufferManager) :
    ℕ → RangeIter → Option (Except StagingError Reservation × StagingBufferManager)
  | 0, _ => none
  | fuel + 1, hint =>
    let runBegin := hint.skip fun r => !r.retired
    match runBegin.rest with
    | [] => none
    | r :: _ =>
      let dataBegin := m.alignedOffset q r.begin
      let (runEnd, availableEnd) :=
        extendRun dataBegin q.maxSize r.begin runBegin.before runBegin.rest
      if hasSpace dataBegin availableEnd q.minSize then
        some (m.takePayload q stream runBegin dataBegin availableEnd)
      else reserveFrom q stream m fuel runEnd

/-- The iterator of the head. -/
def headIter (m : StagingBufferManager) : RangeIter :=
  (⟨[], m.mRanges⟩ : RangeIter).skip fun r => r.id != m.mHead

def reserve (q : StagingRequest) (stream : Option ℕ) (m : StagingBufferManager) :
    Except StagingError Reservation × StagingBufferManager :=
  if ¬ m.validArguments q then (.error .invalidArguments, m)
  else if ¬ m.alignedOffset q 0 + q.minSize ≤ m.mSize then (.error .minimumDoesNotFit, m)
  else
    -- every round of the search goes over a range, so there are no more rounds than ranges
    let fuel := m.mRanges.length + 1
    match m.reserveFrom q stream fuel m.headIter with
    | some result => result
    | none =>
      match if m.headIter.before ≠ [] then m.reserveFrom q stream fuel ⟨[], m.mRanges⟩
        else none with
      | some result => result
      | none => (.error .noContiguousRange, m)

/-- `retire` of the range with a number. -/
def retire (id readyEvent : ℕ) (m : StagingBufferManager) : StagingBufferManager :=
  { m with mRanges := m.mRanges.map fun r =>
      if r.id = id then { r with readyEvent := readyEvent, retired := true } else r }

/-! ### Aligned offsets -/

section
variable {m : StagingBufferManager} {q : StagingRequest} {offset x : ℕ}

/-- The address of an offset is a multiple of the alignment. -/
def Aligned (q : StagingRequest) (m : StagingBufferManager) (offset : ℕ) : Prop :=
  q.alignment ∣ m.baseAddress + offset

lemma add_alignedOffset (m : StagingBufferManager) (offset : ℕ) (hq : 0 < q.alignment) :
    m.baseAddress + m.alignedOffset q offset = roundUp (m.baseAddress + offset) q.alignment := by
  have hle : m.baseAddress + offset ≤ roundUp (m.baseAddress + offset) q.alignment := le_roundUp hq
  rw [alignedOffset]
  omega

lemma aligned_alignedOffset (hq : 0 < q.alignment) : m.Aligned q (m.alignedOffset q offset) := by
  rw [Aligned, add_alignedOffset m _ hq]
  exact dvd_roundUp _ _

lemma le_alignedOffset (hq : 0 < q.alignment) : offset ≤ m.alignedOffset q offset := by
  have hle : m.baseAddress + offset ≤ roundUp (m.baseAddress + offset) q.alignment := le_roundUp hq
  have hadd := add_alignedOffset m offset hq
  omega

/-- The next aligned offset is the least one. -/
lemma alignedOffset_le (hq : 0 < q.alignment) (hx : offset ≤ x) (ha : m.Aligned q x) :
    m.alignedOffset q offset ≤ x := by
  have hle := roundUp_le hq ha (Nat.add_le_add_left hx m.baseAddress)
  have hadd := add_alignedOffset m offset hq
  omega

end

/-! ### Splitting -/

section
variable {l l' l'' : List StagingRange} {a b offset x : ℕ} {r : StagingRange}

/-- The ranges fill the offsets from `a` up to `b`. -/
abbrev Fill (a b : ℕ) (l : List StagingRange) : Prop :=
  Tiles StagingRange.begin StagingRange.stop a b l

/-- The numbers of the ranges are different, and smaller than a new one. -/
def Numbered (fresh : ℕ) (l : List StagingRange) : Prop :=
  (l.map (·.id)).Nodup ∧ ∀ r ∈ l, r.id < fresh

/-- After a split: the live ranges as they were, and each byte with its event. -/
structure SameBytes (l l' : List StagingRange) : Prop where
  live : ∀ r, r.retired = false → (r ∈ l' ↔ r ∈ l)
  byte : ∀ x, ∀ r ∈ l, r.contains x →
    ∃ r' ∈ l', r'.contains x ∧ r'.readyEvent = r.readyEvent ∧ r'.retired = r.retired

variable {fresh : ℕ}

lemma SameBytes.refl (l : List StagingRange) : SameBytes l l :=
  ⟨fun _ _ => Iff.rfl, fun _ r hr hx => ⟨r, hr, hx, rfl, rfl⟩⟩

lemma SameBytes.trans (h : SameBytes l l') (h' : SameBytes l' l'') : SameBytes l l'' := by
  refine ⟨fun r hr => (h'.live r hr).trans (h.live r hr), fun x r hr hx => ?_⟩
  obtain ⟨r', hr', hx', he', hret'⟩ := h.byte x r hr hx
  obtain ⟨r'', hr'', hx'', he'', hret''⟩ := h'.byte x r' hr' hx'
  exact ⟨r'', hr'', hx'', he''.trans he', hret''.trans hret'⟩

/-- A retired range is cut in two. -/
lemma sameBytes_cut (before rest : List StagingRange) (hr : r.retired = true) (fresh offset : ℕ) :
    SameBytes (before ++ r :: rest) (before ++ { r with stop := offset }
      :: ⟨fresh, offset, r.stop, r.readyEvent, true⟩ :: rest) := by
  constructor
  · intro r' hr'
    have hne : r' ≠ r := by
      rintro rfl
      simp_all
    have hne₁ : r' ≠ { r with stop := offset } := by
      rintro rfl
      simp_all
    have hne₂ : r' ≠ ⟨fresh, offset, r.stop, r.readyEvent, true⟩ := by
      rintro rfl
      simp_all
    simp [hne, hne₁, hne₂]
  · intro x r' hr' hx
    rcases mem_append.mp hr' with hmem | hmem
    · exact ⟨r', by simp [hmem], hx, rfl, rfl⟩
    rcases mem_cons.mp hmem with rfl | hmem
    · by_cases hlt : x < offset
      · exact ⟨{ r' with stop := offset }, by simp, ⟨hx.1, hlt⟩, rfl, rfl⟩
      · exact ⟨⟨fresh, offset, r'.stop, r'.readyEvent, true⟩, by simp, ⟨not_lt.mp hlt, hx.2⟩, rfl,
          hr.symm⟩
    · exact ⟨r', by simp [hmem], hx, rfl, rfl⟩

/-- The forward search finds the range of an offset that lies ahead. -/
lemma findForward_spec (before : List StagingRange) (h : Fill a b l) (ha : a ≤ offset)
    (hb : offset < b) : ∃ mid r rest, l = mid ++ r :: rest ∧ r.contains offset
      ∧ findForward offset before l = some ⟨before ++ mid, r :: rest⟩ := by
  induction l generalizing a before with
  | nil =>
    have hab : a = b := h
    omega
  | cons r l ih =>
    obtain ⟨rfl, hlt, hl⟩ := h
    rw [findForward]
    by_cases hin : r.contains offset
    · exact ⟨[], r, l, rfl, hin, by rw [if_pos hin, append_nil]⟩
    · have hge : r.stop ≤ offset := by
        by_contra hlt'
        exact hin ⟨ha, not_le.mp hlt'⟩
      obtain ⟨mid, r', rest, rfl, hin', heq⟩ := ih (before ++ [r]) hl hge
      refine ⟨r :: mid, r', rest, rfl, hin', ?_⟩
      rw [if_neg hin, heq, append_assoc, singleton_append]

lemma fill_eq_nil (h : Fill a a l) : l = [] := by
  cases l with
  | nil => rfl
  | cons r l =>
    obtain ⟨rfl, hlt, hl⟩ := h
    have hle := hl.le
    omega

lemma Numbered.cut {before rest : List StagingRange}
    (h : Numbered fresh (before ++ r :: rest)) (offset stop event : ℕ) :
    Numbered (fresh + 1) (before ++ { r with stop := offset }
      :: ⟨fresh, offset, stop, event, true⟩ :: rest) := by
  obtain ⟨hnd, hlt⟩ := h
  constructor
  · have hperm : ((before ++ { r with stop := offset } :: ⟨fresh, offset, stop, event, true⟩
        :: rest).map (·.id)).Perm (fresh :: (before ++ r :: rest).map (·.id)) := by
      simp only [map_append, map_cons]
      exact ((Perm.swap _ _ _).append_left _).trans perm_middle
    rw [hperm.nodup_iff, nodup_cons]
    refine ⟨fun hmem => ?_, hnd⟩
    obtain ⟨r', hr', hid⟩ := mem_map.mp hmem
    exact absurd (hlt r' hr') (by omega)
  · intro r' hr'
    have hrid := hlt r (by simp)
    simp only [mem_append, mem_cons] at hr'
    rcases hr' with hmem | rfl | rfl | hmem
    · exact lt_succ_of_lt (hlt r' (by simp [hmem]))
    · exact lt_succ_of_lt hrid
    · exact lt_succ_self fresh
    · exact lt_succ_of_lt (hlt r' (by simp [hmem]))

lemma Numbered.mono {fresh' : ℕ} (h : Numbered fresh l) (hle : fresh ≤ fresh') :
    Numbered fresh' l :=
  ⟨h.1, fun r hr => (h.2 r hr).trans_le hle⟩

/-- **A split** at an offset ahead of the hint, where the range that is cut is retired. -/
lemma splitRange_spec (offset : ℕ) {size c : ℕ} {before rest : List StagingRange}
    (hbefore : Fill 0 c before) (hrest : Fill c size rest) (hc : c ≤ offset) (hsize : offset ≤ size)
    (hnum : Numbered fresh (before ++ rest))
    (hret : ∀ r ∈ rest, r.begin < offset → offset < r.stop → r.retired = true) :
    ∃ mid after, splitRange size fresh ⟨before, rest⟩ offset = some ⟨before ++ mid, after⟩
      ∧ Fill c offset mid ∧ Fill offset size after
        ∧ SameBytes (before ++ rest) (before ++ mid ++ after)
      ∧ Numbered (fresh + 1) (before ++ mid ++ after) := by
  have hnum' := hnum.mono (le_succ fresh)
  rw [splitRange, RangeIter.ranges]
  by_cases h0 : offset = 0
  · obtain rfl : c = 0 := by omega
    obtain rfl := fill_eq_nil hbefore
    refine ⟨[], rest, by rw [if_pos h0]; rfl, h0.symm, h0 ▸ hrest, SameBytes.refl _, hnum'⟩
  rw [if_neg h0]
  by_cases hs : offset = size
  · refine ⟨rest, [], by rw [if_pos hs], hs ▸ hrest, hs, ?_, ?_⟩
    · rw [append_nil]
      exact SameBytes.refl _
    · rwa [append_nil]
  rw [if_neg hs]
  have hlt : offset < size := lt_of_le_of_ne hsize hs
  obtain ⟨mid, r, tail, rfl, hin, heq⟩ := findForward_spec before hrest hc hlt
  have hfind : findRange size offset ⟨before, mid ++ r :: tail⟩
      = some ⟨before ++ mid, r :: tail⟩ := by
    rw [findRange, if_neg (not_not.mpr hlt)]
    cases mid with
    | nil => exact (if_pos hin.1).trans heq
    | cons r₀ mid =>
      have hbegin : r₀.begin = c := hrest.1
      exact (if_pos (hbegin.trans_le hc)).trans heq
  obtain ⟨d, hmid, hd, hrlt, htail⟩ := tiles_append.mp hrest
  rw [hfind]
  dsimp only
  by_cases hb : r.begin = offset
  · obtain rfl : d = offset := hd.symm.trans hb
    refine ⟨mid, r :: tail, by rw [if_pos hb], hmid, ⟨hd, hrlt, htail⟩, ?_, ?_⟩
    · rw [append_assoc]
      exact SameBytes.refl _
    · rwa [append_assoc]
  · have hblt : r.begin < offset := lt_of_le_of_ne hin.1 hb
    have hr := hret r (by simp) hblt hin.2
    refine ⟨mid ++ [{ r with stop := offset }], ⟨fresh, offset, r.stop, r.readyEvent, true⟩ :: tail,
      ?_, ?_, ⟨rfl, hin.2, htail⟩, ?_, ?_⟩
    · rw [if_neg hb, if_neg (not_not.mpr hr), append_assoc]
    · exact tiles_append.mpr ⟨d, hmid, hd, hblt, rfl⟩
    · simpa using sameBytes_cut (before ++ mid) tail hr fresh offset
    · have hnum'' : Numbered fresh (before ++ mid ++ r :: tail) := by simpa using hnum
      simpa using hnum''.cut offset r.stop r.readyEvent

end

/-! ### A reservation -/

section
variable {m m' : StagingBufferManager} {q : StagingRequest} {stream : Option ℕ} {x y : ℕ}

/-- The ranges tile the buffer, their numbers are different, and the head is one of them. -/
structure WF (m : StagingBufferManager) : Prop where
  fill : Fill 0 m.mSize m.mRanges
  numbered : Numbered m.nextId m.mRanges
  head : ∃ r ∈ m.mRanges, r.id = m.mHead

/-- The byte at an offset is in a retired range. -/
def RetiredAt (l : List StagingRange) (x : ℕ) : Prop := ∃ r ∈ l, r.contains x ∧ r.retired = true

/-- What a reservation promises of the range it returns and of the manager after it. -/
structure Granted (q : StagingRequest) (stream : Option ℕ) (m : StagingBufferManager)
    (res : Reservation) (m' : StagingBufferManager) : Prop where
  wf : m'.WF
  size : m'.mSize = m.mSize
  base : m'.baseAddress = m.baseAddress
  fresh : m.nextId ≤ res.range.id ∧ res.range.id < m'.nextId
  isLive : res.range.retired = false
  suits : res.range.Suits m.baseAddress q
  /-- The other live ranges are the ones from before. -/
  live : ∀ r, r.retired = false → (r ∈ m'.mRanges ↔ r ∈ m.mRanges ∨ r = res.range)
  /-- The bytes it covers were retired, and their events are waited for. -/
  waited : ∀ r ∈ m.mRanges, (∃ x, r.contains x ∧ res.range.contains x) →
    r.retired = true ∧ (stream, r.readyEvent) ∈ res.waits

variable {a e n : ℕ} {before rest run : List StagingRange}

/-- What is usable is rounded down to the granularity, and the minimum is a multiple of it. -/
lemma le_sub_mod {k g : ℕ} (hg : g ∣ k) (hk : k ≤ n) : k ≤ n - n % g := by
  have hmod : n - n % g = g * (n / g) := by
    have hn := div_add_mod n g
    omega
  obtain ⟨c, rfl⟩ := hg
  rw [hmod]
  rcases Nat.eq_zero_or_pos g with rfl | hpos
  · simp
  · exact Nat.mul_le_mul_left g ((Nat.le_div_iff_mul_le hpos).mpr (by rwa [mul_comm]))

/-- A live range lies outside of a run. -/
lemma outside_of_live (hbefore : Fill 0 a before)
    (hrest : Fill e n rest) (hret : ∀ r ∈ run, r.retired = true) {r : StagingRange}
    (hr : r ∈ before ++ (run ++ rest)) (hlive : r.retired = false) : r.stop ≤ a ∨ e ≤ r.begin := by
  simp only [mem_append] at hr
  rcases hr with hr | hr | hr
  · exact .inl (hbefore.bounds hr).2.2
  · rw [hret r hr] at hlive
    cases hlive
  · exact .inr (hrest.bounds hr).1

/-- The bytes found in a run are made one range. -/
lemma granted_payload {mid payload tail : List StagingRange} {d s : ℕ}
    (hl : m.mRanges = before ++ (run ++ rest)) (hbefore : Fill 0 a before)
    (hrest : Fill e m.mSize rest) (hret : ∀ r ∈ run, r.retired = true)
    (had : a ≤ d) (hds : d < s) (hse : s ≤ e)
    (hmid : Fill a d mid) (hpayload : Fill d s payload) (htail : Fill s m.mSize tail)
    (hsame : SameBytes m.mRanges (before ++ mid ++ payload ++ tail))
    (hnum : Numbered (m.nextId + 1 + 1) (before ++ mid ++ payload ++ tail))
    (hsuits : StagingRange.Suits ⟨m.nextId + 2, d, s, 0, false⟩ m.baseAddress q)
    {head : ℕ} (hhead : ∃ r ∈ before ++ mid ++ ⟨m.nextId + 2, d, s, 0, false⟩ :: tail,
      r.id = head) :
    m.Granted q stream ⟨⟨m.nextId + 2, d, s, 0, false⟩, payload.map fun r => (stream, r.readyEvent)⟩
      { m with
        mRanges := before ++ mid ++ ⟨m.nextId + 2, d, s, 0, false⟩ :: tail
        mHead := head
        nextId := m.nextId + 3 } := by
  have hfront : Fill 0 d (before ++ mid) := tiles_append.mpr ⟨a, hbefore, hmid⟩
  have hretired : ∀ r ∈ payload, r.retired ≠ false := by
    intro r hr hlive
    have hr₀ : r ∈ m.mRanges := (hsame.live r hlive).mp (by simp [hr])
    have hbounds := hpayload.bounds hr
    have hout := outside_of_live hbefore hrest hret (hl ▸ hr₀) hlive
    omega
  refine ⟨⟨tiles_append.mpr ⟨d, hfront, rfl, hds, htail⟩, ?_, hhead⟩, rfl, rfl, ?_, rfl, hsuits, ?_,
    ?_⟩
  · obtain ⟨hnd, hlt⟩ := hnum
    have hsub : ((before ++ mid) ++ tail).Sublist (before ++ mid ++ payload ++ tail) := by
      rw [append_assoc (before ++ mid)]
      exact (sublist_append_right payload tail).append_left _
    constructor
    · have hperm : ((before ++ mid ++ (⟨m.nextId + 2, d, s, 0, false⟩ : StagingRange) :: tail).map
          (·.id)).Perm ((m.nextId + 2) :: ((before ++ mid) ++ tail).map (·.id)) := by
        simp only [map_append, map_cons]
        exact perm_middle
      rw [hperm.nodup_iff, nodup_cons]
      refine ⟨fun hmem => ?_, hnd.sublist (hsub.map _)⟩
      obtain ⟨r, hr, hid⟩ := mem_map.mp hmem
      have hrlt := hlt r (hsub.subset hr)
      omega
    · intro r hr
      rcases mem_append.mp hr with hr | hr
      · exact (hlt r (hsub.subset (mem_append_left _ hr))).trans (lt_succ_self (m.nextId + 2))
      rcases mem_cons.mp hr with rfl | hr
      · exact lt_succ_self _
      · exact (hlt r (hsub.subset (mem_append_right _ hr))).trans (lt_succ_self (m.nextId + 2))
  · dsimp only
    omega
  · intro r hlive
    rw [← hsame.live r hlive]
    have hr : r ∉ payload := fun hmem => hretired r hmem hlive
    simp only [mem_append, mem_cons]
    tauto
  · rintro r hr ⟨x, hx, hxd, hxs⟩
    dsimp only at hxd hxs
    constructor
    · by_contra hlive
      have hlive := eq_false_of_not_eq_true hlive
      have hout := outside_of_live hbefore hrest hret (hl ▸ hr) hlive
      obtain ⟨hx₁, hx₂⟩ := hx
      omega
    · obtain ⟨r', hr', ⟨hx₁, hx₂⟩, hevent, -⟩ := hsame.byte x r hr hx
      have hmem : r' ∈ payload := by
        rcases mem_append.mp hr' with hr' | hr'
        · rcases mem_append.mp hr' with hr' | hr'
          · have hbounds := hfront.bounds hr'
            omega
          · exact hr'
        · have hbounds := htail.bounds hr'
          omega
      exact mem_map.mpr ⟨r', hmem, by rw [hevent]⟩

/-- **Taking the bytes** found in a run of retired ranges. -/
lemma WF.takePayload (h : m.WF) (hq : m.validArguments q) (stream : Option ℕ) {d : ℕ}
    (hl : m.mRanges = before ++ (run ++ rest)) (hbefore : Fill 0 a before)
    (hrun : Fill a e run) (hrest : Fill e m.mSize rest) (hret : ∀ r ∈ run, r.retired = true)
    (had : a ≤ d) (haligned : m.Aligned q d) (hspace : hasSpace d e q.minSize) :
    ∃ res m', m.takePayload q stream ⟨before, run ++ rest⟩ d e = (.ok res, m')
      ∧ m.Granted q stream res m' := by
  obtain ⟨hmin, -, hminmax, -, -, -, -, hgmin, -⟩ := hq
  obtain ⟨hde, hroom⟩ := hspace
  rw [StagingBufferManager.takePayload]
  set usable := min q.maxSize (e - d) with husable
  have hge : q.minSize ≤ usable - usable % q.sizeGranularity :=
    le_sub_mod (dvd_of_mod_eq_zero hgmin) (le_min hminmax hroom)
  have hle : usable - usable % q.sizeGranularity ≤ usable := sub_le _ _
  have hdvd : q.sizeGranularity ∣ usable - usable % q.sizeGranularity := dvd_sub_mod usable
  generalize usable - usable % q.sizeGranularity = n at hge hle hdvd ⊢
  have hesize := hrest.le
  have hnum := h.numbered
  rw [hl] at hnum
  obtain ⟨mid, after, heq, hmid, hafter, hsame, hnum₁⟩ :=
    splitRange_spec d hbefore (tiles_append.mpr ⟨e, hrun, hrest⟩) had (by omega) hnum (by
      intro r hr hlt hgt
      by_contra hlive
      have hnil : Fill 0 0 [] := rfl
      have hout := outside_of_live hnil hrest hret hr (eq_false_of_not_eq_true hlive)
      omega)
  have hcut : ∀ r ∈ after, r.begin < d + n → d + n < r.stop → r.retired = true := by
    intro r hr hlt hgt
    by_contra hlive
    have hlive := eq_false_of_not_eq_true hlive
    have hr₀ := (hsame.live r hlive).mp (by simp [hr])
    have hout := outside_of_live hbefore hrest hret hr₀ hlive
    omega
  obtain ⟨payload, tail, heq', hpayload, htail, hsame', hnum₂⟩ :=
    splitRange_spec (d + n) (tiles_append.mpr ⟨a, hbefore, hmid⟩) hafter
      (Nat.le_add_right d n) (by omega) hnum₁ hcut
  rw [heq]
  dsimp only
  rw [heq']
  dsimp only
  rw [drop_left]
  refine ⟨_, _, rfl,
    granted_payload hl hbefore hrest hret had (by omega) (by omega) hmid hpayload htail
    (hl ▸ hsame.trans hsame') hnum₂ ⟨haligned, ?_, ?_, ?_⟩ ?_⟩
  · simpa using hdvd
  · simpa using hge
  · simpa using hle.trans (min_le_left _ _)
  · by_cases hstop : d + n = m.mSize
    · rw [if_pos hstop]
      cases hfront : before ++ mid ++ (⟨m.nextId + 2, d, d + n, 0, false⟩ : StagingRange) :: tail
        with
      | nil => simp at hfront
      | cons r l => exact ⟨r, by simp, rfl⟩
    · rw [if_neg hstop]
      cases tail with
      | nil => exact absurd htail hstop
      | cons r l => exact ⟨r, by simp, rfl⟩

/-! ### The search -/

/-- Some aligned span of the least size has only retired bytes. -/
def Fits (q : StagingRequest) (m : StagingBufferManager) (l : List StagingRange) : Prop :=
  ∃ x, m.Aligned q x ∧ ∀ y, x ≤ y → y < x + q.minSize → RetiredAt l y

/-- The run grows over retired ranges, until the most that is asked for fits or it ends. -/
lemma extendRun_spec (d maxSize : ℕ) {l : List StagingRange} (before : List StagingRange)
    (h : Fill a n l) : ∃ run rest e, l = run ++ rest
      ∧ extendRun d maxSize a before l = (⟨before ++ run, rest⟩, e)
      ∧ Fill a e run ∧ Fill e n rest ∧ (∀ r ∈ run, r.retired = true)
      ∧ (hasSpace d e maxSize ∨ ∀ r ∈ rest.head?, r.retired = false) := by
  induction l generalizing a before with
  | nil => exact ⟨[], [], a, rfl, by rw [extendRun, append_nil], rfl, h, by simp, .inr (by simp)⟩
  | cons r l ih =>
    rw [extendRun]
    by_cases hr : r.retired ∧ ¬ hasSpace d a maxSize
    · obtain ⟨rfl, hlt, hl⟩ := h
      obtain ⟨run, rest, e, rfl, heq, hrun, hrest, hret, hend⟩ := ih (before ++ [r]) hl
      refine ⟨r :: run, rest, e, rfl, ?_, ⟨rfl, hlt, hrun⟩, hrest, ?_, hend⟩
      · rw [if_pos hr, heq, append_assoc, singleton_append]
      · simpa using ⟨hr.1, hret⟩
    · refine ⟨[], r :: l, a, rfl, by rw [if_neg hr, append_nil], rfl, h, by simp, ?_⟩
      rcases not_and_or.mp hr with hlive | hspace
      · exact .inr (by simpa using hlive)
      · exact .inl (not_not.mp hspace)

/-- In ranges that begin with a run that does not have the space, the span is behind the run. -/
lemma Fits.after_run (hq : 0 < q.minSize) (hrun : Fill a e run) (hrest : Fill e n rest)
    (hend : ∀ r ∈ rest.head?, r.retired = false)
    (hnone : ∀ x, m.Aligned q x → a ≤ x → x + q.minSize ≤ e → False)
    (h : m.Fits q (run ++ rest)) : m.Fits q rest := by
  obtain ⟨x, haligned, hbytes⟩ := h
  have hplace : ∀ y, x ≤ y → y < x + q.minSize →
      (a ≤ y ∧ y < e ∧ RetiredAt run y) ∨ (e ≤ y ∧ RetiredAt rest y) := by
    intro y hx hy
    obtain ⟨r, hr, hin, hret⟩ := hbytes y hx hy
    obtain ⟨h₁, h₂⟩ := hin
    rcases mem_append.mp hr with hr | hr
    · have hbounds := hrun.bounds hr
      exact .inl ⟨by omega, by omega, r, hr, ⟨h₁, h₂⟩, hret⟩
    · have hbounds := hrest.bounds hr
      exact .inr ⟨by omega, r, hr, ⟨h₁, h₂⟩, hret⟩
  have hx : e ≤ x := by
    rcases hplace x le_rfl (by omega) with ⟨hax, hxe, -⟩ | ⟨hex, -⟩
    · exfalso
      by_cases hfit : x + q.minSize ≤ e
      · exact hnone x haligned hax hfit
      · -- the byte at the end of the run would be retired, but the range there is live
        rcases hplace e hxe.le (not_le.mp hfit) with ⟨-, hlt, -⟩ | ⟨-, r, hr, ⟨hrb, hrs⟩, hret⟩
        · exact lt_irrefl e hlt
        · cases rest with
          | nil => simp at hr
          | cons r₀ rest =>
            have hr₀ : r₀.retired = false := hend r₀ rfl
            have hbegin : r₀.begin = e := hrest.1
            have hsame : r = r₀ := hrest.eq_of_mem hr (by simp) ⟨hrb, hrs⟩
              ⟨hbegin.le, hbegin ▸ hrest.2.1⟩
            rw [hsame, hr₀] at hret
            cases hret
    · exact hex
  refine ⟨x, haligned, fun y hxy hy => ?_⟩
  rcases hplace y hxy hy with ⟨-, hlt, -⟩ | ⟨-, hret⟩
  · omega
  · exact hret

/-- Live ranges at the front hold no span. -/
lemma Fits.after_live {live : List StagingRange} (hlive : ∀ r ∈ live, r.retired = false)
    (h : m.Fits q (live ++ rest)) : m.Fits q rest := by
  obtain ⟨x, haligned, hbytes⟩ := h
  refine ⟨x, haligned, fun y hx hy => ?_⟩
  obtain ⟨r, hr, hin, hret⟩ := hbytes y hx hy
  rcases mem_append.mp hr with hr | hr
  · rw [hlive r hr] at hret
    cases hret
  · exact ⟨r, hr, hin, hret⟩

/-- **The search** takes the first run with space; without a result no span fits. -/
lemma WF.reserveFrom (h : m.WF) (hq : m.validArguments q) (stream : Option ℕ) (fuel : ℕ) :
    ∀ (before rest : List StagingRange), m.mRanges = before ++ rest → rest.length < fuel →
      (∃ res m', m.reserveFrom q stream fuel ⟨before, rest⟩ = some (.ok res, m')
        ∧ m.Granted q stream res m')
      ∨ (m.reserveFrom q stream fuel ⟨before, rest⟩ = none ∧ ¬ m.Fits q rest) := by
  have hmin : 0 < q.minSize := hq.1
  have hminmax : q.minSize ≤ q.maxSize := hq.2.2.1
  have halign : 0 < q.alignment := hq.2.2.2.2.1
  induction fuel with
  | zero => exact fun before rest _ hlt => absurd hlt (Nat.not_lt_zero _)
  | succ fuel ih =>
    intro before rest hl hlt
    obtain ⟨live, tail, hrest, hlive, hskip, hhead⟩ : ∃ live tail, rest = live ++ tail
        ∧ (∀ r ∈ live, r.retired = false)
        ∧ RangeIter.skip (fun r => !r.retired) ⟨before, rest⟩ = ⟨before ++ live, tail⟩
        ∧ ∀ r ∈ tail.head?, r.retired = true := by
      refine ⟨_, _, (takeWhile_append_dropWhile).symm, fun r hr => ?_, rfl, fun r hr => ?_⟩
      · simpa using mem_takeWhile_imp hr
      · have hnot := head?_dropWhile_not (fun r : StagingRange => !r.retired) rest
        rw [hr] at hnot
        simpa using hnot
    subst hrest
    rw [StagingBufferManager.reserveFrom]
    rw [hskip]
    cases tail with
    | nil =>
      refine .inr ⟨rfl, fun hfits => ?_⟩
      obtain ⟨x, -, hbytes⟩ := hfits.after_live hlive
      obtain ⟨r, hr, -⟩ := hbytes x le_rfl (by omega)
      simp at hr
    | cons r tail =>
      have hfill := h.fill
      rw [hl, ← append_assoc] at hfill
      obtain ⟨a, hfront, hback⟩ := tiles_append.mp hfill
      obtain rfl : r.begin = a := hback.1
      obtain ⟨run, rest, e, hsplit, heq, hrun, hend, hret, hstop⟩ :=
        extendRun_spec (m.alignedOffset q r.begin) q.maxSize (before ++ live) hback
      dsimp only
      rw [heq]
      by_cases hspace : hasSpace (m.alignedOffset q r.begin) e q.minSize
      · rw [if_pos hspace, hsplit]
        obtain ⟨res, m', htake, hgranted⟩ := h.takePayload hq stream
          (by rw [hl, ← append_assoc, hsplit]) hfront hrun hend hret (le_alignedOffset halign)
          (aligned_alignedOffset halign) hspace
        exact .inl ⟨res, m', by rw [htake], hgranted⟩
      · rw [if_neg hspace]
        -- the run ended at a live range, and a span inside it would have been found
        have hmaximal : ∀ r ∈ rest.head?, r.retired = false := by
          rcases hstop with hmax | hlive
          · exact absurd ⟨hmax.1, hminmax.trans hmax.2⟩ hspace
          · exact hlive
        have hnone : ∀ x, m.Aligned q x → r.begin ≤ x → x + q.minSize ≤ e → False := by
          intro x haligned hx hfit
          have hle := alignedOffset_le halign hx haligned
          exact hspace ⟨by omega, by omega⟩
        have hrunlen : 0 < run.length := by
          rcases run with - | ⟨r', run⟩
          · have hsame : rest = r :: tail := by simpa using hsplit.symm
            have hcontra := hmaximal r (by rw [hsame]; rfl)
            rw [hhead r rfl] at hcontra
            cases hcontra
          · simp
        have hlen : rest.length < fuel := by
          have hcount := congrArg length hsplit
          simp only [length_append, length_cons] at hcount hlt
          omega
        rcases ih (before ++ live ++ run) rest
          (by rw [hl, append_assoc, append_assoc, hsplit]) hlen with hfound | ⟨hno, hnofit⟩
        · exact .inl hfound
        · refine .inr ⟨hno, fun hfits => hnofit ?_⟩
          have hfits' := hfits.after_live hlive
          rw [hsplit] at hfits'
          exact hfits'.after_run hmin hrun hend hmaximal hnone

/-- What a retired byte is part of lies inside the buffer. -/
lemma Fits.le_size {l : List StagingRange} (hq : 0 < q.minSize) (hl : Fill 0 n l)
    (halign : 0 < q.alignment) (h : m.Fits q l) : m.alignedOffset q 0 + q.minSize ≤ n := by
  obtain ⟨x, haligned, hbytes⟩ := h
  obtain ⟨r, hr, ⟨-, hlt⟩, -⟩ := hbytes (x + q.minSize - 1) (by omega) (by omega)
  have hbounds := hl.bounds hr
  have hle := alignedOffset_le halign (Nat.zero_le x) haligned
  omega

/-- What was reserved was a span of retired bytes. -/
lemma Granted.fits {res : Reservation} (h : m.WF) (hg : m.Granted q stream res m') :
    m.Fits q m.mRanges := by
  have hmem : res.range ∈ m'.mRanges := (hg.live _ hg.isLive).mpr (.inr rfl)
  have hbounds := hg.wf.fill.bounds hmem
  have hge := hg.suits.ge
  rw [hg.size] at hbounds
  refine ⟨res.range.begin, hg.suits.aligned, fun y hx hy => ?_⟩
  obtain ⟨r, hr, hin⟩ := h.fill.exists_mem (Nat.zero_le y) (by omega : y < m.mSize)
  exact ⟨r, hr, hin, (hg.waited r hr ⟨y, hin, hx, by omega⟩).1⟩

/-- **`reserve`**: a buffer exactly when the arguments are valid and a span fits, and otherwise
the manager is as it was. -/
lemma WF.reserve (h : m.WF) (q : StagingRequest) (stream : Option ℕ) :
    ((m.validArguments q ∧ m.Fits q m.mRanges)
      ∧ ∃ res m', m.reserve q stream = (.ok res, m') ∧ m.Granted q stream res m')
    ∨ (¬ (m.validArguments q ∧ m.Fits q m.mRanges) ∧ ∃ e, m.reserve q stream = (.error e, m)) := by
  rw [StagingBufferManager.reserve]
  by_cases hq : m.validArguments q
  swap
  · exact .inr ⟨fun hboth => hq hboth.1, .invalidArguments, by rw [if_pos hq]⟩
  rw [if_neg (not_not.mpr hq)]
  by_cases hmin : m.alignedOffset q 0 + q.minSize ≤ m.mSize
  swap
  · refine .inr ⟨fun hboth => hmin ?_, .minimumDoesNotFit, by rw [if_pos hmin]⟩
    exact hboth.2.le_size hq.1 h.fill hq.2.2.2.2.1
  rw [if_neg (not_not.mpr hmin)]
  dsimp only
  have hhead : m.mRanges = m.headIter.before ++ m.headIter.rest := by
    rw [headIter, RangeIter.skip, nil_append, takeWhile_append_dropWhile]
  have hlen : m.headIter.rest.length < m.mRanges.length + 1 := by
    rw [hhead, length_append]
    omega
  rcases h.reserveFrom hq stream (m.mRanges.length + 1) m.headIter.before m.headIter.rest
    hhead hlen with ⟨res, m', heq, hg⟩ | ⟨hnone, hnofit⟩
  · exact .inl ⟨⟨hq, hg.fits h⟩, res, m', by rw [heq], hg⟩
  rw [hnone]
  by_cases hfirst : m.headIter.before = []
  · rw [if_neg (not_not.mpr hfirst)]
    rw [hfirst, nil_append] at hhead
    exact .inr ⟨fun hboth => hnofit (hhead ▸ hboth.2), .noContiguousRange, rfl⟩
  · rw [if_pos hfirst]
    rcases h.reserveFrom hq stream (m.mRanges.length + 1) [] m.mRanges rfl
      (lt_succ_self _) with ⟨res, m', heq, hg⟩ | ⟨hnone', hnofit'⟩
    · exact .inl ⟨⟨hq, hg.fits h⟩, res, m', by rw [heq], hg⟩
    · rw [hnone']
      exact .inr ⟨fun hboth => hnofit' hboth.2, .noContiguousRange, rfl⟩

end

end StagingBufferManager

end TrtLlm
