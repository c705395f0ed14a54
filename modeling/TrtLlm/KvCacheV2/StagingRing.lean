import TrtLlm.Util.Machine
import TrtLlm.KvCacheV2.StagingBuffer
import Mathlib.Data.List.DropRight

/-!
The ranges of a `StagingBufferManager` over whole runs of `reserve` and `retire`.

* `fits_iff`: a span fits exactly when a maximal run of retired ranges contains it;
* `stagingBuffer_ring`: tiling, buffers and head in every state of every run, and what `reserve`
  does there.
-/

namespace TrtLlm

open Tiling List

namespace StagingBufferManager

/-! ### Maximal runs -/

/-- Retired ranges next to each other, with no retired range on either side. -/
structure MaximalRun (l before run after : List StagingRange) : Prop where
  eq : l = before ++ run ++ after
  ne : run ≠ []
  retired : ∀ r ∈ run, r.retired = true
  left : ∀ r ∈ before.getLast?, r.retired = false
  right : ∀ r ∈ after.head?, r.retired = false

/-- A span of bytes lies between the first and the last range of a run. -/
def SpanIn (run : List StagingRange) (x n : ℕ) : Prop :=
  (∃ r ∈ run.head?, r.begin ≤ x) ∧ ∃ r ∈ run.getLast?, x + n ≤ r.stop

section
variable {m : StagingBufferManager} {q : StagingRequest} {run : List StagingRange} {a b x n : ℕ}

lemma spanIn_iff (h : Fill a b run) (hne : run ≠ []) : SpanIn run x n ↔ a ≤ x ∧ x + n ≤ b := by
  have hhead : (∃ r ∈ run.head?, r.begin ≤ x) ↔ a ≤ x := by
    cases run with
    | nil => exact absurd rfl hne
    | cons r run =>
      obtain rfl : r.begin = a := h.1
      simp
  have hlast : (∃ r ∈ run.getLast?, x + n ≤ r.stop) ↔ x + n ≤ b := by
    rcases eq_nil_or_concat run with rfl | ⟨init, r, rfl⟩
    · exact absurd rfl hne
    · rw [concat_eq_append] at h ⊢
      obtain ⟨c, -, -, -, rfl⟩ := tiles_append.mp h
      simp
  rw [SpanIn, hhead, hlast]

/-- The span fits exactly when some maximal run contains it. -/
lemma fits_iff {l : List StagingRange} (hl : Fill 0 b l) (hq : 0 < q.minSize) :
    m.Fits q l ↔ ∃ before run after, MaximalRun l before run after
      ∧ ∃ x, m.Aligned q x ∧ SpanIn run x q.minSize := by
  constructor
  · rintro ⟨x, haligned, hbytes⟩
    obtain ⟨r, hr, hin, hret⟩ := hbytes x le_rfl (by omega)
    obtain ⟨p, s, rfl⟩ := append_of_mem hr
    set retired := fun r : StagingRange => r.retired with hretired
    have hp : p.rdropWhile retired ++ p.rtakeWhile retired = p := rdropWhile_append_rtakeWhile
    have hs : s.takeWhile retired ++ s.dropWhile retired = s := takeWhile_append_dropWhile
    have heq : p ++ r :: s = p.rdropWhile retired
        ++ (p.rtakeWhile retired ++ r :: s.takeWhile retired) ++ s.dropWhile retired := by
      rw [append_assoc, append_assoc, cons_append, hs, ← append_assoc, hp]
    have hmax : MaximalRun (p ++ r :: s) (p.rdropWhile retired)
        (p.rtakeWhile retired ++ r :: s.takeWhile retired) (s.dropWhile retired) := by
      refine ⟨heq, by simp, fun r' hr' => ?_, fun r' hr' => ?_, fun r' hr' => ?_⟩
      · rcases mem_append.mp hr' with hr' | hr'
        · exact mem_rtakeWhile_imp hr'
        rcases mem_cons.mp hr' with rfl | hr'
        · exact hret
        · exact mem_takeWhile_imp hr'
      · obtain ⟨hne, rfl⟩ := mem_getLast?_eq_getLast hr'
        simpa using rdropWhile_last_not retired p hne
      · have hnot := head?_dropWhile_not retired s
        rw [hr'] at hnot
        simpa using hnot
    refine ⟨_, _, _, hmax, x, haligned, ?_⟩
    rw [heq] at hl
    obtain ⟨e, hfront, hafter⟩ := tiles_append.mp hl
    obtain ⟨c, hbefore, hrun⟩ := tiles_append.mp hfront
    rw [spanIn_iff hrun hmax.ne]
    have hx := hrun.bounds (r := r) (by simp)
    refine ⟨hx.1.trans hin.1, ?_⟩
    by_contra hlt
    -- the byte after the run would be retired
    have hxe : x ≤ e := hin.2.le.trans hx.2.2
    obtain ⟨r', hr', hin', hret'⟩ := hbytes e hxe (not_le.mp hlt)
    rw [heq] at hr'
    rcases mem_append.mp hr' with hr' | hr'
    · have hbounds := hfront.bounds hr'
      exact absurd hin'.2 (by omega)
    · cases hrest : s.dropWhile retired with
      | nil => simp [hrest] at hr'
      | cons r₀ rest =>
        rw [hrest] at hafter hr'
        have hr₀ : r₀.retired = false := hmax.right r₀ (by rw [hrest]; rfl)
        have hbegin : r₀.begin = e := hafter.1
        have hsame : r' = r₀ := hafter.eq_of_mem hr' (by simp) hin'
          ⟨hbegin.le, hbegin ▸ hafter.2.1⟩
        rw [hsame, hr₀] at hret'
        cases hret'
  · rintro ⟨before, run, after, hmax, x, haligned, hspan⟩
    rw [hmax.eq] at hl ⊢
    obtain ⟨e, hfront, -⟩ := tiles_append.mp hl
    obtain ⟨c, -, hrun⟩ := tiles_append.mp hfront
    rw [spanIn_iff hrun hmax.ne] at hspan
    refine ⟨x, haligned, fun y hx hy => ?_⟩
    obtain ⟨r, hr, hin⟩ := hrun.exists_mem (hspan.1.trans hx) (by omega)
    exact ⟨r, by simp [hr], hin, hmax.retired r hr⟩

end

/-! ### Runs -/

/-- The calls of the manager; the holder of a buffer names its range. -/
inductive Call where
  | reserve (q : StagingRequest) (stream : Option ℕ)
  | retire (id readyEvent : ℕ)

/-- A call; a reservation puts out the range it returns and what was asked for. -/
def step (m : StagingBufferManager) : Call → List (ℕ × StagingRequest) × StagingBufferManager
  | .reserve q stream =>
    match m.reserve q stream with
    | (.ok res, m') => ([(res.range.id, q)], m')
    | (.error _, m') => ([], m')
  | .retire id readyEvent => ([], m.retire id readyEvent)

/-- The invariant of a run, with the reservations it made. -/
structure Inv (size base : ℕ) (out : List (ℕ × StagingRequest))
    (m : StagingBufferManager) : Prop where
  wf : m.WF
  size : m.mSize = size
  address : m.baseAddress = base
  known : ∀ g ∈ out, g.1 < m.nextId
  asked : ∀ r ∈ m.mRanges, r.retired = false →
    (∃ q, (r.id, q) ∈ out) ∧ ∀ q, (r.id, q) ∈ out → r.Suits base q

section
variable {m : StagingBufferManager} {size base : ℕ} {out : List (ℕ × StagingRequest)}

lemma inv_new (hsize : 0 < size) : Inv size base [] (new size base) := by
  refine ⟨⟨⟨rfl, hsize, rfl⟩, ⟨by simp [new], by simp [new]⟩, by simp [new]⟩, rfl, rfl, by simp, ?_⟩
  intro r hr hlive
  obtain rfl : r = ⟨0, 0, size, 0, true⟩ := by simpa [new] using hr
  cases hlive

/-- Retiring changes no bounds. -/
lemma fill_map {f : StagingRange → StagingRange} (hbegin : ∀ r, (f r).begin = r.begin)
    (hstop : ∀ r, (f r).stop = r.stop) {a b : ℕ} {l : List StagingRange} (h : Fill a b l) :
    Fill a b (l.map f) := by
  induction l generalizing a with
  | nil => exact h
  | cons r l ih =>
    obtain ⟨rfl, hlt, hl⟩ := h
    refine ⟨hbegin r, ?_, ?_⟩
    · rw [hbegin, hstop]
      exact hlt
    · rw [hstop]
      exact ih hl

lemma Inv.retire (h : Inv size base out m) (id event : ℕ) :
    Inv size base out (m.retire id event) := by
  set f := fun r : StagingRange =>
    if r.id = id then { r with readyEvent := event, retired := true } else r with hf
  have hid : ∀ r, (f r).id = r.id := by
    intro r
    simp only [hf]
    split <;> rfl
  refine ⟨⟨fill_map (f := f) ?_ ?_ h.wf.fill, ⟨?_, ?_⟩, ?_⟩, h.size, h.address, h.known, ?_⟩
  · intro r
    simp only [hf]
    split <;> rfl
  · intro r
    simp only [hf]
    split <;> rfl
  · have hids : ((m.retire id event).mRanges.map (·.id)) = m.mRanges.map (·.id) := by
      rw [StagingBufferManager.retire, map_map]
      exact map_congr_left fun r _ => hid r
    rw [hids]
    exact h.wf.numbered.1
  · intro r hr
    obtain ⟨r₀, hr₀, rfl⟩ := mem_map.mp hr
    exact (hid r₀).trans_lt (h.wf.numbered.2 r₀ hr₀)
  · obtain ⟨r, hr, hhead⟩ := h.wf.head
    exact ⟨f r, mem_map_of_mem hr, (hid r).trans hhead⟩
  · intro r hr hlive
    obtain ⟨r₀, hr₀, rfl⟩ := mem_map.mp hr
    by_cases heq : r₀.id = id
    · simp [heq] at hlive
    · simp only [if_neg heq] at hlive ⊢
      exact h.asked r₀ hr₀ hlive

lemma Inv.step (h : Inv size base out m) (c : Call) :
    Inv size base (out ++ (m.step c).1) (m.step c).2 := by
  cases c with
  | retire id event => simpa [StagingBufferManager.step] using h.retire id event
  | reserve q stream =>
    rw [StagingBufferManager.step]
    rcases h.wf.reserve q stream with ⟨-, res, m', heq, hg⟩ | ⟨-, e, heq⟩ <;> rw [heq]
    · obtain ⟨hfresh, hnext⟩ := hg.fresh
      refine ⟨hg.wf, hg.size.trans h.size, hg.base.trans h.address, ?_, ?_⟩
      · intro g hg'
        rcases mem_append.mp hg' with hold | hnew
        · have hlt := h.known g hold
          dsimp only
          omega
        · obtain rfl := mem_singleton.mp hnew
          exact hnext
      · intro r hr hlive
        rcases (hg.live r hlive).mp hr with hold | rfl
        · obtain ⟨⟨q', hq'⟩, hall⟩ := h.asked r hold hlive
          have hlt := h.wf.numbered.2 r hold
          refine ⟨⟨q', mem_append_left _ hq'⟩, fun q'' hq'' => ?_⟩
          rcases mem_append.mp hq'' with hq'' | hq''
          · exact hall q'' hq''
          · have hid : r.id = res.range.id := congrArg Prod.fst (mem_singleton.mp hq'')
            omega
        · refine ⟨⟨q, by simp⟩, fun q'' hq'' => ?_⟩
          rcases mem_append.mp hq'' with hq'' | hq''
          · have hlt := h.known _ hq''
            omega
          · obtain rfl : q'' = q := congrArg Prod.snd (mem_singleton.mp hq'')
            exact h.address ▸ hg.suits
    · simpa using h

/-- What is promised of a state after the reservations of `out`. -/
structure Ring (size base : ℕ) (out : List (ℕ × StagingRequest)) (m : StagingBufferManager) :
    Prop where
  /-- The ranges tile the buffer in order. -/
  tiles : Tiles StagingRange.begin StagingRange.stop 0 size m.mRanges
  /-- Live buffers are disjoint. -/
  disjoint : (m.mRanges.filter fun r => !r.retired).Pairwise fun r r' => r.stop ≤ r'.begin
  /-- A live buffer was reserved, and is as its request asked. -/
  asked : ∀ r ∈ m.mRanges, r.retired = false →
    (∃ q, (r.id, q) ∈ out) ∧ ∀ q, (r.id, q) ∈ out → r.Suits base q
  head : ∃ r ∈ m.mRanges, r.id = m.mHead
  /-- With valid arguments a buffer is returned exactly when a maximal run of retired ranges has
  an aligned span of the least size; it is a live range after it, and the events of the ranges
  it covers are waited for.  Otherwise nothing changes. -/
  reserve : ∀ q stream,
    ((m.validArguments q ∧ ∃ before run after, MaximalRun m.mRanges before run after
        ∧ ∃ x, m.Aligned q x ∧ SpanIn run x q.minSize)
      ∧ ∃ res m', m.reserve q stream = (.ok res, m') ∧ res.range ∈ m'.mRanges
        ∧ res.range.retired = false ∧ res.range.Suits base q
        ∧ ∀ r ∈ m.mRanges, (∃ x, r.contains x ∧ res.range.contains x) →
          r.retired = true ∧ (stream, r.readyEvent) ∈ res.waits)
    ∨ (¬ (m.validArguments q ∧ ∃ before run after, MaximalRun m.mRanges before run after
        ∧ ∃ x, m.Aligned q x ∧ SpanIn run x q.minSize)
      ∧ ∃ e, m.reserve q stream = (.error e, m))

lemma Inv.ring (h : Inv size base out m) : Ring size base out m := by
  have hfill := h.wf.fill
  rw [h.size] at hfill
  refine ⟨hfill, hfill.pairwise.filter _, h.asked, h.wf.head, fun q stream => ?_⟩
  have hiff : (m.validArguments q ∧ m.Fits q m.mRanges) ↔ m.validArguments q
      ∧ ∃ before run after, MaximalRun m.mRanges before run after
        ∧ ∃ x, m.Aligned q x ∧ SpanIn run x q.minSize :=
    and_congr_right fun hq => fits_iff hfill hq.1
  rw [← hiff]
  rcases h.wf.reserve q stream with ⟨hfits, res, m', heq, hg⟩ | ⟨hno, e, heq⟩
  · exact .inl ⟨hfits, res, m', heq, (hg.live _ hg.isLive).mpr (.inr rfl), hg.isLive,
      h.address ▸ hg.suits, hg.waited⟩
  · exact .inr ⟨hno, e, heq⟩

end

/-- **The ring** after any sequence of calls on a new manager. -/
theorem stagingBuffer_ring {size base : ℕ} (hsize : 0 < size) (calls : List Call) :
    Ring size base (Machine.run step (new size base) calls).1
      (Machine.run step (new size base) calls).2 :=
  (Machine.run_induction (J := Inv size base) (inv_new hsize) (fun _ _ c h => h.step c) calls).ring

/-- Two buffers, of which the first is retired: a third one does not fit behind the second, and
is taken from the front after a wait for the event of the first. -/
theorem stagingBuffer_ring_wraps :
    let m := (Machine.run step (new 64 8) [.reserve ⟨16, 40, 8, 8⟩ none,
      .reserve ⟨16, 16, 8, 8⟩ none, .retire 3 7]).2
    m.mRanges.map (fun r => (r.begin, r.stop, r.retired))
        = [(0, 40, true), (40, 56, false), (56, 64, true)]
      ∧ ((m.reserve ⟨16, 32, 8, 8⟩ (some 2)).1.toOption.map fun res =>
          (res.range.begin, res.range.stop, res.waits)) = some (0, 32, [(some 2, 7)])
      ∧ ∃ out, Ring 64 8 out m :=
  ⟨by decide, by decide, _, stagingBuffer_ring (by decide) _⟩

end StagingBufferManager

end TrtLlm
