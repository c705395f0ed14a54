import Mathlib.Tactic

/-!
Items of a known length that are laid out on a line in runs.

A run covers some positions, one after the other, with tokens of an item, from an offset inside the
item on.  A window of the line is summarised by a list of keys, one for each run that reaches into
it: the item, and the offset of the first token in the window.  The keys do not say where in the
window a run lies.

* `InOrder`: the runs are listed from left to right, and an item is complete before the next one
  begins;
* `InOrder.itemAt_of_keys`: **two such lists with the same keys for a window, on the same positions,
  have the same tokens in it**;
* `sameTokens_iff_beginTogether`: in general that is so exactly when the runs of the window begin
  together.
-/

namespace TrtLlm

open List

/-- A run of tokens of an item. -/
structure PlacedRun (η : Type*) where
  item : η
  start : ℤ
  length : ℤ
  offset : ℤ
deriving DecidableEq

namespace PlacedRun

variable {η : Type*} {r r' a b : PlacedRun η} {l l' as bs : List (PlacedRun η)} {p x e o : ℤ}
    {i : η}

/-- One past the last position of a run. -/
def stop (r : PlacedRun η) : ℤ := r.start + r.length

/-- A run covers a position. -/
def Covers (r : PlacedRun η) (p : ℤ) : Prop := r.start ≤ p ∧ p < r.stop

/-- A run reaches into a window. -/
def Reaches (x e : ℤ) (r : PlacedRun η) : Prop := r.start < e ∧ x < r.stop

instance (x e : ℤ) (r : PlacedRun η) : Decidable (Reaches x e r) :=
  inferInstanceAs (Decidable (_ ∧ _))

/-- The token of an item at a position. -/
def ItemAt (l : List (PlacedRun η)) (p : ℤ) (i : η) (o : ℤ) : Prop :=
  ∃ r ∈ l, r.Covers p ∧ r.item = i ∧ r.offset + (p - r.start) = o

/-- A position is covered. -/
def Covered (l : List (PlacedRun η)) (p : ℤ) : Prop := ∃ r ∈ l, r.Covers p

/-- The key of a run in a window that begins at `x`. -/
def key (x : ℤ) (r : PlacedRun η) : η × ℤ := (r.item, r.offset + max x r.start - r.start)

/-- The keys of a window. -/
def keys (x e : ℤ) (l : List (PlacedRun η)) : List (η × ℤ) :=
  (l.filter fun r => Reaches x e r).map (key x)

lemma keys_cons_of_reaches (h : Reaches x e r) : keys x e (r :: l) = key x r :: keys x e l := by
  rw [keys, filter_cons_of_pos (by simpa using h), map_cons]
  rfl

lemma keys_cons_of_not (h : ¬ Reaches x e r) : keys x e (r :: l) = keys x e l := by
  rw [keys, filter_cons_of_neg (by simpa using h)]
  rfl

lemma keys_append (x e : ℤ) (l l' : List (PlacedRun η)) :
    keys x e (l ++ l') = keys x e l ++ keys x e l' := by
  rw [keys, filter_append, map_append]
  rfl

lemma keys_eq_nil (h : ∀ r ∈ l, ¬ Reaches x e r) : keys x e l = [] := by
  rw [keys, map_eq_nil_iff, filter_eq_nil_iff]
  intro r hr
  simpa using h r hr

/-- A window that begins later, but not after one of the runs begins, has the same keys. -/
lemma keys_congr {x' : ℤ} (hx : x ≤ x') (h : ∀ r ∈ l, x' ≤ r.start ∧ 0 < r.length) :
    keys x' e l = keys x e l := by
  induction l with
  | nil => rfl
  | cons r l ih =>
    obtain ⟨hstart, hpos⟩ := h r mem_cons_self
    have ih := ih fun r hr => h r (mem_cons_of_mem _ hr)
    have hkey : key x' r = key x r := by
      rw [key, key, max_eq_right hstart, max_eq_right (hx.trans hstart)]
    have hiff : Reaches x' e r ↔ Reaches x e r := by
      rw [Reaches, Reaches, stop]
      constructor
      · rintro ⟨h₁, -⟩
        exact ⟨h₁, by omega⟩
      · rintro ⟨h₁, -⟩
        exact ⟨h₁, by omega⟩
    by_cases hr : Reaches x e r
    · rw [keys_cons_of_reaches hr, keys_cons_of_reaches (hiff.mpr hr), hkey, ih]
    · rw [keys_cons_of_not hr, keys_cons_of_not fun h => hr (hiff.mp h), ih]

lemma covered_cons : Covered (r :: l) p ↔ r.Covers p ∨ Covered l p := by
  simp [Covered]

/-! ### Runs from left to right -/

/-- A run stands before another one, and continues with it or is the last one of its item. -/
def Precedes (total : η → ℤ) (r r' : PlacedRun η) : Prop :=
  r.stop ≤ r'.start
    ∧ (r'.item = r.item ∧ r'.offset = r.offset + r.length
      ∨ r.offset + r.length = total r.item ∧ r'.offset = 0)

/-- **The runs are listed from left to right, and an item is complete before the next one
begins.** -/
structure InOrder (total : η → ℤ) (l : List (PlacedRun η)) : Prop where
  chain : l.IsChain (Precedes total)
  offset_nonneg : ∀ r ∈ l, 0 ≤ r.offset
  length_pos : ∀ r ∈ l, 0 < r.length
  within : ∀ r ∈ l, r.offset + r.length ≤ total r.item

variable {total : η → ℤ}

lemma InOrder.tail (h : InOrder total (r :: l)) : InOrder total l where
  chain := h.chain.tail
  offset_nonneg r hr := h.offset_nonneg r (mem_cons_of_mem _ hr)
  length_pos r hr := h.length_pos r (mem_cons_of_mem _ hr)
  within r hr := h.within r (mem_cons_of_mem _ hr)

/-- What is listed later lies further to the right. -/
lemma InOrder.stop_le (h : InOrder total (r :: l)) (hr : r' ∈ l) : r.stop ≤ r'.start := by
  induction l generalizing r with
  | nil => cases hr
  | cons r₁ l ih =>
    have hfirst : r.stop ≤ r₁.start := (isChain_cons_cons.mp h.chain).1.1
    obtain rfl | hr := mem_cons.mp hr
    · exact hfirst
    · have hpos := h.length_pos r₁ (mem_cons_of_mem _ mem_cons_self)
      have hlater := ih h.tail hr
      rw [stop] at hlater
      omega

lemma InOrder.start_le (h : InOrder total (r :: l)) (hr : r' ∈ r :: l) : r.start ≤ r'.start := by
  obtain rfl | hr := mem_cons.mp hr
  · exact le_refl _
  · have hpos := h.length_pos r mem_cons_self
    have hle := h.stop_le hr
    rw [stop] at hle
    omega

/-- The first of the runs that reach into a window has the first position that is covered. -/
lemma InOrder.first_le (hb : InOrder total (b :: bs)) (hxe : x < e) (hra : Reaches x e a)
    (hpos : 0 < a.length)
    (hcov : ∀ p, x ≤ p → p < e → Covered (a :: as) p → Covered (b :: bs) p) :
    b.start ≤ max x a.start := by
  rw [Reaches, stop] at hra
  obtain ⟨r, hr, hcovers⟩ := hcov (max x a.start) (le_max_left _ _) (by omega)
    ⟨a, mem_cons_self, le_max_right _ _, by rw [stop]; omega⟩
  exact (hb.start_le hr).trans hcovers.1

/-- The key of a run that begins in the window has its own offset. -/
lemma key_of_le (h : x ≤ r.start) : key x r = (r.item, r.offset) := by
  rw [key, max_eq_right h, add_sub_cancel_right]

/-- **Of two first runs with one key, none ends before the other one does**: the run after it would
continue the item where the other list has more of it, or begin one where the item is not
complete. -/
lemma InOrder.not_stop_lt (ha : InOrder total (a :: as)) (hb : InOrder total (b :: bs))
    (hra : Reaches x e a) (hrb : Reaches x e b) (hitem : a.item = b.item)
    (haligned : a.offset - a.start = b.offset - b.start) (hkeys : keys x e as = keys x e bs)
    (hle : b.start ≤ a.stop)
    (hcov : ∀ p, x ≤ p → p < e → Covered (b :: bs) p → Covered (a :: as) p) :
    ¬ (a.stop < e ∧ a.stop < b.stop) := by
  rintro ⟨hlt, hlt'⟩
  obtain ⟨r, hr, hcovers⟩ := hcov a.stop hra.2.le hlt ⟨b, mem_cons_self, hle, hlt'⟩
  have hr : r ∈ as := (mem_cons.mp hr).resolve_left fun heq => by
    rw [heq] at hcovers
    exact absurd hcovers.2 (lt_irrefl _)
  cases as with
  | nil => cases hr
  | cons a' as' =>
    have hnext := (isChain_cons_cons.mp ha.chain).1
    have hstart : a'.start = a.stop := le_antisymm ((ha.tail.start_le hr).trans hcovers.1) hnext.1
    have hpos' := ha.length_pos a' (mem_cons_of_mem _ mem_cons_self)
    have hreach : Reaches x e a' := by
      refine ⟨hstart ▸ hlt, ?_⟩
      rw [stop, hstart]
      have := hra.2
      omega
    rw [keys_cons_of_reaches hreach, key_of_le (hstart ▸ hra.2.le)] at hkeys
    cases bs with
    | nil => cases hkeys
    | cons b' bs' =>
      have hnext' := (isChain_cons_cons.mp hb.chain).1
      have hreach' : Reaches x e b' := by
        refine ⟨?_, ?_⟩
        · by_contra hge
          rw [keys_eq_nil fun r hr hreach => hge ((hb.tail.start_le hr).trans_lt hreach.1)] at hkeys
          cases hkeys
        · have hpos := hb.length_pos b' (mem_cons_of_mem _ mem_cons_self)
          have h₁ := hnext'.1
          have h₂ := hrb.2
          rw [stop]
          omega
      rw [keys_cons_of_reaches hreach', key_of_le (hrb.2.le.trans hnext'.1)] at hkeys
      have hoffset : a'.offset = b'.offset :=
        congrArg (fun l => (l.head?.map Prod.snd).getD 0) hkeys
      have hpos := ha.length_pos a mem_cons_self
      have hnonneg := ha.offset_nonneg a mem_cons_self
      have hwithin := hb.within b mem_cons_self
      rw [stop, stop] at hlt'
      rcases hnext.2 with ⟨-, hcont⟩ | ⟨hdone, -⟩
      · rcases hnext'.2 with ⟨-, hcont'⟩ | ⟨-, hnew'⟩
        · omega
        · omega
      · rw [hitem] at hdone
        omega

/-- A first run that does not reach into a window with a covered position is left of it. -/
lemma InOrder.stop_le_of_not_reaches (h : InOrder total (r :: l)) (hr : ¬ Reaches x e r)
    (hcov : Covered (r :: l) p) (he : p < e) : r.stop ≤ x := by
  obtain ⟨r', hr', hcovers⟩ := hcov
  have hstart := (h.start_le hr').trans hcovers.1
  by_contra hlt
  exact hr ⟨hstart.trans_lt he, not_le.mp hlt⟩

lemma covered_cons_of_stop_le (h : r.stop ≤ p) : Covered (r :: l) p ↔ Covered l p := by
  rw [covered_cons]
  refine or_iff_right fun hcovers => ?_
  exact absurd hcovers.2 (not_lt.mpr h)

/-- **The keys of a window give its tokens**, for lists of runs in order that cover the same
positions. -/
theorem InOrder.itemAt_of_keys (ha : InOrder total as) (hb : InOrder total bs)
    (hkeys : keys x e as = keys x e bs)
    (hcov : ∀ p, x ≤ p → p < e → (Covered as p ↔ Covered bs p)) (hx : x ≤ p) (he : p < e)
    (h : ItemAt as p i o) : ItemAt bs p i o := by
  induction hn : as.length + bs.length using Nat.strong_induction_on generalizing as bs x with
  | _ n ih =>
    obtain ⟨r, hr, hcovers, hitem, hoffset⟩ := h
    cases as with
    | nil => cases hr
    | cons a as =>
      have hposa := ha.length_pos a mem_cons_self
      by_cases hra : Reaches x e a
      · cases bs with
        | nil =>
          rw [keys_cons_of_reaches hra] at hkeys
          cases hkeys
        | cons b bs =>
          have hposb := hb.length_pos b mem_cons_self
          by_cases hrb : Reaches x e b
          · rw [keys_cons_of_reaches hra, keys_cons_of_reaches hrb, cons.injEq, key, key,
              Prod.mk.injEq] at hkeys
            obtain ⟨⟨hsame, hsigma⟩, hrest⟩ := hkeys
            have hxe : x < e := hx.trans_lt he
            have hab := hb.first_le hxe hra hposa fun p h₁ h₂ => (hcov p h₁ h₂).mp
            have hba := ha.first_le hxe hrb hposb fun p h₁ h₂ => (hcov p h₁ h₂).mpr
            have haligned : a.offset - a.start = b.offset - b.start := by omega
            have hstopa : ¬ (a.stop < e ∧ a.stop < b.stop) := by
              refine ha.not_stop_lt hb hra hrb hsame haligned hrest ?_ fun p h₁ h₂ =>
                (hcov p h₁ h₂).mpr
              have := hra.2
              rw [stop] at this ⊢
              omega
            have hstopb : ¬ (b.stop < e ∧ b.stop < a.stop) := by
              refine hb.not_stop_lt ha hrb hra hsame.symm haligned.symm hrest.symm ?_
                fun p h₁ h₂ => (hcov p h₁ h₂).mp
              have := hrb.2
              rw [stop] at this ⊢
              omega
            obtain rfl | hr := mem_cons.mp hr
            · refine ⟨b, mem_cons_self, ⟨?_, ?_⟩, hsame ▸ hitem, ?_⟩
              · have := hcovers.1
                omega
              · have := hcovers.2
                omega
              · omega
            -- the token lies after the two first runs, which end at one place
            · have hafter := ha.stop_le hr
              have hp := hcovers.1
              have hstop : a.stop = b.stop := by omega
              have hmem : ItemAt bs p i o := by
                refine ih (as.length + bs.length) (by simp only [length_cons] at hn; omega) ha.tail
                  hb.tail (x := a.stop) ?_ (fun q h₁ h₂ => ?_) (by omega) ⟨r, hr, hcovers, hitem,
                    hoffset⟩ rfl
                · rw [keys_congr hra.2.le fun r hr => ⟨ha.stop_le hr, ha.tail.length_pos r hr⟩,
                    keys_congr hra.2.le fun r hr =>
                      ⟨hstop ▸ hb.stop_le hr, hb.tail.length_pos r hr⟩]
                  exact hrest
                · have hboth := hcov q (hra.2.le.trans h₁) h₂
                  rw [covered_cons, covered_cons] at hboth
                  have hnota : ¬ a.Covers q := fun h => absurd h.2 (not_lt.mpr h₁)
                  have hnotb : ¬ b.Covers q := fun h => absurd h.2 (not_lt.mpr (hstop ▸ h₁))
                  simpa only [hnota, hnotb, false_or] using hboth
              obtain ⟨r', hr', hrest'⟩ := hmem
              exact ⟨r', mem_cons_of_mem _ hr', hrest'⟩
          · have hcovb := (hcov p hx he).mp ⟨r, hr, hcovers⟩
            have hleft := hb.stop_le_of_not_reaches hrb hcovb he
            rw [keys_cons_of_not hrb] at hkeys
            obtain ⟨r', hr', hrest'⟩ :=
              ih ((a :: as).length + bs.length) (by simp only [length_cons] at hn ⊢; omega)
              ha hb.tail hkeys (fun q h₁ h₂ =>
                (hcov q h₁ h₂).trans (covered_cons_of_stop_le (hleft.trans h₁))) hx
              ⟨r, hr, hcovers, hitem, hoffset⟩ rfl
            exact ⟨r', mem_cons_of_mem _ hr', hrest'⟩
      · have hleft := ha.stop_le_of_not_reaches hra ⟨r, hr, hcovers⟩ he
        rw [keys_cons_of_not hra] at hkeys
        have hr : r ∈ as := (mem_cons.mp hr).resolve_left fun heq => by
          rw [heq] at hcovers
          exact absurd hcovers.2 (not_lt.mpr (hleft.trans hx))
        exact ih (as.length + bs.length) (by rw [length_cons] at hn; omega) ha.tail hb hkeys
          (fun q h₁ h₂ => (covered_cons_of_stop_le (hleft.trans h₁)).symm.trans (hcov q h₁ h₂)) hx
          ⟨r, hr, hcovers, hitem, hoffset⟩ rfl

/-! ### Runs in any order -/

/-- The runs that reach into a window, as they are listed. -/
def reaching (x e : ℤ) (l : List (PlacedRun η)) : List (PlacedRun η) :=
  l.filter fun r => Reaches x e r

/-- Another run than the `k`-th one of the window has the token `o` of the item `i` at `p`. -/
def Elsewhere (x e : ℤ) (l : List (PlacedRun η)) (k : ℕ) (p : ℤ) (i : η) (o : ℤ) : Prop :=
  ∃ j r, j ≠ k ∧ (reaching x e l)[j]? = some r ∧ r.Covers p ∧ r.item = i
    ∧ r.offset + (p - r.start) = o

/-- **The runs of two lists begin together**: the `k`-th runs of the window have their first
position in it at one place, or else each list has a second copy of that item there, with that very
token. -/
def BeginTogether (x e : ℤ) (as bs : List (PlacedRun η)) : Prop :=
  ∀ (k : ℕ) a b, (reaching x e as)[k]? = some a → (reaching x e bs)[k]? = some b →
    max x a.start = max x b.start
      ∨ Elsewhere x e bs k (max x a.start) (key x a).1 (key x a).2
        ∧ Elsewhere x e as k (max x b.start) (key x b).1 (key x b).2

/-- The window has the same tokens of items in two lists of runs. -/
def SameTokens (x e : ℤ) (as bs : List (PlacedRun η)) : Prop :=
  ∀ p, x ≤ p → p < e → Covered as p → ∃ i o, ItemAt as p i o ∧ ItemAt bs p i o

/-- No position is covered twice, and no run is empty. -/
structure Disjoint (l : List (PlacedRun η)) : Prop where
  eq_of_covers : ∀ r ∈ l, ∀ r' ∈ l, ∀ p, r.Covers p → r'.Covers p → r = r'
  length_pos : ∀ r ∈ l, 0 < r.length

lemma BeginTogether.symm (h : BeginTogether x e as bs) : BeginTogether x e bs as :=
  fun k b a hb ha => (h k a b ha hb).imp Eq.symm And.symm

lemma SameTokens.symm (h : SameTokens x e as bs)
    (hcov : ∀ p, x ≤ p → p < e → (Covered as p ↔ Covered bs p)) : SameTokens x e bs as := by
  intro p hx he hp
  obtain ⟨i, o, hia, hib⟩ := h p hx he ((hcov p hx he).mpr hp)
  exact ⟨i, o, hib, hia⟩

lemma getElem?_reaching {k : ℕ} (h : (reaching x e l)[k]? = some r) : r ∈ l ∧ Reaches x e r := by
  have hmem := mem_of_getElem? h
  rw [reaching, mem_filter] at hmem
  exact ⟨hmem.1, by simpa using hmem.2⟩

lemma exists_getElem?_reaching (hr : r ∈ l) (hcovers : r.Covers p) (hx : x ≤ p) (he : p < e) :
    ∃ k : ℕ, (reaching x e l)[k]? = some r := by
  refine mem_iff_getElem?.mp (mem_filter.mpr ⟨hr, ?_⟩)
  simpa using ⟨hcovers.1.trans_lt he, hx.trans_lt hcovers.2⟩

/-- The runs with one key. -/
lemma exists_getElem?_of_keys (hkeys : keys x e as = keys x e bs) {k : ℕ}
    (h : (reaching x e as)[k]? = some a) :
    ∃ b, (reaching x e bs)[k]? = some b ∧ key x a = key x b := by
  have hkey := congrArg (fun l => l[k]?) hkeys
  simp only [keys] at hkey
  change ((reaching x e as).map (key x))[k]? = ((reaching x e bs).map (key x))[k]? at hkey
  rw [getElem?_map, getElem?_map, h, Option.map_some, eq_comm, Option.map_eq_some_iff] at hkey
  obtain ⟨b, hb, heq⟩ := hkey
  exact ⟨b, hb, heq.symm⟩

/-- A run covers its first position in a window. -/
lemma covers_max (hr : Reaches x e r) (hpos : 0 < r.length) : r.Covers (max x r.start) := by
  have h := hr.2
  rw [stop] at h
  refine ⟨le_max_right _ _, ?_⟩
  rw [stop]
  omega

/-- A run whose first token in the window stands at another place in the other list. -/
lemma elsewhere_of_sameTokens (ha : Disjoint as) (hkeys : keys x e as = keys x e bs) {k : ℕ}
    (hka : (reaching x e as)[k]? = some a) (hkb : (reaching x e bs)[k]? = some b)
    (hne : max x a.start ≠ max x b.start) (h : SameTokens x e as bs) :
    Elsewhere x e bs k (max x a.start) (key x a).1 (key x a).2 := by
  obtain ⟨hmem, hreach⟩ := getElem?_reaching hka
  obtain ⟨-, hreach'⟩ := getElem?_reaching hkb
  have hcovers := covers_max hreach (ha.length_pos a hmem)
  have hxe : x < e := by
    by_contra hge
    have h₁ := hreach.1
    have h₂ := hreach'.1
    omega
  have hlt : max x a.start < e := max_lt hxe hreach.1
  obtain ⟨i, o, ⟨a', hmem', hcovers', rfl, rfl⟩, b', hmemb, hcoversb, hitem, hoffset⟩ :=
    h _ (le_max_left _ _) hlt ⟨a, hmem, hcovers⟩
  obtain rfl := ha.eq_of_covers a hmem a' hmem' _ hcovers hcovers'
  obtain ⟨j, hj⟩ := exists_getElem?_reaching hmemb hcoversb (le_max_left _ _) hlt
  refine ⟨j, b', ?_, hj, hcoversb, hitem, by rw [key]; omega⟩
  rintro rfl
  -- the run with the same key has that token only at its own first place
  obtain rfl := Option.some.inj (hj.symm.trans hkb)
  obtain ⟨b, hb, heq⟩ := exists_getElem?_of_keys hkeys hka
  obtain rfl := Option.some.inj (hb.symm.trans hkb)
  rw [key, key, Prod.mk.injEq] at heq
  omega

/-- Where a run of the first list begins after the other one, the two are aligned. -/
lemma aligned_of_beginTogether (hb : Disjoint bs) (hkeys : keys x e as = keys x e bs)
    (h : BeginTogether x e as bs) (hmema : a ∈ as) (hmemb : b ∈ bs) (hcovera : a.Covers p)
    (hcoverb : b.Covers p) (hx : x ≤ p) (he : p < e) (hle : max x b.start ≤ max x a.start) :
    a.item = b.item ∧ a.start - a.offset = b.start - b.offset := by
  obtain ⟨k, hka⟩ := exists_getElem?_reaching hmema hcovera hx he
  obtain ⟨b', hkb, heq⟩ := exists_getElem?_of_keys hkeys hka
  obtain ⟨hmemb', hreach⟩ := getElem?_reaching hkb
  have hcover : b.Covers (max x a.start) := by
    have h₁ := hcovera.1
    have h₂ := hcoverb.2
    exact ⟨(le_max_right _ _).trans hle, by omega⟩
  rw [key, key, Prod.mk.injEq] at heq
  obtain hsame | ⟨⟨_, r, -, hj, hcovers, hitem, hoffset⟩, -⟩ := h k a b' hka hkb
  · have hcovers := covers_max hreach (hb.length_pos b' hmemb')
    rw [← hsame] at hcovers
    obtain rfl := hb.eq_of_covers b hmemb b' hmemb' _ hcover hcovers
    exact ⟨heq.1, by omega⟩
  · obtain rfl := hb.eq_of_covers b hmemb r (getElem?_reaching hj).1 _ hcover hcovers
    rw [key] at hitem hoffset
    exact ⟨hitem.symm, by dsimp only at hoffset; omega⟩

/-- **Lists with the same keys for a window, on the same positions, have the same tokens in it
exactly when their runs begin together.** -/
theorem sameTokens_iff_beginTogether (ha : Disjoint as) (hb : Disjoint bs)
    (hkeys : keys x e as = keys x e bs)
    (hcov : ∀ p, x ≤ p → p < e → (Covered as p ↔ Covered bs p)) :
    SameTokens x e as bs ↔ BeginTogether x e as bs := by
  constructor
  · intro h k a b hka hkb
    refine or_iff_not_imp_left.mpr fun hne => ⟨?_, ?_⟩
    · exact elsewhere_of_sameTokens ha hkeys hka hkb hne h
    · exact elsewhere_of_sameTokens hb hkeys.symm hkb hka (Ne.symm hne) (h.symm hcov)
  · intro h p hx he hcovered
    obtain ⟨b, hmemb, hcoverb⟩ := (hcov p hx he).mp hcovered
    obtain ⟨a, hmema, hcovera⟩ := hcovered
    have haligned : a.item = b.item ∧ a.start - a.offset = b.start - b.offset := by
      obtain hle | hle := le_total (max x b.start) (max x a.start)
      · exact aligned_of_beginTogether hb hkeys h hmema hmemb hcovera hcoverb hx he hle
      · have := aligned_of_beginTogether ha hkeys.symm h.symm hmemb hmema hcoverb hcovera hx he hle
        exact ⟨this.1.symm, this.2.symm⟩
    exact ⟨a.item, a.offset + (p - a.start), ⟨a, hmema, hcovera, rfl, rfl⟩,
      ⟨b, hmemb, hcoverb, haligned.1.symm, by omega⟩⟩

/-- The runs of an item have different tokens of it. -/
def Apart (r r' : PlacedRun η) : Prop := r.item = r'.item → r.offset + r.length ≤ r'.offset

/-- Where an item is listed once, no other run has the token that a run begins with. -/
lemma not_elsewhere (hapart : l.Pairwise Apart) (hpos : ∀ r ∈ l, 0 < r.length) {k : ℕ}
    (hk : (reaching x e l)[k]? = some r) : ¬ Elsewhere x e l k p (key x r).1 (key x r).2 := by
  rintro ⟨j, r', hne, hj, hcovers, hitem, hoffset⟩
  obtain ⟨hmem, hreach⟩ := getElem?_reaching hk
  have hmax := covers_max hreach (hpos r hmem)
  have hapart' : (reaching x e l).Pairwise Apart := hapart.sublist filter_sublist
  rw [pairwise_iff_getElem] at hapart'
  obtain ⟨hltk, rfl⟩ := List.getElem?_eq_some_iff.mp hk
  obtain ⟨hltj, rfl⟩ := List.getElem?_eq_some_iff.mp hj
  rw [key] at hitem hoffset
  rw [Covers, stop] at hcovers hmax
  dsimp only at hitem hoffset
  obtain hlt | hlt := Nat.lt_or_gt_of_ne hne
  · have := hapart' j k hltj hltk hlt hitem
    omega
  · have := hapart' k j hltk hltj hlt hitem.symm
    omega

/-- **Where no item is listed twice, the runs begin together exactly when the `k`-th ones do.** -/
lemma beginTogether_iff_of_apart (hb : bs.Pairwise Apart) (hpos : ∀ r ∈ bs, 0 < r.length)
    (hkeys : keys x e as = keys x e bs) :
    BeginTogether x e as bs ↔ ∀ (k : ℕ) a b, (reaching x e as)[k]? = some a →
      (reaching x e bs)[k]? = some b → max x a.start = max x b.start := by
  refine ⟨fun h k a b hka hkb => ?_, fun h k a b hka hkb => .inl (h k a b hka hkb)⟩
  refine (h k a b hka hkb).resolve_right fun helse => ?_
  obtain ⟨b', hkb', heq⟩ := exists_getElem?_of_keys hkeys hka
  obtain rfl := Option.some.inj (hkb'.symm.trans hkb)
  rw [heq] at helse
  exact not_elsewhere hb hpos hkb helse.1

end PlacedRun

end TrtLlm
