import Mathlib.Tactic

/-!
Dyadic tilings of an interval: the geometry under a buddy system.

A tile of order `o` over a unit `u` is an interval of length `u·2^o` that starts at a
multiple of its length.  A family of tiles is a multiplicity function on pairs of an
order and a start, so that a tile counted twice shows as multiplicity two, and the family
tiles `[0, u·2^L)` if every point is covered exactly once.

* `down_eq_iff`: at each order the only tile that can cover `x` starts at `down u o x`,
  so the coverage of a point is a finite sum over the orders;
* `Tiling.split`, `Tiling.merge`: cutting a tile into its two halves, and joining two
  buddies, keep a tiling;
* `Tiling.unique`: two tiles of a tiling that share a point are one tile, counted once.
-/

namespace TrtLlm.DyadicTiling

open Finset

/-- The length of a tile of order `o`. -/
def sz (u o : ℕ) : ℕ := u * 2 ^ o

/-- The start of the order-`o` tile that covers `x`. -/
def down (u o x : ℕ) : ℕ := x / sz u o * sz u o

/-- The family consisting of one tile. -/
def single (o off : ℕ) : ℕ → ℕ → ℕ := fun o' y => if o' = o ∧ y = off then 1 else 0

/-- How often the point `x` is covered by tiles of order at most `L`. -/
def cover (u L : ℕ) (f : ℕ → ℕ → ℕ) (x : ℕ) : ℕ :=
  ∑ o ∈ range (L + 1), f o (down u o x)

/-- **A tiling** of `[0, u·2^L)`: every tile is aligned and inside, and every point is
covered exactly once. -/
structure Tiling (u L : ℕ) (f : ℕ → ℕ → ℕ) : Prop where
  aligned : ∀ o off, 0 < f o off → o ≤ L ∧ sz u o ∣ off ∧ off + sz u o ≤ sz u L
  covered : ∀ x < sz u L, cover u L f x = 1

variable {u L : ℕ}

lemma sz_succ (u o : ℕ) : sz u (o + 1) = 2 * sz u o := by
  rw [sz, sz, pow_succ]; ring

lemma sz_pos (hu : 0 < u) (o : ℕ) : 0 < sz u o := by
  rw [sz]; positivity

lemma sz_dvd_sz (u : ℕ) {o o' : ℕ} (h : o ≤ o') : sz u o ∣ sz u o' :=
  Nat.mul_dvd_mul_left u (pow_dvd_pow 2 h)

lemma sz_le_sz (u : ℕ) {o o' : ℕ} (h : o ≤ o') : sz u o ≤ sz u o' :=
  Nat.mul_le_mul_left u (Nat.pow_le_pow_right (by norm_num) h)

/-- An aligned tile covers exactly the points of its interval. -/
lemma down_eq_iff (hu : 0 < u) {o off x : ℕ} (h : sz u o ∣ off) :
    down u o x = off ↔ off ≤ x ∧ x < off + sz u o := by
  obtain ⟨k, rfl⟩ := h
  have hpos := sz_pos hu o
  rw [down, Nat.mul_comm (sz u o) k, Nat.mul_left_inj hpos.ne', Nat.div_eq_iff hpos, Nat.mul_comm k]
  constructor
  · rintro ⟨h1, h2⟩
    omega
  · rintro ⟨h1, h2⟩
    omega

/-! ### Coverage -/

lemma cover_add (f g : ℕ → ℕ → ℕ) (x : ℕ) :
    cover u L (fun o y => f o y + g o y) x = cover u L f x + cover u L g x :=
  sum_add_distrib

lemma cover_single {o off : ℕ} (ho : o ≤ L) (x : ℕ) :
    cover u L (single o off) x = if down u o x = off then 1 else 0 := by
  have hterm : ∀ o' ∈ range (L + 1),
      single o off o' (down u o' x) = if o' = o then (if down u o x = off then 1 else 0)
        else 0 := by
    intro o' _
    by_cases h : o' = o <;> simp [single, h]
  rw [cover, sum_congr rfl hterm, sum_ite_eq' (range (L + 1)) o, if_pos (mem_range.mpr (by omega))]

/-- A tile covers the points its two halves cover. -/
lemma cover_halves (hu : 0 < u) {o off : ℕ} (ho : o + 1 ≤ L) (h : sz u (o + 1) ∣ off) (x : ℕ) :
    cover u L (single (o + 1) off) x
      = cover u L (single o off) x + cover u L (single o (off + sz u o)) x := by
  have h1 : sz u o ∣ off := (sz_dvd_sz u (Nat.le_succ o)).trans h
  have h2 : sz u o ∣ off + sz u o := Dvd.dvd.add h1 dvd_rfl
  have hs := sz_succ u o
  have hpos := sz_pos hu o
  rw [cover_single ho, cover_single (by omega), cover_single (by omega)]
  simp only [down_eq_iff hu h, down_eq_iff hu h1, down_eq_iff hu h2]
  split_ifs <;> omega

lemma le_cover {f : ℕ → ℕ → ℕ} {o : ℕ} (ho : o ≤ L) (x : ℕ) : f o (down u o x) ≤ cover u L f x :=
  single_le_sum (f := fun o => f o (down u o x)) (fun _ _ => Nat.zero_le _)
    (mem_range.mpr (by omega))

lemma add_le_cover {f : ℕ → ℕ → ℕ} {o o' : ℕ} (hne : o ≠ o') (ho : o ≤ L) (ho' : o' ≤ L) (x : ℕ) :
    f o (down u o x) + f o' (down u o' x) ≤ cover u L f x := by
  have hsub : ({o, o'} : Finset ℕ) ⊆ range (L + 1) := by
    intro a ha
    simp only [mem_insert, mem_singleton] at ha
    exact mem_range.mpr (by omega)
  calc f o (down u o x) + f o' (down u o' x)
      = ∑ a ∈ ({o, o'} : Finset ℕ), f a (down u a x) := by rw [sum_pair hne]
    _ ≤ cover u L f x := sum_le_sum_of_subset hsub

/-! ### Splitting, merging, uniqueness -/

namespace Tiling

variable {f : ℕ → ℕ → ℕ}

variable (hu : 0 < u)
include hu

/-- One tile alone tiles its own interval. -/
lemma top : Tiling u L (single L 0) where
  aligned o off h := by
    have h' : o = L ∧ off = 0 := by
      by_contra hne
      simp [single, hne] at h
    obtain ⟨rfl, rfl⟩ := h'
    exact ⟨le_rfl, dvd_zero _, by omega⟩
  covered x hx := by
    rw [cover_single le_rfl, if_pos ((down_eq_iff hu (dvd_zero _)).mpr ⟨by omega, by omega⟩)]

/-- The pair of halves is aligned exactly as the whole tile is. -/
lemma split {o off : ℕ} (h : Tiling u L fun o' y => f o' y + single (o + 1) off o' y) :
    Tiling u L fun o' y => f o' y + single o off o' y + single o (off + sz u o) o' y := by
  obtain ⟨ho, hdvd, hle⟩ := h.aligned (o + 1) off (by simp [single])
  have hs := sz_succ u o
  refine ⟨fun o' y hpos => ?_, fun x hx => ?_⟩
  · by_cases hf : 0 < f o' y
    · exact h.aligned o' y (by omega)
    · have hcase : o' = o ∧ (y = off ∨ y = off + sz u o) := by
        by_contra hne
        simp only [single] at hpos
        split_ifs at hpos <;> omega
      have h1 : sz u o ∣ off := (sz_dvd_sz u (Nat.le_succ o)).trans hdvd
      obtain ⟨rfl, rfl | rfl⟩ := hcase
      · exact ⟨by omega, h1, by omega⟩
      · exact ⟨by omega, Dvd.dvd.add h1 dvd_rfl, by omega⟩
  · have hc := h.covered x hx
    rw [cover_add, cover_halves hu ho hdvd] at hc
    rw [cover_add, cover_add]
    omega

/-- Two halves of one tile may be joined. -/
lemma merge {o off : ℕ} (ho : o + 1 ≤ L) (hdvd : sz u (o + 1) ∣ off)
    (h : Tiling u L fun o' y => f o' y + single o off o' y + single o (off + sz u o) o' y) :
    Tiling u L fun o' y => f o' y + single (o + 1) off o' y := by
  have hs := sz_succ u o
  refine ⟨fun o' y hpos => ?_, fun x hx => ?_⟩
  · by_cases hf : 0 < f o' y
    · exact h.aligned o' y (by omega)
    · have hcase : o' = o + 1 ∧ y = off := by
        by_contra hne
        simp only [single, hne] at hpos
        split_ifs at hpos <;> omega
      obtain ⟨rfl, rfl⟩ := hcase
      have hup := (h.aligned o (y + sz u o) (by simp [single])).2.2
      exact ⟨ho, hdvd, by omega⟩
  · have hc := h.covered x hx
    rw [cover_add, cover_add] at hc
    rw [cover_add, cover_halves hu ho hdvd]
    omega

/-- Two tiles of a tiling that share a point are one tile. -/
lemma unique (h : Tiling u L f) {o o' off off' x : ℕ} (hf : 0 < f o off)
    (hf' : 0 < f o' off') (hx : off ≤ x ∧ x < off + sz u o) (hx' : off' ≤ x ∧ x < off' + sz u o') :
    o = o' ∧ off = off' ∧ f o off = 1 := by
  obtain ⟨ho, hd, hle⟩ := h.aligned o off hf
  obtain ⟨ho', hd', -⟩ := h.aligned o' off' hf'
  have e1 := (down_eq_iff hu hd).mpr hx
  have e2 := (down_eq_iff hu hd').mpr hx'
  have hc := h.covered x (by omega)
  have hoo : o = o' := by
    by_contra hne
    have := add_le_cover (u := u) (f := f) hne ho ho' x
    rw [e1, e2] at this
    omega
  subst hoo
  refine ⟨rfl, e1.symm.trans e2, ?_⟩
  have := le_cover (u := u) (f := f) ho x
  rw [e1] at this
  omega

/-- A tile counted beside a family is no member of the family, and no member starts
inside it. -/
lemma not_mem_of_single {o off o' off' : ℕ} (h : Tiling u L fun a y => f a y + single o off a y)
    (hx : off ≤ off' ∧ off' < off + sz u o) : f o' off' = 0 := by
  by_contra hne
  have hpos := sz_pos hu o'
  have hs : single o off o off = 1 := by simp [single]
  have hmem : 0 < f o off + single o off o off := by omega
  have hmem' : 0 < f o' off' + single o off o' off' := by omega
  obtain ⟨rfl, rfl, h1⟩ := h.unique hu hmem hmem' hx ⟨le_rfl, by omega⟩
  omega

end Tiling

end TrtLlm.DyadicTiling
