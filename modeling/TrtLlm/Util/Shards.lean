import Mathlib.Tactic

/-!
A row of items that is split over shards, or replicated on them, and copied from one sharding to
another.

`H` items are held by `T` shards. If `T` divides `H`, every shard holds `H / T` consecutive items;
if `H` divides `T`, every item is held by `T / H` consecutive shards.

* `Shards.width`, `Shards.first`: how many items a shard holds, and the first of them;
* `Shards.Meets`: two shards of two shardings meet if the parts of the row they stand for do. The
  relation is symmetric (`meets_comm`);
* `Shards.dstOffset`: where the destination holds the items it has in common with a source;
* `Shards.rota`: how many shards of the source hold the same items of one shard of the
  destination. One of them in `rota` is elected, and then every item of the destination has
  exactly one source (`existsUnique_source`).
-/

namespace TrtLlm.Shards

open Nat

/-- The number of items of one shard. -/
def width (H T : ℕ) : ℕ := max 1 (H / T)

/-- The first item of the shard `t`. -/
def first (H T t : ℕ) : ℕ := t * H / T

/-- The items are split evenly over the shards, or replicated evenly on them. -/
structure Even (H T : ℕ) : Prop where
  items_pos : 0 < H
  shards_pos : 0 < T
  dvd : T ∣ H ∨ H ∣ T

/-- The shard `s` of `m` and the shard `t` of `n` stand for parts of the row that meet. -/
def Meets (m n s t : ℕ) : Prop := s * n < (t + 1) * m ∧ t * m < (s + 1) * n

lemma meets_comm {m n s t : ℕ} : Meets m n s t ↔ Meets n m t s := and_comm

/-- Where the items of the shard `s` of `m` stand in a shard of the coarser sharding `n`. -/
def cut (H n m s : ℕ) : ℕ := s * (width H n * n) / m % width H n

/-- Where the destination holds the items it has in common with the source `s` of `m`. -/
def dstOffset (H m n s : ℕ) : ℕ := if n < m then cut H n m s else 0

/-- How many consecutive sources hold the same items of one destination. -/
def rota (H m n : ℕ) : ℕ := max 1 (width H m * m / (width H n * n))

/-! ### The three ways to refine a sharding -/

variable {H m n s t : ℕ}

variable {T i : ℕ}

lemma meets_of_refines {k : ℕ} (hn : 0 < n) :
    Meets (n * k) n s t ↔ t * k ≤ s ∧ s < (t + 1) * k := by
  have h₁ : s * n < (t + 1) * (n * k) ↔ s < (t + 1) * k := by
    rw [show (t + 1) * (n * k) = (t + 1) * k * n by ring, Nat.mul_lt_mul_right hn]
  have h₂ : t * (n * k) < (s + 1) * n ↔ t * k < s + 1 := by
    rw [show t * (n * k) = t * k * n by ring, Nat.mul_lt_mul_right hn]
  rw [Meets, h₁, h₂, Nat.lt_succ_iff]
  exact and_comm

/-- A sharding `m` that refines `n`: both split the items, or the finer one replicates them, or
both do. -/
lemma Even.cases_of_dvd (hm : Even H m) (hn : Even H n) (h : n ∣ m) :
    (∃ k a, 0 < k ∧ 0 < a ∧ m = n * k ∧ H = n * k * a) ∨
      (∃ j d, 0 < j ∧ 0 < d ∧ H = n * j ∧ m = n * j * d) ∨
        ∃ j k, 0 < j ∧ 0 < k ∧ n = H * j ∧ m = H * j * k := by
  obtain ⟨k, rfl⟩ := h
  have hk : 0 < k := Nat.pos_of_mul_pos_left hm.shards_pos
  obtain ⟨a, ha⟩ | hH := hm.dvd
  · exact Or.inl ⟨k, a, hk, Nat.pos_of_mul_pos_left (ha ▸ hm.items_pos), rfl, ha⟩
  · refine Or.inr ?_
    obtain ⟨j, rfl⟩ | ⟨j, rfl⟩ := hn.dvd
    · obtain ⟨d, hd⟩ := hH
      exact Or.inl ⟨j, d, Nat.pos_of_mul_pos_left hn.items_pos,
        Nat.pos_of_mul_pos_left (hd ▸ hm.shards_pos), rfl, hd⟩
    · exact Or.inr ⟨j, k, Nat.pos_of_mul_pos_left hn.shards_pos, hk, rfl, rfl⟩

lemma width_split {a : ℕ} (hT : 0 < T) (ha : 0 < a) : width (T * a) T = a := by
  rw [width, Nat.mul_div_cancel_left a hT]
  exact max_eq_right ha

lemma width_replicated {d : ℕ} (hH : 0 < H) : width H (H * d) = 1 := by
  rw [width]
  refine max_eq_left ?_
  calc H / (H * d) = H / H / d := (Nat.div_div_eq_div_mul ..).symm
    _ = 1 / d := by rw [Nat.div_self hH]
    _ ≤ 1 := Nat.div_le_self 1 d

lemma first_split {a : ℕ} (hT : 0 < T) : first (T * a) T t = t * a := by
  rw [first, show t * (T * a) = T * (t * a) by ring, Nat.mul_div_cancel_left _ hT]

lemma first_replicated {d : ℕ} (hH : 0 < H) : first H (H * d) t = t / d := by
  rw [first, mul_comm t H, Nat.mul_div_mul_left t d hH]

/-- **A finer shard inside a coarser one**: it holds no more items, and they stand from `cut`
on. -/
lemma first_eq_add_cut (hm : Even H m) (hn : Even H n) (h : n ∣ m) (hs : Meets m n s t) :
    first H m s = first H n t + cut H n m s ∧ cut H n m s + width H m ≤ width H n := by
  obtain ⟨k, a, hk, ha, rfl, rfl⟩ | ⟨j, d, hj, hd, rfl, rfl⟩ | ⟨j, k, hj, hk, rfl, rfl⟩ :=
    hm.cases_of_dvd hn h
  · -- both split: a coarse shard holds the items of `k` finer ones
    rw [meets_of_refines hn.shards_pos] at hs
    obtain ⟨i, rfl⟩ := Nat.exists_eq_add_of_le hs.1
    have hi : i < k := by
      have := hs.2
      rw [add_mul, one_mul] at this
      omega
    have hwn : width (n * k * a) n = k * a := by
      rw [mul_assoc]
      exact width_split hn.shards_pos (Nat.mul_pos hk ha)
    have hcut : cut (n * k * a) n (n * k) (t * k + i) = i * a := by
      have h₁ : (t * k + i) * (k * a * n) = n * k * (i * a + k * a * t) := by ring
      have h₂ : i * a < k * a := (Nat.mul_lt_mul_right ha).mpr hi
      rw [cut, hwn, h₁, Nat.mul_div_cancel_left _ hm.shards_pos, add_mul_mod_self_left,
        mod_eq_of_lt h₂]
    rw [hcut, hwn, width_split hm.shards_pos ha, first_split hm.shards_pos]
    refine ⟨?_, ?_⟩
    · rw [mul_assoc n k a, first_split hn.shards_pos]
      ring
    · calc i * a + a = (i + 1) * a := by ring
        _ ≤ k * a := Nat.mul_le_mul_right a hi
  · -- the finer sharding replicates: `d` consecutive shards hold one item
    have hm' : n * j * d = n * (d * j) := by ring
    rw [hm', meets_of_refines hn.shards_pos] at hs
    obtain ⟨i, rfl⟩ := Nat.exists_eq_add_of_le hs.1
    have hi : i < d * j := by
      have := hs.2
      rw [add_mul, one_mul] at this
      omega
    have hwn : width (n * j) n = j := width_split hn.shards_pos hj
    have hdiv : (t * (d * j) + i) / d = t * j + i / d := by
      rw [show t * (d * j) + i = i + d * (t * j) by ring, add_mul_div_left _ _ hd, add_comm]
    have hcut : cut (n * j) n (n * j * d) (t * (d * j) + i) = i / d := by
      rw [cut, hwn, show (t * (d * j) + i) * (j * n) = n * j * (t * (d * j) + i) by ring,
        Nat.mul_div_mul_left _ _ hm.items_pos, hdiv, mul_comm t j, mul_add_mod,
        mod_eq_of_lt (Nat.div_lt_of_lt_mul hi)]
    rw [hcut, hwn, width_replicated hm.items_pos, first_replicated hm.items_pos,
      first_split hn.shards_pos]
    exact ⟨hdiv, Nat.div_lt_of_lt_mul hi⟩
  · -- both replicate: the shards that meet hold the same item
    rw [meets_of_refines hn.shards_pos] at hs
    have hw : ∀ d, width H (H * d) = 1 := fun d => width_replicated hm.items_pos
    have hdiv : s / k = t := by
      rw [Nat.div_eq_iff hk]
      have := hs.2
      rw [add_mul, one_mul] at this
      omega
    have hcut : cut H (H * j) (H * j * k) s = 0 := by
      rw [cut, hw, mod_one]
    rw [hcut, hw, mul_assoc, hw, first_replicated hm.items_pos, first_replicated hm.items_pos]
    refine ⟨?_, le_refl _⟩
    rw [add_zero, mul_comm j k, ← Nat.div_div_eq_div_mul, hdiv]

/-! ### Common items -/

lemma Meets.eq_of_eq (h : Meets m m s t) : s = t := by
  have h₁ := Nat.lt_of_mul_lt_mul_right h.1
  have h₂ := Nat.lt_of_mul_lt_mul_right h.2
  omega

lemma dstOffset_eq_cut (hm : Even H m) (hn : Even H n) (h : n ∣ m) (hs : Meets m n s t) :
    dstOffset H m n s = cut H n m s := by
  rw [dstOffset]
  split_ifs with hlt
  · rfl
  · obtain rfl : n = m := le_antisymm (le_of_dvd hm.shards_pos h) (not_lt.mp hlt)
    obtain rfl := hs.eq_of_eq
    have := (first_eq_add_cut hm hn h hs).1
    omega

/-! ### The elected sources -/

lemma width_mul (h : Even H T) : width H T * T = max H T := by
  obtain ⟨a, rfl⟩ | ⟨d, rfl⟩ := h.dvd
  · have ha : 0 < a := Nat.pos_of_mul_pos_left h.items_pos
    rw [width_split h.shards_pos ha, mul_comm, max_eq_left (Nat.le_mul_of_pos_right T ha)]
  · have hd : 0 < d := Nat.pos_of_mul_pos_left h.shards_pos
    rw [width_replicated h.items_pos, one_mul, max_eq_right (Nat.le_mul_of_pos_right H hd)]

lemma rota_eq (hm : Even H m) (hn : Even H n) : rota H m n = max 1 (max H m / max H n) := by
  rw [rota, width_mul hm, width_mul hn]

/-- A coarser source never shares its destinations. -/
lemma rota_eq_one (hm : Even H m) (hn : Even H n) (h : m ≤ n) : rota H m n = 1 := by
  rw [rota_eq hm hn]
  refine max_eq_left ?_
  calc max H m / max H n ≤ max H n / max H n := Nat.div_le_div_right (max_le_max_left H h)
    _ = 1 := Nat.div_self (lt_of_lt_of_le hm.items_pos (le_max_left H n))

/-- The sources that meet one destination are whole rotas. -/
lemma rota_dvd (hm : Even H m) (hn : Even H n) (h : n ∣ m) : rota H m n ∣ m / n := by
  rw [rota_eq hm hn]
  obtain ⟨k, a, hk, ha, rfl, rfl⟩ | ⟨j, d, hj, hd, rfl, rfl⟩ | ⟨j, k, hj, hk, rfl, rfl⟩ :=
    hm.cases_of_dvd hn h
  · have h₁ : n * k ≤ n * k * a := Nat.le_mul_of_pos_right _ ha
    have h₂ : n ≤ n * k := Nat.le_mul_of_pos_right _ hk
    rw [max_eq_left h₁, max_eq_left (h₂.trans h₁), Nat.div_self hm.items_pos, max_self]
    exact one_dvd _
  · rw [max_eq_right (Nat.le_mul_of_pos_right _ hd), max_eq_left (Nat.le_mul_of_pos_right _ hj),
      Nat.mul_div_cancel_left _ hm.items_pos, max_eq_right hd, mul_assoc,
      Nat.mul_div_cancel_left _ hn.shards_pos]
    exact Dvd.intro_left j rfl
  · have h₁ : H ≤ H * j := Nat.le_mul_of_pos_right _ hj
    rw [max_eq_right (h₁.trans (Nat.le_mul_of_pos_right _ hk)), max_eq_right h₁,
      Nat.mul_div_cancel_left _ hn.shards_pos, max_eq_right hk]

/-- The items of the destination that the source writes. -/
def Writes (H m n s i : ℕ) : Prop :=
  dstOffset H m n s ≤ i ∧ i < dstOffset H m n s + min (width H m) (width H n)

/-- The source is the one of its rota for the destination. -/
def Elected (H m n e s : ℕ) : Prop := e % rota H m n = s % rota H m n

section

variable (hm : Even H m) (hn : Even H n)
include hm hn

/-- A finer source writes an item of the destination if and only if it holds it. -/
lemma writes_iff (h : n ∣ m) (hs : Meets m n s t) :
    Writes H m n s i ↔ first H m s ≤ first H n t + i
      ∧ first H n t + i < first H m s + width H m := by
  obtain ⟨hfirst, hwidth⟩ := first_eq_add_cut hm hn h hs
  have hmin : min (width H m) (width H n) = width H m := min_eq_left (by omega)
  rw [Writes, dstOffset_eq_cut hm hn h hs, hmin]
  omega

/-- A shard of the coarser source: the one above the destination. -/
lemma existsUnique_source_of_coarser (h : m ∣ n) (ht : t < n) (hi : i < width H n) (e : ℕ) :
    ∃! s, s < m ∧ Meets m n s t ∧ Elected H m n e s ∧ Writes H m n s i := by
  have hle : m ≤ n := le_of_dvd hn.shards_pos h
  obtain ⟨k, rfl⟩ := h
  have hk : 0 < k := Nat.pos_of_mul_pos_left hn.shards_pos
  have hmeets : ∀ s, Meets m (m * k) s t ↔ t / k = s := by
    intro s
    rw [meets_comm, meets_of_refines hm.shards_pos, Nat.div_eq_iff hk, add_mul, one_mul]
    omega
  have hone := rota_eq_one hm hn hle
  refine ⟨t / k, ⟨Nat.div_lt_of_lt_mul (by rwa [mul_comm]), (hmeets _).mpr rfl, ?_, ?_⟩, ?_⟩
  · rw [Elected, hone, mod_one, mod_one]
  · have hwidth := (first_eq_add_cut hn hm (Dvd.intro k rfl)
      (meets_comm.mp ((hmeets _).mpr rfl))).2
    rw [Writes, dstOffset, if_neg hle.not_gt, min_eq_right (by omega)]
    omega
  · rintro s ⟨-, hs, -⟩
    exact ((hmeets s).mp hs).symm

/-- The shards of a finer source that hold an item of the destination are `rota` consecutive
ones. -/
lemma exists_holders_iff (h : n ∣ m) (ht : t < n) (hi : i < width H n) :
    ∃ q, ∀ s, (s < m ∧ Meets m n s t ∧ Writes H m n s i) ↔ s / rota H m n = q := by
  have hspec : ∀ s, (s < m ∧ Meets m n s t ∧ Writes H m n s i) ↔ s < m ∧ Meets m n s t ∧
      first H m s ≤ first H n t + i ∧ first H n t + i < first H m s + width H m := fun s =>
    and_congr_right fun _ => and_congr_right fun hs => writes_iff hm hn h hs
  simp only [hspec]
  clear hspec
  rw [rota_eq hm hn]
  obtain ⟨k, a, hk, ha, rfl, rfl⟩ | ⟨j, d, hj, hd, rfl, rfl⟩ | ⟨j, k, hj, hk, rfl, rfl⟩ :=
    hm.cases_of_dvd hn h
  · -- no item is held twice
    have hwn : width (n * k * a) n = k * a := by
      rw [mul_assoc]
      exact width_split hn.shards_pos (Nat.mul_pos hk ha)
    have hfn : first (n * k * a) n t = t * (k * a) := by
      rw [mul_assoc, first_split hn.shards_pos]
    have hrota : max 1 (max (n * k * a) (n * k) / max (n * k * a) n) = 1 := by
      have h₁ : n * k ≤ n * k * a := Nat.le_mul_of_pos_right _ ha
      have h₂ : n ≤ n * k := Nat.le_mul_of_pos_right _ hk
      rw [max_eq_left h₁, max_eq_left (h₂.trans h₁), Nat.div_self hm.items_pos, max_self]
    rw [hwn] at hi
    refine ⟨t * k + i / a, fun s => ?_⟩
    rw [hrota, Nat.div_one, hfn, first_split hm.shards_pos, width_split hm.shards_pos ha,
      meets_of_refines hn.shards_pos]
    have hia : i / a < k := Nat.div_lt_of_lt_mul (by rwa [mul_comm])
    have hdiv : (t * (k * a) + i) / a = t * k + i / a := by
      rw [show t * (k * a) + i = i + a * (t * k) by ring, add_mul_div_left _ _ ha, add_comm]
    have hheld : s * a ≤ t * (k * a) + i ∧ t * (k * a) + i < s * a + a ↔ s = t * k + i / a := by
      rw [← hdiv, eq_comm, Nat.div_eq_iff ha]
      omega
    have hlast : (t + 1) * k ≤ n * k := Nat.mul_le_mul_right k ht
    rw [hheld, add_mul, one_mul] at *
    constructor
    · rintro ⟨-, -, hs⟩
      exact hs
    · rintro rfl
      exact ⟨by omega, ⟨Nat.le_add_right _ _, by omega⟩, rfl⟩
  · -- the item `t * j + i` is held by `d` shards
    have hrota : max 1 (max (n * j) (n * j * d) / max (n * j) n) = d := by
      rw [max_eq_right (Nat.le_mul_of_pos_right _ hd), max_eq_left (Nat.le_mul_of_pos_right _ hj),
        Nat.mul_div_cancel_left _ hm.items_pos, max_eq_right hd]
    rw [width_split hn.shards_pos hj] at hi
    refine ⟨t * j + i, fun s => ?_⟩
    rw [hrota, first_split hn.shards_pos, first_replicated hm.items_pos,
      width_replicated hm.items_pos, show n * j * d = n * (j * d) by ring,
      meets_of_refines hn.shards_pos]
    have hlast : (t + 1) * j ≤ n * j := Nat.mul_le_mul_right j ht
    constructor
    · rintro ⟨-, -, hs⟩
      omega
    · intro hs
      have hsd := (Nat.div_eq_iff hd).mp hs
      have hupper : s < (t * j + j) * d := by
        calc s < (t * j + i + 1) * d := by
              rw [add_mul, one_mul]
              omega
          _ ≤ (t * j + j) * d := Nat.mul_le_mul_right d (by omega)
      have hlower : t * j * d ≤ s := by
        calc t * j * d ≤ (t * j + i) * d := Nat.mul_le_mul_right d (Nat.le_add_right _ _)
          _ ≤ s := hsd.1
      refine ⟨?_, ⟨by rwa [← mul_assoc], ?_⟩, by omega⟩
      · calc s < (t * j + j) * d := hupper
          _ ≤ n * j * d := Nat.mul_le_mul_right d (by rwa [add_mul, one_mul] at hlast)
          _ = n * (j * d) := mul_assoc ..
      · calc s < (t * j + j) * d := hupper
          _ = (t + 1) * (j * d) := by ring
  · -- all shards that meet the destination hold its one item
    have hrota : max 1 (max H (H * j * k) / max H (H * j)) = k := by
      have h₁ : H ≤ H * j := Nat.le_mul_of_pos_right _ hj
      rw [max_eq_right (h₁.trans (Nat.le_mul_of_pos_right _ hk)), max_eq_right h₁,
        Nat.mul_div_cancel_left _ hn.shards_pos, max_eq_right hk]
    rw [width_replicated hm.items_pos] at hi
    refine ⟨t, fun s => ?_⟩
    rw [hrota, meets_of_refines hn.shards_pos, mul_assoc, first_replicated hm.items_pos,
      first_replicated hm.items_pos, width_replicated hm.items_pos]
    have hmeets : t * k ≤ s ∧ s < (t + 1) * k ↔ s / k = t := by
      rw [Nat.div_eq_iff hk, add_mul, one_mul]
      omega
    rw [hmeets]
    constructor
    · rintro ⟨-, hs, -⟩
      exact hs
    · intro hs
      have hfirst : s / (j * k) = t / j := by
        rw [mul_comm j k, ← Nat.div_div_eq_div_mul, hs]
      refine ⟨?_, hs, by omega⟩
      calc s < (t + 1) * k := (hmeets.mpr hs).2
        _ ≤ H * j * k := Nat.mul_le_mul_right k ht
        _ = H * (j * k) := mul_assoc ..

/-- Of consecutive sources in the number of the rota, one is elected. -/
lemma existsUnique_source_of_finer (h : n ∣ m) (ht : t < n) (hi : i < width H n) (e : ℕ) :
    ∃! s, s < m ∧ Meets m n s t ∧ Elected H m n e s ∧ Writes H m n s i := by
  obtain ⟨q, hq⟩ := exists_holders_iff hm hn h ht hi
  have hpos : 0 < rota H m n := Nat.lt_of_lt_of_le Nat.one_pos (le_max_left ..)
  have hspec : ∀ s, (s < m ∧ Meets m n s t ∧ Elected H m n e s ∧ Writes H m n s i) ↔
      e % rota H m n = s % rota H m n ∧ s / rota H m n = q := by
    intro s
    rw [← hq s, Elected]
    tauto
  simp only [hspec]
  refine ⟨rota H m n * q + e % rota H m n, ⟨?_, ?_⟩, ?_⟩
  · rw [mul_add_mod, mod_mod]
  · rw [mul_add_div hpos, div_eq_of_lt (mod_lt e hpos), add_zero]
  · rintro s ⟨helected, rfl⟩
    rw [helected, div_add_mod]

/-- **Every item of the destination has exactly one source**, whatever the election is decided
by. -/
theorem existsUnique_source (h : m ∣ n ∨ n ∣ m) (ht : t < n) (hi : i < width H n) (e : ℕ) :
    ∃! s, s < m ∧ Meets m n s t ∧ Elected H m n e s ∧ Writes H m n s i :=
  h.elim (fun h => existsUnique_source_of_coarser hm hn h ht hi e)
    fun h => existsUnique_source_of_finer hm hn h ht hi e

end

/-- The items of a shard. -/
def Holds (H T t x : ℕ) : Prop := first H T t ≤ x ∧ x < first H T t + width H T

variable (hm : Even H m) (hn : Even H n) (h : m ∣ n ∨ n ∣ m)
include hm hn h

/-- A source that meets the destination writes the items of the destination that it holds. -/
lemma writes_iff_holds (hs : Meets m n s t)
    (hi : i < width H n) : Writes H m n s i ↔ Holds H m s (first H n t + i) := by
  obtain h | h := h
  · obtain ⟨hfirst, hwidth⟩ := first_eq_add_cut hn hm h (meets_comm.mp hs)
    have hdst : dstOffset H m n s = 0 := if_neg (le_of_dvd hn.shards_pos h).not_gt
    have hmin : min (width H m) (width H n) = width H n := min_eq_right (by omega)
    rw [Writes, Holds, hdst, hmin]
    omega
  · exact writes_iff hm hn h hs

/-- **Every item of the destination is held by exactly one elected source.** -/
theorem existsUnique_holder {x : ℕ} (ht : t < n) (hx : Holds H n t x) (e : ℕ) :
    ∃! s, s < m ∧ Meets m n s t ∧ Elected H m n e s ∧ Holds H m s x := by
  obtain ⟨i, rfl⟩ := Nat.exists_eq_add_of_le hx.1
  have hi : i < width H n := Nat.lt_of_add_lt_add_left hx.2
  have hspec : ∀ s, (s < m ∧ Meets m n s t ∧ Elected H m n e s ∧ Holds H m s (first H n t + i)) ↔
      s < m ∧ Meets m n s t ∧ Elected H m n e s ∧ Writes H m n s i := fun s =>
    and_congr_right fun _ => and_congr_right fun hs => and_congr_right fun _ =>
      (writes_iff_holds hm hn h hs hi).symm
  simp only [hspec]
  exact existsUnique_source hm hn h ht hi e

end TrtLlm.Shards
