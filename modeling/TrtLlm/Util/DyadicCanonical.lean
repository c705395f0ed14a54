import TrtLlm.Util.Dyadic

/-!
Coalesced dyadic tilings: a tiling by two families of tiles, the first of which never holds both
halves of a larger tile.

* `Clear`: no tile of a family meets the block of order `o` at `off`;
* `exists_tile_of_clear`: in a coalesced tiling a block that is clear of the second family lies
  inside one tile of the first;
* `tile_iff_clear`: so the tiles of the first family are the largest clear blocks, and the first
  family is determined by the second;
* `Tiling.sum_sz`: the lengths of all tiles of a tiling add up to the length of the interval.
-/

namespace TrtLlm.DyadicTiling

variable {u L : ℕ} {f g : ℕ → ℕ → ℕ}

/-- No two halves of a tile of order at most `L` are both in the family. -/
def Coalesced (u L : ℕ) (f : ℕ → ℕ → ℕ) : Prop :=
  ∀ o off, o < L → sz u (o + 1) ∣ off → 0 < f o off → f o (off + sz u o) = 0

/-- No tile of the family meets the block of order `o` at `off`. -/
def Clear (u : ℕ) (g : ℕ → ℕ → ℕ) (o off : ℕ) : Prop :=
  ∀ o' off', 0 < g o' off' → off' + sz u o' ≤ off ∨ off + sz u o ≤ off'

variable {o : ℕ}

/-- Aligned blocks that share a point are nested. -/
lemma nested (hu : 0 < u) {o' off off' x : ℕ} (ho : o ≤ o') (hd : sz u o ∣ off)
    (hd' : sz u o' ∣ off') (hx : off ≤ x ∧ x < off + sz u o) (hx' : off' ≤ x ∧ x < off' + sz u o') :
    off' ≤ off ∧ off + sz u o ≤ off' + sz u o' := by
  have hs := sz_pos hu o
  obtain ⟨c, hc⟩ := sz_dvd_sz u ho
  obtain ⟨a, rfl⟩ := hd
  obtain ⟨b, hb⟩ := (sz_dvd_sz u ho).trans hd'
  rw [hc, hb] at hx'
  rw [hc, hb]
  have hba : b < a + 1 := by
    refine Nat.lt_of_mul_lt_mul_left (a := sz u o) ?_
    calc sz u o * b ≤ x := hx'.1
      _ < sz u o * (a + 1) := by rw [Nat.mul_add, Nat.mul_one]; exact hx.2
  have hac : a < b + c := by
    refine Nat.lt_of_mul_lt_mul_left (a := sz u o) ?_
    calc sz u o * a ≤ x := hx.1
      _ < sz u o * (b + c) := by rw [Nat.mul_add]; exact hx'.2
  constructor
  · exact Nat.mul_le_mul_left _ (Nat.lt_succ_iff.mp hba)
  · calc sz u o * a + sz u o = sz u o * (a + 1) := by ring
      _ ≤ sz u o * (b + c) := Nat.mul_le_mul_left _ hac
      _ = sz u o * b + sz u o * c := by ring

/-- Every point of the interval lies in a tile. -/
lemma Tiling.exists_tile (hu : 0 < u) (h : Tiling u L f) {x : ℕ} (hx : x < sz u L) :
    ∃ o off, 0 < f o off ∧ off ≤ x ∧ x < off + sz u o := by
  have hsum : 0 < ∑ o ∈ Finset.range (L + 1), f o (down u o x) := by
    have := h.covered x hx
    rw [cover] at this
    omega
  obtain ⟨o, -, ho⟩ := Finset.exists_ne_zero_of_sum_ne_zero hsum.ne'
  refine ⟨o, down u o x, Nat.pos_of_ne_zero ho, ?_⟩
  exact (down_eq_iff hu (Dvd.intro_left _ rfl)).mp rfl

/-- **A clear block lies inside one tile**: otherwise its two halves would be tiles. -/
lemma exists_tile_of_clear (hu : 0 < u) (h : Tiling u L fun o y => f o y + g o y)
    (hf : Coalesced u L f) : ∀ o off, o ≤ L → sz u o ∣ off → off + sz u o ≤ sz u L →
      Clear u g o off →
        ∃ o' off', 0 < f o' off' ∧ o ≤ o' ∧ off' ≤ off ∧ off + sz u o ≤ off' + sz u o' := by
  intro o
  induction o with
  | zero =>
    intro off ho hd hle hclear
    have hpos := sz_pos hu 0
    obtain ⟨o', off', htile, hx⟩ := h.exists_tile hu (show off < sz u L by omega)
    have hg : g o' off' = 0 := by
      by_contra hne
      obtain hc | hc := hclear o' off' (Nat.pos_of_ne_zero hne)
      · omega
      · omega
    have hd' := (h.aligned o' off' htile).2.1
    have hnest := nested hu (Nat.zero_le o') hd hd' ⟨le_refl off, by omega⟩ hx
    exact ⟨o', off', by omega, Nat.zero_le o', hnest⟩
  | succ o ih =>
    intro off ho hd hle hclear
    have hs := sz_succ u o
    have hpos := sz_pos hu o
    have hd₁ : sz u o ∣ off := (sz_dvd_sz u (Nat.le_succ o)).trans hd
    have hhalf : ∀ y, (y = off ∨ y = off + sz u o) →
        ∃ o' off', 0 < f o' off' ∧ o ≤ o' ∧ off' ≤ y ∧ y + sz u o ≤ off' + sz u o' := by
      intro y hy
      refine ih y (by omega) ?_ (by omega) ?_
      · obtain rfl | rfl := hy
        · exact hd₁
        · exact hd₁.add dvd_rfl
      · intro o' off' hg
        obtain hc | hc := hclear o' off' hg
        · exact Or.inl (by omega)
        · exact Or.inr (by omega)
    -- a tile that is larger than one half contains the whole block
    have hlarger : ∀ y o' off', (y = off ∨ y = off + sz u o) → 0 < f o' off' → o < o' →
        off' ≤ y → y + sz u o ≤ off' + sz u o' →
          off' ≤ off ∧ off + sz u (o + 1) ≤ off' + sz u o' := by
      intro y o' off' hy htile ho' hle₁ hle₂
      have hmem : 0 < f o' off' + g o' off' := by omega
      have hx : off ≤ y ∧ y < off + sz u (o + 1) := by omega
      have hx' : off' ≤ y ∧ y < off' + sz u o' := by omega
      exact nested hu ho' hd (h.aligned o' off' hmem).2.1 hx hx'
    obtain ⟨o₁, off₁, htile₁, ho₁, hle₁, hge₁⟩ := hhalf off (Or.inl rfl)
    obtain ⟨o₂, off₂, htile₂, ho₂, hle₂, hge₂⟩ := hhalf (off + sz u o) (Or.inr rfl)
    obtain hlt₁ | rfl := Nat.lt_or_eq_of_le ho₁
    · exact ⟨o₁, off₁, htile₁, hlt₁, hlarger off o₁ off₁ (Or.inl rfl) htile₁ hlt₁ hle₁ hge₁⟩
    obtain hlt₂ | rfl := Nat.lt_or_eq_of_le ho₂
    · exact ⟨o₂, off₂, htile₂, hlt₂,
        hlarger (off + sz u o) o₂ off₂ (Or.inr rfl) htile₂ hlt₂ hle₂ hge₂⟩
    obtain rfl : off₁ = off := by omega
    obtain rfl : off₂ = off₁ + sz u o := by omega
    have := hf o off₁ (by omega) hd htile₁
    omega

/-- Tiles of the two families do not meet: they would be one tile, counted twice. -/
lemma Tiling.clear (hu : 0 < u) (h : Tiling u L fun o y => f o y + g o y) {off : ℕ}
    (htile : 0 < f o off) : Clear u g o off := by
  intro o' off' hg
  have hpos := sz_pos hu o
  have hpos' := sz_pos hu o'
  have hone : ∀ x, off ≤ x ∧ x < off + sz u o → ¬ (off' ≤ x ∧ x < off' + sz u o') := by
    intro x hx hx'
    have hmem : 0 < f o off + g o off := by omega
    have hmem' : 0 < f o' off' + g o' off' := by omega
    obtain ⟨rfl, rfl, honce⟩ := h.unique hu hmem hmem' hx hx'
    omega
  by_contra hmeet
  obtain hle | hle := le_total off off'
  · exact hone off' (by omega) (by omega)
  · exact hone off (by omega) (by omega)

/-- **The tiles of the first family are the largest blocks that are clear of the second.** -/
theorem tile_iff_clear (hu : 0 < u) (h : Tiling u L fun o y => f o y + g o y)
    (hf : Coalesced u L f) (o off : ℕ) :
    0 < f o off ↔ o ≤ L ∧ sz u o ∣ off ∧ off + sz u o ≤ sz u L ∧ Clear u g o off ∧
      (o < L → ¬ Clear u g (o + 1) (down u (o + 1) off)) := by
  have hparent : sz u (o + 1) ∣ down u (o + 1) off := Dvd.intro_left _ rfl
  have hin : down u (o + 1) off ≤ off ∧ off < down u (o + 1) off + sz u (o + 1) :=
    (down_eq_iff hu hparent).mp rfl
  have hpos := sz_pos hu o
  have hpos' := sz_pos hu (o + 1)
  constructor
  · intro htile
    have hmem : 0 < f o off + g o off := by omega
    obtain ⟨ho, hd, hle⟩ := h.aligned o off hmem
    refine ⟨ho, hd, hle, h.clear hu htile, fun hlt hclear => ?_⟩
    have hfit : 0 ≤ down u (o + 1) off ∧ down u (o + 1) off + sz u (o + 1) ≤ 0 + sz u L :=
      nested hu hlt hparent (dvd_zero _) hin ⟨Nat.zero_le _, by omega⟩
    rw [Nat.zero_add] at hfit
    obtain ⟨o', off', htile', ho', hle₁, hle₂⟩ :=
      exists_tile_of_clear hu h hf (o + 1) _ hlt hparent hfit.2 hclear
    have hmem' : 0 < f o' off' + g o' off' := by omega
    have hx : off ≤ off ∧ off < off + sz u o := by omega
    have hx' : off' ≤ off ∧ off < off' + sz u o' := by omega
    have := (h.unique hu hmem hmem' hx hx').1
    omega
  · rintro ⟨ho, hd, hle, hclear, hmax⟩
    obtain ⟨o', off', htile', ho', hle₁, hle₂⟩ :=
      exists_tile_of_clear hu h hf o off ho hd hle hclear
    have hmem' : 0 < f o' off' + g o' off' := by omega
    have hal' := h.aligned o' off' hmem'
    obtain hlt | rfl := Nat.lt_or_eq_of_le ho'
    · -- the enclosing block lies in the same tile, so it is clear as well
      exfalso
      have hnest : off' ≤ down u (o + 1) off ∧ down u (o + 1) off + sz u (o + 1) ≤ off' + sz u o' :=
        nested hu hlt hparent hal'.2.1 hin ⟨hle₁, by omega⟩
      refine hmax (by omega) fun o'' off'' hg => ?_
      obtain hc | hc := h.clear hu htile' o'' off'' hg
      · exact Or.inl (by omega)
      · exact Or.inr (by omega)
    · obtain rfl : off' = off := by omega
      exact htile'

/-! ### The length of a tiling -/

lemma sum_range_mul_div (φ : ℕ → ℕ) {m : ℕ} (hm : 0 < m) (n : ℕ) :
    ∑ x ∈ Finset.range (n * m), φ (x / m) = (∑ k ∈ Finset.range n, φ k) * m := by
  induction n with
  | zero => simp
  | succ n ih =>
    have hlast : ∀ i ∈ Finset.range m, φ ((n * m + i) / m) = φ n := by
      intro i hi
      rw [Finset.mem_range] at hi
      rw [Nat.mul_comm n m, Nat.mul_add_div hm, Nat.div_eq_of_lt hi, Nat.add_zero]
    calc ∑ x ∈ Finset.range ((n + 1) * m), φ (x / m)
        = ∑ x ∈ Finset.range (n * m), φ (x / m) + ∑ i ∈ Finset.range m, φ ((n * m + i) / m) := by
          rw [Nat.succ_mul, Finset.sum_range_add]
      _ = (∑ k ∈ Finset.range n, φ k) * m + m * φ n := by
          rw [ih, Finset.sum_congr rfl hlast, Finset.sum_const, Finset.card_range, smul_eq_mul]
      _ = (∑ k ∈ Finset.range (n + 1), φ k) * m := by
          rw [Finset.sum_range_succ]
          ring

lemma sz_eq_mul (ho : o ≤ L) : sz u L = 2 ^ (L - o) * sz u o := by
  obtain ⟨k, rfl⟩ := Nat.exists_eq_add_of_le ho
  rw [sz, sz, Nat.add_sub_cancel_left, pow_add]
  ring

/-- **The lengths of the tiles add up.** -/
theorem Tiling.sum_sz (hu : 0 < u) (h : Tiling u L f) :
    ∑ o ∈ Finset.range (L + 1), (∑ k ∈ Finset.range (2 ^ (L - o)), f o (k * sz u o)) * sz u o
      = sz u L := by
  calc ∑ o ∈ Finset.range (L + 1), (∑ k ∈ Finset.range (2 ^ (L - o)), f o (k * sz u o)) * sz u o
      = ∑ o ∈ Finset.range (L + 1), ∑ x ∈ Finset.range (sz u L), f o (down u o x) := by
        refine Finset.sum_congr rfl fun o ho => ?_
        rw [Finset.mem_range] at ho
        rw [sz_eq_mul (Nat.lt_succ_iff.mp ho)]
        exact (sum_range_mul_div (fun k => f o (k * sz u o)) (sz_pos hu o) _).symm
    _ = ∑ x ∈ Finset.range (sz u L), cover u L f x := Finset.sum_comm
    _ = ∑ x ∈ Finset.range (sz u L), 1 :=
        Finset.sum_congr rfl fun x hx => h.covered x (Finset.mem_range.mp hx)
    _ = sz u L := by rw [Finset.sum_const, Finset.card_range, smul_eq_mul, Nat.mul_one]

/-- Aligned starts in the interval are counted by their quotients. -/
lemma sum_ite_mem_mul {s n : ℕ} (hs : 0 < s) {c : Finset ℕ} (hc : ∀ y ∈ c, s ∣ y ∧ y + s ≤ n * s) :
    ∑ k ∈ Finset.range n, (if k * s ∈ c then 1 else 0) = c.card := by
  have himage : ((Finset.range n).filter fun k => k * s ∈ c).image (· * s) = c := by
    ext y
    rw [Finset.mem_image]
    constructor
    · rintro ⟨k, hk, rfl⟩
      exact (Finset.mem_filter.mp hk).2
    · intro hy
      obtain ⟨⟨k, rfl⟩, hle⟩ := hc y hy
      have hk : k < n := by
        refine Nat.lt_of_mul_lt_mul_left (a := s) ?_
        rw [Nat.mul_comm s n]
        omega
      exact ⟨k, Finset.mem_filter.mpr ⟨Finset.mem_range.mpr hk, Nat.mul_comm s k ▸ hy⟩,
        Nat.mul_comm k s⟩
  calc ∑ k ∈ Finset.range n, (if k * s ∈ c then 1 else 0)
      = ((Finset.range n).filter fun k => k * s ∈ c).card := (Finset.card_filter _ _).symm
    _ = (((Finset.range n).filter fun k => k * s ∈ c).image (· * s)).card :=
        (Finset.card_image_of_injective _ fun a b h => Nat.eq_of_mul_eq_mul_right hs h).symm
    _ = c.card := by rw [himage]

end TrtLlm.DyadicTiling
