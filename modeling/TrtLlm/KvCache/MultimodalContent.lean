import TrtLlm.KvCache.MultimodalKeys

/-!
What the keys of a prompt with multimodal items say of its content.

* `keys_identify`: **two requests with the same keys have the same content in a block exactly when
  the runs that reach into it begin together**, as they do when both list their items in the order
  of the prompt, one after the other;
* `keys_collide`: items that are interleaved can have the same keys and another content.
-/

namespace TrtLlm.KvCache

open List Nat Prod

namespace MultimodalRequest

variable {req : MultimodalRequest} {hash : List (BitVec 32)} {s e : ℤ}

/-! ### The hashes -/

lemma getLsbD_getNthByte (hashPart : BitVec 32) {k j : ℕ} (hk : k < 4) (hj : j < 8) :
    (getNthByte hashPart k).toBitVec.getLsbD j = hashPart.getLsbD (24 - k * 8 + j) := by
  have hmask : (0xFF#32).getLsbD j = true := by
    interval_cases j <;> rfl
  have hlt : 24 - k * 8 + j < 32 := by omega
  rw [getNthByte]
  simp only [BitVec.getLsbD_setWidth, BitVec.getLsbD_and, BitVec.getLsbD_sshiftRight, hmask, hlt]
  simp [hj]
  omega

/-- The four bytes of a part give it back. -/
lemma eq_of_getNthByte {part part' : BitVec 32}
    (h : ∀ k < 4, getNthByte part k = getNthByte part' k) : part = part' := by
  refine BitVec.eq_of_getLsbD_eq fun i hi => ?_
  have hk : 3 - i / 8 < 4 := by omega
  have hj : i % 8 < 8 := by omega
  have hidx : 24 - (3 - i / 8) * 8 + i % 8 = i := by omega
  have hbit := getLsbD_getNthByte part hk hj
  have hbit' := getLsbD_getNthByte part' hk hj
  rw [hidx] at hbit hbit'
  rw [← hbit, ← hbit', h (3 - i / 8) hk]

/-- **Different hashes have different bytes.** -/
lemma hashBytes_injective {hash hash' : List (BitVec 32)} (h : hashBytes hash = hashBytes hash') :
    hash = hash' := by
  induction hash generalizing hash' with
  | nil =>
    cases hash' with
    | nil => rfl
    | cons part' hash' => cases h
  | cons part hash ih =>
    cases hash' with
    | nil => cases h
    | cons part' hash' =>
      rw [hashBytes, hashBytes, flatMap_cons, flatMap_cons] at h
      obtain ⟨hbytes, hrest⟩ := append_inj h (by rw [length_map, length_map])
      rw [ih hrest, eq_of_getNthByte fun k hk => map_inj_left.mp hbytes k (mem_range.mpr hk)]

lemma withBytes_injective : Function.Injective withBytes := by
  rintro ⟨hash, offset⟩ ⟨hash', offset'⟩ h
  have hhash : hash = hash' := hashBytes_injective (Prod.mk.inj h).1
  have hoffset : offset = offset' := (Prod.mk.inj h).2
  rw [hhash, hoffset]

/-! ### Items in the order of the prompt -/

/-- **The items are listed in the order of the prompt, one after the other**: each run stands after
those that are listed before it. -/
def PromptOrder (req : MultimodalRequest) : Prop := req.runs.Pairwise fun r r' => r.stop ≤ r'.start

/-- A run continues the item of the one before it, or the item is complete. -/
def Continues (total : List (BitVec 32) → ℤ) (r r' : PlacedRun (List (BitVec 32))) : Prop :=
  r'.item = r.item ∧ r'.offset = r.offset + r.length ∨ r.offset + r.length = total r.item
    ∧ r'.offset = 0

lemma of_mem_placedRuns {runs : List (ℤ × ℤ)} (hruns : ∀ run ∈ runs, RunOk run) {offset : ℤ}
    {r : PlacedRun (List (BitVec 32))} (hr : r ∈ placedRuns hash offset runs) :
    r.item = hash ∧ offset ≤ r.offset ∧ 0 < r.length
      ∧ r.offset + r.length ≤ offset + (runs.map snd).sum := by
  have hsum : ∀ {l : List (ℤ × ℤ)}, (∀ run ∈ l, RunOk run) → 0 ≤ (l.map snd).sum := fun h => by
    refine sum_nonneg fun n hn => ?_
    obtain ⟨run, hrun, rfl⟩ := mem_map.mp hn
    exact (h run hrun).2.1.le
  induction runs generalizing offset with
  | nil => cases hr
  | cons run runs ih =>
    have hpos := (hruns run mem_cons_self).2.1
    have hrest : ∀ run ∈ runs, RunOk run := fun run hrun => hruns run (mem_cons_of_mem _ hrun)
    rw [placedRuns, mem_cons] at hr
    rw [map_cons, sum_cons]
    obtain rfl | hr := hr
    · have hnonneg := hsum hrest
      exact ⟨rfl, le_refl _, hpos, by dsimp only; omega⟩
    · obtain ⟨hitem, hle, hlen, hwithin⟩ := ih hrest hr
      exact ⟨hitem, by omega, hlen, by omega⟩

/-- The runs of an item continue it, up to its last one. -/
lemma isChain_placedRuns (total : List (BitVec 32) → ℤ) (hash : List (BitVec 32)) (offset : ℤ)
    (runs : List (ℤ × ℤ)) :
    (placedRuns hash offset runs).IsChain (Continues total)
      ∧ (∀ r ∈ (placedRuns hash offset runs).getLast?, r.item = hash
        ∧ r.offset + r.length = offset + (runs.map snd).sum)
      ∧ ∀ r ∈ (placedRuns hash offset runs).head?, r.offset = offset := by
  induction runs generalizing offset with
  | nil =>
    refine ⟨List.IsChain.nil, fun r hr => ?_, fun r hr => ?_⟩
    · cases hr
    · cases hr
  | cons run runs ih =>
    obtain ⟨hchain, hlast, hhead⟩ := ih (offset + run.2)
    rw [placedRuns]
    refine ⟨?_, fun r hr => ?_, fun r hr => ?_⟩
    · cases hruns : placedRuns hash (offset + run.2) runs with
      | nil => exact List.IsChain.singleton _
      | cons r rest =>
        rw [hruns] at hchain hhead
        refine isChain_cons_cons.mpr ⟨.inl ⟨?_, hhead r rfl⟩, hchain⟩
        cases runs with
        | nil => cases hruns
        | cons run' runs =>
          rw [placedRuns, cons.injEq] at hruns
          rw [← hruns.1]
    · cases hruns : placedRuns hash (offset + run.2) runs with
      | nil =>
        rw [hruns] at hr
        obtain rfl := Option.some.inj hr
        cases runs with
        | nil => exact ⟨rfl, by simp⟩
        | cons run' runs => cases hruns
      | cons r' rest =>
        rw [hruns, getLast?_cons_cons, ← hruns] at hr
        obtain ⟨hitem, hstop⟩ := hlast r hr
        rw [map_cons, sum_cons]
        exact ⟨hitem, by omega⟩
    · obtain rfl := Option.some.inj hr
      rfl

/-- The runs of all items continue one another, when every item has all its tokens. -/
lemma isChain_runs (total : List (BitVec 32) → ℤ) {items : List (List (BitVec 32) × List (ℤ × ℤ))}
    (htotal : ∀ item ∈ items, (item.2.map snd).sum = total item.1) :
    (items.flatMap fun item => placedRuns item.1 0 item.2).IsChain (Continues total)
      ∧ ∀ r ∈ (items.flatMap fun item => placedRuns item.1 0 item.2).head?, r.offset = 0 := by
  induction items with
  | nil =>
    refine ⟨List.IsChain.nil, fun r hr => ?_⟩
    cases hr
  | cons item items ih =>
    obtain ⟨hchain, hhead⟩ := ih fun item hmem => htotal item (mem_cons_of_mem _ hmem)
    obtain ⟨hchain₀, hlast, hhead₀⟩ := isChain_placedRuns total item.1 0 item.2
    rw [flatMap_cons]
    refine ⟨isChain_append.mpr ⟨hchain₀, hchain, fun r hr r' hr' => .inr ⟨?_, hhead r' hr'⟩⟩,
      fun r hr => ?_⟩
    · obtain ⟨hitem, hstop⟩ := hlast r hr
      rw [hitem, hstop, zero_add, htotal item mem_cons_self]
    · rw [head?_append] at hr
      cases hfirst : (placedRuns item.1 0 item.2).head? with
      | none =>
        rw [hfirst] at hr
        exact hhead r hr
      | some r₀ =>
        rw [hfirst] at hr hhead₀
        exact hhead₀ r hr

lemma Valid.inOrder {total : List (BitVec 32) → ℤ} {placeholder : ℤ} {tokens : List UniqueToken}
    (h : req.Valid total placeholder tokens) (horder : req.PromptOrder) :
    PlacedRun.InOrder total req.runs := by
  have hmem : ∀ r ∈ req.runs, 0 ≤ r.offset ∧ 0 < r.length ∧ r.offset + r.length ≤ total r.item := by
    intro r hr
    obtain ⟨item, hitem, hr⟩ := mem_flatMap.mp hr
    obtain ⟨hhash, hle, hpos, hwithin⟩ := of_mem_placedRuns (h.run_ok item hitem) hr
    rw [zero_add, h.total item hitem] at hwithin
    exact ⟨hle, hpos, hhash ▸ hwithin⟩
  refine ⟨?_, fun r hr => (hmem r hr).1, fun r hr => (hmem r hr).2.1, fun r hr => (hmem r hr).2.2⟩
  have hchain := (isChain_runs total h.total).1
  rw [PromptOrder] at horder
  change req.runs.IsChain _ at hchain
  generalize req.runs = runs at horder hchain
  induction runs with
  | nil => exact List.IsChain.nil
  | cons r runs ih =>
    rw [pairwise_cons] at horder
    cases runs with
    | nil => exact List.IsChain.singleton _
    | cons r' runs =>
      rw [isChain_cons_cons] at hchain ⊢
      exact ⟨⟨horder.1 r' mem_cons_self, hchain.1⟩, ih horder.2 hchain.2⟩

/-! ### Keys and contents -/

/-- The first token of a block. -/
def blockStart (blocks : List (List UniqueToken)) (i : ℕ) : ℕ := (blocks.take i).flatten.length

/-- **The content of a block is the same**: each of its tokens is the same text token in both
requests, or the same token of an item of the same hash. -/
def SameContent (a b : MultimodalRequest) (blocks blocks' : List (List UniqueToken))
    (i : ℕ) : Prop :=
  ∀ p : ℕ, blockStart blocks i ≤ p → p < blockStart blocks (i + 1) →
    (¬ PlacedRun.Covered a.runs p ∧ ¬ PlacedRun.Covered b.runs p
      ∧ blocks.flatten[p]? = blocks'.flatten[p]?)
    ∨ ∃ hash offset, PlacedRun.ItemAt a.runs p hash offset ∧ PlacedRun.ItemAt b.runs p hash offset

/-- The runs of a request that reach into a block, in the order of the metadata. -/
def blockRuns (req : MultimodalRequest) (blocks : List (List UniqueToken)) (i : ℕ) :
    List (PlacedRun (List (BitVec 32))) :=
  PlacedRun.reaching (blockStart blocks i) (blockStart blocks (i + 1)) req.runs

/-- The `k`-th runs of a block begin at the same token of it. -/
def SameStarts (a b : MultimodalRequest) (blocks : List (List UniqueToken)) (i : ℕ) : Prop :=
  ∀ (k : ℕ) r r', (a.blockRuns blocks i)[k]? = some r → (b.blockRuns blocks i)[k]? = some r' →
    max (blockStart blocks i : ℤ) r.start = max (blockStart blocks i : ℤ) r'.start

/-- The same, up to second copies of an image that is listed more than once. -/
def RunsBeginTogether (a b : MultimodalRequest) (blocks : List (List UniqueToken)) (i : ℕ) : Prop :=
  PlacedRun.BeginTogether (blockStart blocks i) (blockStart blocks (i + 1)) a.runs b.runs

/-- No image is listed twice. -/
def ListedOnce (req : MultimodalRequest) : Prop := (req.items.map fst).Nodup

lemma buildBlockKeys_spec {start : ℤ} {blocks : List (List UniqueToken)} {keys : List BlockKey}
    (h : req.buildBlockKeys start blocks = .ok keys) :
    keys.map BlockKey.uniqueTokens = blocks ∧ ∀ i key, keys[i]? = some key →
      req.generateBlockHashExtraKeys (start + blockStart blocks i)
        (start + blockStart blocks (i + 1))
        = .ok key.extraKeys := by
  induction blocks generalizing start keys with
  | nil =>
    obtain rfl := Except.ok.inj h
    exact ⟨rfl, fun i key hkey => by cases hkey⟩
  | cons tokens blocks ih =>
    rw [buildBlockKeys] at h
    cases hextra : req.generateBlockHashExtraKeys start (start + tokens.length) with
    | error err =>
      rw [hextra] at h
      cases h
    | ok extraKeys =>
      cases hrest : req.buildBlockKeys (start + tokens.length) blocks with
      | error err =>
        rw [hextra, hrest] at h
        cases h
      | ok rest =>
        rw [hextra, hrest] at h
        obtain rfl := Except.ok.inj h
        obtain ⟨htokens, hkeys⟩ := ih hrest
        refine ⟨by rw [map_cons, htokens], fun i key hkey => ?_⟩
        have hstart : ∀ j, (blockStart (tokens :: blocks) (j + 1) : ℤ)
            = tokens.length + blockStart blocks j := by
          intro j
          rw [blockStart, take_succ_cons, flatten_cons, length_append, blockStart]
          push_cast
          ring
        cases i with
        | zero =>
          obtain rfl := Option.some.inj hkey
          rw [hstart]
          simp only [blockStart, take_zero, flatten_nil, length_nil, cast_zero, add_zero]
          exact hextra
        | succ i =>
          rw [hstart, hstart, ← add_assoc, ← add_assoc]
          exact hkeys i key hkey

lemma getElem?_flatten_take (blocks : List (List UniqueToken)) {i p : ℕ}
    (hp : p < blockStart blocks i) : (blocks.take i).flatten[p]? = blocks.flatten[p]? := by
  conv_rhs => rw [← take_append_drop i blocks, flatten_append]
  rw [getElem?_append_left hp]

section Identify

variable {a b : MultimodalRequest} {total : List (BitVec 32) → ℤ} {placeholder : ℤ}
  {blocks blocks' : List (List UniqueToken)} {keys keys' : List BlockKey} {i : ℕ}

section

variable (ha : a.Valid total placeholder blocks.flatten)
  (hb : b.Valid total placeholder blocks'.flatten)
include ha hb

/-- Keys that are the same up to a block: the tokens up to it are the same, and the keys of the runs
that reach into it. -/
lemma of_keys_eq
    (hkeys : a.buildBlockKeys 0 blocks = .ok keys) (hkeys' : b.buildBlockKeys 0 blocks' = .ok keys')
    (hi : i < keys.length) (heq : keys.take (i + 1) = keys'.take (i + 1)) :
    blocks.take (i + 1) = blocks'.take (i + 1)
      ∧ PlacedRun.keys (blockStart blocks i) (blockStart blocks (i + 1)) a.runs
        = PlacedRun.keys (blockStart blocks i) (blockStart blocks (i + 1)) b.runs := by
  obtain ⟨htokens, hextra⟩ := buildBlockKeys_spec hkeys
  obtain ⟨htokens', hextra'⟩ := buildBlockKeys_spec hkeys'
  have hblocks : blocks.take (i + 1) = blocks'.take (i + 1) := by
    rw [← htokens, ← htokens', ← map_take, ← map_take, heq]
  have hshort : blocks.take i = blocks'.take i := by
    have h := congrArg (take i) hblocks
    rwa [take_take, take_take, min_eq_left (le_succ i)] at h
  have hkey : keys[i]? = some (keys.get ⟨i, hi⟩) := getElem?_eq_getElem hi
  have hkey' : keys'[i]? = some (keys.get ⟨i, hi⟩) := by
    have h := congrArg (fun l => l[i]?) heq
    simp only [getElem?_take, lt_succ_self, if_true] at h
    rw [← h, hkey]
  have hruns := hextra i _ hkey
  have hruns' := hextra' i _ hkey'
  rw [blockStart, blockStart, ← hshort, ← hblocks] at hruns'
  change b.generateBlockHashExtraKeys (0 + blockStart blocks i) (0 + blockStart blocks (i + 1))
    = _ at hruns'
  rw [zero_add, zero_add] at hruns hruns'
  obtain ⟨ks, hks, hsummary⟩ := generateBlockHashExtraKeys_spec ha (blockStart blocks i)
    (blockStart blocks (i + 1))
  obtain ⟨ks', hks', hsummary'⟩ := generateBlockHashExtraKeys_spec hb (blockStart blocks i)
    (blockStart blocks (i + 1))
  obtain rfl := Except.ok.inj (hruns.symm.trans hks)
  obtain rfl := Except.ok.inj (hruns'.symm.trans hks')
  exact ⟨hblocks, withBytes_injective.list_map (hsummary.symm.trans hsummary')⟩

/-- Then the runs cover the same tokens of it. -/
lemma covered_iff_of_take_eq (hblocks : blocks.take (i + 1) = blocks'.take (i + 1))
    {p : ℕ} (hp : p < blockStart blocks (i + 1)) :
    blocks.flatten[p]? = blocks'.flatten[p]?
      ∧ (PlacedRun.Covered a.runs p ↔ PlacedRun.Covered b.runs p) := by
  have hp' : p < blockStart blocks' (i + 1) := by rwa [blockStart, ← hblocks]
  have htoken : blocks.flatten[p]? = blocks'.flatten[p]? := by
    rw [← getElem?_flatten_take blocks hp, ← getElem?_flatten_take blocks' hp', hblocks]
  obtain ⟨token, hget⟩ : ∃ token, blocks.flatten[p]? = some token := by
    rw [← getElem?_flatten_take blocks hp]
    exact ⟨_, getElem?_eq_getElem hp⟩
  exact ⟨htoken, (ha.placeholder p token hget).trans (hb.placeholder p token (htoken ▸ hget)).symm⟩

end

lemma Valid.length_pos {tokens : List UniqueToken} (h : req.Valid total placeholder tokens) :
    ∀ r ∈ req.runs, 0 < r.length := by
  intro r hr
  obtain ⟨item, hitem, hr⟩ := mem_flatMap.mp hr
  exact (of_mem_placedRuns (h.run_ok item hitem) hr).2.2.1

lemma Valid.disjoint_runs {tokens : List UniqueToken} (h : req.Valid total placeholder tokens) :
    PlacedRun.Disjoint req.runs := by
  have hsymm : Std.Symm fun r r' : PlacedRun (List (BitVec 32)) => ∀ p,
      r.Covers p → ¬ r'.Covers p :=
    ⟨fun r r' hboth p hcovers' hcovers => hboth p hcovers hcovers'⟩
  refine ⟨fun r hr r' hr' p hcovers hcovers' => ?_, h.length_pos⟩
  by_contra hne
  exact h.disjoint.forall hr hr' hne p hcovers hcovers'

/-- The runs of an item have different tokens of it. -/
lemma pairwise_placedRuns {runs : List (ℤ × ℤ)} (hruns : ∀ run ∈ runs, RunOk run) (offset : ℤ) :
    (placedRuns hash offset runs).Pairwise PlacedRun.Apart := by
  induction runs generalizing offset with
  | nil => exact Pairwise.nil
  | cons run runs ih =>
    have hrest : ∀ run ∈ runs, RunOk run := fun run hrun => hruns run (mem_cons_of_mem _ hrun)
    exact Pairwise.cons (fun r hr _ => (of_mem_placedRuns hrest hr).2.1) (ih hrest _)

/-- Where no image is listed twice, no token of one is. -/
lemma Valid.apart {tokens : List UniqueToken} (h : req.Valid total placeholder tokens)
    (honce : req.ListedOnce) : req.runs.Pairwise PlacedRun.Apart := by
  refine pairwise_flatMap.mpr ⟨fun item hitem => pairwise_placedRuns (h.run_ok item hitem) 0, ?_⟩
  rw [ListedOnce, Nodup, pairwise_map] at honce
  refine honce.imp_of_mem fun hitem hitem' hne r hr r' hr' heq => absurd ?_ hne
  rw [← (of_mem_placedRuns (h.run_ok _ hitem) hr).1, heq,
    (of_mem_placedRuns (h.run_ok _ hitem') hr').1]

/-- **Two requests with the same keys up to a block have the same content in it exactly when the
runs that reach into it begin together.**  Where an image is listed only once that is to say that
the `k`-th runs of the block begin at the same token, and it is so when both requests list their
items in the order of the prompt, one after the other. -/
theorem keys_identify (ha : a.Valid total placeholder blocks.flatten)
    (hb : b.Valid total placeholder blocks'.flatten) (hkeys : a.buildBlockKeys 0 blocks = .ok keys)
    (hkeys' : b.buildBlockKeys 0 blocks' = .ok keys') (hi : i < keys.length)
    (heq : keys.take (i + 1) = keys'.take (i + 1)) :
    (SameContent a b blocks blocks' i ↔ RunsBeginTogether a b blocks i)
      ∧ (b.ListedOnce → (RunsBeginTogether a b blocks i ↔ SameStarts a b blocks i))
      ∧ (a.PromptOrder → b.PromptOrder → RunsBeginTogether a b blocks i) := by
  obtain ⟨hblocks, hruns⟩ := of_keys_eq ha hb hkeys hkeys' hi heq
  have hcov : ∀ p : ℤ, blockStart blocks i ≤ p → p < blockStart blocks (i + 1) →
      (PlacedRun.Covered a.runs p ↔ PlacedRun.Covered b.runs p) := by
    intro p hstart hstop
    obtain ⟨n, rfl⟩ : ∃ n : ℕ, p = n := ⟨p.toNat, by omega⟩
    exact (covered_iff_of_take_eq ha hb hblocks (by omega)).2
  have hiff := PlacedRun.sameTokens_iff_beginTogether ha.disjoint_runs hb.disjoint_runs hruns hcov
  refine ⟨Iff.trans ⟨fun h p hstart hstop hcovered => ?_, fun h p hstart hstop => ?_⟩ hiff,
    fun honce => PlacedRun.beginTogether_iff_of_apart (hb.apart honce) hb.length_pos hruns,
    fun horder horder' => hiff.mp fun p hstart hstop hcovered => ?_⟩
  · obtain ⟨n, rfl⟩ : ∃ n : ℕ, p = n := ⟨p.toNat, by omega⟩
    obtain ⟨hnot, -⟩ | hsame := h n (by omega) (by omega)
    · exact absurd hcovered hnot
    · exact hsame
  · by_cases hcovered : PlacedRun.Covered a.runs p
    · exact .inr (h p (by omega) (by omega) hcovered)
    · obtain ⟨htoken, hboth⟩ := covered_iff_of_take_eq ha hb hblocks hstop
      exact .inl ⟨hcovered, fun hcovered' => hcovered (hboth.mpr hcovered'), htoken⟩
  · obtain ⟨r, hr, hcovers⟩ := hcovered
    have hitem : PlacedRun.ItemAt a.runs p r.item (r.offset + (p - r.start)) :=
      ⟨r, hr, hcovers, rfl, rfl⟩
    exact ⟨_, _, hitem,
      (ha.inOrder horder).itemAt_of_keys (hb.inOrder horder') hruns hcov hstart hstop hitem⟩

end Identify

/-! ### Two images in one block -/

instance (run : ℤ × ℤ) : Decidable (RunOk run) := inferInstanceAs (Decidable (_ ∧ _))

/-- The hashes of two images, of two and of three tokens. -/
def imageX : List (BitVec 32) := replicate 8 1#32

/-- The second one. -/
def imageY : List (BitVec 32) := replicate 8 2#32

/-- The number of tokens of an image. -/
def imageTokens (hash : List (BitVec 32)) : ℤ := if hash = imageX then 2 else 3

/-- A request with run metadata for the two images. -/
def twoImages (offsets positions lengths : List ℤ) : MultimodalRequest where
  multimodalHashes := some (some [imageX, imageY])
  multimodalPositions := none
  multimodalLengths := none
  multimodalUuids := none
  multimodalItemRunCuOffsets := some (some offsets)
  multimodalRunPositions := some (some positions)
  multimodalRunLengths := some (some lengths)
  usesExtraIds := false
  loraTaskId := none
  cacheSalt := none

/-- The one image after the other. -/
def sideBySide : MultimodalRequest := twoImages [0, 1, 2] [0, 2] [2, 3]

/-- The second image between the two tokens of the first one. -/
def interleaved : MultimodalRequest := twoImages [0, 2, 3] [0, 4, 1] [1, 1, 3]

/-- The first layout, with one position and length for each image. -/
def contiguous : MultimodalRequest :=
  { twoImages [] [] [] with
    multimodalPositions := some (some [0, 2])
    multimodalLengths := some (some [2, 3])
    multimodalItemRunCuOffsets := none
    multimodalRunPositions := none
    multimodalRunLengths := none }

/-- The prompt: five placeholders, in blocks of four tokens. -/
def imageBlocks : List (List UniqueToken) := [replicate 4 ⟨7, 0⟩, [⟨7, 0⟩]]

lemma sideBySide_runs : sideBySide.runs = [⟨imageX, 0, 2, 0⟩, ⟨imageY, 2, 3, 0⟩] := by decide

lemma interleaved_runs :
    interleaved.runs = [⟨imageX, 0, 1, 0⟩, ⟨imageX, 4, 1, 1⟩, ⟨imageY, 1, 3, 0⟩] := by decide

lemma contiguous_runs : contiguous.runs = sideBySide.runs := by decide

/-- Runs that cover the five placeholders. -/
lemma placeholder_of_covered {runs : List (PlacedRun (List (BitVec 32)))}
    (h : ∀ p : ℕ, p < 5 → PlacedRun.Covered runs p) (p : ℕ) (token : UniqueToken)
    (hget : imageBlocks.flatten[p]? = some token) :
    PlacedRun.Covered runs p ↔ token.tokenId = 7 := by
  have hlt : p < 5 := (List.getElem?_eq_some_iff.mp hget).1
  have htoken : token = ⟨7, 0⟩ := by
    have hmem := mem_of_getElem? hget
    simpa [imageBlocks] using hmem
  rw [htoken]
  exact iff_of_true (h p hlt) rfl

lemma sideBySide_valid : sideBySide.Valid imageTokens 7 imageBlocks.flatten where
  shape := by
    show ∀ i < 2, _
    decide
  hash_length := by decide
  run_ok := by decide
  ordered := by decide
  total := by decide
  disjoint := by
    rw [sideBySide_runs]
    simp only [pairwise_cons, mem_singleton, forall_eq, PlacedRun.Covers, PlacedRun.stop]
    refine ⟨fun p h h' => ?_, by simp⟩
    omega
  placeholder := by
    refine placeholder_of_covered fun p hp => ?_
    rw [sideBySide_runs]
    by_cases hlt : p < 2
    · exact ⟨_, mem_cons_self, by simp only [PlacedRun.Covers, PlacedRun.stop]; omega⟩
    · exact ⟨_, mem_cons_of_mem _ mem_cons_self,
        by simp only [PlacedRun.Covers, PlacedRun.stop]; omega⟩

lemma contiguous_valid : contiguous.Valid imageTokens 7 imageBlocks.flatten where
  shape := ⟨[0, 2], [2, 3], rfl, rfl, rfl, rfl⟩
  hash_length := by decide
  run_ok := by decide
  ordered := by decide
  total := by decide
  disjoint := by
    rw [contiguous_runs]
    exact sideBySide_valid.disjoint
  placeholder := by
    rw [contiguous_runs]
    exact sideBySide_valid.placeholder

lemma interleaved_valid : interleaved.Valid imageTokens 7 imageBlocks.flatten where
  shape := by
    show ∀ i < 2, _
    decide
  hash_length := by decide
  run_ok := by decide
  ordered := by decide
  total := by decide
  disjoint := by
    rw [interleaved_runs]
    simp only [pairwise_cons, mem_cons, not_mem_nil, or_false, forall_eq_or_imp, forall_eq,
      PlacedRun.Covers, PlacedRun.stop]
    refine ⟨⟨fun p h h' => ?_, fun p h h' => ?_⟩, fun p h h' => ?_, by simp⟩
    · omega
    · omega
    · omega
  placeholder := by
    refine placeholder_of_covered fun p hp => ?_
    rw [interleaved_runs]
    simp only [PlacedRun.Covered, mem_cons, not_mem_nil, or_false, exists_eq_or_imp, exists_eq_left,
      PlacedRun.Covers, PlacedRun.stop]
    omega

/-- Both kinds of metadata give the same keys for the same layout. -/
theorem keys_identify_contiguous : sideBySide.PromptOrder ∧ contiguous.PromptOrder
      ∧ SameContent sideBySide contiguous imageBlocks imageBlocks 0 := by
  have horder : sideBySide.PromptOrder := by
    rw [PromptOrder, sideBySide_runs]
    decide
  have horder' : contiguous.PromptOrder := by
    rw [PromptOrder, contiguous_runs]
    exact horder
  obtain ⟨keys, hkeys, hkeys', hlen⟩ : ∃ keys, sideBySide.buildBlockKeys 0 imageBlocks = .ok keys
      ∧ contiguous.buildBlockKeys 0 imageBlocks = .ok keys ∧ 0 < keys.length :=
    ⟨_, rfl, by decide, by decide⟩
  have hboth := keys_identify sideBySide_valid contiguous_valid hkeys hkeys' hlen rfl
  exact ⟨horder, horder', hboth.1.mpr (hboth.2.2 horder horder')⟩

/-- **Interleaved items have the keys of another layout**: the second token is of the first image in
one request, and of the second image in the other. -/
theorem keys_collide :
    ¬ ∀ (a b : MultimodalRequest) (total : List (BitVec 32) → ℤ) (placeholder : ℤ)
      (blocks blocks' : List (List UniqueToken)) (keys keys' : List BlockKey) (i : ℕ),
      a.Valid total placeholder blocks.flatten → b.Valid total placeholder blocks'.flatten →
      a.buildBlockKeys 0 blocks = .ok keys → b.buildBlockKeys 0 blocks' = .ok keys' →
        i < keys.length →
      keys.take (i + 1) = keys'.take (i + 1) → SameContent a b blocks blocks' i := by
  intro h
  obtain ⟨keys, keys', hkeys, hkeys', hlen, heq⟩ :
      ∃ keys keys', sideBySide.buildBlockKeys 0 imageBlocks = .ok keys
        ∧ interleaved.buildBlockKeys 0 imageBlocks = .ok keys' ∧ 0 < keys.length
        ∧ keys.take 1 = keys'.take 1 :=
    ⟨_, _, rfl, rfl, by decide, by decide⟩
  have hsame :=
    h _ _ _ _ _ _ keys keys' 0 sideBySide_valid interleaved_valid hkeys hkeys' hlen heq 1
    (by decide) (by decide)
  rw [sideBySide_runs, interleaved_runs] at hsame
  obtain ⟨hnot, -⟩ | ⟨hash, offset, ⟨r, hr, hcovers, hitem, -⟩, ⟨r', hr', hcovers', hitem', -⟩⟩ :=
    hsame
  · exact hnot ⟨_, mem_cons_self, by decide, by decide⟩
  · simp only [mem_cons, not_mem_nil, or_false] at hr hr'
    have hx : hash = imageX := by
      rcases hr with rfl | rfl
      · exact hitem.symm
      · exact absurd hcovers.1 (by decide)
    have hy : hash = imageY := by
      rcases hr' with rfl | rfl | rfl
      · exact absurd hcovers'.2 (by decide)
      · exact absurd hcovers'.1 (by decide)
      · exact hitem'.symm
    exact absurd (hx.symm.trans hy) (by decide)

end MultimodalRequest

end TrtLlm.KvCache
