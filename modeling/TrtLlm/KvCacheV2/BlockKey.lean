import Mathlib.Data.List.Induction
import Mathlib.Data.Vector.Basic
import Mathlib.Data.List.TakeWhile
import TrtLlm.Util.ByteStream

/-!
Keys of the blocks of the radix tree: what `Hasher` writes, `Block::makeKey`, and the lazy
generator `sequenceToBlockchainKeys`.

A key is the SHA-256 digest of a byte string: the serialised reuse scope for a root, and the
parent's key followed by the tokens for a block.  A plain token is written as four bytes and
a multimodal digest as 32, with nothing that tells the two apart, so SHA-256 enters as a
parameter and the results are about the strings written:

* `sequenceToBlockchainKeys_eq`: the generator yields the chain of `makeKey` values, on the
  digest-free fast path as on the general one;
* `chainKey_eq_iff`: for a hash without collisions two chains have one key exactly when they
  have one scope and, block for block, the same bytes;
* `keys_isolate_iff`: so a key gives back its scope and its tokens unless one of the chains
  spells with plain ids, or shifted, what is a digest of the other.
-/

namespace TrtLlm.KvCacheV2

open List

/-! ### Tokens -/

/-- `kDIGEST_LEN`. -/
def kDIGEST_LEN : ℕ := 32

/-- `Digest`, and its alias `BlockKey`. -/
abbrev Digest := List.Vector UInt8 kDIGEST_LEN

/-- `TokenIdExt`: a vocabulary id with the tag bit clear, or a multimodal digest.  The pool
slot of a digest and the UUID of its item take no part in equality or hashing. -/
inductive TokenIdExt where
  | normal (id : Fin (2 ^ 31))
  | digest (d : Digest)
deriving DecidableEq

lemma normal_ne : NeZero (2 ^ 31) := ⟨by decide⟩

/-- `TokenIdExt::isDigest`. -/
def TokenIdExt.isDigest : TokenIdExt → Bool
  | .normal _ => false
  | .digest _ => true

/-- `TokenIdExt::tokenId`, valid for a token that is no digest. -/
def TokenIdExt.tokenId : (t : TokenIdExt) → ¬ t.isDigest → Fin (2 ^ 31)
  | .normal id, _ => id
  | .digest _, h => absurd rfl h

/-- `ReuseScope`. -/
structure ReuseScope where
  loraId : Option UInt64
  salt : Option (List UInt8)
deriving DecidableEq

/-! ### What the hasher writes -/

/-- `emitReuseScopeBytes`: a presence mask, the LoRA id, and the salt after its length. -/
def emitReuseScopeBytes (scope : ReuseScope) : List UInt8 :=
  let mask := (if scope.loraId.isSome then 1 else 0) ||| (if scope.salt.isSome then 2 else 0)
  mask ::
    ((match scope.loraId with
      | some value => leBytes 8 value.toNat
      | none => [])
    ++ match scope.salt with
      | some salt => leBytes 8 (salt.length % 2 ^ 64) ++ salt
      | none => [])

/-- The bytes of one token, as `Hasher::update(TokenIdExt)` writes them. -/
def tokenBytes : TokenIdExt → List UInt8
  | .normal id => leBytes 4 id
  | .digest d => d.toList

/-- `writeNormalRun`: a run of plain tokens as one block of little-endian words. -/
def writeNormalRun (run : List TokenIdExt) (h : ∀ t ∈ run, ¬ t.isDigest) : List UInt8 :=
  (run.pmap (fun t ht => leBytes 4 (t.tokenId ht)) h).flatten

/-- A range of tokens with the caller's flag; the flag is only set on external knowledge
that the range holds no digest. -/
structure TokenRange where
  tokens : List TokenIdExt
  knownNoDigest : Bool
  noDigest : knownNoDigest → ∀ t ∈ tokens, ¬ t.isDigest

/-- The loop of `Hasher::update`: a maximal run of plain tokens, then one digest. -/
def updateRuns (tokens : List TokenIdExt) : List UInt8 :=
  let run := tokens.takeWhile (!·.isDigest)
  let written := writeNormalRun run fun t ht => by simpa using mem_takeWhile_imp ht
  match _h : tokens.dropWhile (!·.isDigest) with
  | [] => written
  | t :: rest => written ++ (tokenBytes t ++ updateRuns rest)
termination_by tokens.length
decreasing_by
  have := (dropWhile_suffix (l := tokens) fun t => !t.isDigest).length_le
  simp_all only [length_cons]
  omega

/-- `Hasher::update` on a range of tokens. -/
def Hasher.update (r : TokenRange) : List UInt8 :=
  if h : r.knownNoDigest then writeNormalRun r.tokens (r.noDigest h) else updateRuns r.tokens

lemma writeNormalRun_eq {run : List TokenIdExt} (h : ∀ t ∈ run, ¬ t.isDigest) :
    writeNormalRun run h = run.flatMap tokenBytes := by
  induction run with
  | nil => rfl
  | cons t run ih =>
    have hrun : ∀ t ∈ run, ¬ t.isDigest := fun t ht => h t (mem_cons_of_mem _ ht)
    have htail := ih hrun
    simp only [writeNormalRun] at htail ⊢
    rw [pmap_cons, flatten_cons, htail, flatMap_cons]
    cases t with
    | normal id => rfl
    | digest d => exact absurd rfl (h _ mem_cons_self)

lemma updateRuns_eq (tokens : List TokenIdExt) : updateRuns tokens = tokens.flatMap tokenBytes := by
  fun_induction updateRuns tokens with
  | case1 tokens run written h =>
    have hall : tokens.takeWhile (!·.isDigest) = tokens := by
      simpa [h] using takeWhile_append_dropWhile (p := (!·.isDigest)) (l := tokens)
    simp only [written, run, writeNormalRun_eq, hall]
  | case2 tokens run written t rest h ih =>
    have hall := takeWhile_append_dropWhile (p := (!·.isDigest)) (l := tokens)
    rw [h] at hall
    calc written ++ (tokenBytes t ++ updateRuns rest)
        = run.flatMap tokenBytes ++ (t :: rest).flatMap tokenBytes := by
          simp only [written, writeNormalRun_eq, ih, flatMap_cons]
      _ = tokens.flatMap tokenBytes := by rw [← flatMap_append, hall]

/-- Both paths write the tokens one after the other. -/
lemma update_eq (r : TokenRange) : Hasher.update r = r.tokens.flatMap tokenBytes := by
  rw [Hasher.update]
  split
  · exact writeNormalRun_eq _
  · exact updateRuns_eq _

/-! ### Keys -/

section Keys

variable (sha256 : List UInt8 → Digest)

/-- `Hasher(reuseScope).digest()`: the key of a root. -/
def rootKey (scope : ReuseScope) : Digest := sha256 (emitReuseScopeBytes scope)

/-- `Block::makeKey`. -/
def makeKey (prevKey : Digest) (r : TokenRange) : Digest :=
  sha256 (prevKey.toList ++ Hasher.update r)

/-- `BlockchainKeyStep`. -/
structure BlockchainKeyStep where
  key : Digest
  beg : ℕ
  fin : ℕ

/-- The state captured by the generator of `sequenceToBlockchainKeys`; the ordinal is one
more than in the source, `0` before the root. -/
structure KeyGenerator where
  digest : Digest
  ordinal : ℕ

/-- The part of a range between two indices, under the same flag. -/
def TokenRange.slice (r : TokenRange) (beg fin : ℕ) : TokenRange where
  tokens := (r.tokens.drop beg).take (fin - beg)
  knownNoDigest := r.knownNoDigest
  noDigest h t ht := r.noDigest h t (mem_of_mem_drop (mem_of_mem_take ht))

/-- One call of the generator. -/
def KeyGenerator.next (tokensPerBlock : ℕ) (r : TokenRange) (g : KeyGenerator) :
    Option (BlockchainKeyStep × KeyGenerator) :=
  match g.ordinal with
  | 0 => some (⟨g.digest, 0, 0⟩, { g with ordinal := 1 })
  | ordinal + 1 =>
    let beg := ordinal * tokensPerBlock
    if r.tokens.length ≤ beg then none
    else
      let fin := min (beg + tokensPerBlock) r.tokens.length
      let digest := sha256 (g.digest.toList ++ Hasher.update (r.slice beg fin))
      some (⟨digest, beg, fin⟩, ⟨digest, ordinal + 2⟩)

/-- The steps of the first `fuel` calls, up to the one that yields nothing. -/
def KeyGenerator.drain (tokensPerBlock : ℕ) (r : TokenRange) :
    ℕ → KeyGenerator → List BlockchainKeyStep
  | 0, _ => []
  | fuel + 1, g =>
    match g.next sha256 tokensPerBlock r with
    | none => []
    | some (step, g') => step :: drain tokensPerBlock r fuel g'

/-- `sequenceToBlockchainKeys`, called until it yields nothing. -/
def sequenceToBlockchainKeys (tokensPerBlock : ℕ) (scope : ReuseScope) (r : TokenRange) :
    List BlockchainKeyStep :=
  KeyGenerator.drain sha256 tokensPerBlock r (r.tokens.length + 2) ⟨rootKey sha256 scope, 0⟩

/-- The tokens cut into blocks of `tokensPerBlock`, the last one possibly shorter. -/
def blocksOf (tokensPerBlock : ℕ) (tokens : List TokenIdExt) : List (List TokenIdExt) :=
  if _h : 0 < tokensPerBlock ∧ tokens ≠ [] then
    tokens.take tokensPerBlock :: blocksOf tokensPerBlock (tokens.drop tokensPerBlock)
  else []
termination_by tokens.length
decreasing_by
  have := length_pos_iff.mpr _h.2
  rw [length_drop]
  omega

variable {sha256}

/-- A key depends on the tokens only, not on the flag under which they are hashed. -/
lemma makeKey_eq (prevKey : Digest) (r : TokenRange) :
    makeKey sha256 prevKey r = sha256 (prevKey.toList ++ r.tokens.flatMap tokenBytes) := by
  rw [makeKey, update_eq]

/-- From its `o`-th block on, the generator yields the keys chained on the last one. -/
lemma drain_keys {T : ℕ} (hT : 0 < T) (r : TokenRange) {fuel o : ℕ} {k : Digest}
    (hfuel : r.tokens.length < o * T + fuel) {blocks : List TokenRange}
    (hb : blocks.map (·.tokens) = blocksOf T (r.tokens.drop (o * T))) :
    k :: (KeyGenerator.drain sha256 T r fuel ⟨k, o + 1⟩).map (·.key)
      = blocks.scanl (makeKey sha256) k := by
  induction fuel generalizing o k blocks with
  | zero =>
    have hnil : r.tokens.drop (o * T) = [] := drop_eq_nil_iff.mpr (by omega)
    rw [hnil, blocksOf, dif_neg (by simp), map_eq_nil_iff] at hb
    subst hb
    rfl
  | succ fuel ih =>
    rw [KeyGenerator.drain, KeyGenerator.next]
    by_cases hend : r.tokens.length ≤ o * T
    · have hnil : r.tokens.drop (o * T) = [] := drop_eq_nil_iff.mpr hend
      rw [hnil, blocksOf, dif_neg (by simp), map_eq_nil_iff] at hb
      subst hb
      simp [hend]
    · have hcons : r.tokens.drop (o * T) ≠ [] := fun h => hend (drop_eq_nil_iff.mp h)
      rw [blocksOf, dif_pos ⟨hT, hcons⟩] at hb
      cases blocks with
      | nil => simp at hb
      | cons b blocks =>
        rw [map_cons, cons.injEq, drop_drop] at hb
        obtain ⟨hhead, htail⟩ := hb
        have hslice : (r.slice (o * T) (min (o * T + T) r.tokens.length)).tokens = b.tokens := by
          rw [hhead]
          simp only [TokenRange.slice]
          rw [take_eq_take_iff, length_drop]
          omega
        have hkey : sha256 (k.toList ++ Hasher.update
            (r.slice (o * T) (min (o * T + T) r.tokens.length))) = makeKey sha256 k b := by
          rw [makeKey, update_eq, update_eq, hslice]
        rw [← Nat.succ_mul] at htail
        have hstep := ih (k := makeKey sha256 k b) (o := o + 1)
          (by rw [Nat.succ_mul]; omega) htail
        simp only [hend, if_false, map_cons, hkey, scanl_cons]
        rw [hstep]

/-- **The generator yields the chain of `Block::makeKey` values**: the key of the root, then
one key a block, each chained on the one before, whatever the flags of the callers. -/
lemma sequenceToBlockchainKeys_eq {T : ℕ} (hT : 0 < T) (scope : ReuseScope) (r : TokenRange)
    {blocks : List TokenRange} (hb : blocks.map (·.tokens) = blocksOf T r.tokens) :
    (sequenceToBlockchainKeys sha256 T scope r).map (·.key)
      = blocks.scanl (makeKey sha256) (rootKey sha256 scope) := by
  rw [sequenceToBlockchainKeys, KeyGenerator.drain, KeyGenerator.next, map_cons]
  exact drain_keys (o := 0) hT r (by omega) (by simpa using hb)

end Keys

/-! ### Chains -/

/-- The tokens of a block as a range without the flag. -/
def TokenRange.general (tokens : List TokenIdExt) : TokenRange := ⟨tokens, false, by simp⟩

/-- A block with its ancestors, outermost first, and the scope of their root. -/
structure Chain where
  scope : ReuseScope
  blocks : List (List TokenIdExt)
deriving DecidableEq

section Chains

variable (sha256 : List UInt8 → Digest)

/-- The key of the last of some blocks below a node with key `k`. -/
def keyBelow (k : Digest) (blocks : List (List TokenIdExt)) : Digest :=
  blocks.foldl (fun k b => makeKey sha256 k (.general b)) k

/-- The chained key of a block. -/
def chainKey (c : Chain) : Digest := keyBelow sha256 (rootKey sha256 c.scope) c.blocks

/-- The strings hashed on the way from a node with key `k` to the last of the blocks. -/
def hashedBelow : Digest → List (List TokenIdExt) → List (List UInt8)
  | _, [] => []
  | k, b :: blocks =>
    (k.toList ++ b.flatMap tokenBytes) :: hashedBelow (makeKey sha256 k (.general b)) blocks

/-- The strings hashed for the key of a chain. -/
def hashed (c : Chain) : List (List UInt8) :=
  emitReuseScopeBytes c.scope :: hashedBelow sha256 (rootKey sha256 c.scope) c.blocks

/-- SHA-256 taken as ideal on what is hashed for two chains: no collision, and no digest
that happens to be the head of one of the serialised scopes. -/
structure Ideal (c c' : Chain) : Prop where
  injective : ∀ x ∈ hashed sha256 c ++ hashed sha256 c',
    ∀ y ∈ hashed sha256 c ++ hashed sha256 c', sha256 x = sha256 y → x = y
  unscoped : ∀ x ∈ hashed sha256 c ++ hashed sha256 c', ∀ scope ∈ [c.scope, c'.scope],
    ¬ (sha256 x).toList <+: emitReuseScopeBytes scope

variable {sha256}

lemma keyBelow_snoc (k : Digest) (blocks : List (List TokenIdExt)) (b : List TokenIdExt) :
    keyBelow sha256 k (blocks ++ [b])
      = sha256 ((keyBelow sha256 k blocks).toList ++ b.flatMap tokenBytes) := by
  rw [keyBelow, foldl_append]
  exact makeKey_eq _ _

lemma hashedBelow_append (k : Digest) (blocks rest : List (List TokenIdExt)) :
    hashedBelow sha256 k (blocks ++ rest)
      = hashedBelow sha256 k blocks ++ hashedBelow sha256 (keyBelow sha256 k blocks) rest := by
  induction blocks generalizing k with
  | nil => rfl
  | cons a blocks ih =>
    rw [cons_append, hashedBelow, ih, hashedBelow, cons_append]
    rfl

/-- The strings of an ancestor are among those of a block. -/
lemma hashed_subset {scope : ReuseScope} {blocks all : List (List TokenIdExt)}
    (h : blocks <+: all) : hashed sha256 ⟨scope, blocks⟩ ⊆ hashed sha256 ⟨scope, all⟩ := by
  obtain ⟨rest, rfl⟩ := h
  simp only [hashed, hashedBelow_append]
  exact cons_subset_cons _ (subset_append_left _ _)

section

variable (scope : ReuseScope) (blocks : List (List TokenIdExt))

lemma mem_hashed_snoc (b : List TokenIdExt) :
    (keyBelow sha256 (rootKey sha256 scope) blocks).toList ++ b.flatMap tokenBytes
      ∈ hashed sha256 ⟨scope, blocks ++ [b]⟩ := by
  rw [hashed, hashedBelow_append]
  exact mem_cons_of_mem _ (mem_append_right _ mem_cons_self)

/-- The key of a chain is the hash of one of its strings. -/
lemma exists_hashed_eq : ∃ x ∈ hashed sha256 ⟨scope, blocks⟩,
      sha256 x = keyBelow sha256 (rootKey sha256 scope) blocks := by
  induction blocks using reverseRecOn with
  | nil => exact ⟨_, mem_cons_self, rfl⟩
  | append_singleton blocks b _ =>
    exact ⟨_, mem_hashed_snoc scope blocks b, (keyBelow_snoc _ _ _).symm⟩

end

lemma leBytes_uint64_inj {m n : UInt64} (h : leBytes 8 m.toNat = leBytes 8 n.toNat) : m = n :=
  UInt64.toNat_inj.mp (leBytes_inj m.toNat_lt n.toNat_lt h)

/-- A serialised scope gives back the scope. -/
lemma emitReuseScopeBytes_inj {s s' : ReuseScope}
    (h : emitReuseScopeBytes s = emitReuseScopeBytes s') : s = s' := by
  obtain ⟨lora, salt⟩ := s
  obtain ⟨lora', salt'⟩ := s'
  -- the mask separates the shapes; within one shape the fields have known widths
  cases lora <;> cases salt <;> cases lora' <;> cases salt' <;>
    simp only [emitReuseScopeBytes, Option.isSome_some, Option.isSome_none, if_true,
      cons.injEq, Bool.false_eq_true, if_false, nil_append, append_nil] at h <;>
    first | (exact absurd h.1 (by decide)) | skip
  · rfl
  · obtain ⟨-, hsalt⟩ := append_inj h.2 (by simp)
    rw [hsalt]
  · rw [leBytes_uint64_inj h.2]
  · obtain ⟨hlora, hrest⟩ := append_inj h.2 (by simp)
    obtain ⟨-, hsalt⟩ := append_inj hrest (by simp)
    rw [leBytes_uint64_inj hlora, hsalt]

section TwoChains

variable {c c' : Chain}

/-- A string hashed for a block of either chain is not a serialised scope. -/
lemma Ideal.block_ne_scope (h : Ideal sha256 c c') {d : Chain} (hd : d = c ∨ d = c')
    {blocks : List (List TokenIdExt)} (hp : blocks <+: d.blocks) {scope : ReuseScope}
    (hs : scope ∈ [c.scope, c'.scope]) (rest : List UInt8) :
    (keyBelow sha256 (rootKey sha256 d.scope) blocks).toList ++ rest
      ≠ emitReuseScopeBytes scope := by
  intro heq
  obtain ⟨x, hx, hkey⟩ := @exists_hashed_eq sha256 d.scope blocks
  have hmem : x ∈ hashed sha256 c ++ hashed sha256 c' := by
    rcases hd with rfl | rfl
    · exact mem_append_left _ (hashed_subset hp hx)
    · exact mem_append_right _ (hashed_subset hp hx)
  refine h.unscoped x hmem scope hs ?_
  rw [hkey, ← heq]
  exact prefix_append _ _

/-- Ancestors with equal keys have one scope and the same bytes, block for block. -/
lemma Ideal.bytes_eq (h : Ideal sha256 c c') {as bs : List (List TokenIdExt)}
    (has : as <+: c.blocks) (hbs : bs <+: c'.blocks)
    (hkey : keyBelow sha256 (rootKey sha256 c.scope) as
      = keyBelow sha256 (rootKey sha256 c'.scope) bs) :
    c.scope = c'.scope
      ∧ as.map (·.flatMap tokenBytes) = bs.map (·.flatMap tokenBytes) := by
  have hroot {d : Chain} : emitReuseScopeBytes d.scope ∈ hashed sha256 d := mem_cons_self
  induction as using reverseRecOn generalizing bs with
  | nil =>
    cases bs using reverseRecOn with
    | nil =>
      have hemit := h.injective _ (mem_append_left _ hroot) _
        (mem_append_right _ hroot) hkey
      exact ⟨emitReuseScopeBytes_inj hemit, rfl⟩
    | append_singleton bs b =>
      rw [keyBelow_snoc] at hkey
      have hstring := h.injective _ (mem_append_left _ hroot) _
        (mem_append_right _ (hashed_subset hbs (mem_hashed_snoc _ bs b))) hkey
      exact absurd hstring.symm (h.block_ne_scope (.inr rfl)
        ((prefix_append _ _).trans hbs) mem_cons_self _)
  | append_singleton as a ih =>
    rw [keyBelow_snoc] at hkey
    have hleft := mem_append_left (hashed sha256 c')
      (hashed_subset has (@mem_hashed_snoc sha256 c.scope as a))
    cases bs using reverseRecOn with
    | nil =>
      have hstring := h.injective _ hleft _ (mem_append_right _ hroot) hkey
      exact absurd hstring (h.block_ne_scope (.inl rfl)
        ((prefix_append _ _).trans has) (by simp) _)
    | append_singleton bs b =>
      rw [keyBelow_snoc] at hkey
      have hstring := h.injective _ hleft _
        (mem_append_right _ (hashed_subset hbs (mem_hashed_snoc _ bs b))) hkey
      obtain ⟨hprev, hbytes⟩ := append_inj hstring (by simp)
      obtain ⟨hscope, hmap⟩ := ih ((prefix_append _ _).trans has)
        ((prefix_append _ _).trans hbs) (List.Vector.toList_injective hprev)
      exact ⟨hscope, by rw [map_append, map_append, hmap]; simp [hbytes]⟩

/-- The key below a node depends on the bytes of the blocks only. -/
lemma keyBelow_congr (k : Digest) {as bs : List (List TokenIdExt)}
    (h : as.map (·.flatMap tokenBytes) = bs.map (·.flatMap tokenBytes)) :
    keyBelow sha256 k as = keyBelow sha256 k bs := by
  have hmap (l : List (List TokenIdExt)) : keyBelow sha256 k l
      = (l.map (·.flatMap tokenBytes)).foldl (fun k x => sha256 (k.toList ++ x)) k := by
    rw [foldl_map, keyBelow]
    simp only [makeKey_eq, TokenRange.general]
  rw [hmap, hmap, h]

/-- Two chains have one key exactly when they have one scope and, block for block, the same
bytes. -/
theorem chainKey_eq_iff (h : Ideal sha256 c c') : chainKey sha256 c = chainKey sha256 c' ↔
    c.scope = c'.scope
      ∧ c.blocks.map (·.flatMap tokenBytes) = c'.blocks.map (·.flatMap tokenBytes) := by
  constructor
  · intro hkey
    exact h.bytes_eq (prefix_refl _) (prefix_refl _) hkey
  · rintro ⟨hscope, hbytes⟩
    rw [chainKey, chainKey, hscope]
    exact keyBelow_congr _ hbytes

end TwoChains

end Chains

/-! ### Isolation -/

/-- The kinds of the tokens of a block, in order. -/
def layout (tokens : List TokenIdExt) : List Bool := tokens.map (·.isDigest)

/-- Two chains that the untagged stream confuses: one scope and the same bytes in every
block, which are laid out differently as plain ids and digests. -/
def Confusable (c c' : Chain) : Prop :=
  c.scope = c'.scope
    ∧ c.blocks.map (·.flatMap tokenBytes) = c'.blocks.map (·.flatMap tokenBytes)
    ∧ c.blocks.map layout ≠ c'.blocks.map layout

/-- Tokens of one kind are determined by their bytes. -/
lemma tokenBytes_inj {t t' : TokenIdExt} (hk : t.isDigest = t'.isDigest)
    (h : tokenBytes t = tokenBytes t') : t = t' := by
  cases t with
  | normal id =>
    cases t' with
    | normal id' =>
      have hlt (i : Fin (2 ^ 31)) : (i : ℕ) < 256 ^ 4 := i.isLt.trans (by decide)
      rw [Fin.ext (leBytes_inj (hlt id) (hlt id') h)]
    | digest d => simp [TokenIdExt.isDigest] at hk
  | digest d =>
    cases t' with
    | normal id => simp [TokenIdExt.isDigest] at hk
    | digest d' => rw [List.Vector.toList_injective h]

/-- A layout fixes the number of bytes. -/
lemma length_bytes_of_layout {l l' : List TokenIdExt} (h : layout l = layout l') :
    (l.flatMap tokenBytes).length = (l'.flatMap tokenBytes).length := by
  have hwidth : ∀ l : List TokenIdExt, (l.flatMap tokenBytes).length
      = ((layout l).map fun digest => if digest then kDIGEST_LEN else 4).sum := by
    intro l
    rw [length_flatMap, layout, map_map]
    congr 2
    funext t
    cases t <;> simp [tokenBytes, TokenIdExt.isDigest]
  rw [hwidth, hwidth, h]

/-- A layout and the bytes give back the tokens. -/
lemma tokens_eq_of_layout {l l' : List TokenIdExt} (hl : layout l = layout l')
    (h : l.flatMap tokenBytes = l'.flatMap tokenBytes) : l = l' := by
  induction l generalizing l' with
  | nil =>
    cases l' with
    | nil => rfl
    | cons t' l' => simp [layout] at hl
  | cons t l ih =>
    cases l' with
    | nil => simp [layout] at hl
    | cons t' l' =>
      rw [layout, layout, map_cons, map_cons, cons.injEq] at hl
      rw [flatMap_cons, flatMap_cons] at h
      have hwidth : (tokenBytes t).length = (tokenBytes t').length := by
        cases t <;> cases t' <;> simp_all [tokenBytes, TokenIdExt.isDigest]
      obtain ⟨hhead, htail⟩ := append_inj h hwidth
      rw [tokenBytes_inj hl.1 hhead, ih hl.2 htail]

lemma blocks_eq_of_layouts {as bs : List (List TokenIdExt)} (hl : as.map layout = bs.map layout)
    (h : as.map (·.flatMap tokenBytes) = bs.map (·.flatMap tokenBytes)) : as = bs := by
  induction as generalizing bs with
  | nil => simpa using h.symm
  | cons a as ih =>
    cases bs with
    | nil => simp at h
    | cons b bs =>
      rw [map_cons, map_cons, cons.injEq] at hl h
      rw [tokens_eq_of_layout hl.1 h.1, ih hl.2 h.2]

/-- **Keys isolate contents, up to the layout of the bytes.**  The keys that the generator
yields are those of `makeKey`; and with SHA-256 taken as ideal a key gives back the scope,
the ancestors and the tokens of its block exactly when the two chains are not confusable. -/
theorem keys_isolate_iff (sha256 : List UInt8 → Digest) (c c' : Chain) (h : Ideal sha256 c c') :
    ((chainKey sha256 c = chainKey sha256 c' → c.scope = c'.scope ∧ c.blocks = c'.blocks)
      ∧ ∀ (T : ℕ) (r : TokenRange) (blocks : List TokenRange), 0 < T →
        blocks.map (·.tokens) = blocksOf T r.tokens →
        (sequenceToBlockchainKeys sha256 T c.scope r).map (·.key)
          = blocks.scanl (makeKey sha256) (rootKey sha256 c.scope))
    ↔ ¬ Confusable c c' := by
  constructor
  · rintro ⟨hiso, -⟩ ⟨hscope, hbytes, hlayout⟩
    obtain ⟨-, hblocks⟩ := hiso ((chainKey_eq_iff h).mpr ⟨hscope, hbytes⟩)
    exact hlayout (by rw [hblocks])
  · intro hconf
    refine ⟨fun hkey => ?_, fun T r blocks hT hb => sequenceToBlockchainKeys_eq hT c.scope r hb⟩
    obtain ⟨hscope, hbytes⟩ := (chainKey_eq_iff h).mp hkey
    have hlayout : c.blocks.map layout = c'.blocks.map layout :=
      not_not.mp fun hne => hconf ⟨hscope, hbytes, hne⟩
    exact ⟨hscope, blocks_eq_of_layouts hlayout hbytes⟩

/-- The SHA-256 digests of the strings hashed for the ids `1, 2` under the salts `a` and
`b`. -/
def sha256OfSalted (x : List UInt8) : Digest :=
  let rootA : Digest := ⟨[223, 158, 194, 132, 171, 80, 18, 66, 0, 213, 104, 174, 223, 241, 52, 61,
    248, 205, 161, 225, 174, 186, 85, 50, 111, 242, 133, 124, 170, 106, 76, 183], rfl⟩
  let rootB : Digest := ⟨[188, 178, 48, 85, 255, 146, 201, 96, 142, 89, 203, 114, 63, 73, 164, 63,
    25, 56, 209, 254, 146, 240, 207, 53, 82, 152, 27, 152, 142, 73, 85, 249], rfl⟩
  if x = [2, 1, 0, 0, 0, 0, 0, 0, 0, 97] then rootA
  else if x = [2, 1, 0, 0, 0, 0, 0, 0, 0, 98] then rootB
  else if x = rootA.toList ++ [1, 0, 0, 0, 2, 0, 0, 0] then
    ⟨[104, 129, 254, 204, 137, 16, 2, 74, 65, 154, 13, 188, 178, 11, 245, 114, 49, 134, 249, 52,
      27, 9, 72, 164, 3, 85, 50, 221, 191, 123, 120, 215], rfl⟩
  else
    ⟨[174, 185, 219, 15, 177, 34, 87, 181, 155, 63, 159, 94, 138, 114, 69, 79, 135, 237, 88, 59,
      21, 138, 109, 188, 252, 139, 131, 105, 81, 0, 57, 123], rfl⟩

/-- The ids `1, 2` under a salt of one byte. -/
def saltedChain (salt : UInt8) : Chain := ⟨⟨none, some [salt]⟩, [[.normal 1, .normal 2]]⟩

/-- One prompt under two salts: the keys differ. -/
theorem keys_isolate_salts :
    chainKey sha256OfSalted (saltedChain 97) ≠ chainKey sha256OfSalted (saltedChain 98) := by
  have hideal : Ideal sha256OfSalted (saltedChain 97) (saltedChain 98) :=
    ⟨by decide +kernel, by decide +kernel⟩
  have hconf : ¬ Confusable (saltedChain 97) (saltedChain 98) := fun h => absurd h.1 (by decide)
  intro hkey
  have hsame := ((keys_isolate_iff sha256OfSalted _ _ hideal).mpr hconf).1 hkey
  exact absurd hsame.1 (by decide)

/-- The digest whose eight little-endian words are `1, …, 8`. -/
def countingDigest : Digest :=
  ⟨(range 8).flatMap fun i => leBytes 4 (i + 1), rfl⟩

/-- A block of one digest and a block of eight plain ids with the same bytes share their
key, whatever the hash. -/
theorem keys_confuse_digest_and_ids : ∃ c c' : Chain, c.blocks = [[.digest countingDigest]]
      ∧ c'.blocks = [[.normal 1, .normal 2, .normal 3, .normal 4, .normal 5, .normal 6, .normal 7,
          .normal 8]]
      ∧ (∀ sha256 : List UInt8 → Digest, chainKey sha256 c = chainKey sha256 c')
      ∧ ¬ (c.scope = c'.scope ∧ c.blocks = c'.blocks) := by
  refine ⟨⟨⟨none, none⟩, [[.digest countingDigest]]⟩, ⟨⟨none, none⟩, [[.normal 1, .normal 2,
    .normal 3, .normal 4, .normal 5, .normal 6, .normal 7, .normal 8]]⟩, rfl, rfl, fun sha256 => ?_,
    by decide⟩
  exact keyBelow_congr _ (by decide +kernel)

end TrtLlm.KvCacheV2
