import Mathlib.Tactic
import TrtLlm.KvCache.BlockDemand

/-!
When the estimate of `getRemainingBlocksToCompletion` covers what a request takes.

The blocks that a sequence holds in a window are a closed expression in its length: those of
the whole prompt after its insertion, and later the blocks that overlap the window. The estimate
covers them at every point of the sequence exactly if `Covers` holds: the whole sequence fits the
window and one chunk, or the sliding window does wherever it stands and the prompt, which is
allocated as a whole, does as well.
-/

namespace TrtLlm.KvCache

open List Function

/-! ### Division that rounds up -/

variable {a b : ℕ}

lemma ceilDiv_le_iff {x : ℕ} (hb : 0 < b) : ceilDiv a b ≤ x ↔ a ≤ b * x := by
  rw [ceilDiv, Nat.div_le_iff_le_mul_add_pred hb]
  omega

lemma lt_ceilDiv_iff {x : ℕ} (hb : 0 < b) : x < ceilDiv a b ↔ b * x < a := by
  rw [← not_le, ceilDiv_le_iff hb, not_le]

lemma ceilDiv_mono {a' : ℕ} (h : a ≤ a') : ceilDiv a b ≤ ceilDiv a' b :=
  Nat.div_le_div_right (by omega)

lemma div_le_ceilDiv (a b : ℕ) : a / b ≤ ceilDiv a b := by
  obtain rfl | hb := Nat.eq_zero_or_pos b
  · simp
  · exact Nat.div_le_div_right (by omega)

/-- One more token starts a block exactly if the blocks so far are full. -/
lemma ceilDiv_succ {n b : ℕ} (hb : 0 < b) :
    ceilDiv (n + 1) b = ceilDiv n b + if n % b = 0 then 1 else 0 := by
  have hdiv := Nat.div_add_mod n b
  have hlt := Nat.mod_lt n hb
  have hsucc : ceilDiv (n + 1) b = n / b + 1 := by
    rw [ceilDiv, show n + 1 + b - 1 = n + b by omega, Nat.add_div_right _ hb]
  have hn : ceilDiv n b = n / b + if n % b = 0 then 0 else 1 := by
    refine le_antisymm ((ceilDiv_le_iff hb).2 ?_) ?_
    · split_ifs <;> rw [Nat.mul_add] <;> omega
    · split_ifs with hmod
      · exact div_le_ceilDiv n b
      · refine (lt_ceilDiv_iff hb).2 ?_
        omega
  rw [hsucc, hn]
  split_ifs <;> omega

namespace ManagerConfig

variable (cfg : ManagerConfig) (windowSize : ℕ)

/-! ### The blocks of a sequence -/

/-- The blocks out of the window of a sequence of this length. -/
def outOfWindow (numTokens : ℕ) : ℕ :=
  if cfg.isSWA windowSize then (numTokens - windowSize) / cfg.mTokensPerBlock else 0

lemma detachFrontBlocks_eq (seq : GenerationRequest) :
    cfg.detachFrontBlocks windowSize seq = { seq with
      numFrontBlocksRemoved :=
        max seq.numFrontBlocksRemoved (cfg.outOfWindow windowSize seq.mNumTokens) } := by
  have hpos := cfg.tokensPerBlock_pos
  fun_induction detachFrontBlocks with
  | case1 seq h ih =>
    obtain ⟨hswa, hle⟩ := h
    have hlt : seq.numFrontBlocksRemoved + 1 ≤ cfg.outOfWindow windowSize seq.mNumTokens := by
      rw [outOfWindow, if_pos hswa, Nat.le_div_iff_mul_le hpos, Nat.add_mul, Nat.one_mul]
      omega
    rw [ih]
    simp only [GenerationRequest.mk.injEq, true_and]
    omega
  | case2 seq h =>
    have hle : cfg.outOfWindow windowSize seq.mNumTokens ≤ seq.numFrontBlocksRemoved := by
      rw [outOfWindow]
      split_ifs with hswa
      · by_contra hlt
        have hmul := (Nat.le_div_iff_mul_le hpos).1 (not_le.1 hlt)
        rw [Nat.succ_mul] at hmul
        exact h ⟨hswa, by omega⟩
      · exact Nat.zero_le _
    rw [max_eq_left hle]

lemma outOfWindow_mono {a b : ℕ} (h : a ≤ b) :
    cfg.outOfWindow windowSize a ≤ cfg.outOfWindow windowSize b := by
  simp only [outOfWindow]
  split_ifs
  · exact Nat.div_le_div_right (by omega)
  · exact le_rfl

/-- The sequence after `j` tokens. -/
def afterTokens (promptLen beamWidth j : ℕ) : GenerationRequest :=
  (cfg.addToken windowSize)^[j] (cfg.addSequence windowSize promptLen beamWidth)

/-- The blocks detached after `j` tokens: none before the first. -/
def detachedAfter (promptLen j : ℕ) : ℕ :=
  if j = 0 then 0 else cfg.outOfWindow windowSize (promptLen + j)

/-- **The sequence after `j` tokens.** -/
lemma afterTokens_eq {promptLen beamWidth : ℕ} (hlen : promptLen ≤ cfg.maxSequenceLength) (j : ℕ) :
    cfg.afterTokens windowSize promptLen beamWidth j =
      { mNumTokens := promptLen + j
        mBeamWidth := beamWidth
        numCacheBlocks := ceilDiv (promptLen + j) cfg.mTokensPerBlock
        numFrontBlocksRemoved := cfg.detachedAfter windowSize promptLen j } := by
  have hpos := cfg.tokensPerBlock_pos
  induction j with
  | zero =>
    have hmin : min promptLen (cfg.maxTokenNum windowSize) = promptLen :=
      min_eq_left (hlen.trans (le_max_right _ _))
    simp only [afterTokens, iterate_zero, id_eq, addSequence, numContextBlocks, hmin,
      Nat.add_zero, detachedAfter, if_true]
  | succ j ih =>
    rw [afterTokens, iterate_succ_apply', ← afterTokens, ih]
    have hold : cfg.detachedAfter windowSize promptLen j
        ≤ cfg.outOfWindow windowSize (promptLen + j + 1) := by
      rw [detachedAfter]
      split_ifs
      · exact Nat.zero_le _
      · exact cfg.outOfWindow_mono windowSize (by omega)
    have hnew : cfg.detachedAfter windowSize promptLen (j + 1)
        = cfg.outOfWindow windowSize (promptLen + j + 1) := by
      rw [detachedAfter, if_neg (Nat.succ_ne_zero j), Nat.add_assoc]
    simp only [addToken, detachFrontBlocks_eq, max_eq_right hold, startsBlock,
      Nat.add_sub_cancel, hnew]
    rw [show promptLen + (j + 1) = promptLen + j + 1 by omega, ceilDiv_succ hpos]
    by_cases hmod : (promptLen + j) % cfg.mTokensPerBlock = 0 <;> simp [hmod]

/-- The blocks of a beam that are held after `j` tokens. -/
def heldAfter (promptLen j : ℕ) : ℤ :=
  (ceilDiv (promptLen + j) cfg.mTokensPerBlock : ℤ) - cfg.detachedAfter windowSize promptLen j

/-- The blocks taken from the free pool until `j` tokens are added. -/
def takenAfter (promptLen beamWidth : ℕ) (claims : List ClaimedBlock) : ℕ → ℕ
  | 0 => cfg.takenByContext windowSize promptLen beamWidth claims
  | j + 1 => takenAfter promptLen beamWidth claims j
    + cfg.takenByToken (cfg.afterTokens windowSize promptLen beamWidth j)

lemma takenByToken_after {promptLen beamWidth : ℕ} (hlen : promptLen ≤ cfg.maxSequenceLength)
    (j : ℕ) :
    cfg.takenByToken (cfg.afterTokens windowSize promptLen beamWidth j)
      = beamWidth * if (promptLen + j) % cfg.mTokensPerBlock = 0 then 1 else 0 := by
  rw [afterTokens_eq cfg windowSize hlen]
  simp only [takenByToken, startsBlock, Nat.add_sub_cancel, decide_eq_true_eq]
  split_ifs with hmod hbeam
  · rw [hbeam]
  · rw [Nat.mul_one]
  · rw [Nat.mul_zero]

lemma takenAfter_eq {promptLen beamWidth : ℕ} (hlen : promptLen ≤ cfg.maxSequenceLength)
    (claims : List ClaimedBlock) (j : ℕ) :
    cfg.takenAfter windowSize promptLen beamWidth claims j
        + beamWidth * ceilDiv promptLen cfg.mTokensPerBlock
      = cfg.takenByContext windowSize promptLen beamWidth claims
        + beamWidth * ceilDiv (promptLen + j) cfg.mTokensPerBlock := by
  induction j with
  | zero => rfl
  | succ j ih =>
    rw [takenAfter, takenByToken_after cfg windowSize hlen, ← Nat.add_assoc promptLen j 1,
      ceilDiv_succ cfg.tokensPerBlock_pos, Nat.mul_add]
    omega

/-! ### The window -/

/-- The blocks that a sliding window overlaps, wherever it stands. -/
def blocksOfWindow : ℕ := ceilDiv (windowSize + cfg.mTokensPerBlock - 1) cfg.mTokensPerBlock

/-- The blocks of the window and one chunk. -/
def blocksOfWindowAndChunk : ℕ := ceilDiv (windowSize + cfg.mChunkSize) cfg.mTokensPerBlock

variable {cfg windowSize}

lemma heldAfter_zero (promptLen : ℕ) :
    cfg.heldAfter windowSize promptLen 0 = ceilDiv promptLen cfg.mTokensPerBlock := by
  simp [heldAfter, detachedAfter]

lemma heldAfter_le_ceilDiv (promptLen j : ℕ) :
    cfg.heldAfter windowSize promptLen j ≤ ceilDiv (promptLen + j) cfg.mTokensPerBlock := by
  rw [heldAfter]
  omega

/-- A sliding window holds the blocks that it overlaps. -/
lemma heldAfter_le_window {promptLen j : ℕ} (hswa : cfg.isSWA windowSize = true) (hj : 0 < j) :
    cfg.heldAfter windowSize promptLen j ≤ cfg.blocksOfWindow windowSize := by
  have hpos := cfg.tokensPerBlock_pos
  have hdetached : cfg.detachedAfter windowSize promptLen j
      = (promptLen + j - windowSize) / cfg.mTokensPerBlock := by
    rw [detachedAfter, if_neg (by omega), outOfWindow, if_pos hswa]
  have hwindow : windowSize + cfg.mTokensPerBlock - 1
      ≤ cfg.mTokensPerBlock * cfg.blocksOfWindow windowSize := (ceilDiv_le_iff hpos).1 le_rfl
  have hle : ceilDiv (promptLen + j) cfg.mTokensPerBlock
      ≤ cfg.blocksOfWindow windowSize + cfg.detachedAfter windowSize promptLen j := by
    rw [ceilDiv_le_iff hpos, Nat.mul_add, hdetached]
    have hmod := Nat.div_add_mod (promptLen + j - windowSize) cfg.mTokensPerBlock
    have hlt := Nat.mod_lt (promptLen + j - windowSize) hpos
    omega
  rw [heldAfter]
  omega

/-- It does hold all of them when a block has just been started. -/
lemma window_le_heldAfter {promptLen j k x : ℕ} (hswa : cfg.isSWA windowSize = true)
    (hstart : promptLen + j = cfg.mTokensPerBlock * k + 1) (hj : 0 < j) (hk : x ≤ k)
    (hx : x < cfg.blocksOfWindow windowSize) :
    (x : ℤ) < cfg.heldAfter windowSize promptLen j := by
  have hpos := cfg.tokensPerBlock_pos
  rw [blocksOfWindow, lt_ceilDiv_iff hpos] at hx
  have hceil : ceilDiv (promptLen + j) cfg.mTokensPerBlock = k + 1 := by
    refine le_antisymm ((ceilDiv_le_iff hpos).2 ?_) ((lt_ceilDiv_iff hpos).2 ?_)
    · rw [Nat.mul_add]
      omega
    · omega
  have hdetached : cfg.detachedAfter windowSize promptLen j
      = (promptLen + j - windowSize) / cfg.mTokensPerBlock := by
    rw [detachedAfter, if_neg (by omega), outOfWindow, if_pos hswa]
  have hlt : x + cfg.detachedAfter windowSize promptLen j < k + 1 := by
    rw [hdetached, hstart]
    have hdiv := Nat.div_mul_le_self (cfg.mTokensPerBlock * k + 1 - windowSize) cfg.mTokensPerBlock
    set f := (cfg.mTokensPerBlock * k + 1 - windowSize) / cfg.mTokensPerBlock
    have hmul : cfg.mTokensPerBlock * (x + f) < cfg.mTokensPerBlock * (k + 1) := by
      rw [Nat.mul_add, Nat.mul_add, Nat.mul_one]
      rw [Nat.mul_comm] at hdiv
      have hxk := Nat.mul_le_mul_left cfg.mTokensPerBlock hk
      omega
    exact Nat.lt_of_mul_lt_mul_left hmul
  rw [heldAfter, hceil]
  omega

lemma numTotalBlocksPerBeam_eq (maxSeqlen : ℕ) : cfg.numTotalBlocksPerBeam windowSize maxSeqlen
      = min (ceilDiv maxSeqlen cfg.mTokensPerBlock) (cfg.blocksOfWindowAndChunk windowSize) := by
  rw [numTotalBlocksPerBeam, blocksOfWindowAndChunk]
  rcases le_total maxSeqlen (windowSize + cfg.mChunkSize) with h | h
  · rw [min_eq_left h, min_eq_left (ceilDiv_mono h)]
  · rw [min_eq_right h, min_eq_right (ceilDiv_mono h)]

/-- The extra block, for a sequence that needs more blocks than the window and one chunk. -/
lemma numExtraBlocksPerBeam_eq {maxSeqlen : ℕ} (numTokens : ℕ)
    (hlong : cfg.blocksOfWindowAndChunk windowSize < ceilDiv maxSeqlen cfg.mTokensPerBlock) :
    cfg.numExtraBlocksPerBeam windowSize maxSeqlen numTokens
      = if ceilDiv numTokens cfg.mTokensPerBlock < ceilDiv maxSeqlen cfg.mTokensPerBlock
        then 1 else 0 := by
  have hpos := cfg.tokensPerBlock_pos
  have hslides : windowSize < maxSeqlen := by
    by_contra hle
    have := ceilDiv_mono (b := cfg.mTokensPerBlock)
      (show maxSeqlen ≤ windowSize + cfg.mChunkSize by omega)
    rw [blocksOfWindowAndChunk] at hlong
    omega
  have htotal : cfg.numTotalBlocksPerBeam windowSize maxSeqlen
      < ceilDiv maxSeqlen cfg.mTokensPerBlock := by
    rw [numTotalBlocksPerBeam_eq]
    omega
  simp only [numExtraBlocksPerBeam, hslides, htotal, true_and, and_true]

variable (cfg windowSize)

/-- **When the estimate covers a request**: the whole sequence needs no more blocks than the
window and one chunk, or the window needs no more wherever it stands, and neither do the blocks
of the prompt, up to the extra block while it is counted. -/
def Covers (promptLen maxNewTokens : ℕ) : Prop :=
  let maxSeqlenInBlocks := ceilDiv (promptLen + maxNewTokens) cfg.mTokensPerBlock
  maxSeqlenInBlocks ≤ cfg.blocksOfWindowAndChunk windowSize
    ∨ cfg.blocksOfWindow windowSize ≤ cfg.blocksOfWindowAndChunk windowSize
      ∧ ceilDiv promptLen cfg.mTokensPerBlock ≤ cfg.blocksOfWindowAndChunk windowSize
        + if ceilDiv (promptLen + 1) cfg.mTokensPerBlock < maxSeqlenInBlocks then 1 else 0

instance (promptLen maxNewTokens : ℕ) : Decidable (cfg.Covers windowSize promptLen maxNewTokens) :=
  inferInstanceAs (Decidable (_ ∨ _ ∧ _))

variable {cfg windowSize}

/-- The blocks that are held never exceed what is estimated as their total, for every count of
tokens that the request may have at the time. -/
def HeldFits (cfg : ManagerConfig) (windowSize promptLen maxNewTokens : ℕ) : Prop :=
  ∀ j j' numTokens, j ≤ j' → j' ≤ maxNewTokens →
    (numTokens = promptLen + j ∨ numTokens = promptLen + j + 1 ∧ j < maxNewTokens) →
    cfg.heldAfter windowSize promptLen j'
      ≤ (cfg.numTotalBlocksPerBeam windowSize (promptLen + maxNewTokens) : ℤ)
        + cfg.numExtraBlocksPerBeam windowSize (promptLen + maxNewTokens) numTokens

lemma heldFits_of_covers {promptLen maxNewTokens : ℕ}
    (hlen : promptLen + maxNewTokens ≤ cfg.maxSequenceLength)
    (h : cfg.Covers windowSize promptLen maxNewTokens) :
    HeldFits cfg windowSize promptLen maxNewTokens := by
  have hpos := cfg.tokensPerBlock_pos
  intro j j' numTokens hj hj' htokens
  by_cases hshort : ceilDiv (promptLen + maxNewTokens) cfg.mTokensPerBlock
      ≤ cfg.blocksOfWindowAndChunk windowSize
  · have hheld := @heldAfter_le_ceilDiv cfg windowSize promptLen j'
    have hmono := ceilDiv_mono (b := cfg.mTokensPerBlock)
      (show promptLen + j' ≤ promptLen + maxNewTokens by omega)
    rw [numTotalBlocksPerBeam_eq, min_eq_left hshort]
    omega
  · obtain hle | ⟨hwindow, hprompt⟩ := h
    · exact absurd hle hshort
    have hlong := not_le.1 hshort
    have hswa : cfg.isSWA windowSize = true := by
      rw [isSWA, decide_eq_true_eq]
      by_contra hge
      have := ceilDiv_mono (b := cfg.mTokensPerBlock)
        (show promptLen + maxNewTokens ≤ windowSize + cfg.mChunkSize by omega)
      rw [blocksOfWindowAndChunk] at hlong
      omega
    rw [numTotalBlocksPerBeam_eq, min_eq_right hlong.le, numExtraBlocksPerBeam_eq _ hlong]
    obtain rfl | hj'pos := Nat.eq_zero_or_pos j'
    · -- The prompt as a whole: the extra block counts for the next token if it does at all.
      obtain rfl : j = 0 := by omega
      rw [heldAfter_zero]
      have hextra : (if ceilDiv (promptLen + 1) cfg.mTokensPerBlock
            < ceilDiv (promptLen + maxNewTokens) cfg.mTokensPerBlock then 1 else 0)
          ≤ if ceilDiv numTokens cfg.mTokensPerBlock
            < ceilDiv (promptLen + maxNewTokens) cfg.mTokensPerBlock then 1 else 0 := by
        have hmono := ceilDiv_mono (b := cfg.mTokensPerBlock)
          (show numTokens ≤ promptLen + 1 by omega)
        split_ifs <;> omega
      omega
    · have := @heldAfter_le_window cfg windowSize promptLen j' hswa hj'pos
      omega

lemma covers_of_heldFits {promptLen maxNewTokens : ℕ}
    (hlen : promptLen + maxNewTokens ≤ cfg.maxSequenceLength)
    (h : HeldFits cfg windowSize promptLen maxNewTokens) :
    cfg.Covers windowSize promptLen maxNewTokens := by
  have hpos := cfg.tokensPerBlock_pos
  by_cases hshort : ceilDiv (promptLen + maxNewTokens) cfg.mTokensPerBlock
      ≤ cfg.blocksOfWindowAndChunk windowSize
  · exact .inl hshort
  have hlong := not_le.1 hshort
  have hswa : cfg.isSWA windowSize = true := by
    rw [isSWA, decide_eq_true_eq]
    by_contra hge
    have := ceilDiv_mono (b := cfg.mTokensPerBlock)
      (show promptLen + maxNewTokens ≤ windowSize + cfg.mChunkSize by omega)
    rw [blocksOfWindowAndChunk] at hlong
    omega
  have hfits : ∀ j j' numTokens, j ≤ j' → j' ≤ maxNewTokens →
      (numTokens = promptLen + j ∨ numTokens = promptLen + j + 1 ∧ j < maxNewTokens) →
      cfg.heldAfter windowSize promptLen j' ≤ (cfg.blocksOfWindowAndChunk windowSize : ℤ)
        + (if ceilDiv numTokens cfg.mTokensPerBlock
          < ceilDiv (promptLen + maxNewTokens) cfg.mTokensPerBlock then 1 else 0 : ℕ) := by
    intro j j' numTokens hj hj' htokens
    have := h j j' numTokens hj hj' htokens
    rwa [numTotalBlocksPerBeam_eq, min_eq_right hlong.le, numExtraBlocksPerBeam_eq _ hlong] at this
  -- The prompt ends before the last block.
  have hprompt : ceilDiv promptLen cfg.mTokensPerBlock
      < ceilDiv (promptLen + maxNewTokens) cfg.mTokensPerBlock := by
    by_contra hlast
    have := hfits 0 0 promptLen le_rfl (Nat.zero_le _) (.inl rfl)
    rw [heldAfter_zero, if_neg hlast] at this
    omega
  have hnew : 0 < maxNewTokens := by
    by_contra hzero
    obtain rfl : maxNewTokens = 0 := by omega
    exact absurd hprompt (lt_irrefl _)
  obtain ⟨k, hk⟩ : ∃ k, ceilDiv (promptLen + maxNewTokens) cfg.mTokensPerBlock = k + 1 :=
    ⟨_, (Nat.succ_pred_eq_of_pos (by omega)).symm⟩
  rw [hk] at hlong hfits hprompt
  refine .inr ⟨?_, ?_⟩
  · -- Take the first token of the last block.
    by_contra hwindow
    have hlast : cfg.mTokensPerBlock * k < promptLen + maxNewTokens :=
      (lt_ceilDiv_iff hpos).1 (by omega)
    have hbefore : promptLen ≤ cfg.mTokensPerBlock * k := (ceilDiv_le_iff hpos).1 (by omega)
    have hfit := hfits (cfg.mTokensPerBlock * k + 1 - promptLen)
      (cfg.mTokensPerBlock * k + 1 - promptLen) (cfg.mTokensPerBlock * k + 1) le_rfl (by omega)
      (.inl (by omega))
    have hceil : ¬ ceilDiv (cfg.mTokensPerBlock * k + 1) cfg.mTokensPerBlock < k + 1 := by
      rw [not_lt, Nat.succ_le_iff, lt_ceilDiv_iff hpos]
      omega
    rw [if_neg hceil] at hfit
    have hheld := @window_le_heldAfter cfg windowSize promptLen
      (cfg.mTokensPerBlock * k + 1 - promptLen) k (cfg.blocksOfWindowAndChunk windowSize) hswa
      (by omega) (by omega) (by omega) (by omega)
    omega
  · have := hfits 0 0 (promptLen + 1) le_rfl (Nat.zero_le _) (.inr ⟨rfl, hnew⟩)
    rw [heldAfter_zero] at this
    rw [hk]
    omega

/-! ### The estimate -/

variable (cfg windowSize)

/-- The blocks of the prompt that come from other sequences, or are missing. -/
def reusedByContext (promptLen beamWidth : ℕ) (claims : List ClaimedBlock) : ℕ :=
  (cfg.usedClaims windowSize promptLen beamWidth claims).countP (·.taken = 0)

/-- The reusable blocks that the estimate may leave out. -/
def creditedBlocks {Key : Type} (promptLen : ℕ) (summary : PrefixReuseSummary Key) : ℕ :=
  if cfg.mEnableBlockReuse && !cfg.isVariableWindow then
    min (min summary.reusableBlocksAllocated (cfg.estimatedContextBlocks windowSize promptLen))
      ((promptLen - 1) / cfg.mTokensPerBlock)
  else 0

/-- The blocks taken from the free pool until `j` tokens are added, net of the blocks that were
detached. -/
def netTaken (promptLen beamWidth : ℕ) (claims : List ClaimedBlock) (j : ℕ) : ℤ :=
  (cfg.takenAfter windowSize promptLen beamWidth claims j : ℤ)
    - beamWidth * (cfg.afterTokens windowSize promptLen beamWidth j).numFrontBlocksRemoved

variable {cfg windowSize}

omit cfg windowSize in
lemma sum_taken (used : List ClaimedBlock) :
    (used.map ClaimedBlock.taken).sum + used.countP (·.taken = 0) = used.length := by
  induction used with
  | nil => rfl
  | cons claim used ih =>
    simp only [map_cons, sum_cons, countP_cons, length_cons]
    have htaken : claim.taken = 0 ∨ claim.taken = 1 := by cases claim <;> simp [ClaimedBlock.taken]
    obtain hzero | hone := htaken
    · simp only [hzero, decide_true, if_true]
      omega
    · simp only [hone, one_ne_zero, decide_false, Bool.false_eq_true, if_false]
      omega

lemma takenByContext_eq {promptLen beamWidth : ℕ} (claims : List ClaimedBlock) :
    cfg.takenByContext windowSize promptLen beamWidth claims
        + cfg.reusedByContext windowSize promptLen beamWidth claims
      = cfg.numSharedContextBlocks windowSize promptLen beamWidth
        + (cfg.numContextBlocks windowSize promptLen
          - cfg.numSharedContextBlocks windowSize promptLen beamWidth) * beamWidth := by
  have hsum := sum_taken (cfg.usedClaims windowSize promptLen beamWidth claims)
  have hle : (cfg.usedClaims windowSize promptLen beamWidth claims).length
      ≤ cfg.numSharedContextBlocks windowSize promptLen beamWidth := by
    rw [usedClaims, length_take]
    exact min_le_left _ _
  simp only [takenByContext, reusedByContext]
  omega

lemma netTaken_eq {promptLen beamWidth : ℕ} (hlen : promptLen ≤ cfg.maxSequenceLength)
    (claims : List ClaimedBlock) (j : ℕ) :
    cfg.netTaken windowSize promptLen beamWidth claims j
      = cfg.takenByContext windowSize promptLen beamWidth claims
        + beamWidth * (cfg.heldAfter windowSize promptLen j
          - ceilDiv promptLen cfg.mTokensPerBlock) := by
  have htaken := @takenAfter_eq cfg windowSize promptLen beamWidth hlen claims j
  have htaken' : (cfg.takenAfter windowSize promptLen beamWidth claims j : ℤ)
      + beamWidth * ceilDiv promptLen cfg.mTokensPerBlock
      = cfg.takenByContext windowSize promptLen beamWidth claims
        + beamWidth * ceilDiv (promptLen + j) cfg.mTokensPerBlock := by exact_mod_cast htaken
  rw [netTaken, afterTokens_eq cfg windowSize hlen, heldAfter]
  linear_combination htaken'

section Estimate

variable {Key : Type} {limits : RequestLimits} {req : LlmRequest}
  {summary : PrefixReuseSummary Key}

lemma estimatedContextBlocks_le (promptLen : ℕ) :
    cfg.estimatedContextBlocks windowSize promptLen ≤ promptLen / cfg.mTokensPerBlock :=
  Nat.div_le_div_right (min_le_left _ _)

/-- The estimate for a request without a sequence. -/
lemma remaining_none (hself : cfg.isCrossKv = false) :
    cfg.getRemainingBlocksToCompletion windowSize limits req none summary
      = cfg.estimatedContextBlocks windowSize req.mPromptLen
        - cfg.numReusableContextBlocks windowSize req none summary
        + (cfg.numTotalBlocksPerBeam windowSize (req.mPromptLen + limits.mMaxNewTokens)
          + cfg.numExtraBlocksPerBeam windowSize (req.mPromptLen + limits.mMaxNewTokens)
            req.numTokens
          - cfg.estimatedContextBlocks windowSize req.mPromptLen) * limits.beamWidth := by
  have hle : cfg.numReusableContextBlocks windowSize req none summary
      ≤ cfg.estimatedContextBlocks windowSize req.mPromptLen := by
    rw [numReusableContextBlocks]
    split_ifs
    · exact (min_le_left _ _).trans (min_le_right _ _)
    · exact Nat.zero_le _
  have halloc : numAllocBlocksPerBeam none = 0 := rfl
  simp only [getRemainingBlocksToCompletion, hself, Bool.false_eq_true, if_false]
  split
  · rw [halloc]
    ring
  · have heq : (cfg.numReusableContextBlocks windowSize req none summary : ℤ)
        = cfg.estimatedContextBlocks windowSize req.mPromptLen := by omega
    rw [heq, halloc]
    ring

/-- The estimate for a sequence, if it holds the context blocks or has one beam. -/
lemma remaining_some {seq : GenerationRequest} (hself : cfg.isCrossKv = false)
    (hreuse : cfg.numReusableContextBlocks windowSize req (some seq) summary = 0)
    (hcontext : limits.beamWidth = 1 ∨ (cfg.estimatedContextBlocks windowSize req.mPromptLen : ℤ)
      ≤ numAllocBlocksPerBeam (some seq)) :
    cfg.getRemainingBlocksToCompletion windowSize limits req (some seq) summary
      = (cfg.numTotalBlocksPerBeam windowSize (req.mPromptLen + limits.mMaxNewTokens)
          + cfg.numExtraBlocksPerBeam windowSize (req.mPromptLen + limits.mMaxNewTokens)
            req.numTokens
          - numAllocBlocksPerBeam (some seq)) * limits.beamWidth := by
  simp only [getRemainingBlocksToCompletion, hself, Bool.false_eq_true, if_false, hreuse,
    Nat.cast_zero, sub_zero]
  split
  · rename_i hfirst
    obtain hone | hle := hcontext
    · rw [hone]
      push_cast
      ring
    · omega
  · ring

/-- The estimate of a request at every point of its sequence: before the insertion it covers
the blocks that are ever taken, net of those detached, and afterwards the blocks that are taken
from then on. The request has got as many tokens as the sequence, or one more that is not yet
added. -/
structure Sufficient (cfg : ManagerConfig) (windowSize : ℕ) (limits : RequestLimits)
    (promptLen : ℕ) (claims : List ClaimedBlock) (summary : PrefixReuseSummary Key) : Prop where
  admission : ∀ req : LlmRequest, req.mPromptLen = promptLen → req.numTokens = promptLen →
    ∀ j ≤ limits.mMaxNewTokens, cfg.netTaken windowSize promptLen limits.beamWidth claims j
      ≤ cfg.getRemainingBlocksToCompletion windowSize limits req none summary
  progress : ∀ req : LlmRequest, req.mPromptLen = promptLen → ∀ j j', j ≤ j' →
    j' ≤ limits.mMaxNewTokens →
    (req.numTokens = promptLen + j ∨ req.numTokens = promptLen + j + 1 ∧ j < limits.mMaxNewTokens) →
    (req.isContextInitState = true → j = 0) →
    cfg.netTaken windowSize promptLen limits.beamWidth claims j'
        - cfg.netTaken windowSize promptLen limits.beamWidth claims j
      ≤ cfg.getRemainingBlocksToCompletion windowSize limits req
        (some (cfg.afterTokens windowSize promptLen limits.beamWidth j)) summary

variable {promptLen : ℕ} {claims : List ClaimedBlock}

/-- No blocks are left out of the estimate once there is a sequence. -/
lemma numReusable_afterTokens {j : ℕ} (hlen : promptLen ≤ cfg.maxSequenceLength)
    (hreq : req.mPromptLen = promptLen) (hstate : req.isContextInitState = true → j = 0) :
    cfg.numReusableContextBlocks windowSize req
      (some (cfg.afterTokens windowSize promptLen limits.beamWidth j)) summary = 0 := by
  have hpos := cfg.tokensPerBlock_pos
  rw [numReusableContextBlocks]
  split_ifs with hcredit
  · simp only [Bool.and_eq_true, decide_eq_true_eq] at hcredit
    obtain ⟨⟨⟨-, hcontext⟩, -⟩, hzero⟩ := hcredit
    obtain rfl := hstate hcontext
    rw [afterTokens_eq cfg windowSize hlen, numAllocBlocksPerBeam] at hzero
    simp only [detachedAfter, if_true, Nat.add_zero, Nat.cast_zero, sub_zero,
      Nat.cast_eq_zero] at hzero
    have hprompt : promptLen ≤ cfg.mTokensPerBlock * 0 := (ceilDiv_le_iff hpos).1 hzero.le
    have hnone : cfg.estimatedContextBlocks windowSize req.mPromptLen = 0 := by
      have := @estimatedContextBlocks_le cfg windowSize req.mPromptLen
      rw [hreq, show promptLen = 0 by omega, Nat.zero_div] at this
      rw [hreq, show promptLen = 0 by omega]
      omega
    rw [hnone, Nat.min_zero, Nat.zero_min]
  · rfl

/-- The estimate for a sequence after `j` tokens. -/
lemma remaining_afterTokens {j : ℕ} (hself : cfg.isCrossKv = false)
    (hlen : promptLen ≤ cfg.maxSequenceLength)
    (hbeam : cfg.isSWA windowSize = true → limits.beamWidth = 1)
    (hreq : req.mPromptLen = promptLen) (hstate : req.isContextInitState = true → j = 0) :
    cfg.getRemainingBlocksToCompletion windowSize limits req
        (some (cfg.afterTokens windowSize promptLen limits.beamWidth j)) summary
      = (cfg.numTotalBlocksPerBeam windowSize (promptLen + limits.mMaxNewTokens)
          + cfg.numExtraBlocksPerBeam windowSize (promptLen + limits.mMaxNewTokens) req.numTokens
          - cfg.heldAfter windowSize promptLen j) * limits.beamWidth := by
  have halloc : numAllocBlocksPerBeam
      (some (cfg.afterTokens windowSize promptLen limits.beamWidth j))
      = cfg.heldAfter windowSize promptLen j := by
    rw [numAllocBlocksPerBeam, afterTokens_eq cfg windowSize hlen, heldAfter]
  rw [remaining_some hself (numReusable_afterTokens hlen hreq hstate), halloc, hreq]
  rw [halloc, hreq]
  by_cases hswa : cfg.isSWA windowSize = true
  · exact .inl (hbeam hswa)
  · -- Nothing is detached from full attention.
    refine .inr ?_
    have hdetached : cfg.detachedAfter windowSize promptLen j = 0 := by
      simp [detachedAfter, outOfWindow, hswa]
    have h1 := @estimatedContextBlocks_le cfg windowSize promptLen
    have h2 := div_le_ceilDiv promptLen cfg.mTokensPerBlock
    have h3 := ceilDiv_mono (b := cfg.mTokensPerBlock) (show promptLen ≤ promptLen + j by omega)
    rw [heldAfter, hdetached]
    omega

/-- The blocks of the prompt: all of them, shared ones once and the others for each beam. -/
lemma takenByContext_add_reused (hlen : promptLen ≤ cfg.maxSequenceLength)
    (hbeam : cfg.isSWA windowSize = true → limits.beamWidth = 1) :
    (cfg.takenByContext windowSize promptLen limits.beamWidth claims : ℤ)
        + cfg.reusedByContext windowSize promptLen limits.beamWidth claims
      = cfg.estimatedContextBlocks windowSize promptLen
        + (ceilDiv promptLen cfg.mTokensPerBlock
          - cfg.estimatedContextBlocks windowSize promptLen) * limits.beamWidth := by
  have hpos := cfg.tokensPerBlock_pos
  have hmin : min promptLen (cfg.maxTokenNum windowSize) = promptLen :=
    min_eq_left (hlen.trans (le_max_right _ _))
  have hcontext : cfg.numContextBlocks windowSize promptLen
      = ceilDiv promptLen cfg.mTokensPerBlock := by rw [numContextBlocks, hmin]
  have htaken := @takenByContext_eq cfg windowSize promptLen limits.beamWidth claims
  by_cases hone : limits.beamWidth = 1
  · have hshared : cfg.numSharedContextBlocks windowSize promptLen limits.beamWidth
        = ceilDiv promptLen cfg.mTokensPerBlock := by
      rw [numSharedContextBlocks, if_neg (by omega), hcontext]
    rw [hshared, hcontext, Nat.sub_self, Nat.zero_mul, Nat.add_zero] at htaken
    rw [hone] at htaken ⊢
    push_cast
    omega
  · -- With several beams the window does not slide, and holds the whole prompt.
    have hswa : ¬ windowSize < cfg.maxSequenceLength := fun hlt =>
      hone (hbeam (by rw [isSWA, decide_eq_true_eq]; exact hlt))
    have hest : cfg.estimatedContextBlocks windowSize promptLen
        = promptLen / cfg.mTokensPerBlock := by
      rw [estimatedContextBlocks, min_eq_left (by omega)]
    have hshared : cfg.numSharedContextBlocks windowSize promptLen limits.beamWidth
        = promptLen / cfg.mTokensPerBlock := by
      have hdiv := Nat.div_add_mod promptLen cfg.mTokensPerBlock
      have hlt := Nat.mod_lt promptLen hpos
      have hwidth := limits.beamWidth_pos
      rw [numSharedContextBlocks, hmin, hcontext]
      split_ifs with hpartial
      · have hceil : ceilDiv promptLen cfg.mTokensPerBlock
            = promptLen / cfg.mTokensPerBlock + 1 := by
          refine le_antisymm ((ceilDiv_le_iff hpos).2 ?_) ((lt_ceilDiv_iff hpos).2 ?_)
          · rw [Nat.mul_add]
            omega
          · omega
        rw [hceil, Nat.add_sub_cancel]
      · refine le_antisymm ((ceilDiv_le_iff hpos).2 ?_) (div_le_ceilDiv _ _)
        omega
    have hle := div_le_ceilDiv promptLen cfg.mTokensPerBlock
    rw [hshared, hcontext] at htaken
    rw [hest]
    zify [hle] at htaken
    exact htaken

lemma numReusable_le_credited (cfg : ManagerConfig) (windowSize : ℕ) (req : LlmRequest)
    (seq : Option GenerationRequest) (summary : PrefixReuseSummary Key) :
    cfg.numReusableContextBlocks windowSize req seq summary
      ≤ cfg.creditedBlocks windowSize req.mPromptLen summary := by
  rw [numReusableContextBlocks, creditedBlocks]
  split_ifs with hcredit hreuse
  · exact le_rfl
  · simp only [Bool.and_eq_true] at hcredit hreuse
    exact absurd hcredit.1.1.1 hreuse
  · exact Nat.zero_le _
  · exact le_rfl

/-- A request that generates tokens. -/
def generating (promptLen numTokens : ℕ) : LlmRequest where
  mRequestId := 0
  mState := .kGENERATION_IN_PROGRESS
  mPromptLen := promptLen
  contextCurrentPosition := promptLen
  prepopulatedPromptLen := 0
  contextChunkSize := 0
  estimatedReusableTokens := 0
  numTokens := numTokens
  numDraftTokens := 0
  beamWidth := 1
  encoderOutputLen := 0
  expectedSnapshotPoints := []
  loraTaskId := none
  hasEncoderUniqueTokens := false
  position_le := le_rfl

/-- **The estimate is sufficient exactly if it covers the request**, as long as it leaves out no
more blocks than the insertion finds. -/
theorem sufficient_iff (hself : cfg.isCrossKv = false)
    (hlen : promptLen + limits.mMaxNewTokens ≤ cfg.maxSequenceLength)
    (hbeam : cfg.isSWA windowSize = true → limits.beamWidth = 1)
    (hcredit : cfg.creditedBlocks windowSize promptLen summary
      ≤ cfg.reusedByContext windowSize promptLen limits.beamWidth claims) :
    Sufficient cfg windowSize limits promptLen claims summary
      ↔ cfg.Covers windowSize promptLen limits.mMaxNewTokens := by
  have hprompt : promptLen ≤ cfg.maxSequenceLength := by omega
  have hwidth : (0 : ℤ) < limits.beamWidth := by exact_mod_cast limits.beamWidth_pos
  -- Afterwards, both sides are multiples of the beam width.
  have hprogress : ∀ (req : LlmRequest) (j j' : ℕ), req.mPromptLen = promptLen →
      (req.isContextInitState = true → j = 0) →
      (cfg.netTaken windowSize promptLen limits.beamWidth claims j'
          - cfg.netTaken windowSize promptLen limits.beamWidth claims j
        ≤ cfg.getRemainingBlocksToCompletion windowSize limits req
          (some (cfg.afterTokens windowSize promptLen limits.beamWidth j)) summary
        ↔ cfg.heldAfter windowSize promptLen j'
          ≤ cfg.numTotalBlocksPerBeam windowSize (promptLen + limits.mMaxNewTokens)
            + cfg.numExtraBlocksPerBeam windowSize (promptLen + limits.mMaxNewTokens)
              req.numTokens) := by
    intro req j j' hreq hstate
    rw [remaining_afterTokens hself hprompt hbeam hreq hstate, netTaken_eq hprompt,
      netTaken_eq hprompt]
    constructor
    · intro h
      nlinarith
    · intro h
      nlinarith
  constructor
  · intro h
    refine covers_of_heldFits hlen fun j j' numTokens hj hj' htokens => ?_
    exact (hprogress (generating promptLen numTokens) j j' rfl (fun hstate => (by cases hstate))).1
      (h.progress _ rfl j j' hj hj' htokens fun hstate => (by cases hstate))
  · intro h
    have hfits := heldFits_of_covers hlen h
    refine ⟨fun req hreq htokens j hj => ?_, fun req hreq j j' hj hj' htokens hstate => ?_⟩
    · have hheld := hfits 0 j promptLen (Nat.zero_le _) hj (.inl rfl)
      have htaken := @takenByContext_add_reused cfg windowSize limits promptLen claims hprompt hbeam
      have hreused : (cfg.numReusableContextBlocks windowSize req none summary : ℤ)
          ≤ cfg.reusedByContext windowSize promptLen limits.beamWidth claims := by
        have := cfg.numReusable_le_credited windowSize req none summary
        rw [hreq] at this
        exact_mod_cast this.trans hcredit
      rw [netTaken_eq hprompt, remaining_none hself, hreq, htokens]
      nlinarith
    · exact (hprogress req j j' hreq hstate).2 (hfits j j' _ hj hj' htokens)

end Estimate

end ManagerConfig

end TrtLlm.KvCache
