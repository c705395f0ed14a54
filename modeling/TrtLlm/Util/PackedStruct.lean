import Mathlib.Algebra.BigOperators.Group.List.Basic
import TrtLlm.Util.ByteStream

/-!
Packed records in a byte string.

A record is a list of little-endian words of fixed widths, with no padding
(`PackedStruct`).  Its bytes and the record determine each other:

* `PackedStruct.parse_bytes_append`: the bytes of a record parse back to it;
* `PackedStruct.bytes_parse`: any bytes, as many as a record has, are those of a record;
* `PackedStruct.parseAll_bytesAll`, `bytesAll_parseAll`: the same for arrays of records.
-/

namespace TrtLlm

open List Nat

/-! ### Words -/

/-- The number with the given bytes, least significant first. -/
def leValue : List UInt8 → ℕ
  | [] => 0
  | b :: l => b.toNat + 256 * leValue l

variable {ws : List ℕ}

lemma leValue_leBytes {w n : ℕ} (h : n < 256 ^ w) : leValue (leBytes w n) = n := by
  induction w generalizing n with
  | zero =>
    rw [pow_zero] at h
    rw [leBytes, leValue]
    omega
  | succ w ih =>
    rw [pow_succ] at h
    rw [leBytes, leValue, ih (Nat.div_lt_of_lt_mul (by omega)), UInt8.toNat_ofNat']
    omega

lemma leBytes_leValue (l : List UInt8) : leBytes l.length (leValue l) = l := by
  induction l with
  | nil => rfl
  | cons b l ih =>
    have hb := b.toNat_lt
    have hlow : UInt8.ofNat (b.toNat + 256 * leValue l) = b := by
      rw [← UInt8.toNat_inj, UInt8.toNat_ofNat']
      omega
    have hhigh : (b.toNat + 256 * leValue l) / 256 = leValue l := by omega
    rw [length_cons, leBytes, leValue, hlow, hhigh, ih]

lemma leValue_lt (l : List UInt8) : leValue l < 256 ^ l.length := by
  induction l with
  | nil => exact Nat.one_pos
  | cons b l ih =>
    have hb := b.toNat_lt
    rw [leValue, length_cons, pow_succ]
    omega

/-- The words `vs` of widths `ws`, one after the other. -/
def packWords : List ℕ → List ℕ → List UInt8
  | w :: ws, v :: vs => leBytes w v ++ packWords ws vs
  | _, _ => []

/-- The words of widths `ws` that a byte string starts with. -/
def unpackWords : List ℕ → List UInt8 → List ℕ
  | [], _ => []
  | w :: ws, l => leValue (l.take w) :: unpackWords ws (l.drop w)

/-- Each word fits its width. -/
def FitWords (ws vs : List ℕ) : Prop := Forall₂ (fun v w => v < 256 ^ w) vs ws

lemma length_packWords {vs : List ℕ} (h : vs.length = ws.length) :
    (packWords ws vs).length = ws.sum := by
  induction ws generalizing vs with
  | nil =>
    rw [length_eq_zero_iff.mp h]
    rfl
  | cons w ws ih =>
    obtain ⟨v, vs, rfl⟩ := exists_cons_of_length_eq_add_one h
    rw [packWords, length_append, length_leBytes, sum_cons, ih (succ_injective h)]

lemma unpackWords_packWords_append {vs : List ℕ} (h : FitWords ws vs) (rest : List UInt8) :
    unpackWords ws (packWords ws vs ++ rest) = vs := by
  induction h with
  | nil => rfl
  | @cons v w vs ws hv _ ih =>
    have hlen := length_leBytes w v
    rw [packWords, append_assoc, unpackWords, take_left' hlen, drop_left' hlen, ih,
      leValue_leBytes hv]

lemma packWords_unpackWords {l : List UInt8} (h : ws.sum ≤ l.length) :
    packWords ws (unpackWords ws l) = l.take ws.sum := by
  induction ws generalizing l with
  | nil => rw [sum_nil, take_zero]; rfl
  | cons w ws ih =>
    rw [sum_cons] at h
    have htake : (l.take w).length = w := by
      rw [length_take]
      omega
    have hdrop : ws.sum ≤ (l.drop w).length := by
      rw [length_drop]
      omega
    have hword := leBytes_leValue (l.take w)
    rw [htake] at hword
    rw [unpackWords, packWords, ih hdrop, hword, sum_cons, take_add]

lemma fitWords_unpackWords {l : List UInt8} (h : ws.sum ≤ l.length) :
    FitWords ws (unpackWords ws l) := by
  induction ws generalizing l with
  | nil => exact .nil
  | cons w ws ih =>
    rw [sum_cons] at h
    have htake : (l.take w).length = w := by
      rw [length_take]
      omega
    have hword := leValue_lt (l.take w)
    rw [htake] at hword
    refine .cons hword (ih ?_)
    rw [length_drop]
    omega

/-! ### Records -/

/-- A record of little-endian words with no padding. -/
structure PackedStruct (α : Type) where
  widths : List ℕ
  words : α → List ℕ
  ofWords : List ℕ → α
  length_words : ∀ a, (words a).length = widths.length
  ofWords_words : ∀ a, ofWords (words a) = a
  words_ofWords : ∀ l, FitWords widths l → words (ofWords l) = l

namespace PackedStruct

variable {α : Type} (S : PackedStruct α)

/-- The size of a record, in bytes. -/
def size : ℕ := S.widths.sum

/-- The bytes of a record. -/
def bytes (a : α) : List UInt8 := packWords S.widths (S.words a)

/-- The record that a byte string starts with. -/
def parse (l : List UInt8) : α := S.ofWords (unpackWords S.widths l)

/-- The fields of the record keep to their widths. -/
def Fits (a : α) : Prop := FitWords S.widths (S.words a)

/-- The bytes of an array of records. -/
def bytesAll (as : List α) : List UInt8 := as.flatMap S.bytes

/-- The first `n` records of a byte string. -/
def parseAll : ℕ → List UInt8 → List α
  | 0, _ => []
  | n + 1, l => S.parse l :: parseAll n (l.drop S.size)

variable {l : List UInt8}

@[simp] lemma length_bytes (a : α) : (S.bytes a).length = S.size :=
  length_packWords (S.length_words a)

lemma parse_bytes_append {a : α} (h : S.Fits a) (rest : List UInt8) :
    S.parse (S.bytes a ++ rest) = a := by
  rw [parse, bytes, unpackWords_packWords_append h, S.ofWords_words]

lemma bytes_parse (h : S.size ≤ l.length) : S.bytes (S.parse l) = l.take S.size := by
  rw [bytes, parse, S.words_ofWords _ (fitWords_unpackWords h), packWords_unpackWords h, size]

lemma fits_parse (h : S.size ≤ l.length) : S.Fits (S.parse l) := by
  rw [Fits, parse, S.words_ofWords _ (fitWords_unpackWords h)]
  exact fitWords_unpackWords h

@[simp] lemma length_bytesAll (as : List α) : (S.bytesAll as).length = as.length * S.size := by
  induction as with
  | nil => rw [length_nil, Nat.zero_mul, bytesAll, flatMap_nil, length_nil]
  | cons a as ih =>
    rw [bytesAll, flatMap_cons, length_append, ← bytesAll, ih, length_bytes,
      length_cons, succ_mul, Nat.add_comm]

@[simp] lemma length_parseAll (n : ℕ) (l : List UInt8) : (S.parseAll n l).length = n := by
  induction n generalizing l with
  | zero => rfl
  | succ n ih => rw [parseAll, length_cons, ih]

/-- An array of records parses back. -/
lemma parseAll_bytesAll {as : List α} (h : ∀ a ∈ as, S.Fits a) (rest : List UInt8) :
    S.parseAll as.length (S.bytesAll as ++ rest) = as := by
  induction as with
  | nil => rfl
  | cons a as ih =>
    obtain ⟨ha, has⟩ := forall_mem_cons.mp h
    rw [bytesAll, flatMap_cons, ← bytesAll, append_assoc, length_cons, parseAll,
      S.parse_bytes_append ha, drop_left' (S.length_bytes a), ih has]

/-- Bytes of the right number are those of an array of records. -/
lemma bytesAll_parseAll {n : ℕ} (h : l.length = n * S.size) : S.bytesAll (S.parseAll n l) = l := by
  induction n generalizing l with
  | zero =>
    rw [Nat.zero_mul] at h
    exact (length_eq_zero_iff.mp h).symm
  | succ n ih =>
    rw [succ_mul] at h
    have hdrop : (l.drop S.size).length = n * S.size := by
      rw [length_drop]
      omega
    rw [parseAll, bytesAll, flatMap_cons, ← bytesAll, ih hdrop, S.bytes_parse (by omega),
      take_append_drop]

lemma fits_of_mem_parseAll {n : ℕ} (h : n * S.size ≤ l.length) :
    ∀ a ∈ S.parseAll n l, S.Fits a := by
  induction n generalizing l with
  | zero => simp [parseAll]
  | succ n ih =>
    rw [succ_mul] at h
    refine forall_mem_cons.mpr ⟨S.fits_parse (by omega), ih ?_⟩
    rw [length_drop]
    omega

end PackedStruct

end TrtLlm
