import Mathlib.Data.List.TakeWhile
import TrtLlm.Bounce.CreditScheduler

/-!
Control messages of the bounce transport, and the flow keys of the receiver.

Messages are the decoded values of `BounceMessage.h`; a blob that does not decode is
dropped by its handler before anything else, and has no counterpart here.  The scheduler
of a receiver knows a request by the key `peer \x1f rid`:

* `splitKey_makeKey`: a key gives back its peer and request id, whatever the peer's name;
* `makeKey_injective`: different requests have different keys.
-/

namespace TrtLlm

open List Nat

/-- `BounceCreditEntry`: permission to write one chunk into a region of the receiver. -/
structure BounceCreditEntry where
  addr : ℕ
  len : ℕ
  devId : ℕ
  regionHandle : ℕ
deriving DecidableEq, Repr

/-- `BounceScatterRun`: `count` equal pieces of one region, and where they go. -/
structure BounceScatterRun where
  bounceOffset : ℕ
  dstAddr : ℕ
  dstStride : ℕ
  bounceStride : ℕ
  pieceSize : ℕ
  count : ℕ
deriving DecidableEq, Repr

/-- A decoded control message.  A `want` without chunks is the cancel of its request. -/
inductive BounceMsg where
  | want (rid : ℕ) (chunkBytes : List ℕ) (endpoint : Bytes)
  | grant (rid : ℕ) (credits : List BounceCreditEntry)
  | data (rid chunkIdx numChunks regionHandle : ℕ) (entries : List BounceScatterRun)
  | ack (rid chunkIdx regionHandle : ℕ)
  | nack (rid chunkIdx regionHandle : ℕ)
deriving DecidableEq, Repr

/-- `encodeCancel`. -/
def BounceMsg.cancel (rid : ℕ) (endpoint : Bytes) : BounceMsg := .want rid [] endpoint

/-- `isCancelWant`. -/
def isCancelWant (chunkBytes : List ℕ) : Bool := chunkBytes.isEmpty

/-- The members of `BounceConfig` that the sender and the receiver read. -/
structure BounceConfig where
  maxChunkSizeBytes : ℕ
  maxInflightChunksPerRequest : ℕ
  enableEagerGather : Bool
  requestTimeoutMs : ℤ
  receiverFlowTimeoutMs : ℤ
  quarantineMs : ℤ
deriving DecidableEq, Repr

/-! ### Flow keys -/

/-- The unit separator. -/
def kSep : UInt8 := 0x1f

/-- The ASCII digit of a number below ten. -/
def digitByte (d : ℕ) : UInt8 := UInt8.ofNat (48 + d)

def isDigitByte (b : UInt8) : Bool := 48 ≤ b.toNat && b.toNat ≤ 57

/-- `std::to_string` of an unsigned number. -/
def decimal (n : ℕ) : Bytes :=
  if n = 0 then [digitByte 0] else ((digits 10 n).map digitByte).reverse

/-- The value of a string of decimal digits. -/
def decimalValue (l : Bytes) : ℕ := l.foldl (fun acc b => 10 * acc + (b.toNat - 48)) 0

/-- `std::strtoull` in base ten on a string that starts with a digit: the value of the
leading digits, at most the largest 64-bit number. -/
def strtoull (l : Bytes) : ℕ := min (decimalValue (l.takeWhile isDigitByte)) (2 ^ 64 - 1)

def makeKey (peer : Bytes) (rid : ℕ) : Bytes := peer ++ kSep :: decimal rid

/-- `splitKey`: what stands before the last separator, and the number after it.  Without a
separator, `rfind` gives `npos` and both parts are the whole key. -/
def splitKey (key : Bytes) : Bytes × ℕ :=
  let tail := key.reverse.takeWhile (· ≠ kSep)
  if tail.length = key.length then (key, strtoull key)
  else (key.take (key.length - tail.length - 1), strtoull tail.reverse)

/-- The credits of a batch of grants by flow, each in the order of the batch. -/
def creditsByFlow (deviceId : ℕ) (grants : List Grant) : UMap Bytes (List BounceCreditEntry) :=
  grants.foldl (fun m g => m.set g.flow ((m.find? g.flow).getD [] ++
    [{ addr := g.addr, len := g.len, devId := deviceId, regionHandle := g.offset }])) ∅

/-- `sendGrants`: one GRANT for each flow of the batch, addressed to the peer in its key. -/
def sendGrants (deviceId : ℕ) (grants : List Grant) : List (Bytes × BounceMsg) :=
  (creditsByFlow deviceId grants).entries.map fun e =>
    ((splitKey e.1).1, .grant (splitKey e.1).2 e.2)

lemma digitByte_toNat {d : ℕ} (h : d < 10) : (digitByte d).toNat = 48 + d := by
  rw [digitByte, UInt8.toNat_ofNat']
  omega

lemma isDigitByte_digitByte {d : ℕ} (h : d < 10) : isDigitByte (digitByte d) = true := by
  rw [isDigitByte, digitByte_toNat h]
  simp only [Bool.and_eq_true, decide_eq_true_iff]
  omega

lemma isDigitByte_of_mem_decimal {n : ℕ} {b : UInt8}
    (h : b ∈ decimal n) : isDigitByte b = true := by
  rw [decimal] at h
  split_ifs at h
  · rw [mem_singleton.mp h]
    exact isDigitByte_digitByte (by omega)
  · rw [mem_reverse, mem_map] at h
    obtain ⟨d, hd, rfl⟩ := h
    exact isDigitByte_digitByte (digits_lt_base (by omega) hd)

lemma kSep_not_mem_decimal (n : ℕ) : kSep ∉ decimal n := by
  intro h
  have := isDigitByte_of_mem_decimal h
  revert this
  decide

lemma decimalValue_decimal (n : ℕ) : decimalValue (decimal n) = n := by
  rw [decimal]
  split_ifs with h
  · subst h
    decide
  · rw [decimalValue, foldl_reverse, foldr_map]
    have hdig : ∀ ds : List ℕ, (∀ d ∈ ds, d < 10) →
        ds.foldr (fun d acc => 10 * acc + ((digitByte d).toNat - 48)) 0 = ofDigits 10 ds := by
      intro ds
      induction ds with
      | nil => intro _; rfl
      | cons d ds ih =>
        intro hds
        rw [foldr_cons, ih fun d' hd' => hds d' (mem_cons_of_mem _ hd'),
          digitByte_toNat (hds d mem_cons_self), ofDigits_cons]
        omega
    rw [hdig _ fun d hd => digits_lt_base (by omega) hd, ofDigits_digits]

lemma strtoull_decimal {n : ℕ} (h : n < 2 ^ 64) : strtoull (decimal n) = n := by
  have hall : (decimal n).takeWhile isDigitByte = decimal n :=
    takeWhile_eq_self_iff.mpr fun b hb => isDigitByte_of_mem_decimal hb
  rw [strtoull, hall, decimalValue_decimal]
  omega

/-- What stands after the last separator of a key. -/
lemma takeWhile_makeKey (peer : Bytes) (rid : ℕ) :
    (makeKey peer rid).reverse.takeWhile (· ≠ kSep) = (decimal rid).reverse := by
  rw [makeKey, reverse_append, reverse_cons, append_assoc, takeWhile_append_of_pos]
  · simp
  · intro b hb
    have hne : b ≠ kSep := by
      rintro rfl
      exact kSep_not_mem_decimal rid (mem_reverse.mp hb)
    simpa using hne

/-- A key gives back its peer and its request id. -/
lemma splitKey_makeKey (peer : Bytes) {rid : ℕ} (h : rid < 2 ^ 64) :
    splitKey (makeKey peer rid) = (peer, rid) := by
  have hlen : (makeKey peer rid).length = peer.length + (decimal rid).length + 1 := by
    rw [makeKey, length_append, length_cons]
    omega
  have htake : (makeKey peer rid).take peer.length = peer := by
    rw [makeKey, take_left]
  simp only [splitKey, takeWhile_makeKey, length_reverse, hlen]
  rw [if_neg (by omega), show peer.length + (decimal rid).length + 1 - (decimal rid).length - 1
    = peer.length by omega, htake, reverse_reverse, strtoull_decimal h]

/-- Different requests have different keys. -/
lemma makeKey_injective {peer peer' : Bytes} {rid rid' : ℕ}
    (he : makeKey peer rid = makeKey peer' rid') : peer = peer' ∧ rid = rid' := by
  have hdec : (decimal rid).reverse = (decimal rid').reverse := by
    rw [← takeWhile_makeKey peer, he, takeWhile_makeKey]
  have hrid : rid = rid' := by
    rw [← decimalValue_decimal rid, reverse_injective hdec, decimalValue_decimal]
  subst hrid
  exact ⟨append_cancel_right he, rfl⟩

end TrtLlm
