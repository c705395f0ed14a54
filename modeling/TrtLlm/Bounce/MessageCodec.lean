import TrtLlm.Bounce.Message
import TrtLlm.Util.PackedStruct

/-!
The wire form of the control messages and of the handshake (`BounceMessage.cpp`).

A message is a packed header and a payload; the handshake is a sequence of scalars and a
string with its length.  Both peers are little-endian.

* `decodeEntries_sound`, `decodeWant_sound`: a payload decoder reads inside the blob only, and
  what it accepts is the encoding of what it returns, read to the last byte;
* `decodeHandshake_eq_some_iff`: the handshakes accepted are those encoded;
* `codecs_exact`: the round trips of all messages, with the two above.
-/

namespace TrtLlm

open List Option Nat

/-! ### The records -/

/-- `BounceMsgType`. -/
inductive BounceMsgType where
  | kWANT
  | kGRANT
  | kDATA
  | kACK
  | kNACK
deriving DecidableEq, Repr

def BounceMsgType.value : BounceMsgType → ℕ
  | kWANT => 1
  | kGRANT => 2
  | kDATA => 3
  | kACK => 4
  | kNACK => 5

/-- `BounceMsgHeader`. -/
structure BounceMsgHeader where
  magic : ℕ
  version : ℕ
  msgType : ℕ
  requestId : ℕ
  regionHandle : ℕ
  chunkIdx : ℕ
  numChunks : ℕ
  count : ℕ
  payloadBytes : ℕ
deriving DecidableEq, Repr

def kBounceMagic : ℕ := 0x424E4332

def kBounceVersion : ℕ := 2

/-- A list of words that fit widths is as long as these. -/
lemma FitWords.length {ws vs : List ℕ} (h : FitWords ws vs) : vs.length = ws.length :=
  Forall₂.length_eq h

def headerLayout : PackedStruct BounceMsgHeader where
  widths := [4, 2, 2, 8, 8, 4, 4, 4, 4]
  words h := [h.magic, h.version, h.msgType, h.requestId, h.regionHandle, h.chunkIdx, h.numChunks,
    h.count, h.payloadBytes]
  ofWords
    | [a, b, c, d, e, f, g, h, i] => ⟨a, b, c, d, e, f, g, h, i⟩
    | _ => ⟨0, 0, 0, 0, 0, 0, 0, 0, 0⟩
  length_words _ := rfl
  ofWords_words _ := rfl
  words_ofWords l h :=
    match l, h.length with
    | [_, _, _, _, _, _, _, _, _], _ => rfl

def creditLayout : PackedStruct BounceCreditEntry where
  widths := [8, 4, 4, 8]
  words c := [c.addr, c.len, c.devId, c.regionHandle]
  ofWords
    | [a, b, c, d] => ⟨a, b, c, d⟩
    | _ => ⟨0, 0, 0, 0⟩
  length_words _ := rfl
  ofWords_words _ := rfl
  words_ofWords l h :=
    match l, h.length with
    | [_, _, _, _], _ => rfl

def runLayout : PackedStruct BounceScatterRun where
  widths := [8, 8, 8, 4, 4, 4]
  words r := [r.bounceOffset, r.dstAddr, r.dstStride, r.bounceStride, r.pieceSize, r.count]
  ofWords
    | [a, b, c, d, e, f] => ⟨a, b, c, d, e, f⟩
    | _ => ⟨0, 0, 0, 0, 0, 0⟩
  length_words _ := rfl
  ofWords_words _ := rfl
  words_ofWords l h :=
    match l, h.length with
    | [_, _, _, _, _, _], _ => rfl

/-- The chunk sizes of a WANT, each a record of one word. -/
def chunkBytesLayout : PackedStruct ℕ where
  widths := [4]
  words n := [n]
  ofWords l := l.headD 0
  length_words _ := rfl
  ofWords_words _ := rfl
  words_ofWords l h :=
    match l, h.length with
    | [_], _ => rfl

lemma size_chunkBytesLayout : chunkBytesLayout.size = 4 := rfl

/-! ### Encoders

The casts to 32 bits are those of the source.  Where a payload leaves them, the source may
write past the blob that it sized for it; here the blob is then longer than its header says. -/

def makeHeader (type : BounceMsgType)
    (requestId chunkIdx numChunks regionHandle count payloadBytes : ℕ) : BounceMsgHeader :=
  { magic := kBounceMagic, version := kBounceVersion, msgType := type.value, requestId := requestId,
    regionHandle := regionHandle, chunkIdx := chunkIdx, numChunks := numChunks, count := count,
    payloadBytes := payloadBytes }

section
variable {α : Type} (S : PackedStruct α)

def encodeWithEntries (header : BounceMsgHeader) (entries : List α) : Bytes :=
  headerLayout.bytes header ++ S.bytesAll entries

end

def encodeHeaderOnly (header : BounceMsgHeader) : Bytes := headerLayout.bytes header

/-- The payload of a WANT. -/
def wantPayload (chunkBytes : List ℕ) (endpoint : Bytes) : Bytes :=
  chunkBytesLayout.bytesAll chunkBytes ++ (leBytes 4 endpoint.length ++ endpoint)

def encodeWant (requestId : ℕ) (chunkBytes : List ℕ) (endpoint : Bytes) : Bytes :=
  let n := chunkBytes.length % 2 ^ 32
  let sizesBytes := chunkBytes.length * 4 % 2 ^ 32
  let epLen := endpoint.length % 2 ^ 32
  let payloadBytes := (sizesBytes + 4 + epLen) % 2 ^ 32
  headerLayout.bytes (makeHeader .kWANT requestId 0 0 0 n payloadBytes)
    ++ ((chunkBytesLayout.bytesAll chunkBytes).take sizesBytes
      ++ (leBytes 4 epLen ++ endpoint.take epLen))

def encodeCancel (requestId : ℕ) (endpoint : Bytes) : Bytes := encodeWant requestId [] endpoint

def encodeGrant (requestId : ℕ) (credits : List BounceCreditEntry) : Bytes :=
  encodeWithEntries creditLayout (makeHeader .kGRANT requestId 0 0 0 (credits.length % 2 ^ 32)
    (credits.length * creditLayout.size % 2 ^ 32)) credits

def encodeData (requestId chunkIdx numChunks regionHandle : ℕ) (entries : List BounceScatterRun) :
    Bytes :=
  encodeWithEntries runLayout (makeHeader .kDATA requestId chunkIdx numChunks regionHandle
    (entries.length % 2 ^ 32) (entries.length * runLayout.size % 2 ^ 32)) entries

def encodeAck (requestId chunkIdx regionHandle : ℕ) : Bytes :=
  encodeHeaderOnly (makeHeader .kACK requestId chunkIdx 0 regionHandle 0 0)

def encodeNack (requestId chunkIdx regionHandle : ℕ) : Bytes :=
  encodeHeaderOnly (makeHeader .kNACK requestId chunkIdx 0 regionHandle 0 0)

/-! ### Decoders -/

def decodeHeader (blob : Bytes) : Option BounceMsgHeader :=
  if blob.length < headerLayout.size then none
  else
    let header := headerLayout.parse blob
    if header.magic ≠ kBounceMagic ∨ header.version ≠ kBounceVersion then none
    else if blob.length < headerLayout.size + header.payloadBytes then none
    else some header

/-- The `n` bytes of the blob at offset `off`. -/
def slice (blob : Bytes) (off n : ℕ) : Bytes := (blob.drop off).take n

/-- What a decoder returns, `none` for false, and the ranges of the blob that it read, as
offsets and lengths. -/
structure Reading (α : Type) where
  value : Option α
  spans : List (ℕ × ℕ)

/-- The range of a copy of `n` records, which is made for a positive number of them only. -/
def recordSpan (off n bytes : ℕ) : List (ℕ × ℕ) := if 0 < n then [(off, bytes)] else []

section
variable {α : Type} (S : PackedStruct α)

def decodeEntries (blob : Bytes) (header : BounceMsgHeader) : Reading (List α) :=
  let expectBytes := header.count * S.size
  if expectBytes ≠ header.payloadBytes then ⟨none, []⟩
  else if blob.length < headerLayout.size + expectBytes then ⟨none, []⟩
  else
    { value := some (S.parseAll header.count (slice blob headerLayout.size expectBytes))
      spans := recordSpan headerLayout.size header.count expectBytes }

end

section

variable (blob : Bytes) (header : BounceMsgHeader)
include header

def decodeCredits : Reading (List BounceCreditEntry) :=
  decodeEntries creditLayout blob header

def decodeScatter : Reading (List BounceScatterRun) :=
  decodeEntries runLayout blob header

def decodeWant : Reading (List ℕ × Bytes) :=
  let sizesBytes := header.count * 4
  let off := headerLayout.size
  if blob.length < off + sizesBytes + 4 then ⟨none, []⟩
  else
    let epLen := leValue (slice blob (off + sizesBytes) 4)
    let expectPayload := sizesBytes + 4 + epLen
    if header.payloadBytes ≠ expectPayload ∨ blob.length < off + expectPayload then
      ⟨none, [(off + sizesBytes, 4)]⟩
    else
      { value := some (chunkBytesLayout.parseAll header.count (slice blob off sizesBytes),
          slice blob (off + sizesBytes + 4) epLen)
        spans := (off + sizesBytes, 4) :: recordSpan off header.count sizesBytes
          ++ [(off + sizesBytes + 4, epLen)] }

end

/-- What is asked of a payload decoder: it reads inside the blob only, and when it accepts, it
has read each byte of the payload once and nothing else, and the payload is the encoding of
what it returns. -/
structure Reading.Sound {α : Type} (encode : α → Bytes) (blob : Bytes) (header : BounceMsgHeader)
    (r : Reading α) : Prop where
  inside : ∀ s ∈ r.spans, s.1 + s.2 ≤ blob.length
  payload : ∀ v, r.value = some v →
    slice blob headerLayout.size header.payloadBytes = encode v
      ∧ (encode v).length = header.payloadBytes
  once : ∀ v, r.value = some v → (r.spans.map Prod.snd).sum = header.payloadBytes
  all : ∀ v, r.value = some v → ∀ b, (∃ s ∈ r.spans, s.1 ≤ b ∧ b < s.1 + s.2)
    ↔ headerLayout.size ≤ b ∧ b < headerLayout.size + header.payloadBytes

lemma length_slice {blob : Bytes} {off n : ℕ} (h : off + n ≤ blob.length) :
    (slice blob off n).length = n := by
  rw [slice, length_take, length_drop]
  omega

lemma slice_add (blob : Bytes) (off m n : ℕ) :
    slice blob off (m + n) = slice blob off m ++ slice blob (off + m) n := by
  rw [slice, take_add, slice, slice, drop_drop]

lemma recordSpan_inside {off n bytes len : ℕ} (h : off + bytes ≤ len) :
    ∀ s ∈ recordSpan off n bytes, s.1 + s.2 ≤ len := by
  unfold recordSpan
  split_ifs
  · simpa using h
  · simp

section
variable {α : Type} (S : PackedStruct α)

lemma sum_recordSpan (off n : ℕ) : ((recordSpan off n (n * S.size)).map Prod.snd).sum
    = n * S.size := by
  unfold recordSpan
  split_ifs with h
  · simp
  · rw [show n = 0 by omega]
    simp

lemma mem_recordSpan (off n b : ℕ) : (∃ s ∈ recordSpan off n (n * S.size), s.1 ≤ b ∧ b < s.1 + s.2)
    ↔ off ≤ b ∧ b < off + n * S.size := by
  unfold recordSpan
  split_ifs with h
  · simp
  · rw [show n = 0 by omega]
    simp only [not_mem_nil, false_and, exists_false, false_iff]
    omega

/-- **The array payloads.** -/
lemma decodeEntries_sound (blob : Bytes) (header : BounceMsgHeader) :
    (decodeEntries S blob header).Sound S.bytesAll blob header := by
  unfold decodeEntries
  dsimp only
  split_ifs with h1 h2
  · exact ⟨by simp, by simp, by simp, by simp⟩
  · exact ⟨by simp, by simp, by simp, by simp⟩
  · rw [not_not] at h1
    have hlen : (slice blob headerLayout.size (header.count * S.size)).length
        = header.count * S.size :=
      length_slice (by omega)
    refine ⟨recordSpan_inside (by omega), ?_, ?_, ?_⟩
    · rintro v hv
      obtain rfl := some.inj hv
      rw [S.bytesAll_parseAll hlen, hlen, ← h1]
      exact ⟨rfl, rfl⟩
    · intro v _
      rw [sum_recordSpan, h1]
    · intro v _ b
      rw [mem_recordSpan, h1]

end

lemma fits_of_decodeHeader {blob : Bytes} {header : BounceMsgHeader}
    (h : decodeHeader blob = some header) : headerLayout.Fits header := by
  unfold decodeHeader at h
  dsimp only at h
  split_ifs at h with hlen
  obtain rfl := some.inj h
  exact headerLayout.fits_parse (by omega)

/-- The runs of a decoded DATA keep to the widths of their fields, and there are fewer than
`2 ^ 32` of them. -/
lemma fits_of_decodeScatter {blob : Bytes} {header : BounceMsgHeader} {runs : List BounceScatterRun}
    (hheader : decodeHeader blob = some header)
    (h : (decodeScatter blob header).value = some runs) :
    (∀ e ∈ runs, runLayout.Fits e) ∧ runs.length < 2 ^ 32 := by
  have hcount : header.count < 2 ^ 32 := by
    have hfits := fits_of_decodeHeader hheader
    simp only [PackedStruct.Fits, FitWords, headerLayout, forall₂_cons] at hfits
    exact hfits.2.2.2.2.2.2.2.1
  unfold decodeScatter decodeEntries at h
  dsimp only at h
  split_ifs at h with h1 h2
  obtain rfl := some.inj h
  refine ⟨runLayout.fits_of_mem_parseAll ?_, ?_⟩
  · rw [length_slice (by omega)]
  · rwa [runLayout.length_parseAll]

/-- **The payload of a WANT.** -/
lemma decodeWant_sound (blob : Bytes) (header : BounceMsgHeader) :
    (decodeWant blob header).Sound (fun v => wantPayload v.1 v.2) blob header := by
  unfold decodeWant
  dsimp only
  by_cases h1 : blob.length < headerLayout.size + header.count * 4 + 4
  · rw [if_pos h1]
    exact ⟨by simp, by simp, by simp, by simp⟩
  rw [if_neg h1]
  have hword : (slice blob (headerLayout.size + header.count * 4) 4).length = 4 :=
    length_slice (by omega)
  have hendpoint := leBytes_leValue (slice blob (headerLayout.size + header.count * 4) 4)
  rw [hword] at hendpoint
  generalize leValue (slice blob (headerLayout.size + header.count * 4) 4) = epLen at hendpoint ⊢
  split_ifs with h2
  · exact ⟨by simp; omega, by simp, by simp, by simp⟩
  push Not at h2
  obtain ⟨hpayload, hfits⟩ := h2
  have hsizes : (slice blob headerLayout.size (header.count * 4)).length
      = header.count * chunkBytesLayout.size := length_slice (by omega)
  have hend : (slice blob (headerLayout.size + header.count * 4 + 4) epLen).length = epLen :=
    length_slice (by omega)
  refine ⟨?_, ?_, ?_, ?_⟩
  · rw [cons_append]
    refine forall_mem_cons.mpr ⟨by dsimp only; omega, forall_mem_append.mpr ⟨?_, ?_⟩⟩
    · exact recordSpan_inside (by omega)
    · simp only [mem_singleton, forall_eq]
      omega
  · rintro v hv
    obtain rfl := some.inj hv
    -- the payload is the sizes, then the length, then the endpoint
    have hsplit : slice blob headerLayout.size header.payloadBytes
        = slice blob headerLayout.size (header.count * 4)
          ++ (slice blob (headerLayout.size + header.count * 4) 4
            ++ slice blob (headerLayout.size + header.count * 4 + 4) epLen) := by
      rw [hpayload, slice_add, slice_add, append_assoc]
      rfl
    dsimp only [wantPayload]
    rw [chunkBytesLayout.bytesAll_parseAll hsizes, hend, hendpoint, ← hsplit]
    exact ⟨rfl, length_slice (by omega)⟩
  · intro v _
    rw [hpayload, cons_append, map_cons, sum_cons, map_append, List.sum_append,
      ← size_chunkBytesLayout, sum_recordSpan chunkBytesLayout]
    simp
    omega
  · intro v _ b
    have hmem := mem_recordSpan chunkBytesLayout headerLayout.size header.count b
    rw [size_chunkBytesLayout] at hmem
    simp only [cons_append, mem_cons, mem_append, not_mem_nil, or_false,
      or_and_right, exists_or, exists_eq_left, hmem]
    omega

/-! ### Round trips -/

lemma decodeHeader_append {h : BounceMsgHeader} (hfits : headerLayout.Fits h)
    (hmagic : h.magic = kBounceMagic) (hversion : h.version = kBounceVersion) {payload : Bytes}
    (hlen : payload.length = h.payloadBytes) :
    decodeHeader (headerLayout.bytes h ++ payload) = some h := by
  unfold decodeHeader
  have hblob : (headerLayout.bytes h ++ payload).length = headerLayout.size + h.payloadBytes := by
    rw [length_append, headerLayout.length_bytes, hlen]
  rw [if_neg (by omega), headerLayout.parse_bytes_append hfits, if_neg (by simp [hmagic, hversion]),
    if_neg (by omega)]

lemma fits_makeHeader (type : BounceMsgType) {rid chunkIdx numChunks region count bytes : ℕ}
    (hrid : rid < 2 ^ 64) (hchunk : chunkIdx < 2 ^ 32) (hnum : numChunks < 2 ^ 32)
    (hregion : region < 2 ^ 64) (hcount : count < 2 ^ 32) (hbytes : bytes < 2 ^ 32) :
    headerLayout.Fits (makeHeader type rid chunkIdx numChunks region count bytes) := by
  have htype : type.value < 256 ^ 2 := by cases type <;> decide
  have hmagic : kBounceMagic < 256 ^ 4 := by decide
  have hversion : kBounceVersion < 256 ^ 2 := by decide
  exact .cons hmagic (.cons hversion (.cons htype (.cons hrid (.cons hregion (.cons hchunk
    (.cons hnum (.cons hcount (.cons hbytes .nil))))))))

/-- The payload stands after the header. -/
lemma slice_bytes_append (h : BounceMsgHeader) (payload : Bytes) (off n : ℕ) :
    slice (headerLayout.bytes h ++ payload) (headerLayout.size + off) n = slice payload off n := by
  rw [slice, drop_append, headerLayout.length_bytes, Nat.add_sub_cancel_left,
    drop_eq_nil_of_le, nil_append, slice]
  rw [headerLayout.length_bytes]
  exact Nat.le_add_right _ _

section
variable {α : Type} (S : PackedStruct α)

/-- An array payload and its header. -/
lemma decodeEntries_encode {h : BounceMsgHeader} {entries : List α}
    (hentries : ∀ e ∈ entries, S.Fits e)
    (hcount : h.count = entries.length) (hbytes : h.payloadBytes = entries.length * S.size) :
    (decodeEntries S (encodeWithEntries S h entries) h).value = some entries := by
  unfold decodeEntries encodeWithEntries
  have hall := S.length_bytesAll entries
  rw [if_neg (by rw [hcount, hbytes]; exact not_not.mpr rfl), if_neg]
  · have hslice := slice_bytes_append h (S.bytesAll entries) 0 (entries.length * S.size)
    rw [Nat.add_zero] at hslice
    rw [hcount, hslice, slice, drop_zero, ← hall, take_length]
    have := S.parseAll_bytesAll hentries []
    rw [append_nil] at this
    rw [this]
  · rw [length_append, headerLayout.length_bytes, hall, hcount]
    omega

lemma decodeHeader_encodeWithEntries {h : BounceMsgHeader} (hfits : headerLayout.Fits h)
    (hmagic : h.magic = kBounceMagic) (hversion : h.version = kBounceVersion) {entries : List α}
    (hbytes : h.payloadBytes = entries.length * S.size) :
    decodeHeader (encodeWithEntries S h entries) = some h :=
  decodeHeader_append hfits hmagic hversion ((S.length_bytesAll entries).trans hbytes.symm)

end

variable {rid : ℕ}

/-- A GRANT decodes to its fields and entries. -/
lemma decode_encodeGrant {credits : List BounceCreditEntry} (hrid : rid < 2 ^ 64)
    (hcredits : ∀ c ∈ credits, creditLayout.Fits c)
    (hbytes : credits.length * creditLayout.size < 2 ^ 32) :
    let h := makeHeader .kGRANT rid 0 0 0 credits.length (credits.length * creditLayout.size)
    decodeHeader (encodeGrant rid credits) = some h
      ∧ (decodeCredits (encodeGrant rid credits) h).value = some credits := by
  have hcount : credits.length < 2 ^ 32 := (Nat.le_mul_of_pos_right _ (by decide)).trans_lt hbytes
  rw [encodeGrant, mod_eq_of_lt hcount, mod_eq_of_lt hbytes]
  refine ⟨decodeHeader_encodeWithEntries _ ?_ rfl rfl rfl, decodeEntries_encode _ hcredits rfl rfl⟩
  exact fits_makeHeader _ hrid (by decide) (by decide) (by decide) hcount hbytes

/-- A DATA decodes to its fields and runs. -/
lemma decode_encodeData {chunkIdx numChunks region : ℕ} {entries : List BounceScatterRun}
    (hrid : rid < 2 ^ 64) (hchunk : chunkIdx < 2 ^ 32) (hnum : numChunks < 2 ^ 32)
    (hregion : region < 2 ^ 64) (hentries : ∀ e ∈ entries, runLayout.Fits e)
    (hbytes : entries.length * runLayout.size < 2 ^ 32) :
    let h := makeHeader .kDATA rid chunkIdx numChunks region entries.length
      (entries.length * runLayout.size)
    decodeHeader (encodeData rid chunkIdx numChunks region entries) = some h
      ∧ (decodeScatter (encodeData rid chunkIdx numChunks region entries) h).value
        = some entries := by
  have hcount : entries.length < 2 ^ 32 := (Nat.le_mul_of_pos_right _ (by decide)).trans_lt hbytes
  rw [encodeData, mod_eq_of_lt hcount, mod_eq_of_lt hbytes]
  refine ⟨decodeHeader_encodeWithEntries _ ?_ rfl rfl rfl, decodeEntries_encode _ hentries rfl rfl⟩
  exact fits_makeHeader _ hrid hchunk hnum hregion hcount hbytes

/-- A message of a header only decodes to its fields. -/
lemma decode_encodeHeaderOnly (type : BounceMsgType) {chunkIdx region : ℕ} (hrid : rid < 2 ^ 64)
    (hchunk : chunkIdx < 2 ^ 32) (hregion : region < 2 ^ 64) :
    decodeHeader (encodeHeaderOnly (makeHeader type rid chunkIdx 0 region 0 0))
      = some (makeHeader type rid chunkIdx 0 region 0 0) := by
  have hfits : headerLayout.Fits (makeHeader type rid chunkIdx 0 region 0 0) :=
    fits_makeHeader type hrid hchunk (by decide) hregion (by decide) (by decide)
  have := decodeHeader_append hfits rfl rfl length_nil
  rwa [append_nil] at this

/-- The payload of a WANT, as its encoder writes it when it fits. -/
lemma encodeWant_eq {chunkBytes : List ℕ} {endpoint : Bytes}
    (hfits : chunkBytes.length * 4 + 4 + endpoint.length < 2 ^ 32) :
    encodeWant rid chunkBytes endpoint
      = headerLayout.bytes (makeHeader .kWANT rid 0 0 0 chunkBytes.length
          (chunkBytes.length * 4 + 4 + endpoint.length)) ++ wantPayload chunkBytes endpoint := by
  have hall := chunkBytesLayout.length_bytesAll chunkBytes
  rw [size_chunkBytesLayout] at hall
  rw [encodeWant, mod_eq_of_lt (a := chunkBytes.length) (by omega),
    mod_eq_of_lt (a := chunkBytes.length * 4) (by omega),
    mod_eq_of_lt (a := endpoint.length) (by omega), mod_eq_of_lt hfits, ← hall,
    take_length, take_length, wantPayload]

/-- A WANT decodes to its fields, sizes and endpoint. -/
lemma decode_encodeWant {chunkBytes : List ℕ} {endpoint : Bytes} (hrid : rid < 2 ^ 64)
    (hchunks : ∀ c ∈ chunkBytes, c < 2 ^ 32)
    (hfits : chunkBytes.length * 4 + 4 + endpoint.length < 2 ^ 32) :
    let h := makeHeader .kWANT rid 0 0 0 chunkBytes.length
      (chunkBytes.length * 4 + 4 + endpoint.length)
    decodeHeader (encodeWant rid chunkBytes endpoint) = some h
      ∧ (decodeWant (encodeWant rid chunkBytes endpoint) h).value
        = some (chunkBytes, endpoint) := by
  have hall := chunkBytesLayout.length_bytesAll chunkBytes
  rw [size_chunkBytesLayout] at hall
  have hpayload : (wantPayload chunkBytes endpoint).length
      = chunkBytes.length * 4 + 4 + endpoint.length := by
    rw [wantPayload, length_append, length_append, hall, length_leBytes]
    omega
  rw [encodeWant_eq hfits]
  refine ⟨decodeHeader_append ?_ rfl rfl hpayload, ?_⟩
  · exact fits_makeHeader _ hrid (by decide) (by decide) (by decide) (by omega) hfits
  generalize hh : makeHeader .kWANT rid 0 0 0 chunkBytes.length
    (chunkBytes.length * 4 + 4 + endpoint.length) = h
  have hcount : h.count = chunkBytes.length := by rw [← hh]; rfl
  have hbytes : h.payloadBytes = chunkBytes.length * 4 + 4 + endpoint.length := by rw [← hh]; rfl
  have hblob : (headerLayout.bytes h ++ wantPayload chunkBytes endpoint).length
      = headerLayout.size + (chunkBytes.length * 4 + 4 + endpoint.length) := by
    rw [length_append, headerLayout.length_bytes, hpayload]
  have hsizes : slice (headerLayout.bytes h ++ wantPayload chunkBytes endpoint) headerLayout.size
      (chunkBytes.length * 4) = chunkBytesLayout.bytesAll chunkBytes := by
    have := slice_bytes_append h (wantPayload chunkBytes endpoint) 0 (chunkBytes.length * 4)
    rw [Nat.add_zero] at this
    rw [this, slice, drop_zero, wantPayload, take_left' hall]
  have hlen : slice (headerLayout.bytes h ++ wantPayload chunkBytes endpoint)
      (headerLayout.size + chunkBytes.length * 4) 4 = leBytes 4 endpoint.length := by
    rw [slice_bytes_append, slice, wantPayload, drop_left' hall, take_left' (length_leBytes _ _)]
  have hend : slice (headerLayout.bytes h ++ wantPayload chunkBytes endpoint)
      (headerLayout.size + chunkBytes.length * 4 + 4) endpoint.length = endpoint := by
    rw [Nat.add_assoc, slice_bytes_append, slice, wantPayload, ← drop_drop,
      drop_left' hall, drop_left' (length_leBytes _ _), take_length]
  unfold decodeWant
  dsimp only
  rw [hcount, hlen, leValue_leBytes (by omega), if_neg (by omega), if_neg (by omega), hsizes, hend]
  have hparse := chunkBytesLayout.parseAll_bytesAll
    (fun c hc => .cons (hchunks c hc) .nil : ∀ c ∈ chunkBytes, chunkBytesLayout.Fits c) []
  rw [append_nil] at hparse
  rw [hparse]

/-! ### The handshake -/

/-- `BounceHandshake`; the control kind is the value of an enumeration of one byte. -/
structure BounceHandshake where
  wireVersion : UInt16
  controlKind : UInt8
  arenaUsableCapacityBytes : UInt64
  maxChunkSizeBytes : UInt64
  requestTimeoutMs : Int32
  endpoint : Bytes
deriving DecidableEq

def kHandshakeMagic : ℕ := 0x424E4853

def kHandshakeFormatVersion : ℕ := 1

/-- The scalars after the format version, the length of the endpoint last. -/
def BounceHandshake.fields (h : BounceHandshake) : List ℕ :=
  [h.wireVersion.toNat, h.controlKind.toNat, h.arenaUsableCapacityBytes.toNat,
    h.maxChunkSizeBytes.toNat, h.requestTimeoutMs.toUInt32.toNat, h.endpoint.length]

def handshakePrefixWidths : List ℕ := [4, 2]

def handshakeFieldWidths : List ℕ := [2, 1, 8, 8, 4, 8]

def encodeHandshake (h : BounceHandshake) : Bytes :=
  packWords handshakePrefixWidths [kHandshakeMagic, kHandshakeFormatVersion]
    ++ (packWords handshakeFieldWidths h.fields ++ h.endpoint)

/-- `std::istringstream` over a blob. -/
structure IStream where
  blob : Bytes
  pos : ℕ
  failed : Bool

namespace IStream

/-- `deserialize` of a scalar of `w` bytes.  A read that fails leaves the stream failed, and its
value indeterminate; here it is what is left of the blob. -/
def deserialize (s : IStream) (w : ℕ) : ℕ × IStream :=
  (leValue (slice s.blob s.pos w), if s.failed then s
    else if s.pos + w ≤ s.blob.length then { s with pos := s.pos + w }
    else { s with pos := s.blob.length, failed := true })

/-- One scalar after the other. -/
def deserializeAll : List ℕ → IStream → List ℕ × IStream
  | [], s => ([], s)
  | w :: ws, s =>
    let (v, s) := s.deserialize w
    let (vs, s) := s.deserializeAll ws
    (v :: vs, s)

end IStream

/-- The end of `decodeHandshake`, on the fields after the format version. -/
def handshakeOf (blob : Bytes) : List ℕ × IStream → Option BounceHandshake
  | ([wireVersion, controlKind, arena, maxChunk, timeout, endpointLen], s) =>
    if s.failed then none
    else if endpointLen ≠ blob.length - s.pos then none
    else some
      { wireVersion := .ofNat wireVersion
        controlKind := .ofNat controlKind
        arenaUsableCapacityBytes := .ofNat arena
        maxChunkSizeBytes := .ofNat maxChunk
        requestTimeoutMs := (UInt32.ofNat timeout).toInt32
        endpoint := blob.drop s.pos }
  | _ => none

def decodeHandshake (blob : Bytes) : Option BounceHandshake :=
  let head := IStream.deserializeAll handshakePrefixWidths ⟨blob, 0, false⟩
  if head.2.failed ∨ head.1 ≠ [kHandshakeMagic, kHandshakeFormatVersion] then none
  else handshakeOf blob (IStream.deserializeAll handshakeFieldWidths head.2)

namespace IStream

variable {s : IStream} {ws : List ℕ}

lemma deserializeAll_of_le (hs : s.failed = false) (h : s.pos + ws.sum ≤ s.blob.length) :
    s.deserializeAll ws = (unpackWords ws (s.blob.drop s.pos),
      { s with pos := s.pos + ws.sum }) := by
  induction ws generalizing s with
  | nil => rfl
  | cons w ws ih =>
    rw [sum_cons] at h
    have hstep : (s.deserialize w).2 = { s with pos := s.pos + w } := by
      rw [deserialize, hs, if_neg (by simp), if_pos (by omega)]
    rw [deserializeAll]
    dsimp only
    rw [hstep, ih (by exact hs) (by dsimp only; omega), unpackWords, deserialize, slice,
      drop_drop, sum_cons, Nat.add_assoc]

/-- A failed stream stays failed. -/
lemma deserializeAll_failed (hs : s.failed = true) : (s.deserializeAll ws).2.failed = true := by
  induction ws generalizing s with
  | nil => exact hs
  | cons w ws ih =>
    rw [deserializeAll]
    refine ih ?_
    rw [deserialize, hs, if_pos rfl]
    exact hs

lemma deserializeAll_of_lt (hpos : s.pos ≤ s.blob.length)
    (h : s.blob.length < s.pos + ws.sum) : (s.deserializeAll ws).2.failed = true := by
  induction ws generalizing s with
  | nil =>
    rw [sum_nil] at h
    omega
  | cons w ws ih =>
    rw [deserializeAll]
    cases hs : s.failed with
    | true =>
      refine deserializeAll_failed ?_
      rw [deserialize, hs, if_pos rfl]
      exact hs
    | false =>
      by_cases hw : s.pos + w ≤ s.blob.length
      · have hstep : (s.deserialize w).2 = { s with pos := s.pos + w } := by
          rw [deserialize, hs, if_neg (by simp), if_pos hw]
        dsimp only
        rw [hstep]
        rw [sum_cons] at h
        exact ih hw (by dsimp only; omega)
      · refine deserializeAll_failed ?_
        rw [deserialize, hs, if_neg (by simp), if_neg hw]

end IStream

variable {blob : Bytes}

lemma fitWords_fields {h : BounceHandshake} (hlen : h.endpoint.length < 2 ^ 64) :
    FitWords handshakeFieldWidths h.fields :=
  .cons h.wireVersion.toNat_lt
    (.cons h.controlKind.toNat_lt (.cons h.arenaUsableCapacityBytes.toNat_lt
    (.cons h.maxChunkSizeBytes.toNat_lt (.cons h.requestTimeoutMs.toUInt32.toNat_lt
    (.cons hlen .nil)))))

/-- The end of `decodeHandshake` on scalars that were all read: the endpoint fills the blob, and
the scalars are those of the handshake. -/
lemma handshakeOf_eq_some_iff {vs : List ℕ} (hvs : FitWords handshakeFieldWidths vs)
    (h : BounceHandshake) :
    handshakeOf blob (vs, ⟨blob, 37, false⟩) = some h
      ↔ vs = h.fields ∧ h.endpoint = blob.drop 37 := by
  obtain ⟨a, b, c, d, e, f, rfl⟩ : ∃ a b c d e f, vs = [a, b, c, d, e, f] :=
    match vs, hvs.length with
    | [_, _, _, _, _, _], _ => ⟨_, _, _, _, _, _, rfl⟩
  simp only [FitWords, handshakeFieldWidths, forall₂_cons, forall₂_nil_right_iff] at hvs
  obtain ⟨ha, hb, hc, hd, he, hf, -⟩ := hvs
  have hdrop : (blob.drop 37).length = blob.length - 37 := length_drop
  simp only [handshakeOf, Bool.false_eq_true, if_false, ne_eq, ite_not, BounceHandshake.fields]
  constructor
  · intro heq
    split_ifs at heq with hlen
    obtain rfl := some.inj heq
    refine ⟨?_, rfl⟩
    rw [UInt16.toNat_ofNat_of_lt' ha, UInt8.toNat_ofNat_of_lt' hb, UInt64.toNat_ofNat_of_lt' hc,
      UInt64.toNat_ofNat_of_lt' hd, UInt32.toUInt32_toInt32, UInt32.toNat_ofNat_of_lt' he, hdrop,
        hlen]
  · rintro ⟨hw, hend⟩
    obtain ⟨wireVersion, controlKind, arena, maxChunk, timeout, endpoint⟩ := h
    simp only [cons.injEq, and_true] at hw hend
    obtain ⟨rfl, rfl, rfl, rfl, rfl, rfl⟩ := hw
    rw [hend, if_pos hdrop]
    simp

lemma handshakeOf_failed {r : List ℕ × IStream} (h : r.2.failed = true) :
    handshakeOf blob r = none := by
  unfold handshakeOf
  split
  · exact if_pos h
  · rfl

/-- What `decodeHandshake` reads: the scalars, when the blob holds them. -/
lemma decodeHandshake_eq (blob : Bytes) : decodeHandshake blob
      = if 37 ≤ blob.length
            ∧ unpackWords handshakePrefixWidths blob
              = [kHandshakeMagic, kHandshakeFormatVersion] then
          handshakeOf blob (unpackWords handshakeFieldWidths (blob.drop 6), ⟨blob, 37, false⟩)
        else none := by
  have hprefix : handshakePrefixWidths.sum = 6 := rfl
  have hfields : handshakeFieldWidths.sum = 31 := rfl
  unfold decodeHandshake
  by_cases hp : 6 ≤ blob.length
  · have hhead : IStream.deserializeAll handshakePrefixWidths ⟨blob, 0, false⟩
        = (unpackWords handshakePrefixWidths blob, ⟨blob, 6, false⟩) :=
      IStream.deserializeAll_of_le (s := ⟨blob, 0, false⟩) rfl (by dsimp only; omega)
    rw [hhead]
    simp only [Bool.false_eq_true, false_or, ite_not]
    by_cases hf : 37 ≤ blob.length
    · have hread : IStream.deserializeAll handshakeFieldWidths ⟨blob, 6, false⟩
          = (unpackWords handshakeFieldWidths (blob.drop 6), ⟨blob, 37, false⟩) :=
        IStream.deserializeAll_of_le (s := ⟨blob, 6, false⟩) rfl (by dsimp only; omega)
      simp only [hread, hf, true_and]
    · have hfail : (IStream.deserializeAll handshakeFieldWidths ⟨blob, 6, false⟩).2.failed = true :=
        IStream.deserializeAll_of_lt hp (by dsimp only; omega)
      simp only [handshakeOf_failed hfail, hf, false_and, if_false, ite_self]
  · have hfail : (IStream.deserializeAll handshakePrefixWidths ⟨blob, 0, false⟩).2.failed = true :=
      IStream.deserializeAll_of_lt (Nat.zero_le _) (by dsimp only; omega)
    rw [if_pos (.inl hfail), if_neg (by omega)]

/-- **The handshakes accepted are those encoded.** -/
lemma decodeHandshake_eq_some_iff (hlen : blob.length < 2 ^ 64) (h : BounceHandshake) :
    decodeHandshake blob = some h ↔ blob = encodeHandshake h := by
  rw [decodeHandshake_eq]
  constructor
  · intro heq
    split_ifs at heq with hok
    obtain ⟨hle, hhead⟩ := hok
    have hdrop : handshakeFieldWidths.sum ≤ (blob.drop 6).length := by
      rw [length_drop, show handshakeFieldWidths.sum = 31 from rfl]
      omega
    obtain ⟨hfields, hend⟩ := (handshakeOf_eq_some_iff (fitWords_unpackWords hdrop) h).mp heq
    have hpre : handshakePrefixWidths.sum ≤ blob.length := by
      rw [show handshakePrefixWidths.sum = 6 from rfl]
      omega
    calc blob = blob.take 6 ++ ((blob.drop 6).take 31 ++ (blob.drop 6).drop 31) := by
          rw [take_append_drop, take_append_drop]
      _ = packWords handshakePrefixWidths (unpackWords handshakePrefixWidths blob)
          ++ (packWords handshakeFieldWidths (unpackWords handshakeFieldWidths (blob.drop 6))
            ++ blob.drop 37) := by
          rw [packWords_unpackWords hpre, packWords_unpackWords hdrop, drop_drop]
          rfl
      _ = encodeHandshake h := by rw [hhead, hfields, ← hend, encodeHandshake]
  · rintro rfl
    have hfields : (packWords handshakeFieldWidths h.fields).length = 31 := length_packWords rfl
    have hpre : (packWords handshakePrefixWidths [kHandshakeMagic, kHandshakeFormatVersion]).length
        = 6 :=
      length_packWords rfl
    have hblob : (encodeHandshake h).length = 37 + h.endpoint.length := by
      rw [encodeHandshake, length_append, length_append, hpre, hfields]
      omega
    have hfit := fitWords_fields (h := h) (by omega)
    have hdrop6 : (encodeHandshake h).drop 6 = packWords handshakeFieldWidths h.fields
        ++ h.endpoint := by
      rw [encodeHandshake, drop_left' hpre]
    have hdrop37 : (encodeHandshake h).drop 37 = h.endpoint := by
      rw [show 37 = 6 + 31 from rfl, ← drop_drop, hdrop6, drop_left' hfields]
    have hhead : unpackWords handshakePrefixWidths (encodeHandshake h)
        = [kHandshakeMagic, kHandshakeFormatVersion] := by
      rw [encodeHandshake]
      exact unpackWords_packWords_append (.cons (by decide) (.cons (by decide) .nil)) _
    rw [if_pos ⟨by omega, hhead⟩, hdrop6, unpackWords_packWords_append hfit,
      handshakeOf_eq_some_iff hfit, hdrop37]
    exact ⟨rfl, rfl⟩

/-! ### The codecs -/

/-- **The codecs are exact.**  Each message whose payload fits in 32 bits decodes to what was
encoded; a payload decoder reads inside its blob and accepts exactly the bytes of its header's
payload; and the handshakes accepted are those encoded. -/
theorem codecs_exact : (∀ rid chunkBytes endpoint, rid < 2 ^ 64 → (∀ c ∈ chunkBytes, c < 2 ^ 32) →
      chunkBytes.length * 4 + 4 + endpoint.length < 2 ^ 32 →
      let h := makeHeader .kWANT rid 0 0 0 chunkBytes.length
        (chunkBytes.length * 4 + 4 + endpoint.length)
      decodeHeader (encodeWant rid chunkBytes endpoint) = some h
        ∧ (decodeWant (encodeWant rid chunkBytes endpoint) h).value = some (chunkBytes, endpoint))
    ∧ (∀ rid credits, rid < 2 ^ 64 → (∀ c ∈ credits, creditLayout.Fits c) →
      credits.length * creditLayout.size < 2 ^ 32 →
      let h := makeHeader .kGRANT rid 0 0 0 credits.length (credits.length * creditLayout.size)
      decodeHeader (encodeGrant rid credits) = some h
        ∧ (decodeCredits (encodeGrant rid credits) h).value = some credits)
    ∧ (∀ rid chunkIdx numChunks region entries, rid < 2 ^ 64 → chunkIdx < 2 ^ 32 →
      numChunks < 2 ^ 32 → region < 2 ^ 64 → (∀ e ∈ entries, runLayout.Fits e) →
      entries.length * runLayout.size < 2 ^ 32 →
      let h := makeHeader .kDATA rid chunkIdx numChunks region entries.length
        (entries.length * runLayout.size)
      decodeHeader (encodeData rid chunkIdx numChunks region entries) = some h
        ∧ (decodeScatter (encodeData rid chunkIdx numChunks region entries) h).value = some entries)
    ∧ (∀ rid chunkIdx region, rid < 2 ^ 64 → chunkIdx < 2 ^ 32 → region < 2 ^ 64 →
      decodeHeader (encodeAck rid chunkIdx region)
        = some (makeHeader .kACK rid chunkIdx 0 region 0 0)
        ∧ decodeHeader (encodeNack rid chunkIdx region)
          = some (makeHeader .kNACK rid chunkIdx 0 region 0 0))
    ∧ (∀ blob header, decodeHeader blob = some header →
      (decodeWant blob header).Sound (fun v => wantPayload v.1 v.2) blob header
        ∧ (decodeCredits blob header).Sound creditLayout.bytesAll blob header
        ∧ (decodeScatter blob header).Sound runLayout.bytesAll blob header)
    ∧ (∀ blob : Bytes, blob.length < 2 ^ 64 →
      ∀ h, decodeHandshake blob = some h ↔ blob = encodeHandshake h) := by
  refine ⟨?_, ?_, ?_, ?_, ?_, ?_⟩
  · intro rid chunkBytes endpoint hrid hchunks hfits
    exact decode_encodeWant hrid hchunks hfits
  · intro rid credits hrid hcredits hbytes
    exact decode_encodeGrant hrid hcredits hbytes
  · intro rid chunkIdx numChunks region entries hrid hchunk hnum hregion hentries hbytes
    exact decode_encodeData hrid hchunk hnum hregion hentries hbytes
  · intro rid chunkIdx region hrid hchunk hregion
    exact ⟨decode_encodeHeaderOnly .kACK hrid hchunk hregion,
      decode_encodeHeaderOnly .kNACK hrid hchunk hregion⟩
  · intro blob header _
    exact ⟨decodeWant_sound blob header, decodeEntries_sound creditLayout blob header,
      decodeEntries_sound runLayout blob header⟩
  · intro blob hlen h
    exact decodeHandshake_eq_some_iff hlen h

/-- A WANT of two chunks and the handshake that goes with it. -/
theorem codecs_exact_sample : (decodeWant (encodeWant 7 [4096, 512] [97, 98])
        (makeHeader .kWANT 7 0 0 0 2 14)).value = some ([4096, 512], [97, 98])
      ∧ decodeHandshake (encodeHandshake ⟨2, 0, 1024, 512, -1, [97, 98]⟩)
        = some ⟨2, 0, 1024, 512, -1, [97, 98]⟩ :=
  ⟨(codecs_exact.1 7 [4096, 512] [97, 98] (by decide) (by decide) (by decide)).2,
    (codecs_exact.2.2.2.2.2 _ (by decide) _).mpr rfl⟩

end TrtLlm
