import CyberRT.Lib.Bytes

/-!
# Messages with a header (`message/message_traits.h`, `message/message_header.h`)

`SerializeToHC` writes a `MessageHeader` and the bytes of a message behind it, `ParseFromHC` reads
them again.
-/

namespace Message

open Lib

def toInt32 (n : Nat) : Int :=
  if n % 2 ^ 32 < 2 ^ 31 then (n % 2 ^ 32 : Nat) else (n % 2 ^ 32 : Nat) - 2 ^ 32

def bytesOf (s : String) : List UInt8 := s.toUTF8.toList

structure MessageHeader where
  magicNum : Vector UInt8 8
  seq : Vector UInt8 8
  timestampNs : Vector UInt8 8
  srcId : Vector UInt8 8
  dstId : Vector UInt8 8
  msgType : Vector UInt8 129
  res : Vector UInt8 19
  contentSize : Vector UInt8 4

namespace MessageHeader

def size : Nat := 8 + 8 + 8 + 8 + 8 + 129 + 19 + 4

def fill (n : Nat) (bs : List UInt8) : Vector UInt8 n := Vector.ofFn fun i => bs.getD i 0

def new : MessageHeader :=
  ⟨fill 8 (bytesOf "BDACBDAC"), fill 8 [], fill 8 [], fill 8 [], fill 8 [], fill 129 [], fill 19 [],
    fill 4 []⟩

def setMsgType (h : MessageHeader) (msgType : List UInt8) : MessageHeader :=
  if msgType.length = 0 then h
  else
    let realLen := if msgType.length ≥ 129 then 129 - 1 else msgType.length
    { h with msgType := fill 129 (msgType.take realLen) }

def setContentSize (h : MessageHeader) (contentSize : Nat) : MessageHeader :=
  { h with contentSize := fill 4 (toBE 4 contentSize) }

def bytes (h : MessageHeader) : List UInt8 :=
  h.magicNum.toList ++ h.seq.toList ++ h.timestampNs.toList ++ h.srcId.toList ++ h.dstId.toList ++
    h.msgType.toList ++ h.res.toList ++ h.contentSize.toList

def msgTypeAt (data : List UInt8) : List UInt8 := ((data.drop 40).take 129).takeWhile (· ≠ 0)

def contentSizeAt (data : List UInt8) : Nat := ofBE ((data.drop 188).take 4)

end MessageHeader

structure Traits (M : Type) where
  byteSize : M → Int
  messageType : M → List UInt8
  serializeToArray : M → List UInt8 → Int → Bool × List UInt8
  parseFromArray : M → List UInt8 → Int → Bool × M
  setTypeName : List UInt8 → M → M

namespace Traits

variable {M : Type} (t : Traits M)

def fullByteSize (m : M) : Int :=
  if t.byteSize m < 0 then t.byteSize m else t.byteSize m + MessageHeader.size

def serializeToHC (m : M) (data : List UInt8) (size : Int) : Bool × List UInt8 :=
  let msgSize := t.byteSize m
  if msgSize < 0 then (false, data)
  else
    let header := (MessageHeader.new.setMsgType (t.messageType m)).setContentSize msgSize.toNat
    -- the size is compared as a `size_t`, which is large for a negative one
    if 0 ≤ size ∧ size < MessageHeader.size then (false, data)
    else
      let leftSize := size - MessageHeader.size
      match t.serializeToArray m (data.drop MessageHeader.size) leftSize with
      | (ok, rest) => (ok, header.bytes ++ rest)

def parseFromHC (data : List UInt8) (size : Int) (m : M) : Bool × M :=
  if size < MessageHeader.size then (false, m)
  else if size - MessageHeader.size < MessageHeader.contentSizeAt data then (false, m)
  else
    t.parseFromArray (t.setTypeName (MessageHeader.msgTypeAt data) m)
      (data.drop MessageHeader.size) (toInt32 (MessageHeader.contentSizeAt data))

end Traits

def payloadTraits {M : Type} (payload : M → List UInt8) (assign : List UInt8 → M → M)
    (typeName : String) : Traits M where
  byteSize m := toInt32 (payload m).length
  messageType _ := bytesOf typeName
  serializeToArray m data size :=
    if size < toInt32 (payload m).length then (false, data)
    else (true, payload m ++ data.drop (payload m).length)
  parseFromArray m data size :=
    if size ≤ 0 then (false, m) else (true, assign (data.take size.toNat) m)
  setTypeName _ m := m

structure RawMessage where
  message : List UInt8
  timestamp : UInt64

structure PyMessageWrap where
  data : List UInt8
  typeName : List UInt8

def RawMessage.traits : Traits RawMessage :=
  payloadTraits RawMessage.message (fun bs m => { m with message := bs })
    "apollo.cyber.message.RawMessage"

def PyMessageWrap.traits : Traits PyMessageWrap :=
  payloadTraits PyMessageWrap.data (fun bs m => { m with data := bs })
    "apollo.cyber.message.PyMessage"

/-- **The round trip** through a buffer, into `target`, yields `m'`. -/
def Traits.RoundTrip {M : Type} (t : Traits M) (m target m' : M) (buffer : List UInt8) : Prop :=
  ∃ buffer', t.serializeToHC m buffer buffer.length = (true, buffer') ∧
    t.parseFromHC buffer' buffer.length target = (true, m')

/-!
## The round trip through a header

`SerializeToHC` stores the number of bytes of the message in the header, and `ParseFromHC` takes as
many from behind it.
-/

open List

theorem toInt32_of_lt {n : Nat} (h : n < 2 ^ 31) : toInt32 n = n := by
  have hmod : n % 2 ^ 32 = n := Nat.mod_eq_of_lt (by omega)
  rw [toInt32, hmod, if_pos h]

namespace MessageHeader

variable (h : MessageHeader)

theorem fill_toList {n : Nat} {bs : List UInt8} (hlen : bs.length = n) :
    (fill n bs).toList = bs := by
  subst hlen
  apply ext_getElem
  · rw [Vector.length_toList]
  · simp [fill]

theorem bytes_length : h.bytes.length = size := by
  simp only [bytes, length_append, Vector.length_toList]
  rfl

theorem drop_bytes (rest : List UInt8) : (h.bytes ++ rest).drop size = rest := by
  rw [← h.bytes_length, drop_left]

theorem contentSizeAt_bytes (contentSize : Nat) (rest : List UInt8) :
    contentSizeAt ((h.setContentSize contentSize).bytes ++ rest) = contentSize % 2 ^ 32 := by
  have hfront : (h.magicNum.toList ++ h.seq.toList ++ h.timestampNs.toList ++ h.srcId.toList ++
      h.dstId.toList ++ h.msgType.toList ++ h.res.toList).length = 188 := by
    simp only [length_append, Vector.length_toList]
  have hsize : (fill 4 (toBE 4 contentSize)).toList = toBE 4 contentSize :=
    fill_toList (toBE_length 4 contentSize)
  have hpow : 256 ^ 4 = 2 ^ 32 := by decide
  rw [contentSizeAt, bytes, setContentSize]
  rw [hsize, append_assoc, ← hfront, drop_left, take_left' (toBE_length _ _), ofBE_toBE, hpow]

end MessageHeader

section

variable {M : Type} {payload : M → List UInt8} (assign : List UInt8 → M → M) (typeName : String)
variable {m target m' : M} {buffer : List UInt8}

section
variable (hlt : (payload m).length + MessageHeader.size < 2 ^ 31)
include hlt

theorem fullByteSize_payload :
    (payloadTraits payload assign typeName).fullByteSize m =
      (payload m).length + MessageHeader.size := by
  have hsize : (payloadTraits payload assign typeName).byteSize m = (payload m).length :=
    toInt32_of_lt (by omega)
  rw [Traits.fullByteSize, hsize, if_neg (by omega)]

theorem serializeToHC_payload (hfits : (payload m).length + MessageHeader.size ≤ buffer.length) :
    ∃ (h : MessageHeader) (rest : List UInt8),
      (payloadTraits payload assign typeName).serializeToHC m buffer buffer.length =
        (true, (h.setContentSize (payload m).length).bytes ++ (payload m ++ rest)) := by
  have hsize : toInt32 (payload m).length = (payload m).length := toInt32_of_lt (by omega)
  refine ⟨MessageHeader.new.setMsgType (bytesOf typeName),
    (buffer.drop MessageHeader.size).drop (payload m).length, ?_⟩
  simp only [Traits.serializeToHC, payloadTraits, hsize]
  grind

omit hlt in
theorem parseFromHC_payload (payload : M → List UInt8) (target : M) (h : MessageHeader)
    {bs : List UInt8} (rest : List UInt8) {size : Nat} (hlt : bs.length < 2 ^ 31)
    (hfits : bs.length + MessageHeader.size ≤ size) :
    (payloadTraits payload assign typeName).parseFromHC
        ((h.setContentSize bs.length).bytes ++ (bs ++ rest)) size target =
      if bs = [] then (false, target) else (true, assign bs target) := by
  have hcontent : MessageHeader.contentSizeAt ((h.setContentSize bs.length).bytes ++ (bs ++ rest)) =
      bs.length := by
    rw [MessageHeader.contentSizeAt_bytes, Nat.mod_eq_of_lt (by omega)]
  rw [Traits.parseFromHC, hcontent, if_neg (by omega), if_neg (by omega), toInt32_of_lt hlt,
    MessageHeader.drop_bytes]
  simp only [payloadTraits]
  by_cases hnil : bs = []
  · grind
  · have hpos : 0 < bs.length := length_pos_iff.2 hnil
    rw [if_neg hnil, if_neg (by omega), Int.toNat_natCast, take_left]

theorem roundTrip_payload (hfits : (payload m).length + MessageHeader.size ≤ buffer.length) :
    (payloadTraits payload assign typeName).RoundTrip m target m' buffer ↔
      payload m ≠ [] ∧ m' = assign (payload m) target := by
  obtain ⟨h, rest, hser⟩ := serializeToHC_payload assign typeName hlt hfits
  have hlen : (payload m).length < 2 ^ 31 := by omega
  have hparse := parseFromHC_payload assign typeName payload target h rest hlen hfits
  constructor
  · rintro ⟨buffer', hser', hparse'⟩
    grind
  · rintro ⟨hne, rfl⟩
    refine ⟨_, hser, ?_⟩
    rw [hparse, if_neg hne]

end

theorem not_roundTrip_large (hneg : toInt32 (payload m).length < 0) :
    ¬ (payloadTraits payload assign typeName).RoundTrip m target m' buffer := by
  rintro ⟨buffer', hser, -⟩
  have hsize : (payloadTraits payload assign typeName).byteSize m < 0 := hneg
  rw [Traits.serializeToHC] at hser
  grind

end

/-- **What comes back from a buffer of `FullByteSize` bytes or more**: the bytes of a message that
has some, with the other fields of the target. -/
theorem roundTrip_iff :
    (∀ (m target m' : RawMessage) (buffer : List UInt8),
      m.message.length + MessageHeader.size < 2 ^ 31 →
      RawMessage.traits.fullByteSize m ≤ buffer.length →
      (RawMessage.traits.RoundTrip m target m' buffer ↔
        m.message ≠ [] ∧ m' = { target with message := m.message })) ∧
    (∀ (m target m' : PyMessageWrap) (buffer : List UInt8),
      m.data.length + MessageHeader.size < 2 ^ 31 →
      PyMessageWrap.traits.fullByteSize m ≤ buffer.length →
      (PyMessageWrap.traits.RoundTrip m target m' buffer ↔
        m.data ≠ [] ∧ m' = { target with data := m.data })) := by
  constructor
  · intro m target m' buffer hlt hfull
    rw [RawMessage.traits, fullByteSize_payload _ _ hlt] at hfull
    exact roundTrip_payload _ _ hlt (by omega)
  · intro m target m' buffer hlt hfull
    rw [PyMessageWrap.traits, fullByteSize_payload _ _ hlt] at hfull
    exact roundTrip_payload _ _ hlt (by omega)

/-- An empty message does not come back, nor one of 2 GiB; a timestamp and the type name of a Python
message are not stored. -/
theorem not_roundTrip_empty_nor_fields :
    (¬ ∃ m', RawMessage.traits.RoundTrip ⟨[], 0⟩ ⟨[], 0⟩ m' (List.replicate 192 0)) ∧
    (¬ ∃ m', PyMessageWrap.traits.RoundTrip ⟨[], []⟩ ⟨[], []⟩ m' (List.replicate 192 0)) ∧
    ¬ RawMessage.traits.RoundTrip ⟨[1], 5⟩ ⟨[], 0⟩ ⟨[1], 5⟩ (List.replicate 193 0) ∧
    ¬ PyMessageWrap.traits.RoundTrip ⟨[1], [65]⟩ ⟨[], []⟩ ⟨[1], [65]⟩ (List.replicate 193 0) ∧
    ∀ m' buffer,
      ¬ RawMessage.traits.RoundTrip ⟨List.replicate (2 ^ 31) 0, 0⟩ ⟨[], 0⟩ m' buffer := by
  refine ⟨?_, ?_, ?_, ?_, ?_⟩
  · rintro ⟨m', h⟩
    exact ((roundTrip_payload _ _ (by decide) (by rw [length_replicate]; decide)).1 h).1 rfl
  · rintro ⟨m', h⟩
    exact ((roundTrip_payload _ _ (by decide) (by rw [length_replicate]; decide)).1 h).1 rfl
  · intro h
    have heq := ((roundTrip_payload _ _ (by decide) (by rw [length_replicate]; decide)).1 h).2
    cases heq
  · intro h
    have heq := ((roundTrip_payload _ _ (by decide) (by rw [length_replicate]; decide)).1 h).2
    cases heq
  · intro m' buffer
    apply not_roundTrip_large
    rw [length_replicate]
    decide

end Message
