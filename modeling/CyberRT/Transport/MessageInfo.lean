import CyberRT.Lib.Bytes

/-!
# `Identity` and `MessageInfo` (`transport/common/identity.h`, `transport/message/message_info.h`)

The buffer encoder `serializeTo` writes the sender id, the channel id, the sequence number, the
spare id and the send time one after the other, 40 bytes, and wants a buffer of `kSize` bytes;
`kSize` is 44, four bytes more than the fields take.
-/

namespace Transport

open Lib

def idSize : Nat := 8

structure Identity where
  data : Vector UInt8 idSize
  hashValue : UInt64
  deriving DecidableEq

structure MessageInfo where
  senderId : Identity
  channelId : UInt64
  seqNum : UInt64
  spareId : Identity
  sendTime : UInt64
  deriving DecidableEq

/-- What the copy constructor and `operator=` of `MessageInfo` take over and `operator==` compares:
every field but `send_time_`. -/
structure CopiedInfo where
  senderId : Identity
  channelId : UInt64
  seqNum : UInt64
  spareId : Identity
  deriving DecidableEq

def Identity.setData (hash : List UInt8 → UInt64) (d : Vector UInt8 idSize) : Identity :=
  ⟨d, hash d.toList⟩

def takeId (bs : List UInt8) : Vector UInt8 idSize := Vector.ofFn fun i => bs.getD i 0

def takeU64 (bs : List UInt8) : UInt64 := UInt64.ofNat (ofLE (bs.take 8))

namespace MessageInfo

variable (m : MessageInfo)

def copied : CopiedInfo := ⟨m.senderId, m.channelId, m.seqNum, m.spareId⟩

/-- `MessageInfo(another)`, constructed where the memory of `send_time_` holds `stale`: the copy
constructor leaves it as it is. -/
def copy (stale : UInt64) (another : MessageInfo) : MessageInfo :=
  { another with sendTime := stale }

def kSize : Nat := 2 * idSize + 8 + 8 + 4 + 8

def fieldSize : Nat := idSize + 8 + 8 + idSize + 8

def bytes : List UInt8 :=
  m.senderId.data.toList ++ toLE 8 m.channelId.toNat ++ toLE 8 m.seqNum.toNat ++
    m.spareId.data.toList ++ toLE 8 m.sendTime.toNat

def serializeTo (len : Nat) : Option (List UInt8) :=
  if len < kSize then none else some m.bytes

def deserializeFrom (hash : List UInt8 → UInt64) (src : List UInt8) (len : Nat) :
    Option MessageInfo :=
  if len ≠ kSize then none
  else some
    { senderId := .setData hash (takeId src)
      channelId := takeU64 (src.drop 8)
      seqNum := takeU64 (src.drop 16)
      spareId := .setData hash (takeId (src.drop 24))
      sendTime := takeU64 (src.drop 32) }

def serializeToString : List UInt8 :=
  let dst := m.senderId.data.toList
  let dst := dst ++ toLE 8 m.channelId.toNat
  let dst := dst ++ toLE 8 m.seqNum.toNat
  let dst := dst ++ m.spareId.data.toList
  dst ++ toLE 8 m.sendTime.toNat

def serializeToBuffer (dst : List UInt8) (len : Nat) : Bool × List UInt8 :=
  match m.serializeTo len with
  | none => (false, dst)
  | some bs => (true, bs ++ dst.drop bs.length)

def deserialize (hash : List UInt8 → UInt64) (obj : MessageInfo) (src : List UInt8) (len : Nat) :
    Bool × MessageInfo :=
  match deserializeFrom hash src len with
  | none => (false, obj)
  | some m => (true, m)

def deserializeString (hash : List UInt8 → UInt64) (obj : MessageInfo) (src : List UInt8) :
    Bool × MessageInfo := obj.deserialize hash src src.length

def rehash (hash : List UInt8 → UInt64) (m : MessageInfo) : MessageInfo :=
  { m with senderId := .setData hash m.senderId.data, spareId := .setData hash m.spareId.data }

@[simp] theorem bytes_length : m.bytes.length = fieldSize := by
  simp only [bytes, List.length_append, toLE_length, Vector.length_toList]
  rfl

end MessageInfo

theorem takeId_append (d : Vector UInt8 idSize) (bs : List UInt8) :
    takeId (d.toList ++ bs) = d := by
  apply Vector.ext
  intro i hi
  simp only [takeId, Vector.getElem_ofFn, List.getD_eq_getElem?_getD]
  rw [List.getElem?_append_left (by simpa using hi)]
  simp [hi]

theorem takeU64_append (x : UInt64) (bs : List UInt8) : takeU64 (toLE 8 x.toNat ++ bs) = x := by
  rw [takeU64, List.take_append_of_le_length (by simp), List.take_of_length_le (by simp),
    ofNat_ofLE_toLE]

theorem drop_append_length {α : Type*} {n : Nat} {as bs : List α} (h : as.length = n) (k : Nat) :
    (as ++ bs).drop (n + k) = bs.drop k := by
  subst h; simp [List.drop_append]

/-- **Decoding what was encoded** gives the message info back, up to the recomputed id hashes. -/
theorem MessageInfo.deserializeFrom_bytes (hash : List UInt8 → UInt64) (m : MessageInfo)
    (bs : List UInt8) : deserializeFrom hash (m.bytes ++ bs) kSize = some (m.rehash hash) := by
  have hid : ∀ d : Vector UInt8 idSize, d.toList.length = 8 := fun d => Vector.length_toList
  have hle : ∀ x : UInt64, (toLE 8 x.toNat).length = 8 := fun x => by simp
  have h1 : (m.bytes ++ bs).drop 8 = toLE 8 m.channelId.toNat ++ (toLE 8 m.seqNum.toNat ++
      (m.spareId.data.toList ++ (toLE 8 m.sendTime.toNat ++ bs))) := by
    simp only [bytes, List.append_assoc]
    exact drop_append_length (hid _) 0
  have h2 : (m.bytes ++ bs).drop 16 = toLE 8 m.seqNum.toNat ++
      (m.spareId.data.toList ++ (toLE 8 m.sendTime.toNat ++ bs)) := by
    rw [show 16 = 8 + 8 from rfl, ← List.drop_drop, h1]
    exact drop_append_length (hle _) 0
  have h3 : (m.bytes ++ bs).drop 24 = m.spareId.data.toList ++ (toLE 8 m.sendTime.toNat ++ bs) := by
    rw [show 24 = 16 + 8 from rfl, ← List.drop_drop, h2]
    exact drop_append_length (hle _) 0
  have h4 : (m.bytes ++ bs).drop 32 = toLE 8 m.sendTime.toNat ++ bs := by
    rw [show 32 = 24 + 8 from rfl, ← List.drop_drop, h3]
    exact drop_append_length (hid _) 0
  have h0 : takeId (m.bytes ++ bs) = m.senderId.data := by
    simp only [bytes, List.append_assoc]
    exact takeId_append _ _
  simp only [deserializeFrom, ne_eq, not_true_eq_false, if_false, h0, h1, h2, h3, h4,
    takeId_append, takeU64_append, rehash]

/-!
## Equal identities and their hashes (`transport/common/identity.cc`)

`hash_value_` is computed by `Update`. `Identity(false)` does not call it: its bytes are zero and so
is its hash, whatever the hash of eight zero bytes is.
-/

/-- `i` and `rhs` number the objects in the order of their construction. -/
inductive IdentityEvent where
  | construct (needGenerate : Bool) (uuid : Vector UInt8 16)
  | copy (rhs : Nat)
  | assign (i rhs : Nat)
  | setData (i : Nat) (data : Option (Vector UInt8 idSize))

namespace Identity

variable (hash : List UInt8 → UInt64)

def blank : Identity := ⟨Vector.replicate idSize 0, 0⟩

/-- `Identity(need_generate)`, with the bytes that `uuid_generate` gives. -/
def construct (needGenerate : Bool) (uuid : Vector UInt8 16) : Identity :=
  if needGenerate then setData hash (takeId uuid.toList) else blank

def operatorEq (a rhs : Identity) : Bool := a.data == rhs.data

def step (s : List Identity) : IdentityEvent → List Identity
  | .construct needGenerate uuid => s ++ [construct hash needGenerate uuid]
  | .copy rhs => s ++ s[rhs]?.toList
  | .assign i rhs => if i = rhs then s else (s[rhs]?.map (s.set i)).getD s
  | .setData _ none => s
  | .setData i (some data) => s.set i (setData hash data)

end Identity

end Transport
