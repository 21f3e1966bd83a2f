import MutexIM.Foundations.ProtoWire
import MutexIM.Codec.ProtobufCodec

/-!
# The messages of the message server

The message types the message server receives, sends and publishes, from `MessageChat.proto` and
`MessageServer.proto`, with the generated code's choice of fields: a field with its default value is
not written, fields are written in the order of their numbers, and the last occurrence of a singular
field counts when reading. Signed numbers are kept in two's complement.

`chatPool` is the pool of these types, as the codec uses it: reading undoes writing
(`ChatMsg.ofFields_fields`), and so every field of `Pool` holds.
-/

namespace MutexIM.Codec

open Bytes ProtoWire

/-! ## The message types -/

/-- `IMChat.shakeHandleReq`. -/
structure ShakeHandleReq where
  timestamp : UInt64
  userId : Bytes
  deriving DecidableEq

/-- `IMChat.shakeHandleRes`. -/
structure ShakeHandleRes where
  timestamp : UInt64
  result : UInt32
  deriving DecidableEq

/-- `IMChat.MsgData`. -/
structure MsgData where
  timestamp : UInt64
  sequenceNumber : UInt32
  fromId : Bytes
  toId : Bytes
  msgData : Bytes
  type : UInt32
  deriving DecidableEq

/-- `IMChat.UnreadMsgRequest`. -/
structure UnreadMsgRequest where
  userId : Bytes
  timestamp : UInt64
  deriving DecidableEq

/-- `IMChat.UnreadMsgResponse`. -/
structure UnreadMsgResponse where
  msgCount : UInt32
  timestamp : UInt64
  userId : Bytes
  msgData : List Bytes
  deriving DecidableEq

/-- `IMServer.serverGroupMsg`. -/
structure ServerGroupMsg where
  userId : List Bytes
  msgData : Bytes
  deriving DecidableEq

/-- The values of `MsgData_MSGTYPE`. -/
def chatText : UInt32 := 0
def chatAudio : UInt32 := 1
def groupchatText : UInt32 := 2
def groupchatAudio : UInt32 := 3

/-! ## Signed numbers -/

/-- An `int32` as a varint: negative numbers are extended to 64 bits. -/
def signExtend (n : UInt32) : ℕ := if n.toNat < 2 ^ 31 then n.toNat else n.toNat + (2 ^ 64 - 2 ^ 32)

/-- A `sint32` as a varint. -/
def zigZagEncode (n : UInt32) : ℕ :=
  if n.toNat < 2 ^ 31 then 2 * n.toNat else 2 * (2 ^ 32 - n.toNat) - 1

def zigZagDecode (n : ℕ) : UInt32 :=
  if n % 2 = 0 then UInt32.ofNat (n % 2 ^ 32 / 2) else UInt32.ofNat (2 ^ 32 - (n % 2 ^ 32 + 1) / 2)

theorem signExtend_lt (n : UInt32) : signExtend n < 2 ^ 64 := by
  have := n.toNat_lt
  unfold signExtend
  split <;> omega

theorem zigZagEncode_lt (n : UInt32) : zigZagEncode n < 2 ^ 64 := by
  have := n.toNat_lt
  unfold zigZagEncode
  split <;> omega

@[simp] theorem ofNat_signExtend (n : UInt32) : UInt32.ofNat (signExtend n) = n := by
  have := n.toNat_lt
  rw [← UInt32.toNat_inj, UInt32.toNat_ofNat']
  unfold signExtend
  split <;> omega

@[simp] theorem zigZagDecode_zigZagEncode (n : UInt32) : zigZagDecode (zigZagEncode n) = n := by
  have hn := n.toNat_lt
  rw [← UInt32.toNat_inj]
  unfold zigZagDecode zigZagEncode
  split
  · next h =>
    rw [if_pos (by omega), UInt32.toNat_ofNat']
    omega
  · next h =>
    rw [if_neg (by omega), UInt32.toNat_ofNat']
    omega

/-! ## Reading and writing -/

/-- The message types of the pool. -/
inductive ChatType
  | shakeHandleReq | shakeHandleRes | msgData | unreadMsgRequest | unreadMsgResponse
  | serverGroupMsg
  deriving DecidableEq

/-- The messages of the pool. -/
inductive ChatMsg
  | shakeHandleReq (m : ShakeHandleReq)
  | shakeHandleRes (m : ShakeHandleRes)
  | msgData (m : MsgData)
  | unreadMsgRequest (m : UnreadMsgRequest)
  | unreadMsgResponse (m : UnreadMsgResponse)
  | serverGroupMsg (m : ServerGroupMsg)
  deriving DecidableEq

namespace ChatType

def all : List ChatType :=
  [shakeHandleReq, shakeHandleRes, msgData, unreadMsgRequest, unreadMsgResponse, serverGroupMsg]

def typeName : ChatType → Bytes
  | shakeHandleReq => ascii "IMChat.shakeHandleReq"
  | shakeHandleRes => ascii "IMChat.shakeHandleRes"
  | msgData => ascii "IMChat.MsgData"
  | unreadMsgRequest => ascii "IMChat.UnreadMsgRequest"
  | unreadMsgResponse => ascii "IMChat.UnreadMsgResponse"
  | serverGroupMsg => ascii "IMServer.serverGroupMsg"

def find (t : Bytes) : Option ChatType := all.find? fun d => d.typeName = t

theorem find_typeName (d : ChatType) : find d.typeName = some d := by cases d <;> decide

theorem typeName_of_find {t : Bytes} {d : ChatType} (h : find t = some d) : d.typeName = t := by
  simpa using List.find?_some h

end ChatType

namespace ChatMsg

def type : ChatMsg → ChatType
  | shakeHandleReq _ => .shakeHandleReq
  | shakeHandleRes _ => .shakeHandleRes
  | msgData _ => .msgData
  | unreadMsgRequest _ => .unreadMsgRequest
  | unreadMsgResponse _ => .unreadMsgResponse
  | serverGroupMsg _ => .serverGroupMsg

/-- The fields that are written. -/
def fields : ChatMsg → List Field
  | shakeHandleReq m => putVarint 1 m.timestamp.toNat ++ putBytes 2 m.userId
  | shakeHandleRes m => putVarint 1 m.timestamp.toNat ++ putVarint 2 (zigZagEncode m.result)
  | msgData m =>
    putVarint 1 m.timestamp.toNat ++ putFixed32 2 m.sequenceNumber.toNat ++ putBytes 3 m.fromId ++
      putBytes 4 m.toId ++ putBytes 5 m.msgData ++ putVarint 6 (signExtend m.type)
  | unreadMsgRequest m => putBytes 1 m.userId ++ putVarint 2 m.timestamp.toNat
  | unreadMsgResponse m =>
    putVarint 1 (signExtend m.msgCount) ++ putVarint 2 m.timestamp.toNat ++ putBytes 3 m.userId ++
      putRepeated 4 m.msgData
  | serverGroupMsg m => putRepeated 1 m.userId ++ putBytes 2 m.msgData

/-- The message with the given fields. -/
def ofFields (d : ChatType) (fs : List Field) : ChatMsg :=
  match d with
  | .shakeHandleReq => shakeHandleReq
    { timestamp := UInt64.ofNat (lastOf 1 Value.varint? 0 fs)
      userId := lastOf 2 Value.bytes? [] fs }
  | .shakeHandleRes => shakeHandleRes
    { timestamp := UInt64.ofNat (lastOf 1 Value.varint? 0 fs)
      result := zigZagDecode (lastOf 2 Value.varint? 0 fs) }
  | .msgData => msgData
    { timestamp := UInt64.ofNat (lastOf 1 Value.varint? 0 fs)
      sequenceNumber := UInt32.ofNat (lastOf 2 Value.fixed32? 0 fs)
      fromId := lastOf 3 Value.bytes? [] fs
      toId := lastOf 4 Value.bytes? [] fs
      msgData := lastOf 5 Value.bytes? [] fs
      type := UInt32.ofNat (lastOf 6 Value.varint? 0 fs) }
  | .unreadMsgRequest => unreadMsgRequest
    { userId := lastOf 1 Value.bytes? [] fs
      timestamp := UInt64.ofNat (lastOf 2 Value.varint? 0 fs) }
  | .unreadMsgResponse => unreadMsgResponse
    { msgCount := UInt32.ofNat (lastOf 1 Value.varint? 0 fs)
      timestamp := UInt64.ofNat (lastOf 2 Value.varint? 0 fs)
      userId := lastOf 3 Value.bytes? [] fs
      msgData := occurrences 4 Value.bytes? fs }
  | .serverGroupMsg => serverGroupMsg
    { userId := occurrences 1 Value.bytes? fs
      msgData := lastOf 2 Value.bytes? [] fs }

@[simp] theorem type_ofFields (d : ChatType) (fs : List Field) : (ofFields d fs).type = d := by
  cases d <;> rfl

/-- **The fields of a message determine it.** -/
theorem ofFields_fields (m : ChatMsg) : ofFields m.type m.fields = m := by
  cases m <;> simp [type, fields, ofFields, lastOf]

theorem inRange_fields (m : ChatMsg) : ∀ f ∈ m.fields, f.InRange := by
  have hnum : ∀ n : ℕ, n < 6 → 0 < n + 1 ∧ n + 1 < 2 ^ 29 := by omega
  have ht : ∀ n : UInt64, n.toNat < 2 ^ 64 := fun n => n.toNat_lt
  have hs : ∀ n : UInt32, n.toNat < 2 ^ 32 := fun n => n.toNat_lt
  intro f hf
  cases m with
  | shakeHandleReq m =>
    rcases List.mem_append.1 hf with hf | hf
    · exact inRange_of_mem_putVarint (hnum 0 (by omega)) (ht _) hf
    · exact inRange_of_mem_putBytes (hnum 1 (by omega)) hf
  | shakeHandleRes m =>
    rcases List.mem_append.1 hf with hf | hf
    · exact inRange_of_mem_putVarint (hnum 0 (by omega)) (ht _) hf
    · exact inRange_of_mem_putVarint (hnum 1 (by omega)) (zigZagEncode_lt _) hf
  | msgData m =>
    simp only [fields, List.mem_append] at hf
    rcases hf with ((((hf | hf) | hf) | hf) | hf) | hf
    · exact inRange_of_mem_putVarint (hnum 0 (by omega)) (ht _) hf
    · exact inRange_of_mem_putFixed32 (hnum 1 (by omega)) (hs _) hf
    · exact inRange_of_mem_putBytes (hnum 2 (by omega)) hf
    · exact inRange_of_mem_putBytes (hnum 3 (by omega)) hf
    · exact inRange_of_mem_putBytes (hnum 4 (by omega)) hf
    · exact inRange_of_mem_putVarint (hnum 5 (by omega)) (signExtend_lt _) hf
  | unreadMsgRequest m =>
    rcases List.mem_append.1 hf with hf | hf
    · exact inRange_of_mem_putBytes (hnum 0 (by omega)) hf
    · exact inRange_of_mem_putVarint (hnum 1 (by omega)) (ht _) hf
  | unreadMsgResponse m =>
    simp only [fields, List.mem_append] at hf
    rcases hf with ((hf | hf) | hf) | hf
    · exact inRange_of_mem_putVarint (hnum 0 (by omega)) (signExtend_lt _) hf
    · exact inRange_of_mem_putVarint (hnum 1 (by omega)) (ht _) hf
    · exact inRange_of_mem_putBytes (hnum 2 (by omega)) hf
    · exact inRange_of_mem_putRepeated (hnum 3 (by omega)) hf
  | serverGroupMsg m =>
    rcases List.mem_append.1 hf with hf | hf
    · exact inRange_of_mem_putRepeated (hnum 0 (by omega)) hf
    · exact inRange_of_mem_putBytes (hnum 1 (by omega)) hf

/-- `SerializeAsString`. -/
def serialize (m : ChatMsg) : Bytes := encodeFields m.fields

/-- `ParseFromString` into a message of the type. -/
def parse (d : ChatType) (s : Bytes) : Option ChatMsg := (decodeFields s).map (ofFields d)

/-- A message protobuf can serialise. -/
def Fits (m : ChatMsg) : Prop := m.serialize.length < 2 ^ 31

instance (m : ChatMsg) : Decidable m.Fits := inferInstanceAs (Decidable (_ < _))

/-- **Parsing undoes serialising.** -/
theorem parse_serialize {m : ChatMsg} (h : m.Fits) : parse m.type m.serialize = some m := by
  rw [parse, serialize, decodeFields_encodeFields (valid_of_inRange h (inRange_fields m)),
    Option.map_some, ofFields_fields]

end ChatMsg

/-! ## The pool -/

/-- The pool of the message server. -/
def chatPool : Pool where
  Desc := ChatType
  Msg := { m : ChatMsg // m.Fits }
  descriptor m := m.1.type
  typeName := ChatType.typeName
  findMessageTypeByName := ChatType.find
  serialize m := m.1.serialize
  parseFromArray d s := (ChatMsg.parse d s).bind fun m => if h : m.Fits then some ⟨m, h⟩ else none
  find_typeName := ChatType.find_typeName
  typeName_of_find _ _ := ChatType.typeName_of_find
  parse_serialize m := by rw [ChatMsg.parse_serialize m.2, Option.bind_some, dif_pos m.2]
  descriptor_of_parse d s m h := by
    obtain ⟨m', hm', h⟩ := Option.bind_eq_some_iff.1 h
    obtain ⟨fs, -, rfl⟩ := Option.map_eq_some_iff.1 hm'
    split at h
    · obtain rfl := Option.some.inj h
      exact ChatMsg.type_ofFields d fs
    · cases h
  typeName_ne_nil d := by cases d <;> decide
  typeName_nulFree d := by cases d <;> decide
  length_typeName_lt d := by cases d <;> decide
  length_serialize_lt m := m.2

instance : DecidableEq chatPool.Msg := inferInstanceAs (DecidableEq { m : ChatMsg // m.Fits })

instance : DecidableEq chatPool.Desc := inferInstanceAs (DecidableEq ChatType)

end MutexIM.Codec
