import MutexIM.Codec.Messages
import MutexIM.Foundations.ProtoMessage

/-!
# The generated classes of the chat messages

What is generated for the message types: the parser with its shortcuts, the serialiser, `ByteSize` and
`MergeFrom`, one `MessageType` each.

* `ChatType.generated`, `ChatType.lawful`: the classes, and what is proved for each.
* `parse_generated`: the parsers with the shortcuts read what `ChatMsg.parse` reads.
* `Classes.pool` is the pool that a set of generated classes makes.
-/

namespace MutexIM.Codec

open Bytes ProtoWire

/-! ## Sizes -/

/-- `Int64Size`, with the tag, unless the field is not written. -/
def int64FieldSize (n : UInt64) : ℕ := if n ≠ 0 then 1 + varintSize n.toNat else 0

/-- `Int32Size` and `EnumSize`: a negative number takes ten bytes. -/
def int32Size (n : UInt32) : ℕ := if n.toNat < 2 ^ 31 then varintSize n.toNat else 10

def int32FieldSize (n : UInt32) : ℕ := if n ≠ 0 then 1 + int32Size n else 0

/-- `SInt32Size`. -/
def sint32FieldSize (n : UInt32) : ℕ := if n ≠ 0 then 1 + varintSize (zigZagEncode n) else 0

def fixed32FieldSize (n : UInt32) : ℕ := if n ≠ 0 then 1 + 4 else 0

/-- `StringSize` and `BytesSize`. -/
def stringFieldSize (s : Bytes) : ℕ := if 0 < s.length then 1 + stringSize s else 0

theorem toNat_eq_zero_iff (n : UInt32) : n.toNat = 0 ↔ n = 0 := by
  rw [← UInt32.toNat_inj, UInt32.toNat_zero]

theorem signExtend_eq_zero_iff (n : UInt32) : signExtend n = 0 ↔ n = 0 := by
  rw [← toNat_eq_zero_iff]
  unfold signExtend
  split <;> omega

theorem zigZagEncode_eq_zero_iff (n : UInt32) : zigZagEncode n = 0 ↔ n = 0 := by
  have := n.toNat_lt
  rw [← toNat_eq_zero_iff]
  unfold zigZagEncode
  split <;> omega

theorem varintSize_signExtend (n : UInt32) : varintSize (signExtend n) = int32Size n := by
  unfold signExtend int32Size
  split
  · rfl
  · -- from `2 ^ 63` on
    unfold varintSize
    repeat' split
    all_goals omega

@[simp] theorem zigZagDecode_zero : zigZagDecode 0 = 0 := rfl

section Length

variable {num : ℕ} (hnum : num < 16)
include hnum

@[simp] theorem length_int64 (n : UInt64) :
    (encodeFields (putVarint num n.toNat)).length = int64FieldSize n := by
  have hzero : n.toNat = 0 ↔ n = 0 := by rw [← UInt64.toNat_inj, UInt64.toNat_zero]
  rw [length_encodeFields_putVarint hnum, int64FieldSize, ite_not]
  simp only [hzero]

@[simp] theorem length_int32 (n : UInt32) :
    (encodeFields (putVarint num (signExtend n))).length = int32FieldSize n := by
  rw [length_encodeFields_putVarint hnum, int32FieldSize, ite_not, varintSize_signExtend]
  simp only [signExtend_eq_zero_iff]

@[simp] theorem length_sint32 (n : UInt32) :
    (encodeFields (putVarint num (zigZagEncode n))).length = sint32FieldSize n := by
  rw [length_encodeFields_putVarint hnum, sint32FieldSize, ite_not]
  simp only [zigZagEncode_eq_zero_iff]

@[simp] theorem length_fixed32 (n : UInt32) :
    (encodeFields (putFixed32 num n.toNat)).length = fixed32FieldSize n := by
  rw [length_encodeFields_putFixed32 hnum, fixed32FieldSize, ite_not]
  simp only [toNat_eq_zero_iff]

@[simp] theorem length_string (s : Bytes) :
    (encodeFields (putBytes num s)).length = stringFieldSize s :=
  length_encodeFields_putBytes hnum s

end Length

section Own

variable {D : List FieldDescriptor} (hD : WellFormed D) {num i : ℕ}
include hD

theorem own_int64 (hd : D[i]? = some (.varint num)) (n : UInt64) : ∀ f ∈ putVarint num n.toNat, Own D f :=
  own_putVarint hD hd n.toNat_lt

theorem own_int32 (hd : D[i]? = some (.varint num)) (n : UInt32) :
    ∀ f ∈ putVarint num (signExtend n), Own D f :=
  own_putVarint hD hd (signExtend_lt n)

theorem own_sint32 (hd : D[i]? = some (.varint num)) (n : UInt32) :
    ∀ f ∈ putVarint num (zigZagEncode n), Own D f :=
  own_putVarint hD hd (zigZagEncode_lt n)

theorem own_fixed32 (hd : D[i]? = some (.fixed32 num)) (n : UInt32) : ∀ f ∈ putFixed32 num n.toNat, Own D f :=
  own_putFixed32 hD hd n.toNat_lt

end Own

/-! ## Merging -/

/-- Set a number to another message's, unless that is zero. -/
def mergeNumber {β : Type} [DecidableEq β] [OfNat β 0] (old new : β) : β := if new ≠ 0 then new else old

/-- Set a string to another message's, unless that is empty. -/
def mergeString (old new : Bytes) : Bytes := if 0 < new.length then new else old

@[simp] theorem mergeNumber_zero {β : Type} [DecidableEq β] [OfNat β 0] (new : β) :
    mergeNumber 0 new = new := by
  unfold mergeNumber
  split
  · rfl
  · next h => exact (not_not.1 h).symm

@[simp] theorem mergeString_nil (new : Bytes) : mergeString [] new = new := by
  unfold mergeString
  split
  · rfl
  · next h => exact (List.length_eq_zero_iff.1 (by omega)).symm

/-! What setting a field last makes of it, in terms of the numbers that are written. -/

@[simp] theorem ofNat_int64 (n : UInt64) (k : ℕ) :
    UInt64.ofNat (if n.toNat = 0 then k else n.toNat) = mergeNumber (UInt64.ofNat k) n := by
  have hzero : n.toNat = 0 ↔ n = 0 := by rw [← UInt64.toNat_inj, UInt64.toNat_zero]
  rw [mergeNumber, apply_ite UInt64.ofNat, UInt64.ofNat_toNat, ite_not]
  simp only [hzero]

@[simp] theorem ofNat_int32 (n : UInt32) (k : ℕ) :
    UInt32.ofNat (if signExtend n = 0 then k else signExtend n) = mergeNumber (UInt32.ofNat k) n := by
  rw [mergeNumber, apply_ite UInt32.ofNat, ofNat_signExtend, ite_not]
  simp only [signExtend_eq_zero_iff]

@[simp] theorem zigZagDecode_sint32 (n : UInt32) (k : ℕ) :
    zigZagDecode (if zigZagEncode n = 0 then k else zigZagEncode n) = mergeNumber (zigZagDecode k) n := by
  rw [mergeNumber, apply_ite zigZagDecode, zigZagDecode_zigZagEncode, ite_not]
  simp only [zigZagEncode_eq_zero_iff]

@[simp] theorem ofNat_fixed32 (n : UInt32) (k : ℕ) :
    UInt32.ofNat (if n.toNat = 0 then k else n.toNat) = mergeNumber (UInt32.ofNat k) n := by
  rw [mergeNumber, apply_ite UInt32.ofNat, UInt32.ofNat_toNat, ite_not]
  simp only [toNat_eq_zero_iff]

@[simp] theorem ite_nil_eq (s t : Bytes) : (if s = [] then t else s) = mergeString t s := by
  simp only [mergeString, List.length_pos_iff, ite_not]

/-! ## The classes -/

/-- `IMChat::shakeHandleReq`. -/
def ShakeHandleReq.generated : MessageType ShakeHandleReq where
  descriptors := [.varint 1, .bytes 2]
  fields m := putVarint 1 m.timestamp.toNat ++ putBytes 2 m.userId
  ofFields fs :=
    { timestamp := UInt64.ofNat (lastOf 1 Value.varint? 0 fs)
      userId := lastOf 2 Value.bytes? [] fs }
  byteSize m := int64FieldSize m.timestamp + stringFieldSize m.userId
  mergeFrom m other :=
    { timestamp := mergeNumber m.timestamp other.timestamp
      userId := mergeString m.userId other.userId }

/-- `IMChat::shakeHandleRes`. -/
def ShakeHandleRes.generated : MessageType ShakeHandleRes where
  descriptors := [.varint 1, .varint 2]
  fields m := putVarint 1 m.timestamp.toNat ++ putVarint 2 (zigZagEncode m.result)
  ofFields fs :=
    { timestamp := UInt64.ofNat (lastOf 1 Value.varint? 0 fs)
      result := zigZagDecode (lastOf 2 Value.varint? 0 fs) }
  byteSize m := int64FieldSize m.timestamp + sint32FieldSize m.result
  mergeFrom m other :=
    { timestamp := mergeNumber m.timestamp other.timestamp
      result := mergeNumber m.result other.result }

/-- `IMChat::MsgData`. -/
def MsgData.generated : MessageType MsgData where
  descriptors := [.varint 1, .fixed32 2, .bytes 3, .bytes 4, .bytes 5, .varint 6]
  fields m :=
    putVarint 1 m.timestamp.toNat ++ putFixed32 2 m.sequenceNumber.toNat ++ putBytes 3 m.fromId ++
      putBytes 4 m.toId ++ putBytes 5 m.msgData ++ putVarint 6 (signExtend m.type)
  ofFields fs :=
    { timestamp := UInt64.ofNat (lastOf 1 Value.varint? 0 fs)
      sequenceNumber := UInt32.ofNat (lastOf 2 Value.fixed32? 0 fs)
      fromId := lastOf 3 Value.bytes? [] fs
      toId := lastOf 4 Value.bytes? [] fs
      msgData := lastOf 5 Value.bytes? [] fs
      type := UInt32.ofNat (lastOf 6 Value.varint? 0 fs) }
  byteSize m :=
    int64FieldSize m.timestamp + fixed32FieldSize m.sequenceNumber + stringFieldSize m.fromId +
      stringFieldSize m.toId + stringFieldSize m.msgData + int32FieldSize m.type
  mergeFrom m other :=
    { timestamp := mergeNumber m.timestamp other.timestamp
      sequenceNumber := mergeNumber m.sequenceNumber other.sequenceNumber
      fromId := mergeString m.fromId other.fromId
      toId := mergeString m.toId other.toId
      msgData := mergeString m.msgData other.msgData
      type := mergeNumber m.type other.type }

/-- `IMChat::UnreadMsgRequest`. -/
def UnreadMsgRequest.generated : MessageType UnreadMsgRequest where
  descriptors := [.bytes 1, .varint 2]
  fields m := putBytes 1 m.userId ++ putVarint 2 m.timestamp.toNat
  ofFields fs :=
    { userId := lastOf 1 Value.bytes? [] fs
      timestamp := UInt64.ofNat (lastOf 2 Value.varint? 0 fs) }
  byteSize m := stringFieldSize m.userId + int64FieldSize m.timestamp
  mergeFrom m other :=
    { userId := mergeString m.userId other.userId
      timestamp := mergeNumber m.timestamp other.timestamp }

/-- `IMChat::UnreadMsgResponse`. -/
def UnreadMsgResponse.generated : MessageType UnreadMsgResponse where
  descriptors := [.varint 1, .varint 2, .bytes 3, .repeatedBytes 4]
  fields m :=
    putVarint 1 (signExtend m.msgCount) ++ putVarint 2 m.timestamp.toNat ++ putBytes 3 m.userId ++
      putRepeated 4 m.msgData
  ofFields fs :=
    { msgCount := UInt32.ofNat (lastOf 1 Value.varint? 0 fs)
      timestamp := UInt64.ofNat (lastOf 2 Value.varint? 0 fs)
      userId := lastOf 3 Value.bytes? [] fs
      msgData := occurrences 4 Value.bytes? fs }
  byteSize m :=
    int32FieldSize m.msgCount + int64FieldSize m.timestamp + stringFieldSize m.userId +
      repeatedSize stringSize m.msgData
  mergeFrom m other :=
    { msgData := m.msgData ++ other.msgData
      msgCount := mergeNumber m.msgCount other.msgCount
      timestamp := mergeNumber m.timestamp other.timestamp
      userId := mergeString m.userId other.userId }

/-- `IMServer::serverGroupMsg`. -/
def ServerGroupMsg.generated : MessageType ServerGroupMsg where
  descriptors := [.repeatedBytes 1, .bytes 2]
  fields m := putRepeated 1 m.userId ++ putBytes 2 m.msgData
  ofFields fs :=
    { userId := occurrences 1 Value.bytes? fs
      msgData := lastOf 2 Value.bytes? [] fs }
  byteSize m := stringFieldSize m.msgData + repeatedSize stringSize m.userId
  mergeFrom m other :=
    { userId := m.userId ++ other.userId
      msgData := mergeString m.msgData other.msgData }

/-! ## What holds of each -/

theorem ShakeHandleReq.lawful : ShakeHandleReq.generated.Lawful where
  wellFormed := by decide
  own m _ := by
    have hD : WellFormed ShakeHandleReq.generated.descriptors := by decide
    simp only [generated, List.forall_mem_append]
    exact ⟨own_int64 hD (i := 0) rfl _, own_putBytes hD (i := 1) rfl _⟩
  ofFields_stored fs gs h := by
    simp only [generated, lastOf_varint_stored h (i := 0) rfl, lastOf_bytes_stored h (i := 1) rfl]
  ofFields_append fs m _ := by simp [generated, lastOf_append]
  mergeFrom_new m := by simp [generated, MessageType.new, lastOf, occurrences]
  byteSize_eq m := by simp [MessageType.serialize, generated]

theorem ShakeHandleRes.lawful : ShakeHandleRes.generated.Lawful where
  wellFormed := by decide
  own m _ := by
    have hD : WellFormed ShakeHandleRes.generated.descriptors := by decide
    simp only [generated, List.forall_mem_append]
    exact ⟨own_int64 hD (i := 0) rfl _, own_sint32 hD (i := 1) rfl _⟩
  ofFields_stored fs gs h := by
    simp only [generated, lastOf_varint_stored h (i := 0) rfl, lastOf_varint_stored h (i := 1) rfl]
  ofFields_append fs m _ := by simp [generated, lastOf_append]
  mergeFrom_new m := by simp [generated, MessageType.new, lastOf, occurrences]
  byteSize_eq m := by simp [MessageType.serialize, generated]

theorem MsgData.lawful : MsgData.generated.Lawful where
  wellFormed := by decide
  own m _ := by
    have hD : WellFormed MsgData.generated.descriptors := by decide
    simp only [generated, List.forall_mem_append]
    exact ⟨⟨⟨⟨⟨own_int64 hD (i := 0) rfl _, own_fixed32 hD (i := 1) rfl _⟩,
      own_putBytes hD (i := 2) rfl _⟩, own_putBytes hD (i := 3) rfl _⟩,
      own_putBytes hD (i := 4) rfl _⟩, own_int32 hD (i := 5) rfl _⟩
  ofFields_stored fs gs h := by
    simp only [generated, lastOf_varint_stored h (i := 0) rfl,
      lastOf_fixed32_stored h (i := 1) rfl, lastOf_bytes_stored h (i := 2) rfl,
      lastOf_bytes_stored h (i := 3) rfl, lastOf_bytes_stored h (i := 4) rfl,
      lastOf_varint_stored h (i := 5) rfl]
  ofFields_append fs m _ := by simp [generated, lastOf_append]
  mergeFrom_new m := by simp [generated, MessageType.new, lastOf, occurrences]
  byteSize_eq m := by simp [MessageType.serialize, generated, Nat.add_assoc]

theorem UnreadMsgRequest.lawful : UnreadMsgRequest.generated.Lawful where
  wellFormed := by decide
  own m _ := by
    have hD : WellFormed UnreadMsgRequest.generated.descriptors := by decide
    simp only [generated, List.forall_mem_append]
    exact ⟨own_putBytes hD (i := 0) rfl _, own_int64 hD (i := 1) rfl _⟩
  ofFields_stored fs gs h := by
    simp only [generated, lastOf_bytes_stored h (i := 0) rfl, lastOf_varint_stored h (i := 1) rfl]
  ofFields_append fs m _ := by simp [generated, lastOf_append]
  mergeFrom_new m := by simp [generated, MessageType.new, lastOf, occurrences]
  byteSize_eq m := by simp [MessageType.serialize, generated]

theorem UnreadMsgResponse.lawful : UnreadMsgResponse.generated.Lawful where
  wellFormed := by decide
  own m _ := by
    have hD : WellFormed UnreadMsgResponse.generated.descriptors := by decide
    simp only [generated, List.forall_mem_append]
    exact ⟨⟨⟨own_int32 hD (i := 0) rfl _, own_int64 hD (i := 1) rfl _⟩,
      own_putBytes hD (i := 2) rfl _⟩, own_putRepeated hD (i := 3) rfl _⟩
  ofFields_stored fs gs h := by
    simp only [generated, lastOf_varint_stored h (i := 0) rfl, lastOf_varint_stored h (i := 1) rfl,
      lastOf_bytes_stored h (i := 2) rfl, occurrences_bytes_stored h (i := 3) rfl]
  ofFields_append fs m _ := by simp [generated, lastOf_append]
  mergeFrom_new m := by simp [generated, MessageType.new, lastOf, occurrences]
  byteSize_eq m := by simp [MessageType.serialize, generated, length_encodeFields_putRepeated, Nat.add_assoc]

theorem ServerGroupMsg.lawful : ServerGroupMsg.generated.Lawful where
  wellFormed := by decide
  own m _ := by
    have hD : WellFormed ServerGroupMsg.generated.descriptors := by decide
    simp only [generated, List.forall_mem_append]
    exact ⟨own_putRepeated hD (i := 0) rfl _, own_putBytes hD (i := 1) rfl _⟩
  ofFields_stored fs gs h := by
    simp only [generated, occurrences_bytes_stored h (i := 0) rfl,
      lastOf_bytes_stored h (i := 1) rfl]
  ofFields_append fs m _ := by simp [generated, lastOf_append]
  mergeFrom_new m := by simp [generated, MessageType.new, lastOf, occurrences]
  byteSize_eq m := by simp [MessageType.serialize, generated, length_encodeFields_putRepeated, Nat.add_comm]

namespace ChatType

/-- The messages of a type. -/
def Message : ChatType → Type
  | shakeHandleReq => ShakeHandleReq
  | shakeHandleRes => ShakeHandleRes
  | msgData => MsgData
  | unreadMsgRequest => UnreadMsgRequest
  | unreadMsgResponse => UnreadMsgResponse
  | serverGroupMsg => ServerGroupMsg

/-- The class of a type. -/
def generated : (d : ChatType) → MessageType d.Message
  | shakeHandleReq => ShakeHandleReq.generated
  | shakeHandleRes => ShakeHandleRes.generated
  | msgData => MsgData.generated
  | unreadMsgRequest => UnreadMsgRequest.generated
  | unreadMsgResponse => UnreadMsgResponse.generated
  | serverGroupMsg => ServerGroupMsg.generated

theorem lawful : (d : ChatType) → d.generated.Lawful
  | shakeHandleReq => ShakeHandleReq.lawful
  | shakeHandleRes => ShakeHandleRes.lawful
  | msgData => MsgData.lawful
  | unreadMsgRequest => UnreadMsgRequest.lawful
  | unreadMsgResponse => UnreadMsgResponse.lawful
  | serverGroupMsg => ServerGroupMsg.lawful

def toChatMsg : (d : ChatType) → d.Message → ChatMsg
  | shakeHandleReq => .shakeHandleReq
  | shakeHandleRes => .shakeHandleRes
  | msgData => .msgData
  | unreadMsgRequest => .unreadMsgRequest
  | unreadMsgResponse => .unreadMsgResponse
  | serverGroupMsg => .serverGroupMsg

theorem serialize_toChatMsg (d : ChatType) (m : d.Message) :
    (d.toChatMsg m).serialize = d.generated.serialize m := by
  cases d <;> rfl

theorem toChatMsg_ofFields (d : ChatType) (fs : List Field) :
    d.toChatMsg (d.generated.ofFields fs) = ChatMsg.ofFields d fs := by
  cases d <;> rfl

/-- No chat message has another one in it. -/
theorem embeddedIn_descriptors (d : ChatType) : embeddedIn d.generated.descriptors = [] := by
  cases d <;> rfl

/-- No field of a chat message is refused. -/
theorem accepts (d : ChatType) : ∀ e ∈ d.generated.descriptors, ∀ v, e.accepts v = true := by
  cases d <;> simp [generated, ShakeHandleReq.generated, ShakeHandleRes.generated, MsgData.generated,
    UnreadMsgRequest.generated, UnreadMsgResponse.generated, ServerGroupMsg.generated]

end ChatType

/-- **The generated parsers read what `ChatMsg.parse` reads**, whatever the input: the shortcuts from a
field to the next, and skipping the fields that a type does not have, make no difference. -/
theorem parse_generated (d : ChatType) (s : Bytes) :
    (d.generated.parse 100 s).map d.toChatMsg = ChatMsg.parse d s := by
  ext m
  rw [Option.map_eq_some_iff, ChatMsg.parse, Option.map_eq_some_iff, decodeFields_eq]
  simp only [d.lawful.parse_eq_some_iff, d.embeddedIn_descriptors, ← d.toChatMsg_ofFields]
  constructor
  · rintro ⟨-, ⟨fs, hfs, -, rfl⟩, rfl⟩
    exact ⟨fs, hfs, rfl⟩
  · rintro ⟨fs, hfs, rfl⟩
    exact ⟨_, ⟨fs, hfs, fun f _ e he _ => d.accepts e he f.value, rfl⟩, rfl⟩

/-! ## The pool -/

/-- Generated classes, and the names under which they are found. -/
structure Classes where
  Desc : Type
  Message : Desc → Type
  generated : (d : Desc) → MessageType (Message d)
  lawful : ∀ d, (generated d).Lawful
  typeName : Desc → Bytes
  find : Bytes → Option Desc
  find_typeName : ∀ d, find (typeName d) = some d
  typeName_of_find : ∀ t d, find t = some d → typeName d = t
  typeName_ne_nil : ∀ d, typeName d ≠ []
  typeName_nulFree : ∀ d, NulFree (typeName d)
  length_typeName_lt : ∀ d, (typeName d).length + 5 < 2 ^ 31

/-- The pool of some generated classes, with the messages that can be serialised. -/
def Classes.pool (C : Classes) : Pool where
  Desc := C.Desc
  Msg := (d : C.Desc) × { m : C.Message d // (C.generated d).Fits m }
  descriptor m := m.1
  typeName := C.typeName
  findMessageTypeByName := C.find
  serialize m := (C.generated m.1).serialize m.2.1
  parseFromArray d s := ((C.generated d).parse 100 s).bind fun m =>
    if h : (C.generated d).Fits m then some ⟨d, m, h⟩ else none
  find_typeName := C.find_typeName
  typeName_of_find := C.typeName_of_find
  parse_serialize m := by
    rw [(C.lawful m.1).parse_serialize m.2.2, Option.bind_some, dif_pos m.2.2]
  descriptor_of_parse d s m h := by
    obtain ⟨m', -, h⟩ := Option.bind_eq_some_iff.1 h
    split at h
    · obtain rfl := Option.some.inj h
      rfl
    · cases h
  typeName_ne_nil := C.typeName_ne_nil
  typeName_nulFree := C.typeName_nulFree
  length_typeName_lt := C.length_typeName_lt
  length_serialize_lt m := m.2.2

end MutexIM.Codec
