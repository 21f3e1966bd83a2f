import MutexIM.Foundations.Adler32
import MutexIM.Codec.MyBuffer

/-!
# The codec

`ProtobufCodec` puts a protobuf message into a frame and takes it out again. Protobuf itself is the
parameter `Pool`: the message types a program is linked with, with their serialisation.

* `encode` builds the frame in a `MyBuffer`; `encode_spec`: its readable bytes are `frame`.
* `decode` checks the checksum, the name length, the type name and the payload; it is the null
  pointer, here `none`, when one of the checks fails. `onMessage` checks the length field and calls
  the message callback with what `decode` returned.
* `onMessage_eq_some_some_iff`: the strings from which a message is handed on are the frames, up to
  the byte behind the type name and the last two bytes, which are not looked at.
* `encode_onMessage`: a message's own frame hands it on when the length field is in range.
-/

namespace MutexIM.Codec

open Bytes Adler32

/-! ## Protobuf -/

/-- The generated pool of a program: its message types, their messages, and what the program relies
on. A serialised message has less than `2 ^ 31` bytes, and a type name fits next to it into 32 bits.
-/
structure Pool where
  /-- The descriptors of the message types. -/
  Desc : Type
  /-- The messages of all types. -/
  Msg : Type
  /-- `GetDescriptor()`. -/
  descriptor : Msg → Desc
  /-- `full_name()`, which `GetTypeName()` returns for a message. -/
  typeName : Desc → Bytes
  /-- `FindMessageTypeByName`. -/
  findMessageTypeByName : Bytes → Option Desc
  /-- `SerializeWithCachedSizesToArray`. -/
  serialize : Msg → Bytes
  /-- `ParseFromArray` into a new message of the type. -/
  parseFromArray : Desc → Bytes → Option Msg
  find_typeName : ∀ d, findMessageTypeByName (typeName d) = some d
  typeName_of_find : ∀ t d, findMessageTypeByName t = some d → typeName d = t
  parse_serialize : ∀ m, parseFromArray (descriptor m) (serialize m) = some m
  descriptor_of_parse : ∀ d s m, parseFromArray d s = some m → descriptor m = d
  typeName_ne_nil : ∀ d, typeName d ≠ []
  typeName_nulFree : ∀ d, NulFree (typeName d)
  length_typeName_lt : ∀ d, (typeName d).length + 5 < 2 ^ 31
  length_serialize_lt : ∀ m, (serialize m).length < 2 ^ 31

/-- The name of a message's type. -/
def Pool.getTypeName (P : Pool) (m : P.Msg) : Bytes := P.typeName (P.descriptor m)

/-! ## The frame format -/

/-- CR LF. -/
def crlf : Bytes := [13, 10]

/-- The checksummed part of a frame, with `c` behind the type name. -/
def bodyWith (c : UInt8) (t p : Bytes) : Bytes := be32 (t.length + 1) ++ (t ++ c :: p)

/-- A frame with `c` behind the type name and `e` behind the checksum. -/
def frameWith (c : UInt8) (e t p : Bytes) : Bytes :=
  be32 (t.length + p.length + 9) ++ (bodyWith c t p ++ (be32 (adler32 1 (bodyWith c t p)) ++ e))

/-- The frame of a message of type `t` with serialised bytes `p`: length, name length, name, a zero
byte, payload, checksum, delimiter. -/
def frame (t p : Bytes) : Bytes := frameWith 0 crlf t p

@[simp] theorem length_bodyWith (c : UInt8) (t p : Bytes) :
    (bodyWith c t p).length = t.length + p.length + 5 := by
  simp only [bodyWith, List.length_append, length_be32, List.length_cons]
  omega

@[simp] theorem length_frameWith (c : UInt8) (e t p : Bytes) :
    (frameWith c e t p).length = t.length + p.length + 13 + e.length := by
  simp only [frameWith, List.length_append, length_be32, length_bodyWith]
  omega

/-! ## The member functions -/

def kHeaderLen : ℕ := 4
def kMinMessageLen : ℕ := 2 * kHeaderLen + 2
def kMaxMessageLen : ℕ := 64 * 1024 * 1024

/-- Unsigned 32-bit subtraction. -/
def sub32 (a b : ℕ) : ℕ := (a + (2 ^ 32 - b % 2 ^ 32)) % 2 ^ 32

/-- Subtraction of two sizes below `2 ^ bits`, the width of `size_t`. -/
def subSize (bits a b : ℕ) : ℕ := if b ≤ a then a - b else 2 ^ bits - (b - a)

/-- `ProtobufCodec::Encode`. A `size_t` has 32 bits, so that the cast of the name length to `int32_t`
and back is the length modulo `2 ^ 32`. -/
def encode (P : Pool) (m : P.Msg) : Option MyBuffer := do
  let b ← MyBuffer.new MyBuffer.kInitialSize
  guard (b.readableBytes = 0)
  let typeName := P.getTypeName m
  let nameLen := (typeName.length + 1) % 2 ^ 32
  let b ← b.appendUint32 nameLen
  let b ← b.append ((typeName ++ [0]).take nameLen)
  let byteSize := (P.serialize m).length
  let b ← b.ensureWritableBytes byteSize
  let b ← (b.writeAtBeginWrite (P.serialize m)).commit byteSize
  let checkSum := adler32 1 b.readable
  let b ← b.appendUint32 checkSum
  guard (b.readableBytes = 4 + nameLen + byteSize + 4)
  let b ← b.prepend (be32 b.readableBytes)
  b.append crlf

/-- `ProtobufCodec::PeekUInt32`. -/
def peekUInt32 (buf : Bytes) : ℕ := peek32 buf

/-- `ProtobufCodec::IsCorrect` on the `len` bytes at `buf`. -/
def isCorrect (buf : Bytes) (len : ℕ) : Bool :=
  peekUInt32 (buf.drop (len - kHeaderLen)) = adler32 1 (buf.take (len - kHeaderLen))

/-- `ProtobufCodec::Decode` on the `len` bytes at `buf`. -/
def decode (P : Pool) (buf : Bytes) (len : ℕ) : Option P.Msg :=
  if isCorrect buf len then
    let nameLen := peekUInt32 buf
    if 2 ≤ nameLen ∧ nameLen ≤ sub32 len (2 * kHeaderLen) then
      let typeName := (buf.drop kHeaderLen).take (nameLen - 1)
      match P.findMessageTypeByName typeName with
      | some d =>
        let data := buf.drop (kHeaderLen + nameLen)
        let dataLen := sub32 (sub32 len nameLen) (2 * kHeaderLen)
        P.parseFromArray d (data.take dataLen)
      -- unknown message type
      | none => none
    -- invalid name length
    else none
  -- checksum error
  else none

/-- `ProtobufCodec::onMessage` after the length field was read as `len`: `none` when the callback is
not called, `some ptr` when it is called with `ptr`. -/
def onMessageWith (bits : ℕ) (P : Pool) (len : ℕ) (strmessage : Bytes) : Option (Option P.Msg) :=
  if kMinMessageLen < len ∧ len < kMaxMessageLen then
    if len = subSize bits strmessage.length (kHeaderLen + 2) then
      some (decode P (strmessage.drop kHeaderLen) len)
    else none
  else none

/-- `ProtobufCodec::onMessage`. -/
def onMessage (P : Pool) (strmessage : Bytes) : Option (Option P.Msg) :=
  onMessageWith 32 P (peekUInt32 strmessage) strmessage

/-! ## Encoding -/

/-- **The frame `encode` builds.** -/
theorem encode_spec (P : Pool) (m : P.Msg) :
    ∃ b, encode P m = some b ∧ b.readable = frame (P.getTypeName m) (P.serialize m) := by
  set t := P.getTypeName m with ht
  set p := P.serialize m with hp
  have hlen : t.length + 5 < 2 ^ 31 := P.length_typeName_lt _
  have hmod : (t.length + 1) % 2 ^ 32 = t.length + 1 := Nat.mod_eq_of_lt (by omega)
  obtain ⟨b₀, h₀, inv₀, read₀, idx₀⟩ := MyBuffer.new_spec MyBuffer.kInitialSize
  have size₀ : b₀.readableBytes = 0 := by rw [← MyBuffer.length_readable inv₀, read₀]; rfl
  obtain ⟨b₁, h₁, inv₁, read₁, idx₁⟩ := MyBuffer.append_spec inv₀ (be32 (t.length + 1))
  obtain ⟨b₂, h₂, inv₂, read₂, idx₂⟩ := MyBuffer.append_spec inv₁ (t ++ [0])
  obtain ⟨b₃, h₃, inv₃, read₃, space₃, idx₃⟩ := MyBuffer.ensureWritableBytes_spec inv₂ p.length
  obtain ⟨b₄, h₄, inv₄, read₄, idx₄⟩ := MyBuffer.commit_spec inv₃ space₃
  have hbody : b₄.readable = bodyWith 0 t p := by
    rw [read₄, read₃, read₂, read₁, read₀]
    simp [bodyWith]
  obtain ⟨b₅, h₅, inv₅, read₅, idx₅⟩ :=
    MyBuffer.append_spec inv₄ (be32 (adler32 1 (bodyWith 0 t p)))
  have size₅ : b₅.readableBytes = t.length + p.length + 9 := by
    rw [← MyBuffer.length_readable inv₅, read₅, hbody, List.length_append, length_bodyWith,
      length_be32]
  -- no step so far has left the reader index below the cheap prepend area
  have idx : b₅.readerIndex = MyBuffer.kCheapPrepend := by
    rw [idx₀] at idx₁
    omega
  obtain ⟨b₆, h₆, inv₆, read₆, -⟩ := MyBuffer.prepend_spec inv₅
    (d := be32 (t.length + p.length + 9)) (by rw [idx]; norm_num [MyBuffer.kCheapPrepend])
  obtain ⟨b₇, h₇, -, read₇, -⟩ := MyBuffer.append_spec inv₆ crlf
  refine ⟨b₇, ?_, ?_⟩
  · have htake : (t ++ [0]).take (t.length + 1) = t ++ [0] := List.take_of_length_le (by simp)
    have hguard : b₅.readableBytes = 4 + (t.length + 1) + p.length + 4 := by omega
    simp only [encode, ← ht, ← hp, hmod, htake, h₀, size₀, MyBuffer.appendUint32, h₁, h₂, h₃,
      MyBuffer.writeAtBeginWrite, h₄, hbody, h₅, hguard, guard, if_true, Option.bind_eq_bind,
      Option.bind_some, Option.pure_def]
    rw [← hguard, size₅, h₆, Option.bind_some, h₇]
  · rw [read₇, read₆, read₅, hbody]
    simp [frame, frameWith]

/-- The frame of a message: the bytes handed to the connection. -/
def encoded (P : Pool) (m : P.Msg) : Bytes := ((encode P m).map MyBuffer.readable).getD []

theorem encoded_eq_frame (P : Pool) (m : P.Msg) :
    encoded P m = frame (P.getTypeName m) (P.serialize m) := by
  obtain ⟨b, hb, hread⟩ := encode_spec P m
  rw [encoded, hb, ← hread]
  rfl

/-! ## Decoding -/

theorem sub32_of_le {a b : ℕ} (ha : a < 2 ^ 32) (h : b ≤ a) : sub32 a b = a - b := by
  unfold sub32
  omega

/-- The comparison with the size of the string: the subtraction does not wrap where it succeeds. -/
theorem eq_subSize_iff {bits len n : ℕ} (hbits : 32 ≤ bits) (hlen : len < kMaxMessageLen) :
    len = subSize bits n (kHeaderLen + 2) ↔ n = len + 6 := by
  have hpow : 2 ^ 32 ≤ 2 ^ bits := Nat.pow_le_pow_right (by norm_num) hbits
  have hmax : kMaxMessageLen < 2 ^ 32 - 6 := by norm_num [kMaxMessageLen]
  unfold subSize kHeaderLen
  split <;> omega

/-- The length field lets the frame through to `decode`. -/
structure LengthOk (s : Bytes) : Prop where
  min_lt : kMinMessageLen < peekUInt32 s
  lt_max : peekUInt32 s < kMaxMessageLen
  length_eq : s.length = peekUInt32 s + 6

instance (s : Bytes) : Decidable (LengthOk s) :=
  decidable_of_iff (kMinMessageLen < peekUInt32 s ∧ peekUInt32 s < kMaxMessageLen ∧
    s.length = peekUInt32 s + 6) ⟨fun h => ⟨h.1, h.2.1, h.2.2⟩, fun h => ⟨h.1, h.2, h.3⟩⟩

theorem onMessage_of_lengthOk (P : Pool) {s : Bytes} (h : LengthOk s) :
    onMessage P s = some (decode P (s.drop kHeaderLen) (peekUInt32 s)) := by
  rw [onMessage, onMessageWith, if_pos ⟨h.min_lt, h.lt_max⟩,
    if_pos ((eq_subSize_iff le_rfl h.lt_max).2 h.length_eq)]

theorem onMessage_of_not_lengthOk (P : Pool) {s : Bytes} (h : ¬LengthOk s) :
    onMessage P s = none := by
  unfold onMessage onMessageWith
  split
  · next hlen =>
    rw [if_neg]
    intro heq
    exact h ⟨hlen.1, hlen.2, (eq_subSize_iff le_rfl hlen.2).1 heq⟩
  · rfl

theorem isCorrect_append (body e : Bytes) {x : ℕ} (hx : x < 2 ^ 32) :
    isCorrect (body ++ (be32 x ++ e)) (body.length + 4) = true ↔ x = adler32 1 body := by
  have hlen : body.length + 4 - kHeaderLen = body.length := Nat.add_sub_cancel _ 4
  rw [isCorrect, decide_eq_true_iff, hlen, List.drop_left, List.take_left, peekUInt32,
    peek32_be32_append, Nat.mod_eq_of_lt hx]

theorem peek_body (c : UInt8) {t : Bytes} (p s : Bytes) (h : t.length + 1 < 2 ^ 32) :
    peekUInt32 (bodyWith c t p ++ s) = t.length + 1 := by
  rw [peekUInt32, bodyWith, List.append_assoc, peek32_be32_append, Nat.mod_eq_of_lt h]

theorem drop_body (c : UInt8) (t p s : Bytes) :
    (bodyWith c t p ++ s).drop kHeaderLen = t ++ (c :: p ++ s) := by
  rw [bodyWith, List.append_assoc, List.append_assoc]
  rfl

theorem drop_body_name (c : UInt8) (t p s : Bytes) :
    (bodyWith c t p ++ s).drop (kHeaderLen + (t.length + 1)) = p ++ s := by
  rw [← List.drop_drop, drop_body, ← List.drop_drop, List.drop_left]
  rfl

/-- What is left of the length for the payload. -/
theorem dataLen_body {t p : Bytes} (hlen : t.length + p.length + 9 < 2 ^ 32) :
    sub32 (sub32 (t.length + p.length + 9) (t.length + 1)) (2 * kHeaderLen) = p.length := by
  rw [sub32_of_le hlen (by omega), sub32_of_le (by omega) (by unfold kHeaderLen; omega)]
  unfold kHeaderLen
  omega

/-- What `decode` does with a body and a checksum `x`. -/
theorem decode_body (P : Pool) {c : UInt8} {t p e : Bytes} {x : ℕ} (hx : x < 2 ^ 32) (ht : t ≠ [])
    (hlen : t.length + p.length + 9 < 2 ^ 32) :
    decode P (bodyWith c t p ++ (be32 x ++ e)) (t.length + p.length + 9) =
      if x = adler32 1 (bodyWith c t p) then
        (P.findMessageTypeByName t).bind fun d => P.parseFromArray d p
      else none := by
  have hpos : 0 < t.length := List.length_pos_iff.2 ht
  have hsize : t.length + p.length + 9 = (bodyWith c t p).length + 4 := by rw [length_bodyWith]
  have hcorrect := isCorrect_append (bodyWith c t p) e hx
  rw [← hsize] at hcorrect
  unfold decode
  by_cases hsum : x = adler32 1 (bodyWith c t p)
  · rw [if_pos (hcorrect.2 hsum), if_pos hsum]
    have hdrop := drop_body c t p (be32 x ++ e)
    have hdata := drop_body_name c t p (be32 x ++ e)
    have hdataLen := dataLen_body hlen
    have hsub : sub32 (t.length + p.length + 9) (2 * kHeaderLen) = t.length + p.length + 1 := by
      rw [sub32_of_le hlen (by unfold kHeaderLen; omega)]
      unfold kHeaderLen
      omega
    rw [peek_body c p _ (by omega), hsub, if_pos ⟨by omega, by omega⟩]
    simp only [Nat.add_sub_cancel, hdrop, List.take_left, hdata, hdataLen]
    cases P.findMessageTypeByName t <;> rfl
  · rw [if_neg (fun h => hsum (hcorrect.1 h)), if_neg hsum]

theorem exists_append_of_le {l : Bytes} {n : ℕ} (h : n ≤ l.length) :
    ∃ l₁ l₂, l = l₁ ++ l₂ ∧ l₁.length = n :=
  ⟨l.take n, l.drop n, (List.take_append_drop n l).symm, List.length_take_of_le h⟩

/-- Bytes of which the first `len` have room for the name, the checksum and what stands before the name. -/
theorem exists_body {b : Bytes} {len : ℕ} (hlen : len ≤ b.length) (hname : 2 ≤ peekUInt32 b)
    (hname' : peekUInt32 b + 2 * kHeaderLen ≤ len) :
    ∃ c t p e x, b = bodyWith c t p ++ (be32 x ++ e) ∧ t ≠ [] ∧ x < 2 ^ 32 ∧
      len = t.length + p.length + 9 := by
  change peekUInt32 b + 8 ≤ len at hname'
  have hb : b = be32 (peekUInt32 b) ++ b.drop 4 := eq_be32_append (by omega)
  generalize peekUInt32 b = nameLen at *
  have hrest : (b.drop 4).length = b.length - 4 := List.length_drop
  generalize b.drop 4 = rest at *
  obtain ⟨t, r₁, rfl, ht⟩ := exists_append_of_le (l := rest) (n := nameLen - 1) (by omega)
  rw [List.length_append] at hrest
  obtain ⟨c, r₂, rfl⟩ := List.exists_cons_of_length_pos (l := r₁) (by omega)
  rw [List.length_cons] at hrest
  obtain ⟨p, r₃, rfl, hp⟩ := exists_append_of_le (l := r₂) (n := len - nameLen - 8) (by omega)
  rw [List.length_append] at hrest
  have h₃ : r₃ = be32 (peek32 r₃) ++ r₃.drop 4 := eq_be32_append (by omega)
  refine ⟨c, t, p, r₃.drop 4, peek32 r₃, ?_, ?_, peek32_lt _, by omega⟩
  · rw [bodyWith, ← h₃, show t.length + 1 = nameLen by omega]
    simpa using hb
  · intro hnil
    rw [hnil, List.length_nil] at ht
    omega

/-- A string whose length field is right is split by it. -/
theorem exists_body_of_lengthOk {s : Bytes} (h : LengthOk s)
    (hname : 2 ≤ peekUInt32 (s.drop kHeaderLen))
    (hname' : peekUInt32 (s.drop kHeaderLen) ≤ peekUInt32 s - 2 * kHeaderLen) :
    ∃ c t p e x, s = be32 (t.length + p.length + 9) ++ (bodyWith c t p ++ (be32 x ++ e)) ∧
      t ≠ [] ∧ e.length = 2 ∧ x < 2 ^ 32 ∧ peekUInt32 s = t.length + p.length + 9 := by
  have hmin : 10 < peekUInt32 s := h.min_lt
  have hlen := h.length_eq
  have hs : s = be32 (peekUInt32 s) ++ s.drop kHeaderLen := eq_be32_append (by omega)
  have hdrop : (s.drop kHeaderLen).length = s.length - 4 := List.length_drop
  have hroom : peekUInt32 (s.drop kHeaderLen) + 2 * kHeaderLen ≤ peekUInt32 s := by
    unfold kHeaderLen at *
    omega
  obtain ⟨c, t, p, e, x, hb, ht, hx, hpeek⟩ := exists_body (by omega) hname hroom
  have hsize := congrArg List.length hb
  simp only [List.length_append, length_bodyWith, length_be32] at hsize
  exact ⟨c, t, p, e, x, by rw [← hb, ← hpeek]; exact hs, ht, by omega, hx, hpeek⟩

/-- The name length of what is decoded is in range. -/
theorem nameLen_of_decode {P : Pool} {b : Bytes} {len : ℕ} {m : P.Msg} (hmin : 2 * kHeaderLen ≤ len)
    (hmax : len < 2 ^ 32) (h : decode P b len = some m) :
    2 ≤ peekUInt32 b ∧ peekUInt32 b ≤ len - 2 * kHeaderLen := by
  unfold decode at h
  split at h
  · simp only [sub32_of_le hmax hmin] at h
    by_contra hn
    rw [if_neg hn] at h
    cases h
  · cases h

/-! ## What is handed on -/

/-- The string `s` is a frame for the message `m`: the length is in range, the name that of a type of
the pool, the checksum right and the payload one that is parsed to `m`. Neither the byte behind the
type name nor the last two bytes matter. -/
structure FrameFor (P : Pool) (s : Bytes) (m : P.Msg) : Prop where
  exists_parts : ∃ c t p e d, s = frameWith c e t p ∧ e.length = 2 ∧
    P.findMessageTypeByName t = some d ∧ P.parseFromArray d p = some m
  min_lt : kMinMessageLen + 6 < s.length
  lt_max : s.length < kMaxMessageLen + 6

theorem lengthOk_frameWith {c : UInt8} {t p e : Bytes} (he : e.length = 2)
    (hmin : kMinMessageLen < t.length + p.length + 9)
    (hmax : t.length + p.length + 9 < kMaxMessageLen) : LengthOk (frameWith c e t p) := by
  have hpeek : peekUInt32 (frameWith c e t p) = t.length + p.length + 9 := by
    rw [peekUInt32, frameWith, peek32_be32_append, Nat.mod_eq_of_lt]
    exact hmax.trans (by norm_num [kMaxMessageLen])
  exact ⟨by omega, by omega, by rw [length_frameWith]; omega⟩

theorem onMessage_frameWith (P : Pool) {c : UInt8} {t p e : Bytes} (he : e.length = 2) (ht : t ≠ [])
    (hmin : kMinMessageLen < t.length + p.length + 9)
    (hmax : t.length + p.length + 9 < kMaxMessageLen) :
    onMessage P (frameWith c e t p) =
      some ((P.findMessageTypeByName t).bind fun d => P.parseFromArray d p) := by
  have hlt : t.length + p.length + 9 < 2 ^ 32 := hmax.trans (by norm_num [kMaxMessageLen])
  have hpeek : peekUInt32 (frameWith c e t p) = t.length + p.length + 9 := by
    rw [peekUInt32, frameWith, peek32_be32_append, Nat.mod_eq_of_lt hlt]
  rw [onMessage_of_lengthOk P (lengthOk_frameWith he hmin hmax), hpeek]
  have hdrop : (frameWith c e t p).drop kHeaderLen =
      bodyWith c t p ++ (be32 (adler32 1 (bodyWith c t p)) ++ e) := rfl
  rw [hdrop, decode_body P (adler32_lt _ _) ht hlt, if_pos rfl]

/-- **A message is handed on from its frames, and from nothing else.** -/
theorem onMessage_eq_some_some_iff (P : Pool) {s : Bytes} {m : P.Msg} :
    onMessage P s = some (some m) ↔ FrameFor P s m := by
  constructor
  · intro h
    by_cases hok : LengthOk s
    · rw [onMessage_of_lengthOk P hok, Option.some.injEq] at h
      have hname := nameLen_of_decode (by have := hok.min_lt; unfold kMinMessageLen at this; omega)
        (hok.lt_max.trans (by norm_num [kMaxMessageLen])) h
      obtain ⟨c, t, p, e, x, hs, ht, he, hx, hpeek⟩ := exists_body_of_lengthOk hok hname.1 hname.2
      have hmax := hok.lt_max
      have hmin := hok.min_lt
      have hlt : t.length + p.length + 9 < 2 ^ 32 := by
        unfold kMaxMessageLen at hmax
        omega
      have hdrop : s.drop kHeaderLen = bodyWith c t p ++ (be32 x ++ e) := by rw [hs]; rfl
      rw [hpeek, hdrop, decode_body P hx ht hlt] at h
      split at h
      · next hsum =>
        obtain ⟨d, hd, hm⟩ := Option.bind_eq_some_iff.1 h
        have := hok.length_eq
        exact ⟨⟨c, t, p, e, d, by rw [hs, hsum]; rfl, he, hd, hm⟩, by omega, by omega⟩
      · cases h
    · rw [onMessage_of_not_lengthOk P hok] at h
      cases h
  · rintro ⟨⟨c, t, p, e, d, rfl, he, hd, hm⟩, hmin, hmax⟩
    have ht : t ≠ [] := by
      rw [← P.typeName_of_find t d hd]
      exact P.typeName_ne_nil d
    rw [length_frameWith, he] at hmin hmax
    rw [onMessage_frameWith P he ht (by omega) (by omega), hd, Option.bind_some, hm]

/-- The value of the length field of a message's frame. -/
def frameLen (P : Pool) (m : P.Msg) : ℕ := (P.getTypeName m).length + (P.serialize m).length + 9

theorem length_encoded (P : Pool) (m : P.Msg) : (encoded P m).length = frameLen P m + 6 := by
  rw [encoded_eq_frame, frame, length_frameWith, frameLen]
  rfl

theorem frameFor_encoded {P : Pool} {m : P.Msg} (hmin : kMinMessageLen < frameLen P m)
    (hmax : frameLen P m < kMaxMessageLen) : FrameFor P (encoded P m) m := by
  have hlen := length_encoded P m
  exact ⟨⟨0, _, _, crlf, _, encoded_eq_frame P m, rfl, P.find_typeName _, P.parse_serialize m⟩,
    by omega, by omega⟩

theorem FrameFor.unique {P : Pool} {s : Bytes} {m m' : P.Msg} (h : FrameFor P s m) (h' : FrameFor P s m') :
    m = m' := by
  have hm := (onMessage_eq_some_some_iff P).2 h
  rw [(onMessage_eq_some_some_iff P).2 h'] at hm
  simpa [eq_comm] using hm

/-- A message handed on from a frame is the frame's own. -/
theorem FrameFor.eq_of_encoded {P : Pool} {m x : P.Msg} (h : FrameFor P (encoded P m) x) : x = m := by
  have hmin := h.min_lt
  have hmax := h.lt_max
  rw [length_encoded] at hmin hmax
  exact FrameFor.unique h (frameFor_encoded (by omega) (by omega))

/-- A frame that starts another one, and is itself a frame, is all of it. -/
theorem FrameFor.eq_encoded_of_append {P : Pool} {m x : P.Msg} {w y : Bytes} (h : FrameFor P w x)
    (he : encoded P m = w ++ y) : w = encoded P m := by
  obtain ⟨⟨c, t, p, e, d, hw, he2, -, -⟩, hmin, hmax⟩ := h
  have hlenw : w.length = t.length + p.length + 15 := by rw [hw, length_frameWith, he2]
  have hpeekw : peek32 (encoded P m) = t.length + p.length + 9 := by
    rw [he, hw, frameWith, List.append_assoc, peek32_be32_append, Nat.mod_eq_of_lt]
    unfold kMaxMessageLen at hmax
    omega
  have hpeek : peek32 (encoded P m) = frameLen P m % 2 ^ 32 := by
    rw [encoded_eq_frame, frame, frameWith, peek32_be32_append, frameLen]
  have hname : (P.getTypeName m).length + 5 < 2 ^ 31 := P.length_typeName_lt _
  have hser := P.length_serialize_lt m
  have hlen : w.length + y.length = frameLen P m + 6 := by
    rw [← length_encoded, he, List.length_append]
  unfold kMinMessageLen kHeaderLen at hmin
  unfold frameLen at *
  have hy : y.length = 0 := by omega
  rw [he, List.length_eq_zero_iff.1 hy, List.append_nil]

/-- **Encoding and decoding agree on the frame format.** The readable bytes of the buffer are the
frame, however often the buffer had to grow, and from the frame the message is handed on exactly
when the length field is in range. -/
theorem encode_onMessage (P : Pool) (m : P.Msg) :
    ∃ b, encode P m = some b ∧
      b.readable = be32 (frameLen P m) ++ be32 ((P.getTypeName m).length + 1) ++ P.getTypeName m ++
        [0] ++ P.serialize m ++
        be32 (adler32 1 (be32 ((P.getTypeName m).length + 1) ++ P.getTypeName m ++ [0] ++
          P.serialize m)) ++ [13, 10] ∧
      (onMessage P b.readable = some (some m) ↔
        10 < frameLen P m ∧ frameLen P m < 64 * 1024 * 1024) := by
  obtain ⟨b, hb, hread⟩ := encode_spec P m
  have henc : b.readable = encoded P m := by rw [hread, encoded_eq_frame]
  refine ⟨b, hb, ?_, ?_⟩
  · rw [hread]
    simp [frame, frameWith, bodyWith, crlf, frameLen]
  · rw [onMessage_eq_some_some_iff, henc]
    refine ⟨fun h => ?_, fun h => frameFor_encoded h.1 h.2⟩
    have hmin := h.min_lt
    have hmax := h.lt_max
    rw [length_encoded] at hmin hmax
    unfold kMinMessageLen kHeaderLen at hmin
    unfold kMaxMessageLen at hmax
    omega

end MutexIM.Codec
