import MutexIM.Codec.Checks

/-!
# What `Decode` accepts

`Encode` writes the name length, the type name with a zero byte behind it, the payload and the checksum.
`Decode` takes the name length for the name and the byte behind it, and does not look at that byte.

* `decode_format`: a buffer that is decoded is the one that `Encode` writes for the type and the payload,
  up to the byte behind the name, and is determined by them and that byte.
* `decodes_layoutWith`: every byte behind the name will do.
-/

namespace MutexIM.Codec

open Bytes Adler32

variable {P : Pool} {buf t d : Bytes}

/-- The buffer for a type name and a payload, with `c` behind the name. -/
def layoutWith (c : UInt8) (t d : Bytes) : Bytes :=
  bodyWith c t d ++ be32 (adler32 1 (bodyWith c t d))

/-- What `Encode` writes between the length field and the delimiter. -/
def layout (t d : Bytes) : Bytes := layoutWith 0 t d

theorem encoded_eq_layout (m : P.Msg) : encoded P m =
    be32 (frameLen P m) ++ (layout (P.getTypeName m) (P.serialize m) ++ crlf) := by
  rw [encoded_eq_frame, frame, frameWith, layout, layoutWith, List.append_assoc]
  rfl

/-- The payload that `Decode` finds in the `len` bytes at `buf`. -/
def payloadOf (buf : Bytes) (len : ℕ) : Bytes :=
  (buf.drop (kHeaderLen + peekUInt32 buf)).take (sub32 (sub32 len (peekUInt32 buf)) (2 * kHeaderLen))

/-- The byte behind the type name. -/
def terminator (buf : Bytes) : UInt8 := buf.getD (kHeaderLen + (peekUInt32 buf - 1)) 0

/-- `Decode` returns a message of the type `t` for the payload `d`. -/
def Decodes (P : Pool) (buf t d : Bytes) : Prop :=
  payloadOf buf buf.length = d ∧ ∃ m, decode P buf buf.length = some m ∧ P.getTypeName m = t ∧
    P.parseFromArray (P.descriptor m) d = some m

theorem length_layoutWith (c : UInt8) (t d : Bytes) :
    (layoutWith c t d).length = t.length + d.length + 9 := by
  rw [layoutWith, List.length_append, length_bodyWith, length_be32]

theorem payloadOf_layoutWith (c : UInt8) (hlen : t.length + d.length + 9 < 2 ^ 32) :
    payloadOf (layoutWith c t d) (layoutWith c t d).length = d := by
  rw [payloadOf, length_layoutWith, layoutWith, peek_body c d _ (by omega), drop_body_name,
    dataLen_body hlen, List.take_left]

theorem terminator_layoutWith (c : UInt8) (hlen : t.length + d.length + 9 < 2 ^ 32) :
    terminator (layoutWith c t d) = c := by
  have hdrop := drop_body c t d (be32 (adler32 1 (bodyWith c t d)))
  rw [terminator, layoutWith, peek_body c d _ (by omega), Nat.add_sub_cancel,
    List.getD_eq_getElem?_getD, ← List.getElem?_drop, hdrop, List.getElem?_append_right le_rfl,
    Nat.sub_self]
  rfl

/-- **Every byte behind the name will do.** -/
theorem decodes_layoutWith (c : UInt8) {m : P.Msg} (ht : P.getTypeName m = t)
    (hparse : P.parseFromArray (P.descriptor m) d = some m)
    (hlen : t.length + d.length + 9 < 2 ^ 32) : Decodes P (layoutWith c t d) t d := by
  have hne : t ≠ [] := ht ▸ P.typeName_ne_nil _
  have hfind : P.findMessageTypeByName t = some (P.descriptor m) := ht ▸ P.find_typeName _
  refine ⟨payloadOf_layoutWith c hlen, m, ?_, ht, hparse⟩
  have hdecode := decode_body P (c := c) (e := []) (adler32_lt 1 (bodyWith c t d)) hne hlen
  rw [if_pos rfl, hfind, Option.bind_some, hparse, List.append_nil] at hdecode
  rw [length_layoutWith]
  exact hdecode

/-- A buffer that is decoded is laid out in this way. -/
theorem eq_layoutWith_of_decodes (hmin : 2 * kHeaderLen ≤ buf.length) (hmax : buf.length < 2 ^ 31)
    (h : Decodes P buf t d) : ∃ c, buf = layoutWith c t d := by
  obtain ⟨hpayload, m, hm, ht, -⟩ := h
  obtain ⟨hname, hname'⟩ := nameLen_of_decode hmin (by omega) hm
  obtain ⟨c, t', p, e, x, hbuf, hne, hx, hlen⟩ := exists_body le_rfl hname (by omega)
  have hsize := congrArg List.length hbuf
  simp only [List.length_append, length_bodyWith, length_be32] at hsize
  obtain rfl : e = [] := List.eq_nil_of_length_eq_zero (by omega)
  rw [hlen, hbuf, decode_body P hx hne (by omega)] at hm
  split at hm
  · next hsum =>
    obtain ⟨desc, hfind, hparse⟩ := Option.bind_eq_some_iff.1 hm
    obtain rfl : t' = t := by
      rw [← ht, Pool.getTypeName, P.descriptor_of_parse _ _ _ hparse, P.typeName_of_find _ _ hfind]
    have hlayout : buf = layoutWith c t' p := by rw [hbuf, hsum, List.append_nil, layoutWith]
    rw [hlayout, payloadOf_layoutWith c (by omega)] at hpayload
    exact ⟨c, hpayload ▸ hlayout⟩
  · cases hm

/-- **The format that `Decode` accepts.** A buffer from which a message of the type `t` with the payload
`d` is decoded is laid out as `Encode` does it, up to the byte behind the name; no two buffers with the
same byte there are decoded to the same type and payload. -/
theorem decode_format (hmin : 2 * kHeaderLen ≤ buf.length) (hmax : buf.length < 2 ^ 31)
    (h : Decodes P buf t d) :
    buf = be32 (t.length + 1) ++ t ++ [terminator buf] ++ d ++
        be32 (adler32 1 (be32 (t.length + 1) ++ t ++ [terminator buf] ++ d)) ∧
      ∀ buf', 2 * kHeaderLen ≤ buf'.length → buf'.length < 2 ^ 31 → Decodes P buf' t d →
        terminator buf' = terminator buf → buf' = buf := by
  have heq : ∀ {b : Bytes}, 2 * kHeaderLen ≤ b.length → b.length < 2 ^ 31 → Decodes P b t d →
      b = layoutWith (terminator b) t d := by
    intro b hmin hmax h
    obtain ⟨c, rfl⟩ := eq_layoutWith_of_decodes hmin hmax h
    rw [length_layoutWith] at hmax
    rw [terminator_layoutWith c (by omega)]
  constructor
  · have hbuf := heq hmin hmax h
    have hbody : be32 (t.length + 1) ++ t ++ [terminator buf] ++ d = bodyWith (terminator buf) t d := by
      simp [bodyWith]
    rw [hbody]
    exact hbuf
  · intro buf' hmin' hmax' h' hterminator
    rw [heq hmin hmax h, heq hmin' hmax' h', hterminator]

/-- The type and the payload of the request for stored messages. -/
def unreadType : Bytes := chatPool.getTypeName unreadRequest

def unreadPayload : Bytes := chatPool.serialize unreadRequest

theorem decodes_unread (c : UInt8) :
    Decodes chatPool (layoutWith c unreadType unreadPayload) unreadType unreadPayload :=
  decodes_layoutWith c rfl (chatPool.parse_serialize _) (by decide +kernel)

/-- A buffer with a one behind the name. -/
theorem decode_format_one :
    terminator (layoutWith 1 unreadType unreadPayload) = 1 ∧
      layoutWith 1 unreadType unreadPayload =
        be32 (unreadType.length + 1) ++ unreadType ++
          [terminator (layoutWith 1 unreadType unreadPayload)] ++ unreadPayload ++
          be32 (adler32 1 (be32 (unreadType.length + 1) ++ unreadType ++
            [terminator (layoutWith 1 unreadType unreadPayload)] ++ unreadPayload)) :=
  ⟨terminator_layoutWith 1 (by decide +kernel),
    (decode_format (by decide +kernel) (by decide +kernel) (decodes_unread 1)).1⟩

/-- It is decoded to the type and the payload of the buffer that `Encode` writes. -/
theorem decoded_twice :
    Decodes chatPool (layoutWith 1 unreadType unreadPayload) unreadType unreadPayload ∧
      Decodes chatPool (layout unreadType unreadPayload) unreadType unreadPayload ∧
      layoutWith 1 unreadType unreadPayload ≠ layout unreadType unreadPayload :=
  ⟨decodes_unread 1, decodes_unread 0, by decide +kernel⟩

end MutexIM.Codec
