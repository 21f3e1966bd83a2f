import MutexIM.Codec.BufferBounds
import MutexIM.Codec.Generated

/-!
# What `Encode` writes

`Encode` makes room for as many bytes as `ByteSize` says, lets the generated code write the message there
without a bound, and moves the writer index by that size.

* `Classes.encode` is `Encode` with the generated `ByteSize`; `encode_eq`: it is the codec's `encode`.
* `Fresh`: as long as the contents have not been moved, every call stays within the vector.
* `encode_writes_inBounds`: a message is written within the vector, and so is all else that `Encode` writes.
-/

namespace MutexIM.Codec

open Bytes ProtoWire

namespace MyBuffer

/-! ## Buffers that are not consumed -/

/-- A buffer whose contents have not been moved backwards, all of it written within the vector. -/
structure Fresh (b : MyBuffer) : Prop extends b.Wf where
  reader_le_cheap : b.readerIndex ≤ kCheapPrepend
  inBounds : ∀ w ∈ b.writes, w.InBounds

variable {b b' : MyBuffer}

/-- There is nothing to be gained by moving the contents. -/
theorem not_compacts_of_le (h : b.readerIndex ≤ kCheapPrepend) (len : ℕ) : ¬b.Compacts len := by
  rintro ⟨hlt, hle⟩
  unfold prependableBytes at hle
  omega

theorem Fresh.call (hb : b.Fresh) {c : Call} (hc : b.Asserted c) (h : b.call c = some b')
    (hidx : b'.readerIndex ≤ kCheapPrepend) : b'.Fresh := by
  obtain ⟨hwf, ws, hws, hiff⟩ := call_writes hb.toWf hc h
  refine ⟨hwf, hidx, ?_⟩
  rw [hws]
  refine List.forall_mem_append.2 ⟨hiff.2 fun hcompacts => ?_, hb.inBounds⟩
  exact absurd hcompacts (not_compacts_of_le hb.reader_le_cheap _)

theorem Fresh.append (hb : b.Fresh) {d : Bytes} (h : b.append d = some b') : b'.Fresh := by
  obtain ⟨b₁, h₁, -, -, hidx⟩ := append_spec hb.toBufferInv d
  obtain rfl := Option.some.inj (h.symm.trans h₁)
  have hle := hb.reader_le_cheap
  exact hb.call (c := .append d) trivial h (by omega)

theorem Fresh.prepend (hb : b.Fresh) {d : Bytes} (h : b.prepend d = some b') : b'.Fresh := by
  obtain ⟨_, hguard, heq⟩ := Option.bind_eq_some_iff.1 h
  have hd : d.length ≤ b.prependableBytes := by
    by_contra hd
    simp [guard, hd] at hguard
  have hle := hb.reader_le_cheap
  refine hb.call (c := .prepend d) hd h ?_
  obtain rfl := Option.some.inj heq
  exact (Nat.sub_le _ _).trans hle

theorem fresh_new {n : ℕ} (h : new n = some b) : b.Fresh := by
  obtain ⟨hwf, hnil⟩ := wf_new h
  obtain ⟨b₁, h₁, -, -, hidx⟩ := new_spec n
  obtain rfl := Option.some.inj (h.symm.trans h₁)
  refine ⟨hwf, hidx.le, ?_⟩
  rw [hnil]
  exact List.forall_mem_nil _

end MyBuffer

/-! ## Encoding -/

namespace Classes

variable (C : Classes)

/-- `ProtobufCodec::Encode`, with the size from the generated `ByteSize`. -/
def encode (m : C.pool.Msg) : Option MyBuffer := do
  let b ← MyBuffer.new MyBuffer.kInitialSize
  guard (b.readableBytes = 0)
  let typeName := C.typeName m.1
  let nameLen := (typeName.length + 1) % 2 ^ 32
  let b ← b.appendUint32 nameLen
  let b ← b.append ((typeName ++ [0]).take nameLen)
  let byteSize := (C.generated m.1).byteSize m.2.1
  let b ← b.ensureWritableBytes byteSize
  let b ← (b.writeAtBeginWrite ((C.generated m.1).serialize m.2.1)).commit byteSize
  let checkSum := Adler32.adler32 1 b.readable
  let b ← b.appendUint32 checkSum
  guard (b.readableBytes = 4 + nameLen + byteSize + 4)
  let b ← b.prepend (be32 b.readableBytes)
  b.append crlf

theorem encode_eq (m : C.pool.Msg) : C.encode m = Codec.encode C.pool m := by
  have hsize : (C.generated m.1).byteSize m.2.1 = (C.pool.serialize m).length :=
    (C.lawful m.1).byteSize_eq m.2.1
  rw [encode, Codec.encode, hsize]
  rfl

/-- **`Encode` stays within its buffer.** Whatever the message: it gets a frame, and every byte that is
written on the way is written within the vector, those of the message by the generated code included. -/
theorem encode_writes_inBounds (m : C.pool.Msg) :
    ∃ b, C.encode m = some b ∧
      b.readable = frame (C.typeName m.1) ((C.generated m.1).serialize m.2.1) ∧
        ∀ w ∈ b.writes, w.InBounds := by
  obtain ⟨b, hb, hread⟩ := encode_spec C.pool m
  refine ⟨b, (C.encode_eq m).trans hb, hread, ?_⟩
  -- room for the message, the message, and the index behind it: together they append it
  unfold Codec.encode at hb
  obtain ⟨b₀, h₀, h⟩ := Option.bind_eq_some_iff.1 hb
  obtain ⟨-, -, h⟩ := Option.bind_eq_some_iff.1 h
  obtain ⟨b₁, h₁, h⟩ := Option.bind_eq_some_iff.1 h
  obtain ⟨b₂, h₂, h⟩ := Option.bind_eq_some_iff.1 h
  obtain ⟨b₃, h₃, h⟩ := Option.bind_eq_some_iff.1 h
  obtain ⟨b₄, h₄, h⟩ := Option.bind_eq_some_iff.1 h
  obtain ⟨b₅, h₅, h⟩ := Option.bind_eq_some_iff.1 h
  obtain ⟨-, -, h⟩ := Option.bind_eq_some_iff.1 h
  obtain ⟨b₆, h₆, h₇⟩ := Option.bind_eq_some_iff.1 h
  have happend : b₂.append (C.pool.serialize m) = some b₄ := by
    rw [MyBuffer.append, h₃]
    exact h₄
  have fresh := ((((MyBuffer.fresh_new h₀).append h₁).append h₂).append happend).append h₅
  exact ((fresh.prepend h₆).append h₇).inBounds

end Classes

end MutexIM.Codec
