import MutexIM.Foundations.Bytes
import Mathlib.Tactic.NormNum

/-!
# The byte buffer

`MyBuffer` is a vector with a reader and a writer index: the bytes between them are readable, those
behind the writer index are writable, those before the reader index can be prepended to. Each member
function is modelled with its assertions: the result is `none` when one fails.

* `BufferInv` is the order of the indices, `readable` the contents.
* `makeSpace` grows the vector or moves the contents to the front; in both cases the contents stay
  and the requested space is there (`ensureWritableBytes_spec`).
* `append` adds behind the contents and `prepend` before them (`append_spec`, `prepend_spec`);
  `consume` takes from their front and `peekUint32` reads there (`consume_spec`, `peekUint32_spec`).

A write past the end of the vector has no effect on the contents; `writes` keeps the range of every
write made by `std::copy` or `memset`, with the size of the vector at the time.
-/

namespace MutexIM.Codec

open Bytes

/-! ## The vector -/

/-- Overwrite `buf` from `off` on with `d`, as far as `buf` reaches. -/
def splice (buf : Bytes) (off : ℕ) (d : Bytes) : Bytes :=
  buf.take off ++ d.take (buf.length - off) ++ buf.drop (off + d.length)

@[simp] theorem length_splice (buf : Bytes) (off : ℕ) (d : Bytes) :
    (splice buf off d).length = buf.length := by
  simp only [splice, List.length_append, List.length_take, List.length_drop]
  omega

theorem take_splice_of_le {off n : ℕ} (h : n ≤ off) (buf d : Bytes) :
    (splice buf off d).take n = buf.take n := by
  rw [splice, List.append_assoc]
  by_cases hn : n ≤ buf.length
  · rw [List.take_append_of_le_length (by simp; omega), List.take_take, Nat.min_eq_left h]
  · have hoff : buf.length - off = 0 := by omega
    have hdrop : buf.drop (off + d.length) = [] := List.drop_eq_nil_of_le (by omega)
    rw [hoff, hdrop, List.take_zero, List.append_nil, List.append_nil, List.take_take,
      Nat.min_eq_left h]

/-- A write that fits puts its bytes at the offset. -/
theorem splice_of_le {buf d : Bytes} {off : ℕ} (h : off + d.length ≤ buf.length) :
    splice buf off d = buf.take off ++ (d ++ buf.drop (off + d.length)) := by
  rw [splice, List.append_assoc, List.take_of_length_le (l := d) (by omega)]

/-- The bytes of a write, from its offset on, and the size of the vector written to. -/
structure Write where
  off : ℕ
  len : ℕ
  size : ℕ

/-- The buffer. -/
structure MyBuffer where
  buffer : Bytes
  readerIndex : ℕ
  writerIndex : ℕ
  writes : List Write

namespace MyBuffer

def kCheapPrepend : ℕ := 8
def kInitialSize : ℕ := 1024

/-- `std::copy` of `d` to `begin() + off`, and `memset` as a copy of zeros. -/
def copyTo (b : MyBuffer) (off : ℕ) (d : Bytes) : MyBuffer :=
  { b with buffer := splice b.buffer off d
           writes := ⟨off, d.length, b.buffer.length⟩ :: b.writes }

/-! ## The member functions -/

def readableBytes (b : MyBuffer) : ℕ := b.writerIndex - b.readerIndex
def writableBytes (b : MyBuffer) : ℕ := b.buffer.length - b.writerIndex
def prependableBytes (b : MyBuffer) : ℕ := b.readerIndex

/-- The constructor. -/
def new (initialSize : ℕ) : Option MyBuffer := do
  let b : MyBuffer :=
    ⟨List.replicate (kCheapPrepend + initialSize) 0, kCheapPrepend, kCheapPrepend, []⟩
  guard (b.readableBytes = 0)
  guard (b.writableBytes = initialSize)
  guard (b.prependableBytes = kCheapPrepend)
  return b

/-- The readable bytes: `readableBytes()` bytes from `peek()` on. -/
def readable (b : MyBuffer) : Bytes := (b.buffer.take b.writerIndex).drop b.readerIndex

def makeSpace (b : MyBuffer) (len : ℕ) : Option MyBuffer :=
  if b.writableBytes + b.prependableBytes < len + kCheapPrepend then
    -- `resize` to `writerIndex_ + len`
    let size := b.writerIndex + len
    some { b with buffer := b.buffer.take size ++ List.replicate (size - b.buffer.length) 0 }
  else do
    guard (kCheapPrepend < b.readerIndex)
    let readable := b.readableBytes
    let b := b.copyTo kCheapPrepend b.readable
    let b := { b with readerIndex := kCheapPrepend, writerIndex := kCheapPrepend + readable }
    let b := b.copyTo b.writerIndex (List.replicate readable 0)
    guard (readable = b.readableBytes)
    return b

def ensureWritableBytes (b : MyBuffer) (len : ℕ) : Option MyBuffer := do
  let b ← if b.writableBytes < len then b.makeSpace len else some b
  guard (len ≤ b.writableBytes)
  return b

def commit (b : MyBuffer) (len : ℕ) : Option MyBuffer := do
  guard (len ≤ b.writableBytes)
  return { b with writerIndex := b.writerIndex + len }

def prepend (b : MyBuffer) (d : Bytes) : Option MyBuffer := do
  guard (d.length ≤ b.prependableBytes)
  let b := { b with readerIndex := b.readerIndex - d.length }
  return b.copyTo b.readerIndex d

def append (b : MyBuffer) (d : Bytes) : Option MyBuffer := do
  let b ← b.ensureWritableBytes d.length
  (b.copyTo b.writerIndex d).commit d.length

def appendUint32 (b : MyBuffer) (x : ℕ) : Option MyBuffer := b.append (be32 x)

def appendInt16 (b : MyBuffer) (x : Int16) : Option MyBuffer := b.append (be16 x.toUInt16.toNat)

def prependInt32 (b : MyBuffer) (x : Int32) : Option MyBuffer := b.prepend (be32 x.toUInt32.toNat)

def consumeAll (b : MyBuffer) : MyBuffer :=
  { b with readerIndex := kCheapPrepend, writerIndex := kCheapPrepend }

def consume (b : MyBuffer) (len : ℕ) : Option MyBuffer := do
  guard (len ≤ b.readableBytes)
  if len < b.readableBytes then
    let b := b.copyTo b.readerIndex (List.replicate len 0)
    return { b with readerIndex := b.readerIndex + len }
  else
    let b := b.copyTo b.readerIndex (List.replicate len 0)
    return b.consumeAll

def peekUint32 (b : MyBuffer) : Option ℕ := do
  guard (4 ≤ b.readableBytes)
  return peek32 (b.buffer.drop b.readerIndex)

/-- The number, and the buffer without its bytes. -/
def readUint32 (b : MyBuffer) : Option (ℕ × MyBuffer) := do
  let result ← b.peekUint32
  let b ← b.consume 4
  return (result, b)

/-- Write at `beginWrite()` without moving the writer index. -/
def writeAtBeginWrite (b : MyBuffer) (d : Bytes) : MyBuffer := b.copyTo b.writerIndex d

/-! ## The contents -/

/-- The order of the indices. -/
structure BufferInv (b : MyBuffer) : Prop where
  reader_le : b.readerIndex ≤ b.writerIndex
  writer_le : b.writerIndex ≤ b.buffer.length

theorem length_readable {b : MyBuffer} (h : BufferInv b) : b.readable.length = b.readableBytes := by
  have := h.writer_le
  simp only [readable, readableBytes, List.length_drop, List.length_take]
  omega

theorem new_spec (n : ℕ) :
    ∃ b, new n = some b ∧ BufferInv b ∧ b.readable = [] ∧ b.readerIndex = kCheapPrepend := by
  have h : kCheapPrepend ≤ kCheapPrepend + n := Nat.le_add_right _ _
  refine ⟨⟨List.replicate (kCheapPrepend + n) 0, kCheapPrepend, kCheapPrepend, []⟩, ?_, ⟨le_rfl, ?_⟩,
    ?_, rfl⟩
  · simp [new, readableBytes, writableBytes, prependableBytes, guard]
  · simp
  · simp [readable]

/-- Where `ensureWritableBytes` calls `makeSpace`, its assertion holds: the contents are moved only
when the reader index leaves room before them. -/
theorem makeSpace_spec {b : MyBuffer} (hb : BufferInv b) {len : ℕ} (hlen : b.writableBytes < len) :
    ∃ b', b.makeSpace len = some b' ∧ BufferInv b' ∧ b'.readable = b.readable ∧
      len ≤ b'.writableBytes ∧ (b'.readerIndex = b.readerIndex ∨ b'.readerIndex = kCheapPrepend) := by
  obtain ⟨hr, hw⟩ := hb
  unfold makeSpace
  split
  · have hsize : b.buffer.length ≤ b.writerIndex + len := by unfold writableBytes at hlen; omega
    refine ⟨_, rfl, ⟨hr, ?_⟩, ?_, ?_, .inl rfl⟩
    · simp only [List.length_append, List.length_take, List.length_replicate]
      omega
    · simp only [readable, List.take_of_length_le hsize]
      rw [List.take_append_of_le_length hw]
    · simp only [writableBytes, List.length_append, List.length_take, List.length_replicate]
      omega
  · next hspace =>
    have hreader : kCheapPrepend < b.readerIndex := by
      unfold prependableBytes at hspace
      omega
    have hlength : b.readable.length = b.readableBytes := length_readable ⟨hr, hw⟩
    have hfit : kCheapPrepend + b.readable.length ≤ b.buffer.length := by
      rw [hlength]
      unfold readableBytes
      omega
    simp only [copyTo, guard, hreader, if_true, readableBytes]
    refine ⟨_, by simp; rfl, ⟨Nat.le_add_right _ _, ?_⟩, ?_, ?_, .inr rfl⟩
    · simp only [length_splice]
      unfold readableBytes at hlength
      omega
    · -- the zeros go behind the moved contents
      simp only [readable]
      have hread : (b.buffer.take b.writerIndex).drop b.readerIndex = b.readable := rfl
      rw [take_splice_of_le le_rfl, ← readableBytes, ← hlength, hread, splice_of_le hfit,
        ← List.append_assoc, List.take_left' (by simp; omega), List.drop_left' (by simp; omega)]
    · simp only [writableBytes, length_splice, prependableBytes] at hspace ⊢
      omega

theorem ensureWritableBytes_spec {b : MyBuffer} (hb : BufferInv b) (len : ℕ) :
    ∃ b', b.ensureWritableBytes len = some b' ∧ BufferInv b' ∧ b'.readable = b.readable ∧
      len ≤ b'.writableBytes ∧ (b'.readerIndex = b.readerIndex ∨ b'.readerIndex = kCheapPrepend) := by
  unfold ensureWritableBytes
  by_cases hlen : b.writableBytes < len
  · obtain ⟨b', hb', h⟩ := makeSpace_spec hb hlen
    exact ⟨b', by simp [hlen, hb', guard, h.2.2.1], h⟩
  · exact ⟨b, by simp [hlen, guard, not_lt.1 hlen], hb, rfl, not_lt.1 hlen, .inl rfl⟩

/-- Of the bytes written behind the contents, those that are committed become part of them. -/
theorem commit_take_spec {b : MyBuffer} (hb : BufferInv b) {d : Bytes} {k : ℕ}
    (hd : d.length ≤ b.writableBytes) (hk : k ≤ d.length) :
    ∃ b', (b.copyTo b.writerIndex d).commit k = some b' ∧ BufferInv b' ∧
      b'.readable = b.readable ++ d.take k ∧ b'.readerIndex = b.readerIndex ∧
      b'.buffer.length = b.buffer.length ∧
      b'.writes = ⟨b.writerIndex, d.length, b.buffer.length⟩ :: b.writes := by
  obtain ⟨hr, hw⟩ := hb
  have hfit : b.writerIndex + d.length ≤ b.buffer.length := by unfold writableBytes at hd; omega
  refine ⟨{ b.copyTo b.writerIndex d with writerIndex := b.writerIndex + k }, ?_, ⟨?_, ?_⟩,
    ?_, rfl, length_splice .., rfl⟩
  · have hk' : k ≤ (b.copyTo b.writerIndex d).writableBytes := by
      simp only [copyTo, writableBytes, length_splice] at hd ⊢
      omega
    unfold commit
    rw [guard, if_pos hk']
    rfl
  · exact hr.trans (Nat.le_add_right _ _)
  · simp only [copyTo, length_splice]
    omega
  · have htake : (b.buffer.take b.writerIndex).length = b.writerIndex := List.length_take_of_le hw
    simp only [readable, copyTo, splice_of_le hfit]
    rw [List.take_append, htake, List.take_of_length_le (l := b.buffer.take _) (by omega),
      Nat.add_sub_cancel_left, List.take_append_of_le_length hk,
      List.drop_append_of_le_length (by omega)]

/-- Bytes written behind the contents become part of them on `commit`. -/
theorem commit_spec {b : MyBuffer} (hb : BufferInv b) {d : Bytes} (hd : d.length ≤ b.writableBytes) :
    ∃ b', (b.copyTo b.writerIndex d).commit d.length = some b' ∧ BufferInv b' ∧
      b'.readable = b.readable ++ d ∧ b'.readerIndex = b.readerIndex := by
  obtain ⟨b', h, hb', hread, hidx, -⟩ := commit_take_spec hb hd le_rfl
  exact ⟨b', h, hb', by rw [hread, List.take_length], hidx⟩

/-- **Appending** adds at the back. -/
theorem append_spec {b : MyBuffer} (hb : BufferInv b) (d : Bytes) :
    ∃ b', b.append d = some b' ∧ BufferInv b' ∧ b'.readable = b.readable ++ d ∧
      (b'.readerIndex = b.readerIndex ∨ b'.readerIndex = kCheapPrepend) := by
  obtain ⟨b₁, h₁, hb₁, hread₁, hlen₁, hidx₁⟩ := ensureWritableBytes_spec hb d.length
  obtain ⟨b₂, h₂, hb₂, hread₂, hidx₂⟩ := commit_spec hb₁ hlen₁
  refine ⟨b₂, ?_, hb₂, by rw [hread₂, hread₁], by rwa [hidx₂]⟩
  simp only [append, h₁]
  exact h₂

/-- **Prepending** adds at the front. -/
theorem prepend_spec {b : MyBuffer} (hb : BufferInv b) {d : Bytes} (hd : d.length ≤ b.readerIndex) :
    ∃ b', b.prepend d = some b' ∧ BufferInv b' ∧ b'.readable = d ++ b.readable ∧
      b'.readerIndex = b.readerIndex - d.length := by
  obtain ⟨hr, hw⟩ := hb
  refine ⟨_, by simp [prepend, guard, prependableBytes, hd]; rfl, ⟨?_, ?_⟩, ?_, rfl⟩
  · simp only [copyTo]
    omega
  · simpa [copyTo] using hw
  · have hoff : b.readerIndex - d.length + d.length = b.readerIndex := Nat.sub_add_cancel hd
    have hlen : (b.buffer.take (b.readerIndex - d.length)).length = b.readerIndex - d.length := by
      simp
      omega
    simp only [readable, copyTo]
    rw [splice_of_le (by omega), hoff, List.drop_take, List.drop_left' hlen, List.take_append,
      List.take_of_length_le (by omega), List.drop_take]
    congr 2
    omega

/-- **Consuming** drops from the front. -/
theorem consume_spec {b : MyBuffer} (hb : BufferInv b) (hcheap : kCheapPrepend ≤ b.buffer.length)
    {len : ℕ} (hlen : len ≤ b.readableBytes) :
    ∃ b', b.consume len = some b' ∧ BufferInv b' ∧ b'.readable = b.readable.drop len ∧
      b'.buffer.length = b.buffer.length ∧
      b'.writes = ⟨b.readerIndex, len, b.buffer.length⟩ :: b.writes := by
  obtain ⟨hr, hw⟩ := hb
  have hzeros : (List.replicate len (0 : UInt8)).length = len := List.length_replicate
  have hbytes := hlen
  unfold readableBytes at hbytes
  by_cases hlt : len < b.readableBytes
  · refine ⟨{ b.copyTo b.readerIndex (List.replicate len 0) with
      readerIndex := b.readerIndex + len }, ?_, ⟨?_, ?_⟩, ?_, ?_, ?_⟩
    · simp [consume, guard, hlen, hlt, copyTo]
    · simp only [copyTo]
      omega
    · simpa [copyTo] using hw
    · -- the zeros are before the contents that are left
      simp only [readable, copyTo]
      rw [splice_of_le (by rw [hzeros]; omega), hzeros, ← List.append_assoc, List.drop_take,
        List.drop_left' (by simp; omega), List.drop_drop, List.drop_take]
    · exact length_splice ..
    · simp [copyTo]
  · refine ⟨(b.copyTo b.readerIndex (List.replicate len 0)).consumeAll, ?_, ⟨le_rfl, ?_⟩, ?_, ?_, ?_⟩
    · simp [consume, guard, hlen, hlt]
    · simpa [consumeAll, copyTo] using hcheap
    · have hnil : b.readable.drop len = [] :=
        List.drop_eq_nil_of_le (by rw [length_readable ⟨hr, hw⟩]; omega)
      rw [hnil]
      simp [readable, consumeAll]
    · exact length_splice ..
    · simp [consumeAll, copyTo]

/-- **Peeking** gives the number in the first four bytes of the contents. -/
theorem peekUint32_spec {b : MyBuffer} (hb : BufferInv b) (hlen : 4 ≤ b.readableBytes) :
    b.peekUint32 = some (peek32 b.readable) := by
  have hlength := length_readable hb
  obtain ⟨s, hs⟩ : ∃ s, b.buffer.drop b.readerIndex = b.readable ++ s := by
    refine ⟨b.buffer.drop b.writerIndex, ?_⟩
    have hr := hb.reader_le
    have hw := hb.writer_le
    rw [readable, ← List.drop_append_of_le_length (by simp; omega), List.take_append_drop]
  rw [peekUint32, guard, if_pos hlen, hs, eq_be32_append (s := b.readable) (by omega),
    List.append_assoc]
  simp [peek32_be32_append]

/-! ## Growing and compacting -/

/-- The contents are moved to the front to make room for `len` bytes. -/
def Compacts (b : MyBuffer) (len : ℕ) : Prop :=
  b.writableBytes < len ∧ len + kCheapPrepend ≤ b.writableBytes + b.prependableBytes

instance (b : MyBuffer) (len : ℕ) : Decidable (b.Compacts len) := inferInstanceAs (Decidable (_ ∧ _))

/-- The writes of a move: the contents, and zeros behind them, as many as the contents are. -/
def compactWrites (b : MyBuffer) : List Write :=
  [⟨kCheapPrepend + b.readableBytes, b.readableBytes, b.buffer.length⟩,
    ⟨kCheapPrepend, b.readableBytes, b.buffer.length⟩]

theorem of_ensureWritableBytes {b b' : MyBuffer} {len : ℕ} (h : b.ensureWritableBytes len = some b') :
    b.writableBytes < len ∧ b.makeSpace len = some b' ∨ len ≤ b.writableBytes ∧ b = b' := by
  unfold ensureWritableBytes at h
  by_cases hlen : b.writableBytes < len
  · simp only [if_pos hlen] at h
    obtain ⟨b₁, h₁, heq⟩ := Option.bind_eq_some_iff.1 h
    obtain ⟨-, -, heq⟩ := Option.bind_eq_some_iff.1 heq
    exact .inl ⟨hlen, h₁.trans heq⟩
  · simp only [if_neg hlen] at h
    obtain ⟨b₁, h₁, heq⟩ := Option.bind_eq_some_iff.1 h
    obtain ⟨-, -, heq⟩ := Option.bind_eq_some_iff.1 heq
    exact .inr ⟨not_lt.1 hlen, Option.some.inj (h₁.trans heq)⟩

/-- Where room is made, the vector gets no smaller, and only a move of the contents writes. -/
theorem ensureWritableBytes_writes {b b' : MyBuffer} (hb : BufferInv b) {len : ℕ}
    (h : b.ensureWritableBytes len = some b') :
    b.buffer.length ≤ b'.buffer.length ∧
      b'.writes = (if b.Compacts len then b.compactWrites else []) ++ b.writes := by
  have hlength := length_readable hb
  rcases of_ensureWritableBytes h with ⟨hlen, h⟩ | ⟨hlen, rfl⟩
  · unfold makeSpace at h
    split at h
    · next hspace =>
      obtain rfl := Option.some.inj h
      rw [if_neg fun hc => absurd hc.2 (Nat.not_le_of_lt hspace)]
      refine ⟨?_, rfl⟩
      simp only [List.length_append, List.length_take, List.length_replicate]
      unfold writableBytes at hlen
      omega
    · next hspace =>
      rw [if_pos ⟨hlen, not_lt.1 hspace⟩]
      obtain ⟨-, -, h⟩ := Option.bind_eq_some_iff.1 h
      obtain ⟨-, -, h⟩ := Option.bind_eq_some_iff.1 h
      obtain rfl := Option.some.inj h
      simp [copyTo, compactWrites, hlength]
  · rw [if_neg fun hc => Nat.not_lt_of_le hlen hc.1]
    exact ⟨le_rfl, rfl⟩

end MyBuffer

end MutexIM.Codec
