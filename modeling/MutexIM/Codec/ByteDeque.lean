import MutexIM.Codec.MyBuffer
import MutexIM.Foundations.Runs

/-!
# The byte buffer as a deque

What `MyBuffer` is for: a sequence of bytes to which bytes are added at either end and from whose
front they are taken. `ByteDeque` is that sequence, without indices and without a capacity.

* `BufferUse.step` is a call of a member function of the buffer; it is `none` when an assertion fails.
* `BufferUse.Allowed` is what a caller has to see to.
* `call_spec`: a call that is allowed fails no assertion and does to the contents what it does to the
  deque.
* `refines_deque`: so does every sequence of calls.
-/

namespace MutexIM.Codec

open Bytes MyBuffer

/-- The calls of a buffer. `produce` is `ensureWritableBytes(len)`, after which `d` is written at
`beginWrite()` and the first `k` bytes of it are committed. -/
inductive BufferCall
  | append (d : Bytes)
  | appendUint32 (x : UInt32)
  | appendInt16 (x : Int16)
  | prepend (d : Bytes)
  | prependInt32 (x : Int32)
  | produce (len : ℕ) (d : Bytes) (k : ℕ)
  | consume (len : ℕ)
  | readUint32
  | peekUint32

/-! ## The deque -/

/-- A sequence of bytes, with the numbers read from it so far. -/
structure ByteDeque where
  bytes : Bytes
  results : List ℕ

namespace ByteDeque

def empty : ByteDeque := ⟨[], []⟩

def pushBack (q : ByteDeque) (d : Bytes) : ByteDeque := { q with bytes := q.bytes ++ d }

def pushFront (q : ByteDeque) (d : Bytes) : ByteDeque := { q with bytes := d ++ q.bytes }

def popFront (q : ByteDeque) (len : ℕ) : ByteDeque := { q with bytes := q.bytes.drop len }

/-- The number in the first four bytes is read. -/
def peek (q : ByteDeque) : ByteDeque := { q with results := q.results ++ [peek32 q.bytes] }

def step (q : ByteDeque) : BufferCall → ByteDeque
  | .append d => q.pushBack d
  | .appendUint32 x => q.pushBack (be32 x.toNat)
  | .appendInt16 x => q.pushBack (be16 x.toUInt16.toNat)
  | .prepend d => q.pushFront d
  | .prependInt32 x => q.pushFront (be32 x.toUInt32.toNat)
  | .produce _ d k => q.pushBack (d.take k)
  | .consume len => q.popFront len
  | .readUint32 => q.peek.popFront 4
  | .peekUint32 => q.peek

end ByteDeque

/-! ## The buffer -/

/-- A buffer in use, with the numbers read from it so far. -/
structure BufferUse where
  buffer : MyBuffer
  results : List ℕ

namespace BufferUse

def step (u : BufferUse) : BufferCall → Option BufferUse
  | .append d => (u.buffer.append d).map ({ u with buffer := · })
  | .appendUint32 x => (u.buffer.appendUint32 x.toNat).map ({ u with buffer := · })
  | .appendInt16 x => (u.buffer.appendInt16 x).map ({ u with buffer := · })
  | .prepend d => (u.buffer.prepend d).map ({ u with buffer := · })
  | .prependInt32 x => (u.buffer.prependInt32 x).map ({ u with buffer := · })
  | .produce len d k =>
    ((u.buffer.ensureWritableBytes len).bind fun b => (b.writeAtBeginWrite d).commit k).map
      ({ u with buffer := · })
  | .consume len => (u.buffer.consume len).map ({ u with buffer := · })
  | .readUint32 => u.buffer.readUint32.map fun (x, b) => ⟨b, u.results ++ [x]⟩
  | .peekUint32 => u.buffer.peekUint32.map fun x => { u with results := u.results ++ [x] }

/-- What a caller has to see to. -/
def Allowed (u : BufferUse) : BufferCall → Prop
  | .prepend d => d.length ≤ u.buffer.prependableBytes
  | .prependInt32 _ => 4 ≤ u.buffer.prependableBytes
  | .produce len d k => d.length ≤ len ∧ k ≤ d.length
  | .consume len => len ≤ u.buffer.readableBytes
  | .readUint32 | .peekUint32 => 4 ≤ u.buffer.readableBytes
  | _ => True

instance (u : BufferUse) (c : BufferCall) : Decidable (u.Allowed c) := by
  unfold Allowed
  split <;> infer_instance

/-- The buffer's contents and results are the deque's, and its indices are in order. -/
structure Refines (u : BufferUse) (q : ByteDeque) : Prop where
  inv : BufferInv u.buffer
  cheap_le : kCheapPrepend ≤ u.buffer.buffer.length
  bytes : u.buffer.readable = q.bytes
  results : u.results = q.results

end BufferUse

namespace BufferUse.Refines

variable {u : BufferUse} {q : ByteDeque}

/-- The buffer is replaced. -/
theorem withBuffer (h : u.Refines q) {b : MyBuffer} {q' : ByteDeque} (hb : BufferInv b)
    (hlen : u.buffer.buffer.length ≤ b.buffer.length) (hbytes : b.readable = q'.bytes)
    (hresults : q'.results = q.results) : ({ u with buffer := b } : BufferUse).Refines q' :=
  ⟨hb, h.cheap_le.trans hlen, hbytes, h.results.trans hresults.symm⟩

theorem produce (h : u.Refines q) {len k : ℕ} {d : Bytes} (hd : d.length ≤ len)
    (hk : k ≤ d.length) :
    ∃ b, ((u.buffer.ensureWritableBytes len).bind fun b =>
        (b.writeAtBeginWrite d).commit k) = some b ∧
      ({ u with buffer := b } : BufferUse).Refines (q.pushBack (d.take k)) := by
  obtain ⟨b₁, h₁, hb₁, hread₁, hlen₁, -⟩ := ensureWritableBytes_spec h.inv len
  obtain ⟨b₂, h₂, hb₂, hread₂, -, hlen₂, -⟩ := commit_take_spec hb₁ (hd.trans hlen₁) hk
  have hsize := (ensureWritableBytes_writes h.inv h₁).1
  refine ⟨b₂, ?_, h.withBuffer hb₂ (hsize.trans_eq hlen₂.symm) ?_ rfl⟩
  · rw [h₁]
    exact h₂
  · rw [hread₂, hread₁, h.bytes]
    rfl

theorem append (h : u.Refines q) (d : Bytes) :
    ∃ b, u.buffer.append d = some b ∧ ({ u with buffer := b } : BufferUse).Refines (q.pushBack d) := by
  obtain ⟨b, hb, hrefines⟩ := h.produce (d := d) le_rfl le_rfl
  rw [List.take_length] at hrefines
  exact ⟨b, hb, hrefines⟩

theorem prepend (h : u.Refines q) {d : Bytes} (hd : d.length ≤ u.buffer.prependableBytes) :
    ∃ b, u.buffer.prepend d = some b ∧
      ({ u with buffer := b } : BufferUse).Refines (q.pushFront d) := by
  obtain ⟨b, hb, hinv, hread, -⟩ := prepend_spec h.inv hd
  have hlen : u.buffer.buffer.length = b.buffer.length := by
    obtain ⟨-, -, heq⟩ := Option.bind_eq_some_iff.1 hb
    obtain rfl := Option.some.inj heq
    simp [copyTo]
  refine ⟨b, hb, h.withBuffer hinv hlen.le ?_ rfl⟩
  rw [hread, h.bytes]
  rfl

theorem consume (h : u.Refines q) {len : ℕ} (hlen : len ≤ u.buffer.readableBytes) :
    ∃ b, u.buffer.consume len = some b ∧
      ({ u with buffer := b } : BufferUse).Refines (q.popFront len) := by
  obtain ⟨b, hb, hinv, hread, hsize, -⟩ := consume_spec h.inv h.cheap_le hlen
  refine ⟨b, hb, h.withBuffer hinv hsize.ge ?_ rfl⟩
  rw [hread, h.bytes]
  rfl

theorem peekUint32 (h : u.Refines q) (hlen : 4 ≤ u.buffer.readableBytes) :
    u.buffer.peekUint32 = some (peek32 q.bytes) := by
  rw [peekUint32_spec h.inv hlen, h.bytes]

/-- **A call that is allowed** fails no assertion and does to the contents what it does to the
deque. -/
theorem call_spec (h : u.Refines q) {c : BufferCall} (hc : u.Allowed c) :
    ∃ u', u.step c = some u' ∧ u'.Refines (q.step c) := by
  cases c with
  | append d =>
    obtain ⟨b, hb, hrefines⟩ := h.append d
    exact ⟨_, by rw [step, hb]; rfl, hrefines⟩
  | appendUint32 x =>
    obtain ⟨b, hb, hrefines⟩ := h.append (be32 x.toNat)
    exact ⟨_, by rw [step, appendUint32, hb]; rfl, hrefines⟩
  | appendInt16 x =>
    obtain ⟨b, hb, hrefines⟩ := h.append (be16 x.toUInt16.toNat)
    exact ⟨_, by rw [step, appendInt16, hb]; rfl, hrefines⟩
  | prepend d =>
    obtain ⟨b, hb, hrefines⟩ := h.prepend hc
    exact ⟨_, by rw [step, hb]; rfl, hrefines⟩
  | prependInt32 x =>
    obtain ⟨b, hb, hrefines⟩ := h.prepend (d := be32 x.toUInt32.toNat) hc
    exact ⟨_, by rw [step, prependInt32, hb]; rfl, hrefines⟩
  | produce len d k =>
    obtain ⟨b, hb, hrefines⟩ := h.produce hc.1 hc.2
    exact ⟨_, by rw [step, hb]; rfl, hrefines⟩
  | consume len =>
    obtain ⟨b, hb, hrefines⟩ := h.consume hc
    exact ⟨_, by rw [step, hb]; rfl, hrefines⟩
  | readUint32 =>
    obtain ⟨b, hb, hrefines⟩ := h.consume hc
    refine ⟨⟨b, u.results ++ [peek32 q.bytes]⟩, ?_, ?_⟩
    · rw [step, readUint32, h.peekUint32 hc]
      simp [hb]
    · exact ⟨hrefines.inv, hrefines.cheap_le, hrefines.bytes, by rw [h.results]; rfl⟩
  | peekUint32 =>
    refine ⟨⟨u.buffer, u.results ++ [peek32 q.bytes]⟩, ?_, ?_⟩
    · rw [step, h.peekUint32 hc]
      rfl
    · exact ⟨h.inv, h.cheap_le, h.bytes, by rw [h.results]; rfl⟩

theorem of_new {n : ℕ} {b : MyBuffer} (h : MyBuffer.new n = some b) :
    BufferUse.Refines ⟨b, []⟩ .empty := by
  obtain ⟨b', hb', hinv, hread, -⟩ := new_spec n
  obtain rfl := Option.some.inj (h.symm.trans hb')
  refine ⟨hinv, ?_, hread, rfl⟩
  have hsize : b.buffer = List.replicate (kCheapPrepend + n) 0 := by
    obtain ⟨-, -, h⟩ := Option.bind_eq_some_iff.1 h
    obtain ⟨-, -, h⟩ := Option.bind_eq_some_iff.1 h
    exact (Option.some.inj h).symm ▸ rfl
  simp [hsize]

end BufferUse.Refines

/-- What is left of a deque to which a number was added, when what was there before is taken. -/
theorem ByteDeque.foldl_appendUint32 (q : ByteDeque) (x : UInt32) :
    ([.appendUint32 x, .consume q.bytes.length, .readUint32].foldl ByteDeque.step q).results =
      q.results ++ [x.toNat] := by
  have hx : x.toNat % 2 ^ 32 = x.toNat := Nat.mod_eq_of_lt x.toNat_lt
  have hpeek := peek32_be32_append x.toNat []
  rw [List.append_nil, hx] at hpeek
  simp only [List.foldl_cons, List.foldl_nil, step, pushBack, popFront, peek, List.drop_left, hpeek]

/-- **The buffer refines a deque.** Whatever calls are made, if each is allowed where it is made: no
assertion fails, the contents and the numbers read are those of the deque, and the indices are in
order. Room that is asked for is there, and a number that was appended is read again. -/
theorem refines_deque {n : ℕ} {b : MyBuffer} (hnew : MyBuffer.new n = some b)
    {cs : List BufferCall} {u : BufferUse}
    (hrun : Run BufferUse.step BufferUse.Allowed ⟨b, []⟩ cs u) :
    u.buffer.readable = (cs.foldl ByteDeque.step .empty).bytes ∧
    u.results = (cs.foldl ByteDeque.step .empty).results ∧
    u.buffer.readerIndex ≤ u.buffer.writerIndex ∧
    u.buffer.writerIndex ≤ u.buffer.buffer.length ∧
    (∀ c, u.Allowed c → ∃ u', u.step c = some u') ∧
    (∀ len, ∃ b', u.buffer.ensureWritableBytes len = some b' ∧ len ≤ b'.writableBytes) ∧
    ∀ x : UInt32, ∃ u', Run BufferUse.step BufferUse.Allowed u
        [.appendUint32 x, .consume u.buffer.readableBytes, .readUint32] u' ∧
      u'.results = u.results ++ [x.toNat] := by
  have h : u.Refines (cs.foldl ByteDeque.step .empty) :=
    hrun.refines (fun u q c u' h hc hstep => by
      obtain ⟨u'', hu'', hrefines⟩ := h.call_spec hc
      rwa [Option.some.inj (hstep.symm.trans hu'')]) (.of_new hnew)
  generalize cs.foldl ByteDeque.step .empty = q at h
  refine ⟨h.bytes, h.results, h.inv.reader_le, h.inv.writer_le, fun c hc => ?_, fun len => ?_,
    fun x => ?_⟩
  · obtain ⟨u', hu', -⟩ := h.call_spec hc
    exact ⟨u', hu'⟩
  · obtain ⟨b', hb', -, -, hlen, -⟩ := ensureWritableBytes_spec h.inv len
    exact ⟨b', hb', hlen⟩
  · have hq : q.bytes.length = u.buffer.readableBytes := by rw [← h.bytes, length_readable h.inv]
    obtain ⟨u₁, hu₁, h₁⟩ := h.call_spec (c := .appendUint32 x) trivial
    have hlen₁ : u₁.buffer.readableBytes = q.bytes.length + 4 := by
      rw [← length_readable h₁.inv, h₁.bytes]
      simp [ByteDeque.step, ByteDeque.pushBack]
    have hc₂ : u₁.Allowed (.consume u.buffer.readableBytes) := by
      unfold BufferUse.Allowed
      omega
    obtain ⟨u₂, hu₂, h₂⟩ := h₁.call_spec hc₂
    have hc₃ : u₂.Allowed .readUint32 := by
      unfold BufferUse.Allowed
      rw [← length_readable h₂.inv, h₂.bytes, ← hq]
      simp [ByteDeque.step, ByteDeque.pushBack, ByteDeque.popFront]
    obtain ⟨u₃, hu₃, h₃⟩ := h₂.call_spec hc₃
    refine ⟨u₃, .cons trivial hu₁ (.cons hc₂ hu₂ (.cons hc₃ hu₃ (.nil _))), ?_⟩
    rw [h₃.results, h.results, ← ByteDeque.foldl_appendUint32 q x, hq]
    rfl

/-- A buffer for ten bytes: the contents are moved, and then grow. -/
def mixedCalls : List BufferCall :=
  [.append [1, 2, 3, 4, 5, 6, 7, 8], .consume 6, .appendUint32 9, .prependInt32 3, .readUint32,
    .produce 20 [10, 11, 12] 2, .consume 2, .peekUint32]

theorem refines_deque_mixedCalls :
    ∃ b u, MyBuffer.new 10 = some b ∧
      Run BufferUse.step BufferUse.Allowed ⟨b, []⟩ mixedCalls u ∧
      u.buffer.readable = [0, 0, 0, 9, 10, 11] ∧ u.results = [3, 9] := by
  obtain ⟨b, hb, -⟩ := new_spec 10
  have hsome : ((MyBuffer.new 10).bind fun b =>
      exec BufferUse.step BufferUse.Allowed ⟨b, []⟩ mixedCalls).isSome = true := by decide
  rw [hb] at hsome
  obtain ⟨u, hu⟩ := Option.isSome_iff_exists.1 hsome
  have hrun := Run.of_exec hu
  obtain ⟨hbytes, hresults, -⟩ := refines_deque hb hrun
  exact ⟨b, u, hb, hrun, hbytes, hresults⟩

end MutexIM.Codec
