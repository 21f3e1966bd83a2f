import MutexIM.Codec.MyBuffer
import MutexIM.Foundations.Runs

/-!
# Writes past the end of the buffer

Where `makeSpace` moves the contents to the front, it clears behind them as many bytes as the
contents are, although there need not be so many.

* `call_writes`: the writes of one call are in bounds exactly when it does not move contents that fill
  more than half of the vector.
* `inBounds_iff`: the writes of a sequence of calls are in bounds exactly when no call does that.
* `compacting_overflows`: a run that writes behind the vector.
-/

namespace MutexIM.Codec

open Bytes

/-- The write stays within the vector. -/
def Write.InBounds (w : Write) : Prop := w.off + w.len ≤ w.size

instance (w : Write) : Decidable w.InBounds := inferInstanceAs (Decidable (_ ≤ _))

namespace MyBuffer

/-- The calls that write to the vector or move its indices. -/
inductive Call
  | append (d : Bytes)
  | prepend (d : Bytes)
  | ensureWritableBytes (len : ℕ)
  | commit (len : ℕ)
  | consume (len : ℕ)

def call (b : MyBuffer) : Call → Option MyBuffer
  | .append d => b.append d
  | .prepend d => b.prepend d
  | .ensureWritableBytes len => b.ensureWritableBytes len
  | .commit len => b.commit len
  | .consume len => b.consume len

/-- The assertion at the start of the function. -/
def Asserted (b : MyBuffer) : Call → Prop
  | .prepend d => d.length ≤ b.prependableBytes
  | .commit len => len ≤ b.writableBytes
  | .consume len => len ≤ b.readableBytes
  | _ => True

instance (b : MyBuffer) (c : Call) : Decidable (b.Asserted c) := by
  unfold Asserted
  split <;> infer_instance

/-- The bytes for which a call makes room. -/
def roomFor : Call → ℕ
  | .append d => d.length
  | .ensureWritableBytes len => len
  | _ => 0

/-- Contents that a call moves to the front fit there twice. -/
def FitsTwice (b : MyBuffer) (c : Call) : Prop :=
  b.Compacts (roomFor c) → kCheapPrepend + 2 * b.readableBytes ≤ b.buffer.length

instance (b : MyBuffer) (c : Call) : Decidable (b.FitsTwice c) := inferInstanceAs (Decidable (_ → _))

/-- The order of the indices, and the room kept before the contents. -/
structure Wf (b : MyBuffer) : Prop extends BufferInv b where
  cheap_le : kCheapPrepend ≤ b.buffer.length

variable {b b' : MyBuffer}

theorem compactWrites_inBounds (hb : BufferInv b) :
    (∀ w ∈ b.compactWrites, w.InBounds) ↔
      kCheapPrepend + 2 * b.readableBytes ≤ b.buffer.length := by
  have hlen := length_readable hb
  have hr := hb.reader_le
  have hw := hb.writer_le
  simp only [compactWrites, List.forall_mem_cons, Write.InBounds]
  constructor
  · rintro ⟨h, -⟩
    omega
  · intro h
    exact ⟨by omega, by omega, List.forall_mem_nil _⟩

/-- Making room. -/
theorem ensureWritableBytes_inBounds (hb : b.Wf) {len : ℕ} (h : b.ensureWritableBytes len = some b') :
    b'.Wf ∧ len ≤ b'.writableBytes ∧ ∃ ws, b'.writes = ws ++ b.writes ∧
      ((∀ w ∈ ws, w.InBounds) ↔
        (b.Compacts len → kCheapPrepend + 2 * b.readableBytes ≤ b.buffer.length)) := by
  obtain ⟨b₁, h₁, hinv, -, hlen, -⟩ := ensureWritableBytes_spec hb.toBufferInv len
  obtain rfl := Option.some.inj (h.symm.trans h₁)
  obtain ⟨hsize, hwrites⟩ := ensureWritableBytes_writes hb.toBufferInv h
  refine ⟨⟨hinv, hb.cheap_le.trans hsize⟩, hlen, _, hwrites, ?_⟩
  by_cases hc : b.Compacts len
  · rw [if_pos hc, compactWrites_inBounds hb.toBufferInv, imp_iff_right hc]
  · rw [if_neg hc]
    exact iff_of_true (List.forall_mem_nil _) fun h => absurd h hc

theorem not_compacts_zero : ¬b.Compacts 0 := fun h => Nat.not_lt_zero _ h.1

/-- **The writes of a call** are in bounds exactly when the contents it moves fit twice. -/
theorem call_writes (hb : b.Wf) {c : Call} (hc : b.Asserted c) (h : b.call c = some b') :
    b'.Wf ∧ ∃ ws, b'.writes = ws ++ b.writes ∧ ((∀ w ∈ ws, w.InBounds) ↔ b.FitsTwice c) := by
  cases c with
  | append d =>
    obtain ⟨b₁, h₁, hcommit⟩ := Option.bind_eq_some_iff.1 h
    obtain ⟨hb₁, hlen, ws, hws, hiff⟩ := ensureWritableBytes_inBounds hb h₁
    obtain ⟨b₂, h₂, hinv, -, -, hsize, hwrites⟩ := commit_take_spec hb₁.toBufferInv hlen le_rfl
    obtain rfl := Option.some.inj (hcommit.symm.trans h₂)
    refine ⟨⟨hinv, hb₁.cheap_le.trans_eq hsize.symm⟩, ⟨b₁.writerIndex, d.length, b₁.buffer.length⟩ :: ws,
      by rw [hwrites, hws]; rfl, ?_⟩
    have hw := hb₁.writer_le
    rw [List.forall_mem_cons, hiff]
    refine and_iff_right ?_
    change b₁.writerIndex + d.length ≤ b₁.buffer.length
    unfold writableBytes at hlen
    omega
  | prepend d =>
    obtain ⟨b₁, h₁, hinv, -⟩ := prepend_spec hb.toBufferInv hc
    obtain rfl := Option.some.inj (h.symm.trans h₁)
    obtain ⟨-, -, heq⟩ := Option.bind_eq_some_iff.1 h
    obtain rfl := Option.some.inj heq
    refine ⟨⟨hinv, by simpa [copyTo] using hb.cheap_le⟩, [_], rfl,
      iff_of_true (fun w hw => ?_) fun h => absurd h not_compacts_zero⟩
    obtain rfl := List.mem_singleton.1 hw
    have hr := hb.reader_le
    have hw := hb.writer_le
    have hd : d.length ≤ b.readerIndex := hc
    simp only [Write.InBounds]
    omega
  | ensureWritableBytes len =>
    obtain ⟨hb', -, hws⟩ := ensureWritableBytes_inBounds hb h
    exact ⟨hb', hws⟩
  | commit len =>
    obtain ⟨-, -, heq⟩ := Option.bind_eq_some_iff.1 h
    obtain rfl := Option.some.inj heq
    have hlen : len ≤ b.buffer.length - b.writerIndex := hc
    have hr := hb.reader_le
    have hw := hb.writer_le
    refine ⟨⟨⟨hr.trans (Nat.le_add_right _ _), ?_⟩, hb.cheap_le⟩, [], rfl,
      iff_of_true (List.forall_mem_nil _) fun h => absurd h not_compacts_zero⟩
    change b.writerIndex + len ≤ b.buffer.length
    omega
  | consume len =>
    obtain ⟨b₁, h₁, hinv, -, hsize, hwrites⟩ := consume_spec hb.toBufferInv hb.cheap_le hc
    obtain rfl := Option.some.inj (h.symm.trans h₁)
    refine ⟨⟨hinv, hb.cheap_le.trans_eq hsize.symm⟩, [_], hwrites,
      iff_of_true (fun w hw => ?_) fun h => absurd h not_compacts_zero⟩
    obtain rfl := List.mem_singleton.1 hw
    have hw := hb.writer_le
    have hlen : len ≤ b.writerIndex - b.readerIndex := hc
    have hr := hb.reader_le
    simp only [Write.InBounds]
    omega

theorem wf_new {n : ℕ} (h : new n = some b) : b.Wf ∧ b.writes = [] := by
  obtain ⟨b₁, h₁, hinv, -⟩ := new_spec n
  obtain rfl := Option.some.inj (h.symm.trans h₁)
  obtain ⟨-, -, h⟩ := Option.bind_eq_some_iff.1 h
  obtain ⟨-, -, h⟩ := Option.bind_eq_some_iff.1 h
  obtain rfl := Option.some.inj h
  exact ⟨⟨hinv, by simp⟩, rfl⟩

/-- From a state on: the writes of the calls to come are in bounds exactly when none of them moves
contents that do not fit twice. -/
theorem run_writes {cs : List Call} (hb : b.Wf) (hrun : Run call Asserted b cs b') :
    ∃ ws, b'.writes = ws ++ b.writes ∧ ((∀ w ∈ ws, w.InBounds) ↔
      Run call (fun b c => b.Asserted c ∧ b.FitsTwice c) b cs b') := by
  induction hrun with
  | nil b => exact ⟨[], rfl, iff_of_true (List.forall_mem_nil _) (.nil b)⟩
  | cons hok hstep hrest ih =>
    obtain ⟨hb₁, ws, hws, hiff⟩ := call_writes hb hok hstep
    obtain ⟨ws', hws', hiff'⟩ := ih hb₁
    refine ⟨ws' ++ ws, by rw [hws', hws, List.append_assoc], ?_⟩
    rw [List.forall_mem_append, hiff, hiff']
    constructor
    · rintro ⟨hrun, hfits⟩
      exact .cons ⟨hok, hfits⟩ hstep hrun
    · intro hrun
      cases hrun with
      | cons hok₂ hstep₂ hrun =>
        obtain rfl := Option.some.inj (hstep.symm.trans hstep₂)
        exact ⟨hrun, hok₂.2⟩

/-- **When the buffer is never written past its end.** Whatever calls are made whose assertions hold:
every write is within the vector if and only if no call moves contents to the front that do not fit
there twice. Sizes are numbers, so this is about calls in which no `size_t` sum wraps. -/
theorem inBounds_iff {n : ℕ} (hnew : new n = some b) {cs : List Call}
    (hrun : Run call Asserted b cs b') :
    (∀ w ∈ b'.writes, w.InBounds) ↔
      Run call (fun b c => b.Asserted c ∧ b.FitsTwice c) b cs b' := by
  obtain ⟨hb, hnil⟩ := wf_new hnew
  obtain ⟨ws, hws, hiff⟩ := run_writes hb hrun
  rw [hws, hnil, List.append_nil, hiff]

/-- Calls after which the contents are moved, four bytes of a hundred. -/
def movingCalls (len : ℕ) : List Call :=
  [.append (List.replicate 100 1), .consume (100 - len), .append (List.replicate 20 2)]

theorem inBounds_moving : ∃ b b', new 100 = some b ∧ Run call Asserted b (movingCalls 4) b' ∧
    ∀ w ∈ b'.writes, w.InBounds := by
  have hsome : ((new 100).bind fun b => exec call (fun b c => b.Asserted c ∧ b.FitsTwice c) b
      (movingCalls 4)).isSome = true := by decide +kernel
  obtain ⟨b', hb'⟩ := Option.isSome_iff_exists.1 hsome
  obtain ⟨b, hb, hexec⟩ := Option.bind_eq_some_iff.1 hb'
  have hrun := Run.of_exec hexec
  have hasserted := hrun.mono fun _ _ h => h.1
  exact ⟨b, b', hb, hasserted, (inBounds_iff hb hasserted).2 hrun⟩

/-- **A write past the end**: eighty bytes of a hundred are moved to the front, and the next eighty are
cleared, of which twenty are in the vector. -/
theorem compacting_overflows : ∃ b b', new 100 = some b ∧ Run call Asserted b (movingCalls 80) b' ∧
    ¬∀ w ∈ b'.writes, w.InBounds := by
  have hexec : ((new 100).bind fun b => exec call Asserted b (movingCalls 80)).any
      (fun b' => b'.writes.any fun w => !decide w.InBounds) = true := by decide +kernel
  obtain ⟨b', hb', hany⟩ := (Option.any_eq_true _ _).1 hexec
  obtain ⟨b, hb, hrun⟩ := Option.bind_eq_some_iff.1 hb'
  refine ⟨b, b', hb, .of_exec hrun, fun h => ?_⟩
  obtain ⟨w, hw, hout⟩ := List.any_eq_true.1 hany
  simp [h w hw] at hout

end MyBuffer

end MutexIM.Codec
