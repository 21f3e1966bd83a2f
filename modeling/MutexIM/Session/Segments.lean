import MutexIM.Foundations.Runs
import MutexIM.Session.ReadLoop

/-!
# Segments

TCP delivers a stream in segments of any size. `async_read_until` puts each one behind what is in
`m_buffer` and completes as soon as there is a CR LF; then `handle_read` takes the bytes up to its end,
and the next read finds the rest already buffered. `AsyncTcpClient` reads with the same text.

* `Reader.step`: a segment arrives, or a read completes.
* `Reader.framed_step`: what was passed on and what will be cut from the buffer are the pieces of the
  bytes that have arrived.
* `framing_of_runs`: the strings passed on do not depend on the segments.
-/

namespace MutexIM.Session

open Bytes Codec Delimited

/-- A session that reads: `m_buffer`, and as history the strings passed to `messageCallback_` and the
bytes that have arrived. -/
structure Reader where
  buffer : Bytes
  passed : List Bytes
  arrived : Bytes

namespace Reader

/-- A session that has called `read` for the first time. -/
def start : Reader := ⟨[], [], []⟩

inductive Event
  | segment (seg : Bytes)
  | handleRead

def step (d : Reader) : Event → Option Reader
  | .segment seg => some { d with buffer := d.buffer ++ seg, arrived := d.arrived ++ seg }
  | .handleRead => (read d.buffer).map fun bytesTransferred =>
    let (message, rest) := handleRead d.buffer bytesTransferred
    { d with buffer := rest, passed := d.passed ++ [message] }

/-- No read can complete before more bytes arrive. -/
def Waits (d : Reader) : Prop := read d.buffer = none

instance (d : Reader) : Decidable d.Waits := inferInstanceAs (Decidable (_ = none))

/-- What was passed on, and what is to be cut from the buffer, are the pieces of the stream. -/
structure Framed (d : Reader) : Prop where
  passed : d.passed ++ (chop 13 10 d.buffer).1 = (chop 13 10 d.arrived).1
  rest : (chop 13 10 d.buffer).2 = (chop 13 10 d.arrived).2

variable {d d' : Reader} {es es' : List Event}

theorem framed_start : start.Framed := ⟨rfl, rfl⟩

/-- More bytes are cut behind what was left of the ones before. -/
theorem Framed.segment (hd : d.Framed) (seg : Bytes) :
    Framed { d with buffer := d.buffer ++ seg, arrived := d.arrived ++ seg } := by
  have hbuffer := chop_append_rest (a := 13) (b := 10) d.buffer seg
  have harrived := chop_append_rest (a := 13) (b := 10) d.arrived seg
  rw [hd.rest] at hbuffer
  constructor
  · change d.passed ++ (chop 13 10 (d.buffer ++ seg)).1 = (chop 13 10 (d.arrived ++ seg)).1
    rw [hbuffer, harrived, ← hd.passed, List.append_assoc]
  · change (chop 13 10 (d.buffer ++ seg)).2 = (chop 13 10 (d.arrived ++ seg)).2
    rw [hbuffer, harrived]

/-- A completed read passes the first piece on. -/
theorem Framed.handleRead (hd : d.Framed) {n : ℕ} (hn : read d.buffer = some n) :
    Framed { d with buffer := d.buffer.drop n, passed := d.passed ++ [d.buffer.take n] } := by
  have hbuffer := chop_of_some hn
  constructor
  · change (d.passed ++ [d.buffer.take n]) ++ (chop 13 10 (d.buffer.drop n)).1 = _
    rw [← hd.passed, hbuffer, List.append_assoc, List.singleton_append]
  · change (chop 13 10 (d.buffer.drop n)).2 = _
    rw [← hd.rest, hbuffer]

/-- **What a step preserves.** -/
theorem framed_step (hd : d.Framed) {e : Event} (h : d.step e = some d') : d'.Framed := by
  cases e with
  | segment seg =>
    obtain rfl := Option.some.inj h
    exact hd.segment seg
  | handleRead =>
    obtain ⟨n, hn, rfl⟩ := Option.map_eq_some_iff.1 h
    exact hd.handleRead hn

theorem framed_of_run (h : Run step (fun _ _ => True) start es d) : d.Framed :=
  h.invariant (fun _ _ _ hd _ hstep => framed_step hd hstep) framed_start

/-- A reader that waits has passed on all pieces of the stream, and keeps the rest. -/
theorem Framed.eq_chop (hd : d.Framed) (hwaits : d.Waits) :
    d.passed = (chop 13 10 d.arrived).1 ∧ d.buffer = (chop 13 10 d.arrived).2 := by
  have hbuffer := chop_of_none hwaits
  have hpassed := hd.passed
  have hrest := hd.rest
  rw [hbuffer] at hpassed hrest
  exact ⟨(List.append_nil _).symm.trans hpassed, hrest⟩

/-- These are the strings given to the codec for the segments of the stream. -/
theorem Framed.messages_eq (hd : d.Framed) (hwaits : d.Waits) {segs : List Bytes}
    (hsegs : segs.flatten = d.arrived) : messages segs = d.passed := by
  rw [messages_eq_chop, hsegs, (hd.eq_chop hwaits).1]

/-- The bytes that arrive in a run. -/
def stream (es : List Event) : Bytes :=
  es.flatMap fun
    | .segment seg => seg
    | .handleRead => []

theorem arrived_of_run {s : Reader} (h : Run step (fun _ _ => True) s es d) :
    d.arrived = s.arrived ++ stream es := by
  induction h with
  | nil s => exact (List.append_nil _).symm
  | @cons s s' t e es _ hstep _ ih =>
    rw [ih, stream, stream, List.flatMap_cons, ← List.append_assoc]
    congr 1
    cases e with
    | segment seg => exact Option.some.inj hstep ▸ rfl
    | handleRead =>
      obtain ⟨n, -, rfl⟩ := Option.map_eq_some_iff.1 hstep
      exact (List.append_nil _).symm

/-- **Framing does not depend on segmentation.** Two sessions that get the same bytes, in whatever
segments and with their reads completing whenever they can, have passed on the same strings and keep
the same bytes when no read can complete any more. Each string passed on ends in CR LF and has no CR
LF before, and in every state they are, with the buffer behind them, the bytes that have arrived. -/
theorem framing_of_runs (h : Run step (fun _ _ => True) start es d)
    (h' : Run step (fun _ _ => True) start es' d') :
    (stream es = stream es' → d.Waits → d'.Waits → d.passed = d'.passed ∧ d.buffer = d'.buffer) ∧
      (∀ message ∈ d.passed,
        crlf <:+ message ∧ ∀ x y, message = x ++ crlf ++ y → y = []) ∧
      d.passed.flatten ++ d.buffer = stream es := by
  have hd := framed_of_run h
  have harrived : d.arrived = stream es := arrived_of_run h
  refine ⟨fun hstream hwaits hwaits' => ?_, fun message hmessage => ?_, ?_⟩
  · have harrived' : d'.arrived = stream es' := arrived_of_run h'
    obtain ⟨hpassed, hbuffer⟩ := hd.eq_chop hwaits
    obtain ⟨hpassed', hbuffer'⟩ := (framed_of_run h').eq_chop hwaits'
    rw [hpassed, hbuffer, hpassed', hbuffer', harrived, harrived', hstream]
    exact ⟨rfl, rfl⟩
  · refine single_iff.1 (single_of_mem_chop (s := d.arrived) ?_)
    rw [← hd.passed]
    exact List.mem_append_left _ hmessage
  · have hpieces := flatten_chop (a := 13) (b := 10) d.arrived
    rw [← hd.passed, ← hd.rest, List.flatten_append, List.append_assoc, flatten_chop, harrived]
      at hpieces
    exact hpieces

/-- Two strings, cut between CR and LF, and in one segment. -/
theorem framing_of_cut : ∃ d d', Run step (fun _ _ => True) start
      [.segment [97, 13], .segment [10, 98, 13, 10], .handleRead, .handleRead] d ∧
    Run step (fun _ _ => True) start
      [.segment [97, 13, 10, 98, 13, 10], .handleRead, .handleRead] d' ∧ d.passed = d'.passed := by
  have hrun : (exec step (fun _ _ => True) start
      [.segment [97, 13], .segment [10, 98, 13, 10], .handleRead, .handleRead]).any
      (fun d => decide d.Waits) = true := by decide
  have hrun' : (exec step (fun _ _ => True) start
      [.segment [97, 13, 10, 98, 13, 10], .handleRead, .handleRead]).any
      (fun d => decide d.Waits) = true := by decide
  obtain ⟨d, h, hwaits⟩ := Run.exists_of_exec hrun
  obtain ⟨d', h', hwaits'⟩ := Run.exists_of_exec hrun'
  exact ⟨d, d', h, h', ((framing_of_runs h h').1 (by decide) hwaits hwaits').1⟩

end Reader

end MutexIM.Session
