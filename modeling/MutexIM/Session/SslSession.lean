import MutexIM.Session.SendQueue

/-!
# Writes on the TLS stream

An `ssl_Session` answers every request with `sslSend`, which queues the response and starts an
`async_write` for it at once. An `async_write` sends its buffer in several steps, and another one must
not be started on the stream before its handler runs. The session goes on reading meanwhile.

* `sslSend`, `handleWrite`, `stop`: what the session does.
* `atMostOne_iff_of_run`: no two writes are outstanding at once exactly if every request finds that the
  writes before it have completed; then the bytes sent are those of the responses on end.
* `overlapping_writes`: two requests, and the bytes of the responses are mixed.
-/

namespace MutexIM.Session

open Bytes Codec

/-- An `async_write` that was started: its buffer, `peek()` as an offset, `readableBytes()`, and the
number of bytes it has sent. -/
structure SslWrite where
  buffer : ℕ
  off : ℕ
  len : ℕ
  written : ℕ

/-- What a session writes: the buffers that were made, the queue, the writes outstanding, the bytes sent,
and as history the responses a write was started for. -/
structure SslSession where
  isConnected : Bool
  buffers : ℕ → MyBuffer
  made : ℕ
  sendMessages : List ℕ
  pending : List SslWrite
  transmitted : Bytes
  responses : List Bytes

namespace SslSession

/-- A session that was started. -/
def connected : SslSession where
  isConnected := true
  buffers _ := ⟨[], 0, 0, []⟩
  made := 0
  sendMessages := []
  pending := []
  transmitted := []
  responses := []

variable (s : SslSession)

/-- `ssl_Session::sslSend`. -/
def sslSend (ptrBuffer : ℕ) : SslSession :=
  if s.isConnected then
    { s with
      sendMessages := s.sendMessages ++ [ptrBuffer]
      pending := s.pending ++
        [⟨ptrBuffer, (s.buffers ptrBuffer).readerIndex, (s.buffers ptrBuffer).readableBytes, 0⟩]
      responses := s.responses ++ [(s.buffers ptrBuffer).readable] }
  else s

/-- `ssl_Session::handle_write` without an error, as it is built for release. -/
def handleWrite (bytesTransferred : ℕ) : Option SslSession :=
  match s.sendMessages with
  | [] => some s
  | front :: rest => do
    let b ← (s.buffers front).consume bytesTransferred
    return { s with buffers := Function.update s.buffers front b, sendMessages := rest }

/-- `ssl_Session::stop`, which the server calls when a read or a write fails. -/
def stop : SslSession := { s with isConnected := false }

/-- A response is encoded into a new buffer. -/
def make (b : MyBuffer) : SslSession :=
  { s with buffers := Function.update s.buffers s.made b, made := s.made + 1 }

/-- The bytes that a write is to send. -/
def bytes (w : SslWrite) : Bytes := ((s.buffers w.buffer).buffer.drop w.off).take w.len

/-- A request is answered; a write outstanding sends more of its bytes, completes, or fails; or a read
fails. Writes are numbered in the order in which they were started. -/
inductive Event
  | request (response : MyBuffer)
  | writeSome (i n : ℕ)
  | complete (i : ℕ)
  | fail (i : ℕ)
  | disconnect

def step : Event → Option SslSession
  | .request response => some ((s.make response).sslSend s.made)
  | .writeSome i n =>
    match s.pending[i]? with
    | none => none
    | some w =>
      if s.isConnected ∧ w.written + n ≤ w.len then some
        { s with
          pending := s.pending.set i { w with written := w.written + n }
          transmitted := s.transmitted ++ ((s.bytes w).drop w.written).take n }
      else none
  | .complete i =>
    match s.pending[i]? with
    | none => none
    | some w =>
      if w.written = w.len then { s with pending := s.pending.eraseIdx i }.handleWrite w.len else none
  | .fail i =>
    if i < s.pending.length then some { s with pending := s.pending.eraseIdx i }.stop else none
  | .disconnect => some s.stop

/-- No two writes are outstanding. -/
def AtMostOne : Prop := s.pending.length ≤ 1

/-- The condition on an event: when a request is answered, the writes started before have completed. -/
def Awaited : Event → Prop
  | .request _ => s.isConnected = true → s.pending = []
  | _ => True

instance : Decidable s.AtMostOne := inferInstanceAs (Decidable (_ ≤ _))

instance (e : Event) : Decidable (s.Awaited e) := by
  unfold Awaited
  split
  · exact decidable_of_iff (s.isConnected = true → s.pending.isEmpty = true) (by simp)
  · infer_instance

variable {s} {s' : SslSession}

/-! ## Writes outstanding -/

/-- What the completion of a write does to the queue. -/
theorem handleWrite_cases {n : ℕ} (h : s.handleWrite n = some s') :
    s' = s ∧ s.sendMessages = [] ∨ ∃ front rest b, s.sendMessages = front :: rest ∧
      s' = { s with buffers := Function.update s.buffers front b, sendMessages := rest } := by
  unfold handleWrite at h
  split at h
  · next hnil => exact .inl ⟨(Option.some.inj h).symm, hnil⟩
  · next front rest hcons =>
    obtain ⟨b, -, hb⟩ := Option.bind_eq_some_iff.1 h
    exact .inr ⟨front, rest, b, hcons, (Option.some.inj hb).symm⟩

theorem pending_handleWrite {n : ℕ} (h : s.handleWrite n = some s') : s'.pending = s.pending := by
  obtain ⟨rfl, -⟩ | ⟨front, rest, b, -, rfl⟩ := handleWrite_cases h <;> rfl

/-- **An event starts a second write** if and only if it is a request that was not awaited. -/
theorem atMostOne_step (hs : s.AtMostOne) {e : Event} (h : s.step e = some s') :
    s.Awaited e ↔ s'.AtMostOne := by
  cases e with
  | request response =>
    obtain rfl := Option.some.inj h
    change (s.isConnected = true → s.pending = []) ↔ _
    unfold AtMostOne sslSend
    by_cases hconn : s.isConnected = true
    · rw [if_pos (show (s.make response).isConnected = true from hconn), List.length_append,
        List.length_singleton, ← List.length_eq_zero_iff]
      change _ ↔ s.pending.length + 1 ≤ 1
      simp [hconn]
    · rw [if_neg (show ¬(s.make response).isConnected = true from hconn)]
      exact iff_of_true (fun h => absurd h hconn) hs
  | writeSome i n =>
    refine iff_of_true trivial ?_
    simp only [step] at h
    split at h
    · cases h
    · split at h
      · obtain rfl := Option.some.inj h
        exact (List.length_set ..).trans_le hs
      · cases h
  | complete i =>
    refine iff_of_true trivial ?_
    simp only [step] at h
    split at h
    · cases h
    · split at h
      · rw [AtMostOne, pending_handleWrite h]
        exact (List.length_eraseIdx_le ..).trans hs
      · cases h
  | fail i =>
    refine iff_of_true trivial ?_
    simp only [step] at h
    split at h
    · obtain rfl := Option.some.inj h
      exact (List.length_eraseIdx_le ..).trans hs
    · cases h
  | disconnect =>
    obtain rfl := Option.some.inj h
    exact iff_of_true trivial hs

/-! ## The bytes sent -/

/-- Every response before the one that is being sent, if there is one, has been sent to its end. -/
inductive Sending (s : SslSession) : Prop
  | idle (pending : s.pending = []) (queue : s.sendMessages = [])
      (sent : s.transmitted = s.responses.flatten)
  | busy (w : SslWrite) (done : List Bytes) (pending : s.pending = [w])
      (queue : s.sendMessages = [w.buffer]) (responses : s.responses = done ++ [s.bytes w])
      (sent : s.transmitted = done.flatten ++ (s.bytes w).take w.written)

/-- The bytes sent are a beginning of the responses on end. -/
structure InOrder (s : SslSession) : Prop where
  initial : s.transmitted <+: s.responses.flatten
  sending : s.isConnected = true → s.Sending

theorem inOrder_connected : connected.InOrder where
  initial := List.nil_prefix
  sending _ := .idle rfl rfl rfl

theorem Sending.initial (h : s.Sending) : s.transmitted <+: s.responses.flatten := by
  cases h with
  | idle _ _ sent => rw [sent]
  | busy w done _ _ responses sent =>
    rw [sent, responses, List.flatten_append, List.flatten_singleton, List.prefix_append_right_inj]
    exact List.take_prefix ..

theorem Sending.inOrder (h : s.Sending) : s.InOrder := ⟨h.initial, fun _ => h⟩

/-- A response is started when the ones before it have been sent. -/
theorem InOrder.request (hs : s.InOrder) {response : MyBuffer} (hok : s.Awaited (.request response)) :
    ((s.make response).sslSend s.made).InOrder := by
  unfold sslSend
  split
  · next hconn =>
    refine Sending.inOrder ?_
    cases hs.sending hconn with
    | idle pending queue sent =>
      refine .busy _ s.responses (congrArg (· ++ [_]) pending) (congrArg (· ++ [_]) queue) ?_ ?_
      · change s.responses ++ _ = s.responses ++ [(((s.make response).buffers s.made).buffer.drop _).take _]
        rw [MyBuffer.readable, List.drop_take]
        rfl
      · rw [List.take_zero, List.append_nil]
        exact sent
    | busy w done pending _ _ _ =>
      rw [hok hconn] at pending
      cases pending
  · next hconn => exact ⟨hs.initial, fun h => absurd h hconn⟩

/-- A part of a response is sent behind what was sent of it before. -/
theorem InOrder.writeSome (hs : s.InOrder) {i n : ℕ} {w : SslWrite} (hw : s.pending[i]? = some w)
    (hconn : s.isConnected = true) :
    InOrder { s with
      pending := s.pending.set i { w with written := w.written + n }
      transmitted := s.transmitted ++ ((s.bytes w).drop w.written).take n } := by
  refine Sending.inOrder ?_
  cases hs.sending hconn with
  | idle pending _ _ =>
    rw [pending] at hw
    cases hw
  | busy w' done pending queue responses sent =>
    rw [pending] at hw
    cases i with
    | zero =>
      obtain rfl := Option.some.inj hw
      refine .busy { w' with written := w'.written + n } done ?_ queue responses ?_
      · change s.pending.set 0 _ = _
        rw [pending, List.set_cons_zero]
      · change s.transmitted ++ _ = done.flatten ++ (s.bytes w').take (w'.written + n)
        rw [sent, List.take_add, List.append_assoc]
    | succ i => cases hw

/-- A response that has been sent is taken off the queue. -/
theorem InOrder.complete (hs : s.InOrder) {i : ℕ} {w : SslWrite} (hw : s.pending[i]? = some w)
    (hwritten : w.written = w.len)
    (h : { s with pending := s.pending.eraseIdx i }.handleWrite w.len = some s') : s'.InOrder := by
  by_cases hconn : s.isConnected = true
  · refine Sending.inOrder ?_
    cases hs.sending hconn with
    | idle pending _ _ =>
      rw [pending] at hw
      cases hw
    | busy w' done pending queue responses sent =>
      rw [pending] at hw
      cases i with
      | zero =>
        obtain rfl := Option.some.inj hw
        have hfull : (s.bytes w').take w'.written = s.bytes w' :=
          List.take_of_length_le (hwritten ▸ List.length_take_le ..)
        have hpending : s'.pending = [] := by
          rw [pending_handleWrite h]
          change s.pending.eraseIdx 0 = []
          rw [pending]
          rfl
        obtain ⟨-, hnil⟩ | ⟨front, rest, b, hcons, rfl⟩ := handleWrite_cases h
        · rw [show s.sendMessages = [] from hnil] at queue
          cases queue
        · rw [show s.sendMessages = front :: rest from hcons] at queue
          refine .idle hpending (List.cons.inj queue).2 ?_
          change s.transmitted = s.responses.flatten
          rw [sent, hfull, responses, List.flatten_append, List.flatten_singleton]
      | succ i => cases hw
  · obtain ⟨rfl, -⟩ | ⟨front, rest, b, -, rfl⟩ := handleWrite_cases h
    all_goals exact ⟨hs.initial, fun h => absurd h hconn⟩

/-- **What a step preserves** when requests are awaited. -/
theorem InOrder.step (hs : s.InOrder) {e : Event} (hok : s.Awaited e) (h : s.step e = some s') :
    s'.InOrder := by
  cases e with
  | request response =>
    obtain rfl := Option.some.inj h
    exact hs.request hok
  | writeSome i n =>
    simp only [SslSession.step] at h
    split at h
    · cases h
    · next w hw =>
      split at h
      · next hcond =>
        obtain rfl := Option.some.inj h
        exact hs.writeSome hw hcond.1
      · cases h
  | complete i =>
    simp only [SslSession.step] at h
    split at h
    · cases h
    · next w hw =>
      split at h
      · next hwritten => exact hs.complete hw hwritten h
      · cases h
  | fail i =>
    simp only [SslSession.step] at h
    split at h
    · obtain rfl := Option.some.inj h
      exact ⟨hs.initial, fun h => by cases h⟩
    · cases h
  | disconnect =>
    obtain rfl := Option.some.inj h
    exact ⟨hs.initial, fun h => by cases h⟩

/-- **Writes on the TLS stream.** In every run of a session: no two writes are outstanding in any state
if and only if every request finds, when it is answered, that the writes started before have completed;
then the bytes sent are a beginning of the responses on end, so that no two are mixed. -/
theorem atMostOne_iff_of_run {es : List Event} (h : Run SslSession.step (fun _ _ => True) connected es s) :
    (Run SslSession.step (fun s _ => s.AtMostOne) connected es s ∧ s.AtMostOne ↔
      Run SslSession.step Awaited connected es s) ∧
      (Run SslSession.step Awaited connected es s → s.transmitted <+: s.responses.flatten) := by
  refine ⟨(h.invariant_iff (fun _ _ _ hs hstep => atMostOne_step hs hstep) (Nat.zero_le _)).symm, fun hrun => ?_⟩
  exact (hrun.invariant (fun _ _ _ hs hok hstep => hs.step hok hstep) inOrder_connected).initial

/-! ## Two requests -/

/-- A short response. -/
def shortBuffer : MyBuffer := ((MyBuffer.new 0).bind fun b => b.append [1, 2]).getD ⟨[], 0, 0, []⟩

/-- Two requests, each of which awaits the answer to the one before. -/
def awaitedRequests : List Event :=
  [.request shortBuffer, .writeSome 0 1, .writeSome 0 1, .complete 0, .request shortBuffer, .writeSome 0 1]

theorem transmitted_awaitedRequests : ∃ s, Run SslSession.step (fun _ _ => True) connected
      awaitedRequests s ∧
    (Run SslSession.step (fun s _ => s.AtMostOne) connected awaitedRequests s ∧ s.AtMostOne) ∧
      s.transmitted <+: s.responses.flatten := by
  have hsome : (exec SslSession.step Awaited connected awaitedRequests).isSome = true := by
    decide +kernel
  obtain ⟨s, hexec⟩ := Option.isSome_iff_exists.1 hsome
  have hrun := Run.of_exec hexec
  have hany : Run SslSession.step (fun _ _ => True) connected awaitedRequests s :=
    hrun.mono fun _ _ _ => trivial
  obtain ⟨hiff, hsent⟩ := atMostOne_iff_of_run hany
  exact ⟨s, hany, hiff.2 hrun, hsent hrun⟩

/-- **Two writes at once**: the second request is answered before the first response has been sent, and
the bytes of the responses are mixed. -/
theorem overlapping_writes : ∃ s, Run SslSession.step (fun _ _ => True) connected
      [.request shortBuffer, .request shortBuffer, .writeSome 0 1, .writeSome 1 1, .writeSome 0 1] s ∧
    ¬s.AtMostOne ∧ s.transmitted = [1, 1, 2] ∧ s.responses = [[1, 2], [1, 2]] := by
  have hany : (exec SslSession.step (fun _ _ => True) connected
      [.request shortBuffer, .request shortBuffer, .writeSome 0 1, .writeSome 1 1, .writeSome 0 1]).any
      (fun s => decide (¬s.AtMostOne ∧ s.transmitted = [1, 1, 2] ∧ s.responses = [[1, 2], [1, 2]])) =
        true := by decide +kernel
  exact Run.exists_of_exec hany

end SslSession

end MutexIM.Session
