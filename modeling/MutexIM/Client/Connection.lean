import MutexIM.Session.SendQueue

/-!
# Sending before the connection is up

`CClientDlg::OnInitDialog` starts `async_connect`, leaves `handle_connect` to another thread, and sends the
handshake at once. `Send` drops a buffer as long as `handle_connect` has not run.

* `Inv`: what is in the queue is the part of the buffers that was passed to `Send` since then.
* `Inv.step`: which events lose something for good.
* `written_iff_of_run`: all buffers are written, in order, exactly if each is sent after the connection is
  up and each write reports all its bytes.
-/

namespace MutexIM.Client

open Bytes Codec Session

/-- An `AsyncTcpClient`. Its `m_isConnected` and `m_sendMessages` are those of `queue`; `connecting` says
that `async_connect` has not completed. As history, the contents of the buffers passed to `Send`. -/
structure AsyncTcpClient where
  queue : SendQueue
  connecting : Bool
  passed : List Bytes

namespace AsyncTcpClient

/-- The constructor. -/
def new : AsyncTcpClient where
  queue := { SendQueue.connected with isConnected := false }
  connecting := false
  passed := []

variable (c : AsyncTcpClient)

/-- `Connect`. -/
def connect : AsyncTcpClient :=
  if c.queue.isConnected then c else { c with connecting := true }

/-- `handle_connect` without an error. -/
def handleConnect : AsyncTcpClient :=
  { c with queue := { c.queue with isConnected := true }
           connecting := false }

/-- `Send`, of a buffer made for it. -/
def send (b : MyBuffer) : AsyncTcpClient :=
  { c with
    queue := if c.queue.isConnected then (c.queue.make b).send c.queue.made else c.queue
    passed := c.passed ++ [b.readable] }

/-- `async_connect` completes; a buffer is sent; the first write outstanding completes and reports a
number of bytes. -/
inductive Event
  | handleConnect
  | send (b : MyBuffer) (hb : b.Wf)
  | handleWrite (n : ℕ)

def step : Event → Option AsyncTcpClient
  | .handleConnect => if c.connecting then some c.handleConnect else none
  | .send b _ => some (c.send b)
  | .handleWrite n => (c.queue.step (.complete n)).map fun q => { c with queue := q }

/-- A buffer is sent while the connection is up, and a write reports all its bytes. -/
def Whole : Event → Prop
  | .handleConnect => True
  | .send _ _ => c.queue.isConnected = true
  | .handleWrite n => ∀ w ∈ c.queue.pending.head?, n = w.len

instance (e : Event) : Decidable (c.Whole e) := by
  unfold Whole
  split <;> infer_instance

/-- What is written of the buffers: what the writes completed have sent, and what those outstanding are to
send. -/
def outgoing : List Bytes :=
  c.queue.reports.map (fun r => r.1.take r.2) ++ c.queue.pending.map c.queue.bytes

/-- Every buffer passed to `Send` was written, or is being written, in the order of the calls. -/
def Written : Prop := c.outgoing = c.passed

instance : Decidable c.Written := inferInstanceAs (Decidable (_ = _))

/-- The buffers `lost` were passed to `Send` before the connection was up. -/
structure Inv (lost : List Bytes) : Prop where
  passed_eq : c.passed = lost ++ c.queue.frames
  queue : c.queue.Coherent ∨ c.queue = new.queue

variable {c} {c' : AsyncTcpClient} {lost : List Bytes}

theorem inv_start : Inv new.connect [] := ⟨rfl, .inr rfl⟩

/-! ## The writes and the buffers -/

theorem outgoing_of_coherent (hq : c.queue.Coherent) :
    c.outgoing = c.queue.reports.map (fun r => r.1.take r.2) ++
      c.queue.sendMessages.map fun i => (c.queue.buffers i).readable := by
  rw [outgoing, hq.pending_eq, List.map_map]
  congr 1
  exact List.map_congr_left fun i _ => SendQueue.bytes_asyncSend i

/-- What is written falls short of what was passed by the buffers that were lost, and by what the writes
did not send. -/
theorem Inv.written_iff (h : c.Inv lost) :
    c.Written ↔ lost = [] ∧ ∀ r ∈ c.queue.reports, r.1.length ≤ r.2 := by
  rcases h.queue with hq | hq
  · have hlen : c.outgoing.length + lost.length = c.passed.length := by
      rw [outgoing_of_coherent hq, h.passed_eq, hq.frames_eq]
      simp only [List.length_append, List.length_map]
      omega
    have hpassed := h.passed_eq
    rw [Written]
    constructor
    · intro hw
      rw [hw] at hlen
      have hlost : lost = [] := List.eq_nil_of_length_eq_zero (by omega)
      rw [hlost, List.nil_append, hq.frames_eq, ← hw, outgoing_of_coherent hq,
        List.append_left_inj, List.map_inj_left] at hpassed
      exact ⟨hlost, fun r hr => List.take_eq_self_iff _ |>.1 (hpassed r hr)⟩
    · rintro ⟨rfl, hr⟩
      rw [hpassed, hq.frames_eq, outgoing_of_coherent hq, List.nil_append, List.append_left_inj,
        List.map_inj_left]
      exact fun r hr' => List.take_of_length_le (hr r hr')
  · have houtgoing : c.outgoing = [] := by rw [outgoing, hq]; rfl
    have hpassed : c.passed = lost := by rw [h.passed_eq, hq]; exact List.append_nil _
    have hreports : c.queue.reports = [] := by rw [hq]; rfl
    rw [Written, houtgoing, hpassed, hreports]
    exact ⟨fun h => ⟨h.symm, List.forall_mem_nil _⟩, fun h => h.1.symm⟩

/-! ## Steps -/

theorem send_make_reports (q : SendQueue) (b : MyBuffer) :
    ((q.make b).send q.made).reports = q.reports ∧
      ((q.make b).send q.made).frames = q.frames ++ [b.readable] := by
  unfold SendQueue.send
  split <;> exact ⟨rfl, rfl⟩

/-- The completion of the connection. -/
theorem Inv.handleConnect (h : c.Inv lost) : c.handleConnect.Inv lost := by
  refine ⟨h.passed_eq, .inl ?_⟩
  rcases h.queue with hq | hq
  · have hself : c.handleConnect.queue = c.queue := by
      rw [AsyncTcpClient.handleConnect, ← hq.connected]
    rwa [hself]
  · have hconnected : c.handleConnect.queue = SendQueue.connected := by
      rw [AsyncTcpClient.handleConnect, hq]
      rfl
    rw [hconnected]
    exact SendQueue.coherent_connected

/-- A buffer sent while the connection is up is queued. -/
theorem Inv.send (h : c.Inv lost) {b : MyBuffer} (hb : b.Wf) (hconnected : c.queue.isConnected = true) :
    (c.send b).Inv lost ∧ (c.send b).queue.reports = c.queue.reports := by
  have hq : c.queue.Coherent := by
    refine h.queue.resolve_right fun hq => ?_
    rw [hq] at hconnected
    cases hconnected
  obtain ⟨hreports, hframes⟩ := send_make_reports c.queue b
  have hqueue : (c.send b).queue = (c.queue.make b).send c.queue.made := if_pos hconnected
  rw [hqueue, hreports]
  refine ⟨⟨?_, .inl (hqueue ▸ hq.step_send hb)⟩, rfl⟩
  rw [hqueue, hframes, ← List.append_assoc, ← h.passed_eq]
  rfl

/-- A buffer sent before is lost. -/
theorem Inv.send_lost (h : c.Inv lost) {b : MyBuffer} (hconnected : ¬c.queue.isConnected = true) :
    (c.send b).Inv (lost ++ [b.readable]) := by
  have hq : c.queue = new.queue := h.queue.resolve_left fun hq => hconnected hq.connected
  have hqueue : (c.send b).queue = c.queue := if_neg hconnected
  have hpassed := h.passed_eq
  rw [hq] at hpassed
  refine ⟨?_, .inr (hqueue.trans hq)⟩
  rw [hqueue, hq]
  exact (congrArg (· ++ [b.readable]) (hpassed.trans (List.append_nil _))).trans
    (List.append_nil _).symm

/-- The write of the first buffer in the queue completes. -/
theorem Inv.handleWrite (h : c.Inv lost) {n : ℕ} {q : SendQueue}
    (hstep : c.queue.step (.complete n) = some q) :
    Inv { c with queue := q } lost ∧
      ∃ bytes : Bytes, q.reports = c.queue.reports ++ [(bytes, n)] ∧
        (c.Whole (.handleWrite n) ↔ bytes.length ≤ n) := by
  have hq : c.queue.Coherent := by
    refine h.queue.resolve_right fun hq => ?_
    rw [hq] at hstep
    cases hstep
  obtain ⟨w, ws, hpending, hn, hq', hframes, hreports⟩ := hq.complete_inv hstep
  have hlen : (c.queue.bytes w).length = w.len := hq.length_bytes (hpending ▸ List.mem_cons_self)
  refine ⟨⟨by rw [hframes]; exact h.passed_eq, .inl hq'⟩, c.queue.bytes w, hreports, ?_⟩
  rw [Whole, hpending, hlen]
  constructor
  · exact fun hw => (hw w rfl).ge
  · intro hle w' hw'
    rw [← Option.some.inj hw']
    exact hn.antisymm hle

/-- **What an event loses.** After an event everything is written exactly if it was before and the event
is the completion of the connection, a buffer sent while the connection is up, or a write that reports
all its bytes. -/
theorem Inv.step (h : c.Inv lost) {e : Event} (he : c.step e = some c') :
    ∃ lost', c'.Inv lost' ∧ (c'.Written ↔ c.Whole e ∧ c.Written) := by
  cases e with
  | handleConnect =>
    obtain ⟨-, he⟩ := Option.ite_none_right_eq_some.1 he
    obtain rfl := Option.some.inj he
    refine ⟨lost, h.handleConnect, ?_⟩
    rw [h.handleConnect.written_iff, h.written_iff]
    exact (and_iff_right trivial).symm
  | send b hb =>
    obtain rfl := Option.some.inj he
    by_cases hconnected : c.queue.isConnected = true
    · obtain ⟨hinv, hreports⟩ := h.send hb hconnected
      refine ⟨lost, hinv, ?_⟩
      rw [hinv.written_iff, h.written_iff, hreports]
      exact (and_iff_right hconnected).symm
    · have hinv := h.send_lost (b := b) hconnected
      refine ⟨_, hinv, ?_⟩
      rw [hinv.written_iff]
      exact iff_of_false (fun hw => List.append_ne_nil_of_right_ne_nil _ (List.cons_ne_nil _ _) hw.1)
        fun hw => hconnected hw.1
  | handleWrite n =>
    obtain ⟨q, hstep, rfl⟩ := Option.map_eq_some_iff.1 he
    obtain ⟨hinv, bytes, hreports, hwhole⟩ := h.handleWrite hstep
    refine ⟨lost, hinv, ?_⟩
    rw [hinv.written_iff, h.written_iff, hwhole, hreports, List.forall_mem_append,
      List.forall_mem_singleton]
    exact ⟨fun ⟨hlost, hr, hn⟩ => ⟨hn, hlost, hr⟩, fun ⟨hn, hlost, hr⟩ => ⟨hlost, hr, hn⟩⟩

/-! ## Runs -/

/-- **Nothing sent is lost** in a run, whatever the order of its events, exactly if each buffer is sent
after the connection came up and each write reports all its bytes. The bytes of the writes that are
completed are then those of the buffers on end. -/
theorem written_iff_of_run {es : List Event} (h : Run step (fun _ _ => True) new.connect es c) :
    (c.Written ↔ Run step Whole new.connect es c) ∧
      (Run step Whole new.connect es c → c.queue.pending = [] →
        c.queue.transmitted = c.passed.flatten) := by
  have hpreserved : ∀ s e s', (∃ lost, Inv s lost) → step s e = some s' → ∃ lost, Inv s' lost := by
    rintro s e s' ⟨lost, hs⟩ he
    obtain ⟨lost', hs', -⟩ := hs.step he
    exact ⟨lost', hs'⟩
  have hlasting : c.Written ↔ Run step Whole new.connect es c ∧ new.connect.Written := by
    refine Run.lasting_iff hpreserved (fun s e s' hs he => ?_) h ⟨[], inv_start⟩
    obtain ⟨lost, hs⟩ := hs
    exact (hs.step he).choose_spec.2
  have hiff : c.Written ↔ Run step Whole new.connect es c := hlasting.trans (and_iff_left rfl)
  refine ⟨hiff, fun hrun hpending => ?_⟩
  obtain ⟨lost, hinv⟩ := h.invariant (fun s e s' hs _ he => hpreserved s e s' hs he) ⟨[], inv_start⟩
  have hwritten := hiff.2 hrun
  rw [Written, outgoing, hpending, List.map_nil, List.append_nil] at hwritten
  rw [← hwritten, ← List.flatMap_def]
  rcases hinv.queue with hq | hq
  · exact hq.transmitted_eq
  · rw [hq]
    rfl

/-! ## The handshake of `OnInitDialog` -/

def shakeHandleReq : chatPool.Msg := ⟨.shakeHandleReq ⟨0, ascii "u"⟩, by decide⟩

def shakeBuffer : MyBuffer := (encode chatPool shakeHandleReq).getD ⟨[], 0, 0, []⟩

theorem wf_shakeBuffer : shakeBuffer.Wf := ⟨⟨by decide +kernel, by decide +kernel⟩, by decide +kernel⟩

/-- The handshake is sent, and the connection comes up later. -/
theorem shakeHandleReq_lost : ∃ c,
    Run step (fun _ _ => True) new.connect [.send shakeBuffer wf_shakeBuffer, .handleConnect] c ∧
      c.queue.isConnected = true ∧ c.passed = [encoded chatPool shakeHandleReq] ∧ c.outgoing = [] ∧
      ¬c.Written := by
  have hany : (exec step (fun _ _ => True) new.connect
      [.send shakeBuffer wf_shakeBuffer, .handleConnect]).any (fun c =>
        decide (c.queue.isConnected = true ∧ c.passed = [encoded chatPool shakeHandleReq] ∧
          c.outgoing = [] ∧ ¬c.Written)) = true := by decide +kernel
  exact Run.exists_of_exec hany

/-- The connection comes up first, and the write completes. -/
def connectedFirst : List Event :=
  [.handleConnect, .send shakeBuffer wf_shakeBuffer, .handleWrite shakeBuffer.readableBytes]

theorem written_connectedFirst : ∃ c,
    Run step (fun _ _ => True) new.connect connectedFirst c ∧ c.Written ∧
      (c.queue.pending = [] → c.queue.transmitted = c.passed.flatten) := by
  have hsome : (exec step Whole new.connect connectedFirst).isSome = true := by decide +kernel
  obtain ⟨c, hexec⟩ := Option.isSome_iff_exists.1 hsome
  have hrun := Run.of_exec hexec
  have hany : Run step (fun _ _ => True) new.connect connectedFirst c := hrun.mono fun _ _ _ => trivial
  obtain ⟨hiff, htransmitted⟩ := written_iff_of_run hany
  exact ⟨c, hany, hiff.2 hrun, htransmitted hrun⟩

end AsyncTcpClient

end MutexIM.Client
