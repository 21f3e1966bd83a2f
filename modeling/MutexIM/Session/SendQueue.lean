import MutexIM.Codec.BufferBounds
import MutexIM.Session.ReadLoop

/-!
# Sending frames

`Send` starts a write for every frame at once and queues the frame; a write's completion takes the
first frame off the queue, whatever number of bytes it reports. A write may send fewer bytes than
asked, and what is left of the frame is then never sent. `Tcp_Session` and `AsyncTcpClient` send with
the same text.

* `step_complete`: a write's completion is always defined, and what it sends are the first bytes of
  the frame the write was started for.
* `transmitted_prefix_of_run`: the bytes sent are a prefix of the frames on end as long as no write
  completes after one that reported too few bytes; no frame's tail is skipped exactly then.
* `shortWrite_skips`: a write sends one byte of its frame, and the next frame follows it.
-/

namespace MutexIM.Session

open Bytes Codec

/-! ## The session -/

/-- A write that was started: the buffer, `peek()` as an offset, and `readableBytes()`. -/
structure AsyncSend where
  buffer : ℕ
  off : ℕ
  len : ℕ

/-- What a session sends: the buffers that were made, the queue, the writes outstanding, and the bytes
sent. As history, the frames given to `Send`, and for every completed write the bytes it was to send
and the number it reported. -/
structure SendQueue where
  isConnected : Bool
  buffers : ℕ → MyBuffer
  made : ℕ
  sendMessages : List ℕ
  pending : List AsyncSend
  transmitted : Bytes
  frames : List Bytes
  reports : List (Bytes × ℕ)

namespace SendQueue

/-- A session that was started. -/
def connected : SendQueue where
  isConnected := true
  buffers _ := ⟨[], 0, 0, []⟩
  made := 0
  sendMessages := []
  pending := []
  transmitted := []
  frames := []
  reports := []

variable (q : SendQueue)

/-- The write that `async_send` starts for a buffer. -/
def asyncSend (ptrBuffer : ℕ) : AsyncSend :=
  ⟨ptrBuffer, (q.buffers ptrBuffer).readerIndex, (q.buffers ptrBuffer).readableBytes⟩

/-- `Tcp_Session::Send`. -/
def send (ptrBuffer : ℕ) : SendQueue :=
  if q.isConnected then
    { q with sendMessages := q.sendMessages ++ [ptrBuffer]
             pending := q.pending ++ [q.asyncSend ptrBuffer] }
  else q

/-- `Tcp_Session::handle_write` without an error, as it is built for release: the assertion that the
number of bytes is that of the front buffer is not there. -/
def handleWrite (bytesTransferred : ℕ) : Option SendQueue :=
  match q.sendMessages with
  | [] => some q
  | front :: rest => do
    let b ← (q.buffers front).consume bytesTransferred
    return { q with buffers := Function.update q.buffers front b, sendMessages := rest }

/-- The bytes that a write is to send. -/
def bytes (w : AsyncSend) : Bytes := ((q.buffers w.buffer).buffer.drop w.off).take w.len

/-- A buffer is made and filled for each `Send`. -/
def make (b : MyBuffer) : SendQueue :=
  { q with buffers := Function.update q.buffers q.made b
           made := q.made + 1
           frames := q.frames ++ [b.readable] }

/-- The first write outstanding sends some of its bytes. -/
def transmit (w : AsyncSend) (ws : List AsyncSend) (n : ℕ) : SendQueue :=
  { q with pending := ws
           transmitted := q.transmitted ++ (q.bytes w).take n
           reports := q.reports ++ [(q.bytes w, n)] }

/-- A frame is sent; the first write outstanding completes and reports a number of bytes. -/
inductive Event
  | send (b : MyBuffer) (hb : b.Wf)
  | complete (n : ℕ)

def step : Event → Option SendQueue
  | .send b _ => some ((q.make b).send q.made)
  | .complete n =>
    match q.pending with
    | [] => none
    | w :: ws => if 1 ≤ n ∧ n ≤ w.len then (q.transmit w ws n).handleWrite n else none

/-- The writes completed before a completion reported all their bytes. -/
def FollowsWhole : Event → Prop
  | .send _ _ => True
  | .complete _ => ∀ r ∈ q.reports, r.2 = r.1.length

instance (e : Event) : Decidable (q.FollowsWhole e) := by
  unfold FollowsWhole
  split <;> infer_instance

/-- Every frame of which a part was sent was sent to its end, but for the last. -/
def NoTailSkipped : Prop := ∀ r ∈ q.reports.dropLast, r.2 = r.1.length

instance : Decidable q.NoTailSkipped := inferInstanceAs (Decidable (∀ _ ∈ _, _))

/-! ## The queue and the writes -/

/-- The writes outstanding are those of the queued buffers, which have not been changed since; the
frames are those of the writes that were completed and of the buffers in the queue. -/
structure Coherent : Prop where
  connected : q.isConnected = true
  wf : ∀ i ∈ q.sendMessages, (q.buffers i).Wf
  lt_made : ∀ i ∈ q.sendMessages, i < q.made
  nodup : q.sendMessages.Nodup
  pending_eq : q.pending = q.sendMessages.map q.asyncSend
  frames_eq : q.frames = q.reports.map Prod.fst ++ q.sendMessages.map fun i => (q.buffers i).readable
  transmitted_eq : q.transmitted = q.reports.flatMap fun r => r.1.take r.2

variable {q} {q' : SendQueue}

theorem coherent_connected : Coherent connected where
  connected := rfl
  wf := List.forall_mem_nil _
  lt_made := List.forall_mem_nil _
  nodup := .nil
  pending_eq := rfl
  frames_eq := rfl
  transmitted_eq := rfl

theorem bytes_asyncSend (i : ℕ) : q.bytes (q.asyncSend i) = (q.buffers i).readable := by
  rw [bytes, asyncSend, MyBuffer.readable, List.drop_take]
  rfl

/-- A write is to send as many bytes as it was started with. -/
theorem Coherent.length_bytes (hq : q.Coherent) {w : AsyncSend} (hw : w ∈ q.pending) :
    (q.bytes w).length = w.len := by
  rw [hq.pending_eq] at hw
  obtain ⟨i, hi, rfl⟩ := List.mem_map.1 hw
  rw [bytes_asyncSend]
  exact MyBuffer.length_readable (hq.wf i hi).toBufferInv

/-- Another buffer's change is not seen by the writes. -/
theorem asyncSend_update {i j : ℕ} (h : j ≠ i) (b : MyBuffer) :
    asyncSend { q with buffers := Function.update q.buffers i b } j = q.asyncSend j := by
  simp only [asyncSend, Function.update_of_ne h]

theorem Coherent.step_send (hq : q.Coherent) {b : MyBuffer} (hb : b.Wf) :
    ((q.make b).send q.made).Coherent := by
  have hne : ∀ i ∈ q.sendMessages, i ≠ q.made := fun i hi => (hq.lt_made i hi).ne
  have hsend : (q.make b).send q.made =
      { q.make b with sendMessages := q.sendMessages ++ [q.made]
                      pending := q.pending ++ [(q.make b).asyncSend q.made] } := by
    rw [send, if_pos (show (q.make b).isConnected = true from hq.connected)]
    rfl
  rw [hsend]
  have hself : (q.make b).buffers q.made = b := Function.update_self ..
  have hother : ∀ i ∈ q.sendMessages, (q.make b).buffers i = q.buffers i :=
    fun i hi => Function.update_of_ne (hne i hi) ..
  constructor
  case connected => exact hq.connected
  case wf =>
    refine List.forall_mem_append.2 ⟨fun i hi => ?_, List.forall_mem_singleton.2 ?_⟩
    · change ((q.make b).buffers i).Wf
      rw [hother i hi]
      exact hq.wf i hi
    · change ((q.make b).buffers q.made).Wf
      rwa [hself]
  case lt_made =>
    refine List.forall_mem_append.2 ⟨fun i hi => ?_, List.forall_mem_singleton.2 ?_⟩
    · exact (hq.lt_made i hi).trans (Nat.lt_succ_self _)
    · exact Nat.lt_succ_self _
  case nodup =>
    refine List.nodup_append.2 ⟨hq.nodup, List.pairwise_singleton _ _, fun i hi j hj => ?_⟩
    obtain rfl := List.mem_singleton.1 hj
    exact hne i hi
  case pending_eq =>
    change q.pending ++ [_] = (q.sendMessages ++ [q.made]).map (q.make b).asyncSend
    rw [List.map_append, hq.pending_eq]
    congr 1
    exact List.map_congr_left fun i hi => (asyncSend_update (hne i hi) b).symm
  case frames_eq =>
    change q.frames ++ [b.readable] =
      q.reports.map Prod.fst ++ (q.sendMessages ++ [q.made]).map fun i => ((q.make b).buffers i).readable
    rw [List.map_append, ← List.append_assoc, hq.frames_eq, List.map_singleton, hself]
    congr 2
    exact List.map_congr_left fun i hi => by rw [hother i hi]
  case transmitted_eq => exact hq.transmitted_eq

/-- **The completion of a write** is always defined: it takes the frame of the write off the queue,
after the first bytes of that frame were sent. -/
theorem step_complete (hq : q.Coherent) {w : AsyncSend} {ws : List AsyncSend}
    (hpending : q.pending = w :: ws) {n : ℕ} (hn : 1 ≤ n ∧ n ≤ w.len) :
    ∃ q', q.step (.complete n) = some q' ∧ q'.Coherent ∧ q'.frames = q.frames ∧
      q'.reports = q.reports ++ [(q.bytes w, n)] := by
  have hmap := hq.pending_eq
  rw [hpending] at hmap
  obtain ⟨front, rest, hqueue, rfl, rfl⟩ := List.map_eq_cons_iff.1 hmap.symm
  obtain ⟨hnotMem, hnodup⟩ := List.nodup_cons.1 (hqueue ▸ hq.nodup)
  have hmem : ∀ i ∈ rest, i ∈ q.sendMessages := fun i hi => hqueue ▸ List.mem_cons_of_mem _ hi
  have hne : ∀ i ∈ rest, i ≠ front := fun i hi h => hnotMem (h ▸ hi)
  have hfront : (q.buffers front).Wf := hq.wf front (hqueue ▸ List.mem_cons_self)
  have hlen : n ≤ (q.buffers front).readableBytes := hn.2
  obtain ⟨b, hb, -⟩ := MyBuffer.consume_spec hfront.toBufferInv hfront.cheap_le hlen
  have hother : ∀ i ∈ rest, Function.update q.buffers front b i = q.buffers i :=
    fun i hi => Function.update_of_ne (hne i hi) ..
  refine ⟨{ q.transmit (q.asyncSend front) (rest.map q.asyncSend) n with
    buffers := Function.update q.buffers front b
    sendMessages := rest }, ?_, ?_, rfl, rfl⟩
  · simp only [step, hpending, if_pos hn, handleWrite, transmit, hqueue, hb]
    rfl
  · constructor
    case connected => exact hq.connected
    case wf =>
      intro i hi
      change (Function.update q.buffers front b i).Wf
      rw [hother i hi]
      exact hq.wf i (hmem i hi)
    case lt_made => exact fun i hi => hq.lt_made i (hmem i hi)
    case nodup => exact hnodup
    case pending_eq =>
      exact List.map_congr_left fun i hi => (asyncSend_update (hne i hi) b).symm
    case frames_eq =>
      change q.frames = (q.reports ++ [_]).map Prod.fst ++
        rest.map fun i => (Function.update q.buffers front b i).readable
      rw [hq.frames_eq, hqueue, List.map_append, List.append_assoc, List.map_cons, bytes_asyncSend]
      congr 2
      exact List.map_congr_left fun i hi => by rw [hother i hi]
    case transmitted_eq =>
      change q.transmitted ++ _ = (q.reports ++ [_]).flatMap _
      rw [hq.transmitted_eq, List.flatMap_append, List.flatMap_singleton]

/-- The same, from a completion that happened. -/
theorem Coherent.complete_inv (hq : q.Coherent) {n : ℕ} (h : q.step (.complete n) = some q') :
    ∃ w ws, q.pending = w :: ws ∧ n ≤ w.len ∧ q'.Coherent ∧ q'.frames = q.frames ∧
      q'.reports = q.reports ++ [(q.bytes w, n)] := by
  cases hpending : q.pending with
  | nil => simp [step, hpending] at h
  | cons w ws =>
    by_cases hn : 1 ≤ n ∧ n ≤ w.len
    · obtain ⟨q₁, h₁, hq₁, hframes, hreports⟩ := step_complete hq hpending hn
      obtain rfl := Option.some.inj (h.symm.trans h₁)
      exact ⟨w, ws, rfl, hn.2, hq₁, hframes, hreports⟩
    · simp [step, hpending, hn] at h

/-- What an event does. -/
theorem coherent_step (hq : q.Coherent) {e : Event} (h : q.step e = some q') :
    q'.Coherent ∧ ((∃ b hb, e = .send b hb) ∧ q'.reports = q.reports ∨
      (∃ n, e = .complete n) ∧ ∃ r, q'.reports = q.reports ++ [r]) := by
  cases e with
  | send b hb =>
    obtain rfl := Option.some.inj h
    refine ⟨hq.step_send hb, .inl ⟨⟨b, hb, rfl⟩, ?_⟩⟩
    rw [send]
    split <;> rfl
  | complete n =>
    obtain ⟨w, -, -, -, hq', -, hreports⟩ := hq.complete_inv h
    exact ⟨hq', .inr ⟨⟨n, rfl⟩, _, hreports⟩⟩

/-- An event skips a tail if and only if it is a completion after a short one. -/
theorem noTailSkipped_step (hq : q.Coherent) (hwhole : q.NoTailSkipped) {e : Event}
    (h : q.step e = some q') : q'.NoTailSkipped ↔ q.FollowsWhole e := by
  obtain ⟨-, ⟨⟨b, hb, rfl⟩, hreports⟩ | ⟨⟨n, rfl⟩, r, hreports⟩⟩ := coherent_step hq h
  · rw [NoTailSkipped, hreports]
    exact iff_of_true hwhole trivial
  · rw [NoTailSkipped, hreports, List.dropLast_concat]
    rfl

/-! ## Runs -/

theorem Coherent.of_run {es : List Event} (hq : q.Coherent)
    (h : Run step (fun _ _ => True) q es q') : q'.Coherent :=
  h.invariant (fun _ _ _ hq _ hstep => (coherent_step hq hstep).1) hq

/-- Completed writes stay so. -/
theorem reports_grow {es : List Event} (hq : q.Coherent) (h : Run step (fun _ _ => True) q es q') :
    q.reports <+: q'.reports := by
  induction h with
  | nil q => exact List.prefix_rfl
  | cons _ hstep _ ih =>
    obtain ⟨hq₁, ⟨-, h⟩ | ⟨-, r, h⟩⟩ := coherent_step hq hstep
    · exact h ▸ ih hq₁
    · exact (h ▸ List.prefix_append ..).trans (ih hq₁)

theorem NoTailSkipped.of_prefix (h : q'.NoTailSkipped) (hinit : q.reports <+: q'.reports) :
    q.NoTailSkipped := by
  obtain ⟨t, ht⟩ := hinit
  intro r hr
  refine h r ?_
  rw [← ht, List.dropLast_append]
  split
  · exact hr
  · exact List.mem_append_left _ (List.mem_of_mem_dropLast hr)

/-- Until the end of a run no frame's tail is skipped if and only if each completion follows writes
that reported all their bytes. -/
theorem noTailSkipped_iff {es : List Event} (hq : q.Coherent) (hwhole : q.NoTailSkipped)
    (h : Run step (fun _ _ => True) q es q') :
    q'.NoTailSkipped ↔ Run step FollowsWhole q es q' := by
  induction h with
  | nil q => exact iff_of_true hwhole (.nil q)
  | cons _ hstep hrest ih =>
    have hq₁ := (coherent_step hq hstep).1
    have hiff := noTailSkipped_step hq hwhole hstep
    constructor
    · intro ht
      have hwhole₁ := ht.of_prefix (reports_grow hq₁ hrest)
      exact .cons (hiff.1 hwhole₁) hstep ((ih hq₁ hwhole₁).1 ht)
    · intro hrun
      cases hrun with
      | cons hok hstep₂ hrun =>
        obtain rfl := Option.some.inj (hstep.symm.trans hstep₂)
        exact (ih hq₁ (hiff.2 hok)).2 hrun

/-- What was sent stands at its place in the frames. -/
theorem Coherent.transmitted_initial (hq : q.Coherent) (h : q.NoTailSkipped) :
    q.transmitted <+: q.frames.flatten := by
  rw [hq.transmitted_eq, hq.frames_eq, List.flatten_append]
  refine .trans ?_ (List.prefix_append ..)
  rcases q.reports.eq_nil_or_concat' with hnil | ⟨reports, r, hreports⟩
  · simp [hnil]
  · rw [NoTailSkipped, hreports, List.dropLast_concat] at h
    have hfull : reports.flatMap (fun r => r.1.take r.2) = (reports.map Prod.fst).flatten := by
      rw [← List.flatMap_def]
      exact List.flatMap_congr fun r hr => List.take_of_length_le (h r hr).ge
    rw [hreports, List.flatMap_append, List.flatMap_singleton, hfull, List.map_append,
      List.flatten_append, List.map_singleton, List.flatten_singleton, List.prefix_append_right_inj]
    exact List.take_prefix ..

/-- **Whole frames on the wire.** In every run of a connected session, whatever numbers of bytes its
writes report: no frame's tail is skipped if and only if every completion finds that the writes before
it reported all their bytes, and then the bytes sent are a prefix of the frames on end. -/
theorem transmitted_prefix_of_run {es : List Event} (h : Run step (fun _ _ => True) connected es q) :
    (q.NoTailSkipped ↔ Run step FollowsWhole connected es q) ∧
      (Run step FollowsWhole connected es q → q.transmitted <+: q.frames.flatten) := by
  have hiff := noTailSkipped_iff coherent_connected (List.forall_mem_nil _) h
  exact ⟨hiff, fun hrun => (coherent_connected.of_run h).transmitted_initial (hiff.2 hrun)⟩

/-! ## Two frames -/

/-- The buffer of a frame. -/
def letterBuffer : MyBuffer := (encode chatPool letterA).getD ⟨[], 0, 0, []⟩

theorem wf_letterBuffer : letterBuffer.Wf :=
  ⟨⟨by decide +kernel, by decide +kernel⟩, by decide +kernel⟩

/-- The frame is sent twice, and the writes report their numbers of bytes. -/
def sendTwice (m n : ℕ) : List Event :=
  [.send letterBuffer wf_letterBuffer, .send letterBuffer wf_letterBuffer, .complete m, .complete n]

theorem transmitted_prefix_sendTwice : ∃ q,
    Run step (fun _ _ => True) connected (sendTwice letterBuffer.readableBytes 1) q ∧
      q.transmitted <+: q.frames.flatten := by
  have hsome : (exec step FollowsWhole connected (sendTwice letterBuffer.readableBytes 1)).isSome =
      true := by decide +kernel
  obtain ⟨q, hexec⟩ := Option.isSome_iff_exists.1 hsome
  have hrun := Run.of_exec hexec
  have hany : Run step (fun _ _ => True) connected _ q := hrun.mono fun _ _ _ => trivial
  exact ⟨q, hany, (transmitted_prefix_of_run hany).2 hrun⟩

/-- **A short write**: one byte of the first frame is sent, and the second frame follows it. -/
theorem shortWrite_skips : ∃ q,
    Run step (fun _ _ => True) connected (sendTwice 1 letterBuffer.readableBytes) q ∧
      ¬q.NoTailSkipped ∧ ¬q.transmitted <+: q.frames.flatten := by
  have hany : (exec step (fun _ _ => True) connected
      (sendTwice 1 letterBuffer.readableBytes)).any (fun q =>
        decide (¬q.NoTailSkipped ∧ ¬q.transmitted <+: q.frames.flatten)) = true := by decide +kernel
  exact Run.exists_of_exec hany

end SendQueue

end MutexIM.Session
