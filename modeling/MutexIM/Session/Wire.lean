import MutexIM.Foundations.Network
import MutexIM.Session.Segments
import MutexIM.Session.SendQueue

/-!
# Messages over TCP

A message is encoded into a buffer, queued and written by the sender's session; its bytes arrive in
segments and are cut at CR LF by the receiver's session, whose codec hands the message on. Here the two ends
are put together, for both directions of the connections between clients and a message server.

* `Wire` is one direction of a connection, and `tcp` the transport it makes.
* `Sendable`: the frame of the message has an accepted length and no CR LF inside. `Whole`: writes send all
  their bytes.
* `realizes_tcp`: then the bytes do what a queue of the messages does.
* `reachable_iff_fifo`: whatever clients and servers do with messages, they come to the same states over the
  bytes as over queues. `received_prefix_of_run`: nothing is lost, doubled or put out of order.
-/

namespace MutexIM.Session

open Bytes Codec Delimited

variable {P : Pool} {m : P.Msg}

/-! ## The buffer of a message -/

theorem asserted_of_call {b b' : MyBuffer} {c : MyBuffer.Call} (h : b.call c = some b') : b.Asserted c := by
  cases c with
  | append | ensureWritableBytes => trivial
  | prepend | commit | consume =>
    obtain ⟨_, hguard, -⟩ := Option.bind_eq_some_iff.1 h
    exact (Option.guard_eq_some' _).1 hguard

theorem wf_call {b b' : MyBuffer} (hb : b.Wf) (c : MyBuffer.Call) (h : b.call c = some b') : b'.Wf :=
  (MyBuffer.call_writes hb (asserted_of_call h) h).1

theorem wf_encode {b : MyBuffer} (h : encode P m = some b) : b.Wf := by
  simp only [encode, Option.bind_eq_bind, Option.bind_eq_some_iff] at h
  obtain ⟨b₀, h₀, -, -, b₁, h₁, b₂, h₂, b₃, h₃, b₄, h₄, b₅, h₅, -, -, b₆, h₆, h₇⟩ := h
  have hb₁ := wf_call (MyBuffer.wf_new h₀).1 (.append _) h₁
  have hb₂ := wf_call hb₁ (.append _) h₂
  have hb₃ := wf_call hb₂ (.ensureWritableBytes _) h₃
  have hwritten : (b₃.writeAtBeginWrite (P.serialize m)).Wf :=
    ⟨⟨hb₃.reader_le, by simpa [MyBuffer.writeAtBeginWrite, MyBuffer.copyTo] using hb₃.writer_le⟩,
      by simpa [MyBuffer.writeAtBeginWrite, MyBuffer.copyTo] using hb₃.cheap_le⟩
  have hb₄ := wf_call hwritten (.commit _) h₄
  have hb₅ := wf_call hb₄ (.append _) h₅
  have hb₆ := wf_call hb₅ (.prepend _) h₆
  exact wf_call hb₆ (.append _) h₇

/-! ## One direction of a connection -/

/-- The session that sends and the session that reads. -/
structure Wire where
  sender : SendQueue
  receiver : Reader

namespace Wire

/-- A connection that has just been made. -/
def connected : Wire := ⟨.connected, .start⟩

variable (w : Wire)

/-- The bytes that were sent and have not arrived. -/
def onTheWay : Bytes := w.sender.transmitted.drop w.receiver.arrived.length

/-- A write completes and reports a number of bytes; some of the bytes on the way arrive. -/
inductive Event
  | handleWrite (n : ℕ)
  | segment (n : ℕ)

/-- `ProtobufCodec::Send`. -/
@[irreducible]
def send (P : Pool) (m : P.Msg) : Wire :=
  match encode P m with
  | some b => { w with sender := (w.sender.make b).send w.sender.made }
  | none => w

def inner : Event → Option Wire
  | .handleWrite n => (w.sender.step (.complete n)).map fun q => { w with sender := q }
  | .segment n =>
    if 1 ≤ n ∧ n ≤ w.onTheWay.length then
      (w.receiver.step (.segment (w.onTheWay.take n))).map fun d => { w with receiver := d }
    else none

/-- What the callback of the session comes to. The dispatcher may be called with the null pointer. -/
def handOn {P : Pool} : Option (Option P.Msg) → Option (Option P.Msg × Wire)
  | some (some m) => some (some m, w)
  | some none => none
  | none => some (none, w)

/-- A read completes, and the string goes to `ProtobufCodec::onMessage`. -/
def handleRead (P : Pool) : Option (Option P.Msg × Wire) :=
  (read w.receiver.buffer).bind fun bytesTransferred =>
    (w.receiver.step .handleRead).bind fun d =>
      handOn { w with receiver := d }
        (onMessage P (Session.handleRead w.receiver.buffer bytesTransferred).1)

/-- A write sends all its bytes. -/
def Whole : Event → Prop
  | .handleWrite n => ∀ a ∈ w.sender.pending.head?, n = a.len
  | .segment _ => True

/-- What is in the sender's queue, as it will be sent. -/
def queued : List Bytes := w.sender.sendMessages.map fun i => (w.sender.buffers i).readable

end Wire

/-- The connection as a transport of messages. -/
abbrev tcp (P : Pool) : Transport P.Msg where
  State := Wire
  Event := Wire.Event
  new := .connected
  push w m := w.send P m
  inner w e := w.inner e
  take w := w.handleRead P

/-- The frame of the message has no CR LF but at its end, and a length that `onMessage` accepts. -/
structure Sendable (P : Pool) (m : P.Msg) : Prop where
  clean : Clean P m
  min_lt : kMinMessageLen < frameLen P m
  lt_max : frameLen P m < kMaxMessageLen

instance (m : P.Msg) : Decidable (Sendable P m) :=
  decidable_of_iff (Clean P m ∧ kMinMessageLen < frameLen P m ∧ frameLen P m < kMaxMessageLen)
    ⟨fun h => ⟨h.1, h.2.1, h.2.2⟩, fun h => ⟨h.clean, h.min_lt, h.lt_max⟩⟩

namespace Wire

/-- The frames of `out` were sent and have not been taken, those of `waiting` are queued. -/
structure Holds (P : Pool) (w : Wire) (out waiting : List P.Msg) : Prop where
  coherent : w.sender.Coherent
  arrived_le : w.receiver.arrived.length ≤ w.sender.transmitted.length
  sent : w.receiver.buffer ++ w.onTheWay = (out.map (encoded P)).flatten
  queued : w.queued = waiting.map (encoded P)
  sendable : ∀ m ∈ out ++ waiting, Sendable P m

/-- The messages in the connection. -/
def Carries (P : Pool) (w : Wire) (ms : List P.Msg) : Prop :=
  ∃ out waiting, ms = out ++ waiting ∧ w.Holds P out waiting

variable {w w' : Wire} {out waiting : List P.Msg}

theorem holds_connected : connected.Holds P [] [] where
  coherent := SendQueue.coherent_connected
  arrived_le := le_rfl
  sent := rfl
  queued := rfl
  sendable := List.forall_mem_nil _

/-! ### Events -/

theorem exists_encode (P : Pool) (m : P.Msg) : ∃ b, encode P m = some b ∧ b.readable = encoded P m := by
  obtain ⟨b, hb, hread⟩ := encode_spec P m
  rw [← encoded_eq_frame] at hread
  exact ⟨b, hb, hread⟩

theorem send_of_encode {b : MyBuffer} (hb : encode P m = some b) :
    w.send P m = { w with sender := (w.sender.make b).send w.sender.made } := by
  unfold Wire.send
  split
  · next b' hb' =>
    rw [hb] at hb'
    obtain rfl := Option.some.inj hb'
    rfl
  · next hb' =>
    rw [hb] at hb'
    cases hb'

/-- A message that is sent is queued. -/
theorem Holds.send (h : w.Holds P out waiting) (hm : Sendable P m) :
    (w.send P m).Holds P out (waiting ++ [m]) := by
  obtain ⟨b, hb, hread⟩ := exists_encode P m
  have hcoherent := h.coherent.step_send (wf_encode hb)
  have htransmitted : ((w.sender.make b).send w.sender.made).transmitted = w.sender.transmitted := by
    unfold SendQueue.send
    split <;> rfl
  have hreports : ((w.sender.make b).send w.sender.made).reports = w.sender.reports ∧
      ((w.sender.make b).send w.sender.made).frames = w.sender.frames ++ [b.readable] := by
    unfold SendQueue.send
    split <;> exact ⟨rfl, rfl⟩
  rw [send_of_encode hb]
  constructor
  case coherent => exact hcoherent
  case arrived_le => exact h.arrived_le.trans_eq (congrArg List.length htransmitted.symm)
  case sent =>
    rw [onTheWay, htransmitted]
    exact h.sent
  case queued =>
    -- the frames are those reported and those queued
    have hframes := hcoherent.frames_eq
    rw [hreports.1, hreports.2, h.coherent.frames_eq, List.append_assoc] at hframes
    have hqueued : w.queued ++ [b.readable] = _ := List.append_cancel_left hframes
    rw [Wire.queued, ← hqueued, h.queued, hread, List.map_append, List.map_singleton]
  case sendable =>
    rw [← List.append_assoc]
    exact List.forall_mem_append.2 ⟨h.sendable, List.forall_mem_singleton.2 hm⟩

/-- **A whole write** sends the frame of the first message queued. -/
theorem Holds.handleWrite (h : w.Holds P out waiting) {n : ℕ} {q : SendQueue}
    (hwhole : w.Whole (.handleWrite n)) (hstep : w.sender.step (.complete n) = some q) :
    ∃ m waiting', waiting = m :: waiting' ∧
      Holds P { w with sender := q } (out ++ [m]) waiting' := by
  obtain ⟨a, as, hpending, -, hcoherent, hframes, hreports⟩ := h.coherent.complete_inv hstep
  have hlen : n = (w.sender.bytes a).length := by
    rw [h.coherent.length_bytes (hpending ▸ List.mem_cons_self)]
    exact hwhole a (by rw [hpending]; rfl)
  have hqueue := hcoherent.frames_eq
  rw [hframes, hreports, h.coherent.frames_eq, List.map_append, List.append_assoc] at hqueue
  have hqueued : w.queued = _ := List.append_cancel_left hqueue
  rw [h.queued, List.map_singleton, List.singleton_append] at hqueued
  obtain ⟨m, waiting', rfl, hm, hrest⟩ := List.map_eq_cons_iff.1 hqueued
  have htransmitted : q.transmitted = w.sender.transmitted ++ encoded P m := by
    rw [hcoherent.transmitted_eq, hreports, List.flatMap_append, ← h.coherent.transmitted_eq,
      List.flatMap_singleton, hlen, List.take_length, hm]
  refine ⟨m, waiting', rfl, hcoherent, ?_, ?_, hrest.symm, ?_⟩
  · rw [htransmitted, List.length_append]
    exact h.arrived_le.trans (Nat.le_add_right _ _)
  · rw [onTheWay, htransmitted, List.drop_append_of_le_length h.arrived_le, ← List.append_assoc,
      List.map_append, List.flatten_append, ← h.sent]
    simp [onTheWay]
  · rw [List.append_assoc]
    exact h.sendable

/-- Bytes that arrive are put behind those in the buffer. -/
theorem Holds.segment (h : w.Holds P out waiting) {n : ℕ}
    (hstep : w.inner (.segment n) = some w') : w'.Holds P out waiting := by
  rw [inner] at hstep
  split at hstep
  · next hn =>
    obtain ⟨d, hd, rfl⟩ := Option.map_eq_some_iff.1 hstep
    obtain rfl := Option.some.inj hd
    have harrived : (w.receiver.arrived ++ w.onTheWay.take n).length = w.receiver.arrived.length + n := by
      rw [List.length_append, List.length_take_of_le hn.2]
    refine ⟨h.coherent, ?_, ?_, h.queued, h.sendable⟩
    · change (w.receiver.arrived ++ w.onTheWay.take n).length ≤ w.sender.transmitted.length
      have hle := hn.2
      rw [onTheWay, List.length_drop] at hle
      have hold := h.arrived_le
      omega
    · change (w.receiver.buffer ++ w.onTheWay.take n) ++
        w.sender.transmitted.drop (w.receiver.arrived ++ w.onTheWay.take n).length = _
      rw [harrived, ← List.drop_drop, ← h.sent, List.append_assoc]
      exact congrArg _ (List.take_append_drop n w.onTheWay)
  · cases hstep

/-! ### The first frame -/

/-- The first delimiter ends the first frame. -/
theorem firstEnd_flatten (hm : Sendable P m) (out : List P.Msg) :
    firstEnd 13 10 (((m :: out).map (encoded P)).flatten) = some (encoded P m).length := by
  have hsingle : firstEnd 13 10 (encoded P m) = some (encoded P m).length := clean_iff_single.1 hm.clean
  rw [List.map_cons, List.flatten_cons, firstEnd_append hsingle]

/-- A read completes with the frame of the first message sent, if it has arrived. -/
theorem Holds.read_eq_some (h : w.Holds P out waiting) {n : ℕ} (hn : read w.receiver.buffer = some n) :
    ∃ m out', out = m :: out' ∧ w.receiver.buffer.take n = encoded P m ∧
      w.receiver.buffer.drop n ++ w.onTheWay = (out'.map (encoded P)).flatten := by
  have hfirst := firstEnd_append hn w.onTheWay
  have hle := (firstEnd_le hn).2
  rw [h.sent] at hfirst
  cases out with
  | nil => cases hfirst
  | cons m out' =>
    have hm := h.sendable m List.mem_cons_self
    rw [firstEnd_flatten hm] at hfirst
    obtain rfl := Option.some.inj hfirst
    have hsent := h.sent
    rw [List.map_cons, List.flatten_cons] at hsent
    have htake := congrArg (List.take (encoded P m).length) hsent
    have hdrop := congrArg (List.drop (encoded P m).length) hsent
    rw [List.take_append_of_le_length hle, List.take_left] at htake
    rw [List.drop_append_of_le_length hle, List.drop_left] at hdrop
    exact ⟨m, out', rfl, htake, hdrop⟩

theorem onMessage_encoded (hm : Sendable P m) : onMessage P (encoded P m) = some (some m) :=
  (onMessage_eq_some_some_iff P).2 (frameFor_encoded hm.min_lt hm.lt_max)

theorem handleRead_of_read {n : ℕ} (hn : read w.receiver.buffer = some n)
    (hm : onMessage P (w.receiver.buffer.take n) = some (some m)) :
    w.handleRead P = some (some m, { w with receiver := { w.receiver with
      buffer := w.receiver.buffer.drop n
      passed := w.receiver.passed ++ [w.receiver.buffer.take n] } }) := by
  have hstep : w.receiver.step .handleRead = some { w.receiver with
      buffer := w.receiver.buffer.drop n
      passed := w.receiver.passed ++ [w.receiver.buffer.take n] } := by
    rw [Reader.step, hn]
    rfl
  rw [Wire.handleRead, hn, hstep, Option.bind_some, Option.bind_some, Session.handleRead, hm]
  rfl

/-- **A completed read** hands on the first message sent. -/
theorem Holds.handleRead (h : w.Holds P out waiting) {n : ℕ} (hn : read w.receiver.buffer = some n) :
    ∃ m out' w', out = m :: out' ∧ w.handleRead P = some (some m, w') ∧ w'.Holds P out' waiting := by
  obtain ⟨m, out', rfl, htake, hdrop⟩ := h.read_eq_some hn
  have hm := h.sendable m List.mem_cons_self
  refine ⟨m, out', _, rfl, handleRead_of_read hn ?_, h.coherent, h.arrived_le, hdrop, h.queued,
    fun x hx => h.sendable x (.tail m hx)⟩
  rw [htake, onMessage_encoded hm]

/-! ### Delivery -/

theorem encoded_length_pos (m : P.Msg) : 0 < (encoded P m).length := by
  rw [length_encoded]
  exact Nat.succ_pos _

/-- If no frame is on the way, the first write can send one. -/
theorem Holds.exists_out (h : w.Holds P out waiting) {ms : List P.Msg} (hms : out ++ waiting = m :: ms) :
    ∃ es w' out' waiting', Run inner Whole w es w' ∧ w'.Holds P (m :: out') waiting' ∧
      ms = out' ++ waiting' := by
  cases out with
  | cons m' out' =>
    obtain ⟨rfl, rfl⟩ := List.cons.inj hms
    exact ⟨[], w, out', waiting, .nil w, h, rfl⟩
  | nil =>
    rw [List.nil_append] at hms
    subst hms
    obtain ⟨i, rest, hqueue, hi, -⟩ := List.map_eq_cons_iff.1 h.queued
    have hpending := h.coherent.pending_eq
    rw [hqueue, List.map_cons] at hpending
    have hlen : (w.sender.asyncSend i).len = (encoded P m).length := by
      rw [← h.coherent.length_bytes (hpending ▸ List.mem_cons_self), SendQueue.bytes_asyncSend, hi]
    have hpos : 1 ≤ (w.sender.asyncSend i).len := hlen ▸ encoded_length_pos m
    obtain ⟨q, hq, -⟩ := SendQueue.step_complete h.coherent hpending ⟨hpos, le_rfl⟩
    have hwhole : w.Whole (.handleWrite (w.sender.asyncSend i).len) := by
      intro a ha
      rw [hpending] at ha
      rw [Option.some.inj ha]
    obtain ⟨m', waiting', hcons, hholds⟩ := h.handleWrite hwhole hq
    obtain ⟨rfl, rfl⟩ := List.cons.inj hcons
    refine ⟨[.handleWrite _], _, [], ms, .cons hwhole ?_ (.nil _), hholds, rfl⟩
    exact congrArg (Option.map fun q => { w with sender := q }) hq

/-- The bytes on the way can arrive, so that a read completes. -/
theorem Holds.exists_arrival (h : w.Holds P (m :: out) waiting) :
    ∃ es w' n, Run inner Whole w es w' ∧ w'.Holds P (m :: out) waiting ∧
      read w'.receiver.buffer = some n := by
  have hall : ∀ {w' : Wire}, w'.Holds P (m :: out) waiting → w'.onTheWay = [] →
      read w'.receiver.buffer = some (encoded P m).length := by
    intro w' h' hnil
    have hsent := h'.sent
    rw [hnil, List.append_nil] at hsent
    rw [read, hsent, firstEnd_flatten (h'.sendable m List.mem_cons_self)]
  by_cases hnil : w.onTheWay = []
  · exact ⟨[], w, _, .nil w, h, hall h hnil⟩
  · have hpos : 1 ≤ w.onTheWay.length := List.length_pos_iff.2 hnil
    obtain ⟨w', hw', hempty⟩ : ∃ w', w.inner (.segment w.onTheWay.length) = some w' ∧
        w'.onTheWay = [] := by
      refine ⟨_, by rw [inner, if_pos ⟨hpos, le_rfl⟩]; rfl, List.drop_eq_nil_iff.2 ?_⟩
      change w.sender.transmitted.length ≤ (w.receiver.arrived ++ w.onTheWay.take _).length
      rw [List.take_length, List.length_append, onTheWay, List.length_drop]
      omega
    have hholds := h.segment hw'
    exact ⟨[.segment _], w', _, .cons trivial hw' (.nil w'), hholds, hall hholds hempty⟩

theorem carries_deliver {ms : List P.Msg} (h : w.Carries P (m :: ms)) :
    ∃ es w₁ w₂, Run inner Whole w es w₁ ∧ w₁.handleRead P = some (some m, w₂) ∧ w₂.Carries P ms := by
  obtain ⟨out, waiting, hms, hholds⟩ := h
  obtain ⟨es, w', out', waiting', hrun, hholds', rfl⟩ := hholds.exists_out hms.symm
  obtain ⟨es', w₁, n, hrun', hholds₁, hn⟩ := hholds'.exists_arrival
  obtain ⟨m', out₂, w₂, hcons, htake, hholds₂⟩ := hholds₁.handleRead hn
  obtain ⟨rfl, rfl⟩ := List.cons.inj hcons
  exact ⟨es ++ es', w₁, w₂, hrun.append hrun', htake, out', waiting', rfl, hholds₂⟩

end Wire

open Wire in
/-- **The bytes do what a queue of the messages does**, as long as the frames are clean and the writes are
whole. -/
theorem realizes_tcp (P : Pool) :
    (tcp P).Realizes (Sendable P) (fun w e => Wire.Whole w e) (fun w ms => Wire.Carries P w ms) where
  new := ⟨[], [], rfl, holds_connected⟩
  push := by
    rintro w ms m ⟨out, waiting, rfl, h⟩ hm
    exact ⟨out, waiting ++ [m], List.append_assoc out waiting [m], h.send hm⟩
  inner := by
    rintro w ms e w' ⟨out, waiting, rfl, h⟩ hwhole hstep
    cases e with
    | handleWrite n =>
      obtain ⟨q, hq, rfl⟩ := Option.map_eq_some_iff.1 hstep
      obtain ⟨m, waiting', rfl, h'⟩ := h.handleWrite hwhole hq
      exact ⟨out ++ [m], waiting', by rw [List.append_assoc]; rfl, h'⟩
    | segment n => exact ⟨out, waiting, rfl, h.segment hstep⟩
  take := by
    rintro w ms r w' ⟨out, waiting, rfl, h⟩ htake
    obtain ⟨n, hn, -⟩ := Option.bind_eq_some_iff.1 htake
    obtain ⟨m, out', w₁, rfl, htake₁, h'⟩ := h.handleRead hn
    obtain ⟨rfl, rfl⟩ := Prod.mk.inj (Option.some.inj (htake₁.symm.trans htake))
    exact ⟨m, out' ++ waiting, rfl, rfl, out', waiting, rfl, h'⟩
  deliver := fun h => carries_deliver h

/-! ## Clients and servers -/

section System

variable {ι : Type} [DecidableEq ι] {D : Parties ι P.Msg}

/-- A step of the system in which the messages sent have clean frames, and writes are whole. -/
def Clear (n : Net D (tcp P)) (e : Net.Event D (tcp P)) : Prop :=
  n.Allowed (Sendable P) (fun w e => Wire.Whole w e) e

instance (w : Wire) (e : Wire.Event) : Decidable (w.Whole e) := by
  unfold Wire.Whole
  split <;> infer_instance

instance (n : Net D (tcp P)) (e : Net.Event D (tcp P)) : Decidable (Clear n e) :=
  inferInstanceAs (Decidable (n.Allowed _ _ e))

/-- **Bytes cannot be told from messages**: whatever the parties do, they come over TCP to the same states as
over queues of messages, if the frames of the messages they send are clean and the writes whole. -/
theorem reachable_iff_fifo (party₀ party : (i : ι) → D.State i) :
    (∃ es n, Run Net.step Clear (Net.new party₀ : Net D (tcp P)) es n ∧ n.party = party) ↔
      ∃ es q, Run Net.step (fun q e => q.AllowedFifo (Sendable P) e) (Net.new party₀) es q ∧
        q.party = party :=
  Net.reachable_iff (realizes_tcp P) party₀ party

theorem Wire.Carries.eq_nil {w : Wire} {ms : List P.Msg} (h : w.Carries P ms)
    (hqueue : w.sender.sendMessages = []) (hway : w.onTheWay = []) (hbuffer : w.receiver.buffer = []) :
    ms = [] := by
  obtain ⟨out, waiting, rfl, h⟩ := h
  have hsent := h.sent
  have hqueued := h.queued
  rw [hway, hbuffer] at hsent
  rw [Wire.queued, hqueue] at hqueued
  obtain rfl := List.map_eq_nil_iff.1 hqueued.symm
  cases out with
  | nil => rfl
  | cons m out =>
    have hlen := congrArg List.length hsent
    rw [List.map_cons, List.flatten_cons, List.append_nil, List.length_append, List.length_nil] at hlen
    have hpos := encoded_length_pos m
    omega

/-- **Nothing is lost, doubled or put out of order**: in every run over TCP with clean frames and whole
writes, what `j` has received from `i` is a prefix of what `i` has sent to `j`, and all of it once nothing is
queued, on the way or in the buffer. -/
theorem received_prefix_of_run {party₀ : (i : ι) → D.State i} {es : List (Net.Event D.logged (tcp P))}
    {n : Net D.logged (tcp P)} (hrun : Run Net.step Clear (Net.new (D.unlogged party₀)) es n)
    (i j : ι) :
    ofPeer i (n.party j).received <+: ofPeer j (n.party i).sent ∧
      ((n.link (i, j)).sender.sendMessages = [] → (n.link (i, j)).onTheWay = [] →
        (n.link (i, j)).receiver.buffer = [] →
          ofPeer i (n.party j).received = ofPeer j (n.party i).sent) := by
  obtain ⟨ms, hms, heq⟩ := Net.sent_eq_of_run (realizes_tcp P) hrun i j
  refine ⟨heq ▸ List.prefix_append _ _, fun hqueue hway hbuffer => ?_⟩
  rw [heq, hms.eq_nil hqueue hway hbuffer, List.append_nil]

end System

/-! ## One message -/

/-- Two parties that send each other a letter at every input. -/
def penPals : Parties Bool chatPool.Msg where
  State _ := Unit
  Input _ := Unit
  input i _ _ := some ((), [(!i, letterA)])
  receive _ _ _ _ := some ((), [])

/-- A letter, sent in one write and received in two segments. -/
def oneLetter : List (Net.Event penPals.logged (tcp chatPool)) :=
  [.input false (), .inner false true (.handleWrite SendQueue.letterBuffer.readableBytes),
    .inner false true (.segment 20), .inner false true (.segment (SendQueue.letterBuffer.readableBytes - 20)),
    .take false true]

theorem received_oneLetter : ∃ n : Net penPals.logged (tcp chatPool),
    Run Net.step Clear (Net.new (penPals.unlogged fun _ => ())) oneLetter n ∧
      ofPeer false (n.party true).received = ofPeer true (n.party false).sent ∧
      (n.party false).sent = [(true, letterA)] := by
  have hexec : (exec Net.step Clear
      (Net.new (penPals.unlogged fun _ => ()) : Net penPals.logged (tcp chatPool)) oneLetter).any
      (fun n => decide (((n.link (false, true)).sender.sendMessages = [] ∧
        (n.link (false, true)).onTheWay = [] ∧ (n.link (false, true)).receiver.buffer = []) ∧
        (n.party false).sent = [(true, letterA)])) = true := by decide +kernel
  obtain ⟨n, hrun, ⟨hqueue, hway, hbuffer⟩, hsent⟩ := Run.exists_of_exec hexec
  exact ⟨n, hrun, (received_prefix_of_run hrun false true).2 hqueue hway hbuffer, hsent⟩

end MutexIM.Session
