import Mathlib.Algebra.Order.BigOperators.Group.List
import Mathlib.Data.List.Flatten
import Mathlib.Data.List.MinMax
import MutexIM.Codec.Messages
import MutexIM.Foundations.Delimited

/-!
# Frames on a connection

The session cuts the bytes it receives at CR LF and gives each piece to the codec. A frame ends in CR
LF, but it is binary, and CR LF may also occur inside it.

* `messages_eq_chop`: however the bytes arrive, the strings cut for the codec are the pieces of the whole
  stream. `given`: those the codec gets.
* `lossless_iff`: the messages of a connection are handed on when no frame has a CR LF inside.
* `unforged_iff`: nothing else is handed on when no frame has another frame behind a CR LF inside.

A string that passes the length check without being a frame is the last one: the dispatcher gets the null
pointer for it, and the program does not outlive the call.
-/

namespace MutexIM.Session

open Bytes Codec Delimited

/-! ## The session's loop -/

/-- `Tcp_Session::read`: with the given bytes buffered, `async_read_until` completes at the end of the
first delimiter. -/
def read (buffer : Bytes) : Option ℕ := firstEnd 13 10 buffer

/-- `Tcp_Session::handle_read` without an error: the message for the callback, and what is left in
`m_buffer`. -/
def handleRead (buffer : Bytes) (bytesTransferred : ℕ) : Bytes × Bytes :=
  (buffer.take bytesTransferred, buffer.drop bytesTransferred)

/-- `read` and `handle_read` in turn, until a read has to wait for more bytes. -/
def readLoop : ℕ → Bytes → List Bytes × Bytes
  | 0, buffer => ([], buffer)
  | fuel + 1, buffer =>
    match read buffer with
    | none => ([], buffer)
    | some bytesTransferred =>
      let (message, rest) := handleRead buffer bytesTransferred
      (message :: (readLoop fuel rest).1, (readLoop fuel rest).2)

/-- The messages for the callback when the bytes arrive in segments and the callback always returns. A read
takes at least one byte, so that the size of the buffer is enough fuel. -/
def messagesFrom (buffer : Bytes) : List Bytes → List Bytes
  | [] => []
  | seg :: segs =>
    let (out, rest) := readLoop (buffer ++ seg).length (buffer ++ seg)
    out ++ messagesFrom rest segs

/-- The messages for the callback of a new session. -/
def messages (segs : List Bytes) : List Bytes := messagesFrom [] segs

/-- `onMessage` calls its callback with the null pointer, which `HandleMessage` dereferences. -/
def Fatal (P : Pool) (s : Bytes) : Prop := onMessage P s = some none

instance (P : Pool) (s : Bytes) : Decidable (Fatal P s) :=
  decidable_of_iff ((onMessage P s).map Option.isNone = some true) <| by
    rw [Option.map_eq_some_iff, Fatal]
    exact ⟨fun ⟨ptr, hptr, hnone⟩ => hptr.trans (congrArg some (Option.isNone_iff_eq_none.1 hnone)),
      fun h => ⟨none, h, rfl⟩⟩

/-- The session outlives the strings. -/
def Alive (P : Pool) (strs : List Bytes) : Prop := ∀ s ∈ strs, ¬Fatal P s

instance (P : Pool) (strs : List Bytes) : Decidable (Alive P strs) :=
  inferInstanceAs (Decidable (∀ s ∈ strs, ¬Fatal P s))

/-- The strings `onMessage` is given: `handle_read` calls `read` again when the callback returns. -/
def given (P : Pool) : List Bytes → List Bytes
  | [] => []
  | s :: strs => s :: if Fatal P s then [] else given P strs

/-- The strings from which `onMessage` hands on a message, with the message. -/
def decoded (P : Pool) (strs : List Bytes) : List (Bytes × P.Msg) :=
  strs.filterMap fun s => (onMessage P s).join.map (s, ·)

/-- The messages handed on from strings cut from a stream, each with its string. -/
def handedOn (P : Pool) (strs : List Bytes) : List (Bytes × P.Msg) := decoded P (given P strs)

/-- The messages handed on by a session with the codec as its callback. -/
def received (P : Pool) (segs : List Bytes) : List P.Msg := (handedOn P (messages segs)).map Prod.snd

theorem readLoop_eq_chopFuel (fuel : ℕ) (buffer : Bytes) :
    readLoop fuel buffer = chopFuel 13 10 fuel buffer := by
  induction fuel generalizing buffer with
  | zero => rfl
  | succ fuel ih =>
    unfold readLoop chopFuel read
    cases firstEnd 13 10 buffer with
    | none => rfl
    | some n => simp only [handleRead, ih]

/-- **The strings cut for the codec** are the pieces of the stream. -/
theorem messages_eq_chop (segs : List Bytes) : messages segs = (chop 13 10 segs.flatten).1 := by
  have hfeed : ∀ buffer, messagesFrom buffer segs = (feed 13 10 buffer segs).1 := by
    induction segs with
    | nil => exact fun _ => rfl
    | cons seg segs ih =>
      intro buffer
      simp only [messagesFrom, readLoop_eq_chopFuel, ih]
      rfl
  rw [messages, hfeed, feed_eq_chop chop_nil, List.nil_append]

/-! ## The pieces of frames -/

variable {P : Pool}

/-- The frame of the message has no CR LF before its last two bytes. -/
def Clean (P : Pool) (m : P.Msg) : Prop := ∀ a b, encoded P m = a ++ crlf ++ b → b = []

/-- Behind a CR LF inside the frame of `m` there is a frame for `x`, cut off by the next CR LF. -/
def Forges (P : Pool) (m : P.Msg) (w : Bytes) (x : P.Msg) : Prop :=
  ∃ a b, encoded P m = a ++ crlf ++ w ++ b ∧ Single 13 10 w ∧ FrameFor P w x

/-- No string shorter than its frame is a frame for the message. -/
def Shortest (P : Pool) (m : P.Msg) : Prop := ∀ s, FrameFor P s m → (encoded P m).length ≤ s.length

theorem crlf_suffix_encoded (P : Pool) (m : P.Msg) : [13, 10] <:+ encoded P m := by
  rw [encoded_eq_frame, frame, frameWith, ← List.append_assoc, ← List.append_assoc]
  exact List.suffix_append _ _

theorem boundary_encoded (P : Pool) (m : P.Msg) : Boundary 13 10 (encoded P m) :=
  .inr (crlf_suffix_encoded P m)

theorem clean_iff_single {m : P.Msg} : Clean P m ↔ Single 13 10 (encoded P m) := by
  rw [single_iff]
  exact ⟨fun h => ⟨crlf_suffix_encoded P m, h⟩, fun h => h.2⟩

instance (m : P.Msg) : Decidable (Clean P m) := decidable_of_iff _ clean_iff_single.symm

/-- The pieces of a stream of frames. -/
theorem messages_of_flatten_eq {ms : List P.Msg} {segs : List Bytes}
    (hsegs : segs.flatten = (ms.map (encoded P)).flatten) :
    messages segs = ms.flatMap fun m => (chop 13 10 (encoded P m)).1 := by
  have hbound : ∀ w ∈ ms.map (encoded P), Boundary 13 10 w := by
    intro w hw
    obtain ⟨m, -, rfl⟩ := List.mem_map.1 hw
    exact boundary_encoded P m
  rw [messages_eq_chop, hsegs, chop_flatten (by decide) hbound, List.flatMap_map]

/-! ## What is handed on -/

theorem given_append_of_alive {strs : List Bytes} (h : Alive P strs) (strs' : List Bytes) :
    given P (strs ++ strs') = strs ++ given P strs' := by
  induction strs with
  | nil => rfl
  | cons s strs ih =>
    obtain ⟨hs, hstrs⟩ := List.forall_mem_cons.1 h
    rw [List.cons_append, given, if_neg hs, ih hstrs]
    rfl

theorem given_of_alive {strs : List Bytes} (h : Alive P strs) : given P strs = strs := by
  have happend := given_append_of_alive h []
  rwa [List.append_nil, given, List.append_nil] at happend

/-- Behind a string that is fatal nothing is read. -/
theorem given_append_of_not_alive {strs : List Bytes} (h : ¬Alive P strs) (strs' : List Bytes) :
    given P (strs ++ strs') = given P strs := by
  induction strs with
  | nil => exact absurd (fun s hs => absurd hs List.not_mem_nil) h
  | cons s strs ih =>
    rw [List.cons_append, given, given]
    by_cases hs : Fatal P s
    · rw [if_pos hs, if_pos hs]
    · rw [if_neg hs, if_neg hs, ih fun hstrs => h (List.forall_mem_cons.2 ⟨hs, hstrs⟩)]

theorem given_sublist (strs : List Bytes) : (given P strs).Sublist strs := by
  induction strs with
  | nil => exact .slnil
  | cons s strs ih =>
    rw [given]
    split
    · exact (List.nil_sublist strs).cons_cons s
    · exact ih.cons_cons s

/-- A string is given to `onMessage` when none before it is fatal. -/
theorem mem_given_iff {strs : List Bytes} {s : Bytes} :
    s ∈ given P strs ↔ ∃ before after, strs = before ++ s :: after ∧ Alive P before := by
  constructor
  · intro h
    induction strs with
    | nil => cases h
    | cons s' strs ih =>
      rw [given, List.mem_cons] at h
      rcases h with rfl | h
      · exact ⟨[], strs, rfl, fun s hs => absurd hs List.not_mem_nil⟩
      · by_cases hs : Fatal P s'
        · rw [if_pos hs] at h
          cases h
        · rw [if_neg hs] at h
          obtain ⟨before, after, rfl, hbefore⟩ := ih h
          exact ⟨s' :: before, after, rfl, List.forall_mem_cons.2 ⟨hs, hbefore⟩⟩
  · rintro ⟨before, after, rfl, hbefore⟩
    rw [given_append_of_alive hbefore]
    exact List.mem_append_right _ List.mem_cons_self

theorem decoded_append (strs strs' : List Bytes) :
    decoded P (strs ++ strs') = decoded P strs ++ decoded P strs' := List.filterMap_append

theorem handedOn_of_alive {strs : List Bytes} (h : Alive P strs) :
    handedOn P strs = decoded P strs := by rw [handedOn, given_of_alive h]

theorem handedOn_append_of_alive {strs : List Bytes} (h : Alive P strs) (strs' : List Bytes) :
    handedOn P (strs ++ strs') = handedOn P strs ++ handedOn P strs' := by
  rw [handedOn, given_append_of_alive h, decoded_append, handedOn_of_alive h, handedOn]

theorem handedOn_append_of_not_alive {strs : List Bytes} (h : ¬Alive P strs) (strs' : List Bytes) :
    handedOn P (strs ++ strs') = handedOn P strs := by
  rw [handedOn, given_append_of_not_alive h, handedOn]

theorem handedOn_sublist_decoded (strs : List Bytes) : (handedOn P strs).Sublist (decoded P strs) :=
  (given_sublist strs).filterMap _

theorem mem_decoded {strs : List Bytes} {s : Bytes} {m : P.Msg} :
    (s, m) ∈ decoded P strs ↔ s ∈ strs ∧ FrameFor P s m := by
  simp only [decoded, List.mem_filterMap, Option.map_eq_some_iff, Option.join_eq_some_iff,
    onMessage_eq_some_some_iff, Prod.mk.injEq]
  constructor
  · rintro ⟨s', hs', m', hm', rfl, rfl⟩
    exact ⟨hs', hm'⟩
  · rintro ⟨hs, hm⟩
    exact ⟨s, hs, m, hm, rfl, rfl⟩

theorem not_fatal_of_frameFor {s : Bytes} {m : P.Msg} (h : FrameFor P s m) : ¬Fatal P s := by
  rw [Fatal, (onMessage_eq_some_some_iff P).2 h]
  intro hnone
  cases hnone

theorem decoded_singleton {s : Bytes} {m : P.Msg} (h : FrameFor P s m) :
    decoded P [s] = [(s, m)] := by
  simp [decoded, (onMessage_eq_some_some_iff P).2 h]

theorem handedOn_singleton {s : Bytes} {m : P.Msg} (h : FrameFor P s m) :
    handedOn P [s] = [(s, m)] := by
  rw [handedOn_of_alive (List.forall_mem_singleton.2 (not_fatal_of_frameFor h)), decoded_singleton h]

/-- What the pieces of a frame stand for comes from the frame itself or is forged. -/
theorem mem_decoded_chop {m x : P.Msg} {w : Bytes} :
    (w, x) ∈ decoded P (chop 13 10 (encoded P m)).1 ↔
      (w = encoded P m ∧ x = m ∧ Clean P m ∧ FrameFor P w x) ∨ Forges P m w x := by
  rw [mem_decoded, mem_chop_iff (by decide)]
  constructor
  · rintro ⟨⟨a, y, hs, ha, hw⟩, hx⟩
    rcases ha with rfl | ⟨a', rfl⟩
    · rw [List.nil_append] at hs
      have heq := hx.eq_encoded_of_append hs
      rw [heq] at hw hx
      exact .inl ⟨heq, hx.eq_of_encoded, clean_iff_single.2 hw, heq ▸ hx⟩
    · exact .inr ⟨a', y, by rw [hs, crlf, List.append_assoc _ w], hw, hx⟩
  · rintro (⟨heq, -, hc, hx⟩ | ⟨a, b, hs, hw, hx⟩)
    · refine ⟨⟨[], [], ?_, .inl rfl, heq ▸ clean_iff_single.1 hc⟩, hx⟩
      rw [List.append_nil, List.nil_append, heq]
    · refine ⟨⟨a ++ crlf, b, by rw [hs, List.append_assoc _ w], .inr ?_, hw⟩, hx⟩
      exact List.suffix_append _ _

theorem Forges.frameFor {m x : P.Msg} {w : Bytes} (h : Forges P m w x) : FrameFor P w x := by
  obtain ⟨-, -, -, -, hframe⟩ := h
  exact hframe

theorem Forges.single {m x : P.Msg} {w : Bytes} (h : Forges P m w x) : Single 13 10 w := by
  obtain ⟨-, -, -, hw, -⟩ := h
  exact hw

theorem Forges.length_lt {m x : P.Msg} {w : Bytes} (h : Forges P m w x) :
    w.length < (encoded P m).length := by
  obtain ⟨a, b, hs, -, -⟩ := h
  rw [hs]
  simp only [List.length_append, crlf, List.length_cons]
  omega

theorem Forges.not_clean {m x : P.Msg} {w : Bytes} (h : Forges P m w x) : ¬Clean P m := by
  obtain ⟨a, b, hs, hw, -⟩ := h
  intro hc
  have hnil := hc a (w ++ b) (by rw [hs, List.append_assoc _ w])
  exact hw.ne_nil (List.append_eq_nil_iff.1 hnil).1

/-- What the strings stand for, frame by frame. -/
theorem decoded_messages {ms : List P.Msg} {segs : List Bytes}
    (hsegs : segs.flatten = (ms.map (encoded P)).flatten) :
    decoded P (messages segs) = ms.flatMap fun m => decoded P (chop 13 10 (encoded P m)).1 := by
  rw [messages_of_flatten_eq hsegs, decoded, List.filterMap_flatMap]
  rfl

theorem decoded_chop_of_clean {m : P.Msg} (hc : Clean P m) (hm : FrameFor P (encoded P m) m) :
    decoded P (chop 13 10 (encoded P m)).1 = [(encoded P m, m)] := by
  rw [(clean_iff_single.1 hc).chop, decoded_singleton hm]

/-! ## No message is lost -/

theorem handedOn_of_clean {ms : List P.Msg} {segs : List Bytes}
    (hrange : ∀ m ∈ ms, 10 < frameLen P m ∧ frameLen P m < 64 * 1024 * 1024)
    (hsegs : segs.flatten = (ms.map (encoded P)).flatten) (hc : ∀ m ∈ ms, Clean P m) :
    handedOn P (messages segs) = ms.map fun m => (encoded P m, m) := by
  have hframe : ∀ m ∈ ms, FrameFor P (encoded P m) m := fun m hm =>
    frameFor_encoded (hrange m hm).1 (hrange m hm).2
  have halive : Alive P (messages segs) := by
    intro s hs
    rw [messages_of_flatten_eq hsegs, List.mem_flatMap] at hs
    obtain ⟨m, hm, hs⟩ := hs
    rw [(clean_iff_single.1 (hc m hm)).chop, List.mem_singleton] at hs
    rw [hs]
    exact not_fatal_of_frameFor (hframe m hm)
  rw [handedOn_of_alive halive, decoded_messages hsegs, List.map_eq_flatMap]
  exact List.flatMap_congr fun m hm => decoded_chop_of_clean (hc m hm) (hframe m hm)

/-- A message whose frame is not clean is handed on only from a part of a longer frame. -/
theorem exists_longer_of_mem_received {ms : List P.Msg} {segs : List Bytes}
    (hsegs : segs.flatten = (ms.map (encoded P)).flatten) (hshort : ∀ m ∈ ms, Shortest P m)
    {m : P.Msg} (hm : m ∈ ms) (hc : ¬Clean P m) (hrec : m ∈ received P segs) :
    ∃ m' ∈ ms, ¬Clean P m' ∧ (encoded P m).length < (encoded P m').length := by
  obtain ⟨⟨w, x⟩, hwx, rfl⟩ := List.mem_map.1 hrec
  have hdecoded := (handedOn_sublist_decoded _).subset hwx
  rw [decoded_messages hsegs, List.mem_flatMap] at hdecoded
  obtain ⟨m', hm', hpiece⟩ := hdecoded
  rcases mem_decoded_chop.1 hpiece with ⟨-, hx, hclean, -⟩ | hforge
  · rw [← hx] at hclean
    exact absurd hclean hc
  · exact ⟨m', hm', hforge.not_clean, (hshort x hm w hforge.frameFor).trans_lt hforge.length_lt⟩

/-- A longest frame among those that are not clean would have to be part of a longer one. -/
theorem clean_of_sublist_received {ms : List P.Msg} {segs : List Bytes}
    (hsegs : segs.flatten = (ms.map (encoded P)).flatten) (hshort : ∀ m ∈ ms, Shortest P m)
    (hsub : ms.Sublist (received P segs)) : ∀ m ∈ ms, Clean P m := by
  let unclean := ms.filter fun m => ¬Clean P m
  have hunclean : ∀ m, m ∈ unclean ↔ m ∈ ms ∧ ¬Clean P m := by simp [unclean]
  cases hmax : unclean.argmax fun m => (encoded P m).length with
  | none =>
    rw [List.argmax_eq_none] at hmax
    intro m hm
    by_contra hc
    have hmem := (hunclean m).2 ⟨hm, hc⟩
    rw [hmax] at hmem
    cases hmem
  | some m =>
    obtain ⟨hm, hc⟩ := (hunclean m).1 (List.argmax_mem hmax)
    obtain ⟨m', hm', hc', hlt⟩ :=
      exists_longer_of_mem_received hsegs hshort hm hc (hsub.subset hm)
    have hle := List.le_of_mem_argmax ((hunclean m').2 ⟨hm', hc'⟩) hmax
    exact absurd hlt (Nat.not_lt_of_le hle)

/-- **When no message is lost.** Every message is handed on from its own frame, in the order sent,
exactly when no frame has a CR LF before its last two bytes; then the messages received are the
messages sent. Where a message's own frame is its shortest, no other frame makes up for a lost one.
-/
theorem lossless_iff {ms : List P.Msg} {segs : List Bytes}
    (hrange : ∀ m ∈ ms, 10 < frameLen P m ∧ frameLen P m < 64 * 1024 * 1024)
    (hsegs : segs.flatten = (ms.map (encoded P)).flatten) :
    ((ms.map fun m => (encoded P m, m)).Sublist (handedOn P (messages segs)) ↔
      ∀ m ∈ ms, Clean P m) ∧
    ((∀ m ∈ ms, Clean P m) → received P segs = ms) ∧
    ((∀ m ∈ ms, Shortest P m) → (ms.Sublist (received P segs) ↔ ∀ m ∈ ms, Clean P m)) := by
  have hall : (∀ m ∈ ms, Clean P m) → received P segs = ms := by
    intro hc
    rw [received, handedOn_of_clean hrange hsegs hc, List.map_map]
    exact List.map_id ms
  refine ⟨⟨fun hsub m hm => ?_, fun hc => ?_⟩, hall, fun hshort => ⟨?_, fun hc => ?_⟩⟩
  · have hmem := (handedOn_sublist_decoded _).subset (hsub.subset (List.mem_map_of_mem hm))
    rw [mem_decoded, messages_eq_chop] at hmem
    exact clean_iff_single.2 (single_of_mem_chop hmem.1)
  · rw [handedOn_of_clean hrange hsegs hc]
  · exact clean_of_sublist_received hsegs hshort
  · rw [hall hc]

/-- A chat message with the given text. -/
def textMessage (text : Bytes) : ChatMsg := .msgData
  { timestamp := 0
    sequenceNumber := 0
    fromId := []
    toId := []
    msgData := text
    type := chatText }

def letterA : chatPool.Msg := ⟨textMessage (ascii "a"), by decide⟩

/-- A chat message whose text is a line break. -/
def lineBreak : chatPool.Msg := ⟨textMessage crlf, by decide⟩

theorem lossless_letterA : received chatPool [encoded chatPool letterA] = [letterA] :=
  (lossless_iff (show ∀ m ∈ [letterA], _ from by decide +kernel) rfl).2.1 (by decide +kernel)

theorem lineBreak_lost :
    10 < frameLen chatPool lineBreak ∧ frameLen chatPool lineBreak < 64 * 1024 * 1024 ∧
      ¬[lineBreak].Sublist (received chatPool [encoded chatPool lineBreak]) := by
  refine ⟨by decide +kernel, by decide +kernel, fun h => ?_⟩
  have hlen := h.length_le
  have hnone : (received chatPool [encoded chatPool lineBreak]).length = 0 := by decide +kernel
  rw [hnone] at hlen
  cases hlen

/-! ## No message is forged -/

/-- The frame of `m`, sent after those of `before`, forges `x` by the string `w`, and the session outlives
what comes before that string. -/
def ForgedAfter (P : Pool) (before : List P.Msg) (m : P.Msg) (w : Bytes) (x : P.Msg) : Prop :=
  ∃ a b, encoded P m = a ++ crlf ++ w ++ b ∧ Single 13 10 w ∧ FrameFor P w x ∧
    Alive P (messages (before.map (encoded P) ++ [a ++ crlf]))

theorem ForgedAfter.forges {before : List P.Msg} {m x : P.Msg} {w : Bytes}
    (h : ForgedAfter P before m w x) : Forges P m w x := by
  obtain ⟨a, b, hs, hw, hframe, -⟩ := h
  exact ⟨a, b, hs, hw, hframe⟩

theorem messages_congr {segs segs' : List Bytes} (h : segs.flatten = segs'.flatten) :
    messages segs = messages segs' := by rw [messages_eq_chop, messages_eq_chop, h]

/-- What comes behind frames is cut on its own. -/
theorem messages_frames_append (ms : List P.Msg) (segs : List Bytes) :
    messages (ms.map (encoded P) ++ segs) = messages (ms.map (encoded P)) ++ messages segs := by
  have hbound : ∀ w ∈ ms.map (encoded P), Boundary 13 10 w := by
    intro w hw
    obtain ⟨m, -, rfl⟩ := List.mem_map.1 hw
    exact boundary_encoded P m
  simp only [messages_eq_chop, List.flatten_append, chop_flatten_append (by decide) hbound,
    chop_flatten (by decide) hbound]

/-- Where nothing is forged by a frame that a living session reads, only its own message is handed on. -/
theorem handedOn_frame_sublist {before : List P.Msg} {m : P.Msg}
    (halive : Alive P (messages (before.map (encoded P))))
    (hforge : ∀ w x, ¬ForgedAfter P before m w x) :
    (handedOn P (messages [encoded P m])).Sublist [(encoded P m, m)] := by
  have hmessages : messages [encoded P m] = (chop 13 10 (encoded P m)).1 := by
    rw [messages_eq_chop, List.flatten_singleton]
  have hpiece : ∀ r ∈ handedOn P (messages [encoded P m]),
      Clean P m ∧ FrameFor P (encoded P m) m := by
    rintro ⟨w, x⟩ hr
    obtain ⟨hw, hx⟩ := mem_decoded.1 hr
    obtain ⟨pre, post, hpre, hpreAlive⟩ := mem_given_iff.1 hw
    rw [hmessages] at hpre
    obtain ⟨⟨y, hs⟩, hbound, hcut⟩ := eq_append_of_chop hpre
    have hsingle : Single 13 10 w := by
      refine single_of_mem_chop (s := encoded P m) ?_
      rw [hpre]
      exact List.mem_append_right _ List.mem_cons_self
    rcases hbound with hnil | ⟨a, ha⟩
    · rw [hnil, List.nil_append] at hs
      have heq := hx.eq_encoded_of_append hs
      rw [heq] at hsingle hx
      have hxm := hx.eq_of_encoded
      rw [hxm] at hx
      exact ⟨clean_iff_single.2 hsingle, hx⟩
    · refine absurd ⟨a, y, ?_, hsingle, hx, ?_⟩ (hforge w x)
      · rw [hs, ← ha, crlf, List.append_assoc _ w]
      · have ha' : a ++ crlf = pre.flatten := ha
        rw [messages_frames_append, ha', messages_eq_chop [pre.flatten], List.flatten_singleton, hcut]
        exact List.forall_mem_append.2 ⟨halive, hpreAlive⟩
  cases hh : handedOn P (messages [encoded P m]) with
  | nil => exact List.nil_sublist _
  | cons r rs =>
    obtain ⟨hc, hframe⟩ := hpiece r (by rw [hh]; exact List.mem_cons_self)
    rw [← hh, hmessages, (clean_iff_single.1 hc).chop, handedOn_singleton hframe]

/-- The messages handed on, with their strings, come from the frames sent. -/
theorem handedOn_sublist {ms : List P.Msg}
    (hforge : ∀ before m after, ms = before ++ m :: after → ∀ w x, ¬ForgedAfter P before m w x) :
    (handedOn P (messages (ms.map (encoded P)))).Sublist (ms.map fun m => (encoded P m, m)) := by
  induction ms using List.reverseRecOn with
  | nil => exact List.nil_sublist _
  | append_singleton before m ih =>
    have hbefore := ih fun before' m' after hms => hforge before' m' (after ++ [m]) (by simp [hms])
    rw [List.map_append, List.map_append, messages_frames_append]
    by_cases halive : Alive P (messages (before.map (encoded P)))
    · rw [handedOn_append_of_alive halive]
      exact hbefore.append (handedOn_frame_sublist halive (hforge before m [] rfl))
    · rw [handedOn_append_of_not_alive halive]
      exact hbefore.trans (List.sublist_append_left _ _)

/-- Where every element yields `b` at least as often under `f` as under `g`, so do all of them. -/
theorem count_flatMap_le {α β : Type*} [BEq β] {l : List α} {f g : α → List β} (b : β)
    (hle : ∀ a ∈ l, (g a).count b ≤ (f a).count b) :
    (l.flatMap g).count b ≤ (l.flatMap f).count b := by
  rw [List.count_flatMap, List.count_flatMap]
  exact List.sum_le_sum hle

/-- If in addition one of them does so more often, the results under `f` are not among those under `g`. -/
theorem not_flatMap_sublist {α β : Type*} [BEq β] {l : List α} {f g : α → List β} (b : β)
    (hle : ∀ a ∈ l, (g a).count b ≤ (f a).count b) (hlt : ∃ a ∈ l, (g a).count b < (f a).count b) :
    ¬(l.flatMap f).Sublist (l.flatMap g) := by
  intro hsub
  have hcount := hsub.count_le b
  rw [List.count_flatMap, List.count_flatMap] at hcount
  exact absurd (List.sum_lt_sum _ _ hle hlt) (Nat.not_lt_of_le hcount)

theorem count_own_le {m : P.Msg} {w : Bytes} {x : P.Msg} [DecidableEq P.Msg]
    (hw : Single 13 10 w) (hx : FrameFor P w x) :
    [(encoded P m, m)].count (w, x) ≤
      (decoded P (chop 13 10 (encoded P m)).1).count (w, x) := by
  by_cases h : (encoded P m, m) = (w, x)
  · obtain ⟨rfl, rfl⟩ := Prod.mk.inj h
    rw [decoded_chop_of_clean (clean_iff_single.2 hw) hx]
  · rw [List.count_singleton, if_neg (by simpa using h)]
    exact Nat.zero_le _

/-- A forged string is shorter than the frame around it. -/
theorem Forges.count_own {m x : P.Msg} {w : Bytes} [DecidableEq P.Msg] (h : Forges P m w x) :
    [(encoded P m, m)].count (w, x) = 0 := by
  rw [List.count_singleton, if_neg]
  rw [beq_iff_eq]
  intro heq
  have hlt := h.length_lt
  rw [(Prod.mk.inj heq).1] at hlt
  exact lt_irrefl _ hlt

/-- What a living session gets from inside a frame it hands on in addition to the frames sent. -/
theorem not_handedOn_sublist {before : List P.Msg} {m x : P.Msg} {w : Bytes}
    (h : ForgedAfter P before m w x) :
    ¬(handedOn P (messages ((before ++ [m]).map (encoded P)))).Sublist
      ((before ++ [m]).map fun m => (encoded P m, m)) := by
  classical
  intro hsub
  have hforges := h.forges
  obtain ⟨a, b, hs, hw, hx, halive⟩ := h
  have hcut : messages [encoded P m] = messages [a ++ crlf] ++ ([w] ++ messages [b]) := by
    have hbound : Boundary 13 10 (a ++ crlf) := .inr (List.suffix_append _ _)
    simp only [messages_eq_chop, List.flatten_singleton, hs, List.append_assoc _ w,
      chop_append (by decide) hbound, hw.chop_append, List.singleton_append]
  rw [messages_frames_append] at halive
  have hpiece : Alive P [w] := List.forall_mem_singleton.2 (not_fatal_of_frameFor hx)
  rw [List.map_append, List.map_append, List.map_singleton, messages_frames_append, hcut,
    ← List.append_assoc, handedOn_append_of_alive halive, handedOn_of_alive halive, decoded_append,
    handedOn_append_of_alive hpiece, handedOn_singleton hx, decoded_messages rfl,
    List.map_eq_flatMap] at hsub
  have hcount := hsub.count_le (w, x)
  have hle := count_flatMap_le (w, x) fun m' (_ : m' ∈ before) => count_own_le (m := m') hw hx
  have hown := hforges.count_own
  simp only [List.count_append, List.count_singleton_self, List.map_singleton, hown] at hcount
  omega

/-- Every frame inside another one is handed on in addition to the frames sent. -/
theorem not_forges_of_decoded_sublist {ms : List P.Msg} {segs : List Bytes}
    (hsegs : segs.flatten = (ms.map (encoded P)).flatten)
    (hsub : (decoded P (messages segs)).Sublist (ms.map fun m => (encoded P m, m))) :
    ∀ m ∈ ms, ∀ w x, ¬Forges P m w x := by
  classical
  intro m hm w x hf
  rw [decoded_messages hsegs, List.map_eq_flatMap] at hsub
  refine not_flatMap_sublist (w, x) (fun a _ => count_own_le hf.single hf.frameFor)
    ⟨m, hm, ?_⟩ hsub
  rw [hf.count_own]
  exact List.count_pos_iff.2 (mem_decoded_chop.2 (.inr hf))

/-- The same for the messages alone, where a message that some string stands for is handed on from
its own frame. -/
theorem not_forges_of_received_sublist {ms : List P.Msg} {segs : List Bytes}
    (hsegs : segs.flatten = (ms.map (encoded P)).flatten)
    (hown : ∀ x ∈ ms, ∀ w, Single 13 10 w → FrameFor P w x →
      Clean P x ∧ FrameFor P (encoded P x) x)
    (hsub : ((decoded P (messages segs)).map Prod.snd).Sublist ms) :
    ∀ m ∈ ms, ∀ w x, ¬Forges P m w x := by
  classical
  intro m hm w x hf
  have hms : ms = ms.flatMap fun m => [m] := (List.flatMap_singleton' ms).symm
  rw [decoded_messages hsegs, List.map_flatMap] at hsub
  nth_rewrite 2 [hms] at hsub
  have hmem : x ∈ (decoded P (chop 13 10 (encoded P m)).1).map Prod.snd :=
    List.mem_map.2 ⟨(w, x), mem_decoded_chop.2 (.inr hf), rfl⟩
  refine not_flatMap_sublist x (fun a ha => ?_) ⟨m, hm, ?_⟩ hsub
  · by_cases h : a = x
    · subst h
      obtain ⟨hc, hframe⟩ := hown a ha w hf.single hf.frameFor
      rw [decoded_chop_of_clean hc hframe]
      rfl
    · rw [List.count_singleton, if_neg (by simpa using h)]
      exact Nat.zero_le _
  · have hne : ¬m = x := by
      rintro rfl
      exact hf.not_clean (hown m hm w hf.single hf.frameFor).1
    rw [List.count_singleton, if_neg (by simpa using hne)]
    exact List.count_pos_iff.2 hmem

/-- **When no message is forged.** At all times what is handed on comes from the frames sent so far, in
the order sent, exactly when no frame has, behind a CR LF inside, another frame that the next CR LF ends and
that the session lives to see; then the messages received are among those sent. On a stream that the session
outlives, this holds at the end only if no frame has another one inside; for the messages alone, where a
message for which there is a clean string is handed on from its own frame. -/
theorem unforged_iff {ms : List P.Msg} {segs : List Bytes}
    (hsegs : segs.flatten = (ms.map (encoded P)).flatten) :
    ((∀ sent segs', sent <+: ms → segs'.flatten = (sent.map (encoded P)).flatten →
        (handedOn P (messages segs')).Sublist (sent.map fun m => (encoded P m, m))) ↔
      ∀ before m after, ms = before ++ m :: after → ∀ w x, ¬ForgedAfter P before m w x) ∧
    ((∀ before m after, ms = before ++ m :: after → ∀ w x, ¬ForgedAfter P before m w x) →
      (received P segs).Sublist ms) ∧
    ((∀ m ∈ ms, ∀ w x, ¬Forges P m w x) →
      (handedOn P (messages segs)).Sublist (ms.map fun m => (encoded P m, m)) ∧
        (received P segs).Sublist ms) ∧
    (Alive P (messages segs) →
      ((handedOn P (messages segs)).Sublist (ms.map fun m => (encoded P m, m)) ↔
        ∀ m ∈ ms, ∀ w x, ¬Forges P m w x) ∧
      ((∀ x ∈ ms, ∀ w, Single 13 10 w → FrameFor P w x →
          Clean P x ∧ FrameFor P (encoded P x) x) →
        ((received P segs).Sublist ms ↔ ∀ m ∈ ms, ∀ w x, ¬Forges P m w x))) := by
  have hsub : ∀ sent segs', segs'.flatten = (sent.map (encoded P)).flatten →
      (∀ before m after, sent = before ++ m :: after → ∀ w x, ¬ForgedAfter P before m w x) →
      (handedOn P (messages segs')).Sublist (sent.map fun m => (encoded P m, m)) := by
    intro sent segs' hsegs' hforge
    rw [messages_congr hsegs']
    exact handedOn_sublist hforge
  have hreceived : (handedOn P (messages segs)).Sublist (ms.map fun m => (encoded P m, m)) →
      (received P segs).Sublist ms := by
    intro h
    have hmap := h.map Prod.snd
    rwa [List.map_map, show (Prod.snd ∘ fun m => (encoded P m, m)) = id from rfl,
      List.map_id] at hmap
  have hnone : (∀ m ∈ ms, ∀ w x, ¬Forges P m w x) →
      (handedOn P (messages segs)).Sublist (ms.map fun m => (encoded P m, m)) := by
    intro hforge
    refine hsub ms segs hsegs fun before m after hms w x hf => hforge m ?_ w x hf.forges
    rw [hms]
    exact List.mem_append_right _ List.mem_cons_self
  refine ⟨⟨fun h before m after hms w x hf => ?_, fun h sent segs' hsent hsegs' => ?_⟩,
    fun h => hreceived (hsub ms segs hsegs h), fun h => ⟨hnone h, hreceived (hnone h)⟩, fun halive => ?_⟩
  · refine not_handedOn_sublist hf (h (before ++ [m]) _ ⟨after, ?_⟩ rfl)
    rw [hms, List.append_assoc, List.singleton_append]
  · obtain ⟨rest, rfl⟩ := hsent
    refine hsub sent segs' hsegs' fun before m after hms => h before m (after ++ rest) ?_
    rw [hms, List.append_assoc, List.cons_append]
  · rw [received, handedOn_of_alive halive] at *
    exact ⟨⟨not_forges_of_decoded_sublist hsegs, hnone⟩, fun hown =>
      ⟨not_forges_of_received_sublist hsegs hown, fun h => hreceived (hnone h)⟩⟩

/-- A handshake for the user `1`. -/
def handshake : chatPool.Msg :=
  ⟨.shakeHandleReq { timestamp := 0, userId := ascii "1" }, by decide⟩

/-- A chat message with the frame of a handshake in its text. -/
def carrier : chatPool.Msg :=
  ⟨textMessage (crlf ++ frame (chatPool.getTypeName handshake) (chatPool.serialize handshake)),
    by decide +kernel⟩

theorem unforged_letterA : (received chatPool [encoded chatPool letterA]).Sublist [letterA] :=
  ((unforged_iff (show _ = ([letterA].map (encoded chatPool)).flatten from rfl)).2.2.1
    fun m hm w x hf =>
      hf.not_clean ((by decide +kernel : ∀ m ∈ [letterA], Clean chatPool m) m hm)).2

theorem carrier_forges :
    received chatPool [encoded chatPool carrier] = [handshake] ∧
      ¬(received chatPool [encoded chatPool carrier]).Sublist [carrier] := by
  have hrec : received chatPool [encoded chatPool carrier] = [handshake] := by decide +kernel
  refine ⟨hrec, fun h => ?_⟩
  rw [hrec, List.singleton_sublist, List.mem_singleton] at h
  exact absurd (congrArg (fun m : chatPool.Msg => m.1.type) h) (by decide)

end MutexIM.Session
