import MutexIM.Codec.ProtobufDispatcher
import MutexIM.Session.ReadLoop

/-!
# Damage on a connection

A string that ends in CR LF leaves nothing behind in the session's buffer, whatever it holds: what
comes after it is cut as if it had come first. So a damaged frame does no harm to the frames after it,
unless it passes the length check: then `onMessage` calls the callback with the null pointer, and there is no
session any more to read the frames after it.

* `fatal_iff`: the strings that pass the length check and are no frames.
* `messages_append`: two streams on end are cut one after the other.
* `damage_local_iff`: when `onMessage` is given what it would be given for each of them, and when each whole
  frame without a CR LF inside is handed on, whatever stands between the frames.
* `zeroFrame_harms`: one damaged frame takes the next one with it.
-/

namespace MutexIM.Session

open Bytes Codec Delimited

variable {P : Pool}

/-- With a dispatcher as the callback, whatever is registered. -/
theorem fatal_iff_receive {Callback : Type} (D : ProtobufDispatcher P Callback) {s : Bytes} :
    Fatal P s ↔ D.receive s = some .nullPointer := by
  rw [ProtobufDispatcher.receive, Option.map_eq_some_iff, Fatal]
  simp only [ProtobufDispatcher.handleMessage_eq_nullPointer_iff, exists_eq_right]

/-- These strings pass the length check without being frames. -/
theorem fatal_iff {s : Bytes} : Fatal P s ↔ LengthOk s ∧ ∀ m, ¬FrameFor P s m :=
  ProtobufDispatcher.onMessage_eq_some_none_iff

/-- **Two streams on end** are cut one after the other. -/
theorem messages_append {x y : Bytes} (hx : Boundary 13 10 x) {segs : List Bytes}
    (hsegs : segs.flatten = x ++ y) : messages segs = messages [x] ++ messages [y] := by
  simp only [messages_eq_chop, hsegs, chop_append (by decide) hx, List.flatten_singleton]

/-- What is given to `onMessage` for two streams on end, and what it would be given for each. -/
theorem given_messages_append_iff {x y : Bytes} (hx : crlf <:+ x) {segs : List Bytes}
    (hsegs : segs.flatten = x ++ y) :
    given P (messages segs) = given P (messages [x]) ++ given P (messages [y]) ↔
      Alive P (messages [x]) ∨ messages [y] = [] := by
  rw [messages_append (.inr hx) hsegs]
  by_cases halive : Alive P (messages [x])
  · rw [given_append_of_alive halive, given_of_alive halive]
    exact iff_of_true rfl (.inl halive)
  · rw [given_append_of_not_alive halive, or_iff_right halive, List.self_eq_append_right]
    cases messages [y] with
    | nil => exact iff_of_true rfl rfl
    | cons s strs => exact iff_of_false (List.cons_ne_nil _ _) (List.cons_ne_nil _ _)

/-- The string is the message's frame, with a length field in range and without a CR LF inside. -/
structure Intact (P : Pool) (w : Bytes) (m : P.Msg) : Prop where
  eq_encoded : w = encoded P m
  clean : Clean P m
  min_lt : 10 < frameLen P m
  lt_max : frameLen P m < 64 * 1024 * 1024

theorem Intact.messages_eq {w : Bytes} {m : P.Msg} (h : Intact P w m) : messages [w] = [w] := by
  have hsingle := clean_iff_single.1 h.clean
  rw [← h.eq_encoded] at hsingle
  rw [messages_eq_chop, List.flatten_singleton, hsingle.chop]

theorem Intact.handedOn_eq {w : Bytes} {m : P.Msg} (h : Intact P w m) :
    handedOn P (messages [w]) = [(w, m)] := by
  have hframe := frameFor_encoded h.min_lt h.lt_max
  rw [← h.eq_encoded] at hframe
  rw [h.messages_eq, handedOn_singleton hframe]

/-- The session outlives what comes before each intact frame. -/
def AliveBefore (P : Pool) (frames : List Bytes) : Prop :=
  ∀ before w after m, frames = before ++ w :: after → Intact P w m → Alive P (messages before)

theorem AliveBefore.of_append {before after : List Bytes} (h : AliveBefore P (before ++ after)) :
    AliveBefore P before := by
  intro before' w after' m heq hw
  refine h before' w (after' ++ after) m ?_ hw
  rw [heq, List.append_assoc, List.cons_append]

/-- One more frame behind frames that all end in CR LF. -/
theorem messages_concat {before : List Bytes} (hbefore : ∀ w ∈ before, crlf <:+ w) (w : Bytes) :
    messages (before ++ [w]) = messages before ++ messages [w] := by
  have hbound : Boundary 13 10 before.flatten :=
    boundary_flatten fun v hv => .inr (hbefore v hv)
  have hflat : (before ++ [w]).flatten = before.flatten ++ w := by
    rw [List.flatten_append, List.flatten_singleton]
  rw [messages_append hbound hflat]
  congr 1
  exact messages_congr List.flatten_singleton

/-- An intact frame behind other frames hands on its message exactly when the session outlives them. -/
theorem handedOn_concat_iff {before : List Bytes} (hbefore : ∀ w ∈ before, crlf <:+ w) {w : Bytes}
    {m : P.Msg} (hw : Intact P w m) :
    handedOn P (messages (before ++ [w])) = handedOn P (messages before) ++ [(w, m)] ↔
      Alive P (messages before) := by
  rw [messages_concat hbefore]
  constructor
  · intro h
    by_contra halive
    rw [handedOn_append_of_not_alive halive, List.self_eq_append_right] at h
    cases h
  · intro halive
    rw [handedOn_append_of_alive halive, hw.handedOn_eq]

/-- What has been handed on stays handed on. -/
theorem handedOn_sublist_append (strs strs' : List Bytes) :
    (handedOn P strs).Sublist (handedOn P (strs ++ strs')) := by
  by_cases halive : Alive P strs
  · rw [handedOn_append_of_alive halive]
    exact List.sublist_append_left _ _
  · rw [handedOn_append_of_not_alive halive]

/-- The intact frames, in their order, hand on their messages. -/
theorem intact_sublist_handedOn {frames : List Bytes} (hframes : ∀ w ∈ frames, crlf <:+ w)
    (halive : AliveBefore P frames) {intact : List (Bytes × P.Msg)}
    (hsub : (intact.map Prod.fst).Sublist frames) (hintact : ∀ e ∈ intact, Intact P e.1 e.2) :
    intact.Sublist (handedOn P (messages frames)) := by
  induction frames using List.reverseRecOn generalizing intact with
  | nil =>
    rw [List.map_eq_nil_iff.1 (List.sublist_nil.1 hsub)]
    exact List.nil_sublist _
  | append_singleton before w ih =>
    obtain ⟨hbefore, -⟩ := List.forall_mem_append.1 hframes
    obtain ⟨l₁, l₂, heq, hl₁, hl₂⟩ := List.sublist_append_iff.1 hsub
    obtain ⟨i₁, i₂, rfl, rfl, rfl⟩ := List.map_eq_append_iff.1 heq
    obtain ⟨hi₁, hi₂⟩ := List.forall_mem_append.1 hintact
    have hfirst := ih hbefore halive.of_append hl₁ hi₁
    rw [messages_concat hbefore]
    rcases List.sublist_singleton.1 hl₂ with hnil | hone
    · rw [List.map_eq_nil_iff.1 hnil, List.append_nil]
      exact hfirst.trans (handedOn_sublist_append _ _)
    · obtain ⟨⟨w', m⟩, rfl, rfl⟩ := List.map_eq_singleton_iff.1 hone
      have hw := hi₂ _ List.mem_cons_self
      rw [handedOn_append_of_alive (halive before w' [] m rfl hw), hw.handedOn_eq]
      exact hfirst.append_right _

/-- **When a damaged frame harms only itself.** For a stream that ends in CR LF and another one behind it,
`onMessage` is given what it is given for each of them, exactly when no string cut from the first one makes
it call the callback with the null pointer, or nothing is cut from the second. So among strings that end in
CR LF, however damaged, every intact frame hands on its own message in its place exactly when the strings
cut from what comes before do not; then these messages are among those received, in the order of the frames.
-/
theorem damage_local_iff (P : Pool) :
    (∀ x y : Bytes, crlf <:+ x → ∀ segs : List Bytes, segs.flatten = x ++ y →
      (given P (messages segs) = given P (messages [x]) ++ given P (messages [y]) ↔
        Alive P (messages [x]) ∨ messages [y] = [])) ∧
    ∀ frames : List Bytes, (∀ w ∈ frames, crlf <:+ w) →
      ((∀ before w after m, frames = before ++ w :: after → Intact P w m →
          handedOn P (messages (before ++ [w])) = handedOn P (messages before) ++ [(w, m)]) ↔
        AliveBefore P frames) ∧
      (AliveBefore P frames → ∀ (segs : List Bytes) (intact : List (Bytes × P.Msg)),
        segs.flatten = frames.flatten → (intact.map Prod.fst).Sublist frames →
          (∀ e ∈ intact, Intact P e.1 e.2) →
            intact.Sublist (handedOn P (messages segs)) ∧
              (intact.map Prod.snd).Sublist (received P segs)) := by
  refine ⟨fun x y hx segs hsegs => given_messages_append_iff hx hsegs, fun frames hframes => ⟨?_, ?_⟩⟩
  · have hbefore : ∀ before w after, frames = before ++ w :: after → ∀ v ∈ before, crlf <:+ v := by
      intro before w after heq v hv
      exact hframes v (by rw [heq]; exact List.mem_append_left _ hv)
    refine forall₅_congr fun before w after m heq => forall_congr' fun hw => ?_
    exact handedOn_concat_iff (hbefore before w after heq) hw
  · intro halive segs intact hsegs hsub hintact
    have hsublist := intact_sublist_handedOn hframes halive hsub hintact
    rw [received, messages_congr hsegs]
    exact ⟨hsublist, hsublist.map Prod.snd⟩

/-- A message arrives behind a damaged frame that holds another CR LF. -/
theorem received_after_damage :
    [letterA].Sublist
      (received chatPool [[[0, 0, 13, 10, 7, 13, 10], encoded chatPool letterA].flatten]) := by
  have hintact : Intact chatPool (encoded chatPool letterA) letterA :=
    ⟨rfl, by decide +kernel, by decide +kernel, by decide +kernel⟩
  have hsuffix : crlf <:+ encoded chatPool letterA := crlf_suffix_encoded chatPool letterA
  have hdamaged : Alive chatPool (messages [[0, 0, 13, 10, 7, 13, 10]]) := by decide +kernel
  generalize encoded chatPool letterA = w at hintact hsuffix
  have hframes : ∀ v ∈ [[0, 0, 13, 10, 7, 13, 10], w], crlf <:+ v :=
    List.forall_mem_cons.2 ⟨by decide, List.forall_mem_singleton.2 hsuffix⟩
  refine (((damage_local_iff chatPool).2 _ hframes).2 ?_ _ [(w, letterA)] List.flatten_singleton
    (List.sublist_cons_self _ _) (List.forall_mem_singleton.2 hintact)).2
  intro before v after m heq hv
  rcases before with _ | ⟨u, _ | ⟨u', before⟩⟩
  · intro s hs
    cases hs
  · rw [← (List.cons.inj heq).1]
    exact hdamaged
  · have hlen := congrArg List.length heq
    simp at hlen

/-- **A damaged frame stops the session.** Its length is right and its checksum is not; the frame behind it
is intact, and is neither given to `onMessage` nor handed on. -/
theorem zeroFrame_harms :
    crlf <:+ ProtobufDispatcher.zeroFrame ∧
      Intact chatPool (encoded chatPool letterA) letterA ∧
      given chatPool (messages [ProtobufDispatcher.zeroFrame, encoded chatPool letterA]) ≠
        given chatPool (messages [ProtobufDispatcher.zeroFrame]) ++
          given chatPool (messages [encoded chatPool letterA]) ∧
      ¬[letterA].Sublist (received chatPool [ProtobufDispatcher.zeroFrame, encoded chatPool letterA]) := by
  have hgiven : given chatPool (messages [ProtobufDispatcher.zeroFrame, encoded chatPool letterA]) =
      [ProtobufDispatcher.zeroFrame] := by decide +kernel
  refine ⟨by decide +kernel, ⟨rfl, by decide +kernel, by decide +kernel, by decide +kernel⟩, ?_, ?_⟩
  · rw [hgiven]
    decide +kernel
  · rw [received, handedOn, hgiven]
    intro h
    have hlen := h.length_le
    have hnone : ((decoded chatPool [ProtobufDispatcher.zeroFrame]).map Prod.snd).length = 0 := by
      decide +kernel
    rw [hnone] at hlen
    cases hlen

end MutexIM.Session
