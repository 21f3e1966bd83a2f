import MutexIM.Codec.Messages

/-!
# The dispatcher

`ProtobufDispatcher` calls the callback registered for a message's type. It is the message callback
of the codec, and so it gets whatever `decode` returned.

* `receive_safe_iff`: the strings that do not reach the dispatcher with the null pointer are those
  the length field keeps out and the frames.
-/

namespace MutexIM.Codec

open Bytes

variable {P : Pool} {Callback : Type}

/-- `ProtobufDispatcher`. A `std::function` that holds nothing is `none`. -/
structure ProtobufDispatcher (P : Pool) (Callback : Type) where
  mapCallback : P.Desc → Option Callback
  defaultCallback : Option Callback

/-- What `handleMessage` comes to: a callback is called, `ptrMsg->GetDescriptor()` is evaluated with
a null `ptrMsg`, or a `std::function` that holds nothing is called. -/
inductive Handled (P : Pool) (Callback : Type)
  | called (callback : Callback) (m : P.Msg)
  | nullPointer
  | badFunctionCall

/-- The server does not survive the call. -/
def Handled.Stops : Handled P Callback → Prop
  | .called _ _ => False
  | .nullPointer => True
  | .badFunctionCall => True

namespace ProtobufDispatcher

/-- The constructor. The member initialiser names the member itself and not the parameter, so the
callback passed is never stored. -/
def new (P : Pool) (_defaultCallback : Option Callback) : ProtobufDispatcher P Callback where
  mapCallback _ := none
  defaultCallback := none

def registerMessageCallback [DecidableEq P.Desc] (D : ProtobufDispatcher P Callback)
    (pDescriptor : P.Desc) (callback : Callback) : ProtobufDispatcher P Callback :=
  { D with mapCallback := Function.update D.mapCallback pDescriptor (some callback) }

/-- `ProtobufDispatcher::HandleMessage`. -/
def handleMessage (D : ProtobufDispatcher P Callback) : Option P.Msg → Handled P Callback
  | none => .nullPointer
  | some m =>
    match D.mapCallback (P.descriptor m) with
    | some callback => .called callback m
    | none =>
      match D.defaultCallback with
      | some callback => .called callback m
      | none => .badFunctionCall

/-- A string a session hands to `onMessage`, with the dispatcher as the message callback: `none`
when the callback is not called. -/
def receive (D : ProtobufDispatcher P Callback) (strmessage : Bytes) :
    Option (Handled P Callback) :=
  (onMessage P strmessage).map D.handleMessage

/-- Some callback is there for the messages of a type. -/
def Callable (D : ProtobufDispatcher P Callback) (d : P.Desc) : Prop :=
  (D.mapCallback d).isSome ∨ D.defaultCallback.isSome

theorem handleMessage_eq_nullPointer_iff (D : ProtobufDispatcher P Callback)
    {ptrMsg : Option P.Msg} : D.handleMessage ptrMsg = .nullPointer ↔ ptrMsg = none := by
  cases ptrMsg with
  | none => simp [handleMessage]
  | some m =>
    cases h : D.mapCallback (P.descriptor m) <;> cases h' : D.defaultCallback <;>
      simp [handleMessage, h, h']

theorem stops_handleMessage_some_iff (D : ProtobufDispatcher P Callback) {m : P.Msg} :
    (D.handleMessage (some m)).Stops ↔ ¬D.Callable (P.descriptor m) := by
  cases h : D.mapCallback (P.descriptor m) <;> cases h' : D.defaultCallback <;>
    simp [handleMessage, Callable, Handled.Stops, h, h']

/-- The callback is called with the null pointer exactly for what passes the length test without
being a frame. -/
theorem onMessage_eq_some_none_iff {s : Bytes} :
    onMessage P s = some none ↔ LengthOk s ∧ ∀ m, ¬FrameFor P s m := by
  by_cases hok : LengthOk s
  · cases h : decode P (s.drop kHeaderLen) (peekUInt32 s) with
    | none =>
      have hnone : onMessage P s = some none := by rw [onMessage_of_lengthOk P hok, h]
      refine ⟨fun _ => ⟨hok, fun m hm => ?_⟩, fun _ => hnone⟩
      rw [(onMessage_eq_some_some_iff P).2 hm] at hnone
      cases hnone
    | some m =>
      have hsome : onMessage P s = some (some m) := by rw [onMessage_of_lengthOk P hok, h]
      refine ⟨fun hnone => ?_, fun hn => ?_⟩
      · rw [hsome] at hnone
        cases hnone
      · exact absurd ((onMessage_eq_some_some_iff P).1 hsome) (hn.2 m)
  · rw [onMessage_of_not_lengthOk P hok]
    exact ⟨fun h => (by cases h), fun h => absurd h.1 hok⟩

/-- **Which strings are safe to receive.** The callback is called with a message only, the
dispatcher does not use a null pointer, and the server goes on, exactly for the strings that the
length field keeps out and for the frames; for the server to go on, the type of the frame's message
must also have a callback. -/
theorem receive_safe_iff (D : ProtobufDispatcher P Callback) (s : Bytes) :
    ((∀ ptr, onMessage P s = some ptr → ptr ≠ none) ↔ (¬LengthOk s ∨ ∃ m, FrameFor P s m)) ∧
    (D.receive s ≠ some .nullPointer ↔ (¬LengthOk s ∨ ∃ m, FrameFor P s m)) ∧
    ((∀ r, D.receive s = some r → ¬r.Stops) ↔
      (¬LengthOk s ∨ ∃ m, FrameFor P s m ∧ D.Callable (P.descriptor m))) := by
  have hnull : (¬LengthOk s ∨ ∃ m, FrameFor P s m) ↔ onMessage P s ≠ some none := by
    rw [Ne, onMessage_eq_some_none_iff, not_and_or]
    simp only [not_forall, not_not]
  refine ⟨?_, ?_, ?_⟩
  · rw [hnull]
    refine ⟨fun h he => h none he rfl, fun h ptr he hn => h (by rw [he, hn])⟩
  · rw [hnull, receive, Ne, Option.map_eq_some_iff]
    simp only [handleMessage_eq_nullPointer_iff, exists_eq_right, Ne]
  · by_cases hok : LengthOk s
    · simp only [hok, not_true_eq_false, false_or]
      cases h : decode P (s.drop kHeaderLen) (peekUInt32 s) with
      | none =>
        have hnone : onMessage P s = some none := by rw [onMessage_of_lengthOk P hok, h]
        refine ⟨fun hs => ?_, fun ⟨m, hm, _⟩ => ?_⟩
        · exact absurd trivial (hs .nullPointer (by rw [receive, hnone]; rfl))
        · exact absurd hm ((onMessage_eq_some_none_iff.1 hnone).2 m)
      | some m =>
        have hsome : onMessage P s = some (some m) := by rw [onMessage_of_lengthOk P hok, h]
        have hreceive : D.receive s = some (D.handleMessage (some m)) := by rw [receive, hsome]; rfl
        rw [hreceive]
        simp only [Option.some.injEq, forall_eq', stops_handleMessage_some_iff, not_not]
        refine ⟨fun hc => ⟨m, (onMessage_eq_some_some_iff P).1 hsome, hc⟩, fun ⟨m', hm', hc⟩ => ?_⟩
        rw [(onMessage_eq_some_some_iff P).2 hm', Option.some.injEq, Option.some.injEq] at hsome
        rwa [← hsome]
    · rw [receive, onMessage_of_not_lengthOk P hok]
      simp [hok]

/-- Eleven zero bytes behind the length: the checksum is wrong. -/
def zeroFrame : Bytes := be32 11 ++ List.replicate 11 0 ++ crlf

theorem receive_zeroFrame :
    onMessage chatPool zeroFrame = some none ∧
      (new chatPool (some ()) : ProtobufDispatcher chatPool Unit).receive zeroFrame =
        some .nullPointer := by
  have hsum : isCorrect (zeroFrame.drop kHeaderLen) (peekUInt32 zeroFrame) = false := by
    decide +kernel
  have hnull : onMessage chatPool zeroFrame = some none := by
    rw [onMessage_of_lengthOk chatPool (by decide +kernel), decode, hsum]
    rfl
  exact ⟨hnull, by rw [receive, hnull]; rfl⟩

end ProtobufDispatcher

end MutexIM.Codec
