import MutexIM.Codec.ProtobufDispatcher
import MutexIM.Foundations.Registrations

/-!
# Dispatch after registrations

A dispatcher is constructed with its default callback, callbacks are registered, and then messages come
in. The dispatchers of the two servers have the descriptor as the key, those of the client the full name
of the type; all four lose the default callback in the same way.

* `ProtobufDispatcher.handleMessage_registerAll`, `SyncProtobufDispatcher.handleSyncMessage_registerAll`:
  what a message of each type comes to.
* `handleMessage_called_iff`: the right callback is called exactly for the registered types.
* `receive_of_unregistered`: a frame of any other type stops the server.
-/

namespace MutexIM.Codec

variable {P : Pool} {Callback : Type}

/-! ## The dispatchers of the client -/

/-- `SyncProtobufDispatcher`, which has the full name of a type as the key. -/
structure SyncProtobufDispatcher (P : Pool) (Callback : Type) where
  mapCallback : Bytes → Option Callback
  defaultCallback : Option Callback

namespace SyncProtobufDispatcher

/-- The constructor, with the same member initialiser as the server's. -/
def new (P : Pool) (_defaultCallback : Option Callback) : SyncProtobufDispatcher P Callback where
  mapCallback _ := none
  defaultCallback := none

def registerMessageCallback (D : SyncProtobufDispatcher P Callback) (pDescriptor : P.Desc)
    (callback : Callback) : SyncProtobufDispatcher P Callback :=
  { D with mapCallback := Function.update D.mapCallback (P.typeName pDescriptor) (some callback) }

/-- `SyncProtobufDispatcher::HandleSyncMessage`. -/
def handleSyncMessage (D : SyncProtobufDispatcher P Callback) : Option P.Msg → Handled P Callback
  | none => .nullPointer
  | some m =>
    match D.mapCallback (P.typeName (P.descriptor m)) with
    | some callback => .called callback m
    | none =>
      match D.defaultCallback with
      | some callback => .called callback m
      | none => .badFunctionCall

/-- Registrations, one after another. -/
def registerAll (D : SyncProtobufDispatcher P Callback) (registrations : List (P.Desc × Callback)) :
    SyncProtobufDispatcher P Callback :=
  registrations.foldl (fun D r => D.registerMessageCallback r.1 r.2) D

theorem registerAll_mapCallback (D : SyncProtobufDispatcher P Callback)
    (registrations : List (P.Desc × Callback)) : (D.registerAll registrations).mapCallback =
      registered D.mapCallback (registrations.map (Prod.map P.typeName id)) := by
  induction registrations generalizing D with
  | nil => rfl
  | cons r l ih => exact ih (D.registerMessageCallback r.1 r.2)

theorem registerAll_defaultCallback (D : SyncProtobufDispatcher P Callback)
    (registrations : List (P.Desc × Callback)) :
    (D.registerAll registrations).defaultCallback = D.defaultCallback := by
  induction registrations generalizing D with
  | nil => rfl
  | cons r l ih => exact ih (D.registerMessageCallback r.1 r.2)

end SyncProtobufDispatcher

/-- The `ProtobufDispatcher` of the client: the same class, but for the connection that its callbacks
take besides the message. -/
abbrev Client.ProtobufDispatcher := SyncProtobufDispatcher

/-- Its `HandleMessage`. -/
def Client.ProtobufDispatcher.handleMessage (D : Client.ProtobufDispatcher P Callback) :
    Option P.Msg → Handled P Callback := D.handleSyncMessage

/-! ## What a message comes to -/

/-- What comes of a message of a type for which `callback` is there. -/
def Handled.ofCallback (m : P.Msg) : Option Callback → Handled P Callback
  | some callback => .called callback m
  | none => .badFunctionCall

theorem Handled.ofCallback_eq_called_iff {m : P.Msg} {o : Option Callback} {d : Callback} :
    Handled.ofCallback m o = .called (o.getD d) m ↔ o ≠ none := by
  cases o with
  | none => exact ⟨fun h => (by cases h), fun h => absurd rfl h⟩
  | some callback => exact ⟨fun _ => Option.some_ne_none _, fun _ => rfl⟩

theorem typeName_injective (P : Pool) : Function.Injective P.typeName := fun d d' h =>
  Option.some.inj (by rw [← P.find_typeName d, h, P.find_typeName d'])

section

variable [DecidableEq P.Desc]

namespace ProtobufDispatcher

/-- Registrations, one after another. -/
def registerAll (D : ProtobufDispatcher P Callback) (registrations : List (P.Desc × Callback)) :
    ProtobufDispatcher P Callback :=
  registrations.foldl (fun D r => D.registerMessageCallback r.1 r.2) D

theorem registerAll_mapCallback (D : ProtobufDispatcher P Callback)
    (registrations : List (P.Desc × Callback)) :
    (D.registerAll registrations).mapCallback = registered D.mapCallback registrations := by
  induction registrations generalizing D with
  | nil => rfl
  | cons r l ih => exact ih (D.registerMessageCallback r.1 r.2)

theorem registerAll_defaultCallback (D : ProtobufDispatcher P Callback)
    (registrations : List (P.Desc × Callback)) :
    (D.registerAll registrations).defaultCallback = D.defaultCallback := by
  induction registrations generalizing D with
  | nil => rfl
  | cons r l ih => exact ih (D.registerMessageCallback r.1 r.2)

/-- A message goes to the callback registered last for its type; where there is none, nothing is there
to be called. -/
theorem handleMessage_registerAll (defaultCallback : Option Callback)
    (registrations : List (P.Desc × Callback)) (m : P.Msg) :
    ((new P defaultCallback).registerAll registrations).handleMessage (some m) =
      .ofCallback m (lastFor registrations (P.descriptor m)) := by
  have hmap : ((new P defaultCallback).registerAll registrations).mapCallback (P.descriptor m) =
      lastFor registrations (P.descriptor m) := by
    rw [registerAll_mapCallback, registered_apply]
    exact Option.or_none
  rw [handleMessage, hmap, registerAll_defaultCallback]
  cases lastFor registrations (P.descriptor m) <;> rfl

/-- The server does not survive a frame of a type for which nothing is registered. -/
theorem receive_of_unregistered (defaultCallback : Option Callback)
    {registrations : List (P.Desc × Callback)} {s : Bytes} {m : P.Msg} (hs : FrameFor P s m)
    (hm : ∀ callback, (P.descriptor m, callback) ∉ registrations) :
    ((new P defaultCallback).registerAll registrations).receive s = some .badFunctionCall := by
  rw [receive, (onMessage_eq_some_some_iff P).2 hs, Option.map_some, handleMessage_registerAll,
    lastFor_eq_none_iff.2 hm]
  rfl

end ProtobufDispatcher

/-- As for the server's dispatcher: distinct types have distinct names. -/
theorem SyncProtobufDispatcher.handleSyncMessage_registerAll (defaultCallback : Option Callback)
    (registrations : List (P.Desc × Callback)) (m : P.Msg) :
    ((new P defaultCallback).registerAll registrations).handleSyncMessage (some m) =
      .ofCallback m (lastFor registrations (P.descriptor m)) := by
  have hmap : ((new P defaultCallback).registerAll registrations).mapCallback
      (P.typeName (P.descriptor m)) = lastFor registrations (P.descriptor m) := by
    rw [registerAll_mapCallback, registered_apply, lastFor_map (typeName_injective P)]
    exact Option.or_none
  rw [handleSyncMessage, hmap, registerAll_defaultCallback]
  cases lastFor registrations (P.descriptor m) <;> rfl

/-- **Which messages are dispatched.** A message goes to the callback registered last for its type, and
else to the default callback passed to the constructor, exactly if some callback is registered for its
type. This holds of the servers' dispatcher and of the two of the client. -/
theorem handleMessage_called_iff (defaultCallback : Callback)
    (registrations : List (P.Desc × Callback)) (m : P.Msg) :
    (((ProtobufDispatcher.new P (some defaultCallback)).registerAll registrations).handleMessage (some m) =
        .called ((lastFor registrations (P.descriptor m)).getD defaultCallback) m ↔
      ∃ callback, (P.descriptor m, callback) ∈ registrations) ∧
    (Client.ProtobufDispatcher.handleMessage
          ((SyncProtobufDispatcher.new P (some defaultCallback)).registerAll registrations) (some m) =
        .called ((lastFor registrations (P.descriptor m)).getD defaultCallback) m ↔
      ∃ callback, (P.descriptor m, callback) ∈ registrations) ∧
    (((SyncProtobufDispatcher.new P (some defaultCallback)).registerAll
          registrations).handleSyncMessage (some m) =
        .called ((lastFor registrations (P.descriptor m)).getD defaultCallback) m ↔
      ∃ callback, (P.descriptor m, callback) ∈ registrations) := by
  have hregistered : lastFor registrations (P.descriptor m) ≠ none ↔
      ∃ callback, (P.descriptor m, callback) ∈ registrations := by
    rw [Ne, lastFor_eq_none_iff, not_forall]
    simp only [not_not]
  rw [Client.ProtobufDispatcher.handleMessage, ProtobufDispatcher.handleMessage_registerAll,
    SyncProtobufDispatcher.handleSyncMessage_registerAll, Handled.ofCallback_eq_called_iff]
  exact ⟨hregistered, hregistered, hregistered⟩

end

/-- What the message server registers for the types of `chatPool`: a callback is named by its type, and
`none` is `onUnknownMessage`. -/
def serverCallbacks : List (chatPool.Desc × Option ChatType) :=
  [(ChatType.msgData, some .msgData), (ChatType.unreadMsgRequest, some .unreadMsgRequest),
    (ChatType.shakeHandleReq, some .shakeHandleReq)]

/-- The answer to a handshake, which a client may send as well. -/
def strayResponse : chatPool.Msg := ⟨.shakeHandleRes ⟨0, 0⟩, by decide⟩

theorem handleMessage_strayResponse :
    ((ProtobufDispatcher.new chatPool (some none)).registerAll serverCallbacks).handleMessage
        (some strayResponse) = .badFunctionCall ∧
      lastFor serverCallbacks (chatPool.descriptor strayResponse) = none ∧
      ((ProtobufDispatcher.new chatPool (some none)).registerAll serverCallbacks).handleMessage
        (some strayResponse) ≠ .called none strayResponse := by
  have hnone : lastFor serverCallbacks (chatPool.descriptor strayResponse) = none := by decide
  rw [ProtobufDispatcher.handleMessage_registerAll, hnone]
  exact ⟨rfl, rfl, fun h => by cases h⟩

end MutexIM.Codec
