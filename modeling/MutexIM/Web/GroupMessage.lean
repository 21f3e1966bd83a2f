import Mathlib.Data.List.Dedup
import MutexIM.Web.Socket

/-!
# Text messages of web clients

The text of a message is a string when the client sends it, and a buffer once `iconv.encode` has been
called for it; the handlers fill in the object that the client sent, which is the same one in their
callbacks.

* `groupMessage` and `sortCallback` are the `group message` handler: what it stores at once, and what it
  does with the members that are online.
* `Written` is a message given to the protobuf library, and where its bytes go.
* `text_survives_iff`: the bytes written are the GBK encoding of the text where the recipient is online,
  or where GBK and UTF-8 agree on the text; for a group, only there.
* `fanOut_iff`: the members get the message as the other servers expect it exactly if all of them are at
  the sender's server.
-/

namespace MutexIM.Web

open Bytes Codec

/-! ## The objects of a client -/

/-- What a bytes field holds: a string, as UTF-8, or a buffer. -/
inductive JsBytes
  | string (text : Bytes)
  | buffer (b : Bytes)
  deriving DecidableEq

/-- What the library writes. -/
def JsBytes.raw : JsBytes → Bytes
  | .string text => text
  | .buffer b => b

/-- The types that the handlers set. The last one is no value of `MsgData_MSGTYPE`. -/
inductive JsType
  | chatText
  | groupchatText
  | group
  deriving DecidableEq

/-- The object of a message; `userId` is no field of a `MsgData`. -/
structure JsMessage where
  timestamp : UInt64
  sequenceNumber : UInt32
  fromId : Bytes
  toId : Bytes
  msgData : JsBytes
  type : JsType
  userId : List Bytes
  deriving DecidableEq

/-- What is used of `iconv-lite` and of the protobuf library: the encoding to GBK, and what is written for
the name of a type that does not exist; `none` if the library throws. -/
structure Libraries where
  encode : JsBytes → Bytes
  unknownType : Option UInt32

namespace Libraries

variable (lib : Libraries)

/-- The GBK encoding of a text. -/
def gbk (text : Bytes) : Bytes := lib.encode (.string text)

def typeValue : JsType → Option UInt32
  | .chatText => some Codec.chatText
  | .groupchatText => some Codec.groupchatText
  | .group => lib.unknownType

/-- The message that `MsgData.serialize` writes. -/
def toMsgData (data : JsMessage) : Option MsgData :=
  (lib.typeValue data.type).map fun type =>
    { timestamp := data.timestamp
      sequenceNumber := data.sequenceNumber
      fromId := data.fromId
      toId := data.toId
      msgData := data.msgData.raw
      type := type }

end Libraries

/-- The message that `ServerGroupMsg.serialize` writes. -/
def toServerGroupMsg (data : JsMessage) : ServerGroupMsg := ⟨data.userId, data.msgData.raw⟩

/-! ## The handler of group messages -/

/-- The commands of the handler, with the messages they carry. `incr` is a command of a transaction. -/
inductive GroupCommand
  | sort (data : JsMessage)
  | lpush (toId : Bytes) (m : MsgData)
  | ltrim (toId : Bytes)
  | sdiff (toId : Bytes)
  | incr (key : Bytes)
  | publish (channel : Bytes) (m : ServerGroupMsg)
  deriving DecidableEq

/-- What the loop over the reply makes: the object, the map in the order of its keys, and what the sockets
are sent. -/
structure Sorted where
  data : JsMessage
  dataMap : List (Bytes × List (Option Bytes))
  emitted : List (ℕ × JsMessage)

/-- `value.push` for the key, or a new entry of the map. -/
def pushValue (key : Bytes) (value : Option Bytes) :
    List (Bytes × List (Option Bytes)) → List (Bytes × List (Option Bytes))
  | [] => [(key, [value])]
  | (k, values) :: dataMap =>
    if k = key then (k, values ++ [value]) :: dataMap else (k, values) :: pushValue key value dataMap

namespace SocketServer

variable (sv : SocketServer) (lib : Libraries)

/-- `socket.on('group message')`: the commands issued. -/
def groupMessage (data : JsMessage) : List GroupCommand :=
  let data := { data with type := .groupchatText }
  .sort data :: ((lib.toMsgData data).map (.lpush data.toId)).toList ++ [.sdiff data.toId]

/-- A member that is online, and the server it is at; `none` for a member without a socket. The map has
the members for keys, and their servers for values. -/
def sortEntry (s : Sorted) (e : Bytes × Option Bytes) : Sorted :=
  if some sv.g_socketStr ≠ e.2 then { s with dataMap := pushValue e.1 e.2 s.dataMap }
  else
    match sv.userIdMap e.1 with
    | some userSocket =>
      let data := { s.data with type := .group }
      { s with data := data, emitted := s.emitted ++ [(userSocket, data)] }
    | none => s

/-- `dataMap.forEach`: the messages published, and whether the library throws, which ends the loop. Each
round encodes what the one before has made of the text. The message for the key, with its values and the
message of the client, is made, but the object of the client is published instead. -/
def publishAll (data : JsMessage) : List (Bytes × List (Option Bytes)) → List GroupCommand × Bool
  | [] => ([], false)
  | (key, _) :: dataMap =>
    let temp := { data with msgData := .buffer (lib.encode data.msgData) }
    match lib.toMsgData temp with
    | some _ =>
      let (commands, threw) := publishAll temp dataMap
      (.publish (ascii "groupMsg:" ++ key) (toServerGroupMsg temp) :: commands, threw)
    | none => ([], true)

/-- What the callback of `SORT` does. Nobody catches what it throws. -/
structure SortResult where
  emitted : List (ℕ × JsMessage)
  commands : List GroupCommand
  threw : Bool
  deriving DecidableEq

/-- The callback of `SORT`; the reply is taken in pairs. -/
def sortCallback (data : JsMessage) (reply : List (Bytes × Option Bytes)) : SortResult :=
  let s := reply.foldl sv.sortEntry ⟨data, [], []⟩
  let (commands, threw) := publishAll lib s.data s.dataMap
  ⟨s.emitted, commands, threw⟩

end SocketServer

/-- The callback of `LPUSH`. -/
def lpushCallback (toId : Bytes) (n : ℤ) : List GroupCommand := if n > 99 then [.ltrim toId] else []

/-- The callback of `SDIFF`. -/
def sdiffCallback (toId : Bytes) (reply : List Bytes) : List GroupCommand :=
  reply.map fun userId => .incr (ascii "unreadNumber:" ++ userId ++ ascii ":" ++ toId)

/-! ## The bytes that are written -/

/-- The bytes that the readers of a command's message decode. -/
def GroupCommand.texts : GroupCommand → List Bytes
  | .lpush _ m => [m.msgData]
  | .publish _ m => [m.msgData]
  | _ => []

/-- The callbacks of `LPUSH` and `SDIFF` write no message. -/
theorem texts_callbacks (toId : Bytes) (n : ℤ) (reply : List Bytes) :
    (lpushCallback toId n ++ sdiffCallback toId reply).flatMap GroupCommand.texts = [] := by
  refine List.flatMap_eq_nil_iff.2 fun c hc => ?_
  rcases List.mem_append.1 hc with hc | hc
  · unfold lpushCallback at hc
    split at hc
    · rw [List.mem_singleton.1 hc]
      rfl
    · cases hc
  · obtain ⟨userId, -, rfl⟩ := List.mem_map.1 hc
    rfl

/-- The message that the callback of `GET` gives to the library: encoded if the recipient is online. -/
def peerWritten (lib : Libraries) (data : MsgData) : Reply → MsgData
  | .str _ => { data with msgData := lib.gbk data.msgData }
  | _ => data

/-- A text message of a client, with what Redis answers the handler. -/
inductive TextRequest
  | peer (text : Bytes) (data : MsgData) (reply : Reply)
  | group (text : Bytes) (data : JsMessage) (reply : List (Bytes × Option Bytes))

namespace TextRequest

def text : TextRequest → Bytes
  | .peer text _ _ => text
  | .group text _ _ => text

/-- The bytes of the text in every message published or stored. -/
def written (sv : SocketServer) (lib : Libraries) : TextRequest → List Bytes
  | .peer text data reply => [(peerWritten lib { data with msgData := text } reply).msgData]
  | .group text data reply =>
    let data := { data with msgData := .string text }
    (SocketServer.groupMessage lib data ++
      (sv.sortCallback lib { data with type := .groupchatText } reply).commands).flatMap
        GroupCommand.texts

/-- The text is encoded: the recipient is online, or the encoding of the text is its UTF-8. -/
def Encoded (lib : Libraries) : TextRequest → Prop
  | .peer text _ reply => (∃ socket, reply = .str socket) ∨ lib.gbk text = text
  | .group text _ _ => lib.gbk text = text

end TextRequest

section Texts

variable {sv : SocketServer} {lib : Libraries} {data : JsMessage} {text : Bytes}

/-- **What the callback of a peer message issues.** -/
theorem callback_get (serialize : MsgData → Bytes) (m : MsgData) (reply : Reply) :
    sv.callback serialize lib.gbk (.get m reply) = sv.issue [match reply with
      | .str socket => .publish (ascii "peerMsg:" ++ socket) (serialize (peerWritten lib m reply))
      | _ => .lpush m.toId (serialize (peerWritten lib m reply))] := by
  cases reply <;> rfl

/-- The loop over the reply leaves the text. -/
theorem msgData_foldl_sortEntry (reply : List (Bytes × Option Bytes)) (s : Sorted) :
    (reply.foldl sv.sortEntry s).data.msgData = s.data.msgData := by
  induction reply generalizing s with
  | nil => rfl
  | cons e reply ih =>
    rw [List.foldl_cons, ih, SocketServer.sortEntry]
    split
    · rfl
    · split <;> rfl

/-- Where GBK and UTF-8 agree on a text, every round publishes it. -/
theorem texts_publishAll (hgbk : lib.gbk text = text)
    (hbuffer : lib.encode (.buffer text) = lib.gbk text)
    (hdata : data.msgData = .string text ∨ data.msgData = .buffer text)
    (dataMap : List (Bytes × List (Option Bytes))) :
    ∀ b ∈ (SocketServer.publishAll lib data dataMap).1.flatMap GroupCommand.texts, b = text := by
  induction dataMap generalizing data with
  | nil => exact fun b hb => by cases hb
  | cons e dataMap ih =>
    have hencode : lib.encode data.msgData = text := by
      rcases hdata with hdata | hdata
      · rw [hdata]
        exact hgbk
      · rw [hdata, hbuffer, hgbk]
    intro b hb
    rw [SocketServer.publishAll] at hb
    split at hb
    · rw [List.flatMap_cons] at hb
      rcases List.mem_append.1 hb with hb | hb
      · rw [List.mem_singleton.1 hb]
        exact hencode
      · exact ih (.inr (congrArg JsBytes.buffer hencode)) b hb
    · cases hb

/-- **Which texts survive.** The bytes of a text in every message published or stored are its GBK encoding
exactly if it was sent to a user who is online, or its encoding is its UTF-8. -/
theorem text_survives_iff (request : TextRequest)
    (hbuffer : lib.encode (.buffer request.text) = lib.gbk request.text) :
    (∀ b ∈ request.written sv lib, b = lib.gbk request.text) ↔ request.Encoded lib := by
  cases request with
  | peer text m reply =>
    rw [TextRequest.written, List.forall_mem_singleton]
    cases reply with
    | str socket => exact iff_of_true rfl (.inl ⟨socket, rfl⟩)
    | _ =>
      constructor
      · exact fun h => .inr h.symm
      · rintro (⟨socket, hreply⟩ | h)
        · cases hreply
        · exact h.symm
  | group text data reply =>
    -- the list of the group gets the string at once
    have hwritten : (TextRequest.group text data reply).written sv lib =
        text :: (SocketServer.publishAll lib (reply.foldl sv.sortEntry
          ⟨{ data with msgData := .string text, type := .groupchatText }, [], []⟩).data
          (reply.foldl sv.sortEntry ⟨{ data with msgData := .string text, type := .groupchatText },
            [], []⟩).dataMap).1.flatMap GroupCommand.texts := rfl
    rw [hwritten, List.forall_mem_cons]
    constructor
    · exact fun h => h.1.symm
    · intro hgbk
      have hgbk : lib.gbk text = text := hgbk
      refine ⟨hgbk.symm, fun b hb => ?_⟩
      refine (texts_publishAll hgbk hbuffer (.inl ?_) _ b hb).trans hgbk.symm
      rw [msgData_foldl_sortEntry]

end Texts

/-- What the libraries make of the character `中`, and of its GBK encoding taken for UTF-8. -/
def library : Libraries where
  encode
    | .string text => if text = [0xE4, 0xB8, 0xAD] then [0xD6, 0xD0] else text
    | .buffer b =>
      if b = [0xE4, 0xB8, 0xAD] then [0xD6, 0xD0] else if b = [0xD6, 0xD0] then ascii "??" else b
  unknownType := none

/-- A message of the user `a` to `b`. -/
def jsMessage : JsMessage where
  timestamp := 0
  sequenceNumber := 0
  fromId := ascii "a"
  toId := ascii "b"
  msgData := .string [0xE4, 0xB8, 0xAD]
  type := .chatText
  userId := []

/-- A message to a user who is online. -/
def onlineRequest : TextRequest :=
  .peer [0xE4, 0xB8, 0xAD] ⟨0, 0, ascii "a", ascii "b", [], 0⟩ (.str (ascii "h:1"))

/-- The text reaches the user's server. -/
theorem text_survives_online : onlineRequest.written (.start (ascii "w:1")) library = [[0xD6, 0xD0]] ∧
    ∀ b ∈ onlineRequest.written (.start (ascii "w:1")) library, b = library.gbk [0xE4, 0xB8, 0xAD] := by
  have hbuffer : library.encode (.buffer onlineRequest.text) = library.gbk onlineRequest.text := by
    decide
  exact ⟨by decide, (text_survives_iff onlineRequest hbuffer).2 (.inl ⟨_, rfl⟩)⟩

/-- **A group with two members elsewhere**: its list gets the UTF-8 of the text, and the second server the
encoding of what the first one got. -/
theorem text_lost_group :
    (TextRequest.group [0xE4, 0xB8, 0xAD] jsMessage [(ascii "b", some (ascii "h:1")),
      (ascii "c", some (ascii "h:2"))]).written (.start (ascii "w:1")) library =
        [[0xE4, 0xB8, 0xAD], [0xD6, 0xD0], ascii "??"] ∧
      ¬∀ b ∈ (TextRequest.group [0xE4, 0xB8, 0xAD] jsMessage [(ascii "b", some (ascii "h:1")),
        (ascii "c", some (ascii "h:2"))]).written (.start (ascii "w:1")) library,
          b = library.gbk [0xE4, 0xB8, 0xAD] := by
  decide

/-! ## The fan-out -/

/-- The servers of the members, without the sender's. -/
def otherSockets (g_socketStr : Bytes) (reply : List (Bytes × Option Bytes)) : List Bytes :=
  (reply.filterMap Prod.snd).dedup.filter (· ≠ g_socketStr)

/-- The members at a server. -/
def membersAt (socket : Bytes) (reply : List (Bytes × Option Bytes)) : List Bytes :=
  (reply.filter fun e => e.2 = some socket).map Prod.fst

/-- The message of the client, with its text encoded. -/
def groupData (lib : Libraries) (data : JsMessage) : MsgData where
  timestamp := data.timestamp
  sequenceNumber := data.sequenceNumber
  fromId := data.fromId
  toId := data.toId
  msgData := lib.encode data.msgData
  type := Codec.groupchatText

/-- **The fan-out that the servers expect**: every member at the sender's server is sent the message, and
for each other server one message is published on its channel, with the members there and the serialised
message. -/
structure FanOut (sv : SocketServer) (lib : Libraries) (data : JsMessage)
    (reply : List (Bytes × Option Bytes)) (result : SocketServer.SortResult) : Prop where
  completes : result.threw = false
  emitted : result.emitted.map (fun e => (some e.1, e.2)) =
    (membersAt sv.g_socketStr reply).map fun userId => (sv.userIdMap userId, { data with type := .group })
  published : ∃ ms : Bytes → ServerGroupMsg,
    (∀ socket ∈ otherSockets sv.g_socketStr reply, (ms socket).userId.Perm (membersAt socket reply) ∧
      (ms socket).msgData = (ChatMsg.msgData (groupData lib data)).serialize) ∧
    result.commands.Perm ((otherSockets sv.g_socketStr reply).map fun socket =>
      .publish (ascii "groupMsg:" ++ socket) (ms socket))

section FanOut

variable {sv : SocketServer} {lib : Libraries} {data : JsMessage} {reply : List (Bytes × Option Bytes)}

/-- A message with a type is longer than its text. -/
theorem length_msgData_lt {m : MsgData} (h : m.type ≠ 0) :
    m.msgData.length < (ChatMsg.msgData m).serialize.length := by
  rw [ChatMsg.serialize]
  by_cases hnil : m.msgData = []
  · have hfield : (⟨6, .varint (signExtend m.type)⟩ : ProtoWire.Field) ∈ (ChatMsg.msgData m).fields := by
      have hne : signExtend m.type ≠ 0 := by
        intro hzero
        have hback := ofNat_signExtend m.type
        rw [hzero] at hback
        exact h hback.symm
      refine List.mem_append_right _ ?_
      rw [ProtoWire.putVarint, if_neg hne]
      exact List.mem_cons_self
    rw [hnil, List.length_nil]
    exact (ProtoWire.Field.encode_length_pos _).trans_le (ProtoWire.length_encode_le hfield)
  · have hfield : (⟨5, .bytes m.msgData⟩ : ProtoWire.Field) ∈ (ChatMsg.msgData m).fields := by
      refine List.mem_append_left _ (List.mem_append_right _ ?_)
      rw [ProtoWire.putBytes, if_neg hnil]
      exact List.mem_cons_self
    refine lt_of_lt_of_le ?_ (ProtoWire.length_encode_le hfield)
    have htag : 0 < (ProtoWire.varintDigits 10 (ProtoWire.Field.tag ⟨5, .bytes m.msgData⟩)).length :=
      List.length_pos_iff.2 (ProtoWire.varintDigits_ne_nil 9 _)
    simp only [ProtoWire.Field.encode, ProtoWire.Value.encode, ProtoWire.encodeVarint,
      List.length_append]
    omega

theorem pushValue_ne_nil (key : Bytes) (value : Option Bytes) (dataMap : List (Bytes × List (Option Bytes))) :
    pushValue key value dataMap ≠ [] := by
  cases dataMap with
  | nil => exact List.cons_ne_nil _ _
  | cons e dataMap =>
    obtain ⟨k, values⟩ := e
    rw [pushValue]
    split <;> exact List.cons_ne_nil _ _

/-- A member who is not at the sender's server is put into the map. -/
theorem dataMap_ne_nil {s : Sorted}
    (h : s.dataMap ≠ [] ∨ ∃ e ∈ reply, e.2 ≠ some sv.g_socketStr) :
    (reply.foldl sv.sortEntry s).dataMap ≠ [] := by
  induction reply generalizing s with
  | nil =>
    rcases h with h | ⟨e, he, -⟩
    · exact h
    · cases he
  | cons e reply ih =>
    rw [List.foldl_cons]
    refine ih ?_
    rw [SocketServer.sortEntry]
    by_cases he : some sv.g_socketStr ≠ e.2
    · rw [if_pos he]
      exact .inl (pushValue_ne_nil _ _ _)
    · rw [if_neg he]
      rcases h with h | ⟨e', he', hne⟩
      · refine .inl ?_
        split
        · exact h
        · exact h
      · rcases List.mem_cons.1 he' with rfl | he'
        · exact absurd (Ne.symm hne) he
        · exact .inr ⟨e', he', hne⟩

/-- Members at the sender's server are sent the message, where they have a socket. -/
theorem foldl_sortEntry_of_local {s : Sorted} (h : ∀ e ∈ reply, e.2 = some sv.g_socketStr)
    (hdata : { s.data with type := .group } = { data with type := .group }) :
    (reply.foldl sv.sortEntry s).dataMap = s.dataMap ∧
      (reply.foldl sv.sortEntry s).emitted = s.emitted ++ reply.filterMap fun e =>
        (sv.userIdMap e.1).map fun userSocket => (userSocket, { data with type := .group }) := by
  induction reply generalizing s with
  | nil => exact ⟨rfl, (List.append_nil _).symm⟩
  | cons e reply ih =>
    have he := h e List.mem_cons_self
    have hentry : sv.sortEntry s e = match sv.userIdMap e.1 with
        | some userSocket =>
          { s with
            data := { s.data with type := .group }
            emitted := s.emitted ++ [(userSocket, { s.data with type := .group })] }
        | none => s := by
      rw [SocketServer.sortEntry, if_neg (not_not.2 he.symm)]
    rw [List.foldl_cons, hentry, List.filterMap_cons]
    cases sv.userIdMap e.1 with
    | none => exact ih (fun e' he' => h e' (List.mem_cons_of_mem _ he')) hdata
    | some userSocket =>
      obtain ⟨hmap, hemitted⟩ := ih (s := { s with
        data := { s.data with type := .group }
        emitted := s.emitted ++ [(userSocket, { s.data with type := .group })] })
        (fun e' he' => h e' (List.mem_cons_of_mem _ he')) hdata
      refine ⟨hmap, ?_⟩
      rw [hemitted, hdata, List.append_assoc]
      rfl

/-- What is published for a member is not what the servers expect. -/
theorem not_fanOut (hreply : ∃ e ∈ reply, e.2 ≠ some sv.g_socketStr) :
    ¬FanOut sv lib data reply (sv.sortCallback lib { data with type := .groupchatText } reply) := by
  intro h
  have hmap := dataMap_ne_nil (s := ⟨{ data with type := .groupchatText }, [], []⟩) (.inr hreply)
  obtain ⟨⟨key, values⟩, dataMap, hcons⟩ := List.exists_cons_of_ne_nil hmap
  have hmsgData : (reply.foldl sv.sortEntry ⟨{ data with type := .groupchatText }, [], []⟩).data.msgData =
      data.msgData := msgData_foldl_sortEntry reply _
  have hcompletes := h.completes
  obtain ⟨ms, hms, hperm⟩ := h.published
  rw [SocketServer.sortCallback] at hcompletes hperm
  simp only [hcons, SocketServer.publishAll] at hcompletes hperm
  split at hcompletes
  · next heq =>
    simp only [heq] at hperm
    obtain ⟨socket, hsocket, hpublish⟩ := List.mem_map.1 (hperm.subset List.mem_cons_self)
    have hpayload := (hms socket hsocket).2
    rw [(GroupCommand.publish.inj hpublish).2] at hpayload
    have htext : (groupData lib data).msgData = (ChatMsg.msgData (groupData lib data)).serialize := by
      rw [← hpayload]
      exact congrArg lib.encode hmsgData.symm
    have hlt : (groupData lib data).msgData.length <
        (ChatMsg.msgData (groupData lib data)).serialize.length :=
      length_msgData_lt (by decide : Codec.groupchatText ≠ 0)
    rw [← htext] at hlt
    exact absurd hlt (lt_irrefl _)
  · cases hcompletes

theorem sortCallback_of_local (h : ∀ e ∈ reply, e.2 = some sv.g_socketStr) :
    sv.sortCallback lib { data with type := .groupchatText } reply =
      ⟨reply.filterMap fun e => (sv.userIdMap e.1).map fun userSocket =>
        (userSocket, { data with type := .group }), [], false⟩ := by
  obtain ⟨hmap, hemitted⟩ :
      (reply.foldl sv.sortEntry ⟨{ data with type := .groupchatText }, [], []⟩).dataMap = [] ∧
        (reply.foldl sv.sortEntry ⟨{ data with type := .groupchatText }, [], []⟩).emitted =
          [] ++ reply.filterMap fun e => (sv.userIdMap e.1).map fun userSocket =>
            (userSocket, { data with type := .group }) := foldl_sortEntry_of_local h rfl
  simp only [SocketServer.sortCallback, hmap, hemitted, SocketServer.publishAll, List.nil_append]

theorem membersAt_of_local (h : ∀ e ∈ reply, e.2 = some sv.g_socketStr) :
    membersAt sv.g_socketStr reply = reply.map Prod.fst := by
  rw [membersAt, List.filter_eq_self.2 fun e he => decide_eq_true (h e he)]

theorem otherSockets_of_local (h : ∀ e ∈ reply, e.2 = some sv.g_socketStr) :
    otherSockets sv.g_socketStr reply = [] := by
  refine List.filter_eq_nil_iff.2 fun socket hsocket => ?_
  obtain ⟨e, he, hsome⟩ := List.mem_filterMap.1 (List.mem_dedup.1 hsocket)
  rw [h e he] at hsome
  simp [Option.some.inj hsome]

/-- Everybody is sent the message exactly if everybody has a socket. -/
theorem emitted_eq_iff (f : Bytes × Option Bytes → Option ℕ) (d : JsMessage) :
    ((reply.filterMap fun e => (f e).map fun userSocket => (userSocket, d)).map fun e => (some e.1, e.2)) =
        (reply.map fun e => (f e, d)) ↔ ∀ e ∈ reply, (f e).isSome := by
  constructor
  · intro h e he
    have hmem : (f e, d) ∈ reply.map fun e => (f e, d) := List.mem_map_of_mem he
    rw [← h] at hmem
    obtain ⟨x, -, hx⟩ := List.mem_map.1 hmem
    exact (Prod.mk.inj hx).1 ▸ rfl
  · intro h
    induction reply with
    | nil => rfl
    | cons e reply ih =>
      obtain ⟨userSocket, hsocket⟩ := Option.isSome_iff_exists.1 (h e List.mem_cons_self)
      rw [List.filterMap_cons, hsocket, Option.map_some, List.map_cons, List.map_cons,
        ih fun e' he' => h e' (List.mem_cons_of_mem _ he'), hsocket]

/-- **When a group message reaches the members** as the other servers expect it: exactly if every member in
the reply is at the sender's server, with a socket there. -/
theorem fanOut_iff :
    FanOut sv lib data reply (sv.sortCallback lib { data with type := .groupchatText } reply) ↔
      ∀ e ∈ reply, e.2 = some sv.g_socketStr ∧ (sv.userIdMap e.1).isSome := by
  by_cases hlocal : ∀ e ∈ reply, e.2 = some sv.g_socketStr
  swap
  · refine iff_of_false (not_fanOut ?_) fun h => hlocal fun e he => (h e he).1
    simpa using hlocal
  rw [sortCallback_of_local hlocal]
  constructor
  · intro h e he
    have hemitted := h.emitted
    rw [membersAt_of_local hlocal, List.map_map] at hemitted
    exact ⟨hlocal e he, (emitted_eq_iff (fun e => sv.userIdMap e.1) _).1 hemitted e he⟩
  · intro h
    refine ⟨rfl, ?_, fun _ => ⟨[], []⟩, fun socket hsocket => ?_, ?_⟩
    · rw [membersAt_of_local hlocal, List.map_map]
      exact (emitted_eq_iff (fun e => sv.userIdMap e.1) _).2 fun e he => (h e he).2
    · rw [otherSockets_of_local hlocal] at hsocket
      cases hsocket
    · rw [otherSockets_of_local hlocal]
      exact List.Perm.refl _

end FanOut

/-- A web server with the user `c`. -/
def webServer : SocketServer := (SocketServer.start (ascii "w:1")).handleShake 0 (ascii "c")

/-- **A group with a member at another server**: the message is published on the channel of the member. -/
theorem group_fanOut_lost :
    (webServer.sortCallback library { jsMessage with type := .groupchatText }
        [(ascii "b", some (ascii "h:1"))]).commands =
      [.publish (ascii "groupMsg:b") ⟨[], [0xD6, 0xD0]⟩] ∧
      ¬FanOut webServer library jsMessage [(ascii "b", some (ascii "h:1"))]
        (webServer.sortCallback library { jsMessage with type := .groupchatText }
          [(ascii "b", some (ascii "h:1"))]) := by
  exact ⟨by decide, not_fanOut ⟨_, List.mem_cons_self, by decide⟩⟩

end MutexIM.Web
