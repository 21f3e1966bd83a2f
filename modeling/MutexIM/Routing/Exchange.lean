import MutexIM.Routing.GroupDelivery
import MutexIM.Routing.GroupMailbox
import MutexIM.Routing.Tasks

/-!
# Who sends, and who asks

A handshake binds a connection to a user. A chat message names its sender and a request for unread
messages its user in fields of their own, and no handler compares these with the connection's user.

* `Exchange.step`: the handlers of message servers, each as one step. What comes in is recorded with
  the connection and the user it was bound to.
* `Emits` is what a handler adds to what was sent, to what was published and to the lists of messages;
  there is one lemma for each handler.
* `sourced_of_run`: what `onMsgData` puts out has come in, on whatever connection.
* `impersonated`: a connection that is bound to nobody stores a message in another's name.
-/

namespace MutexIM.Routing

open Bytes Codec MessageServer

/-! ## The system -/

/-- `Server::onMsgData`. -/
def onMsgData (L : Layout Bytes Bytes) (sv : Server) (r : Redis) (ptrMsg : MsgData) : Server × Redis :=
  if ptrMsg.type = chatText ∨ ptrMsg.type = chatAudio then doPeerMsg sv r ptrMsg
  else if ptrMsg.type = groupchatText ∨ ptrMsg.type = groupchatAudio then
    let (sv, r) := doOnlineGroupMsg L sv r ptrMsg
    (sv, doOfflineGroupMsg r ptrMsg)
  else (sv, r)

/-- The chat message in a string published for a group. -/
def receivedGroup (value : Bytes) : List MsgData :=
  match ChatMsg.parse .serverGroupMsg value with
  | some (.serverGroupMsg msg) => received msg.msgData
  | _ => []

/-- What came in on a connection, with the user the connection was bound to and the state of Redis. -/
structure Arrival (ι α : Type*) where
  server : ι
  conn : ℕ
  bound : Option Bytes
  redis : Redis
  message : α

/-- Message servers on one Redis server. As history: the user of each connection's last successful
handshake, the chat messages and the requests for unread messages that came in, and the chat messages
the subscribers were handed. -/
structure Exchange (ι : Type*) where
  servers : ι → Server
  redis : Redis
  bound : ι → ℕ → Option Bytes
  arrived : List (Arrival ι MsgData)
  requests : List (Arrival ι UnreadMsgRequest)
  delivered : List MsgData

/-- The lists of chat messages. -/
def Listed (k : Bytes) : Prop := ascii "unreadMsg:" <+: k ∨ ascii "groupMsg:" <+: k

instance (k : Bytes) : Decidable (Listed k) := inferInstanceAs (Decidable (_ ∨ _))

namespace Exchange

variable {ι : Type*}

/-- What happens: something happens to the connections of a server, a chat message or a request for
unread messages comes in, a subscriber is handed a string, other programs change other keys. -/
inductive Event (ι : Type*)
  | server (i : ι) (e : Server.Event)
  | msgData (i : ι) (conn : ℕ) (ptrMsg : MsgData)
  | unreadMsgRequest (i : ι) (conn : ℕ) (ptrRequest : UnreadMsgRequest) (nowtime : UInt64)
  | subscribePeerMsg (i : ι) (value : Bytes)
  | subscribeGroupMsg (i : ι) (value : Bytes)
  | other (k : Bytes) (v : Option Value)

section Step

variable [DecidableEq ι] (L : Layout Bytes Bytes) (order : Keyspace.NumericOrder) (w : Exchange ι)

/-- One server is changed, and Redis. -/
def setServer (i : ι) (out : Server × Redis) : Exchange ι :=
  { w with servers := Function.update w.servers i out.1, redis := out.2 }

/-- The users of the connections after an event. -/
def rebind (i : ι) : Server.Event → ι → ℕ → Option Bytes
  | .handshake conn request _ =>
    if Binds w.redis request.userId then
      Function.update w.bound i (Function.update (w.bound i) conn (some request.userId))
    else w.bound
  | _ => w.bound

/-- Something comes in on a connection. -/
def arrival {α : Type*} (i : ι) (conn : ℕ) (m : α) : Arrival ι α :=
  ⟨i, conn, w.bound i conn, w.redis, m⟩

def step : Event ι → Option (Exchange ι)
  | .server i e => ((w.servers i).step w.redis e).map fun out =>
    { w.setServer i out with bound := w.rebind i e }
  | .msgData i conn ptrMsg =>
    if conn < (w.servers i).manager.created then
      some { w.setServer i (onMsgData L (w.servers i) w.redis ptrMsg) with
        arrived := w.arrived ++ [w.arrival i conn ptrMsg] }
    else none
  | .unreadMsgRequest i conn ptrRequest nowtime =>
    if conn < (w.servers i).manager.created then
      some { w.setServer i (onUnreadMsgRequest order (w.servers i) w.redis conn ptrRequest nowtime) with
        requests := w.requests ++ [w.arrival i conn ptrRequest] }
    else none
  | .subscribePeerMsg i value => (MutexIM.Routing.subscribePeerMsg (w.servers i) value).map fun sv =>
    { w.setServer i (sv, w.redis) with delivered := w.delivered ++ received value }
  | .subscribeGroupMsg i value => (MutexIM.Routing.subscribeGroupMsg (w.servers i) value).map fun sv =>
    { w.setServer i (sv, w.redis) with delivered := w.delivered ++ receivedGroup value }
  | .other k v =>
    if Listed k ∨ ascii "unreadNumber:" <+: k then none
    else some { w with redis := { w.redis with keys := Function.update w.redis.keys k v } }

/-- The servers have just started. -/
def start (sockets : ι → Bytes) (r : Redis) : Exchange ι where
  servers i := .start (sockets i)
  redis := r
  bound _ _ := none
  arrived := []
  requests := []
  delivered := []

end Step

end Exchange

/-- A published string holds the message: as it is, or with the members of a group. -/
def Carries (content : Bytes) (m : MsgData) : Prop :=
  content = (ChatMsg.msgData m).serialize ∨
    ∃ userIds, content = (ChatMsg.serverGroupMsg ⟨userIds, (ChatMsg.msgData m).serialize⟩).serialize

/-- The channels of chat messages. -/
def ChatChannel (channel : Bytes) : Prop :=
  ascii "peerMsg:" <+: channel ∨ ascii "groupMsg:" <+: channel

instance (channel : Bytes) : Decidable (ChatChannel channel) := inferInstanceAs (Decidable (_ ∨ _))

namespace Exchange

variable {ι : Type*}

/-- What was put out since the start has come in with the property: the chat messages sent, unless a
subscriber was handed them, those published and those in the lists. -/
structure Sourced (w : Exchange ι) (r : Redis) (p : Arrival ι MsgData → Prop) : Prop where
  sent : ∀ i s m, .msgData m ∈ ((w.servers i).manager.sessions s).sent →
    m ∈ w.delivered ∨ ∃ a ∈ w.arrived, p a ∧ a.message = m
  published : ∀ e ∈ w.redis.published, ChatChannel e.1 →
    e ∈ r.published ∨ ∃ a ∈ w.arrived, p a ∧ Carries e.2 a.message
  stored : ∀ k, Listed k → ∀ x ∈ w.redis.keys.listAt k,
    x ∈ r.keys.listAt k ∨ ∃ a ∈ w.arrived, p a ∧ x = (ChatMsg.msgData a.message).serialize

end Exchange

/-- The message names the user of its connection. -/
def Authentic {ι : Type*} (a : Arrival ι MsgData) : Prop := a.bound = some a.message.fromId

/-! ## What a handler adds -/

/-- What a handler adds to what the sessions were sent, to what was published on the channels of chat
messages, and to the lists of messages. -/
structure Emits (sv : Server) (r : Redis) (out : Server × Redis) (sends : ℕ → ChatMsg → Prop)
    (publishes stores : Bytes → Prop) : Prop where
  sent : ∀ s, ∀ x ∈ (out.1.manager.sessions s).sent,
    x ∈ (sv.manager.sessions s).sent ∨ sends s x
  published : ∀ e ∈ out.2.published, ChatChannel e.1 → e ∈ r.published ∨ publishes e.2
  stored : ∀ k, Listed k → ∀ x ∈ out.2.keys.listAt k, x ∈ r.keys.listAt k ∨ stores x

namespace Emits

variable {sv sv' : Server} {r r' : Redis} {out : Server × Redis} {sends : ℕ → ChatMsg → Prop}
  {publishes stores : Bytes → Prop}

/-- A handler that only sends. -/
theorem of_manager {c : ConnectionManager} (h : ∀ s, ∀ x ∈ (c.sessions s).sent,
    x ∈ (sv.manager.sessions s).sent ∨ sends s x) :
    Emits sv r ({ sv with manager := c }, r) sends publishes stores :=
  ⟨h, fun _ he _ => .inl he, fun _ _ _ hx => .inl hx⟩

/-- A handler that only uses Redis. -/
theorem of_redis (hpublished : ∀ e ∈ r'.published, ChatChannel e.1 → e ∈ r.published ∨ publishes e.2)
    (hstored : ∀ k, Listed k → ∀ x ∈ r'.keys.listAt k, x ∈ r.keys.listAt k ∨ stores x) :
    Emits sv r (sv, r') sends publishes stores :=
  ⟨fun _ _ hx => .inl hx, hpublished, hstored⟩

theorem refl : Emits sv r (sv, r) sends publishes stores := of_manager fun _ _ hx => .inl hx

theorem trans (h : Emits sv r (sv', r') sends publishes stores)
    (h' : Emits sv' r' out sends publishes stores) : Emits sv r out sends publishes stores where
  sent s x hx := (h'.sent s x hx).elim (h.sent s x) .inr
  published e he hc := (h'.published e he hc).elim (fun he => h.published e he hc) .inr
  stored k hk x hx := (h'.stored k hk x hx).elim (h.stored k hk x) .inr

/-- What the sessions of several servers have after one of them has done something. -/
theorem sent_update {ι : Type*} [DecidableEq ι] {servers : ι → Server} {i : ι}
    (hout : Emits (servers i) r out sends publishes stores) {j : ι} {s : ℕ} {x : ChatMsg}
    (hx : x ∈ ((Function.update servers i out.1 j).manager.sessions s).sent) :
    x ∈ ((servers j).manager.sessions s).sent ∨ j = i ∧ sends s x := by
  by_cases hj : j = i
  · subst hj
    rw [Function.update_self] at hx
    exact (hout.sent s x hx).imp_right fun h => ⟨rfl, h⟩
  · rw [Function.update_of_ne hj] at hx
    exact .inl hx

end Emits

/-- What a session has after a send. -/
theorem sent_of_send {c : ConnectionManager} {conn : ℕ} {m x : ChatMsg} {s : ℕ}
    (h : x ∈ ((c.send conn m).sessions s).sent) :
    x ∈ (c.sessions s).sent ∨ s = conn ∧ x = m := by
  rw [ConnectionManager.sent_send] at h
  rcases List.mem_append.1 h with h | h
  · exact .inl h
  · split at h
    · next hs => exact .inr ⟨hs.1, List.mem_singleton.1 h⟩
    · cases h

/-- What a session has after some users were looked up. -/
theorem sent_of_sendUsers {c : ConnectionManager} {us : List Bytes} {m x : ChatMsg} {s : ℕ}
    (h : x ∈ ((c.sendUsers m us).sessions s).sent) : x ∈ (c.sessions s).sent ∨ x = m := by
  rw [ConnectionManager.sent_sendUsers] at h
  rcases List.mem_append.1 h with h | h
  · exact .inl h
  · exact .inr (List.eq_of_mem_replicate h)

/-! ### Connections -/

/-- Nothing is published on the channels of chat messages. -/
theorem mem_published_signOff {r : Redis} {readGroups : Redis → Bytes → List Bytes} {userId : Bytes}
    {e : Bytes × Bytes} (he : e ∈ (ConnectionManager.signOff r readGroups userId).published)
    (hc : ChatChannel e.1) : e ∈ r.published := by
  have hoffline : ¬ChatChannel (ascii "offline") := by decide
  rw [published_signOff] at he
  rcases List.mem_append.1 he with he | he
  · exact he
  · obtain rfl := List.mem_singleton.1 he
    exact absurd hc hoffline

theorem mem_published_stopAll {c : ConnectionManager} {r : Redis} {e : Bytes × Bytes}
    (he : e ∈ (c.stopAll r).2.published) (hc : ChatChannel e.1) : e ∈ r.published := by
  have hfold : ∀ (us : List Bytes) (r : Redis),
      e ∈ (us.foldl (fun r u => ConnectionManager.signOff r CRedis.smembers u) r).published →
        e ∈ r.published := by
    intro us
    induction us with
    | nil => exact fun _ he => he
    | cons u us ih => exact fun r he => mem_published_signOff (ih _ he) hc
  exact hfold _ _ he

/-- What happens to connections leaves the lists of messages. -/
theorem listAt_of_step {sv : Server} {r : Redis} {e : Server.Event} {out : Server × Redis}
    (h : sv.step r e = some out) {k : Bytes} (hk : Listed k) :
    out.2.keys.listAt k = r.keys.listAt k := by
  refine Keyspace.listAt_congr (Server.step_of_ne h (fun u => ?_) fun g => ?_)
  · rintro rfl
    revert hk
    simp [Listed, ascii]
  · rintro rfl
    revert hk
    simp [Listed, ascii]

section Shake

variable {sv : Server} {r : Redis} {conn s : ℕ} {request : ShakeHandleReq} {nowtime : UInt64}

/-- A handshake is answered, if at all. -/
theorem sent_of_onShakeHandleReq {x : ChatMsg}
    (hx : x ∈ ((onShakeHandleReq sv r conn request nowtime).1.manager.sessions s).sent) :
    x ∈ (sv.manager.sessions s).sent ∨ ∃ m, x = .shakeHandleRes m := by
  by_cases hb : Binds r request.userId
  · obtain ⟨sessionid, heq⟩ := onShakeHandleReq_of_binds sv conn nowtime hb
    rw [heq] at hx
    rcases sent_of_send hx with hx | ⟨-, rfl⟩
    · rw [ConnectionManager.apply_bindUser TcpSession.sent fun _ _ _ => rfl] at hx
      exact .inl hx
    · exact .inr ⟨_, rfl⟩
  · obtain ⟨-, heq | heq⟩ := onShakeHandleReq_of_not_binds sv conn nowtime hb
    · exact .inl (heq ▸ hx)
    · rw [heq] at hx
      exact (sent_of_send hx).imp_right fun h => ⟨_, h.2⟩

/-- It publishes that the user is online, and no chat message. -/
theorem published_of_onShakeHandleReq {e : Bytes × Bytes}
    (he : e ∈ (onShakeHandleReq sv r conn request nowtime).2.published) (hc : ChatChannel e.1) :
    e ∈ r.published := by
  by_cases hb : Binds r request.userId
  · obtain ⟨sessionid, heq⟩ := onShakeHandleReq_of_binds sv conn nowtime hb
    rw [heq, published_signOn] at he
    rcases List.mem_append.1 he with he | he
    · exact he
    · have honline : ¬ChatChannel (ascii "online") := by decide
      obtain rfl := List.mem_singleton.1 he
      exact absurd hc honline
  · obtain ⟨hredis, -⟩ := onShakeHandleReq_of_not_binds sv conn nowtime hb
    exact hredis ▸ he

end Shake

/-- **The connections**: handshakes are answered, and nothing else is put out. -/
theorem Emits.server {sv : Server} {r : Redis} {e : Server.Event} {out : Server × Redis}
    (h : sv.step r e = some out) :
    Emits sv r out (fun _ x => ∃ m, x = .shakeHandleRes m) (fun _ => False) fun _ => False := by
  have hstored : ∀ k, Listed k → ∀ x ∈ out.2.keys.listAt k, x ∈ r.keys.listAt k ∨ False :=
    fun k hk x hx => .inl (listAt_of_step h hk ▸ hx)
  cases e with
  | accept =>
    obtain rfl := Option.some.inj h
    refine of_manager fun s x hx => ?_
    rw [ConnectionManager.apply_handleAccept TcpSession.sent rfl] at hx
    exact .inl hx
  | handshake conn request nowtime =>
    simp only [Server.step] at h
    split at h
    · obtain rfl := Option.some.inj h
      exact ⟨fun s x hx => sent_of_onShakeHandleReq hx,
        fun e he hc => .inl (published_of_onShakeHandleReq he hc), hstored⟩
    · cases h
  | disconnect s =>
    obtain ⟨⟨c', r'⟩, hstop, rfl⟩ := Option.map_eq_some_iff.1 h
    obtain ⟨-, rfl, rfl⟩ := ConnectionManager.stop_eq_some_iff.1 hstop
    refine ⟨fun s' x hx => ?_, fun e he hc => ?_, hstored⟩
    · rw [ConnectionManager.apply_without TcpSession.sent rfl] at hx
      exact .inl hx
    · dsimp only at he
      split at he
      · exact .inl he
      · exact .inl (mem_published_signOff he hc)
  | stopAll =>
    obtain rfl := Option.some.inj h
    refine ⟨fun s x hx => ?_, fun e he hc => .inl (mem_published_stopAll he hc), hstored⟩
    dsimp only at hx
    split at hx
    · exact .inl hx
    · exact .inl hx

/-! ### Chat messages -/

section Chat

variable {sv : Server} {r : Redis} {ptrMsg : MsgData} {k x : Bytes}

theorem Emits.doPeerMsg : Emits sv r (MutexIM.Routing.doPeerMsg sv r ptrMsg)
    (fun _ x => x = .msgData ptrMsg) (Carries · ptrMsg)
    fun x => x = (ChatMsg.msgData ptrMsg).serialize := by
  rw [doPeerMsg_eq]
  split
  · exact of_manager fun s x hx => (sent_of_send hx).imp_right And.right
  · split
    · refine of_redis (fun e he _ => ?_) fun _ _ _ hx => .inl hx
      rcases List.mem_append.1 he with he | he
      · exact .inl he
      · obtain rfl := List.mem_singleton.1 he
        exact .inr (.inl rfl)
    · exact of_redis (fun e he _ => .inl (CRedis.published_lpushKeep ▸ he))
        fun k _ x hx => CRedis.mem_listAt_lpushKeep hx

theorem carries_of_mem_bucketMsg {e : Bytes × Bytes} {elements : List (Bytes × Bytes)}
    (he : e ∈ bucketMsg (ChatMsg.msgData ptrMsg).serialize elements) : Carries e.2 ptrMsg := by
  cases elements with
  | nil => cases he
  | cons entry rest =>
    obtain rfl := List.mem_singleton.1 he
    exact .inr ⟨_, rfl⟩

theorem Emits.doOnlineGroupMsg {L : Layout Bytes Bytes} :
    Emits sv r (MutexIM.Routing.doOnlineGroupMsg L sv r ptrMsg)
      (fun _ x => x = .msgData ptrMsg) (Carries · ptrMsg)
      fun x => x = (ChatMsg.msgData ptrMsg).serialize where
  sent s x hx := by
    rw [doOnlineGroupMsg_fst] at hx
    exact sent_of_sendUsers hx
  published e he _ := by
    rw [doOnlineGroupMsg_published] at he
    rcases List.mem_append.1 he with he | he
    · exact .inl he
    · obtain ⟨i, -, he⟩ := List.mem_flatMap.1 he
      exact .inr (carries_of_mem_bucketMsg he)
  stored k _ x hx := by
    rw [doOnlineGroupMsg_snd] at hx
    exact .inl hx

theorem published_doOfflineGroupMsg :
    (MessageServer.doOfflineGroupMsg r ptrMsg).published = r.published := by
  have hpush : (pushGroupMsg r ptrMsg).published = r.published := CRedis.published_lpushKeep
  unfold MessageServer.doOfflineGroupMsg
  rw [published_foldl (f := fun r userId => CRedis.incr r (unreadNumber userId ptrMsg.toId))
    fun _ _ => rfl]
  exact hpush

theorem Emits.doOfflineGroupMsg : Emits sv r (sv, MessageServer.doOfflineGroupMsg r ptrMsg)
    (fun _ x => x = .msgData ptrMsg) (Carries · ptrMsg)
    fun x => x = (ChatMsg.msgData ptrMsg).serialize := by
  refine of_redis (fun e he _ => .inl (published_doOfflineGroupMsg ▸ he)) fun k hk x hx => ?_
  have hcount : (MessageServer.doOfflineGroupMsg r ptrMsg).keys k = (pushGroupMsg r ptrMsg).keys k := by
    refine foldl_incr_of_ne (fun x => ?_) _ _
    rintro rfl
    revert hk
    simp [Listed, ascii]
  rw [Keyspace.listAt_congr hcount] at hx
  exact CRedis.mem_listAt_lpushKeep hx

/-- **A chat message** is what is put out for it. -/
theorem Emits.onMsgData {L : Layout Bytes Bytes} :
    Emits sv r (MutexIM.Routing.onMsgData L sv r ptrMsg)
      (fun _ x => x = .msgData ptrMsg) (Carries · ptrMsg)
      fun x => x = (ChatMsg.msgData ptrMsg).serialize := by
  unfold MutexIM.Routing.onMsgData
  split
  · exact Emits.doPeerMsg
  · split
    · exact Emits.doOnlineGroupMsg.trans Emits.doOfflineGroupMsg
    · exact .refl

/-- What a subscriber is handed is sent. -/
theorem Emits.subscribePeerMsg {value : Bytes} {sv' : Server}
    (h : MutexIM.Routing.subscribePeerMsg sv value = some sv') :
    Emits sv r (sv', r) (fun _ x => ∃ m ∈ received value, x = .msgData m) (fun _ => False)
      fun _ => False := by
  unfold MutexIM.Routing.subscribePeerMsg at h
  split at h
  · next msg hparse =>
    have hmem : msg ∈ received value := by
      rw [received, hparse]
      exact List.mem_singleton_self _
    split at h
    · obtain rfl := Option.some.inj h
      exact of_manager fun s x hx => (sent_of_send hx).imp_right fun hx => ⟨msg, hmem, hx.2⟩
    · obtain rfl := Option.some.inj h
      exact .refl
  · cases h

theorem Emits.subscribeGroupMsg {value : Bytes} {sv' : Server}
    (h : MutexIM.Routing.subscribeGroupMsg sv value = some sv') :
    Emits sv r (sv', r) (fun _ x => ∃ m ∈ receivedGroup value, x = .msgData m) (fun _ => False)
      fun _ => False := by
  unfold MutexIM.Routing.subscribeGroupMsg at h
  split at h
  · next msg hparse =>
    split at h
    · next contentData hcontent =>
      have hmem : contentData ∈ receivedGroup value := by
        simp only [receivedGroup, hparse, received, hcontent]
        exact List.mem_singleton_self _
      obtain rfl := Option.some.inj h
      exact of_manager fun s x hx => (sent_of_sendUsers hx).imp_right fun hx => ⟨contentData, hmem, hx⟩
    · cases h
  · cases h

end Chat

/-! ### Requests -/

/-- **A request** is answered on its connection with what is stored for the user it names. -/
theorem Emits.onUnreadMsgRequest {order : Keyspace.NumericOrder} {sv : Server} {r : Redis} {conn : ℕ}
    {ptrRequest : UnreadMsgRequest} {nowtime : UInt64} :
    Emits sv r (MessageServer.onUnreadMsgRequest order sv r conn ptrRequest nowtime)
      (fun s x => s = conn ∧ ∃ response, x = .unreadMsgResponse response ∧
        response.userId = ptrRequest.userId ∧
          response.msgData = storedFor order r ptrRequest.userId)
      (fun _ => False) fun _ => False := by
  rw [onUnreadMsgRequest_eq]
  have hpublished : (resetNumbers (CRedis.del r (ascii "unreadMsg:" ++ ptrRequest.userId))
      ptrRequest.userId (numberData order (CRedis.del r (ascii "unreadMsg:" ++ ptrRequest.userId))
        ptrRequest.userId)).published = r.published := by
    unfold resetNumbers
    refine (published_foldl (fun r e => ?_) _ _).trans rfl
    split <;> rfl
  refine ⟨fun s x hx => ?_, fun e he _ => .inl (hpublished ▸ he), fun k hk x hx => ?_⟩
  · split at hx
    · exact (sent_of_send hx).imp_right fun hx => ⟨hx.1, _, hx.2, rfl, rfl⟩
    · exact .inl hx
  · have hreset := foldl_set_of_ne (k := k) (r := CRedis.del r (ascii "unreadMsg:" ++ ptrRequest.userId))
      (fun x => ?_) ptrRequest.userId (numberData order
        (CRedis.del r (ascii "unreadMsg:" ++ ptrRequest.userId)) ptrRequest.userId)
    · rw [Keyspace.listAt_congr hreset] at hx
      by_cases hkey : k = cstr (ascii "unreadMsg:" ++ ptrRequest.userId)
      · rw [hkey, CRedis.listAt_del] at hx
        cases hx
      · rw [Keyspace.listAt_congr (CRedis.keys_del_of_ne hkey)] at hx
        exact .inl hx
    · rintro rfl
      revert hk
      simp [Listed, ascii]

/-! ## Runs -/

namespace Exchange

variable {ι : Type*} {w w' : Exchange ι} {r : Redis} {p q : Arrival ι MsgData → Prop}

/-- What all arrivals have can be added. -/
theorem Sourced.imp (h : w.Sourced r p) (hq : ∀ a ∈ w.arrived, p a → q a) : w.Sourced r q where
  sent i s m hm := (h.sent i s m hm).imp_right fun ⟨a, ha, hp, heq⟩ => ⟨a, ha, hq a ha hp, heq⟩
  published e he hc :=
    (h.published e he hc).imp_right fun ⟨a, ha, hp, heq⟩ => ⟨a, ha, hq a ha hp, heq⟩
  stored k hk x hx :=
    (h.stored k hk x hx).imp_right fun ⟨a, ha, hp, heq⟩ => ⟨a, ha, hq a ha hp, heq⟩

variable [DecidableEq ι]

/-- One server does something. -/
theorem Sourced.update (h : w.Sourced r p) {i : ι} {out : Server × Redis}
    {sends : ℕ → ChatMsg → Prop} {publishes stores : Bytes → Prop}
    (hout : Emits (w.servers i) w.redis out sends publishes stores)
    (hservers : w'.servers = Function.update w.servers i out.1) (hredis : w'.redis = out.2)
    (harrived : w.arrived ⊆ w'.arrived) (hdelivered : w.delivered ⊆ w'.delivered)
    (hsends : ∀ s m, sends s (.msgData m) →
      m ∈ w'.delivered ∨ ∃ a ∈ w'.arrived, p a ∧ a.message = m)
    (hpublishes : ∀ c, publishes c → ∃ a ∈ w'.arrived, p a ∧ Carries c a.message)
    (hstores : ∀ x, stores x → ∃ a ∈ w'.arrived, p a ∧ x = (ChatMsg.msgData a.message).serialize) :
    w'.Sourced r p where
  sent j s m hm := by
    rw [hservers] at hm
    rcases hout.sent_update hm with hm | ⟨-, hm⟩
    · exact (h.sent j s m hm).imp (fun h => hdelivered h) fun ⟨a, ha, hp⟩ => ⟨a, harrived ha, hp⟩
    · exact hsends s m hm
  published e he hc := by
    rcases hout.published e (hredis ▸ he) hc with he | he
    · exact (h.published e he hc).imp_right fun ⟨a, ha, hp⟩ => ⟨a, harrived ha, hp⟩
    · exact .inr (hpublishes _ he)
  stored k hk x hx := by
    rcases hout.stored k hk x (hredis ▸ hx) with hx | hx
    · exact (h.stored k hk x hx).imp_right fun ⟨a, ha, hp⟩ => ⟨a, harrived ha, hp⟩
    · exact .inr (hstores _ hx)

variable {L : Layout Bytes Bytes} {order : Keyspace.NumericOrder}

/-- **Every step keeps it.** -/
theorem Sourced.step {e : Event ι} (h : w.Sourced r fun _ => True)
    (hstep : w.step L order e = some w') : w'.Sourced r fun _ => True := by
  cases e with
  | server i e =>
    obtain ⟨out, hout, rfl⟩ := Option.map_eq_some_iff.1 hstep
    refine h.update (Emits.server hout) rfl rfl (List.Subset.refl _) (List.Subset.refl _)
      (fun s m hm => ?_) (fun _ h => h.elim) fun _ h => h.elim
    obtain ⟨m', heq⟩ := hm
    cases heq
  | msgData i conn ptrMsg =>
    simp only [Exchange.step] at hstep
    split at hstep
    · obtain rfl := Option.some.inj hstep
      have hmem : w.arrival i conn ptrMsg ∈ w.arrived ++ [w.arrival i conn ptrMsg] :=
        List.mem_append_right _ (List.mem_singleton_self _)
      refine h.update Emits.onMsgData rfl rfl (List.subset_append_left ..) (List.Subset.refl _)
        (fun s m hm => ?_) (fun c hc => ?_) fun x hx => ?_
      · cases hm
        exact .inr ⟨_, hmem, trivial, rfl⟩
      · exact ⟨_, hmem, trivial, hc⟩
      · exact ⟨_, hmem, trivial, hx⟩
    · cases hstep
  | unreadMsgRequest i conn ptrRequest nowtime =>
    simp only [Exchange.step] at hstep
    split at hstep
    · obtain rfl := Option.some.inj hstep
      refine h.update Emits.onUnreadMsgRequest rfl rfl (List.Subset.refl _) (List.Subset.refl _)
        (fun s m hm => ?_) (fun _ h => h.elim) fun _ h => h.elim
      obtain ⟨-, response, heq, -⟩ := hm
      cases heq
    · cases hstep
  | subscribePeerMsg i value =>
    obtain ⟨sv, hsv, rfl⟩ := Option.map_eq_some_iff.1 hstep
    refine h.update (Emits.subscribePeerMsg hsv) rfl rfl (List.Subset.refl _)
      (List.subset_append_left ..) (fun s m hm => ?_) (fun _ h => h.elim) fun _ h => h.elim
    obtain ⟨m', hm', heq⟩ := hm
    cases heq
    exact .inl (List.mem_append_right _ hm')
  | subscribeGroupMsg i value =>
    obtain ⟨sv, hsv, rfl⟩ := Option.map_eq_some_iff.1 hstep
    refine h.update (Emits.subscribeGroupMsg hsv) rfl rfl (List.Subset.refl _)
      (List.subset_append_left ..) (fun s m hm => ?_) (fun _ h => h.elim) fun _ h => h.elim
    obtain ⟨m', hm', heq⟩ := hm
    cases heq
    exact .inl (List.mem_append_right _ hm')
  | other k v =>
    simp only [Exchange.step] at hstep
    split at hstep
    · cases hstep
    · next hk =>
      obtain rfl := Option.some.inj hstep
      refine ⟨h.sent, h.published, fun k' hk' x hx => h.stored k' hk' x ?_⟩
      rwa [Keyspace.listAt_congr (Function.update_of_ne _ ..)] at hx
      rintro rfl
      exact hk (.inl hk')

/-- **Where messages come from**: in every run, what is sent, published or stored has come in on a
connection; if every message that came in names the user of its connection, then so do they. -/
theorem sourced_of_run {sockets : ι → Bytes} {es : List (Event ι)}
    (hrun : Run (step L order) (fun _ _ => True) (start sockets r) es w) :
    w.Sourced r (fun _ => True) ∧
      ((∀ a ∈ w.arrived, Authentic a) → w.Sourced r Authentic) := by
  have hstart : (start sockets r : Exchange ι).Sourced r fun _ => True := by
    refine ⟨fun _ _ _ hm => ?_, fun _ he _ => .inl he, fun _ _ _ hx => .inl hx⟩
    cases hm
  have h : w.Sourced r fun _ => True :=
    hrun.invariant (I := fun w => w.Sourced r fun _ => True) (fun _ _ _ h _ hstep => h.step hstep)
      hstart
  exact ⟨h, fun ha => h.imp fun a hmem _ => ha a hmem⟩

/-! ## A message in another's name -/

/-- A message from `u` to `v`, who is not online. -/
def fromU : MsgData := ⟨0, 0, ascii "u", ascii "v", ascii "hello", chatText⟩

/-- The connection has had the handshake of `u`. -/
def boundSender : List (Event Unit) :=
  [.server () .accept, .server () (.handshake 0 ⟨0, ascii "u"⟩ 0), .msgData () 0 fromU]

/-- The connection has had no handshake. -/
def unboundSender : List (Event Unit) := [.server () .accept, .msgData () 0 fromU]

instance {ι : Type*} (a : Arrival ι MsgData) : Decidable (Authentic a) :=
  inferInstanceAs (Decidable (_ = _))

theorem sourced_boundSender : ∃ w : Exchange Unit,
    Run (step eightBuckets GroupLog.decimalOrder) (fun _ _ => True)
      (start (fun _ => ascii "h:1") (loggedIn [ascii "u"])) boundSender w ∧
    w.redis.keys.listAt (ascii "unreadMsg:v") = [(ChatMsg.msgData fromU).serialize] ∧
    w.Sourced (loggedIn [ascii "u"]) Authentic := by
  have hany : (exec (step eightBuckets GroupLog.decimalOrder) (fun _ _ => True)
      (start (fun _ : Unit => ascii "h:1") (loggedIn [ascii "u"])) boundSender).any
        (fun w => w.redis.keys.listAt (ascii "unreadMsg:v") = [(ChatMsg.msgData fromU).serialize] ∧
          ∀ a ∈ w.arrived, Authentic a) = true := by decide +kernel
  obtain ⟨w, hrun, hstored, hall⟩ := Run.exists_of_exec hany
  exact ⟨w, hrun, hstored, (sourced_of_run hrun).2 hall⟩

/-- **Impersonation**: a connection that is bound to nobody stores a message in the name of `u`. -/
theorem impersonated : ∃ w : Exchange Unit,
    Run (step eightBuckets GroupLog.decimalOrder) (fun _ _ => True)
      (start (fun _ => ascii "h:1") ⟨fun _ => none, []⟩) unboundSender w ∧
    w.redis.keys.listAt (ascii "unreadMsg:v") = [(ChatMsg.msgData fromU).serialize] ∧
    w.bound () 0 = none ∧ ¬w.Sourced ⟨fun _ => none, []⟩ Authentic := by
  have hany : (exec (step eightBuckets GroupLog.decimalOrder) (fun _ _ => True)
      (start (fun _ : Unit => ascii "h:1") ⟨fun _ => none, []⟩) unboundSender).any
        (fun w => w.redis.keys.listAt (ascii "unreadMsg:v") = [(ChatMsg.msgData fromU).serialize] ∧
          w.bound () 0 = none ∧ ∀ a ∈ w.arrived, a.bound = none) = true := by decide +kernel
  obtain ⟨w, hrun, hstored, hbound, hall⟩ := Run.exists_of_exec hany
  refine ⟨w, hrun, hstored, hbound, fun h => ?_⟩
  have hmem : (ChatMsg.msgData fromU).serialize ∈ w.redis.keys.listAt (ascii "unreadMsg:v") := by
    rw [hstored]
    exact List.mem_singleton_self _
  rcases h.stored _ (.inl (by decide)) _ hmem with hold | ⟨a, ha, hauthentic, -⟩
  · cases hold
  · rw [Authentic, hall a ha] at hauthentic
    cases hauthentic

end Exchange

end MutexIM.Routing
