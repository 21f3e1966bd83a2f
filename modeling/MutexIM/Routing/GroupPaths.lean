import MutexIM.Foundations.Runs
import MutexIM.Routing.Effects
import MutexIM.Routing.GroupDelivery
import MutexIM.Routing.GroupMailbox
import MutexIM.Routing.GroupTasks
import MutexIM.Routing.World

/-!
# The paths of a group message

A member of a group is to get a message of the group at once if it is online, and is to have it counted
if it is not. Who is online is asked twice: `SORT` finds those to whom the message is sent, `SDIFF` those
for whom it is counted.

* `Paths.step`: a message is handled on one server, command by command, while a member comes online on
  another server, asks for what it has missed, or goes.
* `Paths.Agreed`: the two questions have the same answer, what is sent reaches the member, and the
  counter is not reset between the reading of it and the reset.
* `one_path_of_run`: then the member gets the message or has it counted, once.
* `no_path`: a member who comes online between the questions gets neither.
-/

namespace MutexIM.Routing

open Bytes Codec MessageServer

/-! ## What reaches a member -/

/-- The users that a published message is for. -/
def receivers (value : Bytes) : List Bytes :=
  match ChatMsg.parse .serverGroupMsg value with
  | some (.serverGroupMsg msg) => msg.userId
  | _ => []

/-- What a server gets of what is published. -/
def forServer (strServerSocket : Bytes) (messages : List (Bytes × Bytes)) : List Bytes :=
  (messages.filter fun e => e.1 = ascii "groupMsg:" ++ strServerSocket).map Prod.snd

/-- The user has a session that is connected. -/
def reaches (c : ConnectionManager) (userId : Bytes) : Bool :=
  match c.findUser userId with
  | some s => (c.sessions s).isConnected
  | none => false

/-- How often the message is sent to the user, if these users are looked up. -/
def copies (c : ConnectionManager) (userId : Bytes) (us : List Bytes) : ℕ :=
  if reaches c userId then us.count userId else 0

/-- Where the user has a session of its own, that is how often the session gets the message. -/
theorem sent_eq_copies {c : ConnectionManager} {m : ChatMsg} {userId : Bytes} {conn : ℕ}
    (hfind : c.findUser userId = some conn) {us : List Bytes}
    (hown : ∀ u ∈ us, c.findUser u = some conn → u = userId) :
    ((c.sendUsers m us).sessions conn).sent = (c.sessions conn).sent ++
      List.replicate (copies c userId us) m := by
  rw [ConnectionManager.sent_sendUsers, copies, reaches, hfind]
  congr 2
  by_cases hconnected : (c.sessions conn).isConnected = true
  · simp only [hconnected, if_true, and_true]
    refine List.countP_congr fun u hu => ?_
    rw [decide_eq_true_iff, beq_iff_eq]
    exact ⟨hown u hu, fun h => h ▸ hfind⟩
  · simp [hconnected]

/-! ## The system -/

/-- The server `a` with what is left of the message, the server `b` of the member with the task of its
thread or the member's request, and what was published for `b` and has not come in. As history: whether
`SORT` found the member, how often the message was sent to it, and how often it was counted: in the
counter, and in the counter when a request read it. -/
structure Paths where
  a : Server
  message : Option GroupStage
  b : Worker
  request : Option UnreadTask
  redis : Redis
  inbox : List Bytes
  listed : Bool
  live : ℕ
  counted : ℕ
  taken : ℕ

namespace Paths

/-- What happens: the handling of the message goes on; on the other server, a connection is accepted, a
handshake or a request of the member comes in, a connection fails, the thread goes on with either, a
published message comes in. -/
inductive Event
  | message
  | accept
  | shakeHandle (conn : ℕ) (request : ShakeHandleReq) (nowtime : UInt64)
  | disconnect (s : ℕ)
  | work
  | unreadMsgRequest (conn : ℕ) (ptrRequest : UnreadMsgRequest) (nowtime : UInt64)
  | request
  | deliver

section Step

variable (order : Keyspace.NumericOrder) (L : Layout Bytes Bytes) (ptrMsg : MsgData) (userId : Bytes)
  (s : Paths)

/-- The message has come in. -/
def start (a b : Server) (r : Redis) : Paths where
  a := a
  message := some .sort
  b := ⟨b, none⟩
  request := none
  redis := r
  inbox := []
  listed := false
  live := 0
  counted := 0
  taken := 0

/-- The members that `SORT` finds, with their servers. -/
def vecStr : List (Bytes × Bytes) :=
  CRedis.sortMultiSocket s.redis (ascii "onlineGroup:" ++ ptrMsg.toId)

/-- The member's counter. -/
def counter : Bytes := cstr (unreadNumber userId ptrMsg.toId)

/-- The counter can be incremented. -/
def counts : Bool :=
  match (s.redis.keys.incr (counter ptrMsg userId)).1 with
  | .integer _ => true
  | _ => false

/-- The entry is for the member's counter, which is not at zero. -/
def Selected (user : Bytes) (e : Bytes × Bytes) : Prop :=
  e.2 ≠ ascii "0" ∧ cstr (unreadNumber user e.1) = counter ptrMsg userId

/-- The request reads the counter, to reset it later. -/
def Reads (user : Bytes) : Prop :=
  ∃ e ∈ numberData order s.redis user, Selected ptrMsg userId user e ∧
    e.2 = CRedis.textOf (s.redis.keys (counter ptrMsg userId))

instance (user : Bytes) (e : Bytes × Bytes) : Decidable (Selected ptrMsg userId user e) :=
  inferInstanceAs (Decidable (_ ∧ _))

instance (user : Bytes) : Decidable (s.Reads order ptrMsg userId user) :=
  inferInstanceAs (Decidable (∃ e ∈ _, _))

/-- The history after a step of the message. -/
def advance (s' : Paths) : GroupStage → Paths
  | .sort => { s' with
      listed := decide (userId ∈ (s.vecStr ptrMsg).map Prod.fst)
      live := s.live + copies s.a.manager userId (localMembers s.a ptrMsg.fromId (s.vecStr ptrMsg)) }
  | .publish (e :: _) => { s' with inbox := s.inbox ++ forServer s.b.server.strServerSocket [e] }
  | .incr (user :: _) => { s' with
      counted := s.counted + if user = userId ∧ s.counts ptrMsg userId then 1 else 0 }
  | _ => s'

/-- The history after a step of a request. -/
def advanceRequest (user : Bytes) (s' : Paths) : UnreadStage → Paths
  | .sort _ =>
    if s.Reads order ptrMsg userId user then { s' with counted := 0, taken := s.taken + s.counted }
    else s'
  | .set _ (e :: _) => if Selected ptrMsg userId user e then { s' with counted := 0 } else s'
  | _ => s'

/-- The thread of the server `b` has nothing to do. -/
def idle : Bool := s.b.task.isNone && s.request.isNone

def step : Event → Option Paths
  | .message => s.message.map fun stage =>
    let (stage', sv, r) := stage.next L ptrMsg s.a s.redis
    s.advance ptrMsg userId { s with a := sv, message := stage', redis := r } stage
  | .accept =>
    if s.idle then some { s with
      b := ⟨{ s.b.server with manager := s.b.server.manager.handleAccept }, none⟩ }
    else none
  | .shakeHandle conn request nowtime =>
    if s.idle ∧ conn < s.b.server.manager.created then
      some { s with b := ⟨s.b.server, some (.shake conn request nowtime .hgetAll)⟩ }
    else none
  | .disconnect conn =>
    if s.idle then some { s with b := ⟨s.b.server, some (.stop conn .erase)⟩ } else none
  | .work => s.b.task.bind fun t => (t.next s.b.server s.redis).map fun (t', sv, r) =>
    { s with b := ⟨sv, t'⟩, redis := r }
  | .unreadMsgRequest conn ptrRequest nowtime =>
    if s.idle ∧ ptrRequest.userId = userId then
      some { s with request := some ⟨conn, ptrRequest, nowtime, .lrange⟩ }
    else none
  | .request => s.request.map fun t =>
    let (stage', sv, r) := t.stage.next order t.conn t.ptrRequest t.nowtime s.b.server s.redis
    s.advanceRequest order ptrMsg userId t.ptrRequest.userId
      { s with
        b := { s.b with server := sv }
        request := stage'.map fun stage => { t with stage := stage }
        redis := r } t.stage
  | .deliver =>
    -- `SubscribeGroupMsg` waits for `m_mutex`
    if s.request.isSome then none
    else match s.inbox with
    | value :: inbox => (subscribeGroupMsg s.b.server value).map fun sv => { s with
        b := { s.b with server := sv }
        inbox := inbox
        live := s.live + copies s.b.server.manager userId (receivers value) }
    | [] => none

/-! ## The condition -/

/-- If `SORT` finds the member, it is on its server, the message is published for it, and no other
member's server has its socket in the same bucket. -/
structure Alone : Prop where
  home : ∀ e ∈ s.vecStr ptrMsg, e.1 = userId → e.2 = s.b.server.strServerSocket
  bucket : userId ∈ (s.vecStr ptrMsg).map Prod.fst → ∀ e ∈ s.vecStr ptrMsg,
    e.2 ≠ s.a.strServerSocket → L.bucket e.2 = L.bucket s.b.server.strServerSocket → e.1 = userId
  fits : ∀ i < L.bucketCount, (ChatMsg.serverGroupMsg
    ⟨(L.elements (remoteMembers s.a (s.vecStr ptrMsg)) i).map Prod.snd,
      (ChatMsg.msgData ptrMsg).serialize⟩).Fits

/-- `SDIFF` finds the member in the set of the group's online members exactly if `SORT` did. The keys
hold sets of C strings, and the member is one. -/
structure SameAnswer : Prop where
  member : userId ∈ s.redis.keys.members (cstr (ascii "groupMember:" ++ ptrMsg.toId))
  nulFree : ∀ m ∈ s.redis.keys.members (cstr (ascii "groupMember:" ++ ptrMsg.toId)), NulFree m
  set : s.redis.keys.SetOrNone (cstr (ascii "onlineGroup:" ++ ptrMsg.toId))
  online : userId ∈ s.redis.keys.members (cstr (ascii "onlineGroup:" ++ ptrMsg.toId)) ↔ s.listed = true

/-- A request has read the counter, and has not reset it yet. -/
def Resets : Prop :=
  ∃ t ∈ s.request, ∃ e ∈ t.stage.toReset, Selected ptrMsg userId t.ptrRequest.userId e

/-- The two questions have the same answer, what is published reaches the member, and what is counted
is not reset before it is read. -/
def Agreed : Event → Prop
  | .message =>
    match s.message with
    | some .sort => s.Alone L ptrMsg userId
    | some .sdiff => s.SameAnswer ptrMsg userId
    | some (.incr (user :: _)) => user = userId → s.counts ptrMsg userId = true ∧
        ¬s.Resets ptrMsg userId
    | _ => True
  | .request =>
    match s.request with
    | some ⟨_, ptrRequest, _, .sort _⟩ => ∀ e ∈ numberData order s.redis ptrRequest.userId,
        Selected ptrMsg userId ptrRequest.userId e →
          e.2 = CRedis.textOf (s.redis.keys (counter ptrMsg userId))
    | _ => True
  | .deliver =>
    match s.inbox with
    | value :: _ => userId ∈ receivers value → reaches s.b.server.manager userId = true
    | [] => True
  | _ => True

end Step

/-! ## What is sent to the member -/

section Listing

variable {L : Layout Bytes Bytes} {ptrMsg : MsgData} {userId : Bytes} {s : Paths}

theorem nulFree_vecStr {e : Bytes × Bytes} (h : e ∈ s.vecStr ptrMsg) : NulFree e.2 := by
  obtain ⟨e', -, rfl⟩ := List.mem_map.1 h
  exact nulFree_cstr _

/-- Each pair in a bucket is that of a member found on another server. -/
theorem mem_vecStr_of_mem_elements {i : ℕ} {e : Bytes × Bytes}
    (h : e ∈ L.elements (remoteMembers s.a (s.vecStr ptrMsg)) i) :
    (e.2, e.1) ∈ s.vecStr ptrMsg ∧ e.1 ≠ s.a.strServerSocket ∧ L.bucket e.1 = i := by
  obtain ⟨socket, user⟩ := e
  obtain ⟨hlookup, hbucket⟩ := mem_elements.1 h
  rcases mem_of_lookup_insertAll hlookup with hmem | hempty
  · obtain ⟨e, he, heq⟩ := List.mem_map.1 hmem
    cases heq
    obtain ⟨hmem, hne⟩ := List.mem_filter.1 he
    exact ⟨hmem, of_decide_eq_true hne, hbucket⟩
  · cases hempty

theorem receivers_serialize {us : List Bytes} {value : Bytes}
    (h : (ChatMsg.serverGroupMsg ⟨us, value⟩).Fits) :
    receivers (ChatMsg.serverGroupMsg ⟨us, value⟩).serialize = us := by
  have hparse : ChatMsg.parse .serverGroupMsg _ = _ := ChatMsg.parse_serialize h
  rw [receivers, hparse]

/-- What is published for a bucket is for its users. -/
theorem receivers_bucketMsg_subset {socket value : Bytes} {bucket : List (Bytes × Bytes)}
    (h : (ChatMsg.serverGroupMsg ⟨bucket.map Prod.snd, value⟩).Fits) :
    (forServer socket (bucketMsg value bucket)).flatMap receivers ⊆ bucket.map Prod.snd := by
  intro user huser
  obtain ⟨content, hcontent, huser⟩ := List.mem_flatMap.1 huser
  obtain ⟨e, he, rfl⟩ := List.mem_map.1 hcontent
  have hmem := (List.mem_filter.1 he).1
  cases bucket with
  | nil => cases hmem
  | cons first rest =>
    obtain rfl := List.mem_singleton.1 hmem
    change user ∈ receivers
      (ChatMsg.serverGroupMsg ⟨(first :: rest).map Prod.snd, value⟩).serialize at huser
    rwa [receivers_serialize h] at huser

theorem receivers_bucketMsg_singleton {socket user value : Bytes} (hnul : NulFree socket)
    (h : (ChatMsg.serverGroupMsg ⟨[user], value⟩).Fits) :
    (forServer socket (bucketMsg value [(socket, user)])).flatMap receivers = [user] := by
  have hchannel : cstr (ascii "groupMsg:" ++ socket) = ascii "groupMsg:" ++ socket :=
    cstr_eq_self (.append (by decide) hnul)
  rw [bucketMsg, hchannel, forServer, List.filter_cons_of_pos (by simp), List.filter_nil]
  simp only [List.map_cons, List.map_nil, List.flatMap_singleton]
  exact receivers_serialize h

namespace Alone

/-- The member is not on the sender's server. -/
theorem not_mem_localMembers (h : s.Alone L ptrMsg userId)
    (hother : s.a.strServerSocket ≠ s.b.server.strServerSocket) :
    userId ∉ localMembers s.a ptrMsg.fromId (s.vecStr ptrMsg) := by
  intro hmem
  obtain ⟨e, he, heq⟩ := List.mem_map.1 hmem
  obtain ⟨he, hlocal⟩ := List.mem_filter.1 he
  exact hother ((of_decide_eq_true hlocal).1.symm.trans (h.home e he heq))

/-- Only a message for the bucket of the member's server is for the member, and only if the member is
found. -/
theorem bucket_of_mem_receivers (h : s.Alone L ptrMsg userId) {socket : Bytes} {i : ℕ}
    (hi : i < L.bucketCount)
    (hmem : userId ∈ (forServer socket (bucketMsg (ChatMsg.msgData ptrMsg).serialize
      (L.elements (remoteMembers s.a (s.vecStr ptrMsg)) i))).flatMap receivers) :
    i = L.bucket s.b.server.strServerSocket ∧ userId ∈ (s.vecStr ptrMsg).map Prod.fst := by
  obtain ⟨e, he, rfl⟩ := List.mem_map.1 (receivers_bucketMsg_subset (h.fits i hi) hmem)
  obtain ⟨hlisted, -, hbucket⟩ := mem_vecStr_of_mem_elements he
  exact ⟨hbucket.symm.trans (congrArg L.bucket (h.home _ hlisted rfl)), List.mem_map_of_mem hlisted⟩

/-- If the member is found, it is alone in that bucket. -/
theorem elements_eq (h : s.Alone L ptrMsg userId)
    (hother : s.a.strServerSocket ≠ s.b.server.strServerSocket) {e : Bytes × Bytes}
    (he : e ∈ s.vecStr ptrMsg) (huser : e.1 = userId) :
    L.elements (remoteMembers s.a (s.vecStr ptrMsg)) (L.bucket s.b.server.strServerSocket) =
      [(s.b.server.strServerSocket, userId)] := by
  have hlisted : userId ∈ (s.vecStr ptrMsg).map Prod.fst := huser ▸ List.mem_map_of_mem he
  have hsocket := h.home e he huser
  have hall : ∀ e' ∈ L.elements (remoteMembers s.a (s.vecStr ptrMsg))
      (L.bucket s.b.server.strServerSocket), e' = (s.b.server.strServerSocket, userId) := by
    intro e' he'
    obtain ⟨hmem, hremote, hbucket⟩ := mem_vecStr_of_mem_elements he'
    have huser' := h.bucket hlisted _ hmem hremote hbucket
    exact Prod.ext (h.home _ hmem huser') huser'
  obtain ⟨v, hv⟩ : ∃ v, (remoteMembers s.a (s.vecStr ptrMsg)).lookup
      s.b.server.strServerSocket = some v := by
    refine lookup_insertAll_isSome (.inl ?_)
    rw [List.map_map, List.mem_map]
    refine ⟨e, List.mem_filter.2 ⟨he, decide_eq_true ?_⟩, hsocket⟩
    rw [hsocket]
    exact hother.symm
  have hmem : (s.b.server.strServerSocket, v) ∈ L.elements
      (remoteMembers s.a (s.vecStr ptrMsg)) (L.bucket s.b.server.strServerSocket) :=
    mem_elements.2 ⟨hv, rfl⟩
  obtain rfl : v = userId := (Prod.mk.inj (hall _ hmem)).2
  exact elements_eq_singleton hmem fun e' he' => by rw [hall e' he']

/-- **What `SORT` leads to**: nothing on the sender's server, and one lookup of the member on its own
server if the member is found. -/
theorem count_eq (h : s.Alone L ptrMsg userId)
    (hother : s.a.strServerSocket ≠ s.b.server.strServerSocket) :
    copies s.a.manager userId (localMembers s.a ptrMsg.fromId (s.vecStr ptrMsg)) = 0 ∧
      ((forServer s.b.server.strServerSocket (remoteMsgs L s.a ptrMsg (s.vecStr ptrMsg))).flatMap
        receivers).count userId = if userId ∈ (s.vecStr ptrMsg).map Prod.fst then 1 else 0 := by
  constructor
  · rw [copies, List.count_eq_zero_of_not_mem (h.not_mem_localMembers hother), ite_self]
  · have hcontents : (forServer s.b.server.strServerSocket
        (remoteMsgs L s.a ptrMsg (s.vecStr ptrMsg))).flatMap receivers =
        (List.range L.bucketCount).flatMap fun i => (forServer s.b.server.strServerSocket
          (bucketMsg (ChatMsg.msgData ptrMsg).serialize
            (L.elements (remoteMembers s.a (s.vecStr ptrMsg)) i))).flatMap receivers := by
      simp only [forServer, remoteMsgs, List.filter_flatMap, List.map_flatMap, List.flatMap_assoc]
    rw [hcontents]
    split
    · next hlisted =>
      obtain ⟨e, he, huser⟩ := List.mem_map.1 hlisted
      have hbuckets : ∀ i < L.bucketCount, i ≠ L.bucket s.b.server.strServerSocket →
          ((forServer s.b.server.strServerSocket (bucketMsg (ChatMsg.msgData ptrMsg).serialize
            (L.elements (remoteMembers s.a (s.vecStr ptrMsg)) i))).flatMap receivers).filter
              (· == userId) = [] := by
        intro i hi hne
        refine List.filter_eq_nil_iff.2 fun user hmem heq => ?_
        obtain rfl := beq_iff_eq.1 heq
        exact hne (h.bucket_of_mem_receivers hi hmem).1
      have hsocket := h.home e he huser
      have hfits := h.fits _ (L.bucket_lt s.b.server.strServerSocket)
      rw [h.elements_eq hother he huser] at hfits
      rw [List.count_eq_length_filter, List.filter_flatMap, flatMap_range (L.bucket_lt _) hbuckets,
        h.elements_eq hother he huser, receivers_bucketMsg_singleton (hsocket ▸ nulFree_vecStr he) hfits]
      simp
    · next hlisted =>
      refine List.count_eq_zero_of_not_mem fun hmem => hlisted ?_
      obtain ⟨i, hi, hmem⟩ := List.mem_flatMap.1 hmem
      exact (h.bucket_of_mem_receivers (List.mem_range.1 hi) hmem).2

end Alone

end Listing

/-- **What `SDIFF` leads to**: one increment for the member if `SORT` did not find it. -/
theorem SameAnswer.count_eq {ptrMsg : MsgData} {userId : Bytes} {s : Paths}
    (h : s.SameAnswer ptrMsg userId) :
    (CRedis.sdiff s.redis (ascii "groupMember:" ++ ptrMsg.toId)
      (ascii "onlineGroup:" ++ ptrMsg.toId)).count userId = if s.listed then 0 else 1 := by
  have hmembers : s.redis.keys.SetOrNone (cstr (ascii "groupMember:" ++ ptrMsg.toId)) := by
    intro v hv
    have hmem := h.member
    rw [Keyspace.members, hv] at hmem
    cases v with
    | set l => exact ⟨l, rfl⟩
    | _ => cases hmem
  have hnodup : (s.redis.keys.members (cstr (ascii "groupMember:" ++ ptrMsg.toId))).Nodup := by
    unfold Keyspace.members
    split
    · next l _ => exact l.nodup
    · exact List.nodup_nil
  have hcstr : ∀ m ∈ (s.redis.keys.members (cstr (ascii "groupMember:" ++ ptrMsg.toId))).filter
      (· ∉ s.redis.keys.members (cstr (ascii "onlineGroup:" ++ ptrMsg.toId))), cstr m = m :=
    fun m hm => cstr_eq_self (h.nulFree m (List.mem_filter.1 hm).1)
  rw [CRedis.sdiff_eq hmembers h.set, List.map_congr_left hcstr, List.map_id']
  split
  · next hlisted =>
    refine List.count_eq_zero_of_not_mem fun hmem => ?_
    exact of_decide_eq_true (List.mem_filter.1 hmem).2 (h.online.2 hlisted)
  · next hlisted =>
    refine List.count_eq_one_of_mem (hnodup.filter _) (List.mem_filter.2 ⟨h.member, ?_⟩)
    exact decide_eq_true fun hmem => hlisted (h.online.1 hmem)

/-! ## The balance -/

section Balance

variable (userId : Bytes) (s : Paths)

/-- What is still to be published. -/
def publishing : Option GroupStage → List (Bytes × Bytes)
  | some (.publish messages) => messages
  | _ => []

/-- How often the member is to be looked up for what is published or still to be published. -/
def onWay : ℕ := ((s.inbox ++ forServer s.b.server.strServerSocket (publishing s.message)).flatMap
  receivers).count userId

/-- How often the member is still to be counted, if it was not found; before `SORT`, that the message is
still to take one of the paths. -/
def due (listed : Bool) : Option GroupStage → ℕ
  | some .sort => 1
  | some (.incr vecRes) => vecRes.count userId
  | some _ => if listed then 0 else 1
  | none => 0

/-- The message is on one path. -/
structure Inv (ptrMsg : MsgData) : Prop where
  other : s.a.strServerSocket ≠ s.b.server.strServerSocket
  one : s.live + s.onWay userId + s.counted + s.taken + due userId s.listed s.message = 1
  reset : s.Resets ptrMsg userId → s.counted = 0

end Balance

variable {order : Keyspace.NumericOrder} {L : Layout Bytes Bytes} {ptrMsg : MsgData} {userId : Bytes}
  {s s' : Paths}

/-- A step that has nothing to do with the message. -/
theorem Inv.congr (hs : s.Inv userId ptrMsg) (ha : s'.a.strServerSocket = s.a.strServerSocket)
    (hb : s'.b.server.strServerSocket = s.b.server.strServerSocket) (hmessage : s'.message = s.message)
    (hinbox : s'.inbox = s.inbox) (hlisted : s'.listed = s.listed)
    (hsum : s'.live + s'.counted + s'.taken = s.live + s.counted + s.taken)
    (hreset : s'.Resets ptrMsg userId → s'.counted = 0) : s'.Inv userId ptrMsg := by
  have honWay : s'.onWay userId = s.onWay userId := by rw [onWay, onWay, hb, hinbox, hmessage]
  have hone := hs.one
  refine ⟨?_, ?_, hreset⟩
  · rw [ha, hb]
    exact hs.other
  · rw [honWay, hmessage, hlisted]
    omega

/-- `SORT` has found the member: on its server, or on the other one, for which the message is published. -/
theorem Inv.one_sort (hs : s.Inv userId ptrMsg) (hstage : s.message = some .sort)
    (hok : s.Agreed order L ptrMsg userId .message) :
    s.live + copies s.a.manager userId (localMembers s.a ptrMsg.fromId (s.vecStr ptrMsg)) +
      ((s.inbox ++ forServer s.b.server.strServerSocket
        (remoteMsgs L s.a ptrMsg (s.vecStr ptrMsg))).flatMap receivers).count userId +
      s.counted + s.taken + (if decide (userId ∈ (s.vecStr ptrMsg).map Prod.fst) then 0 else 1) = 1 := by
  have hone := hs.one
  simp only [Agreed, hstage] at hok
  obtain ⟨hlocal, hremote⟩ := hok.count_eq hs.other
  have hnone : ((forServer s.b.server.strServerSocket (publishing (some .sort))).flatMap
      receivers).count userId = 0 := rfl
  rw [onWay, hstage, List.flatMap_append, List.count_append, hnone, due] at hone
  rw [hlocal, List.flatMap_append, List.count_append, hremote]
  by_cases hlisted : userId ∈ (s.vecStr ptrMsg).map Prod.fst
  · rw [if_pos hlisted, if_pos (decide_eq_true hlisted)]
    omega
  · rw [if_neg hlisted, if_neg (by simpa using hlisted)]
    omega

/-- A counter has been increased: the member's own, or another. -/
theorem Inv.one_incr (hs : s.Inv userId ptrMsg) {user : Bytes} {vecRes : List Bytes}
    (hstage : s.message = some (.incr (user :: vecRes)))
    (hok : s.Agreed order L ptrMsg userId .message) :
    (s.live + s.onWay userId + (s.counted + if user = userId ∧ s.counts ptrMsg userId then 1 else 0) +
      s.taken + vecRes.count userId = 1) ∧
    (s.Resets ptrMsg userId →
      (s.counted + if user = userId ∧ s.counts ptrMsg userId then 1 else 0) = 0) := by
  have hone := hs.one
  simp only [Agreed, hstage] at hok
  rw [hstage, due, List.count_cons] at hone
  by_cases huser : user = userId
  · obtain ⟨hcounts, hreset⟩ := hok huser
    rw [if_pos (beq_iff_eq.2 huser)] at hone
    rw [if_pos ⟨huser, hcounts⟩]
    exact ⟨by omega, fun h => absurd h hreset⟩
  · rw [if_neg fun h => huser (beq_iff_eq.1 h)] at hone
    rw [if_neg fun h => huser h.1]
    exact ⟨hone, hs.reset⟩

/-- A step of the message. -/
theorem Inv.message (hs : s.Inv userId ptrMsg) {stage : GroupStage} (hstage : s.message = some stage)
    (hok : s.Agreed order L ptrMsg userId .message) :
    (s.advance ptrMsg userId { s with
      a := (stage.next L ptrMsg s.a s.redis).2.1
      message := (stage.next L ptrMsg s.a s.redis).1
      redis := (stage.next L ptrMsg s.a s.redis).2.2 } stage).Inv userId ptrMsg := by
  have hone := hs.one
  rw [onWay, hstage] at hone
  cases stage with
  | sort => exact ⟨hs.other, hs.one_sort hstage hok, hs.reset⟩
  | publish messages =>
    cases messages with
    | nil => exact ⟨hs.other, hone, hs.reset⟩
    | cons e messages =>
      refine ⟨hs.other, ?_, hs.reset⟩
      have hsplit : forServer s.b.server.strServerSocket (publishing (some (.publish (e :: messages)))) =
          forServer s.b.server.strServerSocket [e] ++ forServer s.b.server.strServerSocket messages := by
        rw [publishing, forServer, forServer, forServer, ← List.map_append, ← List.filter_append,
          List.singleton_append]
      rw [hsplit, ← List.append_assoc] at hone
      exact hone
  | lpush =>
    refine ⟨hs.other, ?_, hs.reset⟩
    by_cases hlen : (CRedis.lpush s.redis (ascii "groupMsg:" ++ ptrMsg.toId)
        (ChatMsg.msgData ptrMsg).serialize).1 > 99
    · simp only [advance, GroupStage.next, if_pos hlen]
      exact hone
    · simp only [advance, GroupStage.next, if_neg hlen]
      exact hone
  | ltrim => exact ⟨hs.other, hone, hs.reset⟩
  | sdiff =>
    simp only [Agreed, hstage] at hok
    refine ⟨hs.other, ?_, hs.reset⟩
    simp only [advance, GroupStage.next, due, hok.count_eq]
    exact hone
  | incr vecRes =>
    cases vecRes with
    | nil => exact ⟨hs.other, hone, hs.reset⟩
    | cons user vecRes =>
      obtain ⟨hone, hreset⟩ := hs.one_incr hstage hok
      rw [onWay, hstage] at hone
      exact ⟨hs.other, hone, hreset⟩

/-! ## The other server -/

theorem next_socket (order : Keyspace.NumericOrder) (t : UnreadTask) (sv : Server) (r : Redis) :
    (t.stage.next order t.conn t.ptrRequest t.nowtime sv r).2.1.strServerSocket = sv.strServerSocket := by
  obtain ⟨conn, ptrRequest, nowtime, stage⟩ := t
  cases stage with
  | pipeline msgData numberData commands replies => cases commands <;> rfl
  | set msgData numberData =>
    cases numberData with
    | nil =>
      simp only [UnreadStage.next]
      split <;> rfl
    | cons e numberData => rfl
  | _ => rfl

/-- A request has something to reset if its stage says so. -/
theorem resets_iff {t : UnreadTask} (h : s.request = some t) : s.Resets ptrMsg userId ↔
    ∃ e ∈ t.stage.toReset, Selected ptrMsg userId t.ptrRequest.userId e := by
  unfold Resets
  rw [h]
  exact ⟨fun ⟨_, heq, hsel⟩ => Option.some.inj heq ▸ hsel, fun hsel => ⟨t, rfl, hsel⟩⟩

theorem not_resets (h : s.request = none) : ¬s.Resets ptrMsg userId := by
  rintro ⟨t, ht, -⟩
  rw [h] at ht
  cases ht

/-- A step of the request. -/
theorem Inv.request (hs : s.Inv userId ptrMsg) {t : UnreadTask} (ht : s.request = some t)
    (hok : s.Agreed order L ptrMsg userId .request) :
    (s.advanceRequest order ptrMsg userId t.ptrRequest.userId
      { s with
        b := { s.b with
          server := (t.stage.next order t.conn t.ptrRequest t.nowtime s.b.server s.redis).2.1 }
        request := (t.stage.next order t.conn t.ptrRequest t.nowtime s.b.server s.redis).1.map
          fun stage => { t with stage := stage }
        redis := (t.stage.next order t.conn t.ptrRequest t.nowtime s.b.server s.redis).2.2 }
      t.stage).Inv userId ptrMsg := by
  have hsocket := next_socket order t s.b.server s.redis
  obtain ⟨conn, ptrRequest, nowtime, stage⟩ := t
  simp only [Agreed, ht] at hok
  have hreset := hs.reset
  rw [resets_iff ht] at hreset
  cases stage with
  | lrange =>
    refine hs.congr rfl rfl rfl rfl rfl rfl fun h => ?_
    obtain ⟨e, he, -⟩ := (resets_iff rfl).1 h
    cases he
  | del msgData =>
    refine hs.congr rfl rfl rfl rfl rfl rfl fun h => ?_
    obtain ⟨e, he, -⟩ := (resets_iff rfl).1 h
    cases he
  | sort msgData =>
    by_cases hreads : s.Reads order ptrMsg userId ptrRequest.userId
    · simp only [advanceRequest, if_pos hreads]
      refine hs.congr rfl hsocket rfl rfl rfl ?_ fun _ => rfl
      change s.live + 0 + (s.taken + s.counted) = s.live + s.counted + s.taken
      omega
    · simp only [advanceRequest, if_neg hreads]
      refine hs.congr rfl hsocket rfl rfl rfl rfl fun h => ?_
      -- a counter that is to be reset has been read
      obtain ⟨e, he, hsel⟩ := (resets_iff rfl).1 h
      exact absurd ⟨e, he, hsel, hok e he hsel⟩ hreads
  | pipeline msgData numberData commands replies =>
    cases commands with
    | nil =>
      refine hs.congr rfl hsocket rfl rfl rfl rfl fun h => ?_
      obtain ⟨e, he, hsel⟩ := (resets_iff rfl).1 h
      exact hreset ⟨e, he, hsel⟩
    | cons c commands =>
      refine hs.congr rfl hsocket rfl rfl rfl rfl fun h => ?_
      obtain ⟨e, he, hsel⟩ := (resets_iff rfl).1 h
      exact hreset ⟨e, he, hsel⟩
  | set msgData numberData =>
    cases numberData with
    | nil => exact hs.congr rfl hsocket rfl rfl rfl rfl fun h => absurd h (not_resets rfl)
    | cons e numberData =>
      by_cases hsel : Selected ptrMsg userId ptrRequest.userId e
      · have hcounted : s.counted = 0 := hreset ⟨e, List.mem_cons_self, hsel⟩
        simp only [advanceRequest, if_pos hsel]
        refine hs.congr rfl hsocket rfl rfl rfl ?_ fun _ => rfl
        rw [hcounted]
      · simp only [advanceRequest, if_neg hsel]
        refine hs.congr rfl hsocket rfl rfl rfl rfl fun h => ?_
        obtain ⟨e', he', hsel'⟩ := (resets_iff rfl).1 h
        exact hreset ⟨e', List.mem_cons_of_mem _ he', hsel'⟩

theorem copies_eq {c : ConnectionManager} {us : List Bytes}
    (h : userId ∈ us → reaches c userId = true) : copies c userId us = us.count userId := by
  rw [copies]
  split
  · rfl
  · next hnot => exact (List.count_eq_zero_of_not_mem fun hmem => hnot (h hmem)).symm

theorem subscribeGroupMsg_socket {sv sv' : Server} {value : Bytes}
    (h : subscribeGroupMsg sv value = some sv') : sv'.strServerSocket = sv.strServerSocket := by
  unfold subscribeGroupMsg at h
  split at h
  · split at h
    · cases h
      rfl
    · cases h
  · cases h

/-- A published message comes in. -/
theorem Inv.deliver (hs : s.Inv userId ptrMsg) {value : Bytes} {inbox : List Bytes} {sv : Server}
    (hinbox : s.inbox = value :: inbox) (hsv : subscribeGroupMsg s.b.server value = some sv)
    (hreaches : userId ∈ receivers value → reaches s.b.server.manager userId = true) :
    Inv userId { s with
      b := { s.b with server := sv }
      inbox := inbox
      live := s.live + copies s.b.server.manager userId (receivers value) } ptrMsg := by
  have hsocket := subscribeGroupMsg_socket hsv
  have hone := hs.one
  rw [onWay, hinbox, List.cons_append, List.flatMap_cons, List.count_append] at hone
  refine ⟨?_, ?_, hs.reset⟩
  · change s.a.strServerSocket ≠ sv.strServerSocket
    rw [hsocket]
    exact hs.other
  · change s.live + copies s.b.server.manager userId (receivers value) +
      ((inbox ++ forServer sv.strServerSocket (publishing s.message)).flatMap receivers).count userId +
        s.counted + s.taken + due userId s.listed s.message = 1
    rw [hsocket, copies_eq hreaches]
    omega

/-- **A step keeps the message on one path.** -/
theorem Inv.step (hs : s.Inv userId ptrMsg) {e : Event} (hok : s.Agreed order L ptrMsg userId e)
    (h : s.step order L ptrMsg userId e = some s') : s'.Inv userId ptrMsg := by
  cases e with
  | message =>
    obtain ⟨stage, hstage, rfl⟩ := Option.map_eq_some_iff.1 h
    exact hs.message hstage hok
  | accept =>
    simp only [Paths.step] at h
    split at h
    · cases h
      exact hs.congr rfl rfl rfl rfl rfl rfl hs.reset
    · cases h
  | shakeHandle conn request nowtime =>
    simp only [Paths.step] at h
    split at h
    · cases h
      exact hs.congr rfl rfl rfl rfl rfl rfl hs.reset
    · cases h
  | disconnect conn =>
    simp only [Paths.step] at h
    split at h
    · cases h
      exact hs.congr rfl rfl rfl rfl rfl rfl hs.reset
    · cases h
  | work =>
    obtain ⟨t, -, h⟩ := Option.bind_eq_some_iff.1 h
    obtain ⟨⟨t', sv, r⟩, hnext, rfl⟩ := Option.map_eq_some_iff.1 h
    exact hs.congr rfl (Task.effect hnext).socket rfl rfl rfl rfl hs.reset
  | unreadMsgRequest conn ptrRequest nowtime =>
    simp only [Paths.step] at h
    split at h
    · cases h
      refine hs.congr rfl rfl rfl rfl rfl rfl fun hresets => ?_
      obtain ⟨e, he, -⟩ := (resets_iff rfl).1 hresets
      cases he
    · cases h
  | request =>
    obtain ⟨t, ht, rfl⟩ := Option.map_eq_some_iff.1 h
    exact hs.request ht hok
  | deliver =>
    simp only [Paths.step] at h
    split at h
    · cases h
    · split at h
      · next value inbox hinbox =>
        obtain ⟨sv, hsv, rfl⟩ := Option.map_eq_some_iff.1 h
        simp only [Agreed, hinbox] at hok
        exact hs.deliver hinbox hsv hok
      · cases h

/-- Before `SORT` the message is still to take one of the paths. -/
theorem inv_start {a b : Server} {r : Redis} (h : a.strServerSocket ≠ b.strServerSocket) :
    (start a b r).Inv userId ptrMsg :=
  ⟨h, rfl, fun hresets => absurd hresets (not_resets rfl)⟩

/-- **One path for each member**: in a run under the condition the member never has a message of the
group both live and counted, nor twice, and has it once when it has been handled and what was published
has come in. -/
theorem one_path_of_run {a b : Server} {r : Redis} {es : List Event}
    (h : a.strServerSocket ≠ b.strServerSocket)
    (hrun : Run (step order L ptrMsg userId) (Agreed order L ptrMsg userId) (start a b r) es s) :
    s.live + s.counted + s.taken ≤ 1 ∧
      (s.message = none → s.inbox = [] → s.live + s.counted + s.taken = 1) := by
  have hs : s.Inv userId ptrMsg := hrun.invariant (I := fun s => s.Inv userId ptrMsg)
    (fun _ _ _ hs hok hstep => hs.step hok hstep) (inv_start h)
  have hone := hs.one
  refine ⟨by omega, fun hmessage hinbox => ?_⟩
  rw [onWay, hmessage, hinbox] at hone
  change s.live + 0 + s.counted + s.taken + 0 = 1 at hone
  omega

/-! ## A member who comes online -/

open GroupLog (decimalOrder toGroup)

instance : Decidable (s.Alone L ptrMsg userId) :=
  decidable_of_iff (_ ∧ _ ∧ _) ⟨fun ⟨h, h₂, h₃⟩ => ⟨h, h₂, h₃⟩, fun h => ⟨h.home, h.bucket, h.fits⟩⟩

instance : Decidable (s.SameAnswer ptrMsg userId) :=
  decidable_of_iff (_ ∧ _ ∧ _ ∧ _)
    ⟨fun ⟨h, h₂, h₃, h₄⟩ => ⟨h, h₂, h₃, h₄⟩, fun h => ⟨h.member, h.nulFree, h.set, h.online⟩⟩

instance : Decidable (s.Resets ptrMsg userId) :=
  inferInstanceAs (Decidable (∃ t ∈ s.request, ∃ e ∈ t.stage.toReset, _))

instance (e : Event) : Decidable (s.Agreed order L ptrMsg userId e) := by
  unfold Agreed
  split
  · split <;> infer_instance
  · split <;> infer_instance
  · split <;> infer_instance
  · infer_instance

/-- `v` is online, `u` has logged in but is not online; both are in the group `7`. -/
def beforeShake : Redis where
  keys k :=
    if k = ascii "loginMap:u" then
      some (.hash ((∅ : AList _).insert (ascii "sessionid") (ascii "1")))
    else if k = ascii "groupSet:u" then some (.set (.singleton (ascii "7")))
    else if k = ascii "groupMember:7" then some (.set ⟨[ascii "u", ascii "v"], by decide⟩)
    else if k = ascii "onlineGroup:7" then some (.set (.singleton (ascii "v")))
    else if k = ascii "online:v" then some (.str (ascii "h:1"))
    else none
  published := []

/-- A message from `v` has come in, and `u` is about to connect to another server. -/
def connecting : Paths := start (hostOf (ascii "h:1") [ascii "v"]) (.start (ascii "h:2")) beforeShake

/-- `u` comes online. -/
def shaking : List Event :=
  [.accept, .shakeHandle 0 ⟨0, ascii "u"⟩ 0, .work, .work, .work, .work, .work, .work, .work, .work]

/-- `u` asks for what it has missed. -/
def asking : List Event :=
  [.unreadMsgRequest 0 ⟨ascii "u", 0⟩ 0, .request, .request, .request, .request, .request, .request,
    .request]

/-- The message is handled while `u` comes online, and `u` asks for it. -/
def handled (before after : ℕ) : List Event :=
  List.replicate before .message ++ shaking ++ List.replicate after .message ++ asking

/-- `u` comes online after `SDIFF`: the message is counted, and `u` gets it when it asks. -/
theorem one_path_counted : ∃ s,
    Run (step decimalOrder eightBuckets (toGroup "1") (ascii "u"))
      (Agreed decimalOrder eightBuckets (toGroup "1") (ascii "u")) connecting (handled 4 2) s ∧
    s.message = none ∧ s.inbox = [] ∧ s.taken = 1 ∧ s.live + s.counted + s.taken ≤ 1 := by
  have hany : (exec (step decimalOrder eightBuckets (toGroup "1") (ascii "u"))
      (Agreed decimalOrder eightBuckets (toGroup "1") (ascii "u")) connecting (handled 4 2)).any
        (fun s => s.message.isNone ∧ s.inbox = [] ∧ s.taken = 1) = true := by decide +kernel
  obtain ⟨s, hrun, hmessage, hinbox, htaken⟩ := Run.exists_of_exec hany
  exact ⟨s, hrun, Option.isNone_iff_eq_none.1 hmessage, hinbox, htaken,
    (one_path_of_run (by decide) hrun).1⟩

/-- **No path**: `u` comes online between `SORT` and `SDIFF`. The message is not sent to `u` and not
counted, and `u` does not get it when it asks. -/
theorem no_path : ∃ s,
    Run (step decimalOrder eightBuckets (toGroup "1") (ascii "u")) (fun _ _ => True) connecting
      (handled 1 4) s ∧
    s.message = none ∧ s.inbox = [] ∧ s.live + s.counted + s.taken = 0 ∧
    CRedis.get s.redis (unreadNumber (ascii "u") (ascii "7")) = ascii "0" ∧
    (s.b.server.manager.sessions 0).sent = [.shakeHandleRes ⟨0, 0⟩] := by
  have hany : (exec (step decimalOrder eightBuckets (toGroup "1") (ascii "u")) (fun _ _ => True)
      connecting (handled 1 4)).any (fun s => s.message.isNone ∧ s.inbox = [] ∧
        s.live + s.counted + s.taken = 0 ∧
        CRedis.get s.redis (unreadNumber (ascii "u") (ascii "7")) = ascii "0" ∧
        (s.b.server.manager.sessions 0).sent = [.shakeHandleRes ⟨0, 0⟩]) = true := by decide +kernel
  obtain ⟨s, hrun, hmessage, hrest⟩ := Run.exists_of_exec hany
  exact ⟨s, hrun, Option.isNone_iff_eq_none.1 hmessage, hrest⟩

end Paths

end MutexIM.Routing
