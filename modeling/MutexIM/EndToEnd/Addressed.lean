import Mathlib.Algebra.BigOperators.Ring.Finset
import Mathlib.Data.Fintype.BigOperators
import MutexIM.EndToEnd.Backend
import MutexIM.Routing.GroupPaths

/-!
# What the servers send to a client

A message server knows the user of a connection from the handshake only, and it does not compare the sender
of a chat message with it. All that it sends to a client goes back to what has come in: on the client's own
connection, or from some client.

* `Addressed`: what may be sent to a client, by what has come in from the clients.
* `Sound` is the invariant of the servers; `Sound.input` and `Sound.receive`: every step keeps it.
-/

namespace MutexIM.EndToEnd

open Bytes Codec MessageServer Routing

variable {ι : Type} {n : ℕ}

/-! ## What has come in -/

/-- What happened: the states of Redis that commands have seen, the chat messages of other programs, and the
messages that have come in from clients. -/
structure History (n : ℕ) where
  past : List Redis
  foreign : List MsgData
  got : List (Option (Fin n) × IMMsg)

/-- More has happened. -/
structure History.Le (H H' : History n) : Prop where
  past : H.past ⊆ H'.past
  foreign : H.foreign ⊆ H'.foreign
  got : H.got ⊆ H'.got

/-- The chat messages among some messages. -/
def chats (ms : List IMMsg) : List MsgData := ms.filterMap IMMsg.msgData?

/-- The chat messages that have come in. -/
def History.chats (H : History n) : List MsgData := EndToEnd.chats (H.got.map Prod.snd)

section Predicates

variable (H : History n)

/-- The client has named the user in a handshake. -/
def Shaken (k : Fin n) (userId : Bytes) : Prop :=
  ∃ t, (some k, (⟨.chat .shakeHandleReq, (⟨t, userId⟩ : ShakeHandleReq)⟩ : IMMsg)) ∈ H.got

/-- Redis has had the user among the members of the group that are online. -/
def Online (groupId userId : Bytes) : Prop :=
  ∃ r ∈ H.past, userId ∈ (CRedis.sortMultiSocket r (ascii "onlineGroup:" ++ groupId)).map Prod.fst

/-- The entry was made of the hash of a member of the set. -/
def ReadFrom {α : Type} (setName keyName : Bytes) (setField : α → Bytes → Bytes → α) (new d : α) : Prop :=
  ∃ r ∈ H.past, ∃ x ∈ CRedis.smembers r setName, ∃ r' ∈ H.past,
    entryOf setField new (CRedis.hgetallReply r' (keyName ++ x)) = some d

/-- An entry for a friend of the user, and for a group. -/
def FriendOf (userId : Bytes) (d : UserData) : Prop :=
  ReadFrom H (ascii "friendsSet:" ++ userId) (ascii "user:") UserData.setField {} d

def GroupOf (userId : Bytes) (d : GroupInfo) : Prop :=
  ReadFrom H (ascii "groupSet:" ++ userId) (ascii "group:") GroupInfo.setField {} d

/-- The members are the rows of one reply about the group, in which Redis has found nothing undefined. -/
def MembersOf (order : Keyspace.NumericOrder) (groupId : Bytes) (members : List GroupMemberInfo) : Prop :=
  ∃ r ∈ H.past, (Reply.rows (CRedis.sortGets r order (ascii "groupMember:" ++ groupId)
    memberPatterns).elements).mapM memberInfo = some members

/-- The message may be sent to the client: it is for the client's user, or for a group of which the user is
a member online. -/
def MayGet (k : Fin n) (m : MsgData) : Prop :=
  PeerMsg m ∧ Shaken H k m.toId ∨ GroupMsg m ∧ ∃ u, Shaken H k u ∧ Online H m.toId u

/-- What is sent to a client: chat messages of other programs, those that have come in and that it may get,
and answers to what has come in from it. -/
def Addressed (order : Keyspace.NumericOrder) (k : Fin n) : IMMsg → Prop
  | ⟨.chat .shakeHandleRes, _⟩ => True
  | ⟨.chat .msgData, (m : MsgData)⟩ => m ∈ H.foreign ∨ m ∈ H.chats ∧ MayGet H k m
  | ⟨.chat .unreadMsgResponse, (m : UnreadMsgResponse)⟩ => ∃ t,
    (some k, (⟨.chat .unreadMsgRequest, (⟨m.userId, t⟩ : UnreadMsgRequest)⟩ : IMMsg)) ∈ H.got
  | ⟨.peerAllUserInfoResponse, (m : PeerAllUserInfoResponse)⟩ => (∃ t,
    (some k, (⟨.peerAllUserInfoRequest, (⟨t, m.userId⟩ : PeerAllUserInfoRequest)⟩ : IMMsg)) ∈ H.got) ∧
      ∀ d ∈ m.msgData, FriendOf H m.userId d
  | ⟨.groupAllResponse, (m : GroupAllResponse)⟩ => (∃ t,
    (some k, (⟨.groupAllRequest, (⟨t, m.userId⟩ : GroupAllRequest)⟩ : IMMsg)) ∈ H.got) ∧
      ∀ d ∈ m.msgData, GroupOf H m.userId d
  | ⟨.groupMemberResponse, (m : GroupMemberResponse)⟩ => (∃ t,
    (some k, (⟨.groupMembeRequest, (⟨t, m.groupId, m.userId⟩ : GroupMembeRequest)⟩ : IMMsg)) ∈ H.got) ∧
      MembersOf H order m.groupId m.msgData
  | _ => False

/-- What is published on the channels of chat messages comes from other programs, or has come in; a message
for a group goes to members online. -/
structure Genuine (e : Bytes × Bytes) : Prop where
  peer : ascii "peerMsg:" <+: e.1 → ∀ m ∈ received e.2, m ∈ H.foreign ∨ PeerMsg m ∧ m ∈ H.chats
  group : ascii "groupMsg:" <+: e.1 → ∀ m ∈ receivedGroup e.2, m ∈ H.foreign ∨
    GroupMsg m ∧ m ∈ H.chats ∧ ∀ u ∈ receivers e.2, Online H m.toId u

/-- A message for the members on another server. -/
structure ForMembers (m : MsgData) (e : Bytes × Bytes) : Prop where
  channel : ascii "groupMsg:" <+: e.1
  content : ∃ userIds, e.2 = (ChatMsg.serverGroupMsg ⟨userIds, (ChatMsg.msgData m).serialize⟩).serialize ∧
    (ChatMsg.serverGroupMsg ⟨userIds, (ChatMsg.msgData m).serialize⟩).Fits ∧
      ∀ u ∈ userIds, Online H m.toId u

/-- The message has come in on the connection, if a client has it. -/
def CameIn (S : Setting ι n) (i : ι) (conn : ℕ) (m : IMMsg) : Prop :=
  ∀ k, S.home k = (i, conn) → (some k, m) ∈ H.got

/-- What is left of a handler of a list: the entries so far, and the ids that come from the set. -/
def StageSound {α : Type} (setName keyName : Bytes) (setField : α → Bytes → Bytes → α) (new : α) :
    ListStage α → Prop
  | .smembers => True
  | .hgetall _ left msgData => (∃ r ∈ H.past, left ⊆ CRedis.smembers r setName) ∧
      ∀ d ∈ msgData, ReadFrom H setName keyName setField new d

/-- A handler is about a message that has come in. -/
def JobSound (S : Setting ι n) (i : ι) : Job → Prop
  | .task (.peer m _) => PeerMsg m ∧ m ∈ H.chats
  | .task (.shake conn request _ _) => CameIn H S i conn ⟨.chat .shakeHandleReq, request⟩
  | .task (.stop ..) => True
  | .group m stage => GroupMsg m ∧ m ∈ H.chats ∧
      ∀ messages, stage = .publish messages → ∀ e ∈ messages, ForMembers H m e
  | .unread t => CameIn H S i t.conn ⟨.chat .unreadMsgRequest, t.ptrRequest⟩
  | .users conn ptrRequest _ stage => CameIn H S i conn ⟨.peerAllUserInfoRequest, ptrRequest⟩ ∧
      StageSound H (ascii "friendsSet:" ++ ptrRequest.userId) (ascii "user:") UserData.setField {} stage
  | .groups conn ptrRequest _ stage => CameIn H S i conn ⟨.groupAllRequest, ptrRequest⟩ ∧
      StageSound H (ascii "groupSet:" ++ ptrRequest.userId) (ascii "group:") GroupInfo.setField {} stage
  | .members conn ptrRequest _ => CameIn H S i conn ⟨.groupMembeRequest, ptrRequest⟩

end Predicates

/-! ## More has happened -/

section Mono

variable {H H' : History n} {S : Setting ι n} {i : ι} {k : Fin n}

theorem History.Le.chats (h : H.Le H') : H.chats ⊆ H'.chats :=
  List.filterMap_subset _ (List.map_subset _ h.got)

theorem Shaken.mono {userId : Bytes} (h : H.Le H') (hshaken : Shaken H k userId) : Shaken H' k userId :=
  hshaken.imp fun _ hmem => h.got hmem

theorem Online.mono {groupId userId : Bytes} (h : H.Le H') (honline : Online H groupId userId) :
    Online H' groupId userId := honline.imp fun _ hr => hr.imp_left fun hmem => h.past hmem

theorem ReadFrom.mono {α : Type} {setName keyName : Bytes} {setField : α → Bytes → Bytes → α} {new d : α}
    (h : H.Le H') (hread : ReadFrom H setName keyName setField new d) :
    ReadFrom H' setName keyName setField new d := by
  obtain ⟨r, hr, x, hx, r', hr', hentry⟩ := hread
  exact ⟨r, h.past hr, x, hx, r', h.past hr', hentry⟩

theorem MayGet.mono {m : MsgData} (h : H.Le H') (hmay : MayGet H k m) : MayGet H' k m :=
  hmay.imp (fun ⟨hpeer, hshaken⟩ => ⟨hpeer, hshaken.mono h⟩) fun ⟨hgroup, u, hshaken, honline⟩ =>
    ⟨hgroup, u, hshaken.mono h, honline.mono h⟩

theorem Addressed.mono {order : Keyspace.NumericOrder} {m : IMMsg} (h : H.Le H')
    (haddressed : Addressed H order k m) : Addressed H' order k m := by
  unfold Addressed at haddressed ⊢
  split at haddressed
  · trivial
  · exact haddressed.imp (fun hm => h.foreign hm) fun ⟨hm, hmay⟩ => ⟨h.chats hm, hmay.mono h⟩
  · exact haddressed.imp fun _ hmem => h.got hmem
  · exact ⟨haddressed.1.imp fun _ hmem => h.got hmem, fun d hd => (haddressed.2 d hd).mono h⟩
  · exact ⟨haddressed.1.imp fun _ hmem => h.got hmem, fun d hd => (haddressed.2 d hd).mono h⟩
  · exact ⟨haddressed.1.imp fun _ hmem => h.got hmem,
      haddressed.2.imp fun _ hr => hr.imp_left fun hmem => h.past hmem⟩
  · exact haddressed.elim

theorem Genuine.mono {e : Bytes × Bytes} (h : H.Le H') (hgenuine : Genuine H e) : Genuine H' e where
  peer hchannel m hm := (hgenuine.peer hchannel m hm).imp (fun hm => h.foreign hm)
    fun hm => hm.imp_right fun hm => h.chats hm
  group hchannel m hm := (hgenuine.group hchannel m hm).imp (fun hm => h.foreign hm)
    fun ⟨hgroup, hm, honline⟩ => ⟨hgroup, h.chats hm, fun u hu => (honline u hu).mono h⟩

theorem ForMembers.mono {m : MsgData} {e : Bytes × Bytes} (h : H.Le H') (hmembers : ForMembers H m e) :
    ForMembers H' m e where
  channel := hmembers.channel
  content := hmembers.content.imp fun _ ⟨heq, hfits, honline⟩ =>
    ⟨heq, hfits, fun u hu => (honline u hu).mono h⟩

theorem CameIn.mono {conn : ℕ} {m : IMMsg} (h : H.Le H') (hm : CameIn H S i conn m) :
    CameIn H' S i conn m := fun k hk => h.got (hm k hk)

theorem StageSound.mono {α : Type} {setName keyName : Bytes} {setField : α → Bytes → Bytes → α} {new : α}
    {stage : ListStage α} (h : H.Le H') (hstage : StageSound H setName keyName setField new stage) :
    StageSound H' setName keyName setField new stage := by
  cases stage with
  | smembers => trivial
  | hgetall ids left msgData =>
    exact ⟨hstage.1.imp fun _ hr => hr.imp_left fun hmem => h.past hmem, fun d hd => (hstage.2 d hd).mono h⟩

theorem JobSound.mono {t : Job} (h : H.Le H') (ht : JobSound H S i t) : JobSound H' S i t := by
  unfold JobSound at ht ⊢
  split at ht
  · exact ht.imp_right fun hm => h.chats hm
  · exact ht.mono h
  · trivial
  · exact ⟨ht.1, h.chats ht.2.1, fun messages hstage e he => (ht.2.2 messages hstage e he).mono h⟩
  · exact ht.mono h
  · exact ⟨ht.1.mono h, ht.2.mono h⟩
  · exact ⟨ht.1.mono h, ht.2.mono h⟩
  · exact ht.mono h

end Mono

/-! ## Handlers -/

section Handlers

variable {H : History n} {S : Setting ι n} {i : ι} {k : Fin n} {L : Layout Bytes Bytes}
  {order : Keyspace.NumericOrder} {sv sv' : Server} {r r' : Redis} {t : Job} {t' : Option Job}
  {answers : List (ℕ × IMMsg)}

theorem History.mem_chats {m : MsgData} (h : (some k, (⟨.chat .msgData, m⟩ : IMMsg)) ∈ H.got) : m ∈ H.chats :=
  List.mem_filterMap.2 ⟨_, List.mem_map_of_mem h, rfl⟩

/-- A message on the connection of a client has come in from it. -/
theorem cameIn_of_mem {conn : ℕ} {m : IMMsg} (hk : S.home k = (i, conn)) (hm : (some k, m) ∈ H.got) :
    CameIn H S i conn m := by
  intro j hj
  obtain rfl := S.home_injective (hj.trans hk.symm)
  exact hm

/-- The handler of a message that has come in. -/
theorem jobSound_forMessage {conn : ℕ} {nowtime : UInt64} {m : IMMsg} (hk : S.home k = (i, conn))
    (hm : (some k, m) ∈ H.got) (h : Job.forMessage conn nowtime m = some t) : JobSound H S i t := by
  unfold Job.forMessage at h
  split at h
  · obtain rfl := Option.some.inj h
    exact cameIn_of_mem hk hm
  · split at h
    · next hpeer =>
      obtain rfl := Option.some.inj h
      exact ⟨hpeer, H.mem_chats hm⟩
    · split at h
      · next hgroup =>
        obtain rfl := Option.some.inj h
        exact ⟨hgroup, H.mem_chats hm, fun messages hstage => by cases hstage⟩
      · cases h
  · obtain rfl := Option.some.inj h
    exact cameIn_of_mem hk hm
  · obtain rfl := Option.some.inj h
    exact ⟨cameIn_of_mem hk hm, trivial⟩
  · obtain rfl := Option.some.inj h
    exact ⟨cameIn_of_mem hk hm, trivial⟩
  · obtain rfl := Option.some.inj h
    exact cameIn_of_mem hk hm
  · cases h

/-- A handler of a list goes on with what it has read. -/
theorem StageSound.next {α : Type} {setName keyName : Bytes} {setField : α → Bytes → Bytes → α} {new : α}
    {stage stage' : ListStage α} (h : StageSound H setName keyName setField new stage) (hr : r ∈ H.past)
    (hnext : ListStage.next setName keyName setField new r stage = .inl stage') :
    StageSound H setName keyName setField new stage' := by
  cases stage with
  | smembers =>
    obtain rfl := Sum.inl.inj hnext
    exact ⟨⟨r, hr, List.Subset.refl _⟩, List.forall_mem_nil _⟩
  | hgetall ids left msgData =>
    obtain ⟨⟨r₀, hr₀, hleft⟩, hdata⟩ := h
    cases left with
    | nil => cases hnext
    | cons x left =>
      obtain rfl := Sum.inl.inj hnext
      refine ⟨⟨r₀, hr₀, fun y hy => hleft (List.mem_cons_of_mem x hy)⟩, fun d hd => ?_⟩
      rcases List.mem_append.1 hd with hd | hd
      · exact hdata d hd
      · exact ⟨r₀, hr₀, x, hleft List.mem_cons_self, r, hr, Option.mem_toList.1 hd⟩

/-- At the end all entries come from the set. -/
theorem StageSound.last {α : Type} {setName keyName : Bytes} {setField : α → Bytes → Bytes → α} {new : α}
    {stage : ListStage α} {ids : List Bytes} {msgData : List α}
    (h : StageSound H setName keyName setField new stage)
    (hnext : ListStage.next setName keyName setField new r stage = .inr (ids, msgData)) :
    ∀ d ∈ msgData, ReadFrom H setName keyName setField new d := by
  cases stage with
  | smembers => cases hnext
  | hgetall ids' left msgData' =>
    cases left with
    | nil =>
      obtain ⟨-, rfl⟩ := Prod.mk.inj (Sum.inr.inj hnext)
      exact h.2
    | cons x left => cases hnext

/-- What is published for the members on other servers. -/
theorem forMembers_remoteMsgs {m : MsgData} (hr : r ∈ H.past)
    (hfits : Serializable L sv m (CRedis.sortMultiSocket r (ascii "onlineGroup:" ++ m.toId))) :
    ∀ e ∈ remoteMsgs L sv m (CRedis.sortMultiSocket r (ascii "onlineGroup:" ++ m.toId)),
      ForMembers H m e := by
  intro e he
  obtain ⟨j, hj, he⟩ := List.mem_flatMap.1 he
  have hfit := hfits j hj
  have honline : ∀ u ∈ (L.elements (remoteMembers sv
      (CRedis.sortMultiSocket r (ascii "onlineGroup:" ++ m.toId))) j).map Prod.snd, Online H m.toId u := by
    intro u hu
    obtain ⟨p, hp, rfl⟩ := List.mem_map.1 hu
    exact ⟨r, hr, List.mem_map_of_mem (of_mem_bucket hp).1⟩
  cases helements : L.elements (remoteMembers sv
      (CRedis.sortMultiSocket r (ascii "onlineGroup:" ++ m.toId))) j with
  | nil =>
    rw [helements] at he
    cases he
  | cons p rest =>
    rw [helements] at he hfit honline
    obtain rfl := List.mem_singleton.1 he
    refine ⟨?_, _, rfl, hfit (List.cons_ne_nil p rest), honline⟩
    rw [cstr_append (by decide)]
    exact List.prefix_append _ _

/-- A handler of a group message comes to publish what `SORT` has found. -/
theorem forMembers_next {m : MsgData} {stage stage' : GroupStage} (hr : r ∈ H.past)
    (hfits : stage = .sort →
      Serializable L sv m (CRedis.sortMultiSocket r (ascii "onlineGroup:" ++ m.toId)))
    (hmessages : ∀ messages, stage = .publish messages → ∀ e ∈ messages, ForMembers H m e)
    (hnext : (stage.next L m sv r).1 = some stage') :
    ∀ messages, stage' = .publish messages → ∀ e ∈ messages, ForMembers H m e := by
  rintro messages rfl
  cases stage with
  | sort =>
    obtain rfl := GroupStage.publish.inj (Option.some.inj hnext)
    exact forMembers_remoteMsgs hr (hfits rfl)
  | publish messages' =>
    cases messages' with
    | nil => cases hnext
    | cons e messages' =>
      obtain rfl := GroupStage.publish.inj (Option.some.inj hnext)
      exact fun e' he' => hmessages _ rfl e' (List.mem_cons_of_mem e he')
  | lpush => rcases ite_eq_iff.1 (Option.some.inj hnext) with ⟨-, h⟩ | ⟨-, h⟩ <;> cases h
  | ltrim => cases hnext
  | sdiff => cases hnext
  | incr vecRes => cases vecRes <;> cases hnext

/-- **What is left of a handler** is about the same message. -/
theorem JobSound.next (h : JobSound H S i t) (hr : r ∈ H.past)
    (hnext : t.next L order sv r = some (t', sv', r', answers)) : ∀ t₁ ∈ t', JobSound H S i t₁ := by
  rintro t₁ ht₁
  cases t with
  | task t =>
    obtain ⟨t₂, htask, rfl, -⟩ := Job.next_task hnext
    obtain ⟨t₂, rfl, rfl⟩ := Option.map_eq_some_iff.1 ht₁
    cases t with
    | peer m stage =>
      obtain ⟨stage', -, hstage'⟩ := Task.next_peer htask
      obtain ⟨stage', -, rfl⟩ := Option.map_eq_some_iff.1 hstage'.symm
      exact h
    | shake conn request nowtime stage =>
      obtain ⟨stage', -, hstage'⟩ := Task.next_shake htask
      obtain ⟨stage', -, rfl⟩ := Option.map_eq_some_iff.1 hstage'.symm
      exact h
    | stop conn stage =>
      obtain ⟨stage', -, hstage'⟩ := Task.next_stop htask
      obtain ⟨stage', -, rfl⟩ := Option.map_eq_some_iff.1 hstage'.symm
      trivial
  | group m stage =>
    obtain ⟨hgroup, hm, hmessages⟩ := h
    obtain ⟨stage', hstage, rfl, -, hfits⟩ := Job.next_group hnext
    obtain ⟨stage', rfl, rfl⟩ := Option.map_eq_some_iff.1 ht₁
    exact ⟨hgroup, hm, forMembers_next hr hfits hmessages (congrArg Prod.fst hstage)⟩
  | unread t =>
    obtain ⟨stage', -, rfl, -⟩ := Job.next_unread hnext
    obtain ⟨stage', -, rfl⟩ := Option.map_eq_some_iff.1 ht₁
    exact h
  | users conn ptrRequest nowtime stage =>
    obtain ⟨-, -, ⟨stage', hstage, rfl, -⟩ | ⟨ids, msgData, -, rfl, -⟩⟩ := Job.next_users hnext
    · obtain rfl := Option.some.inj ht₁
      exact ⟨h.1, h.2.next hr hstage⟩
    · cases ht₁
  | groups conn ptrRequest nowtime stage =>
    obtain ⟨-, -, ⟨stage', hstage, rfl, -⟩ | ⟨ids, msgData, -, rfl, -⟩⟩ := Job.next_groups hnext
    · obtain rfl := Option.some.inj ht₁
      exact ⟨h.1, h.2.next hr hstage⟩
    · cases ht₁
  | members conn ptrRequest nowtime =>
    obtain ⟨-, -, rfl, -⟩ := Job.next_members hnext
    cases ht₁

/-- The list that a handler sends is for the client that has asked. -/
theorem JobSound.addressed_answers (h : JobSound H S i t) (hr : r ∈ H.past)
    (hnext : t.next L order sv r = some (t', sv', r', answers)) {s : ℕ} {m : IMMsg}
    (hk : S.home k = (i, s)) (hm : (s, m) ∈ answers) : Addressed H order k m := by
  cases t with
  | task t =>
    obtain ⟨t₁, -, -, rfl⟩ := Job.next_task hnext
    cases hm
  | group ptrMsg stage =>
    obtain ⟨stage', -, -, rfl, -⟩ := Job.next_group hnext
    cases hm
  | unread t =>
    obtain ⟨stage', -, -, rfl⟩ := Job.next_unread hnext
    cases hm
  | users conn ptrRequest nowtime stage =>
    obtain ⟨-, -, ⟨stage', -, -, rfl⟩ | ⟨ids, msgData, hstage, -, hanswers⟩⟩ := Job.next_users hnext
    · cases hm
    · obtain ⟨rfl, rfl⟩ := Prod.mk.inj (hanswers _ hm)
      exact ⟨⟨ptrRequest.timestamp, h.1 k hk⟩, h.2.last hstage⟩
  | groups conn ptrRequest nowtime stage =>
    obtain ⟨-, -, ⟨stage', -, -, rfl⟩ | ⟨ids, msgData, hstage, -, hanswers⟩⟩ := Job.next_groups hnext
    · cases hm
    · obtain ⟨rfl, rfl⟩ := Prod.mk.inj (hanswers _ hm)
      exact ⟨⟨ptrRequest.timestamp, h.1 k hk⟩, h.2.last hstage⟩
  | members conn ptrRequest nowtime =>
    obtain ⟨-, -, -, hanswers⟩ := Job.next_members hnext
    obtain ⟨response, hresponse, heq⟩ := hanswers _ hm
    obtain ⟨rfl, rfl⟩ := Prod.mk.inj heq
    rw [onGroupMemberRequest] at hresponse
    split at hresponse
    · split at hresponse
      · next msgData hrows =>
        obtain rfl := Outcome.sent.inj hresponse
        exact ⟨⟨ptrRequest.timestamp, h k hk⟩, r, hr, hrows⟩
      · cases hresponse
    · next hempty =>
      obtain rfl := Outcome.sent.inj hresponse
      refine ⟨⟨ptrRequest.timestamp, h k hk⟩, r, hr, ?_⟩
      rw [List.eq_nil_of_length_eq_zero (not_not.1 hempty)]
      rfl

/-- What a handler sends on the session of a client. -/
theorem JobSound.addressed_puts (h : JobSound H S i t) (hr : r ∈ H.past)
    (husers : ∀ u s, sv.manager.findUser u = some s → ∀ k, S.home k = (i, s) → Shaken H k u) {s : ℕ}
    {m : ChatMsg} (hk : S.home k = (i, s)) (hm : m ∈ t.puts sv r s) :
    Addressed H order k (IMMsg.ofChat m) := by
  unfold Job.puts at hm
  split at hm
  · split at hm
    · next ptrMsg _ hfind =>
      obtain rfl := List.mem_singleton.1 hm
      exact .inr ⟨h.2, .inl ⟨h.1, husers _ s hfind.1 k hk⟩⟩
    · cases hm
  · split at hm
    · obtain rfl := List.mem_singleton.1 hm
      trivial
    · cases hm
  · obtain ⟨hne, rfl⟩ := List.mem_replicate.1 hm
    obtain ⟨u, hu, hfind⟩ := List.countP_pos_iff.1 (Nat.pos_of_ne_zero hne)
    obtain ⟨hfind, -⟩ := of_decide_eq_true hfind
    obtain ⟨e, he, rfl⟩ := List.mem_map.1 hu
    exact .inr ⟨h.2.1, .inr ⟨h.1, e.1, husers _ s hfind k hk, r, hr,
      List.mem_map_of_mem (List.mem_filter.1 he).1⟩⟩
  · split at hm
    · next hsent =>
      obtain rfl := List.mem_singleton.1 hm
      obtain ⟨-, rfl, -⟩ := hsent
      exact ⟨_, h k hk⟩
    · cases hm
  · cases hm

theorem received_serialize {m : MsgData} (hm : (ChatMsg.msgData m).Fits) :
    received (ChatMsg.msgData m).serialize = [m] := by
  have hparse : ChatMsg.parse .msgData _ = _ := ChatMsg.parse_serialize hm
  rw [received, hparse]

/-- What is published for members comes from the message. -/
theorem ForMembers.genuine {m : MsgData} {e : Bytes × Bytes} (h : ForMembers H m e) (hgroup : GroupMsg m)
    (hm : m ∈ H.chats) (hfits : (ChatMsg.msgData m).Fits) : Genuine H e where
  peer hchannel := absurd hchannel fun hpeer => by
    obtain ⟨rest, hrest⟩ := h.channel
    obtain ⟨rest', hrest'⟩ := hpeer
    cases hrest.trans hrest'.symm
  group _ x hx := by
    obtain ⟨userIds, heq, hfit, honline⟩ := h.content
    have hparse : ChatMsg.parse .serverGroupMsg _ = _ := ChatMsg.parse_serialize hfit
    rw [heq, receivedGroup, hparse] at hx
    dsimp only at hx
    rw [received_serialize hfits] at hx
    obtain rfl := List.mem_singleton.1 hx
    refine .inr ⟨hgroup, hm, fun u hu => honline u ?_⟩
    rw [heq, receivers, hparse] at hu
    exact hu

/-- The session that a handshake registers is for the user that the client has named. -/
theorem JobSound.shaken_registered (h : JobSound H S i t) {u : Bytes} {s : ℕ}
    (hregistered : (s, u) ∈ t.registered sv) : ∀ k, S.home k = (i, s) → Shaken H k u := by
  intro k hk
  cases t with
  | task t =>
    cases t with
    | shake conn request nowtime stage =>
      change (s, u) ∈ Task.registered sv (.shake conn request nowtime stage) at hregistered
      unfold Task.registered at hregistered
      split at hregistered
      · next hbind =>
        obtain ⟨rfl, rfl, -, -⟩ := Task.shake.inj hbind
        split at hregistered
        · obtain ⟨rfl, rfl⟩ := Prod.mk.inj (List.mem_singleton.1 hregistered)
          exact ⟨_, h k hk⟩
        · cases hregistered
      · cases hregistered
    | _ => cases hregistered
  | _ => cases hregistered

/-- What a handler publishes. -/
theorem JobSound.genuine_publishes (h : JobSound H S i t)
    (hfits : ∀ m ∈ H.chats, (ChatMsg.msgData m).Fits) : ∀ e ∈ t.publishes sv, Genuine H e := by
  intro e he
  have hother : ∀ {channel value : Bytes}, ¬ascii "peerMsg:" <+: channel → ¬ascii "groupMsg:" <+: channel →
      Genuine H (channel, value) := fun hpeer hgroup => ⟨fun h => absurd h hpeer, fun h => absurd h hgroup⟩
  unfold Job.publishes at he
  split at he
  · obtain rfl := List.mem_singleton.1 he
    refine ⟨fun _ m hm => ?_, fun hchannel => ?_⟩
    · rw [received_serialize (hfits _ h.2)] at hm
      obtain rfl := List.mem_singleton.1 hm
      exact .inr h
    · obtain ⟨rest, hrest⟩ := hchannel
      rw [cstr_append (by decide)] at hrest
      cases hrest
  · obtain rfl := List.mem_singleton.1 he
    exact hother (by decide) (by decide)
  · obtain rfl := List.mem_singleton.1 he
    exact hother (by decide) (by decide)
  · obtain rfl := List.mem_singleton.1 he
    exact (h.2.2 _ rfl _ List.mem_cons_self).genuine h.1 h.2.1 (hfits _ h.2.1)
  · cases he

end Handlers

/-! ## The servers -/

/-- What has happened, with the messages that have come in from clients. -/
def Backend.history (b : Backend ι) (got : List (Option (Fin n) × IMMsg)) : History n :=
  ⟨b.past, b.foreign, got⟩

/-- The servers after the messages `got` have come in and `out` were sent. A session that is found for a
user is that of a client who has named the user; handlers and what is published go back to what has come
in; and what was sent was sent to whom it is for. -/
structure Sound (S : Setting ι n) (b : Backend ι) (got out : List (Option (Fin n) × IMMsg)) : Prop where
  fits : ∀ m ∈ (b.history got).chats, (ChatMsg.msgData m).Fits
  users : ∀ i u s, (b.nodes i).server.manager.findUser u = some s → ∀ k, S.home k = (i, s) →
    Shaken (b.history got) k u
  job : ∀ i, ∀ t ∈ (b.nodes i).job, JobSound (b.history got) S i t
  published : ∀ i, ∀ e ∈ b.redis.published.drop (b.nodes i).seen, Genuine (b.history got) e
  out : ∀ k m, (some k, m) ∈ out → Addressed (b.history got) S.order k m

theorem sound_start (S : Setting ι n) (sockets : ι → Bytes) (r : Redis) :
    Sound S (.start sockets r) [] [] where
  fits m hm := by cases hm
  users i u s h := by cases h
  job i t ht := by cases ht
  published i e he := by
    rw [Backend.start, List.drop_length] at he
    cases he
  out k m hm := by cases hm

section Steps

variable {S : Setting ι n} {b b' : Backend ι} {got got' out ms : List (Option (Fin n) × IMMsg)}

/-- **A step** in which more happens, sessions and handlers and what is published are as they were or go
back to what has come in, and messages are sent to whom they are for. -/
theorem Sound.step (h : Sound S b got out) (hle : (b.history got).Le (b'.history got'))
    (hfits : ∀ m ∈ (b'.history got').chats, m ∈ (b.history got).chats ∨ (ChatMsg.msgData m).Fits)
    (husers : ∀ i u s, (b'.nodes i).server.manager.findUser u = some s →
      (b.nodes i).server.manager.findUser u = some s ∨
        ∀ k, S.home k = (i, s) → Shaken (b'.history got') k u)
    (hjob : ∀ i, ∀ t ∈ (b'.nodes i).job, t ∈ (b.nodes i).job ∨ JobSound (b'.history got') S i t)
    (hpublished : ∀ i, ∀ e ∈ b'.redis.published.drop (b'.nodes i).seen,
      e ∈ b.redis.published.drop (b.nodes i).seen ∨ Genuine (b'.history got') e)
    (hout : ∀ k m, (some k, m) ∈ ms → Addressed (b'.history got') S.order k m) :
    Sound S b' got' (out ++ ms) where
  fits m hm := (hfits m hm).elim (h.fits m) id
  users i u s hu := (husers i u s hu).elim (fun hu k hk => (h.users i u s hu k hk).mono hle) id
  job i t ht := (hjob i t ht).elim (fun ht => (h.job i t ht).mono hle) id
  published i e he := (hpublished i e he).elim (fun he => (h.published i e he).mono hle) id
  out k m hm := (List.mem_append.1 hm).elim (fun hm => (h.out k m hm).mono hle) (hout k m)

theorem History.Le.refl (H : History n) : H.Le H :=
  ⟨List.Subset.refl _, List.Subset.refl _, List.Subset.refl _⟩

variable [DecidableEq ι] {i : ι}

/-- A server is replaced. -/
theorem Sound.setNode (h : Sound S b got out) {node : ServerNode}
    (husers : ∀ u s, node.server.manager.findUser u = some s →
      (b.nodes i).server.manager.findUser u = some s)
    (hjob : ∀ t ∈ node.job, t ∈ (b.nodes i).job ∨ JobSound (b.history got) S i t)
    (hseen : (b.nodes i).seen ≤ node.seen)
    (hout : ∀ k m, (some k, m) ∈ ms → Addressed (b.history got) S.order k m) :
    Sound S (b.setNode i node) got (out ++ ms) := by
  have hnode : ∀ j, (b.setNode i node).nodes j = if j = i then node else b.nodes j := fun j =>
    Function.update_apply ..
  refine h.step (.refl _) (fun m hm => .inl hm) (fun j u s hu => .inl ?_) (fun j t ht => ?_)
    (fun j e he => .inl ?_) hout
  · rw [hnode] at hu
    split at hu
    · next hj => exact hj ▸ husers u s hu
    · exact hu
  · rw [hnode] at ht
    split at ht
    · next hj => exact hj ▸ hjob t ht
    · exact .inl ht
  · rw [hnode] at he
    split at he
    · next hj => exact hj ▸ (List.drop_subset_drop_left _ hseen he)
    · exact he

/-- The thread of a server turns to a handler. -/
theorem Sound.begin (h : Sound S b got out) {t : Option Job}
    (ht : ∀ t₁ ∈ t, JobSound (b.history got) S i t₁) (hbegin : b.begin i t = some (b', ms)) :
    Sound S b' got (out ++ ms) := by
  obtain ⟨-, rfl, rfl⟩ := Backend.begin_inv hbegin
  exact h.setNode (fun u s hu => hu) (fun t₁ ht₁ => .inr (ht t₁ ht₁)) le_rfl fun k m hm => by cases hm

/-- The thread of a server goes on. -/
theorem Sound.work (h : Sound S b got out) {t : Job} {t' : Option Job} {sv : Server} {r : Redis}
    {answers : List (ℕ × IMMsg)} (ht : (b.nodes i).job = some t)
    (hnext : t.next S.L S.order (b.nodes i).server b.redis = some (t', sv, r, answers)) :
    Sound S (b.afterWork i t' sv r) got (out ++ Backend.emit S i (b.nodes i).server sv answers) := by
  have hturn := Job.turn hnext
  have hle : (b.history got).Le ((b.afterWork i t' sv r).history got) :=
    ⟨List.subset_append_left _ _, List.Subset.refl _, List.Subset.refl _⟩
  have hpast : b.redis ∈ ((b.afterWork i t' sv r).history got).past :=
    List.mem_append_right _ (List.mem_singleton_self _)
  have hjob : JobSound ((b.afterWork i t' sv r).history got) S i t := (h.job i t ht).mono hle
  have husers : ∀ u s, (b.nodes i).server.manager.findUser u = some s → ∀ k, S.home k = (i, s) →
      Shaken ((b.afterWork i t' sv r).history got) k u := fun u s hu k hk => (h.users i u s hu k hk).mono hle
  have hnode : ∀ j, (b.afterWork i t' sv r).nodes j =
      if j = i then { b.nodes i with server := sv, job := t' } else b.nodes j := fun j =>
    Function.update_apply ..
  refine h.step hle (fun m hm => .inl hm) (fun j u s hu => ?_) (fun j t₁ ht₁ => ?_) (fun j e he => ?_)
    fun k m hm => ?_
  · rw [hnode] at hu
    split at hu
    · next hj =>
      subst hj
      exact (hturn.users u s hu).imp_right fun hregistered => hjob.shaken_registered hregistered
    · exact .inl hu
  · rw [hnode] at ht₁
    split at ht₁
    · next hj => exact .inr (hj ▸ hjob.next hpast hnext t₁ ht₁)
    · exact .inl ht₁
  · have hseen : ((b.afterWork i t' sv r).nodes j).seen = (b.nodes j).seen := by
      rw [hnode]
      split
      · next hj => rw [hj]
      · rfl
    rw [hseen] at he
    change e ∈ r.published.drop _ at he
    rw [hturn.published, List.drop_append] at he
    exact (List.mem_append.1 he).imp_right fun he =>
      hjob.genuine_publishes h.fits e (List.mem_of_mem_drop he)
  · obtain ⟨hk, ⟨x, hx, rfl⟩ | hm⟩ := Backend.of_mem_emit S hm
    · rw [gained_eq (hturn.sent _)] at hx
      exact hjob.addressed_puts hpast husers (Prod.ext hk rfl) hx
    · exact hjob.addressed_answers hpast hnext (Prod.ext hk rfl) hm

/-- The subscriber of a server is handed a published message. -/
theorem Sound.deliver (h : Sound S b got out) {sv : Server} {puts : ℕ → List ChatMsg}
    (hturn : Turn (b.nodes i).server b.redis sv b.redis [] puts [])
    (hputs : ∀ k s, S.home k = (i, s) → ∀ x ∈ puts s, Addressed (b.history got) S.order k (IMMsg.ofChat x)) :
    Sound S (b.afterDeliver i sv) got (out ++ Backend.emit S i (b.nodes i).server sv []) := by
  refine h.setNode (fun u s hu => ?_) (fun t ht => .inl ht) (Nat.le_succ _) fun k m hm => ?_
  · exact (hturn.users u s hu).resolve_right List.not_mem_nil
  · obtain ⟨hk, ⟨x, hx, rfl⟩ | hm⟩ := Backend.of_mem_emit S hm
    · rw [gained_eq (hturn.sent _)] at hx
      exact hputs k _ (Prod.ext hk rfl) x hx
    · cases hm

/-- It is handed a message for a user. -/
theorem Sound.subscribePeerMsg (h : Sound S b got out) {e : Bytes × Bytes} {sv : Server}
    (hgenuine : Genuine (b.history got) e) (hchannel : ascii "peerMsg:" <+: e.1)
    (hsv : subscribePeerMsg (b.nodes i).server e.2 = some sv) :
    Sound S (b.afterDeliver i sv) got (out ++ Backend.emit S i (b.nodes i).server sv []) := by
  obtain ⟨m, hm, hturn⟩ := subscribePeerMsg_turn b.redis hsv
  have hfrom := hgenuine.peer hchannel m (hm ▸ List.mem_singleton_self m)
  refine h.deliver hturn fun k s hk x hx => ?_
  split at hx
  · next hfind =>
    obtain rfl := List.mem_singleton.1 hx
    exact hfrom.imp_right fun hpeer => ⟨hpeer.2, .inl ⟨hpeer.1, h.users i _ s hfind.1 k hk⟩⟩
  · cases hx

/-- It is handed a message for members of a group. -/
theorem Sound.subscribeGroupMsg (h : Sound S b got out) {e : Bytes × Bytes} {sv : Server}
    (hgenuine : Genuine (b.history got) e) (hchannel : ascii "groupMsg:" <+: e.1)
    (hsv : subscribeGroupMsg (b.nodes i).server e.2 = some sv) :
    Sound S (b.afterDeliver i sv) got (out ++ Backend.emit S i (b.nodes i).server sv []) := by
  obtain ⟨m, hm, hturn⟩ := subscribeGroupMsg_turn b.redis hsv
  have hfrom := hgenuine.group hchannel m (hm ▸ List.mem_singleton_self m)
  refine h.deliver hturn fun k s hk x hx => ?_
  obtain ⟨hne, rfl⟩ := List.mem_replicate.1 hx
  obtain ⟨u, hu, hfind⟩ := List.countP_pos_iff.1 (Nat.pos_of_ne_zero hne)
  have hshaken := h.users i u s (of_decide_eq_true hfind).1 k hk
  exact hfrom.imp_right fun ⟨hgroup, hcame, honline⟩ => ⟨hcame, .inr ⟨hgroup, u, hshaken, honline u hu⟩⟩

/-- **What happens at the servers.** -/
theorem Sound.input (h : Sound S b got out) {x : Backend.Input ι} (hx : b.input S x = some (b', ms)) :
    Sound S b' got (out ++ ms) := by
  cases x with
  | accept i =>
    obtain ⟨rfl, rfl⟩ := Backend.accept_inv hx
    exact h.setNode (fun u s hu => hu) (fun t ht => .inl ht) le_rfl fun k m hm => by cases hm
  | disconnect i s =>
    refine h.begin (fun t ht => ?_) hx
    obtain rfl := Option.some.inj ht
    trivial
  | work i =>
    obtain ⟨t, t', sv, r, answers, ht, hnext, rfl, rfl⟩ := Backend.work_inv hx
    exact h.work ht hnext
  | deliver i =>
    obtain ⟨e, he, hcases⟩ := Backend.deliver_inv hx
    have hgenuine : Genuine (b.history got) e :=
      h.published i _ (List.mem_of_getElem? (i := 0) (by rwa [List.getElem?_drop]))
    rcases hcases with ⟨hchannel, sv, hsv, rfl, rfl⟩ | ⟨hchannel, sv, hsv, rfl, rfl⟩ | ⟨rfl, rfl⟩
    · exact h.subscribePeerMsg hgenuine (hchannel ▸ List.prefix_append _ _) hsv
    · exact h.subscribeGroupMsg hgenuine (hchannel ▸ List.prefix_append _ _) hsv
    · exact h.setNode (fun u s hu => hu) (fun t ht => .inl ht) (Nat.le_succ _) fun k m hm => by cases hm
  | publish channel value =>
    obtain ⟨rfl, rfl⟩ := Prod.mk.inj (Option.some.inj hx)
    refine h.step ⟨List.Subset.refl _, List.subset_append_left _ _, List.Subset.refl _⟩
      (fun m hm => .inl hm) (fun j u s hu => .inl hu) (fun j t ht => .inl ht) (fun j e he => ?_)
      fun k m hm => by cases hm
    change e ∈ (b.redis.published ++ [(channel, value)]).drop _ at he
    rw [List.drop_append] at he
    refine (List.mem_append.1 he).imp_right fun he => ?_
    obtain rfl := List.mem_singleton.1 (List.mem_of_mem_drop he)
    exact ⟨fun _ m hm => .inl (List.mem_append_right _ (List.mem_append_left _ hm)),
      fun _ m hm => .inl (List.mem_append_right _ (List.mem_append_right _ hm))⟩
  | other k v =>
    obtain ⟨rfl, rfl⟩ := Prod.mk.inj (Option.some.inj hx)
    exact h.step (.refl _) (fun m hm => .inl hm) (fun j u s hu => .inl hu) (fun j t ht => .inl ht)
      (fun j e he => .inl he) fun k m hm => by cases hm
  | time nowtime =>
    obtain ⟨rfl, rfl⟩ := Prod.mk.inj (Option.some.inj hx)
    exact h.step (.refl _) (fun m hm => .inl hm) (fun j u s hu => .inl hu) (fun j t ht => .inl ht)
      (fun j e he => .inl he) fun k m hm => by cases hm

/-- **A message comes in from a client.** -/
theorem Sound.receive (h : Sound S b got out) {k : Fin n} {m : IMMsg}
    (hm : ∀ x ∈ m.msgData?, (ChatMsg.msgData x).Fits) (hx : b.receive S k m = some (b', ms)) :
    Sound S b' (got ++ [(some k, m)]) (out ++ ms) := by
  have hle : (b.history got).Le (b.history (got ++ [(some k, m)])) :=
    ⟨List.Subset.refl _, List.Subset.refl _, List.subset_append_left _ _⟩
  have hgot : Sound S b (got ++ [(some k, m)]) (out ++ []) := by
    refine h.step hle (fun x hx => ?_) (fun j u s hu => .inl hu) (fun j t ht => .inl ht)
      (fun j e he => .inl he) fun k m hm => by cases hm
    obtain ⟨y, hy, hyx⟩ := List.mem_filterMap.1 hx
    obtain ⟨p, hp, rfl⟩ := List.mem_map.1 hy
    rcases List.mem_append.1 hp with hp | hp
    · exact .inl (List.mem_filterMap.2 ⟨_, List.mem_map_of_mem hp, hyx⟩)
    · obtain rfl := List.mem_singleton.1 hp
      exact .inr (hm x hyx)
  rw [List.append_nil] at hgot
  refine hgot.begin (fun t ht => ?_) (Backend.receive_inv hx)
  exact jobSound_forMessage rfl (List.mem_append_right _ (List.mem_singleton_self _)) ht

end Steps

end MutexIM.EndToEnd
