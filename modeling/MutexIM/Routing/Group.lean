import MutexIM.Foundations.HashTable
import MutexIM.MessageServer.Presence

/-!
# Group messages

A message for a group is sent to the members that are online on the sender's server. For the other
servers `doOnlineGroupMsg` collects the members in an `unordered_map` from sockets to users, and it
publishes one message for each bucket of the map.

* `sent_sendUsers`: what a session gets when a list of users is looked up.
* `doOnlineGroupMsg_fst`, `doOnlineGroupMsg_snd`: whom the sender's server looks up, and what it
  publishes.
* `deliverGroupMsg_bucketMsgs`: whom a server looks up that gets these messages.
-/

namespace MutexIM.MessageServer

open Bytes Codec

namespace ConnectionManager

variable {c : ConnectionManager} {m : ChatMsg}

/-- A user is looked up, and the message is sent to the session that is found. -/
def sendUser (c : ConnectionManager) (m : ChatMsg) (userId : Bytes) : ConnectionManager :=
  match c.findUser userId with
  | some ptrConnection => c.send ptrConnection m
  | none => c

def sendUsers (c : ConnectionManager) (m : ChatMsg) (userIds : List Bytes) : ConnectionManager :=
  userIds.foldl (fun c userId => c.sendUser m userId) c

theorem sendUsers_append (us vs : List Bytes) :
    c.sendUsers m (us ++ vs) = (c.sendUsers m us).sendUsers m vs := List.foldl_append

@[simp] theorem sendUser_findUser (u v : Bytes) : (c.sendUser m u).findUser v = c.findUser v := by
  unfold sendUser
  split <;> rfl

@[simp] theorem sendUser_isConnected (u : Bytes) (s : ℕ) :
    ((c.sendUser m u).sessions s).isConnected = (c.sessions s).isConnected := by
  unfold sendUser
  split
  · exact send_sessions_isConnected m s
  · rfl

/-- A session gets the message if the user has it and it is connected. -/
theorem sent_sendUser (u : Bytes) (s : ℕ) :
    ((c.sendUser m u).sessions s).sent = (c.sessions s).sent ++
      if c.findUser u = some s ∧ (c.sessions s).isConnected then [m] else [] := by
  unfold sendUser
  cases hfind : c.findUser u with
  | none => simp
  | some ptrConnection =>
    rw [sent_send]
    simp only [Option.some.injEq, eq_comm]

/-- **What a session gets** when several users are looked up: the message as often as its user is
among them. -/
theorem sent_sendUsers (us : List Bytes) (s : ℕ) :
    ((c.sendUsers m us).sessions s).sent = (c.sessions s).sent ++
      List.replicate (us.countP fun u => c.findUser u = some s ∧ (c.sessions s).isConnected) m := by
  induction us generalizing c with
  | nil => exact (List.append_nil _).symm
  | cons u us ih =>
    rw [sendUsers, List.foldl_cons, ← sendUsers, ih, sent_sendUser, List.append_assoc,
      List.countP_cons]
    simp only [sendUser_findUser, sendUser_isConnected, decide_eq_true_iff]
    split
    · rw [List.replicate_succ, List.singleton_append]
    · rw [List.nil_append, Nat.add_zero]

end ConnectionManager

end MutexIM.MessageServer

namespace MutexIM.Routing

open Bytes Codec MessageServer

/-! ## The handlers -/

/-- `Server::doOnlineGroupMsg`. The layout is that of `dataUnorderMap`. -/
def doOnlineGroupMsg (L : Layout Bytes Bytes) (sv : Server) (r : Redis) (ptrMsg : MsgData) :
    Server × Redis :=
  let serializaStr := (ChatMsg.msgData ptrMsg).serialize
  let keyOnlineGroup := ascii "onlineGroup:" ++ ptrMsg.toId
  let vecStr := CRedis.sortMultiSocket r keyOnlineGroup
  let (manager, dataUnorderMap) := vecStr.foldl
    (fun (c, dataUnorderMap) (userId, socket) =>
      if socket = sv.strServerSocket then
        (if ptrMsg.fromId ≠ userId then c.sendUser (.msgData ptrMsg) userId else c, dataUnorderMap)
      else (c, dataUnorderMap.insert socket userId))
    (sv.manager, (∅ : AList fun _ : Bytes => Bytes))
  ({ sv with manager := manager },
    if 1 ≤ dataUnorderMap.entries.length then
      (List.range L.bucketCount).foldl (fun r i =>
        match L.elements dataUnorderMap i with
        | [] => r
        | (socket, userId) :: rest =>
          CRedis.publish r (ascii "groupMsg:" ++ socket)
            (ChatMsg.serverGroupMsg ⟨userId :: rest.map Prod.snd, serializaStr⟩).serialize) r
    else r)

/-- `Server::SubscribeGroupMsg`; `none` for a string that is no message, or holds none. -/
def subscribeGroupMsg (sv : Server) (value : Bytes) : Option Server :=
  match ChatMsg.parse .serverGroupMsg value with
  | some (.serverGroupMsg msg) =>
    match ChatMsg.parse .msgData msg.msgData with
    | some (.msgData contentData) =>
      some { sv with manager := sv.manager.sendUsers (.msgData contentData) msg.userId }
    | _ => none
  | _ => none

/-- A server is handed what was published for it. -/
def deliverGroupMsg (sv : Server) (published : List (Bytes × Bytes)) : Option Server :=
  published.foldlM (fun sv e =>
    if e.1 = ascii "groupMsg:" ++ sv.strServerSocket then subscribeGroupMsg sv e.2 else some sv) sv

/-! ## The sender's server -/

/-- What is published for a bucket. -/
def bucketMsg (serializaStr : Bytes) : List (Bytes × Bytes) → List (Bytes × Bytes)
  | [] => []
  | (socket, userId) :: rest =>
    [(cstr (ascii "groupMsg:" ++ socket),
      (ChatMsg.serverGroupMsg ⟨userId :: rest.map Prod.snd, serializaStr⟩).serialize)]

/-- The members on the server, without the sender. -/
def localMembers (sv : Server) (fromId : Bytes) (vecStr : List (Bytes × Bytes)) : List Bytes :=
  (vecStr.filter fun e => e.2 = sv.strServerSocket ∧ fromId ≠ e.1).map Prod.fst

/-- `dataUnorderMap` after the loop. -/
def remoteMembers (sv : Server) (vecStr : List (Bytes × Bytes)) : AList fun _ : Bytes => Bytes :=
  insertAll ∅ ((vecStr.filter fun e => e.2 ≠ sv.strServerSocket).map Prod.swap)

variable {L : Layout Bytes Bytes} {sv : Server} {r : Redis} {ptrMsg : MsgData}

/-- The loop treats the members on the server and those on others apart. -/
theorem foldl_vecStr (vecStr : List (Bytes × Bytes)) (c : ConnectionManager)
    (dataUnorderMap : AList fun _ : Bytes => Bytes) :
    vecStr.foldl (fun (c, dataUnorderMap) (userId, socket) =>
      if socket = sv.strServerSocket then
        (if ptrMsg.fromId ≠ userId then c.sendUser (.msgData ptrMsg) userId else c, dataUnorderMap)
      else (c, dataUnorderMap.insert socket userId)) (c, dataUnorderMap) =
    (c.sendUsers (.msgData ptrMsg) (localMembers sv ptrMsg.fromId vecStr),
      insertAll dataUnorderMap
        ((vecStr.filter fun e => e.2 ≠ sv.strServerSocket).map Prod.swap)) := by
  induction vecStr generalizing c dataUnorderMap with
  | nil => rfl
  | cons e vecStr ih =>
    obtain ⟨userId, socket⟩ := e
    rw [List.foldl_cons]
    by_cases hsocket : socket = sv.strServerSocket
    · by_cases hfrom : ptrMsg.fromId = userId
      · simp only [hsocket, hfrom, ne_eq, not_true_eq_false, if_true, if_false]
        rw [hfrom.symm, ih]
        simp [localMembers]
      · simp only [hsocket, hfrom, ne_eq, not_false_eq_true, if_true]
        rw [ih]
        simp [localMembers, hfrom, ConnectionManager.sendUsers]
    · simp only [hsocket, if_false]
      rw [ih]
      simp [localMembers, hsocket, insertAll]

theorem doOnlineGroupMsg_fst : (doOnlineGroupMsg L sv r ptrMsg).1 =
    { sv with manager := sv.manager.sendUsers (.msgData ptrMsg) (localMembers sv ptrMsg.fromId
      (CRedis.sortMultiSocket r (ascii "onlineGroup:" ++ ptrMsg.toId))) } := by
  simp only [doOnlineGroupMsg, foldl_vecStr]

/-- What the loop over the buckets publishes. -/
theorem foldl_buckets (serializaStr : Bytes) (dataUnorderMap : AList fun _ : Bytes => Bytes)
    (is : List ℕ) :
    is.foldl (fun r i =>
      match L.elements dataUnorderMap i with
      | [] => r
      | (socket, userId) :: rest =>
        CRedis.publish r (ascii "groupMsg:" ++ socket)
          (ChatMsg.serverGroupMsg ⟨userId :: rest.map Prod.snd, serializaStr⟩).serialize) r =
    { r with published := r.published ++
        is.flatMap fun i => bucketMsg serializaStr (L.elements dataUnorderMap i) } := by
  induction is generalizing r with
  | nil => simp
  | cons i is ih =>
    rw [List.foldl_cons, ih, List.flatMap_cons, ← List.append_assoc]
    split
    · next h => rw [h, bucketMsg, List.append_nil]
    · next h => rw [h]; rfl

/-- `Server::doOnlineGroupMsg` behind the call of `SortMultiSocket`, which has returned `vecStr`. -/
def doOnlineGroupMsgWith (L : Layout Bytes Bytes) (sv : Server) (r : Redis) (ptrMsg : MsgData)
    (vecStr : List (Bytes × Bytes)) : Server × Redis :=
  let serializaStr := (ChatMsg.msgData ptrMsg).serialize
  let (manager, dataUnorderMap) := vecStr.foldl
    (fun (c, dataUnorderMap) (userId, socket) =>
      if socket = sv.strServerSocket then
        (if ptrMsg.fromId ≠ userId then c.sendUser (.msgData ptrMsg) userId else c, dataUnorderMap)
      else (c, dataUnorderMap.insert socket userId))
    (sv.manager, (∅ : AList fun _ : Bytes => Bytes))
  ({ sv with manager := manager },
    if 1 ≤ dataUnorderMap.entries.length then
      (List.range L.bucketCount).foldl (fun r i =>
        match L.elements dataUnorderMap i with
        | [] => r
        | (socket, userId) :: rest =>
          CRedis.publish r (ascii "groupMsg:" ++ socket)
            (ChatMsg.serverGroupMsg ⟨userId :: rest.map Prod.snd, serializaStr⟩).serialize) r
    else r)

theorem doOnlineGroupMsg_eq : doOnlineGroupMsg L sv r ptrMsg =
    doOnlineGroupMsgWith L sv r ptrMsg
      (CRedis.sortMultiSocket r (ascii "onlineGroup:" ++ ptrMsg.toId)) := rfl

theorem doOnlineGroupMsgWith_snd (vecStr : List (Bytes × Bytes)) :
    (doOnlineGroupMsgWith L sv r ptrMsg vecStr).2 =
      { r with published := r.published ++ (List.range L.bucketCount).flatMap fun i =>
        bucketMsg (ChatMsg.msgData ptrMsg).serialize (L.elements (remoteMembers sv vecStr) i) } := by
  simp only [doOnlineGroupMsgWith, foldl_vecStr]
  split
  · exact foldl_buckets _ _ _
  · next hlen =>
    have hempty : (remoteMembers sv vecStr).entries = [] := by
      apply List.eq_nil_of_length_eq_zero
      rw [remoteMembers]
      omega
    have hnil : ∀ i, L.elements (remoteMembers sv vecStr) i = [] := by
      intro i
      rw [Layout.elements, hempty, List.map_nil, List.filter_nil]
      exact List.perm_nil.1 (L.arrange_perm _)
    have hnone : ∀ l : List ℕ, l.flatMap (fun i => bucketMsg (ChatMsg.msgData ptrMsg).serialize
        (L.elements (remoteMembers sv vecStr) i)) = [] := by
      intro l
      exact List.flatMap_eq_nil_iff.2 fun i _ => by rw [hnil, bucketMsg]
    rw [hnone, List.append_nil]

/-- **What the sender's server publishes**: one message for each bucket with elements. -/
theorem doOnlineGroupMsg_snd : (doOnlineGroupMsg L sv r ptrMsg).2 =
    { r with published := r.published ++ (List.range L.bucketCount).flatMap fun i =>
      bucketMsg (ChatMsg.msgData ptrMsg).serialize (L.elements (remoteMembers sv
        (CRedis.sortMultiSocket r (ascii "onlineGroup:" ++ ptrMsg.toId))) i) } := by
  rw [doOnlineGroupMsg_eq, doOnlineGroupMsgWith_snd]

theorem doOnlineGroupMsg_published : (doOnlineGroupMsg L sv r ptrMsg).2.published =
    r.published ++ (List.range L.bucketCount).flatMap fun i =>
      bucketMsg (ChatMsg.msgData ptrMsg).serialize (L.elements (remoteMembers sv
        (CRedis.sortMultiSocket r (ascii "onlineGroup:" ++ ptrMsg.toId))) i) :=
  congrArg Redis.published doOnlineGroupMsg_snd

/-! ## The other servers -/

/-- Whom a server looks up for what was published for a bucket. -/
def lookedUp (strServerSocket : Bytes) : List (Bytes × Bytes) → List Bytes
  | [] => []
  | (socket, userId) :: rest =>
    if socket = strServerSocket then userId :: rest.map Prod.snd else []

theorem subscribeGroupMsg_serialize (sv : Server) (hm : (ChatMsg.msgData ptrMsg).Fits)
    {userIds : List Bytes}
    (hfits : (ChatMsg.serverGroupMsg ⟨userIds, (ChatMsg.msgData ptrMsg).serialize⟩).Fits) :
    subscribeGroupMsg sv
        (ChatMsg.serverGroupMsg ⟨userIds, (ChatMsg.msgData ptrMsg).serialize⟩).serialize =
      some { sv with manager := sv.manager.sendUsers (.msgData ptrMsg) userIds } := by
  have hgroup : ChatMsg.parse .serverGroupMsg _ = _ := ChatMsg.parse_serialize hfits
  have hmsg : ChatMsg.parse .msgData _ = _ := ChatMsg.parse_serialize hm
  simp only [subscribeGroupMsg, hgroup, hmsg]

theorem deliverGroupMsg_cons (e : Bytes × Bytes) (published : List (Bytes × Bytes)) :
    deliverGroupMsg sv (e :: published) =
      (if e.1 = ascii "groupMsg:" ++ sv.strServerSocket then subscribeGroupMsg sv e.2
        else some sv).bind fun sv => deliverGroupMsg sv published := List.foldlM_cons

/-- **Whom a server looks up** that is handed what was published for some buckets. -/
theorem deliverGroupMsg_bucketMsgs (sv : Server) (hm : (ChatMsg.msgData ptrMsg).Fits)
    {buckets : List (List (Bytes × Bytes))} (hnul : ∀ b ∈ buckets, ∀ e ∈ b, NulFree e.1)
    (hfits : ∀ b ∈ buckets, (ChatMsg.serverGroupMsg
      ⟨b.map Prod.snd, (ChatMsg.msgData ptrMsg).serialize⟩).Fits) :
    deliverGroupMsg sv (buckets.flatMap (bucketMsg (ChatMsg.msgData ptrMsg).serialize)) =
      some { sv with
        manager := sv.manager.sendUsers (.msgData ptrMsg)
          (buckets.flatMap (lookedUp sv.strServerSocket)) } := by
  induction buckets generalizing sv with
  | nil => rfl
  | cons b buckets ih =>
    have ih' := fun sv => ih sv (fun b hb => hnul b (List.mem_cons_of_mem _ hb))
      fun b hb => hfits b (List.mem_cons_of_mem _ hb)
    rw [List.flatMap_cons, List.flatMap_cons]
    cases b with
    | nil => exact ih' sv
    | cons e rest =>
      obtain ⟨socket, userId⟩ := e
      have hkey : cstr (ascii "groupMsg:" ++ socket) = ascii "groupMsg:" ++ socket :=
        cstr_eq_self (.append (by decide) (hnul _ List.mem_cons_self _ List.mem_cons_self))
      have hone := subscribeGroupMsg_serialize sv hm (hfits _ List.mem_cons_self)
      rw [List.map_cons] at hone
      rw [bucketMsg, hkey, List.singleton_append, deliverGroupMsg_cons, lookedUp]
      by_cases hsocket : socket = sv.strServerSocket
      · simp only [hsocket, if_true]
        rw [hone, Option.bind_some, ih', ConnectionManager.sendUsers_append]
      · have hchannel : ascii "groupMsg:" ++ socket ≠ ascii "groupMsg:" ++ sv.strServerSocket :=
          fun h => hsocket (List.append_cancel_left h)
        rw [if_neg hchannel, if_neg hsocket, Option.bind_some, ih', List.nil_append]

end MutexIM.Routing
