import MutexIM.Routing.Effects
import MutexIM.Routing.GroupMailbox

/-!
# The round trip of a stored message

Chat messages for a user who is not online are put in a list, whichever server handles them, and the
user's next request for unread messages takes them out.

* `Cluster.handle`: the servers handle chat messages, one at a time.
* `listAt_handle`: what is in the list then, of the messages that are stored under its key.
* `roundTrip_iff`: the request adds the messages to the user, the newest first, and the next one adds
  none, exactly if no message to someone else is stored under the key.
-/

namespace MutexIM.MessageServer

open Bytes Codec Routing

/-! ## Handling messages -/

namespace Cluster

variable {ι : Type*}

/-- A server handles a chat message. -/
def peerMsg [DecidableEq ι] (c : Cluster ι) (i : ι) (ptrMsg : MsgData) : Cluster ι :=
  let out := doPeerMsg (c.servers i) c.redis ptrMsg
  ⟨Function.update c.servers i out.1, out.2⟩

/-- The servers handle chat messages, one after the other. -/
def handle [DecidableEq ι] (c : Cluster ι) (ms : List (ι × MsgData)) : Cluster ι :=
  ms.foldl (fun c e => c.peerMsg e.1 e.2) c

/-- The server handles the message as one whose recipient has no session there. -/
def Misses (c : Cluster ι) (e : ι × MsgData) : Prop :=
  (c.servers e.1).manager.findUser e.2.toId = none

instance (c : Cluster ι) (e : ι × MsgData) : Decidable (c.Misses e) :=
  inferInstanceAs (Decidable (_ = _))

/-- The messages to a user, the newest first. -/
def messagesTo (u : Bytes) (ms : List (ι × MsgData)) : List Bytes :=
  ((ms.filter fun e => e.2.toId = u).map fun e => (ChatMsg.msgData e.2).serialize).reverse

/-- The messages that are stored under the key of a user who is not online, the newest first. -/
def storedUnder (c : Cluster ι) (u : Bytes) (ms : List (ι × MsgData)) : List Bytes :=
  ((ms.filter fun e => cstr e.2.toId = u ∧ c.Misses e).map fun e =>
    (ChatMsg.msgData e.2).serialize).reverse

end Cluster

/-- The request adds the messages to its response, and counts them. -/
def Adds (r : Redis) (ptrRequest : UnreadMsgRequest) (messages : List Bytes) : Prop :=
  ∀ response, ∃ r', appendPeerMsg r ptrRequest response =
    (messages.length, { response with msgData := response.msgData ++ messages }, r')

/-- The user's request adds the messages, and another one after it adds none. -/
structure RoundTrip (order : Keyspace.NumericOrder) (r : Redis) (u : Bytes) (messages : List Bytes) :
    Prop where
  first : ∀ ptrRequest : UnreadMsgRequest, ptrRequest.userId = u → Adds r ptrRequest messages
  second : ∀ (sv : Server) (conn : ℕ) (ptrRequest ptrRequest' : UnreadMsgRequest) (nowtime : UInt64),
    ptrRequest.userId = u → ptrRequest'.userId = u →
      Adds (onUnreadMsgRequest order sv r conn ptrRequest nowtime).2 ptrRequest' []

/-! ## What a request adds -/

section Request

variable {order : Keyspace.NumericOrder} {r : Redis} {ptrRequest : UnreadMsgRequest}
  {messages : List Bytes}

theorem appendPeerMsg_eq (response : UnreadMsgResponse) : appendPeerMsg r ptrRequest response =
    ((r.keys.listAt (cstr (ascii "unreadMsg:" ++ ptrRequest.userId))).length,
      { response with msgData :=
        response.msgData ++ r.keys.listAt (cstr (ascii "unreadMsg:" ++ ptrRequest.userId)) },
      CRedis.del r (ascii "unreadMsg:" ++ ptrRequest.userId)) := by
  simp only [appendPeerMsg, CRedis.lrangeBinary_all]

/-- **What is added** is the list. -/
theorem adds_iff : Adds r ptrRequest messages ↔
    r.keys.listAt (cstr (ascii "unreadMsg:" ++ ptrRequest.userId)) = messages := by
  constructor
  · intro h
    obtain ⟨r', heq⟩ := h ⟨0, 0, [], []⟩
    rw [appendPeerMsg_eq] at heq
    exact congrArg (fun out => out.2.1.msgData) heq
  · rintro rfl response
    exact ⟨_, appendPeerMsg_eq response⟩

/-- **A second request** finds no list. -/
theorem adds_nil (sv : Server) (conn : ℕ) (nowtime : UInt64) {ptrRequest' : UnreadMsgRequest}
    (h : ptrRequest'.userId = ptrRequest.userId) :
    Adds (onUnreadMsgRequest order sv r conn ptrRequest nowtime).2 ptrRequest' [] := by
  rw [adds_iff, h, onUnreadMsgRequest_eq]
  have hreset : ∀ l, (resetNumbers (CRedis.del r (ascii "unreadMsg:" ++ ptrRequest.userId))
      ptrRequest.userId l).keys (cstr (ascii "unreadMsg:" ++ ptrRequest.userId)) = none := by
    intro l
    refine (foldl_set_of_ne (fun x => ?_) _ _).trans (CRedis.keys_del_self _)
    rw [cstr_unreadMsg]
    simp [ascii]
  rw [Keyspace.listAt, hreset]

end Request

/-! ## What is stored -/

theorem take_append_take {α : Type*} (s t : List α) (n : ℕ) :
    (s ++ t.take n).take n = (s ++ t).take n := by
  rw [List.take_append, List.take_append, List.take_take, min_eq_left (Nat.sub_le _ _)]

section Handle

variable {sv : Server} {r : Redis} {u : Bytes} {ptrMsg : MsgData}

theorem findUser_doPeerMsg (v : Bytes) :
    (doPeerMsg sv r ptrMsg).1.manager.findUser v = sv.manager.findUser v := by
  rw [doPeerMsg_eq]
  split
  · rfl
  · split <;> rfl

theorem online_doPeerMsg (v : Bytes) :
    (doPeerMsg sv r ptrMsg).2.keys (ascii "online:" ++ v) = r.keys (ascii "online:" ++ v) := by
  rw [doPeerMsg_eq]
  split
  · rfl
  · split
    · rfl
    · apply CRedis.keys_lpushKeep_of_ne
      rw [cstr_unreadMsg]
      exact (unreadMsg_ne_online _ _).symm

theorem listOrNone_doPeerMsg {k : Bytes} (h : r.keys.ListOrNone k) :
    (doPeerMsg sv r ptrMsg).2.keys.ListOrNone k := by
  rw [doPeerMsg_eq]
  split
  · exact h
  · split
    · exact h
    · exact CRedis.listOrNone_lpushKeep h

/-- **One message**: the list of a user who is not online gets it if it is stored under the key. -/
theorem listAt_doPeerMsg (honline : r.keys (ascii "online:" ++ u) = none)
    (hlist : r.keys.ListOrNone (ascii "unreadMsg:" ++ u)) :
    (doPeerMsg sv r ptrMsg).2.keys.listAt (ascii "unreadMsg:" ++ u) =
      if cstr ptrMsg.toId = u ∧ sv.manager.findUser ptrMsg.toId = none then
        ((ChatMsg.msgData ptrMsg).serialize :: r.keys.listAt (ascii "unreadMsg:" ++ u)).take 100
      else r.keys.listAt (ascii "unreadMsg:" ++ u) := by
  rw [doPeerMsg_eq]
  cases hfind : sv.manager.findUser ptrMsg.toId with
  | some ptrConnection => simp
  | none =>
    by_cases hu : cstr ptrMsg.toId = u
    · subst hu
      have hget : CRedis.get r (ascii "online:" ++ ptrMsg.toId) = [] := by
        rw [CRedis.get, cstr_online, Keyspace.get, honline]
      rw [← cstr_unreadMsg] at hlist ⊢
      rw [if_neg (not_not.2 hget), if_pos ⟨rfl, rfl⟩]
      exact CRedis.listAt_lpushKeep hlist
    · have hnot : ¬(cstr ptrMsg.toId = u ∧ (none : Option ℕ) = none) := fun h => hu h.1
      rw [if_neg hnot]
      dsimp only
      split
      · rfl
      · refine Keyspace.listAt_congr (CRedis.keys_lpushKeep_of_ne ?_)
        rw [cstr_unreadMsg]
        exact fun h => hu (List.append_cancel_left h).symm

end Handle

/-! ## Many messages -/

namespace Cluster

variable {ι : Type*} {c : Cluster ι} {u : Bytes} {ms : List (ι × MsgData)}

/-- The messages to the user are stored. -/
theorem stored_of_toId (hu : NulFree u) (hoffline : ∀ i, (c.servers i).manager.findUser u = none)
    {e : ι × MsgData} (he : e.2.toId = u) : cstr e.2.toId = u ∧ c.Misses e := by
  rw [Misses, he]
  exact ⟨cstr_eq_self hu, hoffline e.1⟩

/-- If no other message is stored, those to the user are all there are. -/
theorem storedUnder_eq_messagesTo (hu : NulFree u)
    (hoffline : ∀ i, (c.servers i).manager.findUser u = none)
    (h : ∀ e ∈ ms, e.2.toId ≠ u → cstr e.2.toId = u → ¬c.Misses e) :
    c.storedUnder u ms = messagesTo u ms := by
  have hfilter : (ms.filter fun e => cstr e.2.toId = u ∧ c.Misses e) =
      ms.filter fun e => e.2.toId = u := by
    refine List.filter_congr fun e he => ?_
    rw [decide_eq_decide]
    refine ⟨fun hstored => ?_, stored_of_toId hu hoffline⟩
    by_contra hne
    exact h e he hne hstored.1 hstored.2
  rw [storedUnder, hfilter, messagesTo]

/-- If there are no more than those to the user, no other is stored. -/
theorem not_misses_of_length (hu : NulFree u)
    (hoffline : ∀ i, (c.servers i).manager.findUser u = none)
    (hlen : (c.storedUnder u ms).length = (messagesTo u ms).length) :
    ∀ e ∈ ms, e.2.toId ≠ u → cstr e.2.toId = u → ¬c.Misses e := by
  intro e he hne hcstr hmisses
  have hagain : (ms.filter fun e => e.2.toId = u) =
      (ms.filter fun e => cstr e.2.toId = u ∧ c.Misses e).filter fun e => e.2.toId = u := by
    rw [List.filter_filter]
    refine List.filter_congr fun e _ => ?_
    rw [← Bool.decide_and, decide_eq_decide]
    exact ⟨fun h => ⟨h, stored_of_toId hu hoffline h⟩, And.left⟩
  simp only [storedUnder, messagesTo, List.length_reverse, List.length_map] at hlen
  rw [hagain] at hlen
  have hall := List.filter_eq_self.1 (List.filter_sublist.eq_of_length hlen.symm)
  exact hne (of_decide_eq_true (hall e (List.mem_filter.2 ⟨he, decide_eq_true ⟨hcstr, hmisses⟩⟩)))

variable [DecidableEq ι]

theorem handle_cons (e : ι × MsgData) : c.handle (e :: ms) = (c.peerMsg e.1 e.2).handle ms := rfl

theorem misses_peerMsg (i : ι) (ptrMsg : MsgData) (e : ι × MsgData) :
    (c.peerMsg i ptrMsg).Misses e ↔ c.Misses e := by
  unfold Misses peerMsg
  by_cases he : e.1 = i
  · dsimp only
    rw [he, Function.update_self, findUser_doPeerMsg]
  · dsimp only
    rw [Function.update_of_ne he]

theorem storedUnder_cons (e : ι × MsgData) : c.storedUnder u (e :: ms) =
    (c.peerMsg e.1 e.2).storedUnder u ms ++
      if cstr e.2.toId = u ∧ c.Misses e then [(ChatMsg.msgData e.2).serialize] else [] := by
  have hsame : (c.peerMsg e.1 e.2).storedUnder u ms = c.storedUnder u ms := by
    simp only [storedUnder, misses_peerMsg]
  rw [hsame, storedUnder, storedUnder, List.filter_cons]
  by_cases he : cstr e.2.toId = u ∧ c.Misses e
  · rw [if_pos (decide_eq_true he), if_pos he, List.map_cons, List.reverse_cons]
  · rw [if_neg (by simpa using he), if_neg he, List.append_nil]

/-- **What is in the list** of a user who is not online: the newest hundred of what was stored. -/
theorem listAt_handle (honline : c.redis.keys (ascii "online:" ++ u) = none)
    (hlist : c.redis.keys.ListOrNone (ascii "unreadMsg:" ++ u))
    (hlen : (c.redis.keys.listAt (ascii "unreadMsg:" ++ u)).length ≤ 100) :
    (c.handle ms).redis.keys.listAt (ascii "unreadMsg:" ++ u) =
      (c.storedUnder u ms ++ c.redis.keys.listAt (ascii "unreadMsg:" ++ u)).take 100 := by
  induction ms generalizing c with
  | nil => exact (List.take_of_length_le hlen).symm
  | cons e ms ih =>
    have hone : (c.peerMsg e.1 e.2).redis.keys.listAt (ascii "unreadMsg:" ++ u) =
        if cstr e.2.toId = u ∧ c.Misses e then ((ChatMsg.msgData e.2).serialize ::
          c.redis.keys.listAt (ascii "unreadMsg:" ++ u)).take 100
        else c.redis.keys.listAt (ascii "unreadMsg:" ++ u) := listAt_doPeerMsg honline hlist
    have hshort : ((c.peerMsg e.1 e.2).redis.keys.listAt (ascii "unreadMsg:" ++ u)).length ≤ 100 := by
      rw [hone]
      split
      · exact List.length_take_le ..
      · exact hlen
    rw [handle_cons, ih ((online_doPeerMsg u).trans honline) (listOrNone_doPeerMsg hlist) hshort, hone,
      storedUnder_cons, List.append_assoc]
    split
    · exact take_append_take ..
    · rfl

end Cluster

/-! ## There and back -/

/-- **The round trip**: a user who is not online gets the up to 99 messages that were handled since, the
newest first, and each once, exactly if every message to someone else whose id is the user's up to a
zero byte finds a session. -/
theorem roundTrip_iff {ι : Type*} [DecidableEq ι] {order : Keyspace.NumericOrder} {c : Cluster ι}
    {u : Bytes} {ms : List (ι × MsgData)} (hu : NulFree u)
    (hoffline : ∀ i, (c.servers i).manager.findUser u = none)
    (honline : c.redis.keys (ascii "online:" ++ u) = none)
    (hempty : c.redis.keys (ascii "unreadMsg:" ++ u) = none)
    (hn : (Cluster.messagesTo u ms).length ≤ 99) :
    RoundTrip order (c.handle ms).redis u (Cluster.messagesTo u ms) ↔
      ∀ e ∈ ms, e.2.toId ≠ u → cstr e.2.toId = u → ¬c.Misses e := by
  have hkey : cstr (ascii "unreadMsg:" ++ u) = ascii "unreadMsg:" ++ u :=
    cstr_eq_self (.append (by decide) hu)
  have hnil : c.redis.keys.listAt (ascii "unreadMsg:" ++ u) = [] := by
    rw [Keyspace.listAt, hempty]
  have hlist : (c.handle ms).redis.keys.listAt (ascii "unreadMsg:" ++ u) =
      (c.storedUnder u ms).take 100 := by
    rw [Cluster.listAt_handle honline (fun v hv => by rw [hempty] at hv; cases hv) (by rw [hnil]; simp),
      hnil, List.append_nil]
  constructor
  · intro h
    have hfirst := adds_iff.1 (h.first ⟨u, 0⟩ rfl)
    rw [hkey, hlist] at hfirst
    refine Cluster.not_misses_of_length hu hoffline ?_
    have hlen := congrArg List.length hfirst
    rw [List.length_take] at hlen
    omega
  · intro h
    have hstored := Cluster.storedUnder_eq_messagesTo hu hoffline h
    constructor
    case first =>
      rintro ptrRequest rfl
      rw [adds_iff, hkey, hlist, hstored, List.take_of_length_le (hn.trans (by omega))]
    case second =>
      rintro sv conn ptrRequest ptrRequest' nowtime hu' hu''
      exact adds_nil sv conn nowtime (hu''.trans hu'.symm)

/-! ## A message to someone else -/

/-- Messages to `u`, with one to `w` between them. -/
def toUAndW : List (Unit × MsgData) :=
  [((), ⟨0, 0, ascii "v", ascii "u", [1, 0, 2], chatText⟩),
    ((), ⟨0, 0, ascii "v", ascii "w", ascii "x", chatText⟩),
    ((), ⟨0, 0, ascii "v", ascii "u", ascii "y", chatText⟩)]

/-- A message to someone whose id is that of `u`, a zero byte, and more. -/
def toUZero : List (Unit × MsgData) := [((), ⟨0, 0, ascii "v", ascii "u" ++ [0, 120], [], chatText⟩)]

/-- A server without connections. -/
def lonely : Cluster Unit := .start (fun _ => ascii "h:1") ⟨fun _ => none, []⟩

theorem roundTrip_toUAndW :
    RoundTrip GroupLog.decimalOrder (lonely.handle toUAndW).redis (ascii "u")
      (Cluster.messagesTo (ascii "u") toUAndW) ∧
    (Cluster.messagesTo (ascii "u") toUAndW).length = 2 :=
  ⟨(roundTrip_iff (by decide) (fun _ => rfl) rfl rfl (by decide)).2 (by decide), by decide⟩

/-- **Another's message**: `u` has no messages, and gets one. -/
theorem not_roundTrip_toUZero : Cluster.messagesTo (ascii "u") toUZero = [] ∧
    ¬RoundTrip GroupLog.decimalOrder (lonely.handle toUZero).redis (ascii "u") [] := by
  refine ⟨by decide, fun h => ?_⟩
  have hone : ((lonely.handle toUZero).redis.keys.listAt
      (cstr (ascii "unreadMsg:" ++ ascii "u"))).length = 1 := by decide +kernel
  rw [adds_iff.1 (h.first ⟨ascii "u", 0⟩ rfl)] at hone
  cases hone

end MutexIM.MessageServer
