import MutexIM.Web.SocketMaps

/-!
# Who is online on the web server

A socket's handshake sets `online:<user>` and asks for the user's groups; the callback adds the user to
`onlineGroup:<group>` of each. A disconnect deletes the key and asks again, and the callback removes the
user. The callbacks run later than the handlers, in between other handlers and other callbacks.

* `Presence.step`: a socket connects, sends a handshake or a message, or goes; Redis executes a command;
  a callback runs.
* `Presence.Settled`: what the commands issued and the callbacks to come will lead to is that the users
  who are connected are online, in all their groups. Every step keeps this.
* `Presence.online_iff_of_run`: once nothing is left to do, exactly the connected users are online.
-/

namespace MutexIM.Web

open Bytes Codec SocketServer

/-- A web server with Redis. As history, the user each socket has sent a handshake for. -/
structure Presence where
  server : SocketServer
  redis : Redis
  shaken : ℕ → Option Bytes

namespace Presence

inductive Event
  | connection
  | handleShake (socket : ℕ) (userId : Bytes)
  | disconnect (socket : ℕ)
  | peerMessage (data : MsgData)
  | execute
  | callback

section Step

variable (serialize : MsgData → Bytes) (gbk : Bytes → Bytes) (s : Presence)

/-- A socket sends a handshake. -/
def handleShake (socket : ℕ) (userId : Bytes) : Presence :=
  { s with
    server := s.server.handleShake socket userId
    shaken := Function.update s.shaken socket (some userId) }

def step : Event → Option Presence
  | .connection => some { s with server := s.server.connection }
  | .handleShake socket userId =>
    if s.server.connected socket then some (s.handleShake socket userId) else none
  | .disconnect socket =>
    if s.server.connected socket then some { s with server := s.server.disconnect socket } else none
  | .peerMessage data => some { s with server := s.server.peerMessage data }
  | .execute => (s.server.redisDB.run SocketCommand.exec s.redis).map fun (r, p) =>
    { s with server := { s.server with redisDB := p }, redis := r }
  | .callback => s.server.redisDB.next?.map fun (reply, p) =>
    { s with server := ({ s.server with redisDB := p }.callback serialize gbk reply) }

/-- The server has just started. -/
def start (g_socketStr : Bytes) (r : Redis) : Presence where
  server := .start g_socketStr
  redis := r
  shaken _ := none

/-- The user has a socket that has sent a handshake and has not gone. -/
def Connected (u : Bytes) : Prop :=
  ∃ socket, s.server.connected socket = true ∧ s.shaken socket = some u

/-- The condition on an event: a socket sends its first handshake, for a user who is not connected. -/
def OneSocket : Event → Prop
  | .handleShake socket userId => s.shaken socket = none ∧
      ∀ socket' < s.server.created, s.server.connected socket' = true → s.shaken socket' ≠ some userId
  | _ => True

instance (e : Event) : Decidable (s.OneSocket e) := by
  unfold OneSocket
  split <;> infer_instance

end Step

/-! ## Who is in which group -/

/-- A user joins a group, or leaves it. -/
abbrev Effect := (Bytes × Bytes) × Bool

/-- What a command does to the sets `onlineGroup:<group>`. -/
def now : SocketCommand → List Effect
  | .sadd groupId userId => [((groupId, userId), true)]
  | .srem groupId userId => [((groupId, userId), false)]
  | _ => []

/-- What the callback of a command will do to them. -/
def later (groups : Bytes → List Bytes) : SocketCommand → List Effect
  | .smembers userId online => (groups userId).map fun g => ((g, userId), online)
  | _ => []

/-- What the callback of an answer does to them. -/
def answer : SocketReply → List Effect
  | .smembers userId online reply => reply.elements.map fun g => ((g.bytes, userId), online)
  | _ => []

def apply (v : Bytes × Bytes → Bool) (e : Effect) : Bytes × Bytes → Bool := Function.update v e.1 e.2

/-- Who is in which group. -/
def view (r : Redis) (e : Bytes × Bytes) : Bool :=
  decide (e.2 ∈ r.keys.members (ascii "onlineGroup:" ++ e.1))

/-- The key of a user is there. -/
def hasKey (u : Bytes) (r : Redis) : Bool := (r.keys (ascii "online:" ++ u)).isSome

/-- The groups of a user. -/
def groupsOf (r : Redis) (u : Bytes) : List Bytes := r.keys.members (ascii "groupSet:" ++ u)

theorem foldl_apply_map (v : Bytes × Bytes → Bool) (gs : List Bytes) (userId : Bytes) (online : Bool)
    (g u : Bytes) : (gs.map fun g => (((g, userId), online) : Effect)).foldl apply v (g, u) =
      if u = userId ∧ g ∈ gs then online else v (g, u) := by
  induction gs generalizing v with
  | nil => simp
  | cons g' gs ih =>
    rw [List.map_cons, List.foldl_cons, ih]
    by_cases hgs : u = userId ∧ g ∈ gs
    · rw [if_pos hgs, if_pos ⟨hgs.1, List.mem_cons_of_mem _ hgs.2⟩]
    · rw [if_neg hgs, apply, Function.update_apply]
      refine if_congr ?_ rfl rfl
      rw [Prod.mk.injEq, List.mem_cons]
      constructor
      · exact fun ⟨hg, hu⟩ => ⟨hu, .inl hg⟩
      · exact fun ⟨hu, hg⟩ => ⟨hg.resolve_right fun hg => hgs ⟨hu, hg⟩, hu⟩

/-! ## What Redis does with a command -/

section Exec

variable {r : Redis} {c : SocketCommand} {g u : Bytes}

theorem onlineGroup_ne_online : ascii "onlineGroup:" ++ g ≠ ascii "online:" ++ u := by simp [ascii]

theorem onlineGroup_ne_unreadMsg : ascii "onlineGroup:" ++ g ≠ ascii "unreadMsg:" ++ u := by
  simp [ascii]

theorem groupSet_ne_online : ascii "groupSet:" ++ g ≠ ascii "online:" ++ u := by simp [ascii]

theorem groupSet_ne_onlineGroup : ascii "groupSet:" ++ g ≠ ascii "onlineGroup:" ++ u := by
  simp [ascii]

theorem groupSet_ne_unreadMsg : ascii "groupSet:" ++ g ≠ ascii "unreadMsg:" ++ u := by simp [ascii]

theorem online_ne_unreadMsg : ascii "online:" ++ g ≠ ascii "unreadMsg:" ++ u := by simp [ascii]

/-- The keys that a command leaves. -/
theorem exec_keys_of_ne {k : Bytes} (honline : ∀ u, k ≠ ascii "online:" ++ u)
    (hgroup : ∀ e ∈ now c, k ≠ ascii "onlineGroup:" ++ e.1.1) (hunread : ∀ u, k ≠ ascii "unreadMsg:" ++ u) :
    (c.exec r).1.keys k = r.keys k := by
  cases c with
  | get => rfl
  | set userId => exact Keyspace.set_of_ne (honline userId)
  | del userId => exact Keyspace.del_of_ne (honline userId)
  | publish => rfl
  | smembers => rfl
  | sadd => exact Keyspace.sadd_of_ne (hgroup _ (List.mem_singleton_self _))
  | srem => exact Keyspace.srem_of_ne (hgroup _ (List.mem_singleton_self _))
  | lpush toId => exact Keyspace.lpush_of_ne (hunread toId)
  | ltrim toId => exact Keyspace.ltrim_of_ne (hunread toId)

theorem groupSet_exec : (c.exec r).1.keys (ascii "groupSet:" ++ u) = r.keys (ascii "groupSet:" ++ u) :=
  exec_keys_of_ne (fun _ => groupSet_ne_online) (fun _ _ => groupSet_ne_onlineGroup)
    fun _ => groupSet_ne_unreadMsg

theorem onlineGroup_exec (h : now c = []) :
    (c.exec r).1.keys (ascii "onlineGroup:" ++ g) = r.keys (ascii "onlineGroup:" ++ g) :=
  exec_keys_of_ne (fun _ => onlineGroup_ne_online)
    (fun _ he => absurd he (h ▸ List.not_mem_nil)) fun _ => onlineGroup_ne_unreadMsg

/-- **A command on the key of a user.** -/
theorem hasKey_exec : hasKey u (c.exec r).1 = setOnline u (hasKey u r) c := by
  unfold hasKey
  cases c with
  | get => rfl
  | set userId value =>
    simp only [SocketCommand.exec, Keyspace.set, setOnline]
    by_cases hu : userId = u
    · rw [if_pos hu, hu, Function.update_self]
      rfl
    · rw [if_neg hu, Function.update_of_ne fun he => hu (List.append_cancel_left he).symm]
  | del userId =>
    simp only [SocketCommand.exec, Keyspace.del, setOnline]
    by_cases hu : userId = u
    · rw [if_pos hu, hu, Function.update_self]
      rfl
    · rw [if_neg hu, Function.update_of_ne fun he => hu (List.append_cancel_left he).symm]
  | publish => rfl
  | smembers => rfl
  | sadd groupId => exact congrArg _ (Keyspace.sadd_of_ne onlineGroup_ne_online.symm)
  | srem groupId => exact congrArg _ (Keyspace.srem_of_ne onlineGroup_ne_online.symm)
  | lpush toId => exact congrArg _ (Keyspace.lpush_of_ne online_ne_unreadMsg)
  | ltrim toId => exact congrArg _ (Keyspace.ltrim_of_ne online_ne_unreadMsg)

theorem setOrNone_exec (h : r.keys.SetOrNone (ascii "onlineGroup:" ++ g)) :
    (c.exec r).1.keys.SetOrNone (ascii "onlineGroup:" ++ g) := by
  cases c with
  | sadd groupId => exact h.sadd
  | srem groupId => exact h.srem
  | _ => exact h.congr (onlineGroup_exec rfl)

theorem view_congr {r' : Redis}
    (h : ∀ g, r'.keys (ascii "onlineGroup:" ++ g) = r.keys (ascii "onlineGroup:" ++ g)) :
    view r' = view r := by
  funext e
  rw [view, view, Keyspace.members_congr (h e.1)]

/-- **A command on the groups.** -/
theorem view_exec (hset : ∀ g, r.keys.SetOrNone (ascii "onlineGroup:" ++ g)) :
    view (c.exec r).1 = (now c).foldl apply (view r) := by
  cases c with
  | sadd groupId userId =>
    funext ⟨g, u⟩
    rw [now, List.foldl_cons, List.foldl_nil, apply, Function.update_apply]
    have hmem : u ∈ (r.keys.sadd (ascii "onlineGroup:" ++ groupId) userId).2.members
        (ascii "onlineGroup:" ++ g) ↔ _ := (hset g).mem_sadd
    rw [List.append_cancel_left_eq] at hmem
    simp only [view, SocketCommand.exec, Prod.mk.injEq, hmem]
    split <;> simp_all
  | srem groupId userId =>
    funext ⟨g, u⟩
    rw [now, List.foldl_cons, List.foldl_nil, apply, Function.update_apply]
    have hmem : u ∈ (r.keys.srem (ascii "onlineGroup:" ++ groupId) userId).2.members
        (ascii "onlineGroup:" ++ g) ↔ _ := Keyspace.mem_members_srem
    rw [List.append_cancel_left_eq] at hmem
    simp only [view, SocketCommand.exec, Prod.mk.injEq, hmem]
    split <;> simp_all
  | _ => exact view_congr fun g => onlineGroup_exec rfl

/-- The answer to `SMEMBERS` has the members of the set; there are none if it is no set. -/
theorem answer_exec : (c.exec r).2.toList.flatMap answer = later (groupsOf r) c := by
  cases c with
  | smembers userId online =>
    simp only [SocketCommand.exec, Option.toList_some, List.flatMap_cons, List.flatMap_nil,
      List.append_nil, answer, later, groupsOf]
    obtain h | ⟨h, hnil⟩ := Keyspace.smembers_elements r.keys (ascii "groupSet:" ++ userId)
    · rw [h, Reply.elements, List.map_map]
      rfl
    · rw [h, hnil]
      rfl
  | _ => rfl

/-- **What a callback issues** is what was expected of it. -/
theorem callback_eq (serialize : MsgData → Bytes) (gbk : Bytes → Bytes) (sv : SocketServer)
    (reply : SocketReply) (groups : Bytes → List Bytes) :
    ∃ cs, sv.callback serialize gbk reply = sv.issue cs ∧ cs.flatMap now = answer reply ∧
      cs.flatMap (later groups) = [] ∧ ∀ u online, cs.foldl (setOnline u) online = online := by
  cases reply with
  | get data reply =>
    cases reply with
    | str reply => exact ⟨_, rfl, rfl, rfl, fun _ _ => rfl⟩
    | _ => exact ⟨_, rfl, rfl, rfl, fun _ _ => rfl⟩
  | smembers userId online reply =>
    have hfold : ∀ (f : Bytes → SocketCommand) u b, (∀ b g, setOnline u b (f g) = b) →
        (reply.elements.map fun g => f g.bytes).foldl (setOnline u) b = b := by
      intro f u b hf
      rw [List.foldl_map]
      simp only [hf, List.foldl_fixed]
    cases online with
    | true =>
      refine ⟨_, rfl, ?_, ?_, fun u b => hfold (.sadd · userId) u b fun _ _ => rfl⟩
      · rw [answer, List.flatMap_map]
        exact List.map_eq_flatMap.symm
      · rw [List.flatMap_map]
        exact List.flatMap_eq_nil_iff.2 fun _ _ => rfl
    | false =>
      refine ⟨_, rfl, ?_, ?_, fun u b => hfold (.srem · userId) u b fun _ _ => rfl⟩
      · rw [answer, List.flatMap_map]
        exact List.map_eq_flatMap.symm
      · rw [List.flatMap_map]
        exact List.flatMap_eq_nil_iff.2 fun _ _ => rfl
  | lpush toId reply =>
    cases reply with
    | integer n =>
      simp only [SocketServer.callback]
      split
      · exact ⟨_, rfl, rfl, rfl, fun _ _ => rfl⟩
      · exact ⟨[], sv.issue_nil.symm, rfl, rfl, fun _ _ => rfl⟩
    | _ => exact ⟨[], sv.issue_nil.symm, rfl, rfl, fun _ _ => rfl⟩

end Exec

/-! ## What the commands and callbacks lead to -/

section Settled

variable {serialize : MsgData → Bytes} {gbk : Bytes → Bytes} {groups : Bytes → List Bytes}
  {s s' : Presence}

/-- The key of a user once all commands are executed. -/
def willBeOnline (s : Presence) (u : Bytes) : Bool :=
  s.server.redisDB.settle (setOnline u) (hasKey u s.redis)

/-- Who will be in which group once all commands are executed and all callbacks have run. -/
def willBeIn (groups : Bytes → List Bytes) (s : Presence) : Bytes × Bytes → Bool :=
  (s.server.redisDB.outlook now (later groups) answer).foldl apply (view s.redis)

/-- The sockets and the users: those who are connected have one socket, and it is noted. -/
structure Sockets (s : Presence) : Prop where
  socketMap : ∀ socket, s.server.connected socket = true → s.server.socketMap socket = s.shaken socket
  created : ∀ socket, s.server.connected socket = true → socket < s.server.created
  free : ∀ socket, s.server.created ≤ socket →
    s.server.socketMap socket = none ∧ s.shaken socket = none
  unique : ∀ {u socket socket'}, s.server.connected socket = true → s.shaken socket = some u →
    s.server.connected socket' = true → s.shaken socket' = some u → socket = socket'

/-- What the commands and callbacks lead to: the users who are connected are online, in all their
groups. -/
structure Settled (groups : Bytes → List Bytes) (s : Presence) : Prop where
  sockets : s.Sockets
  groupSet : groupsOf s.redis = groups
  onlineGroup : ∀ g, s.redis.keys.SetOrNone (ascii "onlineGroup:" ++ g)
  online : ∀ u, s.willBeOnline u = true ↔ s.Connected u
  group : ∀ g u, s.willBeIn groups (g, u) = true ↔ s.Connected u ∧ g ∈ groups u

/-- Executing a command. -/
theorem Settled.execute (h : s.Settled groups) {r : Redis} {p : Pipeline SocketCommand SocketReply}
    (hrun : s.server.redisDB.run SocketCommand.exec s.redis = some (r, p)) :
    Settled groups { s with server := { s.server with redisDB := p }, redis := r } := by
  obtain ⟨c, -, hr, -⟩ := Pipeline.run_eq_some hrun
  refine ⟨⟨h.sockets.socketMap, h.sockets.created, h.sockets.free, h.sockets.unique⟩, ?_, fun g => ?_,
    fun u => ?_, fun g u => ?_⟩
  · rw [← h.groupSet, hr]
    funext u
    exact Keyspace.members_congr groupSet_exec
  · rw [hr]
    exact setOrNone_exec (h.onlineGroup g)
  · have hsettle : p.settle (setOnline u) (hasKey u r) = s.willBeOnline u :=
      Pipeline.settle_run (fun _ _ => hasKey_exec) hrun
    exact (Bool.eq_iff_iff.1 hsettle).trans (h.online u)
  · have houtlook : (p.outlook now (later groups) answer).foldl apply (view r) = s.willBeIn groups :=
      Pipeline.foldl_outlook_run (fun c => view_exec h.onlineGroup)
        (fun c => h.groupSet ▸ answer_exec) hrun
    rw [willBeIn, houtlook]
    exact h.group g u

/-- Running a callback. -/
theorem Settled.callback (h : s.Settled groups) {reply : SocketReply}
    {p : Pipeline SocketCommand SocketReply} (hnext : s.server.redisDB.next? = some (reply, p)) :
    Settled groups
      { s with server := { s.server with redisDB := p }.callback serialize gbk reply } := by
  obtain ⟨cs, hcs, hnow, hlater, honline⟩ := callback_eq serialize gbk { s.server with redisDB := p } reply
    groups
  rw [hcs]
  refine ⟨⟨h.sockets.socketMap, h.sockets.created, h.sockets.free, h.sockets.unique⟩, h.groupSet,
    h.onlineGroup, fun u => ?_, fun g u => ?_⟩
  · have hsettle : (p.issue cs).settle (setOnline u) (hasKey u s.redis) = s.willBeOnline u := by
      rw [Pipeline.settle_issue, honline]
      exact Pipeline.settle_congr (Pipeline.next?_eq_some hnext).2
    exact (Bool.eq_iff_iff.1 hsettle).trans (h.online u)
  · have houtlook := Pipeline.outlook_callback hnow hlater hnext
    have hwill : willBeIn groups { s with server := { s.server with redisDB := p }.issue cs } =
        s.willBeIn groups := congrArg (List.foldl apply (view s.redis)) houtlook
    rw [hwill]
    exact h.group g u

/-- A new socket. -/
theorem Settled.connection (h : s.Settled groups) :
    Settled groups { s with server := s.server.connection } := by
  have hfree := h.sockets.free s.server.created le_rfl
  have hconnected : ∀ {socket}, s.server.connection.connected socket = true →
      socket = s.server.created ∨ s.server.connected socket = true := by
    intro socket hsocket
    simp only [SocketServer.connection, Function.update_apply] at hsocket
    split at hsocket
    · next heq => exact .inl heq
    · exact .inr hsocket
  have hold : ∀ {socket u}, s.server.connection.connected socket = true → s.shaken socket = some u →
      s.server.connected socket = true := by
    intro socket u hsocket hu
    rcases hconnected hsocket with rfl | hsocket
    · cases hfree.2.symm.trans hu
    · exact hsocket
  have hiff : ∀ u, Connected { s with server := s.server.connection } u ↔ s.Connected u := by
    intro u
    constructor
    · exact fun ⟨socket, hsocket, hu⟩ => ⟨socket, hold hsocket hu, hu⟩
    · rintro ⟨socket, hsocket, hu⟩
      have hne : socket ≠ s.server.created := (h.sockets.created socket hsocket).ne
      exact ⟨socket, (Function.update_of_ne hne ..).trans hsocket, hu⟩
  refine ⟨⟨fun socket hsocket => ?_, fun socket hsocket => ?_, fun socket hsocket => ?_, ?_⟩, h.groupSet,
    h.onlineGroup, fun u => (h.online u).trans (hiff u).symm,
    fun g u => (h.group g u).trans (and_congr_left' (hiff u).symm)⟩
  · rcases hconnected hsocket with rfl | hsocket
    · exact hfree.1.trans hfree.2.symm
    · exact h.sockets.socketMap socket hsocket
  · rcases hconnected hsocket with rfl | hsocket
    · exact Nat.lt_succ_self _
    · exact (h.sockets.created socket hsocket).trans (Nat.lt_succ_self _)
  · exact h.sockets.free socket ((Nat.le_succ _).trans hsocket)
  · exact fun hs hu hs' hu' => h.sockets.unique (hold hs hu) hu (hold hs' hu') hu'

/-- A message changes no presence. -/
theorem Settled.peerMessage (h : s.Settled groups) (data : MsgData) :
    Settled groups { s with server := s.server.peerMessage data } := by
  refine ⟨⟨h.sockets.socketMap, h.sockets.created, h.sockets.free, h.sockets.unique⟩, h.groupSet,
    h.onlineGroup, fun u => ?_, fun g u => ?_⟩
  · have hsettle : (s.server.peerMessage data).redisDB.settle (setOnline u) (hasKey u s.redis) =
        s.willBeOnline u := Pipeline.settle_issue _
    exact (Bool.eq_iff_iff.1 hsettle).trans (h.online u)
  · have houtlook : (s.server.peerMessage data).redisDB.outlook now (later groups) answer =
        s.server.redisDB.outlook now (later groups) answer :=
      (Pipeline.outlook_issue rfl).trans (List.append_nil _)
    have hwill : willBeIn groups { s with server := s.server.peerMessage data } = s.willBeIn groups :=
      congrArg (List.foldl apply (view s.redis)) houtlook
    rw [hwill]
    exact h.group g u

/-- The commands of a handshake or a disconnect have their callback join or leave all groups. -/
theorem willBeIn_issue (s s' : Presence) (cs : List SocketCommand) {userId : Bytes} {online : Bool}
    (hdb : s'.server.redisDB = s.server.redisDB.issue cs) (hredis : s'.redis = s.redis)
    (hnow : cs.flatMap now = [])
    (hlater : cs.flatMap (later groups) = (groups userId).map fun g => ((g, userId), online))
    (g u : Bytes) : s'.willBeIn groups (g, u) =
      if u = userId ∧ g ∈ groups userId then online else s.willBeIn groups (g, u) := by
  rw [willBeIn, hdb, hredis, Pipeline.outlook_issue hnow, List.foldl_append, hlater, foldl_apply_map]
  rfl

theorem shaken_handleShake {socket socket' : ℕ} {userId u : Bytes} (hfirst : s.shaken socket = none) :
    (s.handleShake socket userId).shaken socket' = some u ↔
      socket' = socket ∧ u = userId ∨ s.shaken socket' = some u := by
  simp only [Presence.handleShake, Function.update_apply]
  split
  · next heq => rw [heq, hfirst, Option.some.injEq]; simp [eq_comm]
  · next hne => simp [hne]

theorem connected_handleShake {socket : ℕ} {userId : Bytes}
    (hsocket : s.server.connected socket = true) (hfirst : s.shaken socket = none) (u : Bytes) :
    (s.handleShake socket userId).Connected u ↔ u = userId ∨ s.Connected u := by
  constructor
  · rintro ⟨socket', hs, hu⟩
    rcases (shaken_handleShake hfirst).1 hu with ⟨-, hu⟩ | hu
    · exact .inl hu
    · exact .inr ⟨socket', hs, hu⟩
  · rintro (hu | ⟨socket', hs, hu⟩)
    · exact ⟨socket, hsocket, (shaken_handleShake hfirst).2 (.inl ⟨rfl, hu⟩)⟩
    · exact ⟨socket', hs, (shaken_handleShake hfirst).2 (.inr hu)⟩

/-- The sockets after a handshake. -/
theorem Sockets.handleShake (h : s.Sockets) {socket : ℕ} {userId : Bytes}
    (hsocket : s.server.connected socket = true) (hok : s.OneSocket (.handleShake socket userId)) :
    (s.handleShake socket userId).Sockets := by
  obtain ⟨hfirst, hother⟩ := hok
  have hother : ∀ socket', s.server.connected socket' = true → s.shaken socket' ≠ some userId :=
    fun socket' hs => hother socket' (h.created socket' hs) hs
  refine ⟨fun socket' hs => ?_, h.created, fun socket' hs => ?_, ?_⟩
  · simp only [Presence.handleShake, SocketServer.handleShake, issue, Function.update_apply]
    split
    · rfl
    · exact h.socketMap socket' hs
  · have hne : socket' ≠ socket := by
      rintro rfl
      exact absurd (h.created _ hsocket) (not_lt.2 hs)
    simp only [Presence.handleShake, SocketServer.handleShake, issue, Function.update_of_ne hne]
    exact h.free socket' hs
  · intro u socket₁ socket₂ hs₁ hu₁ hs₂ hu₂
    rcases (shaken_handleShake hfirst).1 hu₁ with ⟨heq₁, rfl⟩ | hold₁
    · rcases (shaken_handleShake hfirst).1 hu₂ with ⟨heq₂, -⟩ | hold₂
      · exact heq₁.trans heq₂.symm
      · exact absurd hold₂ (hother _ hs₂)
    · rcases (shaken_handleShake hfirst).1 hu₂ with ⟨-, rfl⟩ | hold₂
      · exact absurd hold₁ (hother _ hs₁)
      · exact h.unique hs₁ hold₁ hs₂ hold₂

/-- **A handshake** of a user who is not connected. -/
theorem Settled.handleShake (h : s.Settled groups) {socket : ℕ} {userId : Bytes}
    (hsocket : s.server.connected socket = true) (hok : s.OneSocket (.handleShake socket userId)) :
    (s.handleShake socket userId).Settled groups := by
  have hiff : ∀ u, (s.handleShake socket userId).Connected u ↔ u = userId ∨ s.Connected u :=
    connected_handleShake hsocket hok.1
  refine ⟨h.sockets.handleShake hsocket hok, h.groupSet, h.onlineGroup, fun u => ?_, fun g u => ?_⟩
  · rw [hiff, ← h.online u, willBeOnline, Presence.handleShake, SocketServer.handleShake, issue, Pipeline.settle_issue]
    change _ ↔ u = userId ∨ s.server.redisDB.settle _ _ = true
    by_cases hu : userId = u
    · simp [setOnline, hu]
    · simp [setOnline, hu, Ne.symm hu]
  · have hlater : [.set userId s.server.g_socketStr, .publish (ascii "online") userId,
        .smembers userId true].flatMap (later groups) = (groups userId).map fun g => ((g, userId), true) :=
      List.append_nil _
    rw [hiff, willBeIn_issue s (s.handleShake socket userId) _ rfl rfl rfl hlater]
    by_cases hu : u = userId
    · subst hu
      by_cases hg : g ∈ groups u
      · rw [if_pos ⟨rfl, hg⟩]
        exact iff_of_true rfl ⟨.inl rfl, hg⟩
      · rw [if_neg fun he => hg he.2, h.group g u]
        exact iff_of_false (fun he => hg he.2) fun he => hg he.2
    · rw [if_neg fun he => hu he.1, or_iff_right hu]
      exact h.group g u

/-- The sockets after a disconnect. -/
theorem Sockets.disconnect (h : s.Sockets) {socket : ℕ} (hsocket : s.server.connected socket = true) :
    Sockets { s with server := s.server.disconnect socket } := by
  have hconnected : ∀ {socket'}, (s.server.disconnect socket).connected socket' = true →
      socket' ≠ socket ∧ s.server.connected socket' = true := by
    intro socket' hs
    rw [connected_disconnect, Function.update_apply] at hs
    split at hs
    · cases hs
    · next hne => exact ⟨hne, hs⟩
  have hmap : ∀ socket', socket' ≠ socket →
      (s.server.disconnect socket).socketMap socket' = s.server.socketMap socket' := by
    intro socket' hne
    rw [socketMap_disconnect, Function.update_of_ne hne]
  refine ⟨fun socket' hs => ?_, fun socket' hs => ?_, fun socket' hs => ?_, ?_⟩
  · obtain ⟨hne, hs⟩ := hconnected hs
    exact (hmap socket' hne).trans (h.socketMap socket' hs)
  · rw [created_disconnect]
    exact h.created socket' (hconnected hs).2
  · rw [created_disconnect] at hs
    rw [hmap socket' ((h.created socket hsocket).trans_le hs).ne']
    exact h.free socket' hs
  · exact fun hs hu hs' hu' => h.unique (hconnected hs).2 hu (hconnected hs').2 hu'

/-- **A disconnect.** -/
theorem Settled.disconnect (h : s.Settled groups) {socket : ℕ}
    (hsocket : s.server.connected socket = true) :
    Settled groups { s with server := s.server.disconnect socket } := by
  have hiff : ∀ u, Connected { s with server := s.server.disconnect socket } u ↔
      s.shaken socket ≠ some u ∧ s.Connected u := by
    intro u
    simp only [Connected, connected_disconnect, Function.update_apply]
    constructor
    · rintro ⟨socket', hs, hu⟩
      split at hs
      · cases hs
      · next hne =>
        exact ⟨fun hsu => hne (h.sockets.unique hs hu hsocket hsu), socket', hs, hu⟩
    · rintro ⟨hne, socket', hs, hu⟩
      refine ⟨socket', ?_, hu⟩
      rwa [if_neg]
      rintro rfl
      exact hne hu
  have hmap := h.sockets.socketMap socket hsocket
  cases hshaken : s.shaken socket with
  | none =>
    have hserver := disconnect_of_none (hmap.trans hshaken)
    simp only [hshaken, ne_eq, reduceCtorEq, not_false_eq_true, true_and] at hiff
    refine ⟨h.sockets.disconnect hsocket, h.groupSet, h.onlineGroup, fun u => ?_, fun g u => ?_⟩
    · rw [hiff, ← h.online u, willBeOnline, hserver]
      rfl
    · rw [hiff, ← h.group g u, willBeIn, hserver]
      rfl
  | some userId =>
    have hdb : (s.server.disconnect socket).redisDB = s.server.redisDB.issue
        [.publish (ascii "offline") userId, .del userId, .smembers userId false] := by
      rw [disconnect_of_some (hmap.trans hshaken)]
    simp only [hshaken, ne_eq, Option.some.injEq] at hiff
    refine ⟨h.sockets.disconnect hsocket, h.groupSet, h.onlineGroup, fun u => ?_, fun g u => ?_⟩
    · rw [hiff, ← h.online u, willBeOnline, hdb, Pipeline.settle_issue]
      change _ ↔ ¬userId = u ∧ s.server.redisDB.settle _ _ = true
      by_cases hu : userId = u
      · simp [setOnline, hu]
      · simp [setOnline, hu]
    · have hlater : [.publish (ascii "offline") userId, .del userId,
          .smembers userId false].flatMap (later groups) =
            (groups userId).map fun g => ((g, userId), false) := List.append_nil _
      rw [hiff, willBeIn_issue s { s with server := s.server.disconnect socket } _ hdb rfl rfl hlater]
      by_cases hu : userId = u
      · subst hu
        refine iff_of_false (fun hin => ?_) fun hc => hc.1.1 rfl
        split at hin
        · cases hin
        · next hg => exact hg ⟨rfl, ((h.group g userId).1 hin).2⟩
      · rw [if_neg fun he => hu he.1.symm, and_iff_right hu]
        exact h.group g u

/-- **A step** keeps what the commands and callbacks lead to. -/
theorem Settled.step {e : Event} (h : s.Settled groups) (hok : s.OneSocket e)
    (hstep : s.step serialize gbk e = some s') : s'.Settled groups := by
  cases e with
  | connection =>
    obtain rfl := Option.some.inj hstep
    exact h.connection
  | handleShake socket userId =>
    simp only [Presence.step] at hstep
    split at hstep
    · next hsocket =>
      obtain rfl := Option.some.inj hstep
      exact h.handleShake hsocket hok
    · cases hstep
  | disconnect socket =>
    simp only [Presence.step] at hstep
    split at hstep
    · next hsocket =>
      obtain rfl := Option.some.inj hstep
      exact h.disconnect hsocket
    · cases hstep
  | peerMessage data =>
    obtain rfl := Option.some.inj hstep
    exact h.peerMessage data
  | execute =>
    obtain ⟨⟨r, p⟩, hrun, rfl⟩ := Option.map_eq_some_iff.1 hstep
    exact h.execute hrun
  | callback =>
    obtain ⟨⟨reply, p⟩, hnext, rfl⟩ := Option.map_eq_some_iff.1 hstep
    exact h.callback hnext

/-- **Presence settles.** From keys of presence that are empty, in every run in which each socket sends
one handshake at most, for a user who is not connected, once all commands are executed and all callbacks
have run: a user's key is there exactly if the user is connected, and a user is in `onlineGroup:<group>`
exactly if the user is connected and the group is one of the user's. -/
theorem online_iff_of_run {g_socketStr : Bytes} {r : Redis} {es : List Event}
    (honline : ∀ u, r.keys (ascii "online:" ++ u) = none)
    (hgroup : ∀ g, r.keys (ascii "onlineGroup:" ++ g) = none)
    (hrun : Run (step serialize gbk) OneSocket (start g_socketStr r) es s)
    (hcommands : s.server.redisDB.commands = []) (hreplies : s.server.redisDB.replies = []) (u : Bytes) :
    ((s.redis.keys (ascii "online:" ++ u)).isSome = true ↔ s.Connected u) ∧
      ∀ g, u ∈ s.redis.keys.members (ascii "onlineGroup:" ++ g) ↔
        s.Connected u ∧ g ∈ r.keys.members (ascii "groupSet:" ++ u) := by
  have hstart : (start g_socketStr r).Settled (groupsOf r) := by
    have hnobody : ∀ u, ¬(start g_socketStr r).Connected u := by
      rintro u ⟨socket, hsocket, -⟩
      cases hsocket
    refine ⟨⟨fun _ h => ?_, fun _ h => ?_, fun _ _ => ⟨rfl, rfl⟩, fun h => ?_⟩, rfl, fun g v hv => ?_,
      fun u => iff_of_false ?_ (hnobody u), fun g u => iff_of_false ?_ fun h => hnobody u h.1⟩
    · cases h
    · cases h
    · cases h
    · cases (hgroup g).symm.trans hv
    · change ¬hasKey u r = true
      rw [hasKey, honline u]
      decide
    · change ¬view r (g, u) = true
      rw [view, Keyspace.members, hgroup g]
      simp
  have h : s.Settled (groupsOf r) :=
    hrun.invariant (I := Settled (groupsOf r)) (fun _ _ _ h hok hstep => h.step hok hstep) hstart
  refine ⟨?_, fun g => ?_⟩
  · rw [← h.online u, willBeOnline, Pipeline.settle, hcommands]
    rfl
  · rw [← groupsOf, ← h.group g u, willBeIn, Pipeline.outlook, hcommands, hreplies]
    exact (decide_eq_true_iff).symm

end Settled

/-- The user `a` in the group `7`. -/
def memberRedis : Redis where
  keys k := if k = ascii "groupSet:a" then some (.set (.singleton (ascii "7"))) else none
  published := []

/-- The user `a` connects, goes and comes again before the callback of the first handshake runs. -/
def reconnect : List Event :=
  [.connection, .handleShake 0 (ascii "a"), .execute, .execute, .execute, .disconnect 0, .connection,
    .handleShake 1 (ascii "a"), .callback, .execute, .execute, .execute, .execute, .execute, .execute,
    .callback, .execute, .callback, .execute, .execute]

theorem online_after_reconnect :
    ∃ s, Run (step (fun _ => []) id) OneSocket (start (ascii "h:1") memberRedis) reconnect s ∧
      (s.server.redisDB.commands = [] ∧ s.server.redisDB.replies = [] ∧
        ascii "a" ∈ s.redis.keys.members (ascii "onlineGroup:7")) ∧
      ((s.redis.keys (ascii "online:" ++ ascii "a")).isSome = true ↔ s.Connected (ascii "a")) ∧
        ∀ g, ascii "a" ∈ s.redis.keys.members (ascii "onlineGroup:" ++ g) ↔
          s.Connected (ascii "a") ∧
            g ∈ memberRedis.keys.members (ascii "groupSet:" ++ ascii "a") := by
  have hany : (exec (step (fun _ => []) id) OneSocket (start (ascii "h:1") memberRedis) reconnect).any
      (fun s => decide (s.server.redisDB.commands = [] ∧ s.server.redisDB.replies = [] ∧
        ascii "a" ∈ s.redis.keys.members (ascii "onlineGroup:7"))) = true := by decide +kernel
  obtain ⟨s, hrun, hend⟩ := Run.exists_of_exec hany
  have honline : ∀ u, memberRedis.keys (ascii "online:" ++ u) = none := fun u => by
    simp [memberRedis, ascii]
  have hgroup : ∀ g, memberRedis.keys (ascii "onlineGroup:" ++ g) = none := fun g => by
    simp [memberRedis, ascii]
  exact ⟨s, hrun, hend, online_iff_of_run honline hgroup hrun hend.1 hend.2.1 _⟩

end Presence

end MutexIM.Web
