import MutexIM.Routing.World

/-!
# Handshakes and disconnects as turns of a lease

* `Worker.Inv`, `SocketInv`: the invariants of one server, whatever the others do.
* `ShakeStage.turned`, `StopStage.turned`: for every user, a step of a handshake or of a disconnect on
  a message server is a turn of the lease of the user's key.
* `SocketTurned.handleShake`, `SocketTurned.disconnect`, `SocketTurned.execute`,
  `SocketTurned.callback`: so is every step of a web server.
-/

namespace MutexIM.Routing

open Bytes Codec MessageServer Web

/-! ## A message server -/

/-- The sessions are the same as far as presence goes. -/
structure SameSessions (c c' : ConnectionManager) : Prop where
  created : c'.created = c.created
  sessionSet : c'.sessionSet = c.sessionSet
  sessionMap : c'.sessionMap = c.sessionMap
  userId : ∀ s, (c'.sessions s).userId = (c.sessions s).userId
  isConnected : ∀ s, (c'.sessions s).isConnected = (c.sessions s).isConnected

theorem SameSessions.refl (c : ConnectionManager) : SameSessions c c :=
  ⟨rfl, rfl, rfl, fun _ => rfl, fun _ => rfl⟩

theorem SameSessions.send (c : ConnectionManager) (conn : ℕ) (m : ChatMsg) :
    SameSessions c (c.send conn m) where
  created := rfl
  sessionSet := rfl
  sessionMap := rfl
  userId := ConnectionManager.send_sessions_userId m
  isConnected := ConnectionManager.send_sessions_isConnected m

/-- The connections of a message server: those in the set live, each is the one registered for its
user, and none is used before it was made. -/
structure Connected (c : ConnectionManager) : Prop where
  set_lt : ∀ s ∈ c.sessionSet, s < c.created
  map_lt : ∀ u s, c.findUser u = some s → s < c.created
  fresh : ∀ s, c.created ≤ s → (c.sessions s).userId = []
  isConnected : ∀ s ∈ c.sessionSet, (c.sessions s).isConnected = true
  unique : ∀ s ∈ c.sessionSet, (c.sessions s).userId ≠ [] →
    c.findUser (c.sessions s).userId = some s
  nulFree : ∀ s, NulFree (c.sessions s).userId

/-- A handshake is about a connection that was made, and sets the key of a C string; a disconnect that
has begun is that of a user who is not connected any more. -/
def TaskInv (n : Worker) : Prop :=
  match n.task with
  | some (.shake conn request _ stage) =>
    conn < n.server.manager.created ∧ (stage = .set → NulFree request.userId)
  | some (.stop s stage) => stage ≠ .erase → (n.server.manager.sessions s).userId ≠ [] ∧
      ¬n.Holds (n.server.manager.sessions s).userId
  | some (.peer _ _) => False
  | none => True

/-- The invariant of a message server. -/
structure Worker.Inv (n : Worker) : Prop where
  connected : Connected n.server.manager
  task : TaskInv n

section Worker

variable {n : Worker} {sv' : Server} {c c' : ConnectionManager} {t : Task} {t' : Option Task}
  {r r' : Redis} {u : Bytes}

theorem SameSessions.connected (h : SameSessions c c') (hc : Connected c) : Connected c' := by
  have hfind : ∀ u, c'.findUser u = c.findUser u := fun u => by
    rw [ConnectionManager.findUser, ConnectionManager.findUser, h.sessionMap]
  constructor
  case set_lt => rw [h.sessionSet, h.created]; exact hc.set_lt
  case map_lt =>
    intro u s hs
    rw [h.created]
    exact hc.map_lt u s (hfind u ▸ hs)
  case fresh =>
    intro s hs
    rw [h.userId]
    exact hc.fresh s (h.created ▸ hs)
  case isConnected =>
    intro s hs
    rw [h.isConnected]
    exact hc.isConnected s (h.sessionSet ▸ hs)
  case unique =>
    intro s hs
    rw [h.userId, hfind]
    exact hc.unique s (h.sessionSet ▸ hs)
  case nulFree =>
    intro s
    rw [h.userId]
    exact hc.nulFree s

theorem SameSessions.holds_iff (h : SameSessions n.server.manager sv'.manager) :
    Worker.Holds ⟨sv', t'⟩ u ↔ n.Holds u := by
  unfold Worker.Holds ConnectionManager.findUser
  simp only [h.sessionMap, h.isConnected]

/-- A new connection. -/
theorem Connected.handleAccept (hc : Connected c) : Connected c.handleAccept := by
  have hother : ∀ s, s ≠ c.created → c.handleAccept.sessions s = c.sessions s :=
    fun s hs => ConnectionManager.handleAccept_sessions_of_ne hs
  have huser : ∀ s, (c.handleAccept.sessions s).userId = (c.sessions s).userId :=
    ConnectionManager.apply_handleAccept TcpSession.userId rfl
  constructor
  case set_lt =>
    intro s hs
    rcases Finset.mem_insert.1 hs with rfl | hs
    · exact Nat.lt_succ_self _
    · exact (hc.set_lt s hs).trans (Nat.lt_succ_self _)
  case map_lt => exact fun u s hs => (hc.map_lt u s hs).trans (Nat.lt_succ_self _)
  case fresh =>
    intro s hs
    rw [huser]
    exact hc.fresh s ((Nat.le_succ _).trans hs)
  case isConnected =>
    intro s hs
    rcases Finset.mem_insert.1 hs with rfl | hs
    · rw [ConnectionManager.handleAccept_sessions_created]
      rfl
    · rw [hother s (hc.set_lt s hs).ne]
      exact hc.isConnected s hs
  case unique =>
    intro s hs hne
    rw [huser] at hne ⊢
    rcases Finset.mem_insert.1 hs with rfl | hs
    · exact absurd (hc.fresh _ le_rfl) hne
    · exact hc.unique s hs hne
  case nulFree =>
    intro s
    rw [huser]
    exact hc.nulFree s

theorem holds_handleAccept (hc : Connected n.server.manager) :
    Worker.Holds ⟨{ n.server with manager := n.server.manager.handleAccept }, t'⟩ u ↔ n.Holds u := by
  unfold Worker.Holds
  refine exists_congr fun s => and_congr_right fun hs => ?_
  have hne : s ≠ n.server.manager.created := (hc.map_lt u s hs).ne
  rw [ConnectionManager.handleAccept_sessions_of_ne hne]

/-- A connection is entered for a user, for whom no other connection of the server lives. -/
theorem Connected.bindUser (hc : Connected c) {conn : ℕ} {sessionId : Bytes} (hconn : conn < c.created)
    (hnul : NulFree u)
    (hfree : ¬∃ s, c.findUser u = some s ∧ (c.sessions s).isConnected = true) :
    Connected (c.bindUser conn sessionId u) := by
  have hother : ∀ s, s ≠ conn → (c.bindUser conn sessionId u).sessions s = c.sessions s :=
    fun s hs => ConnectionManager.bindUser_sessions_of_ne hs
  have hself : ((c.bindUser conn sessionId u).sessions conn).userId = u := by
    rw [ConnectionManager.bindUser_sessions_self]
  constructor
  case set_lt =>
    rw [ConnectionManager.bindUser_sessionSet, ConnectionManager.bindUser_created]
    exact hc.set_lt
  case map_lt =>
    intro v s hs
    rw [ConnectionManager.bindUser_created]
    rcases ConnectionManager.of_findUser_bindUser hs with ⟨-, -, rfl⟩ | hs
    · exact hconn
    · exact hc.map_lt v s hs
  case fresh =>
    intro s hs
    rw [ConnectionManager.bindUser_created] at hs
    rw [hother s (hconn.trans_le hs).ne']
    exact hc.fresh s hs
  case isConnected =>
    intro s hs
    rw [ConnectionManager.bindUser_sessionSet] at hs
    rw [ConnectionManager.apply_bindUser TcpSession.isConnected fun _ _ _ => rfl]
    exact hc.isConnected s hs
  case unique =>
    intro s hs hne
    rw [ConnectionManager.bindUser_sessionSet] at hs
    by_cases hsc : s = conn
    · subst hsc
      rw [hself, ConnectionManager.findUser, ConnectionManager.bindUser_sessionMap, if_pos hs,
        AList.lookup_insert]
    · rw [hother s hsc] at hne ⊢
      -- the user's own connection would live
      have hv : (c.sessions s).userId ≠ u := fun h =>
        hfree ⟨s, h ▸ hc.unique s hs hne, hc.isConnected s hs⟩
      rw [ConnectionManager.findUser_bindUser_of_ne hv]
      exact hc.unique s hs hne
  case nulFree =>
    intro s
    by_cases hsc : s = conn
    · rw [hsc, hself]
      exact hnul
    · rw [hother s hsc]
      exact hc.nulFree s

/-- No other user becomes connected by it. -/
theorem holds_bindUser_of_ne {conn : ℕ} {sessionId v : Bytes} (hv : v ≠ u)
    (h : Worker.Holds ⟨{ n.server with manager := n.server.manager.bindUser conn sessionId u }, t'⟩ v) :
    n.Holds v := by
  obtain ⟨s, hs, hconnected⟩ := h
  refine ⟨s, ?_, ?_⟩
  · exact (ConnectionManager.findUser_bindUser_of_ne hv).symm.trans hs
  · rwa [ConnectionManager.apply_bindUser TcpSession.isConnected fun _ _ _ => rfl] at hconnected

/-- The manager after `stop` took a connection out of the set. -/
def erased (c : ConnectionManager) (s : ℕ) : ConnectionManager :=
  { c with sessionSet := c.sessionSet.erase s }.modify s .stop

theorem erased_userId (c : ConnectionManager) (s s' : ℕ) :
    ((erased c s).sessions s').userId = (c.sessions s').userId :=
  ConnectionManager.apply_without TcpSession.userId rfl s'

theorem erased_isConnected {s s' : ℕ} (h : ((erased c s).sessions s').isConnected = true) :
    s' ≠ s ∧ (c.sessions s').isConnected = true := by
  by_cases hs : s' = s
  · rw [hs, erased, ConnectionManager.modify_sessions_self, TcpSession.stop_isConnected] at h
    cases h
  · rw [erased, ConnectionManager.modify_sessions_of_ne hs] at h
    exact ⟨hs, h⟩

theorem Connected.erased (hc : Connected c) (s : ℕ) : Connected (erased c s) := by
  have hmem : ∀ s' ∈ (Routing.erased c s).sessionSet, s' ≠ s ∧ s' ∈ c.sessionSet :=
    fun s' hs' => Finset.mem_erase.1 hs'
  constructor
  case set_lt => exact fun s' hs' => hc.set_lt s' (hmem s' hs').2
  case map_lt => exact hc.map_lt
  case fresh =>
    intro s' hs'
    rw [erased_userId]
    exact hc.fresh s' hs'
  case isConnected =>
    intro s' hs'
    obtain ⟨hne, hs'⟩ := hmem s' hs'
    rw [Routing.erased, ConnectionManager.modify_sessions_of_ne hne]
    exact hc.isConnected s' hs'
  case unique =>
    intro s' hs' hne
    rw [erased_userId] at hne ⊢
    exact hc.unique s' (hmem s' hs').2 hne
  case nulFree =>
    intro s'
    rw [erased_userId]
    exact hc.nulFree s'

/-- The user of a connection that was taken out is not connected any more. -/
theorem not_holds_erased (hc : Connected n.server.manager) {s : ℕ}
    (hs : s ∈ n.server.manager.sessionSet) (hne : (n.server.manager.sessions s).userId ≠ []) :
    ¬Worker.Holds ⟨{ n.server with manager := erased n.server.manager s }, t'⟩
      (n.server.manager.sessions s).userId := by
  rintro ⟨s', hs', hconnected⟩
  have hfind := hc.unique s hs hne
  obtain rfl := Option.some.inj (hfind.symm.trans hs')
  exact (erased_isConnected hconnected).1 rfl

theorem holds_of_erased {s : ℕ}
    (h : Worker.Holds ⟨{ n.server with manager := erased n.server.manager s }, t'⟩ u) : n.Holds u := by
  obtain ⟨s', hs', hconnected⟩ := h
  exact ⟨s', hs', (erased_isConnected hconnected).2⟩

/-- A user who is not connected is taken out of the map. -/
theorem Connected.unmap (hc : Connected c)
    (hfree : ¬∃ s, c.findUser u = some s ∧ (c.sessions s).isConnected = true) :
    Connected { c with sessionMap := c.sessionMap.erase u } where
  set_lt := hc.set_lt
  map_lt v s hs := by
    by_cases hv : v = u
    · rw [hv, ConnectionManager.findUser, AList.lookup_erase] at hs
      cases hs
    · rw [ConnectionManager.findUser, AList.lookup_erase_ne hv] at hs
      exact hc.map_lt v s hs
  fresh := hc.fresh
  isConnected := hc.isConnected
  unique s hs hne := by
    have hv : (c.sessions s).userId ≠ u := fun h =>
      hfree ⟨s, h ▸ hc.unique s hs hne, hc.isConnected s hs⟩
    rw [ConnectionManager.findUser, AList.lookup_erase_ne hv]
    exact hc.unique s hs hne
  nulFree := hc.nulFree

theorem holds_of_unmap {v : Bytes} (h : Worker.Holds ⟨{ n.server with manager :=
      { n.server.manager with sessionMap := n.server.manager.sessionMap.erase v } }, t'⟩ u) :
    n.Holds u := by
  obtain ⟨s, hs, hconnected⟩ := h
  refine ⟨s, ?_, hconnected⟩
  by_cases hv : u = v
  · rw [hv, ConnectionManager.findUser, AList.lookup_erase] at hs
    cases hs
  · rwa [ConnectionManager.findUser, AList.lookup_erase_ne hv] at hs

end Worker

/-! ## The steps of a message server's thread -/

section Turn

variable {ι κ : Type*} {sockets : ι ⊕ κ → Bytes} {w : World ι κ} {i : ι} {sv' : Server}
  {t : Task} {t' : Option Task} {r' : Redis}

/-- What a step of a message server comes to: its invariant, and for each user a turn of the lease. -/
structure Turned (sockets : ι ⊕ κ → Bytes) (w : World ι κ) (i : ι) (n' : Worker) (r' : Redis) :
    Prop where
  inv : n'.Inv
  socket : n'.server.strServerSocket = (w.nodes i).server.strServerSocket
  turn : ∀ u, (w.lease u).Turn (World.names sockets) (.inl i) (r'.keys (ascii "online:" ++ u))
    (n'.Holds u) (n'.ops u)

theorem online_inj {u v : Bytes} : ascii "online:" ++ u = ascii "online:" ++ v ↔ u = v :=
  List.append_right_inj _

/-- A step that has nothing to do with presence. -/
theorem Turned.quiet (hn : (w.nodes i).Inv) (hops : ∀ u, (w.nodes i).ops u = [])
    (hsame : SameSessions (w.nodes i).server.manager sv'.manager)
    (hsocket : sv'.strServerSocket = (w.nodes i).server.strServerSocket)
    (hkeys : ∀ u, r'.keys (ascii "online:" ++ u) = w.redis.keys (ascii "online:" ++ u))
    (hops' : ∀ u, Worker.ops ⟨sv', t'⟩ u = []) (htask : TaskInv ⟨sv', t'⟩) :
    Turned sockets w i ⟨sv', t'⟩ r' where
  inv := ⟨hsame.connected hn.connected, htask⟩
  socket := hsocket
  turn u := .quiet hsame.holds_iff.1 ((hops' u).trans (hops u).symm) (hkeys u)

theorem cstr_online_of_nulFree {u : Bytes} (h : NulFree u) :
    cstr (ascii "online:" ++ u) = ascii "online:" ++ u := by
  rw [cstr_online, cstr_eq_self h]

theorem ops_shake {sv : Server} {conn : ℕ} {request : ShakeHandleReq} {nowtime : UInt64}
    {stage : ShakeStage} (h : stage ≠ .set) (u : Bytes) :
    Worker.ops ⟨sv, some (.shake conn request nowtime stage)⟩ u = [] := by
  cases stage with
  | set => exact absurd rfl h
  | _ => rfl

theorem ops_stop {sv : Server} {s : ℕ} {stage : StopStage} (h : stage ≠ .del) (u : Bytes) :
    Worker.ops ⟨sv, some (.stop s stage)⟩ u = [] := by
  cases stage with
  | del => exact absurd rfl h
  | _ => rfl

variable {n : Worker} {conn s : ℕ} {request : ShakeHandleReq} {nowtime : UInt64} {r : Redis}

/-- A step of a handshake after which the key is not the next to be set. -/
theorem Turned.quiet_shake {stage : ShakeStage} {stage' : Option ShakeStage}
    (hn : (w.nodes i).Inv) (htask : (w.nodes i).task = some (.shake conn request nowtime stage))
    (hstage : stage ≠ .set) (hstage' : stage' ≠ some .set)
    (hsame : SameSessions (w.nodes i).server.manager sv'.manager)
    (hsocket : sv'.strServerSocket = (w.nodes i).server.strServerSocket)
    (hkeys : ∀ u, r'.keys (ascii "online:" ++ u) = w.redis.keys (ascii "online:" ++ u)) :
    Turned sockets w i ⟨sv', stage'.map (.shake conn request nowtime)⟩ r' := by
  have hconn : conn < (w.nodes i).server.manager.created := by
    have h := hn.task
    rw [TaskInv, htask] at h
    exact h.1
  have hops : ∀ u, (w.nodes i).ops u = [] := by
    intro u
    have h : Worker.ops ⟨(w.nodes i).server, some (.shake conn request nowtime stage)⟩ u = [] :=
      ops_shake hstage u
    rwa [← htask] at h
  cases stage' with
  | none => exact .quiet hn hops hsame hsocket hkeys (fun _ => rfl) trivial
  | some stage' =>
    have hne : stage' ≠ .set := fun h => hstage' (congrArg some h)
    exact .quiet hn hops hsame hsocket hkeys (ops_shake hne)
      ⟨hsame.created ▸ hconn, fun h => absurd h hne⟩

/-- A handshake enters the user. -/
theorem Turned.bind {sessionid : Bytes} (hn : (w.nodes i).Inv)
    (hops : ∀ u, (w.nodes i).ops u = []) (hconn : conn < (w.nodes i).server.manager.created)
    (hid : NulFree request.userId) (hlease : (w.lease request.userId).Good (World.names sockets))
    (hkey : (w.lease request.userId).key = none) (hclaim : (w.lease request.userId).Unclaimed (.inl i)) :
    Turned sockets w i ⟨{ (w.nodes i).server with
      manager := (w.nodes i).server.manager.bindUser conn sessionid request.userId },
        some (.shake conn request nowtime .set)⟩ w.redis := by
  have hnone : (w.lease request.userId).ops (.inl i) = [] := hops _
  have hfree : ¬(w.nodes i).Holds request.userId := by
    intro hholds
    have hholds : (w.lease request.userId).holds (.inl i) := hholds
    rcases hlease.claim_mem_or hholds with hmem | hname
    · rw [hnone] at hmem
      cases hmem
    · cases hkey.symm.trans hname
  refine ⟨⟨hn.connected.bindUser hconn hid hfree, ?_⟩, rfl, Lease.Turn.of_one request.userId ?_
    (fun u hu hholds => holds_bindUser_of_ne hu hholds) (fun u hu => ?_) fun _ _ => rfl⟩
  · exact ⟨by rwa [ConnectionManager.bindUser_created], fun _ => hid⟩
  · refine .announce (.inl hkey) hclaim ?_ rfl
    rw [hnone]
    exact if_pos rfl
  · exact (if_neg (Ne.symm hu)).trans (hops u).symm

/-- A handshake sets the key. -/
theorem Turned.set (hn : (w.nodes i).Inv)
    (htask : (w.nodes i).task = some (.shake conn request nowtime .set))
    (hsocket : (w.nodes i).server.strServerSocket = sockets (.inl i)) (hnul : NulFree (sockets (.inl i)))
    (hconn : conn < (w.nodes i).server.manager.created) (hid : NulFree request.userId) :
    Turned sockets w i ⟨(w.nodes i).server, some (.shake conn request nowtime .smembers)⟩
      (CRedis.set w.redis (ascii "online:" ++ request.userId) (w.nodes i).server.strServerSocket) := by
  have hkey := cstr_online_of_nulFree hid
  have hops : ∀ u, (w.nodes i).ops u = if request.userId = u then [.claim] else [] :=
    fun u => by rw [Worker.ops, htask]
  refine ⟨⟨hn.connected, hconn, fun h => by cases h⟩, rfl, Lease.Turn.of_one request.userId ?_
    (fun _ _ hholds => hholds) (fun u hu => ?_) fun u hu => ?_⟩
  · refine .execClaim ((hops _).trans (if_pos rfl)) (fun hholds => hholds) ?_
    have hself := CRedis.keys_set_self (r := w.redis) (ascii "online:" ++ request.userId)
      (w.nodes i).server.strServerSocket
    rw [hkey, hsocket, cstr_eq_self hnul] at hself
    rw [hsocket]
    exact hself
  · exact ((hops u).trans (if_neg (Ne.symm hu))).symm
  · refine CRedis.keys_set_of_ne (fun h => hu ?_) _
    rw [hkey] at h
    exact online_inj.1 h

/-- **A step of a handshake.** -/
theorem ShakeStage.turned [DecidableEq ι] [DecidableEq κ] {stage : ShakeStage}
    {stage' : Option ShakeStage} (hn : (w.nodes i).Inv)
    (htask : (w.nodes i).task = some (.shake conn request nowtime stage))
    (hsocket : (w.nodes i).server.strServerSocket = sockets (.inl i)) (hnul : NulFree (sockets (.inl i)))
    (hlease : ∀ u, (w.lease u).Good (World.names sockets)) (hok : w.Undisturbed sockets (.work i))
    (h : stage.next (w.nodes i).server w.redis conn request nowtime = (stage', sv', r')) :
    Turned sockets w i ⟨sv', stage'.map (.shake conn request nowtime)⟩ r' := by
  have htaskInv := hn.task
  rw [TaskInv, htask] at htaskInv
  obtain ⟨hconn, hset⟩ := htaskInv
  cases stage with
  | hgetAll =>
    obtain ⟨rfl, rfl, rfl⟩ := h
    refine .quiet_shake hn htask (by simp) ?_ (.refl _) rfl fun _ => rfl
    split <;> simp
  | existsKey sessionid =>
    obtain ⟨rfl, rfl, rfl⟩ := h
    refine .quiet_shake hn htask (by simp) ?_ (.refl _) rfl fun _ => rfl
    split <;> simp
  | bind sessionid =>
    obtain ⟨rfl, rfl, rfl⟩ := h
    simp only [World.Undisturbed, htask] at hok
    obtain ⟨hid, hkey, hclaim⟩ := hok
    exact .bind hn (fun u => by rw [Worker.ops, htask]) hconn hid (hlease _) hkey hclaim
  | set =>
    obtain ⟨rfl, rfl, rfl⟩ := h
    exact .set hn htask hsocket hnul hconn (hset rfl)
  | smembers =>
    obtain ⟨rfl, rfl, rfl⟩ := h
    exact .quiet_shake hn htask (by simp) (by simp) (.refl _) rfl fun _ => rfl
  | sadd vecStr =>
    cases vecStr with
    | nil =>
      obtain ⟨rfl, rfl, rfl⟩ := h
      exact .quiet_shake hn htask (by simp) (by simp) (.refl _) rfl fun _ => rfl
    | cons g vecStr =>
      obtain ⟨rfl, rfl, rfl⟩ := h
      refine .quiet_shake hn htask (by simp) (by simp) (.refl _) rfl fun u => ?_
      refine CRedis.keys_sadd_of_ne ?_ _
      rw [cstr_onlineGroup]
      exact online_ne_onlineGroup _ _
  | send =>
    obtain ⟨rfl, rfl, rfl⟩ := h
    exact .quiet_shake hn htask (by simp) (by simp) (.send _ _ _) rfl fun _ => rfl

/-- A step of a disconnect that leaves the connections and the keys of presence. -/
theorem Turned.quiet_stop {stage stage' : StopStage} (hn : (w.nodes i).Inv)
    (htask : (w.nodes i).task = some (.stop s stage)) (hstage : stage ≠ .del) (herase : stage ≠ .erase)
    (hstage' : stage' ≠ .del)
    (hkeys : ∀ u, r'.keys (ascii "online:" ++ u) = w.redis.keys (ascii "online:" ++ u)) :
    Turned sockets w i ⟨(w.nodes i).server, some (.stop s stage')⟩ r' := by
  have htaskInv := hn.task
  rw [TaskInv, htask] at htaskInv
  have hops : ∀ u, (w.nodes i).ops u = [] := by
    intro u
    have h : Worker.ops ⟨(w.nodes i).server, some (.stop s stage)⟩ u = [] := ops_stop hstage u
    rwa [← htask] at h
  exact .quiet hn hops (.refl _) rfl hkeys (ops_stop hstage') fun _ => htaskInv herase

/-- A disconnect takes the connection of a user out of the set. -/
theorem Turned.erase (hn : (w.nodes i).Inv) (hops : ∀ u, (w.nodes i).ops u = [])
    (hmem : s ∈ (w.nodes i).server.manager.sessionSet)
    (hne : ((w.nodes i).server.manager.sessions s).userId ≠ []) :
    Turned sockets w i ⟨{ (w.nodes i).server with
      manager := erased (w.nodes i).server.manager s }, some (.stop s .del)⟩ w.redis := by
  have huser : ((erased (w.nodes i).server.manager s).sessions s).userId =
    ((w.nodes i).server.manager.sessions s).userId := erased_userId _ s s
  have hnot : ¬Worker.Holds ⟨{ (w.nodes i).server with
      manager := erased (w.nodes i).server.manager s }, some (.stop s .del)⟩
      ((w.nodes i).server.manager.sessions s).userId := not_holds_erased hn.connected hmem hne
  have hops' : ∀ u, Worker.ops ⟨{ (w.nodes i).server with
      manager := erased (w.nodes i).server.manager s }, some (.stop s .del)⟩ u =
      if ((w.nodes i).server.manager.sessions s).userId = u then [.release] else [] := by
    intro u
    rw [← huser]
    rfl
  refine ⟨⟨hn.connected.erased s, fun _ => ?_⟩, rfl,
    Lease.Turn.of_one ((w.nodes i).server.manager.sessions s).userId ?_ (fun _ _ => holds_of_erased)
      (fun u hu => ?_) fun _ _ => rfl⟩
  · change ((erased (w.nodes i).server.manager s).sessions s).userId ≠ [] ∧
      ¬Worker.Holds _ ((erased (w.nodes i).server.manager s).sessions s).userId
    rw [huser]
    exact ⟨hne, hnot⟩
  · refine .release hnot ?_ rfl
    rw [show (w.lease _).ops (.inl i) = [] from hops _]
    exact (hops' _).trans (if_pos rfl)
  · exact (hops' u).trans ((if_neg (Ne.symm hu)).trans (hops u).symm)

/-- A disconnect deletes the key. -/
theorem Turned.del (hn : (w.nodes i).Inv) (htask : (w.nodes i).task = some (.stop s .del))
    (hok : (w.lease ((w.nodes i).server.manager.sessions s).userId).FreeFor (World.names sockets)
      (.inl i)) :
    Turned sockets w i ⟨(w.nodes i).server, some (.stop s .lrange)⟩
      (CRedis.del w.redis (ascii "online:" ++ ((w.nodes i).server.manager.sessions s).userId)) := by
  have htaskInv := hn.task
  rw [TaskInv, htask] at htaskInv
  have hkey := cstr_online_of_nulFree (hn.connected.nulFree s)
  have hops : ∀ u, (w.nodes i).ops u =
      if ((w.nodes i).server.manager.sessions s).userId = u then [.release] else [] :=
    fun u => by rw [Worker.ops, htask]
  refine ⟨⟨hn.connected, fun _ => htaskInv (by simp)⟩, rfl,
    Lease.Turn.of_one ((w.nodes i).server.manager.sessions s).userId ?_ (fun _ _ hholds => hholds)
      (fun u hu => ?_) fun u hu => ?_⟩
  · refine .execRelease ((hops _).trans (if_pos rfl)) hok (fun hholds => hholds) ?_
    have hself := CRedis.keys_del_self (r := w.redis)
      (ascii "online:" ++ ((w.nodes i).server.manager.sessions s).userId)
    rwa [hkey] at hself
  · exact ((hops u).trans (if_neg (Ne.symm hu))).symm
  · refine CRedis.keys_del_of_ne fun h => hu ?_
    rw [hkey] at h
    exact online_inj.1 h

/-- **A step of a disconnect.** -/
theorem StopStage.turned [DecidableEq ι] [DecidableEq κ] {stage : StopStage}
    {stage' : Option StopStage} (hn : (w.nodes i).Inv)
    (htask : (w.nodes i).task = some (.stop s stage)) (hok : w.Undisturbed sockets (.work i))
    (h : stage.next (w.nodes i).server w.redis s = some (stage', sv', r')) :
    Turned sockets w i ⟨sv', stage'.map (.stop s)⟩ r' := by
  cases stage with
  | erase =>
    have hops : ∀ u, (w.nodes i).ops u = [] := fun u => by rw [Worker.ops, htask]
    simp only [StopStage.next] at h
    split at h
    · next hmem =>
      obtain ⟨rfl, rfl, rfl⟩ := Option.some.inj h
      change Turned sockets w i ⟨{ (w.nodes i).server with
        manager := erased (w.nodes i).server.manager s },
        (if ((erased (w.nodes i).server.manager s).sessions s).userId ≠ []
          then some StopStage.del else none).map (.stop s)⟩ w.redis
      rw [erased_userId]
      by_cases hne : ((w.nodes i).server.manager.sessions s).userId ≠ []
      · rw [if_pos hne]
        exact .erase hn hops hmem hne
      · rw [if_neg hne]
        exact ⟨⟨hn.connected.erased s, trivial⟩, rfl,
          fun u => .quiet holds_of_erased (hops u).symm rfl⟩
    · cases h
  | del =>
    obtain ⟨rfl, rfl, rfl⟩ := Option.some.inj h
    simp only [World.Undisturbed, htask] at hok
    exact .del hn htask hok
  | lrange =>
    obtain ⟨rfl, rfl, rfl⟩ := Option.some.inj h
    exact .quiet_stop hn htask (by simp) (by simp) (by simp) fun _ => rfl
  | srem vecStr =>
    cases vecStr with
    | nil =>
      obtain ⟨rfl, rfl, rfl⟩ := Option.some.inj h
      exact .quiet_stop hn htask (by simp) (by simp) (by simp) fun _ => rfl
    | cons g vecStr =>
      obtain ⟨rfl, rfl, rfl⟩ := Option.some.inj h
      refine .quiet_stop hn htask (by simp) (by simp) (by simp) fun u => ?_
      refine CRedis.keys_srem_of_ne ?_ _
      rw [cstr_onlineGroup]
      exact online_ne_onlineGroup _ _
  | unmap =>
    have htaskInv := hn.task
    rw [TaskInv, htask] at htaskInv
    simp only [StopStage.next] at h
    split at h
    · obtain ⟨rfl, rfl, rfl⟩ := Option.some.inj h
      obtain ⟨-, hnot⟩ := htaskInv (by simp)
      have hops : ∀ u, (w.nodes i).ops u = [] := fun u => by rw [Worker.ops, htask]
      exact ⟨⟨hn.connected.unmap hnot, trivial⟩, rfl,
        fun u => .quiet holds_of_unmap (hops u).symm rfl⟩
    · cases h

/-- **A step of a message server's thread.** -/
theorem Worker.turn [DecidableEq ι] [DecidableEq κ] (hn : (w.nodes i).Inv)
    (htask : (w.nodes i).task = some t)
    (hsocket : (w.nodes i).server.strServerSocket = sockets (.inl i)) (hnul : NulFree (sockets (.inl i)))
    (hlease : ∀ u, (w.lease u).Good (World.names sockets)) (hok : w.Undisturbed sockets (.work i))
    (h : t.next (w.nodes i).server w.redis = some (t', sv', r')) :
    Turned sockets w i ⟨sv', t'⟩ r' := by
  cases t with
  | peer ptrMsg stage =>
    have htaskInv := hn.task
    rw [TaskInv, htask] at htaskInv
    exact htaskInv.elim
  | shake conn request nowtime stage =>
    obtain ⟨stage', hstage, rfl⟩ := Task.next_shake h
    exact ShakeStage.turned hn htask hsocket hnul hlease hok hstage
  | stop s stage =>
    obtain ⟨stage', hstage, rfl⟩ := Task.next_stop h
    exact StopStage.turned hn htask hok hstage

end Turn

/-! ## The steps of a web server -/

/-- The invariant of a web server: no socket is used before it connected, and a key is set to the
server's own socket. -/
structure SocketInv (sv : SocketServer) : Prop where
  connected_lt : ∀ socket, sv.connected socket = true → socket < sv.created
  map_lt : ∀ u socket, sv.userIdMap u = some socket → socket < sv.created
  value : ∀ u v, .set u v ∈ sv.redisDB.commands → v = sv.g_socketStr

section SocketTurn

variable {ι κ : Type*} {sockets : ι ⊕ κ → Bytes} {w : World ι κ} {j : κ} {sv : SocketServer}
  {r' : Redis} {socket : ℕ} {u : Bytes}

/-- What a step of a web server comes to. -/
structure SocketTurned (sockets : ι ⊕ κ → Bytes) (w : World ι κ) (j : κ) (sv' : SocketServer)
    (r' : Redis) : Prop where
  inv : SocketInv sv'
  socket : sv'.g_socketStr = (w.webs j).g_socketStr
  turn : ∀ u, (w.lease u).Turn (World.names sockets) (.inr j) (r'.keys (ascii "online:" ++ u))
    (sv'.Holds u) (sv'.ops u)

theorem ops_issue (sv : SocketServer) (cs : List SocketCommand) (u : Bytes) :
    (sv.issue cs).ops u = sv.ops u ++ cs.filterMap (leaseOp u) := List.filterMap_append ..

theorem leaseOp_set_of_ne {userId value : Bytes} (h : u ≠ userId) :
    leaseOp u (.set userId value) = none := if_neg (Ne.symm h)

theorem leaseOp_del_of_ne {userId : Bytes} (h : u ≠ userId) : leaseOp u (.del userId) = none :=
  if_neg (Ne.symm h)

/-- A map to sockets that have connected stays one. -/
theorem lt_of_update {m : Bytes → Option ℕ} {n : ℕ} (hm : ∀ u socket, m u = some socket → socket < n)
    {userId : Bytes} {o : Option ℕ} (ho : ∀ socket, o = some socket → socket < n) (u : Bytes)
    (socket : ℕ) (h : Function.update m userId o u = some socket) : socket < n := by
  by_cases hu : u = userId
  · rw [hu, Function.update_self] at h
    exact ho socket h
  · rw [Function.update_of_ne hu] at h
    exact hm u socket h

theorem SocketInv.issue (hsv : SocketInv sv) {cs : List SocketCommand}
    (hcs : ∀ u v, .set u v ∈ cs → v = sv.g_socketStr) : SocketInv (sv.issue cs) where
  connected_lt := hsv.connected_lt
  map_lt := hsv.map_lt
  value u v h := (List.mem_append.1 h).elim (hsv.value u v) (hcs u v)

/-- Commands that have nothing to do with presence are issued. -/
theorem SocketTurned.issue (hsv : SocketInv (w.webs j)) {p : Pipeline SocketCommand SocketReply}
    (hp : p.commands = (w.webs j).redisDB.commands) {cs : List SocketCommand}
    (hcs : ∀ c ∈ cs, ∀ u, leaseOp u c = none) :
    SocketTurned sockets w j ({ w.webs j with redisDB := p }.issue cs) w.redis := by
  have hinv : SocketInv { w.webs j with redisDB := p } :=
    ⟨hsv.connected_lt, hsv.map_lt, fun u v h => hsv.value u v (hp ▸ h)⟩
  refine ⟨hinv.issue fun u v h => ?_, rfl, fun u => .quiet (fun h => h) ?_ rfl⟩
  · have hnone := hcs _ h u
    rw [leaseOp, if_pos rfl] at hnone
    cases hnone
  · rw [ops_issue, List.filterMap_eq_nil_iff.2 fun c hc => hcs c hc u, List.append_nil]
    exact congrArg (List.filterMap (leaseOp u)) hp

theorem SocketTurned.connection (hsv : SocketInv (w.webs j)) :
    SocketTurned sockets w j (w.webs j).connection w.redis := by
  refine ⟨⟨fun socket h => ?_, fun u socket h => ?_, hsv.value⟩, rfl, fun u => .quiet ?_ rfl rfl⟩
  · by_cases hs : socket = (w.webs j).created
    · exact hs ▸ Nat.lt_succ_self _
    · simp only [SocketServer.connection, Function.update_of_ne hs] at h
      exact (hsv.connected_lt socket h).trans (Nat.lt_succ_self _)
  · exact (hsv.map_lt u socket h).trans (Nat.lt_succ_self _)
  · rintro ⟨socket, hmap, h⟩
    have hs : socket ≠ (w.webs j).created := (hsv.map_lt u socket hmap).ne
    simp only [SocketServer.connection, Function.update_of_ne hs] at h
    exact ⟨socket, hmap, h⟩

/-- A handshake. -/
theorem SocketTurned.handleShake {userId : Bytes} (hsv : SocketInv (w.webs j))
    (hconnected : (w.webs j).connected socket = true)
    (hfree : (w.lease userId).FreeFor (World.names sockets) (.inr j))
    (hclaim : (w.lease userId).Unclaimed (.inr j)) :
    SocketTurned sockets w j ((w.webs j).handleShake socket userId) w.redis := by
  have hmap : ∀ u socket', Function.update (w.webs j).userIdMap userId (some socket) u = some socket' →
      socket' < (w.webs j).created :=
    lt_of_update hsv.map_lt fun socket' h => Option.some.inj h ▸ hsv.connected_lt socket hconnected
  have hinv : SocketInv { w.webs j with
      userIdMap := Function.update (w.webs j).userIdMap userId (some socket)
      socketMap := Function.update (w.webs j).socketMap socket (some userId) } :=
    ⟨hsv.connected_lt, hmap, hsv.value⟩
  have hops : ∀ u, ((w.webs j).handleShake socket userId).ops u = (w.webs j).ops u ++
      [SocketCommand.set userId (w.webs j).g_socketStr].filterMap (leaseOp u) := ops_issue _ _
  refine ⟨hinv.issue fun u v h => ?_, rfl,
    Lease.Turn.of_one userId ?_ (fun u hu => ?_) (fun u hu => ?_) fun _ _ => rfl⟩
  · rcases List.mem_cons.1 h with h | h
    · exact (SocketCommand.set.inj h).2
    · simp at h
  · refine .announce hfree hclaim ((hops userId).trans ?_) rfl
    rw [List.filterMap_cons, leaseOp, if_pos rfl]
    rfl
  · rintro ⟨socket', hmap, h⟩
    simp only [SocketServer.handleShake, SocketServer.issue, Function.update_of_ne hu] at hmap
    exact ⟨socket', hmap, h⟩
  · rw [hops, List.filterMap_cons, leaseOp_set_of_ne hu]
    exact List.append_nil _

/-- A socket that disconnects. -/
theorem SocketTurned.disconnect (hsv : SocketInv (w.webs j)) :
    SocketTurned sockets w j ((w.webs j).disconnect socket) w.redis := by
  have hconnected : ∀ socket', Function.update (w.webs j).connected socket false socket' = true →
      (w.webs j).connected socket' = true := by
    intro socket' h
    by_cases hs : socket' = socket
    · rw [hs, Function.update_self] at h
      cases h
    · rwa [Function.update_of_ne hs] at h
  have hlt : ∀ socket', Function.update (w.webs j).connected socket false socket' = true →
      socket' < (w.webs j).created := fun socket' h => hsv.connected_lt socket' (hconnected socket' h)
  unfold SocketServer.disconnect
  dsimp only
  split
  · refine ⟨⟨hlt, hsv.map_lt, hsv.value⟩, rfl, fun u => .quiet ?_ rfl rfl⟩
    rintro ⟨socket', hmap, h⟩
    exact ⟨socket', hmap, hconnected socket' h⟩
  · next nowUserId _ =>
    have hmap : ∀ u socket', Function.update (w.webs j).userIdMap nowUserId none u = some socket' →
        socket' < (w.webs j).created := lt_of_update hsv.map_lt fun socket' h => by cases h
    have hinv : SocketInv { w.webs j with
        connected := Function.update (w.webs j).connected socket false
        userIdMap := Function.update (w.webs j).userIdMap nowUserId none
        socketMap := Function.update (w.webs j).socketMap socket none } := ⟨hlt, hmap, hsv.value⟩
    have hops : ∀ u, (SocketServer.issue { w.webs j with
        connected := Function.update (w.webs j).connected socket false
        userIdMap := Function.update (w.webs j).userIdMap nowUserId none
        socketMap := Function.update (w.webs j).socketMap socket none }
          [.publish (ascii "offline") nowUserId, .del nowUserId, .smembers nowUserId false]).ops u =
        (w.webs j).ops u ++ [SocketCommand.del nowUserId].filterMap (leaseOp u) := ops_issue _ _
    refine ⟨hinv.issue fun u v h => ?_, rfl,
      Lease.Turn.of_one nowUserId ?_ (fun u hu => ?_) (fun u hu => ?_) fun _ _ => rfl⟩
    · simp at h
    · refine .release ?_ ((hops nowUserId).trans ?_) rfl
      · rintro ⟨socket', hmap, h⟩
        simp only [SocketServer.issue, Function.update_self] at hmap
        cases hmap
      · rw [List.filterMap_cons, leaseOp, if_pos rfl]
        rfl
    · rintro ⟨socket', hmap, h⟩
      simp only [SocketServer.issue, Function.update_of_ne hu] at hmap
      exact ⟨socket', hmap, hconnected socket' h⟩
    · rw [hops, List.filterMap_cons, leaseOp_del_of_ne hu]
      exact List.append_nil _

/-- A callback. -/
theorem SocketTurned.callback (hsv : SocketInv (w.webs j)) {p : Pipeline SocketCommand SocketReply}
    (hp : p.commands = (w.webs j).redisDB.commands) (serialize : MsgData → Bytes)
    (gbk : Bytes → Bytes) (reply : SocketReply) :
    SocketTurned sockets w j ({ w.webs j with redisDB := p }.callback serialize gbk reply) w.redis := by
  have hnil : SocketTurned sockets w j { w.webs j with redisDB := p } w.redis := by
    rw [← SocketServer.issue_nil { w.webs j with redisDB := p }]
    exact .issue hsv hp (List.forall_mem_nil _)
  unfold SocketServer.callback
  split
  · exact .issue hsv hp (List.forall_mem_singleton.2 fun _ => rfl)
  · exact .issue hsv hp (List.forall_mem_singleton.2 fun _ => rfl)
  · exact .issue hsv hp (List.forall_mem_map.2 fun _ _ _ => rfl)
  · exact .issue hsv hp (List.forall_mem_map.2 fun _ _ _ => rfl)
  · split
    · exact .issue hsv hp (List.forall_mem_singleton.2 fun _ => rfl)
    · exact hnil
  · exact hnil

/-- Commands other than `SET` and `DEL` leave the keys of presence. -/
theorem keys_exec {c : SocketCommand} {r : Redis} (hset : ∀ v, c ≠ .set u v) (hdel : c ≠ .del u) :
    (c.exec r).1.keys (ascii "online:" ++ u) = r.keys (ascii "online:" ++ u) := by
  cases c with
  | set userId value =>
    refine Function.update_of_ne (fun h => hset value ?_) ..
    rw [online_inj.1 h]
  | del userId =>
    refine Function.update_of_ne (fun h => hdel ?_) ..
    rw [online_inj.1 h]
  | sadd groupId userId => exact Keyspace.sadd_of_ne (online_ne_onlineGroup _ _)
  | srem groupId userId => exact Keyspace.srem_of_ne (online_ne_onlineGroup _ _)
  | lpush toId buf => exact Keyspace.lpush_of_ne (unreadMsg_ne_online _ _).symm
  | ltrim toId => exact Keyspace.ltrim_of_ne (unreadMsg_ne_online _ _).symm
  | get data => rfl
  | publish channel message => rfl
  | smembers userId online => rfl

/-- **The Redis server executes a command of a web server.** -/
theorem SocketTurned.execute [DecidableEq ι] [DecidableEq κ] (hsv : SocketInv (w.webs j))
    (hsocket : (w.webs j).g_socketStr = sockets (.inr j))
    (hok : w.Undisturbed sockets (.execute j)) {p : Pipeline SocketCommand SocketReply}
    (h : (w.webs j).redisDB.run SocketCommand.exec w.redis = some (r', p)) :
    SocketTurned sockets w j { w.webs j with redisDB := p } r' := by
  obtain ⟨c, hc, rfl, -⟩ := Pipeline.run_eq_some h
  have hmem : c ∈ (w.webs j).redisDB.commands := hc ▸ List.mem_cons_self
  refine ⟨⟨hsv.connected_lt, hsv.map_lt,
    fun u v hv => hsv.value u v (hc ▸ List.mem_cons_of_mem _ hv)⟩, rfl, fun u => ?_⟩
  have hops : (w.lease u).ops (.inr j) = (c :: p.commands).filterMap (leaseOp u) :=
    congrArg (List.filterMap (leaseOp u)) hc
  by_cases hset : ∃ v, c = .set u v
  · obtain ⟨v, rfl⟩ := hset
    refine .execClaim (hops.trans ?_) (fun h => h) ?_
    · rw [List.filterMap_cons, leaseOp, if_pos rfl]
      rfl
    · rw [World.names, ← hsocket, ← hsv.value u v hmem]
      exact Function.update_self ..
  by_cases hdel : c = .del u
  · subst hdel
    simp only [World.Undisturbed, hc, List.head?_cons] at hok
    refine .execRelease (hops.trans ?_) hok (fun h => h) ?_
    · rw [List.filterMap_cons, leaseOp, if_pos rfl]
      rfl
    · exact Function.update_self ..
  · have hnone : leaseOp u c = none := by
      cases c with
      | set userId value => exact if_neg fun h => hset ⟨value, by rw [h]⟩
      | del userId => exact if_neg fun h => hdel (by rw [h])
      | _ => rfl
    refine .quiet (fun h => h) ?_ (keys_exec (fun v h => hset ⟨v, h⟩) hdel)
    rw [hops, List.filterMap_cons, hnone]
    rfl

end SocketTurn

end MutexIM.Routing
