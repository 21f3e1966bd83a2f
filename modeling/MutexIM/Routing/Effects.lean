import MutexIM.Routing.Tasks

/-!
# What the steps of the handlers change

* `Task.effect`: what a step of any task does to the sessions, to the map of users and to the keys
  `online:<user>`.
* `Task.calm`: a step of a handshake or of a disconnect leaves the chat messages in Redis alone.
-/

namespace MutexIM.Routing

open Bytes Codec MessageServer

/-! ## The server and the presence keys -/

/-- What a step of any task does to the server and to the keys of presence: the sessions keep what
they have sent, new entries of the map are registered, and the key of a user who comes online gets
the server's own socket. -/
structure Effect (sv : Server) (r : Redis) (sv' : Server) (r' : Redis)
    (registered : List (ℕ × Bytes)) : Prop where
  socket : sv'.strServerSocket = sv.strServerSocket
  sent : ∀ s, (sv.manager.sessions s).sent <+: (sv'.manager.sessions s).sent
  sessionMap : ∀ u s, sv'.manager.sessionMap.lookup u = some s →
    sv.manager.sessionMap.lookup u = some s ∨ (s, u) ∈ registered
  online : ∀ u v, r'.keys (ascii "online:" ++ u) = some v →
    r.keys (ascii "online:" ++ u) = some v ∨ v = .str (cstr sv.strServerSocket)

namespace Effect

variable {sv sv' : Server} {r r' : Redis} {registered : List (ℕ × Bytes)}

/-- A step that only uses Redis. -/
theorem of_redis (h : ∀ u v, r'.keys (ascii "online:" ++ u) = some v →
    r.keys (ascii "online:" ++ u) = some v ∨ v = .str (cstr sv.strServerSocket)) :
    Effect sv r sv r' registered :=
  ⟨rfl, fun _ => List.prefix_rfl, fun _ _ h => .inl h, h⟩

theorem of_keys (h : ∀ u, r'.keys (ascii "online:" ++ u) = r.keys (ascii "online:" ++ u)) :
    Effect sv r sv r' registered := of_redis fun u _ hv => .inl (h u ▸ hv)

theorem refl : Effect sv r sv r registered := of_keys fun _ => rfl

/-- A step that only uses the sessions. -/
theorem of_manager {c : ConnectionManager}
    (hsent : ∀ s, (sv.manager.sessions s).sent <+: (c.sessions s).sent)
    (hmap : ∀ u s, c.sessionMap.lookup u = some s →
      sv.manager.sessionMap.lookup u = some s ∨ (s, u) ∈ registered) :
    Effect sv r { sv with manager := c } r registered :=
  ⟨rfl, hsent, hmap, fun _ _ h => .inl h⟩

end Effect

variable {sv sv' : Server} {r r' : Redis}

theorem sent_prefix_send (c : ConnectionManager) (conn : ℕ) (m : ChatMsg) (s : ℕ) :
    (c.sessions s).sent <+: ((c.send conn m).sessions s).sent := by
  rw [ConnectionManager.sent_send]
  exact List.prefix_append _ _

theorem Effect.send (conn : ℕ) (m : ChatMsg) {registered : List (ℕ × Bytes)} :
    Effect sv r { sv with manager := sv.manager.send conn m } r registered :=
  .of_manager (sent_prefix_send _ conn m) fun _ _ h => .inl h

theorem unreadMsg_ne_online (u v : Bytes) : ascii "unreadMsg:" ++ u ≠ ascii "online:" ++ v := by
  simp [ascii]

theorem unreadMsg_ne_onlineGroup (u g : Bytes) :
    ascii "unreadMsg:" ++ u ≠ ascii "onlineGroup:" ++ g := by
  simp [ascii]

theorem cstr_unreadMsg (u : Bytes) :
    cstr (ascii "unreadMsg:" ++ u) = ascii "unreadMsg:" ++ cstr u := cstr_append (by decide) u

theorem PeerStage.effect {ptrMsg : MsgData} {stage : PeerStage} {stage' : Option PeerStage}
    (h : stage.next sv r ptrMsg = (stage', sv', r')) : Effect sv r sv' r' [] := by
  have hkey : ∀ u, ascii "online:" ++ u ≠ cstr (ascii "unreadMsg:" ++ ptrMsg.toId) := by
    intro u
    rw [cstr_unreadMsg]
    exact (unreadMsg_ne_online _ _).symm
  cases stage with
  | find =>
    simp only [PeerStage.next] at h
    split at h <;> obtain ⟨-, rfl, rfl⟩ := h
    · exact .send _ _
    · exact .refl
  | get =>
    obtain ⟨-, rfl, rfl⟩ := h
    exact .refl
  | publish serverSocket =>
    obtain ⟨-, rfl, rfl⟩ := h
    exact .of_keys fun _ => rfl
  | lpush =>
    obtain ⟨-, rfl, rfl⟩ := h
    exact .of_keys fun u => CRedis.keys_lpush_of_ne (hkey u) _
  | ltrim =>
    obtain ⟨-, rfl, rfl⟩ := h
    exact .of_keys fun u => CRedis.keys_ltrim_of_ne (hkey u) _ _

theorem ShakeStage.effect {conn : ℕ} {request : ShakeHandleReq} (nowtime : UInt64)
    {stage : ShakeStage} {stage' : Option ShakeStage}
    (h : stage.next sv r conn request nowtime = (stage', sv', r')) :
    Effect sv r sv' r' (Task.registered sv (.shake conn request nowtime stage)) := by
  cases stage with
  | hgetAll =>
    obtain ⟨-, rfl, rfl⟩ := h
    exact .refl
  | existsKey sessionid =>
    obtain ⟨-, rfl, rfl⟩ := h
    exact .refl
  | bind sessionid =>
    obtain ⟨-, rfl, rfl⟩ := h
    refine .of_manager (fun s => ?_) fun u s hs => ?_
    · rw [ConnectionManager.apply_bindUser TcpSession.sent fun _ _ _ => rfl]
    · rcases ConnectionManager.of_findUser_bindUser hs with ⟨hconn, rfl, rfl⟩ | hs
      · rw [Task.registered, if_pos hconn]
        exact .inr (List.mem_singleton_self _)
      · exact .inl hs
  | set =>
    obtain ⟨-, rfl, rfl⟩ := h
    refine .of_redis fun u v hv => ?_
    by_cases hk : ascii "online:" ++ u = cstr (ascii "online:" ++ request.userId)
    · rw [hk, CRedis.keys_set_self] at hv
      exact .inr (Option.some.inj hv).symm
    · rw [CRedis.keys_set_of_ne hk] at hv
      exact .inl hv
  | smembers =>
    obtain ⟨-, rfl, rfl⟩ := h
    exact .refl
  | sadd vecStr =>
    cases vecStr with
    | nil =>
      obtain ⟨-, rfl, rfl⟩ := h
      exact .of_keys fun _ => rfl
    | cons g vecStr =>
      obtain ⟨-, rfl, rfl⟩ := h
      refine .of_keys fun u => CRedis.keys_sadd_of_ne ?_ _
      rw [cstr_onlineGroup]
      exact online_ne_onlineGroup _ _
  | send =>
    obtain ⟨-, rfl, rfl⟩ := h
    exact .send _ _

theorem StopStage.effect {ptrConnection : ℕ} {stage : StopStage} {stage' : Option StopStage}
    (h : stage.next sv r ptrConnection = some (stage', sv', r')) : Effect sv r sv' r' [] := by
  cases stage with
  | erase =>
    simp only [StopStage.next] at h
    split at h
    · obtain ⟨-, rfl, rfl⟩ := Option.some.inj h
      refine .of_manager (fun s => ?_) fun u s hs => .inl hs
      rw [ConnectionManager.apply_modify TcpSession.sent rfl]
    · cases h
  | del =>
    obtain ⟨-, rfl, rfl⟩ := Option.some.inj h
    refine .of_redis fun u v hv => .inl ?_
    by_cases hk : ascii "online:" ++ u =
        cstr (ascii "online:" ++ (sv.manager.sessions ptrConnection).userId)
    · rw [hk, CRedis.keys_del_self] at hv
      cases hv
    · rwa [CRedis.keys_del_of_ne hk] at hv
  | lrange =>
    obtain ⟨-, rfl, rfl⟩ := Option.some.inj h
    exact .refl
  | srem vecStr =>
    cases vecStr with
    | nil =>
      obtain ⟨-, rfl, rfl⟩ := Option.some.inj h
      exact .of_keys fun _ => rfl
    | cons g vecStr =>
      obtain ⟨-, rfl, rfl⟩ := Option.some.inj h
      refine .of_keys fun u => CRedis.keys_srem_of_ne ?_ _
      rw [cstr_onlineGroup]
      exact online_ne_onlineGroup _ _
  | unmap =>
    simp only [StopStage.next] at h
    split at h
    · obtain ⟨-, rfl, rfl⟩ := Option.some.inj h
      refine .of_manager (fun s => List.prefix_rfl) fun u s hs => .inl ?_
      by_cases hu : u = (sv.manager.sessions ptrConnection).userId
      · rw [hu, AList.lookup_erase] at hs
        cases hs
      · rwa [AList.lookup_erase_ne hu] at hs
    · cases h

/-- **A step of a task changes the server and the presence keys only so.** -/
theorem Task.effect {t : Task} {t' : Option Task} (h : t.next sv r = some (t', sv', r')) :
    Effect sv r sv' r' (t.registered sv) := by
  cases t with
  | peer ptrMsg stage =>
    obtain ⟨stage', hstage, -⟩ := Task.next_peer h
    exact PeerStage.effect hstage
  | shake conn request nowtime stage =>
    obtain ⟨stage', hstage, -⟩ := Task.next_shake h
    exact ShakeStage.effect nowtime hstage
  | stop ptrConnection stage =>
    obtain ⟨stage', hstage, -⟩ := Task.next_stop h
    exact StopStage.effect hstage

/-! ## Tasks other than chat messages -/

/-- Nothing changes for chat messages: the lists of unread messages stay, and nothing is published on
a channel of chat messages. -/
structure Calm (r r' : Redis) : Prop where
  keys : ∀ u, r'.keys (ascii "unreadMsg:" ++ u) = r.keys (ascii "unreadMsg:" ++ u)
  published : ∃ l, r'.published = r.published ++ l ∧ ∀ e ∈ l, ¬ascii "peerMsg:" <+: e.1

namespace Calm

theorem of_published (hkeys : ∀ u, r'.keys (ascii "unreadMsg:" ++ u) =
    r.keys (ascii "unreadMsg:" ++ u)) (hpub : r'.published = r.published) : Calm r r' :=
  ⟨hkeys, [], by rw [hpub, List.append_nil], fun _ he => by cases he⟩

theorem refl (r : Redis) : Calm r r := of_published (fun _ => rfl) rfl

theorem publish {channel : Bytes} (h : ¬ascii "peerMsg:" <+: cstr channel) (content : Bytes) :
    Calm r (CRedis.publish r channel content) :=
  ⟨fun _ => rfl, [(cstr channel, content)], rfl, fun e he => by rwa [List.mem_singleton.1 he]⟩

end Calm

theorem ShakeStage.calm {conn : ℕ} {request : ShakeHandleReq} {nowtime : UInt64}
    {stage : ShakeStage} {stage' : Option ShakeStage}
    (h : stage.next sv r conn request nowtime = (stage', sv', r')) : Calm r r' := by
  cases stage with
  | set =>
    obtain ⟨-, rfl, rfl⟩ := h
    refine .of_published (fun u => CRedis.keys_set_of_ne ?_ _) rfl
    rw [cstr_online]
    exact unreadMsg_ne_online _ _
  | sadd vecStr =>
    cases vecStr with
    | nil =>
      obtain ⟨-, rfl, rfl⟩ := h
      exact .publish (by decide) _
    | cons g vecStr =>
      obtain ⟨-, rfl, rfl⟩ := h
      refine .of_published (fun u => CRedis.keys_sadd_of_ne ?_ _) rfl
      rw [cstr_onlineGroup]
      exact unreadMsg_ne_onlineGroup _ _
  | _ =>
    obtain ⟨-, rfl, rfl⟩ := h
    exact .refl _

theorem StopStage.calm {ptrConnection : ℕ} {stage : StopStage} {stage' : Option StopStage}
    (h : stage.next sv r ptrConnection = some (stage', sv', r')) : Calm r r' := by
  cases stage with
  | del =>
    obtain ⟨-, rfl, rfl⟩ := Option.some.inj h
    refine .of_published (fun u => CRedis.keys_del_of_ne ?_) rfl
    rw [cstr_online]
    exact unreadMsg_ne_online _ _
  | srem vecStr =>
    cases vecStr with
    | nil =>
      obtain ⟨-, rfl, rfl⟩ := Option.some.inj h
      exact .publish (by decide) _
    | cons g vecStr =>
      obtain ⟨-, rfl, rfl⟩ := Option.some.inj h
      refine .of_published (fun u => CRedis.keys_srem_of_ne ?_ _) rfl
      rw [cstr_onlineGroup]
      exact unreadMsg_ne_onlineGroup _ _
  | lrange =>
    obtain ⟨-, rfl, rfl⟩ := Option.some.inj h
    exact .refl _
  | erase =>
    simp only [StopStage.next] at h
    split at h
    · obtain ⟨-, rfl, rfl⟩ := Option.some.inj h
      exact .refl _
    · cases h
  | unmap =>
    simp only [StopStage.next] at h
    split at h
    · obtain ⟨-, rfl, rfl⟩ := Option.some.inj h
      exact .refl _
    · cases h

theorem Task.calm {t : Task} {t' : Option Task} (hlocks : t.locks = false)
    (h : t.next sv r = some (t', sv', r')) : Calm r r' := by
  cases t with
  | peer ptrMsg stage => cases hlocks
  | shake conn request nowtime stage =>
    obtain ⟨stage', hstage, -⟩ := Task.next_shake h
    exact ShakeStage.calm hstage
  | stop ptrConnection stage =>
    obtain ⟨stage', hstage, -⟩ := Task.next_stop h
    exact StopStage.calm hstage

end MutexIM.Routing
