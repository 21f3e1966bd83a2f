import MutexIM.Routing.Effects
import MutexIM.Routing.Peer

/-!
# No chat message is lost

* `Net.copies` counts the copies of a message: handled by a server, sent, on their way, in the
  recipient's list, or dropped from it.
* `Task.balance`, `copies_step`: a step moves copies, and makes none and loses none, if every message
  that is published finds a connection of its recipient.
* `Net.Sound`: what is sent goes to a session that was registered for the recipient.
* `copies_of_run`: both, in every run.
* `published_lost`: a message that finds no connection when it arrives is lost.
-/

namespace MutexIM.Routing

open Bytes Codec MessageServer

/-! ## Where the copies of a message are -/

/-- The text of a message in Redis. -/
def text (m : MsgData) : Bytes := (ChatMsg.msgData m).serialize

/-- The copies that are being handled and have no place yet. -/
def handling (m : MsgData) : Option Task → ℕ
  | some (.peer m' stage) => if m' = m ∧ stage ≠ .ltrim then 1 else 0
  | _ => 0

/-- The copies in the recipient's list. -/
def stored (r : Redis) (m : MsgData) : ℕ :=
  (r.keys.listAt (ascii "unreadMsg:" ++ m.toId)).count (text m)

variable {ι : Type*} (sockets : ι → Bytes)

/-- The entry that a server's subscriber is after. -/
def entry (m : MsgData) (i : ι) : Bytes × Bytes := (ascii "peerMsg:" ++ sockets i, text m)

/-- **Where the copies of a message are**: at a server that handles them, sent, published and not yet
seen by the server they were published for, in the recipient's list, or dropped from it. -/
def Net.copies [Fintype ι] (w : Net ι) (m : MsgData) : ℕ :=
  ∑ i, handling m (w.nodes i).task + (w.sent.map fun e => e.2.2).count m +
    inFlight w.redis.published (fun i => (w.nodes i).seen) (entry sockets m) + stored w.redis m +
    w.dropped.count (ascii "unreadMsg:" ++ m.toId, text m)

theorem text_inj {m m' : MsgData} (hm : (ChatMsg.msgData m).Fits) (hm' : (ChatMsg.msgData m').Fits)
    (h : text m = text m') : m = m' := by
  have hparse := ChatMsg.parse_serialize hm
  rw [show (ChatMsg.msgData m).serialize = text m' from h] at hparse
  exact ChatMsg.msgData.inj (Option.some.inj (hparse.symm.trans (ChatMsg.parse_serialize hm')))

theorem received_text {m : MsgData} (hm : (ChatMsg.msgData m).Fits) : received (text m) = [m] := by
  have hparse : ChatMsg.parse .msgData (text m) = some (.msgData m) := ChatMsg.parse_serialize hm
  rw [received, hparse]

theorem entry_injective (hsockets : Function.Injective sockets) (m : MsgData) :
    Function.Injective (entry sockets m) := by
  intro i j h
  exact hsockets (List.append_cancel_left (congrArg Prod.fst h))

theorem sum_count_entry [Fintype ι] (hsockets : Function.Injective sockets)
    {m m' : MsgData} (hm : (ChatMsg.msgData m).Fits) (hm' : (ChatMsg.msgData m').Fits) (k : ι) :
    ∑ i, [entry sockets m' k].count (entry sockets m i) = if m' = m then 1 else 0 := by
  classical
  rw [sum_count_singleton (entry_injective sockets hsockets m)]
  refine if_congr ⟨?_, ?_⟩ rfl rfl
  · rintro ⟨i, hi⟩
    exact (text_inj hm hm' (congrArg Prod.snd hi)).symm
  · rintro rfl
    exact ⟨k, rfl⟩

section Balance

variable {sv sv' : Server} {r r' : Redis} {m ptrMsg : MsgData}

theorem sends_eq_nil_or (sv : Server) (m : MsgData) :
    sends sv m = [] ∨ ∃ s, sends sv m = [(s, m)] := by
  unfold sends
  split
  · split
    · exact .inr ⟨_, rfl⟩
    · exact .inl rfl
  · exact .inl rfl

/-- A message that is sent somewhere is sent once. -/
theorem count_sends (h : sends sv ptrMsg ≠ []) :
    ((sends sv ptrMsg).map Prod.snd).count m = if ptrMsg = m then 1 else 0 := by
  rcases sends_eq_nil_or sv ptrMsg with hnil | ⟨s, hs⟩
  · exact absurd hnil h
  · rw [hs, List.map_singleton, List.count_singleton]
    simp only [beq_iff_eq]

theorem stored_congr (h : r'.keys (ascii "unreadMsg:" ++ m.toId) =
    r.keys (ascii "unreadMsg:" ++ m.toId)) : stored r' m = stored r m := by
  rw [stored, stored, Keyspace.listAt_congr h]

/-- A message is put in its recipient's list. -/
theorem stored_lpush (hm : (ChatMsg.msgData m).Fits) (hptr : (ChatMsg.msgData ptrMsg).Fits)
    (hnul : NulFree ptrMsg.toId)
    (hlist : r.keys.ListOrNone (ascii "unreadMsg:" ++ ptrMsg.toId)) :
    stored (CRedis.lpush r (ascii "unreadMsg:" ++ ptrMsg.toId) (text ptrMsg)).2 m =
      stored r m + if ptrMsg = m then 1 else 0 := by
  have hkey : cstr (ascii "unreadMsg:" ++ ptrMsg.toId) = ascii "unreadMsg:" ++ ptrMsg.toId := by
    rw [cstr_unreadMsg, cstr_eq_self hnul]
  by_cases hk : ascii "unreadMsg:" ++ m.toId = ascii "unreadMsg:" ++ ptrMsg.toId
  · have hself : (CRedis.lpush r (ascii "unreadMsg:" ++ ptrMsg.toId) (text ptrMsg)).2.keys.listAt
        (ascii "unreadMsg:" ++ ptrMsg.toId) =
        text ptrMsg :: r.keys.listAt (ascii "unreadMsg:" ++ ptrMsg.toId) := by
      have hlpush := CRedis.listAt_lpush (hkey ▸ hlist) (text ptrMsg)
      rwa [hkey] at hlpush
    rw [stored, stored, hk, hself, List.count_cons]
    simp only [beq_iff_eq]
    congr 1
    exact if_congr ⟨fun h => text_inj hptr hm h, fun h => h ▸ rfl⟩ rfl rfl
  · have hne : ptrMsg ≠ m := by
      rintro rfl
      exact hk rfl
    rw [if_neg hne, Nat.add_zero]
    exact stored_congr (CRedis.keys_lpush_of_ne (by rwa [hkey]) _)

/-- What is dropped from a list was in it. -/
theorem stored_ltrim : stored (CRedis.ltrim r (ascii "unreadMsg:" ++ ptrMsg.toId) 0 99) m +
      (Task.dropped r (.peer ptrMsg .ltrim)).count (ascii "unreadMsg:" ++ m.toId, text m) =
    stored r m := by
  have hdropped : Task.dropped r (.peer ptrMsg .ltrim) =
      ((r.keys.listAt (cstr (ascii "unreadMsg:" ++ ptrMsg.toId))).drop 100).map
        (Prod.mk (cstr (ascii "unreadMsg:" ++ ptrMsg.toId))) := rfl
  rw [stored, stored, hdropped]
  by_cases hk : ascii "unreadMsg:" ++ m.toId = cstr (ascii "unreadMsg:" ++ ptrMsg.toId)
  · have htrim := CRedis.listAt_ltrim (r := r) (ascii "unreadMsg:" ++ ptrMsg.toId) 99
    rw [Nat.cast_ofNat] at htrim
    rw [hk, htrim, List.count_map_of_injective _ _ (Prod.mk_right_injective _), ← List.count_append,
      List.take_append_drop]
  · rw [Keyspace.listAt_congr (CRedis.keys_ltrim_of_ne hk _ _), Nat.add_eq_left,
      List.count_eq_zero]
    intro hmem
    obtain ⟨value, -, heq⟩ := List.mem_map.1 hmem
    exact hk (Prod.mk.inj heq).1.symm

/-- **The balance of a step of `doPeerMsg`**: the copies of any message that were being handled or in
the list are handled, sent, published, in the list or dropped afterwards. -/
theorem PeerStage.balance [Fintype ι] (hsockets : Function.Injective sockets)
    (hnul : ∀ i, NulFree (sockets i)) (hm : (ChatMsg.msgData m).Fits)
    (hptr : (ChatMsg.msgData ptrMsg).Fits) {stage : PeerStage} {stage' : Option PeerStage}
    (hok : (Task.peer ptrMsg stage).Attended sv)
    (htarget : ∀ s, stage = .publish s → ∃ k, s = sockets k)
    (hlist : r.keys.ListOrNone (ascii "unreadMsg:" ++ ptrMsg.toId))
    (h : stage.next sv r ptrMsg = (stage', sv', r')) :
    ∃ l, r'.published = r.published ++ l ∧
      handling m (stage'.map (.peer ptrMsg)) +
          ((Task.sent sv (.peer ptrMsg stage)).map Prod.snd).count m +
          ∑ i, l.count (entry sockets m i) + stored r' m +
          (Task.dropped r (.peer ptrMsg stage)).count (ascii "unreadMsg:" ++ m.toId, text m) =
        handling m (some (.peer ptrMsg stage)) + stored r m := by
  have hsum : ∑ i, ([] : List (Bytes × Bytes)).count (entry sockets m i) = 0 := by simp
  cases stage with
  | find =>
    simp only [PeerStage.next] at h
    split at h
    · next s hs =>
      obtain ⟨rfl, rfl, rfl⟩ := h
      refine ⟨[], (List.append_nil _).symm, ?_⟩
      have hcount := count_sends (m := m) (hok (by rw [hs]; exact Option.some_ne_none s))
      simp [handling, Task.sent, Task.dropped, hcount]
    · next hs =>
      obtain ⟨rfl, rfl, rfl⟩ := h
      refine ⟨[], (List.append_nil _).symm, ?_⟩
      simp [handling, Task.sent, Task.dropped, sends, hs]
  | get =>
    obtain ⟨rfl, rfl, rfl⟩ := h
    refine ⟨[], (List.append_nil _).symm, ?_⟩
    split <;> simp [handling, Task.sent, Task.dropped]
  | publish serverSocket =>
    obtain ⟨rfl, rfl, rfl⟩ := h
    obtain ⟨k, rfl⟩ := htarget _ rfl
    refine ⟨[entry sockets ptrMsg k], ?_, ?_⟩
    · have hkey := cstr_eq_self (NulFree.append (s := ascii "peerMsg:") (by decide) (hnul k))
      exact congrArg (fun channel => r.published ++ [(channel, text ptrMsg)]) hkey
    · rw [sum_count_entry sockets hsockets hm hptr]
      simp [handling, Task.sent, Task.dropped, stored]
  | lpush =>
    rw [PeerStage.next_lpush, ← text] at h
    obtain ⟨rfl, rfl, rfl⟩ := h
    refine ⟨[], (List.append_nil _).symm, ?_⟩
    rw [hsum, stored_lpush hm hptr hok hlist]
    split <;> simp [handling, Task.sent, Task.dropped, Nat.add_comm]
  | ltrim =>
    obtain ⟨rfl, rfl, rfl⟩ := h
    refine ⟨[], (List.append_nil _).symm, ?_⟩
    rw [hsum, Nat.add_assoc, stored_ltrim]
    simp [handling, Task.sent]

/-- **The balance of a step of a task.** -/
theorem Task.balance [Fintype ι] (hsockets : Function.Injective sockets)
    (hnul : ∀ i, NulFree (sockets i)) (hm : (ChatMsg.msgData m).Fits) {t : Task}
    {t' : Option Task} (hok : t.Attended sv)
    (htask : ∀ ptrMsg stage, t = .peer ptrMsg stage →
      (ChatMsg.msgData ptrMsg).Fits ∧ ∀ s, stage = .publish s → ∃ k, s = sockets k)
    (hlist : ∀ u, r.keys.ListOrNone (ascii "unreadMsg:" ++ u))
    (h : t.next sv r = some (t', sv', r')) :
    ∃ l, r'.published = r.published ++ l ∧
      handling m t' + ((t.sent sv).map Prod.snd).count m + ∑ i, l.count (entry sockets m i) +
          stored r' m + (t.dropped r).count (ascii "unreadMsg:" ++ m.toId, text m) =
        handling m (some t) + stored r m := by
  have hcalm : Calm r r' → handling m t' = 0 → t.sent sv = [] → t.dropped r = [] →
      handling m (some t) = 0 → ∃ l, r'.published = r.published ++ l ∧
        handling m t' + ((t.sent sv).map Prod.snd).count m + ∑ i, l.count (entry sockets m i) +
            stored r' m + (t.dropped r).count (ascii "unreadMsg:" ++ m.toId, text m) =
          handling m (some t) + stored r m := by
    rintro ⟨hkeys, l, hl, hother⟩ ht' hsent hdropped ht
    have hzero : ∑ i, l.count (entry sockets m i) = 0 :=
      Finset.sum_eq_zero fun i _ => List.count_eq_zero.2 fun hmem =>
        hother _ hmem (List.prefix_append _ _)
    refine ⟨l, hl, ?_⟩
    rw [hzero, stored_congr (hkeys _), ht', hsent, hdropped, ht]
    rfl
  cases t with
  | peer ptrMsg stage =>
    obtain ⟨stage', hstage, rfl⟩ := Task.next_peer h
    obtain ⟨hptr, htarget⟩ := htask ptrMsg stage rfl
    exact PeerStage.balance sockets hsockets hnul hm hptr hok htarget (hlist _) hstage
  | shake conn request nowtime stage =>
    obtain ⟨stage', -, rfl⟩ := Task.next_shake h
    exact hcalm (Task.calm rfl h) (by cases stage' <;> rfl) rfl rfl rfl
  | stop ptrConnection stage =>
    obtain ⟨stage', -, rfl⟩ := Task.next_stop h
    exact hcalm (Task.calm rfl h) (by cases stage' <;> rfl) rfl rfl rfl

end Balance

/-! ## The invariant -/

/-- What holds in every run: the servers keep their sockets; the keys `online:<user>` name servers,
and the keys `unreadMsg:<user>` hold lists; what is on its way is a chat message for a server; and a
session was registered for the user of its entry, and for the recipients of what it has sent. -/
structure Net.Sound (w : Net ι) : Prop where
  socket : ∀ i, (w.nodes i).server.strServerSocket = sockets i
  seen_le : ∀ i, (w.nodes i).seen ≤ w.redis.published.length
  online : ∀ u v, w.redis.keys (ascii "online:" ++ u) = some v → ∃ i, v = .str (sockets i)
  unreadMsg : ∀ u, w.redis.keys.ListOrNone (ascii "unreadMsg:" ++ u)
  task : ∀ i m stage, (w.nodes i).task = some (.peer m stage) →
    (ChatMsg.msgData m).Fits ∧ ∀ s, stage = .publish s → ∃ k, s = sockets k
  waiting : ∀ i, ∀ e ∈ unread w.redis.published (w.nodes i).seen, ascii "peerMsg:" <+: e.1 →
    ∃ m, (ChatMsg.msgData m).Fits ∧ e.2 = text m
  registered : ∀ i u s, (w.nodes i).server.manager.sessionMap.lookup u = some s →
    (i, s, u) ∈ w.registered
  sent : ∀ i s m, (i, s, m) ∈ w.sent →
    .msgData m ∈ ((w.nodes i).server.manager.sessions s).sent ∧ (i, s, m.toId) ∈ w.registered

variable {sockets} [DecidableEq ι]

/-- A step of one server, with what it publishes, sends and registers. -/
theorem Net.Sound.of_node {w w' : Net ι} (h : w.Sound sockets) (hnul : ∀ i, NulFree (sockets i))
    {i : ι} {n : Node} (l : List (Bytes × Bytes)) (sent : List (ℕ × MsgData))
    (registered : List (ℕ × Bytes)) (hnodes : w'.nodes = Function.update w.nodes i n)
    (hpublished : w'.redis.published = w.redis.published ++ l)
    (hsent : w'.sent = w.sent ++ sent.map (i, ·))
    (hregistered : w'.registered = w.registered ++ registered.map (i, ·))
    (heffect : Effect (w.nodes i).server w.redis n.server w'.redis registered)
    (hlist : ∀ u, w'.redis.keys.ListOrNone (ascii "unreadMsg:" ++ u))
    (hseen : (w.nodes i).seen ≤ n.seen ∧ n.seen ≤ w'.redis.published.length)
    (htask : ∀ m stage, n.task = some (.peer m stage) →
      (ChatMsg.msgData m).Fits ∧ ∀ s, stage = .publish s → ∃ k, s = sockets k)
    (hwaiting : ∀ e ∈ l, ascii "peerMsg:" <+: e.1 → ∃ m, (ChatMsg.msgData m).Fits ∧ e.2 = text m)
    (hnew : ∀ s m, (s, m) ∈ sent → .msgData m ∈ (n.server.manager.sessions s).sent ∧
      (w.nodes i).server.manager.sessionMap.lookup m.toId = some s) :
    w'.Sound sockets := by
  have hnode : ∀ P : ι → Node → Prop, P i n → (∀ j, P j (w.nodes j)) → ∀ j, P j (w'.nodes j) := by
    intro P hself hother
    rw [hnodes]
    exact (Function.forall_update_iff w.nodes P).2 ⟨hself, fun j _ => hother j⟩
  have hlen : w.redis.published.length ≤ w'.redis.published.length := by
    rw [hpublished, List.length_append]
    exact Nat.le_add_right _ _
  have hunread : ∀ j, ∀ e ∈ unread w'.redis.published (w.nodes j).seen,
      e ∈ unread w.redis.published (w.nodes j).seen ∨ e ∈ l := by
    intro j e he
    rwa [hpublished, unread_append (h.seen_le j), List.mem_append] at he
  constructor
  case socket =>
    exact hnode (fun j n => n.server.strServerSocket = sockets j)
      (heffect.socket.trans (h.socket i)) h.socket
  case seen_le =>
    exact hnode (fun _ n => n.seen ≤ w'.redis.published.length) hseen.2
      fun j => (h.seen_le j).trans hlen
  case online =>
    intro u v hv
    rcases heffect.online u v hv with hold | rfl
    · exact h.online u v hold
    · exact ⟨i, by rw [h.socket, cstr_eq_self (hnul i)]⟩
  case unreadMsg => exact hlist
  case task =>
    exact hnode (fun _ n => ∀ m stage, n.task = some (.peer m stage) →
      (ChatMsg.msgData m).Fits ∧ ∀ s, stage = .publish s → ∃ k, s = sockets k) htask h.task
  case waiting =>
    intro j e he hkey
    have hmem := hnode (fun j n => ∀ e ∈ unread w'.redis.published n.seen,
      e ∈ unread w.redis.published (w.nodes j).seen ∨ e ∈ l)
      (fun e he => hunread i e ((List.drop_sublist_drop_left _ hseen.1).subset he)) hunread j e he
    rcases hmem with hold | hnew
    · exact h.waiting j e hold hkey
    · exact hwaiting e hnew hkey
  case registered =>
    rw [hregistered]
    refine hnode (fun j n => ∀ u s, n.server.manager.sessionMap.lookup u = some s →
      (j, s, u) ∈ w.registered ++ registered.map (i, ·)) (fun u s hs => ?_)
      fun j u s hs => List.mem_append_left _ (h.registered j u s hs)
    rcases heffect.sessionMap u s hs with hold | hnew
    · exact List.mem_append_left _ (h.registered i u s hold)
    · exact List.mem_append_right _ (List.mem_map_of_mem hnew)
  case sent =>
    have hkeep := hnode (fun j n => ∀ s, ((w.nodes j).server.manager.sessions s).sent <+:
      (n.server.manager.sessions s).sent) heffect.sent fun _ _ => List.prefix_rfl
    have hself : w'.nodes i = n := by rw [hnodes, Function.update_self]
    intro j s m hsm
    rw [hsent] at hsm
    rw [hregistered]
    rcases List.mem_append.1 hsm with hold | hmem
    · obtain ⟨hses, hreg⟩ := h.sent j s m hold
      exact ⟨(hkeep j s).subset hses, List.mem_append_left _ hreg⟩
    · obtain ⟨⟨s', m'⟩, hin, heq⟩ := List.mem_map.1 hmem
      cases heq
      rw [hself]
      obtain ⟨hses, hlookup⟩ := hnew s m hin
      exact ⟨hses, List.mem_append_left _ (h.registered i _ _ hlookup)⟩

/-- A message that is found a session for is sent there. -/
theorem sent_of_mem_sends {sv : Server} {m : MsgData} {s : ℕ} {m' : MsgData}
    (h : (s, m') ∈ sends sv m) : m' = m ∧ sv.manager.sessionMap.lookup m.toId = some s ∧
      .msgData m ∈ ((sv.manager.send s (.msgData m)).sessions s).sent := by
  unfold sends at h
  split at h
  · next s' hs' =>
    split at h
    · next hconn =>
      cases List.mem_singleton.1 h
      refine ⟨rfl, hs', ?_⟩
      rw [ConnectionManager.send, ConnectionManager.modify_sessions_self, TcpSession.send_sent _ hconn]
      exact List.mem_append_right _ (List.mem_singleton_self _)
    · cases h
  · cases h

/-- A published message is sent to the session found for its recipient. -/
theorem delivered {sv sv' : Server} {r : Redis} {m : MsgData} (hm : (ChatMsg.msgData m).Fits)
    (h : subscribePeerMsg sv (text m) = some sv') :
    Effect sv r sv' r [] ∧ ∀ s m', (s, m') ∈ (received (text m)).flatMap (sends sv) →
      .msgData m' ∈ (sv'.manager.sessions s).sent ∧
        sv.manager.sessionMap.lookup m'.toId = some s := by
  have hparse : ChatMsg.parse .msgData (text m) = some (.msgData m) := ChatMsg.parse_serialize hm
  rw [received_text hm]
  simp only [subscribePeerMsg, hparse] at h
  cases hfind : sv.manager.findUser m.toId with
  | none =>
    rw [hfind] at h
    obtain rfl := Option.some.inj h
    refine ⟨.refl, fun s m' hmem => ?_⟩
    simp [sends, hfind] at hmem
  | some s₀ =>
    rw [hfind] at h
    obtain rfl := Option.some.inj h
    refine ⟨.send _ _, fun s m' hmem => ?_⟩
    rw [List.flatMap_singleton] at hmem
    obtain ⟨rfl, hlookup, hsent⟩ := sent_of_mem_sends hmem
    obtain rfl : s₀ = s := Option.some.inj (hfind.symm.trans hlookup)
    exact ⟨hsent, hlookup⟩

theorem mem_task_sent {t : Task} {t' : Option Task} {sv sv' : Server} {r r' : Redis} {s : ℕ}
    {m : MsgData} (hnext : t.next sv r = some (t', sv', r')) (h : (s, m) ∈ t.sent sv) :
    .msgData m ∈ (sv'.manager.sessions s).sent ∧ sv.manager.sessionMap.lookup m.toId = some s := by
  cases t with
  | peer ptrMsg stage =>
    cases stage with
    | find =>
      obtain ⟨rfl, hlookup, hsent⟩ := sent_of_mem_sends h
      refine ⟨?_, hlookup⟩
      have hfind : sv.manager.findUser m.toId = some s := hlookup
      rw [Task.next, PeerStage.next, hfind] at hnext
      cases hnext
      exact hsent
    | _ => cases h
  | shake conn request nowtime stage => cases h
  | stop ptrConnection stage => cases h

/-- A chat message stays with its task, and is published for the server that was read from Redis. -/
theorem next_task {t : Task} {sv sv' : Server} {r r' : Redis} {ptrMsg : MsgData}
    {stage : PeerStage} (hnext : t.next sv r = some (some (.peer ptrMsg stage), sv', r')) :
    ∃ stage', t = .peer ptrMsg stage' ∧ ∀ s, stage = .publish s →
      s ≠ [] ∧ s = CRedis.get r (ascii "online:" ++ ptrMsg.toId) := by
  cases t with
  | peer m stage' =>
    obtain ⟨stage'', hstage, heq⟩ := Task.next_peer hnext
    obtain ⟨stage₃, rfl, heq⟩ := Option.map_eq_some_iff.1 heq.symm
    cases heq
    refine ⟨stage', rfl, ?_⟩
    rintro s rfl
    cases stage' with
    | find =>
      simp only [PeerStage.next] at hstage
      split at hstage <;> cases hstage
    | get =>
      have hget := Option.some.inj (Prod.mk.inj hstage).1
      split at hget
      · next hne =>
        cases hget
        exact ⟨hne, rfl⟩
      · cases hget
    | publish serverSocket => cases hstage
    | lpush =>
      rw [PeerStage.next_lpush] at hstage
      have hlpush := (Prod.mk.inj hstage).1
      split at hlpush <;> cases hlpush
    | ltrim => cases hstage
  | shake conn request nowtime stage' =>
    obtain ⟨stage'', -, heq⟩ := Task.next_shake hnext
    obtain ⟨stage₃, -, heq⟩ := Option.map_eq_some_iff.1 heq.symm
    cases heq
  | stop ptrConnection stage' =>
    obtain ⟨stage'', -, heq⟩ := Task.next_stop hnext
    obtain ⟨stage₃, -, heq⟩ := Option.map_eq_some_iff.1 heq.symm
    cases heq

omit [DecidableEq ι] in
/-- What is read from a key `online:<user>` is the socket of a server. -/
theorem get_eq_socket {r : Redis} {u : Bytes} (h : CRedis.get r (ascii "online:" ++ u) ≠ [])
    (honline : ∀ u v, r.keys (ascii "online:" ++ u) = some v → ∃ i, v = .str (sockets i)) :
    ∃ k, CRedis.get r (ascii "online:" ++ u) = sockets k := by
  unfold CRedis.get Keyspace.get at h ⊢
  rw [cstr_online] at h ⊢
  cases hv : r.keys (ascii "online:" ++ cstr u) with
  | none => simp [hv] at h
  | some v =>
    obtain ⟨k, rfl⟩ := honline _ v hv
    exact ⟨k, rfl⟩

/-- A step of `doPeerMsg` publishes nothing but the message, and keeps lists lists. -/
theorem PeerStage.published {stage : PeerStage} {stage' : Option PeerStage} {sv sv' : Server}
    {r r' : Redis} {ptrMsg : MsgData} (h : stage.next sv r ptrMsg = (stage', sv', r')) :
    (∃ l, r'.published = r.published ++ l ∧ ∀ e ∈ l, e.2 = text ptrMsg) ∧
      ∀ k, r.keys.ListOrNone k → r'.keys.ListOrNone k := by
  have hnil : ∀ r : Redis, ∃ l, r.published = r.published ++ l ∧ ∀ e ∈ l, e.2 = text ptrMsg :=
    fun r => ⟨[], (List.append_nil _).symm, List.forall_mem_nil _⟩
  cases stage with
  | find =>
    simp only [PeerStage.next] at h
    split at h <;> obtain ⟨-, rfl, rfl⟩ := h <;> exact ⟨hnil r, fun _ hk => hk⟩
  | get =>
    obtain ⟨-, rfl, rfl⟩ := h
    exact ⟨hnil r, fun _ hk => hk⟩
  | publish serverSocket =>
    obtain ⟨-, rfl, rfl⟩ := h
    exact ⟨⟨_, rfl, fun e he => by rw [List.mem_singleton.1 he]; rfl⟩, fun _ hk => hk⟩
  | lpush =>
    obtain ⟨-, rfl, rfl⟩ := h
    exact ⟨hnil r, fun _ hk => hk.lpush _⟩
  | ltrim =>
    obtain ⟨-, rfl, rfl⟩ := h
    exact ⟨hnil r, fun _ hk => hk.ltrim _ _⟩

/-- What a step of a task publishes for the servers is a chat message; the lists of unread messages
stay lists. -/
theorem Task.published {t : Task} {t' : Option Task} {sv sv' : Server} {r r' : Redis}
    (hfits : ∀ m stage, t = .peer m stage → (ChatMsg.msgData m).Fits)
    (hlist : ∀ u, r.keys.ListOrNone (ascii "unreadMsg:" ++ u))
    (hnext : t.next sv r = some (t', sv', r')) :
    (∃ l, r'.published = r.published ++ l ∧ ∀ e ∈ l, ascii "peerMsg:" <+: e.1 →
      ∃ m, (ChatMsg.msgData m).Fits ∧ e.2 = text m) ∧
      ∀ u, r'.keys.ListOrNone (ascii "unreadMsg:" ++ u) := by
  by_cases hlocks : t.locks = false
  · obtain ⟨hkeys, l, hl, hother⟩ := Task.calm hlocks hnext
    exact ⟨⟨l, hl, fun e he hkey => absurd hkey (hother e he)⟩,
      fun u v hv => hlist u v (hkeys u ▸ hv)⟩
  · cases t with
    | peer m stage =>
      obtain ⟨stage', hstage, -⟩ := Task.next_peer hnext
      obtain ⟨⟨l, hl, htext⟩, hkeep⟩ := PeerStage.published hstage
      exact ⟨⟨l, hl, fun e he _ => ⟨m, hfits m stage rfl, htext e he⟩⟩, fun u => hkeep _ (hlist u)⟩
    | shake conn request nowtime stage => exact absurd rfl hlocks
    | stop ptrConnection stage => exact absurd rfl hlocks

theorem Net.begin_eq_some_iff {w w' : Net ι} {i : ι} {t : Task} :
    w.begin i t = some w' ↔
      (w.nodes i).task = none ∧ w' = w.setNode i { w.nodes i with task := some t } := by
  unfold Net.begin
  split
  · next hnone => simp [hnone, eq_comm]
  · next t' ht' => simp [ht']

/-- The subscriber is handed the next message: a chat message for the server, or another one. -/
theorem Net.deliver_eq_some_iff {w w' : Net ι} {i : ι} :
    w.step (.deliver i) = some w' ↔
      ∃ channel value, (w.nodes i).task.any Task.locks = false ∧
        w.redis.published[(w.nodes i).seen]? = some (channel, value) ∧
        ((channel = ascii "peerMsg:" ++ (w.nodes i).server.strServerSocket ∧
            ∃ sv, subscribePeerMsg (w.nodes i).server value = some sv ∧
              w' = { w with
                nodes := Function.update w.nodes i
                  { w.nodes i with server := sv, seen := (w.nodes i).seen + 1 }
                sent := w.sent ++
                  ((received value).flatMap (sends (w.nodes i).server)).map (i, ·) }) ∨
          channel ≠ ascii "peerMsg:" ++ (w.nodes i).server.strServerSocket ∧
            w' = w.setNode i { w.nodes i with seen := (w.nodes i).seen + 1 }) := by
  simp only [Net.step]
  cases hlocks : (w.nodes i).task.any Task.locks
  · cases hnext : w.redis.published[(w.nodes i).seen]? with
    | none => simp
    | some e =>
      obtain ⟨channel, value⟩ := e
      by_cases hchannel : channel = ascii "peerMsg:" ++ (w.nodes i).server.strServerSocket
      · simp [hchannel, eq_comm]
      · simp [hchannel, eq_comm]
  · simp

omit [DecidableEq ι] in
/-- What is published for a server is a chat message. -/
theorem Net.Sound.next_text {w : Net ι} (h : w.Sound sockets) {i : ι} {socket value : Bytes}
    (hnext : w.redis.published[(w.nodes i).seen]? = some (ascii "peerMsg:" ++ socket, value)) :
    ∃ m, (ChatMsg.msgData m).Fits ∧ value = text m := by
  refine h.waiting i (ascii "peerMsg:" ++ socket, value) ?_ (List.prefix_append _ _)
  rw [unread_eq_cons hnext]
  exact List.mem_cons_self

/-- A server turns to something else, without Redis. -/
theorem Net.Sound.setNode {w : Net ι} (h : w.Sound sockets) (hnul : ∀ i, NulFree (sockets i))
    {i : ι} {n : Node} (heffect : Effect (w.nodes i).server w.redis n.server w.redis [])
    (hseen : (w.nodes i).seen ≤ n.seen ∧ n.seen ≤ w.redis.published.length)
    (htask : ∀ m stage, n.task = some (.peer m stage) →
      (ChatMsg.msgData m).Fits ∧ ∀ s, stage = .publish s → ∃ k, s = sockets k) :
    (w.setNode i n).Sound sockets :=
  h.of_node hnul [] [] [] rfl (List.append_nil _).symm (List.append_nil _).symm
    (List.append_nil _).symm heffect h.unreadMsg hseen htask
    (List.forall_mem_nil _) fun _ _ hmem => by cases hmem

/-- A server turns to a task. -/
theorem Net.Sound.begin {w w' : Net ι} (h : w.Sound sockets) (hnul : ∀ i, NulFree (sockets i))
    {i : ι} {t : Task} (hbegin : w.begin i t = some w')
    (ht : ∀ m stage, t = .peer m stage → (ChatMsg.msgData m).Fits ∧ stage = .find) :
    w'.Sound sockets := by
  obtain ⟨-, rfl⟩ := Net.begin_eq_some_iff.1 hbegin
  refine h.setNode hnul .refl ⟨le_rfl, h.seen_le i⟩ fun m stage hm => ?_
  obtain ⟨hfits, rfl⟩ := ht m stage (Option.some.inj hm)
  exact ⟨hfits, fun s hs => by cases hs⟩

theorem Effect.handleAccept {sv : Server} {r : Redis} :
    Effect sv r { sv with manager := sv.manager.handleAccept } r [] := by
  refine .of_manager (fun s => ?_) fun u s hs => .inl hs
  rw [ConnectionManager.apply_handleAccept TcpSession.sent rfl]

/-- **A step keeps the invariant.** -/
theorem Net.Sound.step {w w' : Net ι} {e : Net.Event ι} (h : w.Sound sockets)
    (hnul : ∀ i, NulFree (sockets i)) (hstep : w.step e = some w') : w'.Sound sockets := by
  cases e with
  | accept i =>
    simp only [Net.step] at hstep
    split at hstep
    · next hidle =>
      obtain rfl := Option.some.inj hstep
      exact h.setNode hnul .handleAccept ⟨le_rfl, h.seen_le i⟩ (h.task i)
    · cases hstep
  | msgData i m =>
    simp only [Net.step] at hstep
    split at hstep
    · next hm =>
      obtain ⟨w₁, hbegin, rfl⟩ := Option.map_eq_some_iff.1 hstep
      have h₁ := h.begin hnul hbegin fun m' stage heq => by
        cases heq
        exact ⟨hm.2, rfl⟩
      exact ⟨h₁.socket, h₁.seen_le, h₁.online, h₁.unreadMsg, h₁.task, h₁.waiting, h₁.registered,
        h₁.sent⟩
    · cases hstep
  | shakeHandle i conn request nowtime =>
    simp only [Net.step] at hstep
    split at hstep
    · exact h.begin hnul hstep fun m stage heq => by cases heq
    · cases hstep
  | disconnect i s => exact h.begin hnul hstep fun m stage heq => by cases heq
  | work i =>
    obtain ⟨t, ht, hwork⟩ := Option.bind_eq_some_iff.1 hstep
    obtain ⟨⟨t', sv, r⟩, hnext, rfl⟩ := Option.map_eq_some_iff.1 hwork
    have hfits : ∀ m stage, t = .peer m stage → (ChatMsg.msgData m).Fits := fun m stage heq =>
      (h.task i m stage (heq ▸ ht)).1
    obtain ⟨⟨l, hl, htext⟩, hlist⟩ := Task.published hfits h.unreadMsg hnext
    refine h.of_node hnul l (t.sent (w.nodes i).server) (t.registered (w.nodes i).server) rfl hl rfl
      rfl (Task.effect hnext) hlist ⟨le_rfl, ?_⟩ (fun m stage hm => ?_) htext
      fun s m hmem => mem_task_sent hnext hmem
    · rw [hl, List.length_append]
      exact (h.seen_le i).trans (Nat.le_add_right _ _)
    · obtain rfl : t' = _ := hm
      obtain ⟨stage', rfl, hpublish⟩ := next_task hnext
      refine ⟨hfits m stage' rfl, fun s hs => ?_⟩
      obtain ⟨hne, rfl⟩ := hpublish s hs
      exact get_eq_socket hne h.online
  | deliver i =>
    rcases Net.deliver_eq_some_iff.1 hstep with ⟨channel, value, -, hnext, h'⟩
    have hlt : (w.nodes i).seen + 1 ≤ w.redis.published.length :=
      (List.getElem?_eq_some_iff.1 hnext).1
    rcases h' with ⟨rfl, sv, hsv, rfl⟩ | ⟨-, rfl⟩
    · obtain ⟨m, hm, rfl⟩ := h.next_text hnext
      obtain ⟨heffect, hnew⟩ := delivered hm hsv
      exact h.of_node hnul [] _ [] rfl (List.append_nil _).symm rfl (List.append_nil _).symm
        heffect h.unreadMsg ⟨Nat.le_succ _, hlt⟩ (h.task i) (List.forall_mem_nil _) hnew
    · exact h.setNode hnul .refl ⟨Nat.le_succ _, hlt⟩ (h.task i)

/-! ## No copy is lost -/

variable [Fintype ι] {m : MsgData}

omit [Fintype ι] in
theorem seen_update (nodes : ι → Node) (i : ι) (n : Node) :
    (fun j => (Function.update nodes i n j).seen) =
      Function.update (fun j => (nodes j).seen) i n.seen := Function.comp_update Node.seen nodes i n

omit [Fintype ι] in
theorem seen_update_of_eq {nodes : ι → Node} {i : ι} {n : Node} (h : n.seen = (nodes i).seen) :
    (fun j => (Function.update nodes i n j).seen) = fun j => (nodes j).seen := by
  rw [seen_update, h, Function.update_eq_self]

variable (sockets m)

/-- A server that turns to a task takes up the message of the task. -/
theorem copies_setNode (w : Net ι) {i : ι} {n : Node} (hseen : n.seen = (w.nodes i).seen) :
    (w.setNode i n).copies sockets m + handling m (w.nodes i).task =
      w.copies sockets m + handling m n.task := by
  have hsum := sum_place (fun _ n => handling m n.task) w.nodes i n
  simp only [Net.copies, Net.setNode, seen_update_of_eq hseen] at hsum ⊢
  omega

theorem copies_begin {w w' : Net ι} {i : ι} {t : Task} (h : w.begin i t = some w') :
    w'.copies sockets m = w.copies sockets m + handling m (some t) := by
  obtain ⟨hidle, rfl⟩ := Net.begin_eq_some_iff.1 h
  have hcopies := copies_setNode sockets m w
    (show { w.nodes i with task := some t }.seen = (w.nodes i).seen from rfl)
  rwa [hidle] at hcopies

variable {sockets m}

/-- The thread of a server goes on. -/
theorem copies_work {w w' : Net ι} {i : ι} (hsockets : Function.Injective sockets)
    (hnul : ∀ i, NulFree (sockets i)) (h : w.Sound sockets) (hm : (ChatMsg.msgData m).Fits)
    (hok : w.Attended (.work i)) (hstep : w.step (.work i) = some w') :
    w'.copies sockets m = w.copies sockets m ∧ w'.accepted = w.accepted := by
  obtain ⟨t, ht, hwork⟩ := Option.bind_eq_some_iff.1 hstep
  obtain ⟨⟨t', sv, r⟩, hnext, rfl⟩ := Option.map_eq_some_iff.1 hwork
  have hsum := sum_place (fun _ n => handling m n.task) w.nodes i
    { w.nodes i with server := sv, task := t' }
  have hattended : t.Attended (w.nodes i).server := by
    simp only [Net.Attended, ht] at hok
    exact hok
  obtain ⟨l, hl, hbalance⟩ := Task.balance sockets hsockets hnul hm hattended
    (fun ptrMsg stage heq => h.task i ptrMsg stage (heq ▸ ht)) h.unreadMsg hnext
  have hflying : inFlight (w.redis.published ++ l) _ (entry sockets m) = _ :=
    inFlight_append h.seen_le l
  rw [ht] at hsum
  have hlog : (t.sent (w.nodes i).server).map (fun e => e.2) =
      (t.sent (w.nodes i).server).map Prod.snd := rfl
  refine ⟨?_, rfl⟩
  simp only [Net.copies, hl, List.map_append, List.map_map, List.count_append, Function.comp_def,
    seen_update_of_eq (show { w.nodes i with server := sv, task := t' }.seen =
      (w.nodes i).seen from rfl), hflying, hlog] at hsum ⊢
  omega

/-- A subscriber is handed a message. -/
theorem copies_deliver {w w' : Net ι} {i : ι} (h : w.Sound sockets)
    (hm : (ChatMsg.msgData m).Fits) (hok : w.Attended (.deliver i))
    (hstep : w.step (.deliver i) = some w') :
    w'.copies sockets m = w.copies sockets m ∧ w'.accepted = w.accepted := by
  obtain ⟨channel, value, -, hnext, hcases⟩ := Net.deliver_eq_some_iff.1 hstep
  have hread : inFlight w.redis.published
      (Function.update (fun j => (w.nodes j).seen) i ((w.nodes i).seen + 1)) (entry sockets m) +
      _ = _ := inFlight_read hnext
  simp only [Net.Attended, hnext] at hok
  rcases hcases with ⟨rfl, sv, hsv, rfl⟩ | ⟨hother, rfl⟩
  · obtain ⟨m', hm', rfl⟩ := h.next_text hnext
    have hsum := sum_place (fun _ n => handling m n.task) w.nodes i
      { w.nodes i with server := sv, seen := (w.nodes i).seen + 1 }
    have hsends := hok rfl m' (by rw [received_text hm']; exact List.mem_singleton_self _)
    have hcount : ((sends (w.nodes i).server m').map fun e => e.2).count m = _ :=
      count_sends hsends
    have hentry : ((ascii "peerMsg:" ++ (w.nodes i).server.strServerSocket, text m') ==
        entry sockets m i) = true ↔ m' = m := by
      rw [beq_iff_eq, entry, h.socket, Prod.mk.injEq, and_iff_right rfl]
      exact ⟨fun heq => (text_inj hm hm' heq.symm).symm, fun heq => heq ▸ rfl⟩
    simp only [if_congr hentry rfl rfl] at hread
    refine ⟨?_, rfl⟩
    simp only [Net.copies, seen_update, received_text hm', List.flatMap_singleton,
      List.map_append, List.map_map, Function.comp_def, List.count_append, hcount] at hsum ⊢
    omega
  · have hsum := sum_place (fun _ n => handling m n.task) w.nodes i
      { w.nodes i with seen := (w.nodes i).seen + 1 }
    have hentry : ¬((channel, value) == entry sockets m i) = true := by
      rw [beq_iff_eq, entry, ← h.socket i]
      exact fun heq => hother (Prod.mk.inj heq).1
    rw [if_neg hentry] at hread
    refine ⟨?_, rfl⟩
    simp only [Net.copies, Net.setNode, seen_update] at hsum ⊢
    omega

/-- **No copy of a message is lost or doubled in a step** under the condition: the copies that come
in are the messages accepted. -/
theorem copies_step {w w' : Net ι} {e : Net.Event ι} (hsockets : Function.Injective sockets)
    (hnul : ∀ i, NulFree (sockets i)) (h : w.Sound sockets) (hm : (ChatMsg.msgData m).Fits)
    (hok : w.Attended e) (hstep : w.step e = some w') :
    w'.copies sockets m + w.accepted.count m = w.copies sockets m + w'.accepted.count m := by
  cases e with
  | accept i =>
    simp only [Net.step] at hstep
    split at hstep
    · next hidle =>
      obtain rfl := Option.some.inj hstep
      have hcopies := copies_setNode sockets m w
        (show { w.nodes i with server := { (w.nodes i).server with
          manager := (w.nodes i).server.manager.handleAccept } }.seen = (w.nodes i).seen from rfl)
      simp only [Net.setNode] at hcopies ⊢
      omega
    · cases hstep
  | msgData i m' =>
    simp only [Net.step] at hstep
    split at hstep
    · obtain ⟨w₁, hbegin, rfl⟩ := Option.map_eq_some_iff.1 hstep
      have hcopies := copies_begin sockets m hbegin
      obtain ⟨-, rfl⟩ := Net.begin_eq_some_iff.1 hbegin
      have hhandling : handling m (some (.peer m' .find)) = [m'].count m := by
        simp [handling, List.count_singleton]
      rw [hhandling] at hcopies
      simp only [Net.copies, Net.setNode, List.count_append] at hcopies ⊢
      omega
    · cases hstep
  | shakeHandle i conn request nowtime =>
    simp only [Net.step] at hstep
    split at hstep
    · rw [copies_begin sockets m hstep]
      obtain ⟨-, rfl⟩ := Net.begin_eq_some_iff.1 hstep
      rfl
    · cases hstep
  | disconnect i s =>
    have hbegin : w.begin i (.stop s .erase) = some w' := hstep
    rw [copies_begin sockets m hbegin]
    obtain ⟨-, rfl⟩ := Net.begin_eq_some_iff.1 hbegin
    rfl
  | work i =>
    obtain ⟨hcopies, haccepted⟩ := copies_work hsockets hnul h hm hok hstep
    rw [hcopies, haccepted]
  | deliver i =>
    obtain ⟨hcopies, haccepted⟩ := copies_deliver h hm hok hstep
    rw [hcopies, haccepted]

/-- **No chat message is lost.** In every run in which each published message, when it arrives, finds
a connection of its recipient, as does each one whose recipient has a session on the sender's server,
and no message is put in a list for a recipient whose id has a NUL: the copies of a message are as
many as were accepted, apart from those already in the list, and what was sent went to a session that
was registered for the recipient. -/
theorem copies_of_run {r : Redis} {es : List (Net.Event ι)} {w : Net ι}
    (hsockets : Function.Injective sockets) (hnul : ∀ i, NulFree (sockets i))
    (honline : ∀ u v, r.keys (ascii "online:" ++ u) = some v → ∃ i, v = .str (sockets i))
    (hunread : ∀ u, r.keys.ListOrNone (ascii "unreadMsg:" ++ u))
    (hrun : Run Net.step Net.Attended (Net.start sockets r) es w) :
    (∀ m, (ChatMsg.msgData m).Fits → w.copies sockets m = stored r m + w.accepted.count m) ∧
      ∀ i s m, (i, s, m) ∈ w.sent →
        .msgData m ∈ ((w.nodes i).server.manager.sessions s).sent ∧
          (i, s, m.toId) ∈ w.registered := by
  have hstart : (Net.start sockets r).Sound sockets := by
    refine ⟨fun _ => rfl, fun _ => le_rfl, honline, hunread, fun i m stage h => ?_,
      fun i e he => ?_, fun i u s h => ?_, fun i s m h => ?_⟩
    · cases h
    · rw [Net.start, unread, List.drop_length] at he
      cases he
    · cases h
    · cases h
  have hzero : ∀ m, (Net.start sockets r).copies sockets m = stored r m := by
    intro m
    simp [Net.copies, Net.start, handling, inFlight, unread]
  obtain ⟨hsound, hcopies⟩ := hrun.invariant
    (I := fun w => w.Sound sockets ∧ ∀ m, (ChatMsg.msgData m).Fits →
      w.copies sockets m = stored r m + w.accepted.count m)
    (fun w e w' h hok hstep => ⟨h.1.step hnul hstep, fun m hm => by
      have hcopies := copies_step hsockets hnul h.1 hm hok hstep
      have hbefore := h.2 m hm
      omega⟩)
    ⟨hstart, fun m _ => by rw [hzero m]; rfl⟩
  exact ⟨hcopies, hsound.sent⟩

/-- Two servers. -/
def twoSockets (b : Bool) : Bytes := if b then ascii "h:1" else ascii "h:2"

/-- A message for the user `a`. -/
def helloMsg : MsgData := ⟨0, 0, ascii "b", ascii "a", ascii "hello", chatText⟩

/-- The user `a` comes online on one of two servers, and a message for `a` that comes in on the other
one is published. -/
def publishHello : List (Net.Event Bool) :=
  [.accept true, .shakeHandle true 0 ⟨0, ascii "a"⟩ 0] ++ List.replicate 7 (.work true) ++
    .msgData false helloMsg :: List.replicate 3 (.work false)

/-- The message arrives while `a` is online. -/
theorem copies_delivered :
    ∃ w, Run Net.step Net.Attended (Net.start twoSockets (loggedIn [ascii "a"]))
        (publishHello ++ [.deliver true, .deliver true]) w ∧
      w.copies twoSockets helloMsg =
          stored (loggedIn [ascii "a"]) helloMsg + w.accepted.count helloMsg ∧
        ∀ i s m, (i, s, m) ∈ w.sent →
          .msgData m ∈ ((w.nodes i).server.manager.sessions s).sent ∧
            (i, s, m.toId) ∈ w.registered := by
  have hsome : (exec Net.step Net.Attended (Net.start twoSockets (loggedIn [ascii "a"]))
      (publishHello ++ [.deliver true, .deliver true])).isSome = true := by decide +kernel
  obtain ⟨w, hexec⟩ := Option.isSome_iff_exists.1 hsome
  have hnone : ∀ k : Bytes, k ≠ ascii "loginMap:a" → (loggedIn [ascii "a"]).keys k = none :=
    fun k hk => if_neg fun hmem => hk (List.mem_singleton.1 hmem)
  obtain ⟨hcopies, hsent⟩ := copies_of_run (by decide) (by decide)
    (fun u v h => by rw [hnone _ (by simp [ascii])] at h; cases h)
    (fun u v h => by rw [hnone _ (by simp [ascii])] at h; cases h) (.of_exec hexec)
  exact ⟨w, .of_exec hexec, hcopies helloMsg (by decide), hsent⟩

/-- **A message is lost**: `a` goes before the message arrives, and the server for which it was
published drops it. -/
theorem published_lost :
    ∃ w, Run Net.step (fun _ _ => True) (Net.start twoSockets (loggedIn [ascii "a"]))
        (publishHello ++ .disconnect true 0 :: List.replicate 5 (.work true) ++
          [.deliver true, .deliver true]) w ∧
      w.accepted.count helloMsg = 1 ∧ w.copies twoSockets helloMsg = 0 := by
  have hexec : ((exec Net.step (fun _ _ => True) (Net.start twoSockets (loggedIn [ascii "a"]))
      (publishHello ++ .disconnect true 0 :: List.replicate 5 (.work true) ++
        [.deliver true, .deliver true])).map fun w =>
          (w.accepted.count helloMsg, w.copies twoSockets helloMsg)) = some (1, 0) := by
    decide +kernel
  obtain ⟨w, hexec, hend⟩ := Option.map_eq_some_iff.1 hexec
  obtain ⟨haccepted, hcopies⟩ := Prod.mk.inj hend
  exact ⟨w, .of_exec hexec, haccepted, hcopies⟩

end MutexIM.Routing
