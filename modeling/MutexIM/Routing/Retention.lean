import MutexIM.Foundations.Capped
import MutexIM.Routing.Exchange
import MutexIM.Routing.GroupTasks
import MutexIM.Routing.Mailbox
import MutexIM.Web.GroupCommands

/-!
# How many messages are kept

Four handlers push messages to lists, and trim a list that has more than 99 then: `doPeerMsg` and
`doOfflineGroupMsg` of a message server, and the handlers of peer messages and of group messages of a web
server. Between the two commands those of other handlers come in.

* `Work` is what is left of a handler or a callback, and `Work.next` its next command, at servers in any
  state; `Work.op` is what that command does to a list, and `Work.debt` the list that is still to be trimmed.
* `Retention.step` runs the works of any number of servers in any order.
* `kept_of_run`: when no trim is owed, a list has the newest 100 of the messages that were pushed.
* `keeps_99_iff_of_run`: these are the newest 99 exactly if no more than 99 were pushed.
-/

namespace MutexIM.Routing

open Bytes Codec MessageServer Web

/-! ## The handlers -/

/-- What the servers use: the layout of hash maps, the order of `SORT`, the writers of messages and the
libraries of the web servers. -/
structure Tools where
  L : Layout Bytes Bytes
  order : Keyspace.NumericOrder
  serialize : MsgData → Bytes
  serializeGroup : ServerGroupMsg → Bytes
  lib : Libraries

/-- What is left of a message at a message server, and the commands and answers of web servers. -/
inductive Work
  | peer (ptrMsg : MsgData) (stage : PeerStage)
  | group (ptrMsg : MsgData) (stage : GroupStage)
  | socketCommand (c : SocketCommand)
  | socketReply (reply : SocketReply)
  | groupCommand (c : GroupCommand)
  | groupReply (reply : GroupReply)

/-- The commands that something has issued at a web server. -/
def issued (web : SocketServer) (f : SocketServer → SocketServer) : List Work :=
  (f { web with redisDB := .empty }).redisDB.commands.map .socketCommand

namespace Work

variable (c : Tools) (k : Bytes)

/-- The next command of a work, or its callback, at servers in the states `sv` and `web`. -/
def next (sv : Server) (web : SocketServer) (r : Redis) : Work → List Work × Redis
  | .peer ptrMsg stage =>
    let (stage, _, r) := stage.next sv r ptrMsg
    ((stage.map (.peer ptrMsg)).toList, r)
  | .group ptrMsg stage =>
    let (stage, _, r) := stage.next c.L ptrMsg sv r
    ((stage.map (.group ptrMsg)).toList, r)
  | .socketCommand command =>
    let (r, reply) := command.exec r
    ((reply.map .socketReply).toList, r)
  | .socketReply reply => (issued web (·.callback c.serialize c.lib.gbk reply), r)
  | .groupCommand command =>
    let (r, reply) := command.exec c.order c.serialize c.serializeGroup r
    ((reply.map .groupReply).toList, r)
  | .groupReply reply => ((web.groupCallback c.lib reply).map .groupCommand, r)

/-- The list it pushes to or trims, and what it does to it. -/
def target : Work → Option (Bytes × Drain.Op Bytes)
  | .peer ptrMsg .lpush =>
    some (cstr (ascii "unreadMsg:" ++ ptrMsg.toId), .push (ChatMsg.msgData ptrMsg).serialize)
  | .peer ptrMsg .ltrim => some (cstr (ascii "unreadMsg:" ++ ptrMsg.toId), .trim 100)
  | .group ptrMsg .lpush =>
    some (cstr (ascii "groupMsg:" ++ ptrMsg.toId), .push (ChatMsg.msgData ptrMsg).serialize)
  | .group ptrMsg .ltrim => some (cstr (ascii "groupMsg:" ++ ptrMsg.toId), .trim 100)
  | .socketCommand (.lpush toId buf) => some (ascii "unreadMsg:" ++ toId, .push buf)
  | .socketCommand (.ltrim toId) => some (ascii "unreadMsg:" ++ toId, .trim 100)
  | .groupCommand (.lpush toId m) => some (ascii "groupMsg:" ++ toId, .push (c.serialize m))
  | .groupCommand (.ltrim toId) => some (ascii "groupMsg:" ++ toId, .trim 100)
  | _ => none

/-- What it does to the list at a key. -/
def op (w : Work) : Option (Drain.Op Bytes) :=
  match w.target c with
  | some (listName, o) => if listName = k then some o else none
  | none => none

/-- The list that is to be trimmed, by the next command or by what the callback will issue. -/
def debt : Work → Option Bytes
  | .peer ptrMsg .ltrim => some (cstr (ascii "unreadMsg:" ++ ptrMsg.toId))
  | .group ptrMsg .ltrim => some (cstr (ascii "groupMsg:" ++ ptrMsg.toId))
  | .socketCommand (.ltrim toId) => some (ascii "unreadMsg:" ++ toId)
  | .socketReply (.lpush toId (.integer n)) => if n > 99 then some (ascii "unreadMsg:" ++ toId) else none
  | .groupCommand (.ltrim toId) => some (ascii "groupMsg:" ++ toId)
  | .groupReply (.lpush toId (.integer n)) => if n > 99 then some (ascii "groupMsg:" ++ toId) else none
  | _ => none

/-- The counters of a group message have keys of their own. -/
def Sound : Work → Prop
  | .groupCommand (.incr key) => ascii "unreadNumber:" <+: key
  | _ => True

end Work

/-! ## The system -/

/-- The database, the works of all servers, and as history, the messages pushed to a list, the newest
first. -/
structure Retention where
  redis : Redis
  works : List Work
  pushed : List Bytes

namespace Retention

/-- What happens: a message comes in at a message server or a web server, a work goes on, other programs
change other keys. -/
inductive Event
  | peerMsg (ptrMsg : MsgData)
  | groupMsg (ptrMsg : MsgData)
  | peerMessage (web : SocketServer) (data : MsgData)
  | groupMessage (data : JsMessage)
  | work (n : ℕ) (sv : Server) (web : SocketServer)
  | other (k : Bytes) (v : Option Value)

variable (c : Tools) (k : Bytes) (s : Retention)

/-- The messages pushed, after one more command. -/
def record (pushed : List Bytes) : Option (Drain.Op Bytes) → List Bytes
  | some (.push a) => a :: pushed
  | _ => pushed

def step : Event → Option Retention
  | .peerMsg ptrMsg => some { s with works := s.works ++ [.peer ptrMsg .find] }
  | .groupMsg ptrMsg => some { s with works := s.works ++ [.group ptrMsg .sort] }
  | .peerMessage web data => some { s with works := s.works ++ issued web (·.peerMessage data) }
  | .groupMessage data =>
    some { s with works := s.works ++ (SocketServer.groupMessage c.lib data).map .groupCommand }
  | .work n sv web =>
    s.works[n]?.map fun w =>
      let (works, r) := w.next c sv web s.redis
      ⟨r, s.works.eraseIdx n ++ works, record s.pushed (w.op c k)⟩
  | .other k' v =>
    if k' = k then none else some { s with redis := { s.redis with
      keys := Function.update s.redis.keys k' v } }

/-- Nothing is being done. -/
def start (r : Redis) : Retention := ⟨r, [], []⟩

/-- A trim of the list is to come. -/
def Owed : Prop := ∃ w ∈ s.works, w.debt = some k

end Retention

/-! ## What a work does -/

theorem Listed.ne_online {k : Bytes} (hk : Listed k) (u : Bytes) : k ≠ ascii "online:" ++ u := by
  rintro rfl
  simp [Listed, ascii] at hk

theorem Listed.ne_onlineGroup {k : Bytes} (hk : Listed k) (g : Bytes) :
    k ≠ ascii "onlineGroup:" ++ g := by
  rintro rfl
  simp [Listed, ascii] at hk

theorem Listed.ne_unreadNumber {k : Bytes} (hk : Listed k) (x : Bytes) :
    k ≠ ascii "unreadNumber:" ++ x := by
  rintro rfl
  simp [Listed, ascii] at hk

namespace Work

variable {c : Tools} {k : Bytes} {sv : Server} {web : SocketServer} {r : Redis} {w : Work}

/-- **What a work does to a list.** -/
theorem listStep (hk : Listed k) (hw : w.Sound) :
    World.ListStep r (w.next c sv web r).2 k (w.op c k) := by
  cases w with
  | peer ptrMsg stage =>
    cases stage with
    | find =>
      refine .of_keys ?_
      simp only [next, PeerStage.next]
      split <;> rfl
    | lpush => exact .lpush ..
    | ltrim => exact .ltrim ..
    | _ => exact .of_keys rfl
  | group ptrMsg stage =>
    cases stage with
    | lpush => exact .lpush ..
    | ltrim => exact .ltrim ..
    | publish messages => cases messages <;> exact .of_keys rfl
    | incr vecRes =>
      cases vecRes with
      | nil => exact .of_keys rfl
      | cons userId vecRes =>
        exact .of_keys (Keyspace.incr_of_ne (cstr_unreadNumber userId ptrMsg.toId ▸ hk.ne_unreadNumber _))
    | _ => exact .of_keys rfl
  | socketCommand command =>
    cases command with
    | set userId value => exact .of_keys (Keyspace.set_of_ne (hk.ne_online userId))
    | del userId => exact .of_keys (Keyspace.del_of_ne (hk.ne_online userId))
    | sadd groupId userId => exact .of_keys (Keyspace.sadd_of_ne (hk.ne_onlineGroup groupId))
    | srem groupId userId => exact .of_keys (Keyspace.srem_of_ne (hk.ne_onlineGroup groupId))
    | lpush toId buf => exact .lpush ..
    | ltrim toId => exact .ltrim ..
    | _ => exact .of_keys rfl
  | groupCommand command =>
    cases command with
    | lpush toId m => exact .lpush ..
    | ltrim toId => exact .ltrim ..
    | incr key =>
      obtain ⟨x, rfl⟩ := hw
      exact .of_keys (Keyspace.incr_of_ne (hk.ne_unreadNumber x))
    | _ => exact .of_keys rfl
  | _ => exact .of_keys rfl

/-- What a work does is to push a message or to trim to 100. -/
theorem push_or_trim_of_target {listName : Bytes} {o : Drain.Op Bytes}
    (h : w.target c = some (listName, o)) : (∃ a, o = .push a) ∨ o = .trim 100 := by
  unfold target at h
  split at h <;>
    first
    | exact .inl ⟨_, (Prod.mk.inj (Option.some.inj h)).2.symm⟩
    | exact .inr (Prod.mk.inj (Option.some.inj h)).2.symm
    | cases h

theorem op_eq_some {o : Drain.Op Bytes} : w.op c k = some o ↔ w.target c = some (k, o) := by
  unfold op
  cases w.target c with
  | none => simp
  | some e => simp [Prod.ext_iff]

/-- A trim that is owed is the next command, or the callback of a push will issue it. -/
theorem debt_cases (h : w.debt = some k) : w.target c = some (k, .trim 100) ∨
    (∃ toId n, w = .socketReply (.lpush toId (.integer n)) ∧ n > 99 ∧ ascii "unreadMsg:" ++ toId = k) ∨
      ∃ toId n, w = .groupReply (.lpush toId (.integer n)) ∧ n > 99 ∧ ascii "groupMsg:" ++ toId = k := by
  unfold debt at h
  split at h
  case h_1 | h_2 | h_3 | h_5 =>
    obtain rfl := Option.some.inj h
    exact .inl rfl
  case h_4 toId n =>
    split at h
    · next hn => exact .inr (.inl ⟨toId, n, rfl, hn, Option.some.inj h⟩)
    · cases h
  case h_6 toId n =>
    split at h
    · next hn => exact .inr (.inr ⟨toId, n, rfl, hn, Option.some.inj h⟩)
    · cases h
  case h_7 => cases h

/-- A trim that is owed stays so until it is made. -/
theorem debt_next (hop : ∀ o, w.target c ≠ some (k, o)) (h : w.debt = some k) :
    ∃ w' ∈ (w.next c sv web r).1, w'.debt = some k := by
  obtain htarget | ⟨toId, n, rfl, hn, rfl⟩ | ⟨toId, n, rfl, hn, rfl⟩ := debt_cases (c := c) h
  · exact absurd htarget (hop _)
  · refine ⟨.socketCommand (.ltrim toId), ?_, rfl⟩
    simp only [next, issued, SocketServer.callback, if_pos hn]
    exact List.mem_singleton_self _
  · refine ⟨.groupCommand (.ltrim toId), ?_, rfl⟩
    simp only [next, SocketServer.groupCallback, lpushCallback, if_pos hn]
    exact List.mem_singleton_self _

/-- A push that makes the list too long owes a trim. -/
theorem debt_of_push {a : Bytes} (hlist : r.keys.ListOrNone k) (hop : w.target c = some (k, .push a))
    (hlen : 99 < (r.keys.listAt k).length + 1) : ∃ w' ∈ (w.next c sv web r).1, w'.debt = some k := by
  have hcount : ((r.keys.listAt k).length + 1 : ℤ) > 99 := by omega
  cases w with
  | peer ptrMsg stage =>
    cases stage with
    | lpush =>
      obtain rfl := (Prod.mk.inj (Option.some.inj hop)).1
      refine ⟨.peer ptrMsg .ltrim, ?_, rfl⟩
      simp only [next, PeerStage.next, CRedis.lpush_length hlist, if_pos hcount]
      exact List.mem_singleton_self _
    | _ => cases hop
  | group ptrMsg stage =>
    cases stage with
    | lpush =>
      obtain rfl := (Prod.mk.inj (Option.some.inj hop)).1
      refine ⟨.group ptrMsg .ltrim, ?_, rfl⟩
      simp only [next, GroupStage.next, CRedis.lpush_length hlist, if_pos hcount]
      exact List.mem_singleton_self _
    | _ => cases hop
  | socketCommand command =>
    cases command with
    | lpush toId buf =>
      obtain rfl := (Prod.mk.inj (Option.some.inj hop)).1
      refine ⟨.socketReply (.lpush toId (.integer _)), ?_, if_pos hcount⟩
      simp only [next, SocketCommand.exec, Keyspace.lpush_fst hlist]
      exact List.mem_singleton_self _
    | _ => cases hop
  | groupCommand command =>
    cases command with
    | lpush toId m =>
      obtain rfl := (Prod.mk.inj (Option.some.inj hop)).1
      refine ⟨.groupReply (.lpush toId (.integer _)), ?_, if_pos hcount⟩
      simp only [next, GroupCommand.exec, Keyspace.lpush_fst hlist]
      exact List.mem_singleton_self _
    | _ => cases hop
  | _ => cases hop

/-- The counters of a group keep their keys. -/
theorem sound_next : ∀ w' ∈ (w.next c sv web r).1, w'.Sound := by
  have hoption : ∀ {α : Type} (f : α → Work) (o : Option α), (∀ x, (f x).Sound) →
      ∀ w' ∈ (o.map f).toList, w'.Sound := by
    intro α f o hf w' hw'
    cases o with
    | none => cases hw'
    | some x =>
      rw [List.mem_singleton.1 hw']
      exact hf x
  cases w with
  | peer ptrMsg stage => exact hoption (.peer ptrMsg) _ fun _ => trivial
  | group ptrMsg stage => exact hoption (.group ptrMsg) _ fun _ => trivial
  | socketCommand command => exact hoption .socketReply _ fun _ => trivial
  | groupCommand command => exact hoption .groupReply _ fun _ => trivial
  | socketReply reply =>
    intro w' hw'
    obtain ⟨command, -, rfl⟩ := List.mem_map.1 hw'
    trivial
  | groupReply reply =>
    intro w' hw'
    obtain ⟨command, hcommand, rfl⟩ := List.mem_map.1 hw'
    cases reply with
    | sort data reply =>
      obtain ⟨channel, m, rfl⟩ := SocketServer.mem_publishAll hcommand
      trivial
    | lpush toId reply =>
      cases reply with
      | integer n =>
        simp only [SocketServer.groupCallback, lpushCallback] at hcommand
        split at hcommand
        · rw [List.mem_singleton.1 hcommand]
          trivial
        · cases hcommand
      | _ => cases hcommand
    | sdiff toId reply =>
      obtain ⟨userId, -, rfl⟩ := List.mem_map.1 hcommand
      exact ⟨userId ++ ascii ":" ++ toId, by simp⟩

/-- **A work keeps what is to be kept**, if a trim is counted as owed. -/
theorem kept_next (hk : Listed k) (hw : w.Sound) (hlist : r.keys.ListOrNone k) {pushed : List Bytes}
    {rest : Prop} (h : Kept 100 pushed (r.keys.listAt k) (w.debt = some k ∨ rest)) :
    Kept 100 (Retention.record pushed (w.op c k)) ((w.next c sv web r).2.keys.listAt k)
      ((∃ w' ∈ (w.next c sv web r).1, w'.debt = some k) ∨ rest) := by
  rw [(listStep hk hw).listAt hlist]
  cases hop : w.op c k with
  | none =>
    refine h.mono (Or.imp_left (debt_next fun o ho => ?_))
    rw [op_eq_some.2 ho] at hop
    cases hop
  | some o =>
    have htarget := op_eq_some.1 hop
    rcases push_or_trim_of_target htarget with ⟨a, rfl⟩ | rfl
    · exact h.push fun hlen => .inl (debt_of_push hlist htarget (by omega))
    · exact h.trim

end Work

namespace Retention

/-! ## Runs -/

/-- The key holds a list of the newest messages, and no others unless a trim is owed. -/
structure Inv (k : Bytes) (s : Retention) : Prop where
  list : s.redis.keys.ListOrNone k
  kept : Kept 100 s.pushed (s.redis.keys.listAt k) (s.Owed k)
  sound : ∀ w ∈ s.works, w.Sound

variable {c : Tools} {k : Bytes} {s s' : Retention}

/-- Other works begin. -/
theorem Inv.append (h : s.Inv k) {works : List Work} (hsound : ∀ w ∈ works, w.Sound) :
    Inv k { s with works := s.works ++ works } := by
  refine ⟨h.list, h.kept.mono ?_, fun w hw => (List.mem_append.1 hw).elim (h.sound w) (hsound w)⟩
  rintro ⟨w, hw, hdebt⟩
  exact ⟨w, List.mem_append_left _ hw, hdebt⟩

theorem mem_eraseIdx_or {n : ℕ} {works : List Work} {w x : Work} (hw : works[n]? = some w)
    (hx : x ∈ works) : x = w ∨ x ∈ works.eraseIdx n := by
  obtain ⟨i, hi⟩ := List.mem_iff_getElem?.1 hx
  by_cases hin : i = n
  · subst hin
    exact .inl (Option.some.inj (hi.symm.trans hw))
  · exact .inr (List.mem_eraseIdx_iff_getElem?.2 ⟨i, hin, hi⟩)

/-- What the handler of a group message issues. -/
theorem sound_groupMessage {lib : Libraries} (data : JsMessage) :
    ∀ w ∈ (SocketServer.groupMessage lib data).map Work.groupCommand, w.Sound := by
  intro w hw
  obtain ⟨command, hcommand, rfl⟩ := List.mem_map.1 hw
  rcases List.mem_cons.1 hcommand with rfl | hcommand
  · trivial
  · rcases List.mem_append.1 hcommand with hcommand | hcommand
    · obtain ⟨m, -, rfl⟩ := Option.map_eq_some_iff.1 (Option.mem_toList.1 hcommand)
      trivial
    · rw [List.mem_singleton.1 hcommand]
      trivial

/-- **A step keeps the invariant.** -/
theorem Inv.step (hk : Listed k) (h : s.Inv k) {e : Event} (hstep : s.step c k e = some s') :
    s'.Inv k := by
  cases e with
  | peerMsg ptrMsg =>
    obtain rfl := Option.some.inj hstep
    exact h.append (List.forall_mem_singleton.2 trivial)
  | groupMsg ptrMsg =>
    obtain rfl := Option.some.inj hstep
    exact h.append (List.forall_mem_singleton.2 trivial)
  | peerMessage web data =>
    obtain rfl := Option.some.inj hstep
    exact h.append (List.forall_mem_singleton.2 trivial)
  | groupMessage data =>
    obtain rfl := Option.some.inj hstep
    exact h.append (sound_groupMessage data)
  | work n sv web =>
    obtain ⟨w, hw, rfl⟩ := Option.map_eq_some_iff.1 hstep
    have hsound := h.sound w (List.mem_of_getElem? hw)
    have howed : s.Owed k → w.debt = some k ∨ ∃ x ∈ s.works.eraseIdx n, x.debt = some k := by
      rintro ⟨x, hx, hdebt⟩
      rcases mem_eraseIdx_or hw hx with rfl | hx
      · exact .inl hdebt
      · exact .inr ⟨x, hx, hdebt⟩
    refine ⟨(Work.listStep hk hsound).listOrNone h.list, ?_, fun x hx => ?_⟩
    · refine (Work.kept_next hk hsound h.list (h.kept.mono howed)).mono ?_
      rintro (⟨x, hx, hdebt⟩ | ⟨x, hx, hdebt⟩)
      · exact ⟨x, List.mem_append_right _ hx, hdebt⟩
      · exact ⟨x, List.mem_append_left _ hx, hdebt⟩
    · rcases List.mem_append.1 hx with hx | hx
      · exact h.sound x (List.mem_of_mem_eraseIdx hx)
      · exact Work.sound_next x hx
  | other k' v =>
    simp only [Retention.step] at hstep
    split at hstep
    · cases hstep
    · next hne =>
      obtain rfl := Option.some.inj hstep
      have hkey : Function.update s.redis.keys k' v k = s.redis.keys k :=
        Function.update_of_ne (Ne.symm hne) ..
      refine ⟨fun v' hv => h.list v' (hkey ▸ hv), ?_, h.sound⟩
      exact (Keyspace.listAt_congr hkey).symm ▸ h.kept

theorem inv_start {r : Redis} (hfree : r.keys k = none) : (start r).Inv k := by
  have hnil : r.keys.listAt k = [] := by rw [Keyspace.listAt, hfree]
  refine ⟨fun v hv => ?_, hnil.symm ▸ .nil, fun w hw => absurd hw List.not_mem_nil⟩
  rw [start, hfree] at hv
  cases hv

/-- **What is kept**: in every run, when no trim of the list is to come, it has the newest 100 of the
messages that were pushed to it. -/
theorem kept_of_run {r : Redis} {es : List Event} (hk : Listed k) (hfree : r.keys k = none)
    (hrun : Run (step c k) (fun _ _ => True) (start r) es s) (hdone : ¬s.Owed k) :
    s.redis.keys.listAt k = s.pushed.take 100 := by
  have hinv : s.Inv k := hrun.invariant (fun _ _ _ hs _ hstep => hs.step hk hstep) (inv_start hfree)
  exact hinv.kept.eq_take hdone

/-- **When the newest 99 are kept**: exactly if no more than 99 were pushed. -/
theorem keeps_99_iff_of_run {r : Redis} {es : List Event} (hk : Listed k) (hfree : r.keys k = none)
    (hrun : Run (step c k) (fun _ _ => True) (start r) es s) (hdone : ¬s.Owed k) :
    s.redis.keys.listAt k = s.pushed.take 99 ↔ s.pushed.length ≤ 99 := by
  rw [kept_of_run hk hfree hrun hdone]
  exact take_eq_take_iff_length_le (by decide)

/-! ## A hundred messages -/

/-- The first work goes on, at servers with nobody. -/
def goOn : Event := .work 0 (.start []) (.start [])

/-- One more message for `u`, who is not online. -/
theorem exists_run_push (c : Tools) {s : Retention} (hworks : s.works = [])
    (honline : s.redis.keys (ascii "online:u") = none) :
    ∃ es s', Run (step c (ascii "unreadMsg:u")) (fun _ _ => True) s es s' ∧ s'.works = [] ∧
      s'.pushed.length = s.pushed.length + 1 ∧ s'.redis.keys (ascii "online:u") = none := by
  obtain ⟨r, works, pushed⟩ := s
  obtain rfl : works = [] := hworks
  let m := Mailbox.toU "1"
  let out := CRedis.lpush r (ascii "unreadMsg:u") (ChatMsg.msgData m).serialize
  have hne : ascii "online:u" ≠ cstr (ascii "unreadMsg:u") := by decide
  have honline' : out.2.keys (ascii "online:u") = none :=
    (CRedis.keys_lpush_of_ne hne _).trans honline
  have hget : step c (ascii "unreadMsg:u") ⟨r, [.peer m .get], pushed⟩ goOn =
      some ⟨r, [.peer m .lpush], pushed⟩ := by
    have hempty : CRedis.get r (ascii "online:" ++ m.toId) = [] := by
      have hkey : r.keys (cstr (ascii "online:" ++ m.toId)) = none := honline
      rw [CRedis.get, Keyspace.get, hkey]
    change some (Retention.mk r [.peer m (if CRedis.get r (ascii "online:" ++ m.toId) ≠ [] then
      .publish (CRedis.get r (ascii "online:" ++ m.toId)) else .lpush)] pushed) = _
    rw [if_neg (not_not.2 hempty)]
  have hlpush : step c (ascii "unreadMsg:u") ⟨r, [.peer m .lpush], pushed⟩ goOn =
      some ⟨out.2, ((if out.1 > 99 then some PeerStage.ltrim else none).map (.peer m)).toList,
        (ChatMsg.msgData m).serialize :: pushed⟩ := rfl
  by_cases hlen : out.1 > 99
  · rw [if_pos hlen] at hlpush
    refine ⟨[.peerMsg m, goOn, goOn, goOn, goOn], ⟨CRedis.ltrim out.2 (ascii "unreadMsg:u") 0 99, [], _⟩,
      .cons trivial rfl (.cons trivial rfl (.cons trivial hget (.cons trivial hlpush
        (.cons trivial rfl (.nil _))))), rfl, rfl, ?_⟩
    exact (CRedis.keys_ltrim_of_ne hne 0 99).trans honline'
  · rw [if_neg hlen] at hlpush
    exact ⟨[.peerMsg m, goOn, goOn, goOn], ⟨out.2, [], _⟩, .cons trivial rfl (.cons trivial rfl
      (.cons trivial hget (.cons trivial hlpush (.nil _)))), rfl, rfl, honline'⟩

/-- Any number of messages for `u`. -/
theorem exists_run_pushed (c : Tools) (n : ℕ) : ∃ es s,
    Run (step c (ascii "unreadMsg:u")) (fun _ _ => True) (start ⟨fun _ => none, []⟩) es s ∧
      s.works = [] ∧ s.pushed.length = n ∧ s.redis.keys (ascii "online:u") = none := by
  induction n with
  | zero => exact ⟨[], _, .nil _, rfl, rfl, rfl⟩
  | succ n ih =>
    obtain ⟨es, s, hrun, hworks, hlen, honline⟩ := ih
    obtain ⟨es', s', hrun', hworks', hlen', honline'⟩ := exists_run_push c hworks honline
    exact ⟨es ++ es', s', hrun.append hrun', hworks', hlen ▸ hlen', honline'⟩

/-- What servers use. -/
def tools : Tools where
  L := eightBuckets
  order := GroupLog.decimalOrder
  serialize m := (ChatMsg.msgData m).serialize
  serializeGroup m := (ChatMsg.serverGroupMsg m).serialize
  lib := library

theorem listed_unreadMsg : Listed (ascii "unreadMsg:u") := .inl (List.prefix_append ..)

/-- One message, of which all is kept. -/
theorem keeps_99_one : ∃ es s,
    Run (step tools (ascii "unreadMsg:u")) (fun _ _ => True) (start ⟨fun _ => none, []⟩) es s ∧
      s.pushed.length = 1 ∧ s.redis.keys.listAt (ascii "unreadMsg:u") = s.pushed.take 99 := by
  obtain ⟨es, s, hrun, hworks, hlen, -⟩ := exists_run_pushed tools 1
  have hdone : ¬s.Owed (ascii "unreadMsg:u") := by
    rintro ⟨w, hw, -⟩
    rw [hworks] at hw
    cases hw
  exact ⟨es, s, hrun, hlen, (keeps_99_iff_of_run listed_unreadMsg rfl hrun hdone).2 (by omega)⟩

/-- **The hundredth message**: the list has all of them. -/
theorem hundred_kept : ∃ es s,
    Run (step tools (ascii "unreadMsg:u")) (fun _ _ => True) (start ⟨fun _ => none, []⟩) es s ∧
      s.works = [] ∧ s.pushed.length = 100 ∧
      s.redis.keys.listAt (ascii "unreadMsg:u") = s.pushed ∧
      s.redis.keys.listAt (ascii "unreadMsg:u") ≠ s.pushed.take 99 := by
  obtain ⟨es, s, hrun, hworks, hlen, -⟩ := exists_run_pushed tools 100
  have hdone : ¬s.Owed (ascii "unreadMsg:u") := by
    rintro ⟨w, hw, -⟩
    rw [hworks] at hw
    cases hw
  have hkept := kept_of_run listed_unreadMsg rfl hrun hdone
  rw [List.take_of_length_le hlen.le] at hkept
  refine ⟨es, s, hrun, hworks, hlen, hkept, fun h => ?_⟩
  have hlength := congrArg List.length (hkept.symm.trans h)
  rw [List.length_take, hlen] at hlength
  exact absurd hlength (by decide)

end Retention

end MutexIM.Routing
