import MutexIM.Foundations.Drain
import MutexIM.MessageServer.Unread
import MutexIM.Routing.World

/-!
# The list of a user's unread messages

Message servers and web servers put chat messages for a user who is not online in the user's list. The
server the user comes back to takes them out: it reads the list, and deletes it with a second command,
between which the commands of other servers come in.

* `World.listOp` says which events push to a list and which trim it; `World.listStep` is what every
  event does to it.
* `Mailbox.step` adds the two commands of the drain to the events of the servers;
  `Mailbox.appendPeerMsg_of_drain`: the two commands with nothing between them are `appendPeerMsg`.
* `accounted_iff_of_run`: every message is in one response, still in the list or trimmed off, if and
  only if none is pushed between the two commands of a drain.
* `lost_message`: one that is pushed there is lost.
-/

namespace MutexIM.Routing

open Bytes Codec MessageServer Web

namespace World

/-! ## What the servers do to a list -/

variable {ι κ : Type*}

/-- The message server that does something. -/
def Event.node? : Event ι κ → Option ι
  | .accept i => some i
  | .shakeHandle i _ _ _ => some i
  | .disconnect i _ => some i
  | .work i => some i
  | _ => none

/-- What an event does to the list of messages at a key. -/
def listOp (w : World ι κ) (k : Bytes) : Event ι κ → Option (Drain.Op Bytes)
  | .work i =>
    match (w.nodes i).task with
    | some (.peer ptrMsg .lpush) =>
      if cstr (ascii "unreadMsg:" ++ ptrMsg.toId) = k then
        some (.push (ChatMsg.msgData ptrMsg).serialize)
      else none
    | some (.peer ptrMsg .ltrim) =>
      if cstr (ascii "unreadMsg:" ++ ptrMsg.toId) = k then some (.trim 100) else none
    | _ => none
  | .execute j =>
    match (w.webs j).redisDB.commands with
    | .lpush toId buf :: _ => if ascii "unreadMsg:" ++ toId = k then some (.push buf) else none
    | .ltrim toId :: _ => if ascii "unreadMsg:" ++ toId = k then some (.trim 100) else none
    | _ => none
  | _ => none

/-- What an operation makes of a list. -/
def apply (l : List Bytes) : Option (Drain.Op Bytes) → List Bytes
  | some (.push a) => a :: l
  | some (.trim n) => l.take n
  | _ => l

/-- The key holds a list before and after, and the operation makes the one of the other. -/
structure ListStep (r r' : Redis) (k : Bytes) (o : Option (Drain.Op Bytes)) : Prop where
  listOrNone : r.keys.ListOrNone k → r'.keys.ListOrNone k
  listAt : r.keys.ListOrNone k → r'.keys.listAt k = apply (r.keys.listAt k) o

namespace ListStep

variable {r r' : Redis} {k : Bytes}

theorem of_keys (h : r'.keys k = r.keys k) : ListStep r r' k none :=
  ⟨fun hlist v hv => hlist v (h ▸ hv), fun _ => Keyspace.listAt_congr h⟩

theorem lpush (r : Redis) (k listName value : Bytes) :
    ListStep r { r with keys := (r.keys.lpush listName value).2 } k
      (if listName = k then some (.push value) else none) := by
  by_cases hk : listName = k
  · subst hk
    rw [if_pos rfl]
    refine ⟨fun hlist => hlist.lpush value, fun hlist => ?_⟩
    simp only [Keyspace.listAt, Keyspace.lpush_self hlist value]
    rfl
  · rw [if_neg hk]
    exact of_keys (Keyspace.lpush_of_ne (Ne.symm hk))

theorem ltrim (r : Redis) (k listName : Bytes) :
    ListStep r { r with keys := (r.keys.ltrim listName 0 99).2 } k
      (if listName = k then some (.trim 100) else none) := by
  by_cases hk : listName = k
  · subst hk
    rw [if_pos rfl]
    exact ⟨fun hlist => hlist.ltrim 0 99, fun _ => Keyspace.ltrim_self 99⟩
  · rw [if_neg hk]
    exact of_keys (Keyspace.ltrim_of_ne (Ne.symm hk))

end ListStep

/-- What the servers do to a list is to push to it or to trim it. -/
theorem push_or_trim_of_listOp {w : World ι κ} {k : Bytes} {e : Event ι κ} {o : Drain.Op Bytes}
    (h : w.listOp k e = some o) : (∃ a, o = .push a) ∨ ∃ n, o = .trim n := by
  have hpush : ∀ {p : Prop} [Decidable p] {a : Bytes},
      (if p then some (Drain.Op.push a) else none) = some o → ∃ a, o = .push a := by
    intro p _ a h
    split at h
    · exact ⟨a, (Option.some.inj h).symm⟩
    · cases h
  have htrim : ∀ {p : Prop} [Decidable p] {n : ℕ},
      (if p then some (Drain.Op.trim n : Drain.Op Bytes) else none) = some o → ∃ n, o = .trim n := by
    intro p _ n h
    split at h
    · exact ⟨n, (Option.some.inj h).symm⟩
    · cases h
  unfold listOp at h
  split at h
  · split at h
    · exact .inl (hpush h)
    · exact .inr (htrim h)
    · cases h
  · split at h
    · exact .inl (hpush h)
    · exact .inr (htrim h)
    · cases h
  · cases h

section ListStep

variable [DecidableEq ι] {w w' : World ι κ} {serialize : MsgData → Bytes} {gbk : Bytes → Bytes}
  {u : Bytes}

theorem redis_begin {i : ι} {t : Task} (h : w.begin i t = some w') : w'.redis = w.redis := by
  unfold World.begin at h
  split at h
  · obtain rfl := Option.some.inj h
    rfl
  · cases h

variable [DecidableEq κ]

theorem listStep_work {i : ι} (h : w.step serialize gbk (.work i) = some w') :
    ListStep w.redis w'.redis (ascii "unreadMsg:" ++ u) (w.listOp (ascii "unreadMsg:" ++ u) (.work i)) := by
  obtain ⟨t, htask, h⟩ := Option.bind_eq_some_iff.1 h
  obtain ⟨⟨t', sv', r'⟩, hnext, rfl⟩ := Option.map_eq_some_iff.1 h
  change ListStep w.redis r' _ _
  rw [listOp, htask]
  cases t with
  | peer ptrMsg stage =>
    obtain ⟨stage', hstage, -⟩ := Task.next_peer hnext
    cases stage with
    | find =>
      refine .of_keys ?_
      simp only [PeerStage.next] at hstage
      split at hstage <;> obtain ⟨-, -, rfl⟩ := hstage <;> rfl
    | get =>
      obtain ⟨-, -, rfl⟩ := hstage
      exact .of_keys rfl
    | publish serverSocket =>
      obtain ⟨-, -, rfl⟩ := hstage
      exact .of_keys rfl
    | lpush =>
      obtain ⟨-, -, rfl⟩ := hstage
      exact .lpush ..
    | ltrim =>
      obtain ⟨-, -, rfl⟩ := hstage
      exact .ltrim ..
  | shake conn request nowtime stage => exact .of_keys ((Task.calm rfl hnext).keys u)
  | stop ptrConnection stage => exact .of_keys ((Task.calm rfl hnext).keys u)

theorem listStep_execute {j : κ} (h : w.step serialize gbk (.execute j) = some w') :
    ListStep w.redis w'.redis (ascii "unreadMsg:" ++ u)
      (w.listOp (ascii "unreadMsg:" ++ u) (.execute j)) := by
  obtain ⟨⟨r', p⟩, hrun, rfl⟩ := Option.map_eq_some_iff.1 h
  obtain ⟨c, hc, rfl, -⟩ := Pipeline.run_eq_some hrun
  change ListStep w.redis (c.exec w.redis).1 _ _
  rw [listOp, hc]
  cases c with
  | set userId value => exact .of_keys (Function.update_of_ne (unreadMsg_ne_online u userId) (some (.str value)) _)
  | del userId => exact .of_keys (Function.update_of_ne (unreadMsg_ne_online u userId) none _)
  | sadd groupId userId => exact .of_keys (Keyspace.sadd_of_ne (unreadMsg_ne_onlineGroup _ _))
  | srem groupId userId => exact .of_keys (Keyspace.srem_of_ne (unreadMsg_ne_onlineGroup _ _))
  | lpush toId buf => exact .lpush ..
  | ltrim toId => exact .ltrim ..
  | get data => exact .of_keys rfl
  | publish channel message => exact .of_keys rfl
  | smembers userId online => exact .of_keys rfl

/-- **What an event does to a list of unread messages.** -/
theorem listStep {e : Event ι κ} (hother : ∀ v, e ≠ .other (ascii "unreadMsg:" ++ u) v)
    (h : w.step serialize gbk e = some w') :
    ListStep w.redis w'.redis (ascii "unreadMsg:" ++ u) (w.listOp (ascii "unreadMsg:" ++ u) e) := by
  have hsame : w'.redis = w.redis → ListStep w.redis w'.redis (ascii "unreadMsg:" ++ u) none :=
    fun h => .of_keys (by rw [h])
  cases e with
  | accept i =>
    simp only [World.step] at h
    split at h
    · obtain rfl := Option.some.inj h
      exact hsame rfl
    · cases h
  | shakeHandle i conn request nowtime =>
    simp only [World.step] at h
    split at h
    · exact hsame (redis_begin h)
    · cases h
  | disconnect i s => exact hsame (redis_begin h)
  | work i => exact listStep_work h
  | connection j =>
    obtain rfl := Option.some.inj h
    exact hsame rfl
  | handleShake j socket userId =>
    simp only [World.step] at h
    split at h
    · obtain rfl := Option.some.inj h
      exact hsame rfl
    · cases h
  | peerMessage j data =>
    obtain rfl := Option.some.inj h
    exact hsame rfl
  | close j socket =>
    simp only [World.step] at h
    split at h
    · obtain rfl := Option.some.inj h
      exact hsame rfl
    · cases h
  | execute j => exact listStep_execute h
  | callback j =>
    obtain ⟨⟨reply, p⟩, -, rfl⟩ := Option.map_eq_some_iff.1 h
    exact hsame rfl
  | other k v =>
    simp only [World.step] at h
    split at h
    · cases h
    · obtain rfl := Option.some.inj h
      refine .of_keys (Function.update_of_ne (fun hk => hother v ?_) ..)
      rw [hk]

end ListStep

end World

/-! ## The drain -/

/-- The servers, the messages read for a drain that has not deleted them yet, and as history, the
messages of each response, what was pushed, and what was trimmed off outside of a drain. -/
structure Mailbox (ι κ : Type*) where
  world : World ι κ
  reading : Option (List Bytes)
  responses : List (List Bytes)
  pushed : List Bytes
  trimmed : List Bytes

namespace Mailbox

variable {ι κ : Type*}

/-- What happens: an event of the servers, a chat message comes in at a message server, and the two
commands of the drain. -/
inductive Event (ι κ : Type*)
  | world (e : World.Event ι κ)
  | msgData (i : ι) (ptrMsg : MsgData)
  | lrange
  | del

section Step

variable [DecidableEq ι] [DecidableEq κ] (serialize : MsgData → Bytes) (gbk : Bytes → Bytes)
  (home : ι) (userId : Bytes) (s : Mailbox ι κ)

/-- The servers before anything has happened to the list. -/
def start (w : World ι κ) : Mailbox ι κ := ⟨w, none, [], [], []⟩

/-- The name of the user's list. -/
def key : Bytes := cstr (ascii "unreadMsg:" ++ userId)

/-- What an event does to the list, for the history. -/
def op : Event ι κ → Option (Drain.Op Bytes)
  | .world e => s.world.listOp (key userId) e
  | .msgData _ _ => none
  | .lrange => some .read
  | .del => some .delete

/-- The list and its history. -/
def drain : Drain Bytes :=
  ⟨s.world.redis.keys.listAt (key userId), s.reading, s.pushed, s.responses, s.trimmed⟩

/-- The thread of the user's server does not turn to anything else between the two commands. Other
programs leave the list alone. -/
def Busy : World.Event ι κ → Prop
  | .other k _ => k = key userId
  | e => s.reading ≠ none ∧ e.node? = some home

instance : (e : World.Event ι κ) → Decidable (s.Busy home userId e)
  | .other k _ => decEq k (key userId)
  | .accept _ | .shakeHandle .. | .disconnect .. | .work _ | .connection _ | .handleShake .. |
    .peerMessage .. | .close .. | .execute _ | .callback _ => instDecidableAnd

/-- The history after an event of the servers. -/
def advance (w : World ι κ) : Option (Drain.Op Bytes) → Mailbox ι κ
  | some (.push a) => { s with world := w, pushed := a :: s.pushed }
  | some (.trim n) => { s with
      world := w
      trimmed := if s.reading.isNone then
        (s.world.redis.keys.listAt (key userId)).drop n ++ s.trimmed else s.trimmed }
  | _ => { s with world := w }

def step : Event ι κ → Option (Mailbox ι κ)
  | .world e =>
    if s.Busy home userId e then none
    else (s.world.step serialize gbk e).map fun w =>
      s.advance userId w (s.world.listOp (key userId) e)
  | .msgData i ptrMsg =>
    if s.reading ≠ none ∧ i = home then none
    else (s.world.begin i (.peer ptrMsg .find)).map fun w => { s with world := w }
  | .lrange =>
    if s.reading = none ∧ (s.world.nodes home).task.isNone then some { s with
      reading := some (CRedis.lrangeBinary s.world.redis (ascii "unreadMsg:" ++ userId) 0 (-1)) }
    else none
  | .del => s.reading.map fun unreadMsg => { s with
      world := { s.world with
        redis := CRedis.del s.world.redis (ascii "unreadMsg:" ++ userId) }
      reading := none
      responses := s.responses ++ [unreadMsg] }

/-- Nothing is pushed between the two commands of a drain. -/
def Apart (e : Event ι κ) : Prop := ∀ a, s.op userId e = some (.push a) → s.reading = none

/-- Every message that was pushed is in one response, in the list, or was trimmed off; while a drain is
between its commands, what it has read is what there is of the list. -/
def Accounted (w : World ι κ) : Prop :=
  (s.pushed ++ w.redis.keys.listAt (key userId)).Perm (s.responses.flatten ++
    s.reading.getD (s.world.redis.keys.listAt (key userId)) ++ s.trimmed)

end Step

variable {serialize : MsgData → Bytes} {gbk : Bytes → Bytes} {home : ι} {userId : Bytes}
  {s s' : Mailbox ι κ}

theorem key_eq (userId : Bytes) : key userId = ascii "unreadMsg:" ++ cstr userId := cstr_unreadMsg _

theorem advance_world (w : World ι κ) (o : Option (Drain.Op Bytes)) :
    (s.advance userId w o).world = w := by
  unfold advance
  split <;> rfl

variable [DecidableEq ι] [DecidableEq κ]

/-- **The two commands with nothing between them** are `appendPeerMsg`. -/
theorem appendPeerMsg_of_drain {ptrRequest : UnreadMsgRequest} {s₁ s₂ : Mailbox ι κ}
    (hlrange : s.step serialize gbk home ptrRequest.userId .lrange = some s₁)
    (hdel : s₁.step serialize gbk home ptrRequest.userId .del = some s₂) (response : UnreadMsgResponse) :
    ∃ l, s₂.responses = s.responses ++ [l] ∧ appendPeerMsg s.world.redis ptrRequest response =
      (l.length, { response with msgData := response.msgData ++ l }, s₂.world.redis) := by
  simp only [step] at hlrange
  split at hlrange
  · obtain rfl := Option.some.inj hlrange
    obtain rfl := Option.some.inj hdel
    exact ⟨_, rfl, rfl⟩
  · cases hlrange

/-- **The refinement**: the list is one that is read and then deleted, and the servers push to it and
trim it. -/
theorem step_drain {e : Event ι κ} (hs : s.world.redis.keys.ListOrNone (key userId))
    (h : s.step serialize gbk home userId e = some s') :
    s'.world.redis.keys.ListOrNone (key userId) ∧
      (s.op userId e = none → s'.drain userId = s.drain userId) ∧
      ∀ o, s.op userId e = some o → (s.drain userId).step o = some (s'.drain userId) := by
  cases e with
  | world e =>
    simp only [step] at h
    split at h
    · cases h
    · next hbusy =>
      obtain ⟨w, hw, rfl⟩ := Option.map_eq_some_iff.1 h
      have hother : ∀ v, e ≠ .other (ascii "unreadMsg:" ++ cstr userId) v := by
        rintro v rfl
        exact hbusy (key_eq userId).symm
      have hlist := World.listStep hother hw
      rw [← key_eq] at hlist
      have hlistAt := hlist.listAt hs
      refine ⟨?_, fun hop => ?_, fun o hop => ?_⟩
      · rw [advance_world]
        exact hlist.listOrNone hs
      · change s.world.listOp (key userId) e = none at hop
        rw [hop] at hlistAt ⊢
        exact congrArg (Drain.mk · s.reading s.pushed s.responses s.trimmed) hlistAt
      · change s.world.listOp (key userId) e = some o at hop
        rw [hop] at hlistAt ⊢
        rcases World.push_or_trim_of_listOp hop with ⟨a, rfl⟩ | ⟨n, rfl⟩
        · exact congrArg (fun l => some (Drain.mk l s.reading (a :: s.pushed) s.responses s.trimmed))
            hlistAt.symm
        · exact congrArg (fun l => some (Drain.mk l s.reading s.pushed s.responses _)) hlistAt.symm
  | msgData i ptrMsg =>
    simp only [step] at h
    split at h
    · cases h
    · obtain ⟨w, hw, rfl⟩ := Option.map_eq_some_iff.1 h
      have hredis := World.redis_begin hw
      refine ⟨hredis ▸ hs, fun _ => ?_, fun o hop => by cases hop⟩
      simp only [drain, hredis]
  | lrange =>
    simp only [step] at h
    split at h
    · next hidle =>
      obtain rfl := Option.some.inj h
      refine ⟨hs, fun hop => ?_, fun o hop => ?_⟩
      · cases hop
      · obtain rfl := Option.some.inj hop
        simp only [Drain.step, drain, hidle.1, CRedis.lrangeBinary_all]
        rfl
    · cases h
  | del =>
    obtain ⟨unreadMsg, hreading, rfl⟩ := Option.map_eq_some_iff.1 h
    refine ⟨fun v hv => ?_, fun hop => ?_, fun o hop => ?_⟩
    · rw [key, CRedis.keys_del_self] at hv
      cases hv
    · cases hop
    · obtain rfl := Option.some.inj hop
      simp only [Drain.step, drain, hreading, key, CRedis.listAt_del]

/-- **Every message is accounted for** exactly if none is pushed between the two commands of a drain. -/
theorem accounted_iff_of_run {w : World ι κ} {es : List (Event ι κ)}
    (hw : w.redis.keys.ListOrNone (key userId))
    (hrun : Run (step serialize gbk home userId) (fun _ _ => True) (start w) es s) :
    s.Accounted userId w ↔
      Run (step serialize gbk home userId) (fun s e => s.Apart userId e) (start w) es s := by
  obtain ⟨os, hdrain, hiff⟩ : ∃ os,
      Run Drain.step (fun _ _ => True) ((start w).drain userId) os (s.drain userId) ∧
        (Run (step serialize gbk home userId)
          (fun s e => ∀ o, s.op userId e = some o → (s.drain userId).Quiet o) (start w) es s ↔
            Run Drain.step Drain.Quiet ((start w).drain userId) os (s.drain userId)) :=
    hrun.simulates (fun _ _ _ hs hstep => (step_drain hs hstep).1)
      (fun _ _ _ hs hstep => (step_drain hs hstep).2.1)
      (fun _ _ _ o hs hstep => (step_drain hs hstep).2.2 o) hw
  have happart : Run (step serialize gbk home userId) (fun s e => s.Apart userId e) (start w) es s ↔
      Run (step serialize gbk home userId)
        (fun s e => ∀ o, s.op userId e = some o → (s.drain userId).Quiet o) (start w) es s := by
    constructor
    · refine Run.mono fun s e h o ho => ?_
      cases o with
      | push a => exact h a ho
      | _ => trivial
    · exact Run.mono fun s e h a ha => h _ ha
  have haccounted : s.Accounted userId w ↔
      ((s.drain userId).pushed ++ ((start w).drain userId).whole).Perm (s.drain userId).whole := by
    rw [Drain.whole, Drain.whole]
    simp only [drain, start, Option.getD_none, List.flatten_nil, List.nil_append, List.append_nil]
    rfl
  exact haccounted.trans ((Drain.accounted_iff hdrain rfl).trans (hiff.symm.trans happart.symm))

/-! ## A message between the two commands -/

/-- A chat message to `u`. -/
def toU (text : String) : MsgData := ⟨0, 0, ascii "v", ascii "u", ascii text, chatText⟩

instance (w : World ι κ) (s : Mailbox ι κ) : Decidable (s.Accounted userId w) :=
  inferInstanceAs (Decidable (List.Perm _ _))

/-- Two message servers, and a web server. -/
def servers : World Bool Unit := .start (fun _ => ascii "h:1") ⟨fun _ => none, []⟩

/-- Messages come in at a message server and at a web server, before and after a drain. -/
def drainBetween : List (Event Bool Unit) :=
  [.msgData false (toU "1"), .world (.work false), .world (.work false), .world (.work false),
    .lrange, .del,
    .world (.peerMessage () (toU "2")), .world (.execute ()), .world (.callback ()),
    .world (.execute ())]

/-- A message is on its way while the list is read, and is pushed before the list is deleted. -/
def pushBetween : List (Event Bool Unit) :=
  [.msgData false (toU "1"), .world (.work false), .world (.work false), .lrange,
    .world (.work false), .del]

theorem apart_drainBetween : ∃ s,
    Run (step (fun m => (ChatMsg.msgData m).serialize) id true (ascii "u")) (fun _ _ => True)
      (start servers) drainBetween s ∧
    Run (step (fun m => (ChatMsg.msgData m).serialize) id true (ascii "u"))
      (fun s e => s.Apart (ascii "u") e) (start servers) drainBetween s := by
  have hany : (exec (step (fun m => (ChatMsg.msgData m).serialize) id true (ascii "u"))
      (fun _ _ => True) (start servers) drainBetween).any
        (fun s => s.Accounted (ascii "u") servers) = true := by decide +kernel
  obtain ⟨s, hrun, hs⟩ := Run.exists_of_exec hany
  exact ⟨s, hrun, (accounted_iff_of_run (fun v hv => by cases hv) hrun).1 hs⟩

/-- **A lost message**: it was pushed, and is in no response and not in the list. -/
theorem lost_message : ∃ s,
    Run (step (fun m => (ChatMsg.msgData m).serialize) id true (ascii "u")) (fun _ _ => True)
      (start servers) pushBetween s ∧ s.reading = none ∧
    s.pushed = [(ChatMsg.msgData (toU "1")).serialize] ∧ s.responses.flatten = [] ∧
    s.world.redis.keys.listAt (key (ascii "u")) = [] ∧ s.trimmed = [] := by
  have hany : (exec (step (fun m => (ChatMsg.msgData m).serialize) id true (ascii "u"))
      (fun _ _ => True) (start servers) pushBetween).any (fun s => s.reading = none ∧
        s.pushed = [(ChatMsg.msgData (toU "1")).serialize] ∧ s.responses.flatten = [] ∧
        s.world.redis.keys.listAt (key (ascii "u")) = [] ∧ s.trimmed = []) = true := by
    decide +kernel
  exact Run.exists_of_exec hany

end Mailbox

end MutexIM.Routing
