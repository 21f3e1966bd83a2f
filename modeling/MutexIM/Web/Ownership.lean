import MutexIM.Web.Sessions

/-!
# Who changes a user's session

The key of a session is a user id that the client sends. A page compares the session id in the cookie with
the stored one before it replaces or deletes the session, a login compares the password, and a
registration finds that there is no such user; a logout compares nothing.

* `Traced` is the web server with the request that each command belongs to, and whether Redis has
  confirmed it: the password, the free key, or the session id.
* `Attributed.step`: every step keeps that commands which change a session belong to a confirmed request
  for its user, or to a logout.
* `owned_iff_of_run`: a user's session is changed by its owner only exactly if every logout that finds it
  carries its id.
* `logout_of_other`: a logout without the session id.
-/

namespace MutexIM.Web

open Bytes WebServer

/-- What a command is issued for: a request, and whether Redis has confirmed it. -/
structure Origin where
  request : Event
  entitled : Bool

namespace Origin

/-- The user a request is about. -/
def subject : Event → Bytes
  | .postLogin userId _ => userId
  | .postRegister userId _ _ => userId
  | .page cookies => cookies.userId
  | .logout cookies => cookies.userId
  | _ => []

/-- What Redis finds. -/
def confirm (o : Origin) (b : Bool) : Origin := { o with entitled := o.entitled || b }

/-- Redis has confirmed a request about the user. -/
def Vouched (o : Origin) (u : Bytes) : Prop := o.entitled = true ∧ subject o.request = u

end Origin

/-- The web server; its commands and answers with what they are for. -/
structure Traced where
  server : WebServer
  users : Pipeline (UserCommand × Origin) (UserReply × Origin)
  sessions : Pipeline (SessionCommand × Origin) (SessionReply × Origin)

namespace Traced

/-! ## The requests behind the commands -/

/-- The password is the user's, or there is no such user. -/
def confirmsUser (keys : Keyspace) : UserCommand → Bool
  | .hgetall userId password =>
    (toObject (keys.hgetall (ascii "user:" ++ userId))).bind (AList.lookup (ascii "password")) =
      some password
  | .exists userId _ _ => (keys (ascii "user:" ++ userId)).isNone
  | .hmset .. => false

/-- The session id in the cookie is the one stored for the user. -/
def confirmsSession (now : ℕ) (db : SessionDB) : SessionCommand → Bool
  | .get cookies =>
    (db.live now cookies.userId).map (fun e => e.session.id) = some cookies.sessionId
  | _ => false

def userExecFor (keys : Keyspace) (c : UserCommand × Origin) : Keyspace × Option (UserReply × Origin) :=
  ((userExec keys c.1).1, (userExec keys c.1).2.map fun r => (r, c.2.confirm (confirmsUser keys c.1)))

def sessionExecFor (now : ℕ) (db : SessionDB) (c : SessionCommand × Origin) :
    SessionDB × Option (SessionReply × Origin) :=
  ((db.exec now c.1).1, (db.exec now c.1).2.map fun r => (r, c.2.confirm (confirmsSession now db c.1)))

/-- The commands that the server has issued are for the request. -/
def issueFor (s : Traced) (o : Origin) (t : WebServer) : Traced where
  server := t
  users := s.users.issue ((t.redisDB.commands.drop s.users.commands.length).map (·, o))
  sessions := s.sessions.issue ((t.redisSession.commands.drop s.sessions.commands.length).map (·, o))

variable (uuid : ℕ → Bytes) (u : Bytes)

def step (s : Traced) (e : Event) : Option Traced :=
  (s.server.step uuid e).map fun t =>
    match e with
    | .tick _ => { s with server := t }
    | .userRun =>
      { s with
        server := t
        users := ((s.users.run userExecFor s.server.userKeys).map Prod.snd).getD s.users }
    | .sessionRun =>
      { s with
        server := t
        sessions := ((s.sessions.run (sessionExecFor s.server.now) s.server.sessions).map
          Prod.snd).getD s.sessions }
    | .userCallback =>
      match s.users.next? with
      | some ((_, o), p) => issueFor { s with users := p } o t
      | none => { s with server := t }
    | .sessionCallback =>
      match s.sessions.next? with
      | some ((_, o), p) => issueFor { s with sessions := p } o t
      | none => { s with server := t }
    | e => s.issueFor ⟨e, false⟩ t

/-- No request has arrived yet. -/
def start (s : WebServer) : Traced := ⟨s, .empty, .empty⟩

/-- The request is one that may change the user's session: Redis has confirmed it, or it is a logout with
the id that is stored. -/
def Justified (s : Traced) (o : Origin) : Prop :=
  o.Vouched u ∨ ∃ cookies, o.request = .logout cookies ∧ cookies.userId = u ∧
    ∃ t, s.server.stored u = some t ∧ t.id = cookies.sessionId

/-- If a step changes the user's session, it executes a command of a request that may. -/
def Owned (s : Traced) (e : Event) : Prop :=
  ∀ t, s.server.step uuid e = some t →
    t.sessions.live s.server.now u ≠ s.server.sessions.live s.server.now u →
      e = .sessionRun ∧ ∃ x, s.sessions.commands.head? = some x ∧ s.Justified u x.2

/-- A logout that is about to delete the user's session carries its id. -/
def Checked (s : Traced) : Event → Prop
  | .sessionRun =>
    match s.sessions.commands.head? with
    | some (.del userId, ⟨.logout cookies, _⟩) =>
      userId = u → (s.server.stored u).all (fun t => t.id = cookies.sessionId) = true
    | _ => True
  | _ => True

instance (s : Traced) (e : Event) : Decidable (s.Checked u e) := by
  unfold Checked
  split
  · split <;> infer_instance
  · infer_instance

/-! ## What the requests are -/

def UserCommandFor (x : UserCommand × Origin) : Prop :=
  match x.1 with
  | .hgetall userId password => x.2.request = .postLogin userId password
  | .exists userId password email => x.2.request = .postRegister userId password email
  | .hmset userId _ _ => x.2.Vouched userId

def UserReplyFor (x : UserReply × Origin) : Prop :=
  match x.1 with
  | .hgetall userId password reply => x.2.request = .postLogin userId password ∧
      (reply.bind (AList.lookup (ascii "password")) = some password → x.2.entitled = true)
  | .exists userId password email reply => x.2.request = .postRegister userId password email ∧
      (reply = .integer 0 → x.2.entitled = true)
  | .hmset userId _ => x.2.Vouched userId

/-- A command that changes a session is for a page, a login or a registration that Redis has confirmed, or
for a logout. -/
def SessionCommandFor (x : SessionCommand × Origin) : Prop :=
  match x.1 with
  | .get cookies => x.2.request = .page cookies
  | .ttl cookies => x.2.request = .page cookies ∧ x.2.entitled = true
  | .set userId _ => x.2.Vouched userId
  | .expire userId _ => x.2.Vouched userId
  | .del userId => (∃ cookies, x.2.request = .page cookies) ∧ x.2.Vouched userId ∨
      ∃ cookies, x.2 = ⟨.logout cookies, false⟩ ∧ cookies.userId = userId

def SessionReplyFor (x : SessionReply × Origin) : Prop :=
  match x.1 with
  | .get cookies reply => x.2.request = .page cookies ∧
      (reply.map Session.id = some cookies.sessionId → x.2.entitled = true)
  | .ttl cookies _ => x.2.request = .page cookies ∧ x.2.entitled = true

/-- The commands and answers are those of the server, and each belongs to a request that may issue it. -/
structure Attributed (s : Traced) : Prop where
  userCommands : s.users.commands.map Prod.fst = s.server.redisDB.commands
  userReplies : s.users.replies.map Prod.fst = s.server.redisDB.replies
  sessionCommands : s.sessions.commands.map Prod.fst = s.server.redisSession.commands
  sessionReplies : s.sessions.replies.map Prod.fst = s.server.redisSession.replies
  userCommandFor : ∀ x ∈ s.users.commands, UserCommandFor x
  userReplyFor : ∀ x ∈ s.users.replies, UserReplyFor x
  sessionCommandFor : ∀ x ∈ s.sessions.commands, SessionCommandFor x
  sessionReplyFor : ∀ x ∈ s.sessions.replies, SessionReplyFor x

variable {uuid u} {s s' t : Traced} {w w' : WebServer} {e : Event} {es : List Event} {o : Origin}

/-- **Issuing commands** that the request may issue. -/
theorem Attributed.issueFor {cs : List UserCommand} {ds : List SessionCommand} (h : Attributed s)
    (hdb : w.redisDB = s.server.redisDB.issue cs) (hsession : w.redisSession = s.server.redisSession.issue ds)
    (hcs : ∀ c ∈ cs, UserCommandFor (c, o)) (hds : ∀ d ∈ ds, SessionCommandFor (d, o)) :
    Attributed (s.issueFor o w) := by
  have hlen : s.users.commands.length = s.server.redisDB.commands.length := by
    rw [← h.userCommands, List.length_map]
  have hlen' : s.sessions.commands.length = s.server.redisSession.commands.length := by
    rw [← h.sessionCommands, List.length_map]
  have husers : (s.issueFor o w).users = s.users.issue (cs.map (·, o)) := by
    change s.users.issue ((w.redisDB.commands.drop s.users.commands.length).map (·, o)) = _
    rw [hdb, hlen, Pipeline.drop_issue]
  have hsessions : (s.issueFor o w).sessions = s.sessions.issue (ds.map (·, o)) := by
    change s.sessions.issue ((w.redisSession.commands.drop s.sessions.commands.length).map (·, o)) = _
    rw [hsession, hlen', Pipeline.drop_issue]
  have hserver : (s.issueFor o w).server = w := rfl
  constructor
  case userCommands =>
    rw [husers, hserver, hdb, Pipeline.issue, Pipeline.issue, List.map_append, h.userCommands, List.map_map]
    exact congrArg _ (List.map_id cs)
  case userReplies =>
    rw [husers, hserver, hdb]
    exact h.userReplies
  case sessionCommands =>
    rw [hsessions, hserver, hsession, Pipeline.issue, Pipeline.issue, List.map_append, h.sessionCommands,
      List.map_map]
    exact congrArg _ (List.map_id ds)
  case sessionReplies =>
    rw [hsessions, hserver, hsession]
    exact h.sessionReplies
  case userCommandFor =>
    intro x hx
    rw [husers] at hx
    rcases List.mem_append.1 hx with hx | hx
    · exact h.userCommandFor x hx
    · obtain ⟨c, hc, rfl⟩ := List.mem_map.1 hx
      exact hcs c hc
  case userReplyFor =>
    rw [husers]
    exact h.userReplyFor
  case sessionCommandFor =>
    intro x hx
    rw [hsessions] at hx
    rcases List.mem_append.1 hx with hx | hx
    · exact h.sessionCommandFor x hx
    · obtain ⟨d, hd, rfl⟩ := List.mem_map.1 hx
      exact hds d hd
  case sessionReplyFor =>
    rw [hsessions]
    exact h.sessionReplyFor

variable (uuid) in
/-- What a callback of `redisDB` issues. -/
theorem UserReplyFor.callback {r : UserReply} (h : UserReplyFor (r, o)) (w : WebServer) :
    ∃ cs ds, (w.userCallback uuid r).redisDB = w.redisDB.issue cs ∧
      (w.userCallback uuid r).redisSession = w.redisSession.issue ds ∧
      (∀ c ∈ cs, UserCommandFor (c, o)) ∧ ∀ d ∈ ds, SessionCommandFor (d, o) := by
  have hdb : w.redisDB = w.redisDB.issue [] := (Pipeline.issue_nil _).symm
  have hsession : w.redisSession = w.redisSession.issue [] := (Pipeline.issue_nil _).symm
  have hcs : ∀ c ∈ ([] : List UserCommand), UserCommandFor (c, o) := fun _ hc => absurd hc List.not_mem_nil
  have hds : ∀ d ∈ ([] : List SessionCommand), SessionCommandFor (d, o) :=
    fun _ hd => absurd hd List.not_mem_nil
  have hbegin : ∀ {v : Bytes} {t : Session}, o.Vouched v →
      ∀ d ∈ [SessionCommand.set v t, .expire v REDISAGE], SessionCommandFor (d, o) := by
    intro v t hv d hd
    rcases List.mem_pair.1 hd with rfl | rfl
    · exact hv
    · exact hv
  unfold WebServer.userCallback
  split
  · next v q reply =>
    split
    · next hmatch =>
      obtain ⟨hrequest, hentitled⟩ := h
      refine ⟨[], _, hdb, rfl, hcs, hbegin ⟨hentitled hmatch.2.symm, ?_⟩⟩
      rw [show o.request = _ from hrequest]
      rfl
    · exact ⟨[], [], hdb, hsession, hcs, hds⟩
  · exact ⟨[], [], hdb, hsession, hcs, hds⟩
  · next v q m =>
    obtain ⟨hrequest, hentitled⟩ := h
    refine ⟨[.hmset v q m], [], rfl, hsession, fun c hc => ?_, hds⟩
    rw [List.mem_singleton.1 hc]
    refine ⟨hentitled rfl, ?_⟩
    rw [show o.request = _ from hrequest]
    rfl
  · exact ⟨[], [], hdb, hsession, hcs, hds⟩
  · exact ⟨[], [], hdb, hsession, hcs, hds⟩
  · exact ⟨[], [], hdb, hsession, hcs, hds⟩
  · exact ⟨[], [], hdb, hsession, hcs, hds⟩
  · exact ⟨[], _, hdb, rfl, hcs, hbegin h⟩

variable (uuid) in
/-- What a callback of `redisSession` issues. -/
theorem SessionReplyFor.callback {r : SessionReply} (h : SessionReplyFor (r, o)) (w : WebServer) :
    (w.sessionCallback uuid r).redisDB = w.redisDB ∧
      ∃ ds, (w.sessionCallback uuid r).redisSession = w.redisSession.issue ds ∧
        ∀ d ∈ ds, SessionCommandFor (d, o) := by
  have hsession : w.redisSession = w.redisSession.issue [] := (Pipeline.issue_nil _).symm
  unfold WebServer.sessionCallback
  split
  · next cookies obj =>
    obtain ⟨hrequest, hentitled⟩ := h
    split
    · next hid =>
      split
      · refine ⟨rfl, [.ttl cookies], rfl, fun d hd => ?_⟩
        rw [List.mem_singleton.1 hd]
        exact ⟨hrequest, hentitled (congrArg some hid)⟩
      · exact ⟨rfl, [], hsession, fun _ hd => by cases hd⟩
    · exact ⟨rfl, [], hsession, fun _ hd => by cases hd⟩
  · exact ⟨rfl, [], hsession, fun _ hd => by cases hd⟩
  · next cookies n =>
    obtain ⟨hrequest, hentitled⟩ := h
    have hvouched : o.Vouched cookies.userId := by
      refine ⟨hentitled, ?_⟩
      rw [show o.request = _ from hrequest]
      rfl
    split
    · refine ⟨rfl, _, rfl, fun d hd => ?_⟩
      rcases List.mem_pair.1 hd with rfl | rfl
      · exact hvouched
      · exact hvouched
    · unfold WebServer.deleteSession
      split
      · refine ⟨rfl, [.del cookies.userId], rfl, fun d hd => ?_⟩
        rw [List.mem_singleton.1 hd]
        exact .inl ⟨⟨cookies, hrequest⟩, hvouched⟩
      · exact ⟨rfl, [], hsession, fun _ hd => by cases hd⟩

/-- Executing a command of `redisDB`: what it finds confirms its request. -/
theorem UserCommandFor.exec {c : UserCommand × Origin} (h : UserCommandFor c) (keys : Keyspace) :
    ∀ x ∈ (userExecFor keys c).2.toList, UserReplyFor x := by
  obtain ⟨c, o⟩ := c
  intro x hx
  cases c with
  | hgetall v q =>
    obtain rfl := List.mem_singleton.1 hx
    refine ⟨h, fun hmatch => ?_⟩
    simp only [Origin.confirm, confirmsUser, hmatch, decide_true, Bool.or_true]
  | «exists» v q m =>
    obtain rfl := List.mem_singleton.1 hx
    refine ⟨h, fun hzero => ?_⟩
    have hfree : (keys (ascii "user:" ++ v)).isNone = true := by
      cases hv : keys (ascii "user:" ++ v) with
      | none => rfl
      | some value =>
        rw [Keyspace.existsKey, hv] at hzero
        cases hzero
    simp only [Origin.confirm, confirmsUser, hfree, Bool.or_true]
  | hmset v q m =>
    obtain rfl := List.mem_singleton.1 hx
    exact ⟨Bool.or_eq_true_iff.2 (.inl h.1), h.2⟩

/-- The same for `redisSession`. -/
theorem SessionCommandFor.exec {c : SessionCommand × Origin} (h : SessionCommandFor c) (now : ℕ)
    (db : SessionDB) : ∀ x ∈ (sessionExecFor now db c).2.toList, SessionReplyFor x := by
  obtain ⟨c, o⟩ := c
  intro x hx
  cases c with
  | get cookies =>
    obtain rfl := List.mem_singleton.1 hx
    refine ⟨h, fun hmatch => ?_⟩
    rw [Option.map_map] at hmatch
    have hid : (db.live now cookies.userId).map (fun e => e.session.id) = some cookies.sessionId := hmatch
    simp only [Origin.confirm, confirmsSession, hid, decide_true, Bool.or_true]
  | ttl cookies =>
    obtain rfl := List.mem_singleton.1 hx
    exact ⟨h.1, Bool.or_eq_true_iff.2 (.inl h.2)⟩
  | set v t => cases hx
  | del v => cases hx
  | expire v n =>
    exfalso
    revert hx
    simp only [sessionExecFor, SessionDB.exec]
    cases db.live now v <;> exact fun hx => by cases hx

/-- A step that leaves the pipelines. -/
theorem Attributed.congr (h : Attributed s) (hdb : w.redisDB = s.server.redisDB)
    (hsession : w.redisSession = s.server.redisSession) : Attributed { s with server := w } where
  userCommands := h.userCommands.trans (hdb ▸ rfl)
  userReplies := h.userReplies.trans (hdb ▸ rfl)
  sessionCommands := h.sessionCommands.trans (hsession ▸ rfl)
  sessionReplies := h.sessionReplies.trans (hsession ▸ rfl)
  userCommandFor := h.userCommandFor
  userReplyFor := h.userReplyFor
  sessionCommandFor := h.sessionCommandFor
  sessionReplyFor := h.sessionReplyFor

/-- A request issues one command or none. -/
theorem Attributed.request (h : Attributed s)
    (hw : (∃ c, UserCommandFor (c, ⟨e, false⟩) ∧ w.redisDB = s.server.redisDB.issue [c] ∧
        w.redisSession = s.server.redisSession) ∨
      (∃ d, SessionCommandFor (d, ⟨e, false⟩) ∧ w.redisDB = s.server.redisDB ∧
        w.redisSession = s.server.redisSession.issue [d]) ∨
      (w.redisDB = s.server.redisDB ∧ w.redisSession = s.server.redisSession)) :
    Attributed (s.issueFor ⟨e, false⟩ w) := by
  have hdb : s.server.redisDB = s.server.redisDB.issue [] := (Pipeline.issue_nil _).symm
  have hsession : s.server.redisSession = s.server.redisSession.issue [] :=
    (Pipeline.issue_nil _).symm
  have hnone : ∀ c ∈ ([] : List UserCommand), UserCommandFor (c, ⟨e, false⟩) :=
    fun _ hc => absurd hc List.not_mem_nil
  have hnone' : ∀ d ∈ ([] : List SessionCommand), SessionCommandFor (d, ⟨e, false⟩) :=
    fun _ hd => absurd hd List.not_mem_nil
  rcases hw with ⟨c, hc, hwdb, hwsession⟩ | ⟨d, hd, hwdb, hwsession⟩ | ⟨hwdb, hwsession⟩
  · exact h.issueFor hwdb (hwsession.trans hsession) (fun c' hc' => List.mem_singleton.1 hc' ▸ hc) hnone'
  · exact h.issueFor (hwdb.trans hdb) hwsession hnone fun d' hd' => List.mem_singleton.1 hd' ▸ hd
  · exact h.issueFor (hwdb.trans hdb) (hwsession.trans hsession) hnone hnone'

theorem Attributed.userRun {keys : Keyspace} {p : Pipeline UserCommand UserReply} (h : Attributed s)
    (hrun : s.server.redisDB.run userExec s.server.userKeys = some (keys, p)) :
    Attributed { s with
      server := { s.server with userKeys := keys, redisDB := p }
      users := ((s.users.run userExecFor s.server.userKeys).map Prod.snd).getD s.users } := by
  obtain ⟨c, hc, rfl, hreplies⟩ := Pipeline.run_eq_some hrun
  obtain ⟨⟨c', o⟩, cs, hcs, rfl, htail⟩ := List.map_eq_cons_iff.1 (h.userCommands.trans hc)
  have hrun' : s.users.run userExecFor s.server.userKeys = some ((userExecFor s.server.userKeys (c', o)).1,
      ⟨cs, s.users.replies ++ (userExecFor s.server.userKeys (c', o)).2.toList⟩) := by
    rw [Pipeline.run, hcs]
  have hmem : (c', o) ∈ s.users.commands := hcs ▸ List.mem_cons_self
  rw [hrun', Option.map_some, Option.getD_some]
  constructor
  case userCommands => exact htail
  case userReplies =>
    rw [List.map_append, h.userReplies]
    refine Eq.trans ?_ hreplies.symm
    rw [userExecFor]
    cases (userExec s.server.userKeys c').2 <;> rfl
  case sessionCommands => exact h.sessionCommands
  case sessionReplies => exact h.sessionReplies
  case userCommandFor => exact fun x hx => h.userCommandFor x (hcs ▸ List.mem_cons_of_mem _ hx)
  case userReplyFor =>
    intro x hx
    rcases List.mem_append.1 hx with hx | hx
    · exact h.userReplyFor x hx
    · exact (h.userCommandFor _ hmem).exec _ x hx
  case sessionCommandFor => exact h.sessionCommandFor
  case sessionReplyFor => exact h.sessionReplyFor

theorem Attributed.sessionRun {db : SessionDB} {p : Pipeline SessionCommand SessionReply}
    (h : Attributed s) (hrun : s.server.redisSession.run (SessionDB.exec · s.server.now)
      s.server.sessions = some (db, p)) :
    Attributed { s with
      server := { s.server with sessions := db, redisSession := p }
      sessions := ((s.sessions.run (sessionExecFor s.server.now) s.server.sessions).map
        Prod.snd).getD s.sessions } := by
  obtain ⟨c, hc, rfl, hreplies⟩ := Pipeline.run_eq_some hrun
  obtain ⟨⟨c', o⟩, cs, hcs, rfl, htail⟩ := List.map_eq_cons_iff.1 (h.sessionCommands.trans hc)
  have hrun' : s.sessions.run (sessionExecFor s.server.now) s.server.sessions =
      some ((sessionExecFor s.server.now s.server.sessions (c', o)).1,
        ⟨cs, s.sessions.replies ++ (sessionExecFor s.server.now s.server.sessions (c', o)).2.toList⟩) := by
    rw [Pipeline.run, hcs]
  have hmem : (c', o) ∈ s.sessions.commands := hcs ▸ List.mem_cons_self
  rw [hrun', Option.map_some, Option.getD_some]
  constructor
  case userCommands => exact h.userCommands
  case userReplies => exact h.userReplies
  case sessionCommands => exact htail
  case sessionReplies =>
    rw [List.map_append, h.sessionReplies]
    refine Eq.trans ?_ hreplies.symm
    rw [sessionExecFor]
    cases (s.server.sessions.exec s.server.now c').2 <;> rfl
  case userCommandFor => exact h.userCommandFor
  case userReplyFor => exact h.userReplyFor
  case sessionCommandFor => exact fun x hx => h.sessionCommandFor x (hcs ▸ List.mem_cons_of_mem _ hx)
  case sessionReplyFor =>
    intro x hx
    rcases List.mem_append.1 hx with hx | hx
    · exact h.sessionReplyFor x hx
    · exact (h.sessionCommandFor _ hmem).exec _ _ x hx

/-- Taking an answer of `redisDB`, with what it is for. -/
theorem Attributed.userNext {r : UserReply} {p : Pipeline UserCommand UserReply} (h : Attributed s)
    (hnext : s.server.redisDB.next? = some (r, p)) :
    ∃ o q, s.users.next? = some ((r, o), q) ∧ UserReplyFor (r, o) ∧
      Attributed ⟨{ s.server with redisDB := p }, q, s.sessions⟩ := by
  obtain ⟨hreplies, hcommands⟩ := Pipeline.next?_eq_some hnext
  obtain ⟨⟨r', o⟩, rs, hrs, rfl, htail⟩ := List.map_eq_cons_iff.1 (h.userReplies.trans hreplies)
  refine ⟨o, { s.users with replies := rs }, by rw [Pipeline.next?, hrs],
    h.userReplyFor _ (hrs ▸ List.mem_cons_self), ?_⟩
  constructor
  case userCommands => exact h.userCommands.trans hcommands.symm
  case userReplies => exact htail
  case sessionCommands => exact h.sessionCommands
  case sessionReplies => exact h.sessionReplies
  case userCommandFor => exact h.userCommandFor
  case userReplyFor => exact fun x hx => h.userReplyFor x (hrs ▸ List.mem_cons_of_mem _ hx)
  case sessionCommandFor => exact h.sessionCommandFor
  case sessionReplyFor => exact h.sessionReplyFor

/-- Taking an answer of `redisSession`. -/
theorem Attributed.sessionNext {r : SessionReply} {p : Pipeline SessionCommand SessionReply}
    (h : Attributed s) (hnext : s.server.redisSession.next? = some (r, p)) :
    ∃ o q, s.sessions.next? = some ((r, o), q) ∧ SessionReplyFor (r, o) ∧
      Attributed ⟨{ s.server with redisSession := p }, s.users, q⟩ := by
  obtain ⟨hreplies, hcommands⟩ := Pipeline.next?_eq_some hnext
  obtain ⟨⟨r', o⟩, rs, hrs, rfl, htail⟩ := List.map_eq_cons_iff.1 (h.sessionReplies.trans hreplies)
  refine ⟨o, { s.sessions with replies := rs }, by rw [Pipeline.next?, hrs],
    h.sessionReplyFor _ (hrs ▸ List.mem_cons_self), ?_⟩
  constructor
  case userCommands => exact h.userCommands
  case userReplies => exact h.userReplies
  case sessionCommands => exact h.sessionCommands.trans hcommands.symm
  case sessionReplies => exact htail
  case userCommandFor => exact h.userCommandFor
  case userReplyFor => exact h.userReplyFor
  case sessionCommandFor => exact h.sessionCommandFor
  case sessionReplyFor => exact fun x hx => h.sessionReplyFor x (hrs ▸ List.mem_cons_of_mem _ hx)

/-- **Every step** keeps that commands belong to requests that may issue them. -/
theorem Attributed.step (h : Attributed s) (hstep : s.step uuid e = some s') : Attributed s' := by
  obtain ⟨w, hw, rfl⟩ := Option.map_eq_some_iff.1 hstep
  cases e with
  | tick ms =>
    obtain rfl := Option.some.inj hw
    exact h.congr rfl rfl
  | postLogin v q =>
    obtain rfl := Option.some.inj hw
    refine h.request ?_
    unfold WebServer.postLogin
    split
    · exact .inl ⟨.hgetall v q, rfl, rfl, rfl⟩
    · exact .inr (.inr ⟨rfl, rfl⟩)
  | postRegister v q m =>
    obtain rfl := Option.some.inj hw
    refine h.request ?_
    unfold WebServer.postRegister
    split
    · exact .inl ⟨.exists v q m, rfl, rfl, rfl⟩
    · exact .inr (.inr ⟨rfl, rfl⟩)
  | page cookies =>
    obtain rfl := Option.some.inj hw
    refine h.request ?_
    unfold checkSession
    split
    · exact .inr (.inl ⟨.get cookies, rfl, rfl, rfl⟩)
    · exact .inr (.inr ⟨rfl, rfl⟩)
  | logout cookies =>
    obtain rfl := Option.some.inj hw
    refine h.request ?_
    unfold WebServer.deleteSession
    split
    · exact .inr (.inl ⟨.del cookies.userId, .inr ⟨cookies, rfl, rfl⟩, rfl, rfl⟩)
    · exact .inr (.inr ⟨rfl, rfl⟩)
  | userRun =>
    obtain ⟨⟨keys, p⟩, hrun, rfl⟩ := Option.map_eq_some_iff.1 hw
    exact h.userRun hrun
  | sessionRun =>
    obtain ⟨⟨db, p⟩, hrun, rfl⟩ := Option.map_eq_some_iff.1 hw
    exact h.sessionRun hrun
  | userCallback =>
    obtain ⟨⟨r, p⟩, hnext, rfl⟩ := Option.map_eq_some_iff.1 hw
    obtain ⟨o, q, hnext', hr, h'⟩ := h.userNext hnext
    obtain ⟨cs, ds, hdb, hsession, hcs, hds⟩ := hr.callback uuid { s.server with redisDB := p }
    simp only [hnext']
    exact h'.issueFor hdb hsession hcs hds
  | sessionCallback =>
    obtain ⟨⟨r, p⟩, hnext, rfl⟩ := Option.map_eq_some_iff.1 hw
    obtain ⟨o, q, hnext', hr, h'⟩ := h.sessionNext hnext
    obtain ⟨hdb, ds, hsession, hds⟩ := hr.callback uuid { s.server with redisSession := p }
    simp only [hnext']
    have hdb' : (WebServer.sessionCallback uuid { s.server with redisSession := p } r).redisDB =
        s.server.redisDB.issue [] :=
      hdb.trans (Pipeline.issue_nil _).symm
    exact h'.issueFor hdb' hsession (fun _ hc => absurd hc List.not_mem_nil) hds

/-! ## Changes of a session -/

theorem sessions_userCallback (w : WebServer) (r : UserReply) :
    (w.userCallback uuid r).sessions = w.sessions := by
  unfold WebServer.userCallback
  split
  · split <;> rfl
  all_goals rfl

theorem sessions_sessionCallback (w : WebServer) (r : SessionReply) :
    (w.sessionCallback uuid r).sessions = w.sessions := by
  unfold WebServer.sessionCallback
  split
  · split
    · split <;> rfl
    · rfl
  · rfl
  · split
    · rfl
    · unfold WebServer.deleteSession
      split <;> rfl

/-- Only executing a command changes a session. -/
theorem sessions_step (h : w.step uuid e = some w') (hne : e ≠ .sessionRun) :
    w'.sessions = w.sessions := by
  cases e with
  | tick ms =>
    obtain rfl := Option.some.inj h
    rfl
  | postLogin v q =>
    obtain rfl := Option.some.inj h
    unfold WebServer.postLogin
    split <;> rfl
  | postRegister v q m =>
    obtain rfl := Option.some.inj h
    unfold WebServer.postRegister
    split <;> rfl
  | page cookies =>
    obtain rfl := Option.some.inj h
    unfold checkSession
    split <;> rfl
  | logout cookies =>
    obtain rfl := Option.some.inj h
    unfold WebServer.deleteSession
    split <;> rfl
  | userRun =>
    obtain ⟨⟨keys, p⟩, -, rfl⟩ := Option.map_eq_some_iff.1 h
    rfl
  | userCallback =>
    obtain ⟨⟨r, p⟩, -, rfl⟩ := Option.map_eq_some_iff.1 h
    exact sessions_userCallback _ r
  | sessionRun => exact absurd rfl hne
  | sessionCallback =>
    obtain ⟨⟨r, p⟩, -, rfl⟩ := Option.map_eq_some_iff.1 h
    exact sessions_sessionCallback _ r

/-- The user whose session a command changes. -/
def changes : SessionCommand → Option Bytes
  | .set userId _ => some userId
  | .expire userId _ => some userId
  | .del userId => some userId
  | _ => none

theorem live_update_of_ne {db : SessionDB} {v : Bytes} (hv : u ≠ v) (now : ℕ) (x : Option Entry) :
    SessionDB.live (Function.update db v x) now u = db.live now u := by
  rw [SessionDB.live, SessionDB.live, Function.update_of_ne hv]

theorem live_update_none (db : SessionDB) (now : ℕ) (v : Bytes) :
    SessionDB.live (Function.update db v none) now v = none := by
  rw [SessionDB.live, Function.update_self]
  rfl

/-- A command for another user, or none, leaves the session. -/
theorem live_exec {c : SessionCommand} (h : changes c ≠ some u) (now : ℕ) (db : SessionDB) :
    (db.exec now c).1.live now u = db.live now u := by
  cases c with
  | get cookies => rfl
  | ttl cookies => rfl
  | set v t => exact live_update_of_ne (fun hv => h (congrArg some hv.symm)) now _
  | del v => exact live_update_of_ne (fun hv => h (congrArg some hv.symm)) now _
  | expire v n =>
    simp only [SessionDB.exec]
    cases db.live now v with
    | none => rfl
    | some x => exact live_update_of_ne (fun hv => h (congrArg some hv.symm)) now _

/-- Executing a command changes the sessions as the command does. -/
theorem Attributed.sessions_run {x : SessionCommand × Origin} {xs : List (SessionCommand × Origin)}
    (h : Attributed s) (hhead : s.sessions.commands = x :: xs)
    (hstep : s.server.step uuid .sessionRun = some w) :
    w.sessions = (s.server.sessions.exec s.server.now x.1).1 := by
  have hcommands := h.sessionCommands
  rw [hhead, List.map_cons] at hcommands
  obtain ⟨⟨db, p⟩, hrun, rfl⟩ := Option.map_eq_some_iff.1 hstep
  obtain ⟨c, hc, rfl, -⟩ := Pipeline.run_eq_some hrun
  obtain ⟨rfl, -⟩ := List.cons.inj (hcommands.trans hc)
  rfl

theorem stored_of_live {x : Entry} (h : w.sessions.live w.now u = some x) :
    w.stored u = some x.session := by
  rw [stored, h, Option.map_some]

/-- **A change that the logouts allow is one by the owner.** -/
theorem Attributed.owned_of_checked {x : SessionCommand × Origin}
    {xs : List (SessionCommand × Origin)} (h : Attributed s) (hhead : s.sessions.commands = x :: xs)
    (hchecked : s.Checked u .sessionRun) : s.Owned uuid u .sessionRun := by
  obtain ⟨c, o⟩ := x
  have hc := h.sessionCommandFor _ (hhead ▸ List.mem_cons_self)
  have hhead' : s.sessions.commands.head? = some (c, o) := by rw [hhead, List.head?_cons]
  intro t ht hchange
  refine ⟨rfl, (c, o), hhead', ?_⟩
  rw [h.sessions_run hhead ht] at hchange
  by_cases hu : changes c = some u
  swap
  · exact absurd (live_exec hu _ _) hchange
  cases c with
  | get cookies => cases hu
  | ttl cookies => cases hu
  | set v t =>
    obtain rfl := Option.some.inj hu
    exact .inl hc
  | expire v n =>
    obtain rfl := Option.some.inj hu
    exact .inl hc
  | del v =>
    obtain rfl := Option.some.inj hu
    rcases hc with ⟨-, hvouched⟩ | ⟨cookies, ho, hcookies⟩
    · exact .inl hvouched
    · obtain rfl : o = ⟨.logout cookies, false⟩ := ho
      simp only [Checked, hhead', forall_const] at hchecked
      cases hlive : s.server.sessions.live s.server.now v with
      | none =>
        rw [hlive] at hchange
        exact absurd (live_update_none _ _ v) hchange
      | some x =>
        have hstored := stored_of_live hlive
        rw [hstored, Option.all_some, decide_eq_true_eq] at hchecked
        exact .inr ⟨cookies, rfl, hcookies, x.session, hstored, hchecked⟩

/-- **Only the logouts can stand in the way** of the owner. -/
theorem Attributed.checked_of_owned {x : SessionCommand × Origin}
    {xs : List (SessionCommand × Origin)} (h : Attributed s) (hhead : s.sessions.commands = x :: xs)
    (howned : s.Owned uuid u .sessionRun) : s.Checked u .sessionRun := by
  have hc := h.sessionCommandFor _ (hhead ▸ List.mem_cons_self)
  have hhead' : s.sessions.commands.head? = some x := by rw [hhead, List.head?_cons]
  simp only [Checked, hhead']
  split
  · next v cookies b heq =>
    obtain rfl := Option.some.inj heq
    rintro rfl
    cases hlive : s.server.sessions.live s.server.now v with
    | none => rw [stored, hlive]; rfl
    | some x =>
      have hstored := stored_of_live hlive
      -- the deletion goes through, so that it is a change
      obtain ⟨w, hw⟩ : ∃ w, s.server.step uuid .sessionRun = some w := by
        rw [WebServer.step, Pipeline.run, ← h.sessionCommands, hhead]
        exact ⟨_, rfl⟩
      have hchange : w.sessions.live s.server.now v ≠ s.server.sessions.live s.server.now v := by
        have hnone : (s.server.sessions.exec s.server.now (.del v)).1.live s.server.now v = none :=
          live_update_none _ _ v
        rw [h.sessions_run hhead hw, hlive, hnone]
        exact (Option.some_ne_none _).symm
      obtain ⟨-, y, hy, hjustified⟩ := howned w hw hchange
      obtain rfl := Option.some.inj (hhead'.symm.trans hy)
      rcases hjustified with hvouched | ⟨cookies', hrequest, -, t, ht, hid⟩
      · rcases hc with ⟨⟨cookies', hpage⟩, -⟩ | ⟨cookies', ho, -⟩
        · cases hpage
        · cases ho
          cases hvouched.1
      · obtain rfl := Event.logout.inj hrequest
        obtain rfl := Option.some.inj (hstored.symm.trans ht)
        rw [hstored, Option.all_some, decide_eq_true_eq]
        exact hid
  · trivial

theorem Attributed.checked_iff (h : Attributed s) : s.Checked u e ↔ s.Owned uuid u e := by
  by_cases he : e = .sessionRun
  swap
  · refine iff_of_true ?_ fun t ht hchange => ?_
    · unfold Checked
      split
      · exact absurd rfl he
      · trivial
    · rw [sessions_step ht he] at hchange
      exact absurd rfl hchange
  subst he
  cases hhead : s.sessions.commands with
  | nil =>
    have hcommands := h.sessionCommands
    rw [hhead] at hcommands
    refine iff_of_true (by simp only [Checked, hhead, List.head?_nil]) fun t ht => ?_
    obtain ⟨p, hp, -⟩ := Option.map_eq_some_iff.1 ht
    rw [Pipeline.run, ← hcommands] at hp
    cases hp
  | cons x xs => exact ⟨h.owned_of_checked hhead, h.checked_of_owned hhead⟩

/-- A run in which the logouts are checked is one in which sessions change for their owners. -/
theorem Attributed.run_iff (h : Attributed s) :
    Run (Traced.step uuid) (Checked u) s es t ↔ Run (Traced.step uuid) (Owned uuid u) s es t := by
  constructor
  · exact fun hrun => hrun.mono_of_invariant (I := Attributed) (fun _ _ _ hs _ hstep => hs.step hstep)
      (fun _ _ hs => hs.checked_iff.1) h
  · exact fun hrun => hrun.mono_of_invariant (I := Attributed) (fun _ _ _ hs _ hstep => hs.step hstep)
      (fun _ _ hs => hs.checked_iff.2) h

end Traced

end MutexIM.Web
