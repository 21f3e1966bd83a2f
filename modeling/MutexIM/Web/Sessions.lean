import MutexIM.Foundations.Pipeline
import MutexIM.Foundations.Runs
import MutexIM.Redis.CRedis

/-!
# Sessions of the web server

`server.js` keeps one session record, `sessionObj`, which every request that draws a session id fills
and then stores in Redis under the user's id. A login and a registration do both at once; an update
asks Redis for the time to live in between, and stores what the record holds by then.

* `postLogin`, `postRegister`, `CheckSession`, `UpdateSession`, `DeleteSession`: what requests do, and
  what their callbacks do. Redis has two clients, each a pipeline of commands and answers.
* `Invariant.step`: every step preserves that the ids stored or about to be stored were drawn for
  their user and set as a cookie.
* `isolated_of_run`: sessions of different users differ, and a user's session is the one in the user's
  cookie, as long as each update finds an id drawn for its own user in the record.
* `shared_session`: two users update their sessions at once and get the same id.
-/

namespace MutexIM.Web

open Bytes

/-! ## Cookies and sessions -/

/-- Thirty minutes, in milliseconds. -/
def MAXAGE : ℕ := 30 * 60 * 1000

/-- A week, in seconds. -/
def REDISAGE : ℕ := 7 * 24 * 60 * 60

def sessionKey : Bytes := ascii "session_id"

/-- `cookieSerialize`. The options are lost: `opt | {}` is a number. -/
def cookieSerialize (name val : Bytes) : Bytes := name ++ ascii "=" ++ val

/-- A session record, apart from the constant `originMaxAge`. -/
structure Session where
  id : Bytes
  expire : ℕ

/-- The cookies of a request; one that was not sent is empty. -/
structure Cookies where
  userId : Bytes
  sessionId : Bytes

/-- What a request is answered with: the `Set-Cookie` header, in which `none` stands for `undefined`,
and the page it is redirected to. -/
structure Response where
  userId : Bytes
  setCookie : List (Option Bytes)
  location : Option Bytes

/-! ## The database of sessions -/

/-- A stored session, with the time at which it expires. -/
structure Entry where
  session : Session
  deadline : Option ℕ

/-- The commands issued, with what their callbacks need. -/
inductive SessionCommand
  | get (cookies : Cookies)
  | set (userId : Bytes) (session : Session)
  | expire (userId : Bytes) (seconds : ℕ)
  | ttl (cookies : Cookies)
  | del (userId : Bytes)

/-- The answers that a callback waits for. -/
inductive SessionReply
  | get (cookies : Cookies) (reply : Option Session)
  | ttl (cookies : Cookies) (reply : ℤ)

abbrev SessionDB := Bytes → Option Entry

namespace SessionDB

variable (db : SessionDB) (now : ℕ)

/-- What is at a key and has not expired. -/
def live (userId : Bytes) : Option Entry := (db userId).filter fun e => e.deadline.all (now < ·)

/-- `TTL`, in seconds. -/
def ttl (userId : Bytes) : ℤ :=
  match db.live now userId with
  | none => -2
  | some ⟨_, none⟩ => -1
  | some ⟨_, some deadline⟩ => ((deadline - now + 500) / 1000 : ℕ)

def exec : SessionCommand → SessionDB × Option SessionReply
  | .get cookies => (db, some (.get cookies ((db.live now cookies.userId).map Entry.session)))
  | .set userId session => (Function.update db userId (some ⟨session, none⟩), none)
  | .expire userId seconds =>
    match db.live now userId with
    | none => (db, none)
    | some e =>
      (Function.update db userId (some { e with deadline := some (now + 1000 * seconds) }), none)
  | .ttl cookies => (db, some (.ttl cookies (db.ttl now cookies.userId)))
  | .del userId => (Function.update db userId none, none)

end SessionDB

/-! ## The database of users -/

/-- The commands issued, with the bodies of their requests. -/
inductive UserCommand
  | hgetall (userId password : Bytes)
  | exists (userId password email : Bytes)
  | hmset (userId password email : Bytes)

/-- The answers to them. -/
inductive UserReply
  | hgetall (userId password : Bytes) (reply : Option (AList fun _ : Bytes => Bytes))
  | exists (userId password email : Bytes) (reply : Reply)
  | hmset (userId : Bytes) (reply : Reply)

/-- The object the client makes of a hash; `none` is `null` or an error. -/
def toObject : Reply → Option (AList fun _ : Bytes => Bytes)
  | .array (e :: es) =>
    some ((Reply.pairs (e :: es)).foldl (fun o e => o.insert e.1.bytes e.2.bytes) ∅)
  | _ => none

def userExec (keys : Keyspace) : UserCommand → Keyspace × Option UserReply
  | .hgetall userId password =>
    (keys, some (.hgetall userId password (toObject (keys.hgetall (ascii "user:" ++ userId)))))
  | .exists userId password email =>
    (keys, some (.exists userId password email (keys.existsKey (ascii "user:" ++ userId))))
  | .hmset userId password email =>
    let (reply, keys) := keys.hmset (ascii "user:" ++ userId)
      [(ascii "useId", userId), (ascii "password", password), (ascii "email", email),
        (ascii "nickName", userId)]
    (keys, some (.hmset userId reply))

/-! ## The server -/

/-- The web server and its databases. As history, the ids drawn, each with the user it was drawn for,
and the responses, the last one first. -/
structure WebServer where
  now : ℕ
  sessionObj : Session
  userKeys : Keyspace
  sessions : SessionDB
  redisDB : Pipeline UserCommand UserReply
  redisSession : Pipeline SessionCommand SessionReply
  drawn : List (Bytes × Bytes)
  responses : List Response

namespace WebServer

def start : WebServer where
  now := 0
  sessionObj := ⟨[], 0⟩
  userKeys _ := none
  sessions _ := none
  redisDB := .empty
  redisSession := .empty
  drawn := []
  responses := []

variable (uuid : ℕ → Bytes) (s : WebServer)

def respond (p : Response) : WebServer := { s with responses := p :: s.responses }

def redirect (userId location : Bytes) : WebServer := s.respond ⟨userId, [], some location⟩

/-- `req.session` becomes the shared record, and gets a new id and time. -/
def newSession (userId : Bytes) : WebServer :=
  let id := uuid s.drawn.length
  { s with sessionObj := ⟨id, s.now + MAXAGE⟩, drawn := s.drawn ++ [(id, userId)] }

/-- The session record is stored under the user's id. -/
def saveSession (userId : Bytes) (seconds : ℕ) : WebServer :=
  { s with redisSession := s.redisSession.issue [.set userId s.sessionObj, .expire userId seconds] }

/-- What a login and a registration end in. -/
def beginSession (userId : Bytes) : WebServer :=
  let s := (s.newSession uuid userId).saveSession userId REDISAGE
  s.respond
    { userId := userId
      setCookie := [some (cookieSerialize sessionKey s.sessionObj.id),
        some (cookieSerialize (ascii "userId") userId)]
      location := some (ascii "/chat") }

/-- `POST /login`. -/
def postLogin (userId password : Bytes) : WebServer :=
  if userId ≠ [] ∧ password ≠ [] then
    { s with redisDB := s.redisDB.issue [.hgetall userId password] }
  else s.redirect userId (ascii "/login?error=invalidERROR")

/-- `POST /register`. -/
def postRegister (userId password email : Bytes) : WebServer :=
  if userId ≠ [] ∧ password ≠ [] ∧ email ≠ [] then
    { s with redisDB := s.redisDB.issue [.exists userId password email] }
  else s.redirect userId (ascii "/register?ERROR=Invalid")

/-- The callbacks of `redisDB`. -/
def userCallback : UserReply → WebServer
  | .hgetall userId password (some reply) =>
    if some userId = reply.lookup (ascii "useId") ∧
        some password = reply.lookup (ascii "password") then
      s.beginSession uuid userId
    else s.redirect userId (ascii "/login?error=passERROR")
  | .hgetall userId _ none => s.redirect userId (ascii "/login?error=existERROR")
  | .exists userId password email (.integer 0) =>
    { s with redisDB := s.redisDB.issue [.hmset userId password email] }
  | .exists userId _ _ (.integer 1) => s.redirect userId (ascii "/register?ERROR=EXIST")
  | .exists _ _ _ .error => s
  | .exists userId _ _ _ => s.redirect userId (ascii "/register?ERROR=REPLYERROR")
  | .hmset _ .error => s
  | .hmset userId _ => s.beginSession uuid userId

/-- `DeleteSession`, with the page its caller redirects to. -/
def deleteSession (cookies : Cookies) (location : Bytes) : WebServer :=
  if cookies.userId ≠ [] then
    { s with redisSession := s.redisSession.issue [.del cookies.userId] }.respond
      ⟨cookies.userId, [some (cookieSerialize sessionKey [])], some location⟩
  else s.redirect cookies.userId location

/-- `CheckSession`, which every page of a logged-in user starts with. -/
def checkSession (cookies : Cookies) : WebServer :=
  if cookies.userId ≠ [] ∧ cookies.sessionId ≠ [] then
    { s with redisSession := s.redisSession.issue [.get cookies] }
  else s.redirect cookies.userId (ascii "/login?error=requestERROR")

/-- `UpdateSession`. -/
def updateSession (cookies : Cookies) : WebServer :=
  let s := s.newSession uuid cookies.userId
  { s with redisSession := s.redisSession.issue [.ttl cookies] }

/-- The callbacks of `redisSession`, in `CheckSession` and in `UpdateSession`. -/
def sessionCallback : SessionReply → WebServer
  | .get cookies (some obj) =>
    if obj.id = cookies.sessionId then
      if obj.expire < s.now then s.updateSession uuid cookies
      else s.respond ⟨cookies.userId, [], none⟩
    else s.redirect cookies.userId (ascii "/login?error=SessionERROR")
  | .get cookies none => s.redirect cookies.userId (ascii "/login?error=noInfoERROR")
  | .ttl cookies reply =>
    if 10 ≤ reply then
      (s.saveSession cookies.userId reply.toNat).respond
        ⟨cookies.userId, [none, some (cookieSerialize sessionKey s.sessionObj.id)], none⟩
    else s.deleteSession cookies (ascii "/login?error=noLogin")

/-- Time passes, a request arrives, Redis executes a command, or a callback runs. -/
inductive Event
  | tick (ms : ℕ)
  | postLogin (userId password : Bytes)
  | postRegister (userId password email : Bytes)
  | page (cookies : Cookies)
  | logout (cookies : Cookies)
  | userRun
  | userCallback
  | sessionRun
  | sessionCallback

def step : Event → Option WebServer
  | .tick ms => some { s with now := s.now + ms }
  | .postLogin userId password => some (s.postLogin userId password)
  | .postRegister userId password email => some (s.postRegister userId password email)
  | .page cookies => some (s.checkSession cookies)
  | .logout cookies => some (s.deleteSession cookies (ascii "/"))
  | .userRun => (s.redisDB.run userExec s.userKeys).map fun (keys, p) =>
    { s with userKeys := keys, redisDB := p }
  | .userCallback => s.redisDB.next?.map fun (reply, p) =>
    { s with redisDB := p }.userCallback uuid reply
  | .sessionRun => (s.redisSession.run (SessionDB.exec · s.now) s.sessions).map fun (db, p) =>
    { s with sessions := db, redisSession := p }
  | .sessionCallback => s.redisSession.next?.map fun (reply, p) =>
    { s with redisSession := p }.sessionCallback uuid reply

/-! ## Isolation -/

/-- The session that Redis holds for a user. -/
def stored (userId : Bytes) : Option Session := (s.sessions.live s.now userId).map Entry.session

/-- The header of a response puts the id into the user's cookie. -/
def SetsCookie (p : Response) (userId id : Bytes) : Prop :=
  p.userId = userId ∧ some (cookieSerialize sessionKey id) ∈ p.setCookie

/-- The last response of the user's that has a `Set-Cookie` header. -/
def lastCookie (userId : Bytes) : Option Response :=
  s.responses.find? fun p => p.userId = userId ∧ p.setCookie ≠ []

/-- A command that changes the user's session is to be executed. -/
def Unsettled (userId : Bytes) : Prop :=
  ∃ c ∈ s.redisSession.commands, c = .del userId ∨ ∃ t, c = .set userId t

/-- The sessions of different users differ, and a user's session is one that a response put into the
user's cookie, the last one once the commands issued are executed. -/
structure Isolated : Prop where
  ids_ne : ∀ u v t t', u ≠ v → s.stored u = some t → s.stored v = some t' → t.id ≠ t'.id
  own : ∀ u t, s.stored u = some t → ∃ p ∈ s.responses, SetsCookie p u t.id
  last : ∀ u t, s.stored u = some t → ¬s.Unsettled u → ∃ p, s.lastCookie u = some p ∧ SetsCookie p u t.id

/-- An update that is about to store the session record finds an id in it that was drawn for its
user. -/
def StoresOwn : Event → Prop
  | .sessionCallback =>
    match s.redisSession.next? with
    | some (.ttl cookies reply, _) => 10 ≤ reply → (s.sessionObj.id, cookies.userId) ∈ s.drawn
    | _ => True
  | _ => True

instance (e : Event) : Decidable (s.StoresOwn e) := by
  unfold StoresOwn
  split
  · split <;> infer_instance
  · infer_instance

/-! ## The invariant -/

/-- What a command makes of the ids stored. -/
def applyId (ids : Bytes → Option Bytes) : SessionCommand → Bytes → Option Bytes
  | .set userId session => Function.update ids userId (some session.id)
  | .del userId => Function.update ids userId none
  | _ => ids

/-- The ids stored. -/
def idsOf (db : SessionDB) (userId : Bytes) : Option Bytes := (db userId).map fun e => e.session.id

/-- The ids that will be stored once the commands issued are executed. -/
def settledIds : Bytes → Option Bytes := s.redisSession.settle applyId (idsOf s.sessions)

/-- The id was drawn for the user and put into the user's cookie. -/
def Given (userId id : Bytes) : Prop :=
  (id, userId) ∈ s.drawn ∧ ∃ p ∈ s.responses, SetsCookie p userId id

/-- The ids drawn are the first ones; those stored or about to be stored were given to their users,
and those that will be stored last are in the users' last cookies. -/
structure Invariant : Prop where
  drawn_eq : s.drawn.map Prod.fst = (List.range s.drawn.length).map uuid
  given_of_sessions : ∀ u id, idsOf s.sessions u = some id → s.Given u id
  given_of_commands : ∀ u t, .set u t ∈ s.redisSession.commands → s.Given u t.id
  settled : ∀ u id, s.settledIds u = some id → ∃ p, s.lastCookie u = some p ∧ SetsCookie p u id

variable {uuid s} {s' : WebServer}

theorem invariant_start : Invariant uuid start where
  drawn_eq := rfl
  given_of_sessions _ _ h := by cases h
  given_of_commands _ _ h := by cases h
  settled _ _ h := by cases h

theorem lastCookie_respond_of_nil {p : Response} (hp : p.setCookie = []) (u : Bytes) :
    (s.respond p).lastCookie u = s.lastCookie u := by
  rw [lastCookie, respond, List.find?_cons_of_neg (by simp [hp])]
  rfl

theorem lastCookie_respond_of_ne {p : Response} {u : Bytes} (hp : p.userId ≠ u) :
    (s.respond p).lastCookie u = s.lastCookie u := by
  rw [lastCookie, respond, List.find?_cons_of_neg (by simp [hp])]
  rfl

theorem lastCookie_respond_self {p : Response} (hp : p.setCookie ≠ []) :
    (s.respond p).lastCookie p.userId = some p := by
  rw [lastCookie, respond, List.find?_cons_of_pos (by simp [hp])]

theorem Given.respond {u id : Bytes} (h : s.Given u id) (p : Response) : (s.respond p).Given u id := by
  obtain ⟨hdrawn, p', hp', hset⟩ := h
  exact ⟨hdrawn, p', List.mem_cons_of_mem _ hp', hset⟩

/-- The id of one draw belongs to one user. -/
theorem Invariant.user_unique (hs : Invariant uuid s) (huuid : Function.Injective uuid)
    {id u v : Bytes} (hu : (id, u) ∈ s.drawn) (hv : (id, v) ∈ s.drawn) : u = v := by
  have hnodup : (s.drawn.map Prod.fst).Nodup := by
    rw [hs.drawn_eq]
    exact List.nodup_range.map huuid
  exact congrArg Prod.snd (List.inj_on_of_nodup_map hnodup hu hv rfl)

/-- A redirection sets no cookie. -/
theorem Invariant.respond_of_nil (hs : Invariant uuid s) {p : Response} (hp : p.setCookie = []) :
    Invariant uuid (s.respond p) where
  drawn_eq := hs.drawn_eq
  given_of_sessions u id h := (hs.given_of_sessions u id h).respond p
  given_of_commands u t h := (hs.given_of_commands u t h).respond p
  settled u id h := by
    rw [lastCookie_respond_of_nil hp]
    exact hs.settled u id h

/-- What does not touch sessions keeps the invariant. -/
theorem Invariant.congr (hs : Invariant uuid s) (hsessions : s'.sessions = s.sessions)
    (hcommands : s'.redisSession.commands = s.redisSession.commands) (hdrawn : s'.drawn = s.drawn)
    (hresponses : s'.responses = s.responses) : Invariant uuid s' := by
  have hgiven : ∀ u id, s.Given u id → s'.Given u id := by
    rintro u id ⟨hd, hp⟩
    exact ⟨hdrawn ▸ hd, hresponses ▸ hp⟩
  constructor
  case drawn_eq => exact hdrawn ▸ hs.drawn_eq
  case given_of_sessions =>
    intro u id h
    rw [hsessions] at h
    exact hgiven u id (hs.given_of_sessions u id h)
  case given_of_commands =>
    intro u t h
    rw [hcommands] at h
    exact hgiven u t.id (hs.given_of_commands u t h)
  case settled =>
    intro u id h
    rw [settledIds, Pipeline.settle_congr hcommands, hsessions] at h
    rw [lastCookie, hresponses]
    exact hs.settled u id h

/-- Drawing an id. -/
theorem Invariant.newSession (hs : Invariant uuid s) (userId : Bytes) :
    Invariant uuid (s.newSession uuid userId) := by
  have hgiven : ∀ u id, s.Given u id → (s.newSession uuid userId).Given u id := by
    rintro u id ⟨hd, hp⟩
    exact ⟨List.mem_append_left _ hd, hp⟩
  constructor
  case drawn_eq =>
    change (s.drawn ++ [_]).map Prod.fst = (List.range (s.drawn ++ [_]).length).map uuid
    rw [List.map_append, hs.drawn_eq, List.length_append, List.length_singleton, List.range_succ,
      List.map_append]
    rfl
  case given_of_sessions => exact fun u id h => hgiven u id (hs.given_of_sessions u id h)
  case given_of_commands => exact fun u t h => hgiven u t.id (hs.given_of_commands u t h)
  case settled => exact hs.settled

/-- **Storing the session record**, with a response that puts its id into the cookie. -/
theorem Invariant.saveSession (hs : Invariant uuid s) {p : Response} {seconds : ℕ}
    (hp : SetsCookie p p.userId s.sessionObj.id) (hdrawn : (s.sessionObj.id, p.userId) ∈ s.drawn) :
    Invariant uuid ((s.saveSession p.userId seconds).respond p) := by
  constructor
  case drawn_eq => exact hs.drawn_eq
  case given_of_sessions => exact fun u id h => (hs.given_of_sessions u id h).respond p
  case given_of_commands =>
    intro u t h
    rcases List.mem_append.1 h with h | h
    · exact (hs.given_of_commands u t h).respond p
    · rcases List.mem_pair.1 h with h | h
      · obtain ⟨rfl, rfl⟩ := SessionCommand.set.inj h
        exact ⟨hdrawn, p, List.mem_cons_self, hp⟩
      · cases h
  case settled =>
    intro u id h
    have hsettled : ((s.saveSession p.userId seconds).respond p).settledIds =
        Function.update s.settledIds p.userId (some s.sessionObj.id) := Pipeline.settle_issue _
    rw [hsettled] at h
    by_cases hu : u = p.userId
    · subst hu
      rw [Function.update_self] at h
      obtain rfl := Option.some.inj h
      exact ⟨p, lastCookie_respond_self (List.ne_nil_of_mem hp.2), hp⟩
    · rw [Function.update_of_ne hu] at h
      rw [lastCookie_respond_of_ne (Ne.symm hu)]
      exact hs.settled u id h

theorem Invariant.beginSession (hs : Invariant uuid s) (userId : Bytes) :
    Invariant uuid (s.beginSession uuid userId) := by
  have hdrawn : ((s.newSession uuid userId).sessionObj.id, userId) ∈
      (s.newSession uuid userId).drawn := List.mem_append_right _ List.mem_cons_self
  exact (hs.newSession userId).saveSession (p := ⟨userId, _, _⟩) ⟨rfl, List.mem_cons_self⟩ hdrawn

/-- A deleted session will not be stored. -/
theorem Invariant.deleteSession (hs : Invariant uuid s) (cookies : Cookies) (location : Bytes) :
    Invariant uuid (s.deleteSession cookies location) := by
  unfold WebServer.deleteSession
  split
  · constructor
    case drawn_eq => exact hs.drawn_eq
    case given_of_sessions => exact fun u id h => (hs.given_of_sessions u id h).respond _
    case given_of_commands =>
      intro u t h
      rcases List.mem_append.1 h with h | h
      · exact (hs.given_of_commands u t h).respond _
      · cases List.mem_singleton.1 h
    case settled =>
      intro u id h
      rw [settledIds] at h
      change (s.redisSession.issue _).settle applyId (idsOf s.sessions) u = some id at h
      rw [Pipeline.settle_issue] at h
      by_cases hu : u = cookies.userId
      · subst hu
        rw [List.foldl_cons, List.foldl_nil, applyId, Function.update_self] at h
        cases h
      · rw [List.foldl_cons, List.foldl_nil, applyId, Function.update_of_ne hu] at h
        rw [lastCookie_respond_of_ne (Ne.symm hu)]
        exact hs.settled u id h
  · exact hs.respond_of_nil rfl

/-- Issuing a command that changes no id. -/
theorem Invariant.issue (hs : Invariant uuid s) {c : SessionCommand} (hset : ∀ u t, c ≠ .set u t)
    (hc : ∀ ids, applyId ids c = ids) :
    Invariant uuid { s with redisSession := s.redisSession.issue [c] } where
  drawn_eq := hs.drawn_eq
  given_of_sessions := hs.given_of_sessions
  given_of_commands u t h := by
    rcases List.mem_append.1 h with h | h
    · exact hs.given_of_commands u t h
    · exact absurd (List.mem_singleton.1 h).symm (hset u t)
  settled u id h := by
    have hsettled : settledIds { s with redisSession := s.redisSession.issue [c] } = s.settledIds :=
      (Pipeline.settle_issue _).trans (hc _)
    rw [hsettled] at h
    exact hs.settled u id h

theorem idsOf_update (db : SessionDB) (userId : Bytes) (e : Option Entry) :
    idsOf (Function.update db userId e) =
      Function.update (idsOf db) userId (e.map fun e => e.session.id) := Function.comp_update ..

/-- What executing a command makes of the ids stored. -/
theorem idsOf_exec (now : ℕ) (db : SessionDB) (c : SessionCommand) :
    idsOf (db.exec now c).1 = applyId (idsOf db) c := by
  cases c with
  | get cookies => rfl
  | ttl cookies => rfl
  | set userId session => exact idsOf_update db userId (some ⟨session, none⟩)
  | del userId => exact idsOf_update db userId none
  | expire userId seconds =>
    cases hlive : db.live now userId with
    | none => simp only [SessionDB.exec, hlive, applyId]
    | some e =>
      obtain ⟨hdb, -⟩ := Option.filter_eq_some_iff.1 hlive
      have hid : idsOf db userId = some e.session.id := by rw [idsOf, hdb]; rfl
      simp only [SessionDB.exec, hlive, applyId]
      rw [idsOf_update, Option.map_some, ← hid, Function.update_eq_self]

/-- Executing a command. -/
theorem Invariant.sessionRun (hs : Invariant uuid s) {db : SessionDB}
    {p : Pipeline SessionCommand SessionReply}
    (h : s.redisSession.run (SessionDB.exec · s.now) s.sessions = some (db, p)) :
    Invariant uuid { s with sessions := db, redisSession := p } := by
  obtain ⟨c, hc, rfl, -⟩ := Pipeline.run_eq_some h
  constructor
  case drawn_eq => exact hs.drawn_eq
  case given_of_sessions =>
    intro u id hu
    rw [idsOf_exec] at hu
    have hmem : c ∈ s.redisSession.commands := hc ▸ List.mem_cons_self
    cases c with
    | set userId session =>
      by_cases hne : u = userId
      · subst hne
        rw [applyId, Function.update_self] at hu
        obtain rfl := Option.some.inj hu
        exact hs.given_of_commands u session hmem
      · rw [applyId, Function.update_of_ne hne] at hu
        exact hs.given_of_sessions u id hu
    | del userId =>
      by_cases hne : u = userId
      · subst hne
        rw [applyId, Function.update_self] at hu
        cases hu
      · rw [applyId, Function.update_of_ne hne] at hu
        exact hs.given_of_sessions u id hu
    | get cookies => exact hs.given_of_sessions u id hu
    | ttl cookies => exact hs.given_of_sessions u id hu
    | expire userId seconds => exact hs.given_of_sessions u id hu
  case given_of_commands =>
    exact fun u t ht => hs.given_of_commands u t (hc ▸ List.mem_cons_of_mem _ ht)
  case settled =>
    intro u id hu
    have hsettled : p.settle applyId (idsOf (s.sessions.exec s.now c).1) = s.settledIds :=
      Pipeline.settle_run (fun db c => idsOf_exec s.now db c) h
    rw [settledIds, hsettled] at hu
    exact hs.settled u id hu

/-! ## Runs -/

/-- The callbacks of `redisDB` keep the invariant. -/
theorem Invariant.userCallback (hs : Invariant uuid s) (reply : UserReply) :
    Invariant uuid (s.userCallback uuid reply) := by
  unfold WebServer.userCallback
  split
  · split
    · exact hs.beginSession _
    · exact hs.respond_of_nil rfl
  · exact hs.respond_of_nil rfl
  · exact hs.congr rfl rfl rfl rfl
  · exact hs.respond_of_nil rfl
  · exact hs
  · exact hs.respond_of_nil rfl
  · exact hs
  · exact hs.beginSession _

/-- So do those of `redisSession`, where an update stores an id drawn for its user. -/
theorem Invariant.sessionCallback (hs : Invariant uuid s) {reply : SessionReply}
    (hok : ∀ cookies n, reply = .ttl cookies n → 10 ≤ n → (s.sessionObj.id, cookies.userId) ∈ s.drawn) :
    Invariant uuid (s.sessionCallback uuid reply) := by
  unfold WebServer.sessionCallback
  split
  · split
    · split
      · exact (hs.newSession _).issue (fun _ _ h => by cases h) fun _ => rfl
      · exact hs.respond_of_nil rfl
    · exact hs.respond_of_nil rfl
  · exact hs.respond_of_nil rfl
  · next cookies n =>
    split
    · next hn =>
      exact hs.saveSession (p := ⟨cookies.userId, _, _⟩)
        ⟨rfl, List.mem_cons_of_mem _ List.mem_cons_self⟩ (hok cookies n rfl hn)
    · exact hs.deleteSession _ _

/-- **What a step preserves.** -/
theorem Invariant.step (hs : Invariant uuid s) {e : Event} (hok : s.StoresOwn e)
    (h : s.step uuid e = some s') : Invariant uuid s' := by
  cases e with
  | tick ms =>
    obtain rfl := Option.some.inj h
    exact hs.congr rfl rfl rfl rfl
  | postLogin userId password =>
    obtain rfl := Option.some.inj h
    unfold WebServer.postLogin
    split
    · exact hs.congr rfl rfl rfl rfl
    · exact hs.respond_of_nil rfl
  | postRegister userId password email =>
    obtain rfl := Option.some.inj h
    unfold WebServer.postRegister
    split
    · exact hs.congr rfl rfl rfl rfl
    · exact hs.respond_of_nil rfl
  | page cookies =>
    obtain rfl := Option.some.inj h
    unfold WebServer.checkSession
    split
    · exact hs.issue (fun _ _ h => by cases h) fun _ => rfl
    · exact hs.respond_of_nil rfl
  | logout cookies =>
    obtain rfl := Option.some.inj h
    exact hs.deleteSession _ _
  | userRun =>
    obtain ⟨⟨keys, p⟩, -, rfl⟩ := Option.map_eq_some_iff.1 h
    exact hs.congr rfl rfl rfl rfl
  | userCallback =>
    obtain ⟨⟨reply, p⟩, -, rfl⟩ := Option.map_eq_some_iff.1 h
    have hs' : Invariant uuid { s with redisDB := p } := hs.congr rfl rfl rfl rfl
    exact hs'.userCallback reply
  | sessionRun =>
    obtain ⟨⟨db, p⟩, hrun, rfl⟩ := Option.map_eq_some_iff.1 h
    exact hs.sessionRun hrun
  | sessionCallback =>
    obtain ⟨⟨reply, p⟩, hnext, rfl⟩ := Option.map_eq_some_iff.1 h
    have hs' : Invariant uuid { s with redisSession := p } :=
      hs.congr rfl (Pipeline.next?_eq_some hnext).2 rfl rfl
    refine hs'.sessionCallback ?_
    rintro cookies n rfl hn
    simp only [StoresOwn, hnext] at hok
    exact hok hn

/-- Nothing is stored that is not in the database. -/
theorem idsOf_of_stored {u : Bytes} {t : Session} (h : s.stored u = some t) :
    idsOf s.sessions u = some t.id := by
  obtain ⟨e, he, rfl⟩ := Option.map_eq_some_iff.1 h
  obtain ⟨hdb, -⟩ := Option.filter_eq_some_iff.1 he
  rw [idsOf, hdb]
  rfl

/-- Commands that do not change a user's session leave the user's id. -/
theorem foldl_applyId {cs : List SessionCommand} {u : Bytes}
    (hcs : ¬∃ c ∈ cs, c = .del u ∨ ∃ t, c = .set u t) (ids : Bytes → Option Bytes) :
    cs.foldl applyId ids u = ids u := by
  induction cs generalizing ids with
  | nil => rfl
  | cons c cs ih =>
    rw [List.foldl_cons, ih fun ⟨c', hc', h⟩ => hcs ⟨c', List.mem_cons_of_mem _ hc', h⟩]
    have hc : ¬(c = .del u ∨ ∃ t, c = .set u t) := fun h => hcs ⟨c, List.mem_cons_self, h⟩
    cases c with
    | set v t =>
      have hv : u ≠ v := fun h => hc (.inr ⟨t, h ▸ rfl⟩)
      exact Function.update_of_ne hv ..
    | del v =>
      have hv : u ≠ v := fun h => hc (.inl (h ▸ rfl))
      exact Function.update_of_ne hv ..
    | get cookies => rfl
    | ttl cookies => rfl
    | expire userId seconds => rfl

theorem Invariant.isolated (hs : Invariant uuid s) (huuid : Function.Injective uuid) :
    s.Isolated where
  ids_ne u v t t' hne ht ht' hid := by
    have hu := (hs.given_of_sessions u t.id (idsOf_of_stored ht)).1
    have hv := (hs.given_of_sessions v t'.id (idsOf_of_stored ht')).1
    rw [hid] at hu
    exact hne (hs.user_unique huuid hu hv)
  own u t ht := (hs.given_of_sessions u t.id (idsOf_of_stored ht)).2
  last u t ht hsettled := by
    refine hs.settled u t.id ?_
    rw [settledIds, Pipeline.settle, foldl_applyId hsettled]
    exact idsOf_of_stored ht

/-- **Web sessions are isolated.** In every run of requests, commands and callbacks in which each update
that stores the session record finds an id in it that was drawn for its user, the sessions stored for
different users differ and each is the one in its user's cookie. -/
theorem isolated_of_run (huuid : Function.Injective uuid) {es : List Event}
    (hrun : Run (step uuid) StoresOwn start es s) : s.Isolated :=
  (hrun.invariant (fun _ _ _ hs hok hstep => hs.step hok hstep) invariant_start).isolated huuid

/-! ## Two users -/

/-- Ids for a run. -/
def letters (n : ℕ) : Bytes := List.replicate (n + 1) 97

theorem letters_injective : Function.Injective letters := by
  intro m n h
  simpa [letters] using congrArg List.length h

/-- A user registers. -/
def registers (userId : Bytes) : List Event :=
  [.postRegister userId (ascii "p") (ascii "e"), .userRun, .userCallback, .userRun, .userCallback,
    .sessionRun, .sessionRun]

/-- One user registers and comes back after more than half an hour. -/
def updateAlone : List Event :=
  registers (ascii "u") ++
    [.tick (MAXAGE + 1), .page ⟨ascii "u", letters 0⟩, .sessionRun, .sessionCallback, .sessionRun,
      .sessionCallback, .sessionRun, .sessionRun]

/-- Two users register and come back at the same time. -/
def updateTogether : List Event :=
  registers (ascii "u") ++ registers (ascii "v") ++
    [.tick (MAXAGE + 1), .page ⟨ascii "u", letters 0⟩, .page ⟨ascii "v", letters 1⟩] ++
    [.sessionRun, .sessionRun, .sessionCallback, .sessionCallback, .sessionRun, .sessionRun,
      .sessionCallback, .sessionCallback, .sessionRun, .sessionRun, .sessionRun, .sessionRun]

theorem isolated_updateAlone : ∃ s, Run (step letters) StoresOwn start updateAlone s ∧ s.Isolated := by
  have hsome : (exec (step letters) StoresOwn start updateAlone).isSome = true := by decide +kernel
  obtain ⟨s, hexec⟩ := Option.isSome_iff_exists.1 hsome
  exact ⟨s, .of_exec hexec, isolated_of_run letters_injective (.of_exec hexec)⟩

/-- **One id for two users**: both updates store the id that the second one drew. -/
theorem shared_session : Function.Injective letters ∧
    ∃ s, Run (step letters) (fun _ _ => True) start updateTogether s ∧ ¬s.Isolated := by
  have hany : (exec (step letters) (fun _ _ => True) start updateTogether).any (fun s =>
      ((s.stored (ascii "u")).map Session.id = some (letters 3) ∧
        (s.stored (ascii "v")).map Session.id = some (letters 3) : Bool)) = true := by decide +kernel
  obtain ⟨s, hrun, hu, hv⟩ := Run.exists_of_exec hany
  obtain ⟨t, ht, hid⟩ := Option.map_eq_some_iff.1 hu
  obtain ⟨t', ht', hid'⟩ := Option.map_eq_some_iff.1 hv
  refine ⟨letters_injective, s, hrun, fun h => ?_⟩
  exact h.ids_ne _ _ t t' (by decide) ht ht' (hid.trans hid'.symm)

end WebServer

end MutexIM.Web
