import MutexIM.Web.Sessions

/-!
# Renewal of web sessions

The chat page sends several requests at once, and all carry the same cookies. The first one that finds
the time of the session over renews its id, and the others are still to be checked against the id that
Redis holds.

* `Requests.step`: the server, with a history of the requests that carry given cookies.
* `sessionCallback_adds`: a callback issues the next command of its request or answers it.
* `clean_step`: a step leaves every request well exactly if it is timely.
* `continued_iff_of_run`: in a run of any requests and callbacks, all requests with the cookies go on
  exactly if each finds, behind the commands issued before it, the id that it carries.
* `not_continued_lateRequest`: one request renews the id, and one that arrives before the new id is
  stored is sent to the login page.
-/

namespace MutexIM.Web

open Bytes

deriving instance DecidableEq for Cookies

namespace WebServer

/-! ## What a step adds -/

/-- The cookies of the request that waits for a command. -/
def commandCookies : SessionCommand → Option Cookies
  | .get cookies => some cookies
  | .ttl cookies => some cookies
  | _ => none

/-- The cookies of the request that waits for an answer. -/
def replyCookies : SessionReply → Cookies
  | .get cookies _ => cookies
  | .ttl cookies _ => cookies

/-- The answer lets its request go on. -/
def Fine : SessionReply → Prop
  | .get cookies reply => reply.map Session.id = some cookies.sessionId
  | .ttl _ reply => 10 ≤ reply

/-- A callback issues the one command that its request waits for next, or it answers the request, and
sends it away exactly if the answer of Redis is not fine. -/
def Handles (reply : SessionReply) (cs : List SessionCommand) (ps : List Response) : Prop :=
  cs = [.ttl (replyCookies reply)] ∧ ps = [] ∧ Fine reply ∨
    (∀ c ∈ cs, commandCookies c = none) ∧ ∃ p, ps = [p] ∧ (p.location = none ↔ Fine reply)

/-- The server issues the commands and responds. -/
structure Adds (s s' : WebServer) (cs : List SessionCommand) (ps : List Response) : Prop where
  sessions : s'.sessions = s.sessions
  redisSession : s'.redisSession = s.redisSession.issue cs
  responses : s'.responses = ps ++ s.responses

variable {uuid : ℕ → Bytes} {s : WebServer}

theorem adds_nil {s' : WebServer} (hsessions : s'.sessions = s.sessions)
    (hredis : s'.redisSession = s.redisSession) (hresponses : s'.responses = s.responses) :
    Adds s s' [] [] :=
  ⟨hsessions, hredis.trans (Pipeline.issue_nil _).symm, hresponses⟩

theorem adds_respond (p : Response) : Adds s (s.respond p) [] [p] :=
  ⟨rfl, (Pipeline.issue_nil _).symm, rfl⟩

/-- A request with both cookies is looked up. -/
theorem adds_checkSession {cookies : Cookies} (h : cookies.userId ≠ [] ∧ cookies.sessionId ≠ []) :
    Adds s (s.checkSession cookies) [.get cookies] [] := by
  rw [checkSession, if_pos h]
  exact ⟨rfl, rfl, rfl⟩

/-- What a page issues, its request waits for. -/
theorem checkSession_adds (cookies : Cookies) :
    ∃ cs ps, Adds s (s.checkSession cookies) cs ps ∧ ∀ c ∈ cs, commandCookies c = some cookies := by
  by_cases h : cookies.userId ≠ [] ∧ cookies.sessionId ≠ []
  · refine ⟨_, _, adds_checkSession h, fun c hc => ?_⟩
    rw [List.mem_singleton.1 hc]
    rfl
  · rw [checkSession, if_neg h]
    exact ⟨[], _, adds_respond _, List.forall_mem_nil _⟩

theorem adds_postLogin (userId password : Bytes) :
    ∃ ps, Adds s (s.postLogin userId password) [] ps := by
  unfold postLogin
  split
  · exact ⟨[], adds_nil rfl rfl rfl⟩
  · exact ⟨_, adds_respond _⟩

theorem adds_postRegister (userId password email : Bytes) :
    ∃ ps, Adds s (s.postRegister userId password email) [] ps := by
  unfold postRegister
  split
  · exact ⟨[], adds_nil rfl rfl rfl⟩
  · exact ⟨_, adds_respond _⟩

/-- No request waits for what a deletion issues, and it sends its request away. -/
theorem adds_deleteSession (cookies : Cookies) (location : Bytes) :
    ∃ cs p, Adds s (s.deleteSession cookies location) cs [p] ∧ (∀ c ∈ cs, commandCookies c = none) ∧
      p.location ≠ none := by
  unfold deleteSession
  split
  · refine ⟨[.del cookies.userId], _, ⟨rfl, rfl, rfl⟩, fun c hc => ?_, Option.some_ne_none _⟩
    rw [List.mem_singleton.1 hc]
    rfl
  · exact ⟨[], _, adds_respond _, List.forall_mem_nil _, Option.some_ne_none _⟩

theorem adds_beginSession (userId : Bytes) :
    ∃ cs ps, Adds s (s.beginSession uuid userId) cs ps ∧ ∀ c ∈ cs, commandCookies c = none := by
  refine ⟨_, [_], ⟨rfl, rfl, rfl⟩, fun c hc => ?_⟩
  rcases List.mem_pair.1 hc with rfl | rfl <;> rfl

theorem adds_userCallback (reply : UserReply) :
    ∃ cs ps, Adds s (s.userCallback uuid reply) cs ps ∧ ∀ c ∈ cs, commandCookies c = none := by
  unfold userCallback
  split
  · split
    · exact adds_beginSession _
    · exact ⟨[], _, adds_respond _, List.forall_mem_nil _⟩
  · exact ⟨[], _, adds_respond _, List.forall_mem_nil _⟩
  · exact ⟨[], [], adds_nil rfl rfl rfl, List.forall_mem_nil _⟩
  · exact ⟨[], _, adds_respond _, List.forall_mem_nil _⟩
  · exact ⟨[], [], adds_nil rfl rfl rfl, List.forall_mem_nil _⟩
  · exact ⟨[], _, adds_respond _, List.forall_mem_nil _⟩
  · exact ⟨[], [], adds_nil rfl rfl rfl, List.forall_mem_nil _⟩
  · exact adds_beginSession _

/-- What the events do that are not about pages. -/
theorem step_adds {e : Event} {s' : WebServer} (h : s.step uuid e = some s')
    (hpage : ∀ cookies, e ≠ .page cookies) (hrun : e ≠ .sessionRun)
    (hcallback : e ≠ .sessionCallback) :
    ∃ cs ps, Adds s s' cs ps ∧ ∀ c ∈ cs, commandCookies c = none := by
  cases e with
  | tick ms =>
    obtain rfl := Option.some.inj h
    exact ⟨[], [], adds_nil rfl rfl rfl, List.forall_mem_nil _⟩
  | postLogin userId password =>
    obtain rfl := Option.some.inj h
    obtain ⟨ps, hadds⟩ := adds_postLogin (s := s) userId password
    exact ⟨[], ps, hadds, List.forall_mem_nil _⟩
  | postRegister userId password email =>
    obtain rfl := Option.some.inj h
    obtain ⟨ps, hadds⟩ := adds_postRegister (s := s) userId password email
    exact ⟨[], ps, hadds, List.forall_mem_nil _⟩
  | page cookies => exact absurd rfl (hpage cookies)
  | logout cookies =>
    obtain rfl := Option.some.inj h
    obtain ⟨cs, p, hadds, hcs, -⟩ := adds_deleteSession (s := s) cookies (ascii "/")
    exact ⟨cs, [p], hadds, hcs⟩
  | userRun =>
    obtain ⟨⟨keys, p⟩, -, rfl⟩ := Option.map_eq_some_iff.1 h
    exact ⟨[], [], adds_nil rfl rfl rfl, List.forall_mem_nil _⟩
  | userCallback =>
    obtain ⟨⟨reply, p⟩, -, rfl⟩ := Option.map_eq_some_iff.1 h
    obtain ⟨cs, ps, hadds, hcs⟩ : ∃ cs ps, Adds { s with redisDB := p } _ cs ps ∧ _ :=
      adds_userCallback reply
    exact ⟨cs, ps, ⟨hadds.sessions, hadds.redisSession, hadds.responses⟩, hcs⟩
  | sessionRun => exact absurd rfl hrun
  | sessionCallback => exact absurd rfl hcallback

/-- **What a callback does for its request.** -/
theorem sessionCallback_adds (reply : SessionReply) :
    ∃ cs ps, Adds s (s.sessionCallback uuid reply) cs ps ∧ Handles reply cs ps := by
  unfold sessionCallback
  split
  · next cookies obj =>
    split
    · next hid =>
      have hfine : Fine (.get cookies (some obj)) := congrArg some hid
      split
      · exact ⟨_, _, ⟨rfl, rfl, rfl⟩, .inl ⟨rfl, rfl, hfine⟩⟩
      · exact ⟨[], _, adds_respond _, .inr ⟨List.forall_mem_nil _, _, rfl, iff_of_true rfl hfine⟩⟩
    · next hid =>
      refine ⟨[], _, adds_respond _, .inr ⟨List.forall_mem_nil _, _, rfl, iff_of_false (Option.some_ne_none _) ?_⟩⟩
      exact fun h => hid (Option.some.inj h)
  · refine ⟨[], _, adds_respond _, .inr ⟨List.forall_mem_nil _, _, rfl, iff_of_false (Option.some_ne_none _) ?_⟩⟩
    exact Option.some_ne_none _ ∘ Eq.symm
  · next cookies n =>
    split
    · next hn =>
      refine ⟨_, _, ⟨rfl, rfl, rfl⟩, .inr ⟨fun c hc => ?_, _, rfl, iff_of_true rfl hn⟩⟩
      rcases List.mem_pair.1 hc with rfl | rfl <;> rfl
    · next hn =>
      obtain ⟨cs, p, hadds, hcs, hp⟩ := adds_deleteSession cookies (ascii "/login?error=noLogin")
      exact ⟨cs, [p], hadds, .inr ⟨hcs, p, rfl, iff_of_false hp hn⟩⟩

/-- The request that waits for a command waits for its answer. -/
theorem replyCookies_exec (db : SessionDB) (now : ℕ) (c : SessionCommand) :
    (db.exec now c).2.map replyCookies = commandCookies c := by
  cases c with
  | get cookies => rfl
  | ttl cookies => rfl
  | set userId session => rfl
  | del userId => rfl
  | expire userId seconds =>
    simp only [SessionDB.exec]
    split <;> rfl

end WebServer

/-! ## Requests with the same cookies -/

open WebServer

/-- The web server. As history, how many requests with the cookies have arrived, and what those that are
done were answered with. -/
structure Requests where
  server : WebServer
  asked : ℕ
  answered : List Response

namespace Requests

variable (uuid : ℕ → Bytes) (cookies : Cookies) (s : Requests)

/-- The request that arrives has the cookies. -/
def Arrives : Event → Prop
  | .page c => c = cookies
  | _ => False

/-- It arrives, or it has waited for the answer that arrives. -/
def Concerns : Event → Prop
  | .page c => c = cookies
  | .sessionCallback => s.server.redisSession.next?.map (fun r => replyCookies r.1) = some cookies
  | _ => False

instance (e : Event) : Decidable (Arrives cookies e) := by
  unfold Arrives
  split <;> infer_instance

instance (e : Event) : Decidable (s.Concerns cookies e) := by
  unfold Concerns
  split <;> infer_instance

/-- A step of the server. The responses are put in front of those before, so that the new ones come
first. -/
def step (e : Event) : Option Requests :=
  (s.server.step uuid e).map fun server =>
    { server
      asked := if Arrives cookies e then s.asked + 1 else s.asked
      answered := if s.Concerns cookies e then
          server.responses.take (server.responses.length - s.server.responses.length) ++ s.answered
        else s.answered }

/-- A request arrives when the id it carries is the one that will be stored once the commands issued are
executed. Its session is still stored when it is looked up, and has ten seconds left when an update asks
for its time to live. -/
def Timely : Event → Prop
  | .page c => c = cookies → s.server.settledIds c.userId = some c.sessionId
  | .sessionRun =>
    match s.server.redisSession.commands with
    | .get c :: _ => c = cookies → (s.server.sessions.live s.server.now c.userId).isSome
    | .ttl c :: _ => c = cookies → 10 ≤ s.server.sessions.ttl s.server.now c.userId
    | _ => True
  | _ => True

instance (e : Event) : Decidable (s.Timely cookies e) := by
  unfold Timely
  split
  · infer_instance
  · split <;> infer_instance
  · infer_instance

/-- The requests that have arrived and are not done. -/
def outstanding : ℕ :=
  s.server.redisSession.commands.countP (fun c => commandCookies c = some cookies) +
    s.server.redisSession.replies.countP (fun r => replyCookies r = cookies)

/-- No request has arrived. -/
structure Fresh : Prop where
  outstanding : s.outstanding cookies = 0
  asked : s.asked = 0
  answered : s.answered = []

/-- Every request has been answered and went on to its page. -/
def Continued : Prop := s.answered.length = s.asked ∧ ∀ p ∈ s.answered, p.location = none

/-! ## Steps -/

/-- The client takes the answers, issues the commands, and answers requests that have the cookies. -/
structure Takes (s s' : Requests) (rs : List SessionReply) (cs : List SessionCommand)
    (ps : List Response) : Prop where
  sessions : s'.server.sessions = s.server.sessions
  commands : s'.server.redisSession.commands = s.server.redisSession.commands ++ cs
  replies : s.server.redisSession.replies = rs ++ s'.server.redisSession.replies
  answered : s'.answered = ps ++ s.answered

variable {uuid cookies s} {s' : Requests} {e : Event}

theorem take_responses {server : WebServer} {ps : List Response}
    (h : server.responses = ps ++ s.server.responses) :
    server.responses.take (server.responses.length - s.server.responses.length) = ps := by
  rw [h, List.length_append, Nat.add_sub_cancel, List.take_left]

theorem takes_of_adds {server₀ server : WebServer} {rs : List SessionReply} {cs : List SessionCommand}
    {ps qs answered : List Response} {asked : ℕ} (hadds : Adds server₀ server cs ps)
    (hsessions : server₀.sessions = s.server.sessions)
    (hcommands : server₀.redisSession.commands = s.server.redisSession.commands)
    (hreplies : s.server.redisSession.replies = rs ++ server₀.redisSession.replies)
    (hanswered : answered = qs ++ s.answered) : Takes s ⟨server, asked, answered⟩ rs cs qs where
  sessions := hadds.sessions.trans hsessions
  commands := by rw [← hcommands, hadds.redisSession]; rfl
  replies := by rw [hreplies, hadds.redisSession]; rfl
  answered := hanswered

/-- **What a step does**: nothing for requests with the cookies, or one arrives, or the callback of one
runs, or Redis executes a command. -/
theorem step_cases (hcookies : cookies.userId ≠ [] ∧ cookies.sessionId ≠ [])
    (h : s.step uuid cookies e = some s') :
    (∃ rs cs, Takes s s' rs cs [] ∧ (∀ r ∈ rs, replyCookies r ≠ cookies) ∧
      (∀ c ∈ cs, commandCookies c ≠ some cookies) ∧ s'.asked = s.asked ∧ s.Timely cookies e) ∨
    (e = .page cookies ∧ Takes s s' [] [.get cookies] [] ∧ s'.asked = s.asked + 1) ∨
    (∃ r cs ps, Takes s s' [r] cs ps ∧ replyCookies r = cookies ∧ Handles r cs ps ∧
      s'.asked = s.asked ∧ s.Timely cookies e) ∨
    (e = .sessionRun ∧ ∃ c,
      s.server.redisSession.commands = c :: s'.server.redisSession.commands ∧
      s'.server.sessions = (s.server.sessions.exec s.server.now c).1 ∧
      s'.server.redisSession.replies = s.server.redisSession.replies ++
        (s.server.sessions.exec s.server.now c).2.toList ∧
      s'.asked = s.asked ∧ s'.answered = s.answered) := by
  obtain ⟨server, hserver, rfl⟩ := Option.map_eq_some_iff.1 h
  cases e with
  | page c =>
    obtain rfl := Option.some.inj hserver
    by_cases hc : c = cookies
    · subst hc
      have hadds := adds_checkSession (s := s.server) hcookies
      refine .inr (.inl ⟨rfl, takes_of_adds hadds rfl rfl rfl ?_, if_pos rfl⟩)
      rw [take_responses hadds.responses]
      exact ite_self _
    · obtain ⟨cs, ps, hadds, hcs⟩ := checkSession_adds (s := s.server) c
      refine .inl ⟨[], cs, takes_of_adds hadds rfl rfl rfl (if_neg hc), List.forall_mem_nil _,
        fun c' hc' h => ?_, if_neg hc, fun h => absurd h hc⟩
      exact hc (Option.some.inj ((hcs c' hc').symm.trans h))
  | sessionRun =>
    obtain ⟨⟨db, p⟩, hrun, rfl⟩ := Option.map_eq_some_iff.1 hserver
    obtain ⟨c, hcommands, hdb, hreplies⟩ := Pipeline.run_eq_some hrun
    exact .inr (.inr (.inr ⟨rfl, c, hcommands, hdb, hreplies, rfl, rfl⟩))
  | sessionCallback =>
    obtain ⟨⟨r, p⟩, hnext, rfl⟩ := Option.map_eq_some_iff.1 hserver
    obtain ⟨hreplies, hcommands⟩ := Pipeline.next?_eq_some hnext
    obtain ⟨cs, ps, hadds, hhandles⟩ : ∃ cs ps, Adds { s.server with redisSession := p } _ cs ps ∧ _ :=
      sessionCallback_adds r
    have hconcerns : s.Concerns cookies .sessionCallback ↔ replyCookies r = cookies := by
      rw [Concerns, hnext]
      exact Option.some_inj
    by_cases hr : replyCookies r = cookies
    · refine .inr (.inr (.inl ⟨r, cs, ps, takes_of_adds hadds rfl hcommands hreplies ?_, hr, hhandles,
        rfl, trivial⟩))
      rw [if_pos (hconcerns.2 hr), take_responses hadds.responses]
    · refine .inl ⟨[r], cs, takes_of_adds hadds rfl hcommands hreplies (if_neg (hr ∘ hconcerns.1)),
        fun r' hr' => List.mem_singleton.1 hr' ▸ hr, fun c hc h => hr ?_, rfl, trivial⟩
      rcases hhandles with ⟨rfl, -⟩ | ⟨hcs, -⟩
      · rw [List.mem_singleton.1 hc] at h
        exact Option.some.inj h
      · cases (hcs c hc).symm.trans h
  | _ =>
    obtain ⟨cs, ps, hadds, hcs⟩ := step_adds hserver (fun _ h => by cases h) (fun h => by cases h)
      (fun h => by cases h)
    refine .inl ⟨[], cs, takes_of_adds hadds rfl rfl rfl rfl, List.forall_mem_nil _, fun c hc h => ?_,
      rfl, trivial⟩
    cases (hcs c hc).symm.trans h

/-! ## Every request is accounted for -/

/-- A request that has arrived is answered or outstanding. -/
def Accounted (cookies : Cookies) (s : Requests) : Prop :=
  s.asked = s.outstanding cookies + s.answered.length

theorem outstanding_takes (cookies : Cookies) {rs : List SessionReply} {cs : List SessionCommand}
    {ps : List Response} (h : Takes s s' rs cs ps) :
    s'.outstanding cookies + rs.countP (replyCookies · = cookies) =
      s.outstanding cookies + cs.countP (commandCookies · = some cookies) := by
  unfold outstanding
  rw [h.commands, h.replies, List.countP_append, List.countP_append]
  omega

/-- The callback of a request issues one command or makes one answer. -/
theorem countP_handles {r : SessionReply} {cs : List SessionCommand} {ps : List Response}
    (h : Handles r cs ps) :
    cs.countP (commandCookies · = some (replyCookies r)) + ps.length = 1 := by
  rcases h with ⟨rfl, rfl, -⟩ | ⟨hcs, p, rfl, -⟩
  · simp [commandCookies]
  · have hzero : cs.countP (commandCookies · = some (replyCookies r)) = 0 := by
      refine List.countP_eq_zero.2 fun c hc => ?_
      simp [hcs c hc]
    rw [hzero, List.length_singleton]

/-- Executing a command makes its answer outstanding in its place. -/
theorem outstanding_run {c : SessionCommand}
    (hcommands : s.server.redisSession.commands = c :: s'.server.redisSession.commands)
    (hreplies : s'.server.redisSession.replies = s.server.redisSession.replies ++
      (s.server.sessions.exec s.server.now c).2.toList) :
    s'.outstanding cookies = s.outstanding cookies := by
  unfold outstanding
  have hreply := replyCookies_exec s.server.sessions s.server.now c
  rw [hcommands, hreplies, List.countP_append, List.countP_cons, ← hreply]
  cases (s.server.sessions.exec s.server.now c).2 with
  | none => simp
  | some r => simp [List.countP_cons]; omega

/-- **No request is forgotten.** -/
theorem Accounted.step (hcookies : cookies.userId ≠ [] ∧ cookies.sessionId ≠ [])
    (hs : Accounted cookies s) (h : s.step uuid cookies e = some s') : Accounted cookies s' := by
  unfold Accounted at hs ⊢
  rcases step_cases hcookies h with ⟨rs, cs, htakes, hrs, hcs, hasked, -⟩ | ⟨-, htakes, hasked⟩ |
    ⟨r, cs, ps, htakes, hr, hhandles, hasked, -⟩ | ⟨-, c, hcommands, -, hreplies, hasked, hanswered⟩
  · have hbalance := outstanding_takes cookies htakes
    have hrs' : rs.countP (replyCookies · = cookies) = 0 :=
      List.countP_eq_zero.2 fun r hr => by simp [hrs r hr]
    have hcs' : cs.countP (commandCookies · = some cookies) = 0 :=
      List.countP_eq_zero.2 fun c hc => by simp [hcs c hc]
    rw [htakes.answered, List.nil_append, hasked]
    omega
  · have hbalance := outstanding_takes cookies htakes
    simp only [List.countP_nil, List.countP_cons, commandCookies, decide_true, if_true] at hbalance
    rw [htakes.answered, List.nil_append, hasked]
    omega
  · have hbalance := outstanding_takes cookies htakes
    have hone := countP_handles hhandles
    rw [hr] at hone
    simp only [List.countP_nil, List.countP_cons, hr, decide_true, if_true] at hbalance
    rw [htakes.answered, List.length_append, hasked]
    omega
  · rw [outstanding_run hcommands hreplies, hanswered, hasked, hs]

/-! ## Every request is well -/

/-- A command that looks up the session will find the id that its request carries. -/
def Found (cookies : Cookies) (ids : Bytes → Option Bytes) (c : SessionCommand) : Prop :=
  c = .get cookies → ids cookies.userId = some cookies.sessionId

/-- The requests that are looked up will find their id, the answers that have arrived are fine, and the
requests that are done went on. -/
structure Clean (cookies : Cookies) (s : Requests) : Prop where
  found : Pipeline.Finds applyId (Found cookies) (idsOf s.server.sessions)
    s.server.redisSession.commands
  fine : ∀ r ∈ s.server.redisSession.replies, replyCookies r = cookies → Fine r
  continued : ∀ p ∈ s.answered, p.location = none

/-- What is left is well, and so was what is taken, exactly if all was well before, and so is what is
added. -/
theorem clean_takes (cookies : Cookies) {rs : List SessionReply} {cs : List SessionCommand} {ps : List Response}
    (h : Takes s s' rs cs ps) :
    (Clean cookies s' ∧ ∀ r ∈ rs, replyCookies r = cookies → Fine r) ↔
      Clean cookies s ∧ Pipeline.Finds applyId (Found cookies) s.server.settledIds cs ∧
        ∀ p ∈ ps, p.location = none := by
  have hfound : Pipeline.Finds applyId (Found cookies) (idsOf s'.server.sessions)
      s'.server.redisSession.commands ↔
      Pipeline.Finds applyId (Found cookies) (idsOf s.server.sessions)
        s.server.redisSession.commands ∧
      Pipeline.Finds applyId (Found cookies) s.server.settledIds cs := by
    rw [h.sessions, h.commands]
    exact Pipeline.finds_append
  have hfine : (∀ r ∈ s.server.redisSession.replies, replyCookies r = cookies → Fine r) ↔
      (∀ r ∈ rs, replyCookies r = cookies → Fine r) ∧
        ∀ r ∈ s'.server.redisSession.replies, replyCookies r = cookies → Fine r := by
    rw [h.replies]
    exact List.forall_mem_append
  have hcontinued : (∀ p ∈ s'.answered, p.location = none) ↔
      (∀ p ∈ ps, p.location = none) ∧ ∀ p ∈ s.answered, p.location = none := by
    rw [h.answered]
    exact List.forall_mem_append
  constructor
  · rintro ⟨hs', hrs⟩
    obtain ⟨hs, hcs⟩ := hfound.1 hs'.found
    obtain ⟨hps, hanswered⟩ := hcontinued.1 hs'.continued
    exact ⟨⟨hs, hfine.2 ⟨hrs, hs'.fine⟩, hanswered⟩, hcs, hps⟩
  · rintro ⟨hs, hcs, hps⟩
    obtain ⟨hrs, hreplies⟩ := hfine.1 hs.fine
    exact ⟨⟨hfound.2 ⟨hs.found, hcs⟩, hreplies, hcontinued.2 ⟨hps, hs.continued⟩⟩, hrs⟩

theorem fine_get_iff (db : SessionDB) (now : ℕ) (cookies : Cookies) :
    Fine (.get cookies ((db.live now cookies.userId).map Entry.session)) ↔
      (db.live now cookies.userId).isSome ∧ idsOf db cookies.userId = some cookies.sessionId := by
  unfold Fine
  cases hlive : db.live now cookies.userId with
  | none => simp
  | some e =>
    obtain ⟨hdb, -⟩ := Option.filter_eq_some_iff.1 hlive
    rw [idsOf, hdb]
    simp

/-- The answer to a command is fine exactly if the command finds the id and is executed in time. -/
theorem fine_exec_iff (cookies : Cookies) {c : SessionCommand} {cs : List SessionCommand}
    (hcommands : s.server.redisSession.commands = c :: cs) :
    (∀ r ∈ (s.server.sessions.exec s.server.now c).2.toList, replyCookies r = cookies → Fine r) ↔
      s.Timely cookies .sessionRun ∧ Found cookies (idsOf s.server.sessions) c := by
  unfold Timely Found
  rw [hcommands]
  cases c with
  | get c =>
    have hfine := fine_get_iff s.server.sessions s.server.now c
    constructor
    · intro h
      have hget := h _ (List.mem_singleton_self _)
      refine ⟨fun hc => (hfine.1 (hget hc)).1, fun hc => ?_⟩
      obtain rfl := SessionCommand.get.inj hc
      exact (hfine.1 (hget rfl)).2
    · rintro ⟨hlive, hid⟩ r hr heq
      obtain rfl := List.mem_singleton.1 hr
      obtain rfl : c = cookies := heq
      exact hfine.2 ⟨hlive rfl, hid rfl⟩
  | ttl c =>
    rw [and_iff_left fun h => by cases h]
    exact List.forall_mem_singleton
  | set userId session => exact iff_of_true (List.forall_mem_nil _) ⟨trivial, fun h => by cases h⟩
  | del userId => exact iff_of_true (List.forall_mem_nil _) ⟨trivial, fun h => by cases h⟩
  | expire userId seconds =>
    refine iff_of_true (fun r hr => ?_) ⟨trivial, fun h => by cases h⟩
    have hnone := replyCookies_exec s.server.sessions s.server.now (.expire userId seconds)
    rw [Option.map_eq_none_iff.1 hnone] at hr
    cases hr

/-- Executing a command leaves every request well exactly if it is timely. -/
theorem clean_run {c : SessionCommand}
    (hcommands : s.server.redisSession.commands = c :: s'.server.redisSession.commands)
    (hsessions : s'.server.sessions = (s.server.sessions.exec s.server.now c).1)
    (hreplies : s'.server.redisSession.replies = s.server.redisSession.replies ++
      (s.server.sessions.exec s.server.now c).2.toList) (hanswered : s'.answered = s.answered) :
    Clean cookies s' ↔ s.Timely cookies .sessionRun ∧ Clean cookies s := by
  have hfine := fine_exec_iff cookies hcommands
  have hfound : Pipeline.Finds applyId (Found cookies) (idsOf s.server.sessions)
      s.server.redisSession.commands ↔ Found cookies (idsOf s.server.sessions) c ∧
      Pipeline.Finds applyId (Found cookies) (idsOf s'.server.sessions)
        s'.server.redisSession.commands := by
    rw [hcommands, hsessions, idsOf_exec]
    rfl
  constructor
  · intro hs'
    have hall := hs'.fine
    rw [hreplies, List.forall_mem_append] at hall
    obtain ⟨htimely, hc⟩ := hfine.1 hall.2
    exact ⟨htimely, hfound.2 ⟨hc, hs'.found⟩, hall.1, hanswered ▸ hs'.continued⟩
  · rintro ⟨htimely, hs⟩
    obtain ⟨hc, hcs⟩ := hfound.1 hs.found
    refine ⟨hcs, ?_, hanswered ▸ hs.continued⟩
    rw [hreplies]
    exact List.forall_mem_append.2 ⟨hs.fine, hfine.2 ⟨htimely, hc⟩⟩

/-- **What keeps every request well**: a step does exactly if it is timely. -/
theorem clean_step (hcookies : cookies.userId ≠ [] ∧ cookies.sessionId ≠ [])
    (h : s.step uuid cookies e = some s') :
    Clean cookies s' ↔ s.Timely cookies e ∧ Clean cookies s := by
  rcases step_cases hcookies h with ⟨rs, cs, htakes, hrs, hcs, -, htimely⟩ | ⟨rfl, htakes, -⟩ |
    ⟨r, cs, ps, htakes, hr, hhandles, -, htimely⟩ |
    ⟨rfl, c, hcommands, hsessions, hreplies, -, hanswered⟩
  · have hfinds : Pipeline.Finds applyId (Found cookies) s.server.settledIds cs :=
      Pipeline.finds_of_forall fun c hc _ hget => absurd (hget ▸ rfl) (hcs c hc)
    have hiff := clean_takes cookies htakes
    rw [and_iff_left fun r hr heq => absurd heq (hrs r hr),
      and_iff_left ⟨hfinds, List.forall_mem_nil _⟩] at hiff
    rw [hiff, and_iff_right htimely]
  · -- the command that looks the session up is the last one
    have hfinds : Pipeline.Finds applyId (Found cookies) s.server.settledIds [.get cookies] ↔
        s.Timely cookies (.page cookies) :=
      ⟨fun h _ => h.1 rfl, fun h => ⟨fun _ => h rfl, trivial⟩⟩
    have hiff := clean_takes cookies htakes
    rw [and_iff_left (List.forall_mem_nil _), and_iff_left (List.forall_mem_nil _), hfinds] at hiff
    rw [hiff, and_comm]
  · have hfinds : Pipeline.Finds applyId (Found cookies) s.server.settledIds cs := by
      refine Pipeline.finds_of_forall fun c hc _ hget => ?_
      rcases hhandles with ⟨rfl, -⟩ | ⟨hcs, -⟩
      · cases hget ▸ List.mem_singleton.1 hc
      · cases hget ▸ hcs c hc
    have hps : (∀ p ∈ ps, p.location = none) ↔ Fine r := by
      rcases hhandles with ⟨-, rfl, hfine⟩ | ⟨-, p, rfl, hp⟩
      · exact iff_of_true (List.forall_mem_nil _) hfine
      · rw [List.forall_mem_singleton, hp]
    have hiff := clean_takes cookies htakes
    rw [List.forall_mem_singleton, hps, and_iff_right hfinds] at hiff
    rw [and_iff_right htimely]
    constructor
    · intro hs'
      have hfine := hps.1 fun p hp => hs'.continued p (htakes.answered ▸ List.mem_append_left _ hp)
      exact (hiff.1 ⟨hs', fun _ => hfine⟩).1
    · intro hs
      have hmem : r ∈ s.server.redisSession.replies := htakes.replies ▸ List.mem_cons_self
      exact (hiff.2 ⟨hs, hs.fine r hmem hr⟩).1
  · exact clean_run hcommands hsessions hreplies hanswered

/-! ## Runs -/

theorem Fresh.accounted (hs : s.Fresh cookies) : Accounted cookies s := by
  rw [Accounted, hs.asked, hs.outstanding, hs.answered, List.length_nil]

/-- Where nothing is outstanding, it only matters how the requests were answered. -/
theorem clean_iff_of_outstanding (h : s.outstanding cookies = 0) :
    Clean cookies s ↔ ∀ p ∈ s.answered, p.location = none := by
  obtain ⟨hcommands, hreplies⟩ := Nat.add_eq_zero_iff.1 h
  refine ⟨Clean.continued, fun hcontinued => ⟨?_, ?_, hcontinued⟩⟩
  · refine Pipeline.finds_of_forall fun c hc _ hget => absurd ?_ (List.countP_eq_zero.1 hcommands c hc)
    rw [hget]
    exact decide_eq_true rfl
  · intro r hr heq
    exact absurd (decide_eq_true heq) (List.countP_eq_zero.1 hreplies r hr)

/-- While a request is outstanding, Redis has a command to execute or an answer has arrived. -/
theorem exists_step (h : s.outstanding cookies ≠ 0) :
    (s.step uuid cookies .sessionRun).isSome ∨ (s.step uuid cookies .sessionCallback).isSome := by
  cases hcommands : s.server.redisSession.commands with
  | cons c cs => exact .inl (by simp [step, WebServer.step, Pipeline.run, hcommands])
  | nil =>
    cases hreplies : s.server.redisSession.replies with
    | cons r rs => exact .inr (by simp [step, WebServer.step, Pipeline.next?, hreplies])
    | nil =>
      refine absurd ?_ h
      rw [outstanding, hcommands, hreplies]
      rfl

/-- **Which requests reach their page.** Whatever happens from a state without requests with the cookies
until none is outstanding, all of them went on to their page if and only if each was timely. -/
theorem continued_iff_of_run (hcookies : cookies.userId ≠ [] ∧ cookies.sessionId ≠ [])
    (hs : s.Fresh cookies) {es : List Event} {t : Requests}
    (hrun : Run (step uuid cookies) (fun _ _ => True) s es t) (ht : t.outstanding cookies = 0) :
    t.Continued ↔ Run (step uuid cookies) (Timely cookies) s es t := by
  have haccounted : Accounted cookies t :=
    hrun.invariant (fun _ _ _ hs _ h => hs.step hcookies h) hs.accounted
  have hlength : t.answered.length = t.asked := by
    rw [haccounted, ht, Nat.zero_add]
  have hclean₀ : Clean cookies s := by
    rw [clean_iff_of_outstanding hs.outstanding, hs.answered]
    exact List.forall_mem_nil _
  have hclean : Clean cookies t ↔ Run (step uuid cookies) (Timely cookies) s es t ∧ Clean cookies s :=
    hrun.lasting_iff (J := fun _ => True) (fun _ _ _ _ _ => trivial)
      (fun _ _ _ _ h => clean_step hcookies h) trivial
  rw [Continued, and_iff_right hlength, ← clean_iff_of_outstanding ht, hclean, and_iff_left hclean₀]

/-! ## Two requests -/

/-- The cookies of the first user of a run who registers. -/
def firstCookies : Cookies := ⟨ascii "u", letters 0⟩

/-- A user registers, and comes back after more than half an hour. -/
def comesBack : List Event := registers (ascii "u") ++ [.tick (MAXAGE + 1)]

/-- The second request arrives while the first one's new id is on its way to Redis. -/
def lateRequest : List Event :=
  comesBack ++ [.page firstCookies, .sessionRun, .sessionCallback, .sessionRun, .sessionCallback,
    .page firstCookies, .sessionRun, .sessionRun, .sessionRun, .sessionCallback]

/-- The second request arrives before the first one is looked up. -/
def bothRequests : List Event :=
  comesBack ++ [.page firstCookies, .page firstCookies, .sessionRun, .sessionRun, .sessionCallback,
    .sessionCallback, .sessionRun, .sessionRun, .sessionCallback, .sessionCallback]

def atStart : Requests := ⟨.start, 0, []⟩

/-- A request arrives when the id it carries is stored, with ten seconds left. -/
def Stored (s : Requests) : Event → Prop
  | .page c => (s.server.stored c.userId).map Session.id = some c.sessionId ∧
      10 ≤ s.server.sessions.ttl s.server.now c.userId
  | _ => True

instance (s : Requests) (e : Event) : Decidable (s.Stored e) := by
  unfold Stored
  split <;> infer_instance

/-- **A request is locked out**: the id it carries is stored when it arrives, and it is sent to the login
page. -/
theorem not_continued_lateRequest : atStart.Fresh firstCookies ∧
    ∃ t, Run (step letters firstCookies) Stored atStart lateRequest t ∧
      (t.outstanding firstCookies = 0 ∧
        t.answered.map Response.location = [some (ascii "/login?error=SessionERROR"), none]) ∧
      ¬t.Continued := by
  have hany : (exec (step letters firstCookies) Stored atStart lateRequest).any (fun t =>
      decide (t.outstanding firstCookies = 0 ∧
        t.answered.map Response.location = [some (ascii "/login?error=SessionERROR"), none])) = true := by
    decide +kernel
  obtain ⟨t, hrun, ht⟩ := Run.exists_of_exec hany
  refine ⟨⟨rfl, rfl, rfl⟩, t, hrun, ht, fun h => ?_⟩
  have hmem : some (ascii "/login?error=SessionERROR") ∈ t.answered.map Response.location :=
    ht.2 ▸ List.mem_cons_self
  obtain ⟨p, hp, hlocation⟩ := List.mem_map.1 hmem
  cases (h.2 p hp).symm.trans hlocation

theorem continued_bothRequests : ∃ t,
    Run (step letters firstCookies) (Timely firstCookies) atStart bothRequests t ∧ t.asked = 2 ∧
      t.Continued := by
  have hany : (exec (step letters firstCookies) (Timely firstCookies) atStart bothRequests).any
      (fun t => decide (t.outstanding firstCookies = 0 ∧ t.asked = 2)) = true := by decide +kernel
  obtain ⟨t, hrun, ht, hasked⟩ := Run.exists_of_exec hany
  have hcontinued := (continued_iff_of_run (by decide) ⟨rfl, rfl, rfl⟩
    (hrun.mono fun _ _ _ => trivial) ht).2 hrun
  exact ⟨t, hrun, hasked, hcontinued⟩

end Requests

end MutexIM.Web
