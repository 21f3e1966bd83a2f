import Mathlib.Data.List.Count
import MutexIM.Foundations.Vacancy
import MutexIM.Web.Sessions

/-!
# Registrations of one user

A registration asks whether `user:<user>` exists, and writes it in the callback. Between the two commands
those of other requests are executed.

* `Registrations` is the web server with what the requests of a user carry, and what has been written.
* `step_cases`: a step checks the key, writes it, or does neither. `simulates`: the checks and writes are
  those of a vacancy, in which the callback takes what was free when it was checked.
* `registered_once_of_run`: one registration at most is answered with the chat, and its password and email
  are stored, as long as no registration finds the key free while another is about to write it.
* `registered_twice`: two registrations check the key before one writes it.
-/

namespace MutexIM.Web

open Bytes

/-- The password and the email of a registration. -/
abbrev Body := Bytes × Bytes

/-- The web server. As history, what the registrations of a user carry, and what has been written. -/
structure Registrations where
  server : WebServer
  posted : List Body
  written : List Body

namespace Registrations

open WebServer

variable (uuid : ℕ → Bytes) (u : Bytes)

/-! ## The requests of a user -/

def LogsIn : Event → Prop
  | .postLogin userId _ => userId = u
  | _ => False

instance (e : Event) : Decidable (LogsIn u e) := by
  unfold LogsIn
  split <;> infer_instance

/-- What a registration of the user carries. -/
def posting : Event → List Body
  | .postRegister userId password email => if userId = u then [(password, email)] else []
  | _ => []

/-- What a command writes for the user. -/
def setting : UserCommand → List Body
  | .hmset userId password email => if userId = u then [(password, email)] else []
  | _ => []

/-- What the callback of an answer will write for the user. -/
def granted : UserReply → List Body
  | .exists userId password email (.integer 0) => if userId = u then [(password, email)] else []
  | _ => []

/-- The registrations that have found the key free and not written it. -/
def waiting (s : WebServer) : List Body :=
  s.redisDB.replies.flatMap (granted u) ++ s.redisDB.commands.flatMap (setting u)

/-- What a step writes for the user. -/
def writing (s : WebServer) : Event → List Body
  | .userRun => (s.redisDB.commands.head?.map (setting u)).getD []
  | _ => []

/-- A step of the web server; the user does not log in. -/
def step (s : Registrations) (e : Event) : Option Registrations :=
  if LogsIn u e then none
  else (s.server.step uuid e).map fun t =>
    ⟨t, s.posted ++ posting u e, s.written ++ writing u s.server e⟩

/-- The key of the user is not checked while a registration that found it free is to write it. -/
def Alone (s : Registrations) : Event → Prop
  | .userRun =>
    match s.server.redisDB.commands.head? with
    | some (.exists userId _ _) =>
      userId = u → s.server.userKeys (ascii "user:" ++ u) = none → waiting u s.server = []
    | _ => True
  | _ => True

/-- The check or the write of a step. -/
def op (s : Registrations) : Event → Option (Vacancy.Op Body)
  | .userRun =>
    match s.server.redisDB.commands.head? with
    | some (.exists userId password email) =>
      if userId = u then some (.check (password, email)) else none
    | some (.hmset userId password email) =>
      if userId = u then some (.take (password, email)) else none
    | _ => none
  | _ => none

/-- Who is registering, and who has registered. -/
def vacancy (s : Registrations) : Vacancy Body := ⟨waiting u s.server, s.written⟩

/-- The user is redirected to the chat. -/
def ToChat (p : Response) : Prop := p.userId = u ∧ p.location = some (ascii "/chat")

instance (p : Response) : Decidable (ToChat u p) := inferInstanceAs (Decidable (_ ∧ _))

/-- How often the user has been redirected to the chat. -/
def chats (s : WebServer) : ℕ := s.responses.countP fun p => ToChat u p

/-- The write of the user's has been confirmed. -/
def confirmed : UserReply → Bool
  | .hmset _ .error => false
  | .hmset userId _ => userId = u
  | _ => false

/-- The answers to writes that a callback is to take. -/
def owed (s : WebServer) : ℕ := s.redisDB.replies.countP (confirmed u)

/-- The key of the user holds what was written last. -/
def Holds (keys : Keyspace) : Option Body → Prop
  | none => keys (ascii "user:" ++ u) = none
  | some b => ∃ h, keys (ascii "user:" ++ u) = some (.hash h) ∧
      h.lookup (ascii "password") = some b.1 ∧ h.lookup (ascii "email") = some b.2

/-- The user a command is about. -/
def commandUser : UserCommand → Bytes
  | .hgetall userId _ => userId
  | .exists userId _ _ => userId
  | .hmset userId _ _ => userId

/-- The user an answer is about. -/
def replyUser : UserReply → Bytes
  | .hgetall userId _ _ => userId
  | .exists userId _ _ _ => userId
  | .hmset userId _ => userId

/-- Nothing is asked or answered about the user, and the user's key is free. -/
structure Unregistered (s : WebServer) : Prop where
  key : s.userKeys (ascii "user:" ++ u) = none
  commands : ∀ c ∈ s.redisDB.commands, commandUser c ≠ u
  replies : ∀ r ∈ s.redisDB.replies, replyUser r ≠ u

/-- One registration among the requests at most has been answered with the chat; what it carries is
stored, and nothing else has been written for the user. -/
def OneRegistered (s : WebServer) (es : List Event) (t : Registrations) : Prop :=
  chats u t.server ≤ chats u s + 1 ∧
    (chats u t.server = chats u s + 1 → ∃ password email, .postRegister u password email ∈ es ∧
      t.written = [(password, email)] ∧ Holds u t.server.userKeys (some (password, email)))

instance (s : Registrations) (e : Event) : Decidable (Alone u s e) := by
  unfold Alone
  split
  · split <;> infer_instance
  · infer_instance

/-! ## What a step does to the registrations of a user -/

variable {uuid u} {s t : WebServer}

/-- Nothing of the user's has been checked, written or confirmed. -/
structure Same (u : Bytes) (s t : WebServer) : Prop where
  keys : t.userKeys (ascii "user:" ++ u) = s.userKeys (ascii "user:" ++ u)
  waiting : (waiting u t).Perm (waiting u s)
  chats : chats u t + owed u t = chats u s + owed u s

theorem chats_respond (p : Response) :
    chats u (s.respond p) = chats u s + if ToChat u p then 1 else 0 := by
  rw [chats, chats, respond, List.countP_cons]
  by_cases hp : ToChat u p <;> simp [hp]

theorem Same.of_eq (hkeys : t.userKeys = s.userKeys) (hdb : t.redisDB = s.redisDB)
    (hchats : Registrations.chats u t = Registrations.chats u s) : Same u s t where
  keys := by rw [hkeys]
  waiting := by rw [Registrations.waiting, Registrations.waiting, hdb]
  chats := by rw [hchats, owed, owed, hdb]

theorem Same.respond {p : Response} (hp : ¬ToChat u p) : Same u s (s.respond p) :=
  .of_eq rfl rfl (by rw [chats_respond, if_neg hp, Nat.add_zero])

theorem Same.deleteSession {cookies : Cookies} {location : Bytes} (h : location ≠ ascii "/chat") :
    Same u s (s.deleteSession cookies location) := by
  have hp : ∀ l, ¬ToChat u ⟨cookies.userId, l, some location⟩ := fun _ hp => h (Option.some.inj hp.2)
  unfold WebServer.deleteSession
  split
  · exact .of_eq rfl rfl (by rw [chats_respond, if_neg (hp _)]; rfl)
  · exact .respond (hp _)

theorem Same.sessionCallback (reply : SessionReply) : Same u s (s.sessionCallback uuid reply) := by
  have hp : ∀ v l q, q ≠ ascii "/chat" → ¬ToChat u ⟨v, l, some q⟩ :=
    fun _ _ _ h hp => h (Option.some.inj hp.2)
  unfold WebServer.sessionCallback
  split
  · split
    · split
      · exact .of_eq rfl rfl rfl
      · exact .respond fun hp => by cases hp.2
    · exact .respond (hp _ _ _ (by decide))
  · exact .respond (hp _ _ _ (by decide))
  · split
    · exact .of_eq rfl rfl (by rw [chats_respond, if_neg fun hp => by cases hp.2]; rfl)
    · exact .deleteSession (by decide)

/-- A request issues commands that write nothing, or is refused. -/
theorem Same.issue {c : UserCommand} (hc : setting u c = []) :
    Same u s { s with redisDB := s.redisDB.issue [c] } where
  keys := rfl
  waiting := by
    rw [Registrations.waiting, Registrations.waiting, Pipeline.issue, List.flatMap_append]
    simp [hc]
  chats := rfl

theorem confirmed_of_ne {v : Bytes} (hv : v ≠ u) (reply : Reply) :
    confirmed u (.hmset v reply) = false := by
  unfold confirmed
  split
  · rfl
  · next heq =>
    cases heq
    exact decide_eq_false hv
  · rfl

theorem chats_beginSession (v : Bytes) :
    chats u (s.beginSession uuid v) = chats u s + if v = u then 1 else 0 := by
  rw [beginSession, chats_respond]
  exact congrArg _ (if_congr (and_iff_left rfl) rfl rfl)

/-- A callback that issues nothing takes an answer that granted nothing. -/
theorem Same.of_next {r : UserReply} {p : Pipeline UserCommand UserReply}
    (hnext : s.redisDB.next? = some (r, p)) (hgranted : granted u r = [])
    (hkeys : t.userKeys = s.userKeys) (hdb : t.redisDB = p)
    (hchats : Registrations.chats u t = Registrations.chats u s + if confirmed u r then 1 else 0) :
    Same u s t := by
  obtain ⟨hreplies, hcommands⟩ := Pipeline.next?_eq_some hnext
  refine ⟨by rw [hkeys], ?_, ?_⟩
  · rw [Registrations.waiting, Registrations.waiting, hdb, hreplies, hcommands, List.flatMap_cons,
      hgranted, List.nil_append]
  · rw [hchats, owed, owed, hdb, hreplies, List.countP_cons]
    omega

/-- **A callback** moves what it was granted to the commands, and what was confirmed to the responses. -/
theorem Same.userCallback {r : UserReply} {p : Pipeline UserCommand UserReply}
    (hnext : s.redisDB.next? = some (r, p)) (hlogin : ∀ q o, r ≠ .hgetall u q o) :
    Same u s (WebServer.userCallback uuid { s with redisDB := p } r) := by
  have hp : ∀ {v l q}, q ≠ ascii "/chat" → ¬ToChat u ⟨v, l, some q⟩ :=
    fun h hp => h (Option.some.inj hp.2)
  have hredirect : ∀ {v q}, q ≠ ascii "/chat" → granted u r = [] → confirmed u r = false →
      Same u s (redirect { s with redisDB := p } v q) := fun hq hgranted hconfirmed =>
    .of_next hnext hgranted rfl rfl (by rw [redirect, chats_respond, if_neg (hp hq), hconfirmed]; rfl)
  unfold WebServer.userCallback
  split
  · next v q reply =>
    split
    · have hv : v ≠ u := fun h => hlogin q (some reply) (h ▸ rfl)
      exact .of_next hnext rfl rfl rfl (by rw [chats_beginSession, if_neg hv]; rfl)
    · exact hredirect (by decide) rfl rfl
  · exact hredirect (by decide) rfl rfl
  · next v q m =>
    obtain ⟨hreplies, hcommands⟩ := Pipeline.next?_eq_some hnext
    refine ⟨rfl, ?_, ?_⟩
    · rw [Registrations.waiting, Registrations.waiting, hreplies, Pipeline.issue, hcommands,
        List.flatMap_cons, List.flatMap_append, List.append_assoc]
      have hsame : [UserCommand.hmset v q m].flatMap (setting u) =
          granted u (.exists v q m (.integer 0)) := by simp [setting, granted]
      rw [hsame]
      exact List.append_assoc .. ▸ List.perm_append_comm
    · rw [owed, owed, hreplies, List.countP_cons_of_neg (by simp [confirmed])]
      rfl
  · exact hredirect (by decide) rfl rfl
  · exact .of_next hnext rfl rfl rfl rfl
  · next hzero hone herror =>
    refine hredirect (by decide) ?_ rfl
    unfold granted
    split
    · next heq => cases heq; exact absurd rfl hzero
    · rfl
  · exact .of_next hnext rfl rfl rfl rfl
  · next v reply herror =>
    refine .of_next hnext rfl rfl rfl ?_
    have hconfirmed : confirmed u (.hmset v reply) = decide (v = u) := by
      unfold confirmed
      split
      · next heq => cases heq; exact absurd rfl herror
      · next heq => cases heq; rfl
      · next h => exact absurd rfl (h v reply)
    rw [chats_beginSession, hconfirmed]
    by_cases hv : v = u <;> simp [hv] <;> rfl

/-- What executing a command leaves waiting. -/
theorem waiting_run {c : UserCommand} {p : Pipeline UserCommand UserReply}
    (hc : s.redisDB.commands = c :: p.commands)
    (hreplies : p.replies = s.redisDB.replies ++ (userExec s.userKeys c).2.toList) (keys : Keyspace) :
    (setting u c ++ waiting u { s with userKeys := keys, redisDB := p }).Perm
      ((userExec s.userKeys c).2.toList.flatMap (granted u) ++ waiting u s) := by
  rw [waiting, waiting, hc, hreplies, List.flatMap_append, List.flatMap_cons]
  refine List.perm_iff_count.2 fun b => ?_
  simp only [List.count_append]
  omega

theorem owed_run {c : UserCommand} {p : Pipeline UserCommand UserReply}
    (hreplies : p.replies = s.redisDB.replies ++ (userExec s.userKeys c).2.toList) (keys : Keyspace) :
    owed u { s with userKeys := keys, redisDB := p } =
      owed u s + (userExec s.userKeys c).2.toList.countP (confirmed u) := by
  rw [owed, owed, hreplies, List.countP_append]

/-- **Writing the key** of a user whose account has been written before, or not at all. -/
theorem holds_hmset {keys : Keyspace} {b : Option Body} (h : Holds u keys b) (password email : Bytes) :
    Holds u (userExec keys (.hmset u password email)).1 (some (password, email)) ∧
      (userExec keys (.hmset u password email)).2.toList.countP (confirmed u) = 1 := by
  have hhash : keys.HashOrNone (ascii "user:" ++ u) := by
    intro v hv
    cases b with
    | none => cases (show keys (ascii "user:" ++ u) = none from h).symm.trans hv
    | some b =>
      obtain ⟨dict, hdict, -⟩ := h
      exact ⟨dict, Option.some.inj (hv.symm.trans hdict)⟩
  have hpassword : ascii "password" ≠ ascii "nickName" ∧ ascii "password" ≠ ascii "email" := by decide
  have hemail : ascii "email" ≠ ascii "nickName" := by decide
  constructor
  · refine ⟨_, Keyspace.hmset_self hhash _, ?_, ?_⟩
    · rw [List.foldl_cons, List.foldl_cons, List.foldl_cons, List.foldl_cons, List.foldl_nil,
        AList.lookup_insert_ne hpassword.1, AList.lookup_insert_ne hpassword.2, AList.lookup_insert]
    · rw [List.foldl_cons, List.foldl_cons, List.foldl_cons, List.foldl_cons, List.foldl_nil,
        AList.lookup_insert_ne hemail, AList.lookup_insert]
  · have hreply : (keys.hmset (ascii "user:" ++ u) [(ascii "useId", u), (ascii "password", password),
        (ascii "email", email), (ascii "nickName", u)]).1 = .status (ascii "OK") := by
      unfold Keyspace.hmset
      rcases hv : keys (ascii "user:" ++ u) with _ | v
      · rfl
      · obtain ⟨dict, rfl⟩ := hhash v hv
        rfl
    simp only [userExec, hreply, Option.toList_some, List.countP_singleton, confirmed, decide_true,
      if_true]

/-- The answer to a check is what grants a registration. -/
theorem granted_exec (keys : Keyspace) (v password email : Bytes) :
    (userExec keys (.exists v password email)).2.toList.flatMap (granted u) =
      if v = u ∧ keys (ascii "user:" ++ u) = none then [(password, email)] else [] := by
  simp only [userExec, Option.toList_some, List.flatMap_singleton, Keyspace.existsKey]
  by_cases hv : v = u
  · subst hv
    cases keys (ascii "user:" ++ v) <;> simp [granted]
  · rw [if_neg fun h : v = u ∧ keys (ascii "user:" ++ u) = none => hv h.1]
    cases keys (ascii "user:" ++ v) <;> simp [granted, hv]

/-- A step that executes no command of `redisDB`. -/
theorem Same.step {e : Event} (hstep : s.step uuid e = some t) (he : e ≠ .userRun)
    (hlogin : ∀ q o, .hgetall u q o ∉ s.redisDB.replies) : Same u s t := by
  cases e with
  | tick ms =>
    obtain rfl := Option.some.inj hstep
    exact .of_eq rfl rfl rfl
  | postLogin v q =>
    obtain rfl := Option.some.inj hstep
    unfold WebServer.postLogin
    split
    · exact .issue rfl
    · exact .respond fun hp => by exact absurd (Option.some.inj hp.2) (by decide)
  | postRegister v q m =>
    obtain rfl := Option.some.inj hstep
    unfold WebServer.postRegister
    split
    · exact .issue rfl
    · exact .respond fun hp => by exact absurd (Option.some.inj hp.2) (by decide)
  | page cookies =>
    obtain rfl := Option.some.inj hstep
    unfold checkSession
    split
    · exact .of_eq rfl rfl rfl
    · exact .respond fun hp => by exact absurd (Option.some.inj hp.2) (by decide)
  | logout cookies =>
    obtain rfl := Option.some.inj hstep
    exact .deleteSession (by decide)
  | userRun => exact absurd rfl he
  | sessionRun =>
    obtain ⟨⟨db, p⟩, -, rfl⟩ := Option.map_eq_some_iff.1 hstep
    exact .of_eq rfl rfl rfl
  | userCallback =>
    obtain ⟨⟨r, p⟩, hnext, rfl⟩ := Option.map_eq_some_iff.1 hstep
    refine .userCallback hnext fun q o hr => hlogin q o ?_
    rw [(Pipeline.next?_eq_some hnext).1, hr]
    exact List.mem_cons_self
  | sessionCallback =>
    obtain ⟨⟨r, p⟩, -, rfl⟩ := Option.map_eq_some_iff.1 hstep
    have hsame : Same u { s with redisSession := p }
        (WebServer.sessionCallback uuid { s with redisSession := p } r) := .sessionCallback r
    exact ⟨hsame.keys, hsame.waiting, hsame.chats⟩

/-- Executing a command for another user. -/
theorem Same.hmset_of_ne {v q m : Bytes} {p : Pipeline UserCommand UserReply} (hv : v ≠ u)
    (hc : s.redisDB.commands = .hmset v q m :: p.commands)
    (hreplies : p.replies = s.redisDB.replies ++ (userExec s.userKeys (.hmset v q m)).2.toList) :
    Same u s { s with userKeys := (userExec s.userKeys (.hmset v q m)).1, redisDB := p } where
  keys := Keyspace.hmset_of_ne fun h => hv (List.append_cancel_left h).symm
  waiting := by
    have hwaiting := waiting_run (u := u) hc hreplies (userExec s.userKeys (.hmset v q m)).1
    rwa [setting, if_neg hv] at hwaiting
  chats := by
    have hconfirmed : (userExec s.userKeys (.hmset v q m)).2.toList.countP (confirmed u) = 0 := by
      simp only [userExec, Option.toList_some, List.countP_singleton, confirmed_of_ne hv]
      rfl
    rw [owed_run hreplies, hconfirmed]
    rfl

theorem writing_of_commands {c : UserCommand} {cs : List UserCommand}
    (hc : s.redisDB.commands = c :: cs) : writing u s .userRun = setting u c := by
  rw [writing, hc]
  rfl

/-- **What a step does** to the registrations of the user: nothing, a check, or a write. -/
theorem step_cases {s s' : Registrations} {e : Event} (h : s.step uuid u e = some s')
    (hlogin : ∀ q o, .hgetall u q o ∉ s.server.redisDB.replies) :
    (s.op u e = none ∧ s'.written = s.written ∧ Same u s.server s'.server) ∨
    (∃ b, s.op u e = some (.check b) ∧ s'.written = s.written ∧
      s'.server.userKeys = s.server.userKeys ∧
      (waiting u s'.server).Perm
        ((if s.server.userKeys (ascii "user:" ++ u) = none then [b] else []) ++ waiting u s.server) ∧
      chats u s'.server + owed u s'.server = chats u s.server + owed u s.server) ∨
    (∃ b, s.op u e = some (.take b) ∧ s'.written = s.written ++ [b] ∧
      (b :: waiting u s'.server).Perm (waiting u s.server) ∧
      ∀ o, Holds u s.server.userKeys o → Holds u s'.server.userKeys (some b) ∧
        chats u s'.server + owed u s'.server = chats u s.server + owed u s.server + 1) := by
  rw [step] at h
  split at h
  · cases h
  obtain ⟨t, ht, rfl⟩ := Option.map_eq_some_iff.1 h
  have hquiet : s.op u e = none → writing u s.server e = [] → Same u s.server t →
      s.op u e = none ∧ s.written ++ writing u s.server e = s.written ∧ Same u s.server t :=
    fun hop hwriting hsame => ⟨hop, by rw [hwriting, List.append_nil], hsame⟩
  by_cases he : e = .userRun
  swap
  · have hop : s.op u e = none := by
      cases e <;> first | rfl | exact absurd rfl he
    have hwriting : writing u s.server e = [] := by
      cases e <;> first | rfl | exact absurd rfl he
    exact .inl (hquiet hop hwriting (.step ht he hlogin))
  subst he
  obtain ⟨⟨keys, p⟩, hrun, rfl⟩ := Option.map_eq_some_iff.1 ht
  obtain ⟨c, hc, rfl, hreplies⟩ := Pipeline.run_eq_some hrun
  have hwriting : writing u s.server .userRun = setting u c := writing_of_commands hc
  have hwaiting := waiting_run (u := u) hc hreplies (userExec s.server.userKeys c).1
  have howed := owed_run (u := u) hreplies (userExec s.server.userKeys c).1
  cases c with
  | hgetall v q =>
    have hop : s.op u .userRun = none := by simp only [op, hc, List.head?_cons]
    exact .inl (hquiet hop hwriting ⟨rfl, hwaiting, congrArg _ howed⟩)
  | «exists» v q m =>
    rw [granted_exec] at hwaiting
    by_cases hv : v = u
    · have hop : s.op u .userRun = some (.check (q, m)) := by
        simp only [op, hc, List.head?_cons, if_pos hv]
      simp only [hv, true_and] at hwaiting
      exact .inr (.inl ⟨(q, m), hop, (congrArg (s.written ++ ·) hwriting).trans (List.append_nil _), rfl,
        hwaiting, congrArg _ howed⟩)
    · have hop : s.op u .userRun = none := by simp only [op, hc, List.head?_cons, if_neg hv]
      rw [if_neg fun h => hv h.1] at hwaiting
      exact .inl (hquiet hop hwriting ⟨rfl, hwaiting, congrArg _ howed⟩)
  | hmset v q m =>
    by_cases hv : v = u
    · subst hv
      have hop : s.op v .userRun = some (.take (q, m)) := by
        simp only [op, hc, List.head?_cons, if_pos]
      rw [setting, if_pos rfl] at hwriting hwaiting
      refine .inr (.inr ⟨(q, m), hop, by rw [hwriting], hwaiting, fun o ho => ?_⟩)
      obtain ⟨hholds, hconfirmed⟩ := holds_hmset ho q m
      rw [hconfirmed] at howed
      exact ⟨hholds, congrArg _ howed⟩
    · have hop : s.op u .userRun = none := by simp only [op, hc, List.head?_cons, if_neg hv]
      rw [setting, if_neg hv] at hwriting
      exact .inl (hquiet hop hwriting (.hmset_of_ne hv hc hreplies))

/-! ## What registrations carry -/

variable {s s' t : Registrations} {e : Event} {es : List Event}

/-- The command is none of a login, and carries what was posted. -/
def Asked (u : Bytes) (posted : List Body) : UserCommand → Prop
  | .hgetall v _ => v ≠ u
  | .exists v password email => v = u → (password, email) ∈ posted
  | .hmset v password email => v = u → (password, email) ∈ posted

/-- So does the answer. -/
def Answers (u : Bytes) (posted : List Body) : UserReply → Prop
  | .hgetall v _ _ => v ≠ u
  | .exists v password email _ => v = u → (password, email) ∈ posted
  | .hmset _ _ => True

/-- Commands and answers carry what was posted. -/
structure Sourced (u : Bytes) (s : Registrations) : Prop where
  commands : ∀ c ∈ s.server.redisDB.commands, Asked u s.posted c
  replies : ∀ r ∈ s.server.redisDB.replies, Answers u s.posted r

theorem Asked.mono {l : List Body} {c : UserCommand} (h : Asked u l c) (l' : List Body) :
    Asked u (l ++ l') c := by
  cases c with
  | hgetall v q => exact h
  | «exists» v q m => exact fun hv => List.mem_append_left _ (h hv)
  | hmset v q m => exact fun hv => List.mem_append_left _ (h hv)

theorem Answers.mono {l : List Body} {r : UserReply} (h : Answers u l r) (l' : List Body) :
    Answers u (l ++ l') r := by
  cases r with
  | hgetall v q o => exact h
  | «exists» v q m x => exact fun hv => List.mem_append_left _ (h hv)
  | hmset v x => trivial

/-- What an answer carries, its command carried. -/
theorem Asked.exec {l : List Body} {c : UserCommand} (h : Asked u l c) (keys : Keyspace) :
    ∀ r ∈ (userExec keys c).2.toList, Answers u l r := by
  intro r hr
  cases c with
  | hgetall v q =>
    obtain rfl := List.mem_singleton.1 hr
    exact h
  | «exists» v q m =>
    obtain rfl := List.mem_singleton.1 hr
    exact h
  | hmset v q m =>
    obtain rfl := List.mem_singleton.1 hr
    trivial

variable (uuid) in
/-- The commands that a callback issues carry what its answer does. -/
theorem Answers.callback {l : List Body} {r : UserReply} (h : Answers u l r) (w : WebServer) :
    ∃ cs, (w.userCallback uuid r).redisDB = w.redisDB.issue cs ∧ ∀ c ∈ cs, Asked u l c := by
  have hnone : w.redisDB = w.redisDB.issue [] := (Pipeline.issue_nil _).symm
  unfold WebServer.userCallback
  split
  · split
    · exact ⟨[], hnone, fun _ hc => by cases hc⟩
    · exact ⟨[], hnone, fun _ hc => by cases hc⟩
  · exact ⟨[], hnone, fun _ hc => by cases hc⟩
  · next v q m => exact ⟨[.hmset v q m], rfl, fun c hc => List.mem_singleton.1 hc ▸ h⟩
  all_goals exact ⟨[], hnone, fun _ hc => by cases hc⟩

/-- Issuing commands that carry what was posted. -/
theorem Sourced.issue {w : WebServer} {l : List Body} (h : Sourced u s)
    (cs : List UserCommand) (hdb : w.redisDB = s.server.redisDB.issue cs)
    (hcs : ∀ c ∈ cs, Asked u (s.posted ++ l) c) (ws : List Body) : Sourced u ⟨w, s.posted ++ l, ws⟩ where
  commands c hc := by
    rw [show (⟨w, s.posted ++ l, ws⟩ : Registrations).server.redisDB = _ from hdb] at hc
    rcases List.mem_append.1 hc with hc | hc
    · exact (h.commands c hc).mono l
    · exact hcs c hc
  replies r hr := by
    rw [show (⟨w, s.posted ++ l, ws⟩ : Registrations).server.redisDB = _ from hdb] at hr
    exact (h.replies r hr).mono l

theorem redisDB_postLogin (w : WebServer) (v q : Bytes) :
    (w.postLogin v q).redisDB = w.redisDB.issue (if v ≠ [] ∧ q ≠ [] then [.hgetall v q] else []) := by
  unfold WebServer.postLogin
  split
  · rfl
  · exact (Pipeline.issue_nil _).symm

theorem redisDB_postRegister (w : WebServer) (v q m : Bytes) :
    (w.postRegister v q m).redisDB =
      w.redisDB.issue (if v ≠ [] ∧ q ≠ [] ∧ m ≠ [] then [.exists v q m] else []) := by
  unfold WebServer.postRegister
  split
  · rfl
  · exact (Pipeline.issue_nil _).symm

theorem redisDB_checkSession (w : WebServer) (cookies : Cookies) :
    (w.checkSession cookies).redisDB = w.redisDB := by
  unfold checkSession
  split <;> rfl

theorem redisDB_deleteSession (w : WebServer) (cookies : Cookies) (location : Bytes) :
    (w.deleteSession cookies location).redisDB = w.redisDB := by
  unfold WebServer.deleteSession
  split <;> rfl

theorem redisDB_sessionCallback (w : WebServer) (reply : SessionReply) :
    (w.sessionCallback uuid reply).redisDB = w.redisDB := by
  unfold WebServer.sessionCallback
  split
  · split
    · split <;> rfl
    · rfl
  · rfl
  · split
    · rfl
    · exact redisDB_deleteSession w ..

/-- Executing a command. -/
theorem Sourced.userRun (h : Sourced u s) {keys : Keyspace} {p : Pipeline UserCommand UserReply}
    (hrun : s.server.redisDB.run userExec s.server.userKeys = some (keys, p)) (l ws : List Body) :
    Sourced u ⟨{ s.server with userKeys := keys, redisDB := p }, s.posted ++ l, ws⟩ := by
  obtain ⟨c, hc, rfl, hreplies⟩ := Pipeline.run_eq_some hrun
  constructor
  case commands =>
    exact fun c' hc' => (h.commands c' (hc ▸ List.mem_cons_of_mem _ hc')).mono _
  case replies =>
    intro r hr
    rw [show p.replies = _ from hreplies] at hr
    rcases List.mem_append.1 hr with hr | hr
    · exact (h.replies r hr).mono _
    · exact ((h.commands c (hc ▸ List.mem_cons_self)).exec _ r hr).mono _

/-- Running a callback. -/
theorem Sourced.userCallback (h : Sourced u s) {r : UserReply} {p : Pipeline UserCommand UserReply}
    (hnext : s.server.redisDB.next? = some (r, p)) (l ws : List Body) :
    Sourced u ⟨WebServer.userCallback uuid { s.server with redisDB := p } r, s.posted ++ l, ws⟩ := by
  obtain ⟨hreplies, hcommands⟩ := Pipeline.next?_eq_some hnext
  obtain ⟨cs, hdb, hcs⟩ := (h.replies r (hreplies ▸ List.mem_cons_self)).callback
    uuid { s.server with redisDB := p }
  have h' : Sourced u ⟨{ s.server with redisDB := p }, s.posted, s.written⟩ :=
    ⟨fun c hc => h.commands c (hcommands ▸ hc),
      fun r' hr' => h.replies r' (hreplies ▸ List.mem_cons_of_mem _ hr')⟩
  exact h'.issue cs hdb (fun c hc => (hcs c hc).mono _) _

/-- **A step** keeps that commands and answers carry what was posted. -/
theorem Sourced.step (h : Sourced u s) (hstep : s.step uuid u e = some s') : Sourced u s' := by
  rw [Registrations.step] at hstep
  split at hstep
  · cases hstep
  · next hnot =>
    obtain ⟨w, hw, rfl⟩ := Option.map_eq_some_iff.1 hstep
    have hquiet : w.redisDB = s.server.redisDB → ∀ l ws, Sourced u ⟨w, s.posted ++ l, ws⟩ :=
      fun hdb l ws =>
        h.issue [] (hdb.trans (Pipeline.issue_nil _).symm) (fun _ hc => by cases hc) ws
    cases e with
    | tick ms =>
      obtain rfl := Option.some.inj hw
      exact hquiet rfl _ _
    | postLogin v q =>
      obtain rfl := Option.some.inj hw
      refine h.issue _ (redisDB_postLogin _ v q) (fun c hc => ?_) _
      split at hc
      · exact List.mem_singleton.1 hc ▸ hnot
      · cases hc
    | postRegister v q m =>
      obtain rfl := Option.some.inj hw
      refine h.issue _ (redisDB_postRegister _ v q m) (fun c hc => ?_) _
      split at hc
      · rw [List.mem_singleton.1 hc]
        intro hv
        rw [posting, if_pos hv]
        exact List.mem_append_right _ List.mem_cons_self
      · cases hc
    | page cookies =>
      obtain rfl := Option.some.inj hw
      exact hquiet (redisDB_checkSession _ cookies) _ _
    | logout cookies =>
      obtain rfl := Option.some.inj hw
      exact hquiet (redisDB_deleteSession _ cookies _) _ _
    | sessionRun =>
      obtain ⟨⟨db, p⟩, -, rfl⟩ := Option.map_eq_some_iff.1 hw
      exact hquiet rfl _ _
    | sessionCallback =>
      obtain ⟨⟨r, p⟩, -, rfl⟩ := Option.map_eq_some_iff.1 hw
      exact hquiet (redisDB_sessionCallback _ r) _ _
    | userRun =>
      obtain ⟨⟨keys, p⟩, hrun, rfl⟩ := Option.map_eq_some_iff.1 hw
      exact h.userRun hrun _ _
    | userCallback =>
      obtain ⟨⟨r, p⟩, hnext, rfl⟩ := Option.map_eq_some_iff.1 hw
      exact h.userCallback hnext _ _

/-! ## Runs -/

/-- The user's key holds what was written last, and what was written has been confirmed, or is about to
be; `n` responses were there before. -/
structure Accounted (u : Bytes) (n : ℕ) (s : Registrations) : Prop extends Sourced u s where
  written : ∀ b ∈ s.written, b ∈ s.posted
  holds : Holds u s.server.userKeys s.written.getLast?
  count : chats u s.server + owed u s.server = n + s.written.length

theorem posted_step (h : s.step uuid u e = some s') : s'.posted = s.posted ++ posting u e := by
  rw [Registrations.step] at h
  split at h
  · cases h
  · obtain ⟨w, -, rfl⟩ := Option.map_eq_some_iff.1 h
    rfl

/-- What is taken was carried by the command that is executed. -/
theorem Sourced.taken (h : Sourced u s) {b : Body} (hop : s.op u e = some (.take b)) :
    b ∈ s.posted := by
  unfold op at hop
  split at hop
  · split at hop
    · split at hop <;> cases hop
    · next v q m hc =>
      split at hop
      · next hv =>
        obtain rfl := Vacancy.Op.take.inj (Option.some.inj hop)
        exact h.commands _ (List.mem_of_mem_head? hc) hv
      · cases hop
    · cases hop
  · cases hop

/-- **The account after a step.** -/
theorem Accounted.step {n : ℕ} (h : Accounted u n s) (hstep : s.step uuid u e = some s') :
    Accounted u n s' := by
  have hlogin : ∀ q o, .hgetall u q o ∉ s.server.redisDB.replies := fun q o hr => h.replies _ hr rfl
  refine ⟨h.toSourced.step hstep, ?_, ?_, ?_⟩ <;>
    rcases step_cases hstep hlogin with ⟨hop, hw, hsame⟩ | ⟨b, hop, hw, hkeys, -, hcount⟩ |
      ⟨b, hop, hw, -, hwrite⟩
  · rw [hw, posted_step hstep]
    exact fun b hb => List.mem_append_left _ (h.written b hb)
  · rw [hw, posted_step hstep]
    exact fun b hb => List.mem_append_left _ (h.written b hb)
  · rw [hw, posted_step hstep]
    intro b' hb
    rcases List.mem_append.1 hb with hb | hb
    · exact List.mem_append_left _ (h.written b' hb)
    · rw [List.mem_singleton.1 hb]
      exact List.mem_append_left _ (h.toSourced.taken hop)
  · rw [hw]
    have hholds := h.holds
    cases hlast : s.written.getLast? with
    | none => rw [hlast] at hholds; exact hsame.keys.trans hholds
    | some b =>
      rw [hlast] at hholds
      obtain ⟨dict, hdict, hfields⟩ := hholds
      exact ⟨dict, hsame.keys.trans hdict, hfields⟩
  · rw [hw, hkeys]
    exact h.holds
  · rw [hw, List.getLast?_append, List.getLast?_singleton, Option.some_or]
    exact (hwrite _ h.holds).1
  · rw [hsame.chats, hw, h.count]
  · rw [hcount, hw, h.count]
  · rw [(hwrite _ h.holds).2, hw, h.count, List.length_append, List.length_singleton]
    omega

/-- The key is free as long as nothing is written. -/
theorem Accounted.key_eq_none {n : ℕ} (h : Accounted u n s) :
    s.server.userKeys (ascii "user:" ++ u) = none ↔ s.written = [] := by
  have hholds := h.holds
  cases hlast : s.written.getLast? with
  | none =>
    rw [hlast] at hholds
    exact iff_of_true hholds (List.getLast?_eq_none_iff.1 hlast)
  | some b =>
    rw [hlast] at hholds
    obtain ⟨dict, hdict, -⟩ := hholds
    refine iff_of_false (by rw [hdict]; exact Option.some_ne_none _) fun hnil => ?_
    rw [hnil] at hlast
    cases hlast

/-- **The web server as a vacancy**: what a step checks or takes, the vacancy does. -/
theorem simulates {n : ℕ} (hs : Accounted u n s)
    (hrun : Run (step uuid u) (fun _ _ => True) s es t) :
    ∃ os, Run Vacancy.next (fun _ _ => True) (s.vacancy u) os (t.vacancy u) ∧
      (Run (step uuid u) (fun s e => ∀ o, s.op u e = some o → (s.vacancy u).Exclusive o) s es t ↔
        Run Vacancy.next Vacancy.Exclusive (s.vacancy u) os (t.vacancy u)) := by
  have hlogin : ∀ {s : Registrations}, Accounted u n s →
      ∀ q o, .hgetall u q o ∉ s.server.redisDB.replies := fun h q o hr => h.replies _ hr rfl
  refine hrun.simulates (I := Accounted u n) (fun _ _ _ h hstep => h.step hstep) ?_ ?_ hs
  · intro s e s' h hstep hop
    rcases step_cases hstep (hlogin h) with ⟨-, hw, hsame⟩ | ⟨b, hop', -⟩ | ⟨b, hop', -⟩
    · exact Vacancy.ext (Quot.sound hsame.waiting) hw
    · cases hop.symm.trans hop'
    · cases hop.symm.trans hop'
  · intro s e s' o h hstep hop
    rcases step_cases hstep (hlogin h) with ⟨hop', -⟩ | ⟨b, hop', hw, -, hwaiting, -⟩ |
      ⟨b, hop', hw, hwaiting, -⟩
    · cases hop.symm.trans hop'
    · obtain rfl := Option.some.inj (hop.symm.trans hop')
      refine congrArg some (Vacancy.ext ?_ ?_)
      · by_cases hfree : (s.vacancy u).taken = []
        · rw [if_pos (h.key_eq_none.2 hfree)] at hwaiting
          rw [if_pos hfree]
          exact (Quot.sound hwaiting).symm
        · rw [if_neg (mt h.key_eq_none.1 hfree)] at hwaiting
          rw [if_neg hfree]
          exact (Quot.sound hwaiting).symm
      · rw [apply_ite Vacancy.taken, ite_self]
        exact hw.symm
    · obtain rfl := Option.some.inj (hop.symm.trans hop')
      have hmem : b ∈ (s.vacancy u).claimants := hwaiting.subset List.mem_cons_self
      have herase : (s.vacancy u).claimants.erase b = (s'.vacancy u).claimants := by
        have hcons : (s.vacancy u).claimants = b ::ₘ (s'.vacancy u).claimants :=
          (Quot.sound hwaiting).symm
        rw [hcons, Multiset.erase_cons_head]
      rw [Vacancy.next, if_pos hmem, herase]
      exact congrArg some (Vacancy.ext rfl hw.symm)

/-- A check is exclusive in the vacancy exactly if no registration is about to write. -/
theorem alone_iff {n : ℕ} (h : Accounted u n s) :
    Alone u s e ↔ ∀ o, s.op u e = some o → (s.vacancy u).Exclusive o := by
  have hwaiting : ((s.vacancy u).taken = [] → (s.vacancy u).claimants = 0) ↔
      (s.server.userKeys (ascii "user:" ++ u) = none → waiting u s.server = []) :=
    imp_congr h.key_eq_none.symm (Multiset.coe_eq_zero _)
  cases e with
  | userRun =>
    simp only [Alone, op]
    rcases s.server.redisDB.commands.head? with _ | ⟨v, q⟩ | ⟨v, q, m⟩ | ⟨v, q, m⟩
    case some.exists =>
      by_cases hv : v = u
      · simp only [if_pos hv, forall_prop_of_true hv, ← hwaiting]
        exact ⟨fun h o ho => Option.some.inj ho ▸ h, fun h => h _ rfl⟩
      · simp only [if_neg hv]
        exact iff_of_true (fun h => absurd h hv) fun o ho => by cases ho
    case some.hmset =>
      refine iff_of_true trivial fun o ho => ?_
      simp only at ho
      split at ho
      · obtain rfl := Option.some.inj ho
        trivial
      · cases ho
    all_goals exact iff_of_true trivial fun o ho => by cases ho
  | _ => exact iff_of_true trivial fun o ho => by cases ho

theorem posted_of_run (hrun : Run (step uuid u) (fun _ _ => True) s es t) :
    t.posted = s.posted ++ es.flatMap (posting u) := by
  induction hrun with
  | nil s => simp
  | cons _ hstep _ ih => rw [ih, posted_step hstep, List.flatMap_cons, List.append_assoc]

theorem mem_posting {q m : Bytes} (h : (q, m) ∈ es.flatMap (posting u)) :
    .postRegister u q m ∈ es := by
  obtain ⟨e, he, hb⟩ := List.mem_flatMap.1 h
  cases e with
  | postRegister v q' m' =>
    rw [posting] at hb
    split at hb
    · next hv =>
      obtain ⟨rfl, rfl⟩ := Prod.mk.inj (List.mem_singleton.1 hb)
      exact hv ▸ he
    · cases hb
  | _ => cases hb

/-- Before the first request. -/
theorem Unregistered.accounted {s : WebServer} (h : Unregistered u s) :
    Accounted u (chats u s) ⟨s, [], []⟩ where
  commands c hc := by
    cases c with
    | hgetall v q => exact h.commands _ hc
    | «exists» v q m => exact fun hv => absurd hv (h.commands _ hc)
    | hmset v q m => exact fun hv => absurd hv (h.commands _ hc)
  replies r hr := by
    cases r with
    | hgetall v q o => exact h.replies _ hr
    | «exists» v q m x => exact fun hv => absurd hv (h.replies _ hr)
    | hmset v x => trivial
  written b hb := by cases hb
  holds := h.key
  count := by
    rw [owed, List.countP_eq_zero.2 fun r hr => ?_]
    · rfl
    · cases r with
      | hmset v x =>
        have hv : v ≠ u := h.replies _ hr
        rw [confirmed_of_ne hv]
        exact Bool.false_ne_true
      | _ => exact Bool.false_ne_true

theorem Unregistered.waiting_eq_nil {s : WebServer} (h : Unregistered u s) : waiting u s = [] := by
  refine List.append_eq_nil_iff.2 ⟨List.flatMap_eq_nil_iff.2 fun r hr => ?_,
    List.flatMap_eq_nil_iff.2 fun c hc => ?_⟩
  · unfold granted
    split
    · exact if_neg (h.replies _ hr)
    · rfl
  · unfold setting
    split
    · exact if_neg (h.commands _ hc)
    · rfl

/-- **Registration is unique.** From a state in which nothing is asked about a user, and the user's key is
free, in every run in which the user does not log in and no registration finds the key free while another
is about to write it, one registration at most is answered with the chat, and what it carries is stored.
A run in which a registration does ends with more than one, once all are served. -/
theorem registered_once_of_run {s : WebServer} (hs : Unregistered u s)
    (hrun : Run (step uuid u) (fun _ _ => True) ⟨s, [], []⟩ es t) :
    (Run (step uuid u) (Alone u) ⟨s, [], []⟩ es t → OneRegistered u s es t) ∧
      (waiting u t.server = [] → owed u t.server = 0 → OneRegistered u s es t →
        Run (step uuid u) (Alone u) ⟨s, [], []⟩ es t) := by
  have hstart := hs.accounted
  have hend : Accounted u (chats u s) t :=
    hrun.invariant (fun _ _ _ h _ hstep => h.step hstep) hstart
  have htotal : (vacancy u ⟨s, [], []⟩).total ≤ 1 := by
    rw [vacancy, hs.waiting_eq_nil]
    exact Nat.zero_le 1
  obtain ⟨os, habs, hiff⟩ := simulates hstart hrun
  -- the two conditions agree on the states of the run
  have halone : Run (step uuid u) (Alone u) ⟨s, [], []⟩ es t ↔ (t.vacancy u).total ≤ 1 := by
    rw [← Vacancy.run_iff htotal habs, ← hiff]
    constructor
    · exact fun h => h.mono_of_invariant (I := Accounted u (chats u s))
        (fun _ _ _ h _ hstep => h.step hstep) (fun _ _ h => (alone_iff h).1) hstart
    · exact fun h => h.mono_of_invariant (I := Accounted u (chats u s))
        (fun _ _ _ h _ hstep => h.step hstep) (fun _ _ h => (alone_iff h).2) hstart
  have hcount := hend.count
  have hlen : (t.vacancy u).total = (waiting u t.server).length + t.written.length := rfl
  rw [halone]
  constructor
  · intro hone
    refine ⟨by omega, fun hchats => ?_⟩
    obtain ⟨b, hb⟩ : ∃ b, t.written = [b] := List.length_eq_one_iff.1 (by omega)
    have hholds := hend.holds
    rw [hb] at hholds
    have hposted := hend.written b (hb ▸ List.mem_cons_self)
    rw [posted_of_run hrun, List.nil_append] at hposted
    exact ⟨b.1, b.2, mem_posting hposted, hb, hholds⟩
  · rintro hnil hzero ⟨hle, -⟩
    rw [hlen, hnil, List.length_nil]
    omega

/-! ## Two registrations -/

/-- The web server has just started, and nobody is registered. -/
theorem unregistered_start (u : Bytes) : Unregistered u start where
  key := rfl
  commands _ hc := by cases hc
  replies _ hr := by cases hr

/-- Two registrations of `u`, the second one checked after the first one is written. -/
def registerInTurn : List Event :=
  [.postRegister (ascii "u") (ascii "p") (ascii "e"), .userRun, .userCallback, .userRun,
    .postRegister (ascii "u") (ascii "q") (ascii "f"), .userRun, .userCallback, .userCallback]

/-- The same requests, both checked before the first one is written. -/
def registerTogether : List Event :=
  [.postRegister (ascii "u") (ascii "p") (ascii "e"), .postRegister (ascii "u") (ascii "q") (ascii "f"),
    .userRun, .userRun, .userCallback, .userCallback, .userRun, .userRun, .userCallback, .userCallback]

/-- The second registration is refused. -/
theorem registered_inTurn : ∃ t, Run (step letters (ascii "u")) (Alone (ascii "u")) ⟨start, [], []⟩
    registerInTurn t ∧ chats (ascii "u") t.server = 1 ∧
      OneRegistered (ascii "u") start registerInTurn t := by
  have hany : (exec (step letters (ascii "u")) (Alone (ascii "u")) ⟨start, [], []⟩ registerInTurn).any
      (fun t => decide (chats (ascii "u") t.server = 1)) = true := by decide +kernel
  obtain ⟨t, hrun, hchats⟩ := Run.exists_of_exec hany
  exact ⟨t, hrun, hchats, (registered_once_of_run (unregistered_start _)
    (hrun.mono fun _ _ _ => trivial)).1 hrun⟩

/-- **Two registrations of one user** are both answered with the chat, and the second one replaces the
password of the first one. -/
theorem registered_twice : Unregistered (ascii "u") start ∧
    ∃ t, Run (step letters (ascii "u")) (fun _ _ => True) ⟨start, [], []⟩ registerTogether t ∧
      chats (ascii "u") t.server = 2 ∧
      t.written = [(ascii "p", ascii "e"), (ascii "q", ascii "f")] ∧
      (t.server.userKeys.hashAt (ascii "user:u")).lookup (ascii "password") = some (ascii "q") ∧
      ¬OneRegistered (ascii "u") start registerTogether t := by
  have hany : (exec (step letters (ascii "u")) (fun _ _ => True) ⟨start, [], []⟩ registerTogether).any
      (fun t => decide (chats (ascii "u") t.server = 2 ∧
        t.written = [(ascii "p", ascii "e"), (ascii "q", ascii "f")] ∧
        (t.server.userKeys.hashAt (ascii "user:u")).lookup (ascii "password") = some (ascii "q"))) = true := by
    decide +kernel
  obtain ⟨t, hrun, hchats, hwritten, hpassword⟩ := Run.exists_of_exec hany
  refine ⟨unregistered_start _, t, hrun, hchats, hwritten, hpassword, fun h => ?_⟩
  have hle := h.1
  rw [hchats] at hle
  exact absurd hle (by decide)

end Registrations

end MutexIM.Web
