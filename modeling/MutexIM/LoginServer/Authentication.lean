import MutexIM.LoginServer.Server
import MutexIM.MessageServer.Presence

/-!
# Who may come online

The login server and the message servers share Redis. A handshake takes a user whose hash
`loginMap:<user>` is not empty for one who has logged in; but `onMsgServerRequest` fills that hash
before any password is seen.

* `System.step` is a request to one of the servers, with the users that passed the login check and
  those that came online as history.
* `authenticated_of_run`: who came online has passed the check before, in every run in which a
  handshake is made only for users with a session id and no session id is spliced into a command.
* `online_without_login`: a `MsgServerRequest` and a handshake put a user online.
-/

namespace MutexIM.LoginServer

open Bytes MessageServer

/-- The login server, which keeps no state, and the message servers on one Redis server. -/
structure System (ι : Type*) where
  servers : ι → MessageServer.Server
  redis : Redis
  passed : List Bytes
  wentOnline : List Bytes

namespace System

variable {ι : Type*} [DecidableEq ι] (md5 : Bytes → Bytes)

/-- A request to the login server, a step of a message server, or another program writes a key that
is none of the logins. -/
inductive Event (ι : Type*)
  | msgServer (request : MsgServerRequest)
  | login (sessionID : Bytes) (nTimeTamp : ℤ) (request : LoginRequest)
  | server (i : ι) (e : MessageServer.Server.Event)
  | other (key : Bytes) (v : Option Value)

/-- The user that a message server puts online. -/
def putOnline (r : Redis) : MessageServer.Server.Event → List Bytes
  | .handshake _ request _ => if Binds r request.userId then [request.userId] else []
  | _ => []

def step (s : System ι) : Event ι → Option (System ι)
  | .msgServer request =>
    (onMsgServerRequest s.redis request).map fun (_, r) => { s with redis := r }
  | .login sessionID nTimeTamp request =>
    (onLoginRequest md5 sessionID nTimeTamp s.redis request).map fun (_, r) =>
      { s with
        redis := r
        passed := s.passed ++ if Passes md5 s.redis request then [request.userId] else [] }
  | .server i e =>
    ((s.servers i).step s.redis e).map fun (sv, r) =>
      { s with
        servers := Function.update s.servers i sv
        redis := r
        wentOnline := s.wentOnline ++ putOnline s.redis e }
  | .other key v =>
    if ascii "loginMap:" <+: key then none
    else some { s with redis := { s.redis with keys := Function.update s.redis.keys key v } }

/-- The servers have just started. -/
def start (sockets : ι → Bytes) (r : Redis) : System ι where
  servers i := .start (sockets i)
  redis := r
  passed := []
  wentOnline := []

/-- A handshake is made for users with a session id, the users who log in have ids that are C strings,
and the word `sessionid` is not spliced into a command. -/
def Guarded (s : System ι) : Event ι → Prop
  | .msgServer request => ascii "sessionid" ∉ spliced s.redis request.userId
  | .login _ _ request => Passes md5 s.redis request → NulFree request.userId
  | .server _ (.handshake _ request _) => Binds s.redis request.userId →
      ascii "sessionid" ∈ s.redis.keys.hashAt (ascii "loginMap:" ++ request.userId)
  | _ => True

instance (s : System ι) (e : Event ι) : Decidable (s.Guarded md5 e) := by
  unfold Guarded
  split <;> infer_instance

end System

variable {ι : Type*} [DecidableEq ι] {md5 : Bytes → Bytes}

/-- Session ids and presence are those of users who have passed the check. -/
structure Authentic (s : System ι) : Prop where
  of_sessionid : ∀ u, ascii "sessionid" ∈ s.redis.keys.hashAt (ascii "loginMap:" ++ u) → u ∈ s.passed
  of_wentOnline : ∀ u ∈ s.wentOnline, u ∈ s.passed

theorem loginMap_ne_online (u v : Bytes) : ascii "loginMap:" ++ u ≠ ascii "online:" ++ v := by
  simp [ascii]

theorem loginMap_ne_onlineGroup (u g : Bytes) :
    ascii "loginMap:" ++ u ≠ ascii "onlineGroup:" ++ g := by
  simp [ascii]

/-- **A step of the system** keeps session ids and presence to users who have passed the check. -/
theorem Authentic.step {s s' : System ι} {e : System.Event ι} (h : Authentic s)
    (hok : s.Guarded md5 e) (hstep : s.step md5 e = some s') : Authentic s' := by
  cases e with
  | msgServer request =>
    obtain ⟨⟨response, r⟩, hr, rfl⟩ := Option.map_eq_some_iff.1 hstep
    refine ⟨fun u hu => ?_, h.of_wentOnline⟩
    exact h.of_sessionid u (sessionid_of_onMsgServerRequest hr hok hu)
  | login sessionID nTimeTamp request =>
    obtain ⟨⟨response, r⟩, hr, rfl⟩ := Option.map_eq_some_iff.1 hstep
    refine ⟨fun u hu => ?_, fun u hu => List.mem_append_left _ (h.of_wentOnline u hu)⟩
    rcases sessionid_of_onLoginRequest hr hu with hold | ⟨hpass, rfl⟩
    · exact List.mem_append_left _ (h.of_sessionid u hold)
    · rw [if_pos hpass, cstr_eq_self (hok hpass)]
      exact List.mem_append_right _ (List.mem_singleton_self _)
  | server i e =>
    obtain ⟨out, hout, rfl⟩ := Option.map_eq_some_iff.1 hstep
    refine ⟨fun u hu => ?_, fun u hu => ?_⟩
    · rw [Keyspace.hashAt_congr (MessageServer.Server.step_of_ne hout (loginMap_ne_online u)
        (loginMap_ne_onlineGroup u))] at hu
      exact h.of_sessionid u hu
    · rcases List.mem_append.1 hu with hu | hu
      · exact h.of_wentOnline u hu
      · cases e with
        | handshake conn request nowtime =>
          simp only [System.putOnline] at hu
          split at hu
          · next hb =>
            obtain rfl := List.mem_singleton.1 hu
            exact h.of_sessionid _ (hok hb)
          · cases hu
        | accept => cases hu
        | disconnect s => cases hu
        | stopAll => cases hu
  | other key v =>
    simp only [System.step] at hstep
    split at hstep
    · cases hstep
    · next hkey =>
      obtain rfl := Option.some.inj hstep
      refine ⟨fun u hu => h.of_sessionid u ?_, h.of_wentOnline⟩
      have hne : ascii "loginMap:" ++ u ≠ key := by
        rintro rfl
        exact hkey (List.prefix_append _ _)
      rwa [Keyspace.hashAt_congr (Function.update_of_ne hne ..)] at hu

/-- **Who comes online has logged in.** From no logins, in every run in which a handshake that puts a
user online finds a session id in the user's hash, every user put online has passed the check of a
`LoginRequest` before; the ids of these requests hold no zero byte, and the ids of
`MsgServerRequest`s and the sockets have no word `sessionid` to be spliced into a command. -/
theorem authenticated_of_run {sockets : ι → Bytes} {r : Redis} {es : List (System.Event ι)}
    {s : System ι} (hlogin : ∀ u, r.keys (ascii "loginMap:" ++ u) = none)
    (hrun : Run (System.step md5) (System.Guarded md5) (System.start sockets r) es s) :
    ∀ u ∈ s.wentOnline, u ∈ s.passed := by
  have h : Authentic s := by
    refine hrun.invariant (I := Authentic) (fun _ _ _ h hok hstep => h.step hok hstep) ⟨?_, ?_⟩
    · intro u hu
      have hnone : (System.start sockets r).redis.keys (ascii "loginMap:" ++ u) = none := hlogin u
      rw [Keyspace.hashAt, hnone] at hu
      cases hu
    · intro u hu
      cases hu
  exact h.of_wentOnline

/-- One message server, and the user `a` with the password `a`. -/
def userRedis : Redis where
  keys k :=
    if k = ascii "serverRank" then some (.zset (.singleton (ascii "h:1") 100))
    else if k = ascii "user:a" then
      some (.hash ((AList.singleton (ascii "useId") (ascii "a")).insert (ascii "password") (ascii "a")))
    else none
  published := []

theorem userRedis_loginMap (u : Bytes) : userRedis.keys (ascii "loginMap:" ++ u) = none := by
  simp [userRedis, ascii]

/-- The digest of `a`. -/
def digestA : Bytes := [12, 193, 117, 185, 192, 241, 182, 168, 49, 195, 153, 226, 105, 119, 38, 97]

/-- MD5, as far as the password `a` needs it. -/
def md5A (s : Bytes) : Bytes := if s = ascii "a" then digestA else []

/-- The user `a` asks for a server, logs in, and comes online. -/
theorem authenticated_after_login :
    ∃ s, Run (System.step md5A) (System.Guarded md5A)
        (System.start (fun _ : Unit => ascii "h:1") userRedis)
        [.msgServer ⟨ascii "a"⟩, .login (ascii "1") 0 ⟨0, ascii "a", digestA⟩, .server () .accept,
          .server () (.handshake 0 ⟨0, ascii "a"⟩ 0)] s ∧
      s.wentOnline = [ascii "a"] ∧ ∀ u ∈ s.wentOnline, u ∈ s.passed := by
  have hexec : ((exec (System.step md5A) (System.Guarded md5A)
      (System.start (fun _ : Unit => ascii "h:1") userRedis)
      [.msgServer ⟨ascii "a"⟩, .login (ascii "1") 0 ⟨0, ascii "a", digestA⟩, .server () .accept,
        .server () (.handshake 0 ⟨0, ascii "a"⟩ 0)]).map System.wentOnline) =
      some [ascii "a"] := by decide +kernel
  obtain ⟨s, hexec, honline⟩ := Option.map_eq_some_iff.1 hexec
  exact ⟨s, .of_exec hexec, honline, authenticated_of_run userRedis_loginMap (.of_exec hexec)⟩

/-- The user `a` asks for a server, and comes online without a login. -/
theorem online_without_login :
    ∃ s, Run (System.step md5A) (fun _ _ => True)
        (System.start (fun _ : Unit => ascii "h:1") userRedis)
        [.msgServer ⟨ascii "a"⟩, .server () .accept,
          .server () (.handshake 0 ⟨0, ascii "a"⟩ 0)] s ∧
      s.redis.keys (ascii "online:a") = some (.str (ascii "h:1")) ∧
      s.wentOnline = [ascii "a"] ∧ s.passed = [] := by
  have hexec : ((exec (System.step md5A) (fun _ _ => True)
      (System.start (fun _ : Unit => ascii "h:1") userRedis)
      [.msgServer ⟨ascii "a"⟩, .server () .accept,
        .server () (.handshake 0 ⟨0, ascii "a"⟩ 0)]).map fun s =>
          (s.redis.keys (ascii "online:a"), s.wentOnline, s.passed)) =
      some (some (.str (ascii "h:1")), [ascii "a"], []) := by decide +kernel
  obtain ⟨s, hexec, hend⟩ := Option.map_eq_some_iff.1 hexec
  obtain ⟨hkey, hend⟩ := Prod.mk.inj hend
  obtain ⟨honline, hpassed⟩ := Prod.mk.inj hend
  exact ⟨s, .of_exec hexec, hkey, honline, hpassed⟩

end MutexIM.LoginServer
