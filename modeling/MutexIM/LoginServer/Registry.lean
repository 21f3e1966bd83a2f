import MutexIM.LoginServer.Ranks

/-!
# The message servers to choose from

A message server enters its socket into `serverRank` when it starts and takes it out when it stops. The
login server changes scores with `ZINCRBY`, which enters a member that is not there; and for a
`LoginRequest` that is refused it takes the member from the hash of the user.

* `Registry.step` is a server that starts or stops, or a request to the login server.
* `Registry.running_of_run`: only servers that run are ranked, in every run in which the logins that are
  refused are of users who have a server that runs.
* `Registry.ranked_without_server`: after the login of a user without a server, the socket `:` is picked.
-/

namespace MutexIM.LoginServer

open Bytes

/-- The login server, which keeps no state, and the message servers that run. -/
structure Registry where
  redis : Redis
  running : List Endpoint

namespace Registry

inductive Event
  | start (e : Endpoint)
  | shutdown (e : Endpoint)
  | request (q : Request)

/-- A message server starts (`Server::Server`) or stops (`Server::~Server`), or the login server gets a
request. -/
def step (md5 : Bytes → Bytes) (s : Registry) : Event → Option Registry
  | .start e => some
      { redis := CRedis.zadd s.redis (ascii "serverRank") 100 e.strServerSocket
        running := e :: s.running }
  | .shutdown e =>
    if e ∈ s.running then some
      { redis := CRedis.zrem s.redis (ascii "serverRank") e.strServerSocket
        running := s.running.erase e }
    else none
  | .request q => (serve md5 s.redis q).map fun r => { s with redis := r }

/-- The condition on an event: where a `LoginRequest` is refused, the address and the port in the hash of
the user are those of a server that runs. -/
def Returns (md5 : Bytes → Bytes) (s : Registry) : Event → Prop
  | .request (.login _ _ request) => Refused md5 s.redis request →
      ∃ e ∈ s.running, cstr (notedSocket s.redis request.userId) = e.strServerSocket
  | _ => True

instance (md5 : Bytes → Bytes) (s : Registry) (e : Event) : Decidable (s.Returns md5 e) :=
  match e with
  | .request (.login _ _ _) => inferInstanceAs (Decidable (_ → _))
  | .request (.msgServer _) | .start _ | .shutdown _ => isTrue trivial

/-- Every member of `serverRank` is the socket of a server that runs. -/
def Ranked (s : Registry) : Prop :=
  ∀ m ∈ s.redis.keys.ranks (ascii "serverRank"), ∃ e ∈ s.running, m = e.strServerSocket

variable {md5 : Bytes → Bytes} {s s' : Registry} {e : Event}

theorem Ranked.pick (h : s.Ranked) {start stop : ℤ} {socket : Bytes}
    (hsocket : socket ∈ CRedis.zrevrange s.redis (ascii "serverRank") start stop) :
    ∃ e ∈ s.running, socket = e.strServerSocket := by
  obtain ⟨m, hm, rfl⟩ := CRedis.mem_ranks_of_mem_zrevrange hsocket
  obtain ⟨e, he, rfl⟩ := h m hm
  exact ⟨e, he, cstr_eq_self e.nulFree_strServerSocket⟩

/-- A change of a score ranks the socket it is for. -/
theorem Ranked.zincrby (h : s.Ranked) {r : Redis} {d : ℤ} {m : Bytes}
    (hr : r.keys (ascii "serverRank") = s.redis.keys (ascii "serverRank"))
    (hm : ∃ e ∈ s.running, cstr m = e.strServerSocket) :
    Ranked { s with redis := CRedis.zincrby r (ascii "serverRank") d m } := by
  intro x hx
  have hx : x ∈ (r.keys.zincrby (ascii "serverRank") d (cstr m)).2.ranks (ascii "serverRank") := hx
  rcases Keyspace.mem_ranks_zincrby hx with hx | rfl
  · rw [Keyspace.ranks, hr] at hx
    exact h x hx
  · exact hm

theorem Ranked.congr (h : s.Ranked) {r : Redis}
    (hr : r.keys (ascii "serverRank") = s.redis.keys (ascii "serverRank")) :
    Ranked { s with redis := r } := by
  unfold Ranked Keyspace.ranks at h ⊢
  rw [hr]
  exact h

/-- **A step of the registry** ranks servers that run. -/
theorem Ranked.step (h : s.Ranked) (hok : s.Returns md5 e) (hstep : s.step md5 e = some s') :
    s'.Ranked := by
  cases e with
  | start e =>
    obtain rfl := Option.some.inj hstep
    intro x hx
    have hx : x ∈ (s.redis.keys.zadd (ascii "serverRank") 100 (cstr e.strServerSocket)).2.ranks
      (ascii "serverRank") := hx
    rcases Keyspace.mem_ranks_zadd hx with hx | rfl
    · obtain ⟨e', he', rfl⟩ := h x hx
      exact ⟨e', List.mem_cons_of_mem _ he', rfl⟩
    · exact ⟨e, List.mem_cons_self, cstr_eq_self e.nulFree_strServerSocket⟩
  | shutdown e =>
    simp only [Registry.step] at hstep
    split at hstep
    · obtain rfl := Option.some.inj hstep
      intro x hx
      have hx : x ∈ (s.redis.keys.zrem (ascii "serverRank") (cstr e.strServerSocket)).2.ranks
        (ascii "serverRank") := hx
      obtain ⟨hx, hne⟩ := Keyspace.mem_ranks_zrem hx
      rw [cstr_eq_self e.nulFree_strServerSocket] at hne
      obtain ⟨e', he', rfl⟩ := h x hx
      exact ⟨e', (List.mem_erase_of_ne fun heq => hne (congrArg _ heq)).2 he', rfl⟩
    · cases hstep
  | request q =>
    obtain ⟨r, hr, rfl⟩ := Option.map_eq_some_iff.1 hstep
    cases q with
    | msgServer request =>
      obtain ⟨⟨response, r₁⟩, hr₁, rfl⟩ := Option.map_eq_some_iff.1 hr
      obtain rfl | ⟨socket, hpick, -, hhmset⟩ := onMsgServerRequest_cases hr₁
      · exact h
      · obtain ⟨e, he, rfl⟩ := h.pick (hpick ▸ List.mem_singleton_self socket)
        refine (h.zincrby (d := -10) rfl ⟨e, he, cstr_eq_self e.nulFree_strServerSocket⟩).congr ?_
        exact CRedis.keys_hmset_of_not_prefix (by decide) (by decide) hhmset (by decide)
    | login sessionID nTimeTamp request =>
      obtain ⟨⟨response, r₁⟩, hr₁, rfl⟩ := Option.map_eq_some_iff.1 hr
      obtain rfl | hkeys | ⟨hrefused, rfl⟩ := keys_of_onLoginRequest hr₁
      · exact h
      · refine h.congr ((hkeys _ serverRank_not_user).trans (Keyspace.hset_of_ne ?_))
        rw [cstr_loginMap]
        exact (loginMap_ne_serverRank _).symm
      · refine h.zincrby (CRedis.keys_del_of_ne ?_) (hok hrefused)
        rw [cstr_loginMap]
        exact (loginMap_ne_serverRank _).symm

/-- **Only servers that run are ranked**, and so is the one that is picked, in every run in which a
refused `LoginRequest` finds a server that runs in the hash of its user. -/
theorem running_of_run {r : Redis} {es : List Event} (hrank : r.keys (ascii "serverRank") = none)
    (hrun : Run (Registry.step md5) (Returns md5) ⟨r, []⟩ es s) :
    s.Ranked ∧ ∀ socket ∈ CRedis.zrevrange s.redis (ascii "serverRank") 0 0,
      ∃ e ∈ s.running, socket = e.strServerSocket := by
  have h : s.Ranked := by
    refine hrun.invariant (I := Ranked) (fun _ _ _ h hok hstep => h.step hok hstep) fun m hm => ?_
    rw [Keyspace.ranks, hrank] at hm
    exact absurd hm (AList.notMem_empty m)
  exact ⟨h, fun _ => h.pick⟩

/-- No server, and the user `a` with the password `a`. -/
def emptyRedis : Redis :=
  { userRedis with keys := Function.update userRedis.keys (ascii "serverRank") none }

theorem emptyRedis_serverRank : emptyRedis.keys (ascii "serverRank") = none := by
  simp [emptyRedis]

/-- A server starts, the user `a` asks for one and mistypes the password, another server starts, and the
first one stops. -/
def refusedLogin : List Event :=
  [.start endpoint, .request (.msgServer ⟨ascii "a"⟩),
    .request (.login (ascii "1") 0 ⟨0, ascii "a", []⟩), .start { endpoint with port := 2 },
    .shutdown endpoint]

theorem ranked_after_refused_login :
    ∃ s, Run (Registry.step md5A) (Returns md5A) ⟨emptyRedis, []⟩ refusedLogin s ∧
      CRedis.zrevrange s.redis (ascii "serverRank") 0 0 = [ascii "h:2"] ∧
      s.Ranked ∧ ∀ socket ∈ CRedis.zrevrange s.redis (ascii "serverRank") 0 0,
        ∃ e ∈ s.running, socket = e.strServerSocket := by
  have hany : (exec (Registry.step md5A) (Returns md5A) ⟨emptyRedis, []⟩ refusedLogin).any (fun s =>
      decide (CRedis.zrevrange s.redis (ascii "serverRank") 0 0 = [ascii "h:2"])) = true := by
    decide +kernel
  obtain ⟨s, hrun, hpick⟩ := Run.exists_of_exec hany
  exact ⟨s, hrun, hpick, running_of_run emptyRedis_serverRank hrun⟩

/-- A server starts, a login of the user `b`, who does not exist, is refused, and the server stops: now
the socket `:` is picked. -/
theorem ranked_without_server :
    ∃ s, Run (Registry.step md5A) (fun _ _ => True) ⟨emptyRedis, []⟩
        [.start endpoint, .request (.login (ascii "1") 0 ⟨0, ascii "b", []⟩), .shutdown endpoint] s ∧
      s.running = [] ∧ ascii ":" ∈ s.redis.keys.ranks (ascii "serverRank") ∧
      CRedis.zrevrange s.redis (ascii "serverRank") 0 0 = [ascii ":"] :=
  Run.exists_of_exec (p := fun s : Registry => s.running = [] ∧
    ascii ":" ∈ s.redis.keys.ranks (ascii "serverRank") ∧
    CRedis.zrevrange s.redis (ascii "serverRank") 0 0 = [ascii ":"]) (by decide +kernel)

end Registry

end MutexIM.LoginServer
