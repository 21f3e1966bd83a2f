import MutexIM.LoginServer.Ranks

/-!
# Spreading users over servers

Every `MsgServerRequest` is assigned to a server with the highest score, which loses ten points. Where
several servers have it, any one may come first in the range.

* `Spread.pick`: lowering a highest value keeps the values within one step of each other.
* `onMsgServerRequestWith` is `onMsgServerRequest` with the result of `ZREVRANGE`.
* `Scores.step`: a request lowers the score of the server it is assigned to, and no other.
* `assigned_balanced_of_run`: the numbers of requests assigned to two servers differ by at most one.
-/

namespace MutexIM.LoginServer

open Bytes

/-! ## Lowering the highest value -/

section Spread

variable {ι : Type*} [DecidableEq ι]

/-- The values on `S` are within `d` of each other. -/
def Spread (S : Set ι) (d : ℤ) (f : ι → ℤ) : Prop := ∀ x ∈ S, ∀ y ∈ S, f x ≤ f y + d

variable {S : Set ι} {d : ℤ} {f : ι → ℤ} {x : ι}

/-- **Lowering a highest value by the width** keeps the values within it. -/
theorem Spread.pick (h : Spread S d f) (hd : 0 ≤ d) (hx : x ∈ S) (hmax : ∀ y ∈ S, f y ≤ f x) :
    Spread S d (Function.update f x (f x - d)) := by
  intro y hy z hz
  have hyz := h y hy z hz
  have hxz := h x hx z hz
  have hyx := hmax y hy
  by_cases hyx' : y = x <;> by_cases hzx : z = x
  · subst hyx' hzx
    simpa using hd
  · subst hyx'
    rw [Function.update_self, Function.update_of_ne hzx]
    omega
  · subst hzx
    rw [Function.update_self, Function.update_of_ne hyx']
    omega
  · rw [Function.update_of_ne hyx', Function.update_of_ne hzx]
    exact hyz

end Spread

/-! ## Requests and the servers they are assigned to -/

/-- `Server::onMsgServerRequest` behind `ZREVRANGE`, which returned `vecRes`. -/
def onMsgServerRequestWith (vecRes : List Bytes) (r : Redis) (request : MsgServerRequest) :
    Option (Option MsgServResponse × Redis) :=
  match vecRes with
  | [socket] =>
    let r := CRedis.zincrby r (ascii "serverRank") (-10) socket
    if 58 ∈ socket then
      let strAddress := addressOf socket
      let strPort := portOf socket
      let response := { result := .success, address := strAddress, port := atoi strPort }
      let key := ascii "loginMap:" ++ request.userId
      (CRedis.hmset r key [(ascii "address", strAddress), (ascii "port", strPort)]).map
        fun r => (some response, r)
    else none
  | _ => some (none, r)

theorem onMsgServerRequest_eq (r : Redis) (request : MsgServerRequest) :
    onMsgServerRequest r request =
      onMsgServerRequestWith (CRedis.zrevrange r (ascii "serverRank") 0 0) r request := rfl

/-- The socket has the highest score. -/
def Highest (r : Redis) (socket : Bytes) : Prop :=
  ∃ score, (r.keys.ranks (ascii "serverRank")).lookup socket = some score ∧
    ∀ socket' score', (r.keys.ranks (ascii "serverRank")).lookup socket' = some score' → score' ≤ score

/-- A request, and the member that the range of one member holds. -/
abbrev Assignment := MsgServerRequest × Bytes

/-- Redis after a request. -/
def assign (r : Redis) (a : Assignment) : Option Redis :=
  (onMsgServerRequestWith [a.2] r a.1).map Prod.snd

/-- The number of requests assigned to a server. -/
def assigned (as : List Assignment) (e : Endpoint) : ℕ := (as.map Prod.snd).count e.strServerSocket

/-- The members of `serverRank` are the sockets of the servers, with the given scores. -/
def Scores (S : List Endpoint) (r : Redis) (f : Bytes → ℤ) : Prop :=
  ∀ m z, (r.keys.ranks (ascii "serverRank")).lookup m = some z ↔
    z = f m ∧ ∃ e ∈ S, m = e.strServerSocket

/-- The sockets of the servers. -/
def sockets (S : List Endpoint) : Set Bytes := {m | ∃ e ∈ S, m = e.strServerSocket}

section Assignments

variable {S : List Endpoint} {r r' : Redis} {f : Bytes → ℤ} {a : Assignment} {as : List Assignment}

theorem Scores.mem_of_highest (h : Scores S r f) {socket : Bytes} (hhigh : Highest r socket) :
    socket ∈ sockets S ∧ ∀ m ∈ sockets S, f m ≤ f socket := by
  obtain ⟨score, hscore, hmax⟩ := hhigh
  obtain ⟨rfl, hmem⟩ := (h socket score).1 hscore
  exact ⟨hmem, fun m hm => hmax m (f m) ((h m _).2 ⟨rfl, hm⟩)⟩

/-- **A request** lowers the score of its server by ten. -/
theorem Scores.step (h : Scores S r f) (hhigh : Highest r a.2) (hstep : assign r a = some r') :
    Scores S r' (Function.update f a.2 (f a.2 - 10)) := by
  obtain ⟨⟨e, he, hsocket⟩, -⟩ := h.mem_of_highest hhigh
  have hcolon : 58 ∈ a.2 := by
    rw [hsocket, Endpoint.strServerSocket]
    simp [ascii]
  have hcstr : cstr a.2 = a.2 := hsocket ▸ cstr_eq_self e.nulFree_strServerSocket
  obtain ⟨⟨response, r₁⟩, hr₁, rfl⟩ := Option.map_eq_some_iff.1 hstep
  simp only [onMsgServerRequestWith, if_pos hcolon] at hr₁
  obtain ⟨r₂, hr₂, heq⟩ := Option.map_eq_some_iff.1 hr₁
  obtain ⟨-, rfl⟩ := Prod.mk.inj heq
  -- the hash that is written is one of the users
  have hranks : r₂.keys.ranks (ascii "serverRank") =
      (r.keys.zincrby (ascii "serverRank") (-10) a.2).2.ranks (ascii "serverRank") := by
    rw [Keyspace.ranks, Keyspace.ranks, CRedis.keys_hmset_of_not_prefix (by decide) (by decide) hr₂
      (by decide), CRedis.zincrby, hcstr]
    rfl
  have hself := (h a.2 (f a.2)).2 ⟨rfl, e, he, hsocket⟩
  have hmem : a.2 ∈ r.keys.ranks (ascii "serverRank") :=
    AList.lookup_isSome.1 (Option.isSome_iff_exists.2 ⟨_, hself⟩)
  intro m z
  rw [hranks, Keyspace.lookup_zincrby_of_mem hmem]
  by_cases hm : m = a.2
  · subst hm
    rw [if_pos rfl, hself, Function.update_self, Option.getD_some, Option.some.injEq, eq_comm]
    exact (and_iff_left ⟨e, he, hsocket⟩).symm
  · rw [if_neg hm, Function.update_of_ne hm]
    exact h m z

/-- **The scores after a run**: ten points less for each request assigned, and within ten points of each
other. -/
theorem Scores.run (h : Scores S r f) (hspread : Spread (sockets S) 10 f)
    (hrun : Run assign (fun r a => Highest r a.2) r as r') :
    ∃ f', Scores S r' f' ∧ Spread (sockets S) 10 f' ∧
      ∀ m, f' m = f m - 10 * ((as.map Prod.snd).count m : ℤ) := by
  induction hrun generalizing f with
  | nil r => exact ⟨f, h, hspread, fun m => by simp⟩
  | @cons r r₁ r' a as hhigh hstep _ ih =>
    obtain ⟨hmem, hmax⟩ := h.mem_of_highest hhigh
    obtain ⟨f', hscores, hspread', hf'⟩ :=
      ih (h.step hhigh hstep) (hspread.pick (by norm_num) hmem hmax)
    refine ⟨f', hscores, hspread', fun m => ?_⟩
    rw [hf', List.map_cons, List.count_cons]
    by_cases hm : m = a.2
    · subst hm
      rw [Function.update_self, beq_self_eq_true, if_pos rfl]
      omega
    · rw [Function.update_of_ne hm, if_neg (by simpa using Ne.symm hm), Nat.add_zero]

/-- The range that Redis returns holds one member with the highest score. -/
theorem Scores.zrevrange_highest (h : Scores S r f) (hS : S ≠ []) :
    ∃ socket, CRedis.zrevrange r (ascii "serverRank") 0 0 = [socket] ∧ Highest r socket := by
  obtain ⟨e, he⟩ := List.exists_mem_of_ne_nil S hS
  have hself := (h _ _).2 ⟨rfl, e, he, rfl⟩
  have hname : cstr (ascii "serverRank") = ascii "serverRank" := by decide
  rcases hv : r.keys (ascii "serverRank") with _ | (_ | _ | _ | _ | s)
  case some.zset =>
    have hmem : e.strServerSocket ∈ r.keys.ranks (ascii "serverRank") :=
      AList.lookup_isSome.1 (Option.isSome_iff_exists.2 ⟨_, hself⟩)
    have hranks : r.keys.ranks (ascii "serverRank") = s := by rw [Keyspace.ranks, hv]
    rw [hranks] at hmem
    obtain ⟨m, score, hrange, hscore, hmax⟩ := Keyspace.zrevrange_first hv hmem
    have hhigh : Highest r m := ⟨score, hranks ▸ hscore, hranks ▸ hmax⟩
    obtain ⟨⟨e', -, hm⟩, -⟩ := h.mem_of_highest hhigh
    refine ⟨m, ?_, hhigh⟩
    rw [CRedis.zrevrange, hname, hrange]
    exact congrArg (fun b => [b]) (hm ▸ cstr_eq_self e'.nulFree_strServerSocket)
  all_goals
    rw [Keyspace.ranks, hv] at hself
    cases hself

/-- A request is carried out where neither its user id nor the address holds a percent sign. -/
theorem Scores.exists_assign (h : Scores S r f) (hhigh : Highest r a.2) (hu : 37 ∉ a.1.userId)
    (hS : ∀ e ∈ S, 37 ∉ e.address) : ∃ r', assign r a = some r' := by
  obtain ⟨⟨e, he, hsocket⟩, -⟩ := h.mem_of_highest hhigh
  have hcolon : 58 ∈ a.2 := by
    rw [hsocket, Endpoint.strServerSocket]
    simp [ascii]
  have hpercent : 37 ∉ a.2 := by
    rw [hsocket, Endpoint.strServerSocket]
    intro hmem
    rcases List.mem_append.1 hmem with hmem | hmem
    · rcases List.mem_append.1 hmem with hmem | hmem
      · exact hS e he hmem
      · revert hmem
        decide
    · exact absurd (mem_itoa hmem).1 (by decide)
  have htext : 37 ∉ CRedis.hmsetText (ascii "loginMap:" ++ a.1.userId)
      [(ascii "address", addressOf a.2), (ascii "port", portOf a.2)] := by
    have haddress : 37 ∉ addressOf a.2 := fun hmem => hpercent (List.takeWhile_subset _ hmem)
    have hport : 37 ∉ portOf a.2 := fun hmem =>
      hpercent (List.dropWhile_subset _ (List.mem_of_mem_tail hmem))
    simp [CRedis.hmsetText, hu, haddress, hport, ascii]
  obtain ⟨r', hr'⟩ := CRedis.exists_hmset
    (r := CRedis.zincrby r (ascii "serverRank") (-10) a.2) htext
  exact ⟨r', by simp only [assign, onMsgServerRequestWith, if_pos hcolon, hr', Option.map_some]⟩

/-- **Assignments are balanced.** Where the members of `serverRank` are the sockets of one or more servers
with one score, the numbers of requests assigned to two servers differ by at most one after every
sequence of requests, whichever member with the highest score comes first in a range. The range that
Redis returns holds such a member, and a request is carried out for every id without a percent sign. -/
theorem assigned_balanced_of_run {c : ℤ} (hS : S ≠ []) (hinit : Scores S r fun _ => c)
    (hrun : Run assign (fun r a => Highest r a.2) r as r') :
    (∀ e ∈ S, ∀ e' ∈ S, assigned as e ≤ assigned as e' + 1) ∧
      (∃ socket, CRedis.zrevrange r' (ascii "serverRank") 0 0 = [socket] ∧ Highest r' socket) ∧
      ((∀ e ∈ S, 37 ∉ e.address) → ∀ a : Assignment, 37 ∉ a.1.userId → Highest r' a.2 →
        ∃ r'', assign r' a = some r'') := by
  have hspread : Spread (sockets S) 10 fun _ => c :=
    fun _ _ _ _ => le_add_of_nonneg_right (by norm_num)
  obtain ⟨f, hscores, hspread', hf⟩ := hinit.run hspread hrun
  refine ⟨fun e he e' he' => ?_, hscores.zrevrange_highest hS, fun hpercent a hu hhigh =>
    hscores.exists_assign hhigh hu hpercent⟩
  have hle := hspread' _ ⟨e', he', rfl⟩ _ ⟨e, he, rfl⟩
  rw [hf, hf] at hle
  unfold assigned
  omega

end Assignments

/-- Two servers with the score 100. -/
def twoServers : Redis where
  keys k :=
    if k = ascii "serverRank" then
      some (.zset ((AList.singleton (ascii "h:1") 100).insert (ascii "h:2") 100))
    else none
  published := []

theorem scores_twoServers :
    Scores [endpoint, { endpoint with port := 2 }] twoServers fun _ => 100 := by
  intro m z
  have hkey : twoServers.keys (ascii "serverRank") =
      some (.zset ((AList.singleton (ascii "h:1") 100).insert (ascii "h:2") 100)) := by
    simp [twoServers]
  have hsocket : endpoint.strServerSocket = ascii "h:1" := by decide
  have hsocket' : Endpoint.strServerSocket { endpoint with port := 2 } = ascii "h:2" := by decide
  have hex : (∃ e ∈ [endpoint, { endpoint with port := 2 }], m = e.strServerSocket) ↔
      m = ascii "h:1" ∨ m = ascii "h:2" := by simp [hsocket, hsocket']
  rw [Keyspace.ranks, hkey, hex, ← AList.insert_empty]
  by_cases hm : m = ascii "h:2"
  · rw [hm, AList.lookup_insert]
    simp [eq_comm]
  · rw [AList.lookup_insert_ne hm]
    by_cases hm' : m = ascii "h:1"
    · rw [hm', AList.lookup_insert]
      simp [eq_comm]
    · rw [AList.lookup_insert_ne hm', AList.lookup_empty]
      simp [hm, hm']

/-- The users `a` and `b` ask for a server. -/
theorem balanced_twoServers : ∃ as r', as.map Prod.fst = [⟨ascii "a"⟩, ⟨ascii "b"⟩] ∧
    Run assign (fun r a => Highest r a.2) twoServers as r' ∧
    ∀ e ∈ [endpoint, { endpoint with port := 2 }], ∀ e' ∈ [endpoint, { endpoint with port := 2 }],
      assigned as e ≤ assigned as e' + 1 := by
  have hpercent : ∀ e ∈ [endpoint, { endpoint with port := 2 }], 37 ∉ e.address := by decide
  obtain ⟨s, -, hs⟩ := scores_twoServers.zrevrange_highest (by simp)
  have ha : 37 ∉ ascii "a" := by decide
  have hb : 37 ∉ ascii "b" := by decide
  obtain ⟨r, hr⟩ := scores_twoServers.exists_assign (a := (⟨ascii "a"⟩, s)) hs ha hpercent
  have hscores := scores_twoServers.step (a := (⟨ascii "a"⟩, s)) hs hr
  obtain ⟨s', -, hs'⟩ := hscores.zrevrange_highest (by simp)
  obtain ⟨r', hr'⟩ := hscores.exists_assign (a := (⟨ascii "b"⟩, s')) hs' hb hpercent
  have hrun : Run assign (fun r a => Highest r a.2) twoServers
      [(⟨ascii "a"⟩, s), (⟨ascii "b"⟩, s')] r' := .cons hs hr (.cons hs' hr' (.nil r'))
  exact ⟨_, r', rfl, hrun, (assigned_balanced_of_run (by simp) scores_twoServers hrun).1⟩

end MutexIM.LoginServer
