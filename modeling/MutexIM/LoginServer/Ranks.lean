import Mathlib.Data.Finset.Card
import MutexIM.LoginServer.Authentication

/-!
# The ranks of the message servers

The sorted set `serverRank` holds the sockets of the message servers. A server enters its own one
with the score 100 and takes it out when it stops; the login server picks the socket with the highest
score for a `MsgServerRequest`, takes 10 off it, and notes it in the hash `loginMap:<user>`. A
`LoginRequest` that fails deletes this hash and gives 10 back to the socket noted in it.

* `serve` is a request to the login server.
* `onMsgServerRequest_cases`, `keys_of_onLoginRequest`: what the handlers write.
* `score_eq_of_run`: the scores are 100, less 10 for each user a server is noted for, in every run in
  which no user who has a server asks for one, and each server picked can be noted.
* `score_after_two_requests`: a user who asks twice.
-/

namespace MutexIM.LoginServer

open Bytes

/-- Where a message server listens. -/
structure Endpoint where
  address : Bytes
  port : ℕ
  nulFree : NulFree address
  deriving DecidableEq

/-- `m_strServerSocket`. -/
def Endpoint.strServerSocket (e : Endpoint) : Bytes := e.address ++ ascii ":" ++ itoa e.port

/-- A request to the login server. -/
inductive Request
  | msgServer (request : MsgServerRequest)
  | login (sessionID : Bytes) (nTimeTamp : ℤ) (request : LoginRequest)

/-- Redis after a request. -/
def serve (md5 : Bytes → Bytes) (r : Redis) : Request → Option Redis
  | .msgServer request => (onMsgServerRequest r request).map Prod.snd
  | .login sessionID nTimeTamp request =>
    (onLoginRequest md5 sessionID nTimeTamp r request).map Prod.snd

/-- The address and the port in the hash of a user, with a colon between them. -/
def socketOf (r : Redis) (u : Bytes) : Bytes :=
  let dataMap := r.keys.hashAt (ascii "loginMap:" ++ u)
  fieldOf dataMap "address" ++ ascii ":" ++ fieldOf dataMap "port"

/-- The hash of the user names the server by address and port. -/
def Names (r : Redis) (u : Bytes) (e : Endpoint) : Prop := socketOf r u = e.strServerSocket

instance (r : Redis) (u : Bytes) (e : Endpoint) : Decidable (Names r u e) :=
  inferInstanceAs (Decidable (_ = _))

/-- The address and the port that are read of the hash of a user, with a colon between them. -/
def notedSocket (r : Redis) (userId : Bytes) : Bytes :=
  let dataMap := CRedis.hgetAll r (ascii "loginMap:" ++ userId)
  fieldOf dataMap "address" ++ ascii ":" ++ fieldOf dataMap "port"

/-- The user is not online, and the user id or the password is wrong. -/
def Refused (md5 : Bytes → Bytes) (r : Redis) (request : LoginRequest) : Prop :=
  CRedis.existsKey r (ascii "online:" ++ request.userId) = false ∧
    ¬CheckData md5 (CRedis.hgetAll r (ascii "user:" ++ request.userId)) request

instance (md5 : Bytes → Bytes) (r : Redis) (request : LoginRequest) :
    Decidable (Refused md5 r request) := inferInstanceAs (Decidable (_ ∧ _))

/-! ## What a request writes -/

section Writes

variable {md5 : Bytes → Bytes} {r r' : Redis} {u u' : Bytes}

theorem Endpoint.nulFree_strServerSocket (e : Endpoint) : NulFree e.strServerSocket :=
  (e.nulFree.append (by decide)).append (nulFree_itoa e.port)

theorem socketOf_congr (h : r.keys (ascii "loginMap:" ++ u) = r'.keys (ascii "loginMap:" ++ u)) :
    socketOf r u = socketOf r' u := by
  rw [socketOf, socketOf, Keyspace.hashAt_congr h]

/-- Two cases of a `MsgServerRequest`: there is no server, or one is picked. -/
theorem onMsgServerRequest_cases {request : MsgServerRequest} {response : Option MsgServResponse}
    (h : onMsgServerRequest r request = some (response, r')) :
    r' = r ∨ ∃ socket, CRedis.zrevrange r (ascii "serverRank") 0 0 = [socket] ∧ 58 ∈ socket ∧
      CRedis.hmset (CRedis.zincrby r (ascii "serverRank") (-10) socket)
        (ascii "loginMap:" ++ request.userId)
        [(ascii "address", addressOf socket), (ascii "port", portOf socket)] = some r' := by
  unfold onMsgServerRequest at h
  split at h
  · next socket hsocket =>
    split at h
    · next hcolon =>
      obtain ⟨r₁, hr₁, heq⟩ := Option.map_eq_some_iff.1 h
      obtain ⟨-, rfl⟩ := Prod.mk.inj heq
      exact .inr ⟨socket, hsocket, hcolon, hr₁⟩
    · cases h
  · obtain ⟨-, rfl⟩ := Prod.mk.inj (Option.some.inj h)
    exact .inl rfl

/-- Three cases of a `LoginRequest`: the user is online, the request passes, or it is refused. -/
theorem keys_of_onLoginRequest {sessionID : Bytes} {nTimeTamp : ℤ} {request : LoginRequest}
    {response : LoginResponse}
    (h : onLoginRequest md5 sessionID nTimeTamp r request = some (response, r')) :
    r' = r ∨
    (∀ k, ¬ascii "user:" <+: k → r'.keys k = (CRedis.hset r
      (ascii "loginMap:" ++ request.userId) (ascii "sessionid") sessionID).keys k) ∨
    Refused md5 r request ∧
      r' = CRedis.zincrby (CRedis.del r (ascii "loginMap:" ++ request.userId)) (ascii "serverRank") 10
        (notedSocket r request.userId) := by
  simp only [onLoginRequest] at h
  split at h
  · next honline =>
    split at h
    · obtain ⟨r₁, hr₁, heq⟩ := Option.map_eq_some_iff.1 h
      obtain ⟨-, rfl⟩ := Prod.mk.inj heq
      refine .inr (.inl fun k hk => ?_)
      rw [CRedis.keys_publish]
      exact CRedis.keys_hmset_of_not_prefix (by decide) (by decide) hr₁ hk
    · next hcheck =>
      obtain ⟨-, rfl⟩ := Prod.mk.inj (Option.some.inj h)
      exact .inr (.inr ⟨⟨by simpa using honline, hcheck⟩, rfl⟩)
  · obtain ⟨-, rfl⟩ := Prod.mk.inj (Option.some.inj h)
    exact .inl rfl

/-- What is read of the hash of a user. -/
theorem notedSocket_eq (h : ∀ f ∈ r.keys.hashAt (ascii "loginMap:" ++ cstr u), NulFree f) :
    notedSocket r u = socketOf r (cstr u) := by
  have hkey : cstr (ascii "loginMap:" ++ u) = ascii "loginMap:" ++ cstr u := cstr_append (by decide) u
  rw [← hkey] at h
  simp only [notedSocket, socketOf, fieldOf, CRedis.lookup_hgetAll h, hkey]

/-- **The `HMSET` of a `MsgServerRequest`**, for an id, an address and a port that mean nothing in a
format: the words that are not empty. -/
theorem hmset_loginMap {address port : Bytes} (hu : CRedis.Plain u) (haddress : CRedis.Plain address)
    (hport : CRedis.Plain port) :
    CRedis.hmset r (ascii "loginMap:" ++ u) [(ascii "address", address), (ascii "port", port)] =
      some (match CRedis.fieldValues ([ascii "address", address, ascii "port", port].filter (· ≠ [])) with
        | some fvs => { r with keys := (r.keys.hmset (ascii "loginMap:" ++ u) fvs).2 }
        | none => r) := by
  have hkey : CRedis.Plain (ascii "loginMap:" ++ u) := by
    have hpre : CRedis.Plain (ascii "loginMap:") := by decide
    exact fun c hc => (List.mem_append.1 hc).elim (hpre c) (hu c)
  have htext : CRedis.hmsetText (ascii "loginMap:" ++ u)
      [(ascii "address", address), (ascii "port", port)] =
        [ascii "HMSET", ascii "loginMap:" ++ u, ascii "address", address, ascii "port", port].flatMap
          (· ++ [32]) := by
    simp [CRedis.hmsetText, ascii]
  have hplain : ∀ w ∈ [ascii "HMSET", ascii "loginMap:" ++ u, ascii "address", address, ascii "port",
      port], CRedis.Plain w := by
    intro w hw
    simp only [List.mem_cons, List.not_mem_nil, or_false] at hw
    rcases hw with rfl | rfl | rfl | rfl | rfl | rfl
    · decide
    · exact hkey
    · decide
    · exact haddress
    · decide
    · exact hport
  rw [CRedis.hmset, if_neg (List.cons_ne_nil _ _), htext, CRedis.formatCommand_flatMap hplain]
  rfl

theorem hmset_loginMap_of_ne {address port : Bytes} (hu : CRedis.Plain u)
    (haddress : CRedis.Plain address) (hport : CRedis.Plain port) (ha : address ≠ []) (hp : port ≠ []) :
    CRedis.hmset r (ascii "loginMap:" ++ u) [(ascii "address", address), (ascii "port", port)] =
      some { r with keys := (r.keys.hmset (ascii "loginMap:" ++ u)
        [(ascii "address", address), (ascii "port", port)]).2 } := by
  have hwords : [ascii "address", address, ascii "port", port].filter (· ≠ []) =
      [ascii "address", address, ascii "port", port] := by
    rw [List.filter_eq_self]
    simp [ha, hp, ascii]
  rw [hmset_loginMap hu haddress hport, hwords]
  rfl

/-- The socket `:` is sent as the field `address` with the value `port`. -/
theorem hmset_loginMap_colon (hu : CRedis.Plain u) :
    CRedis.hmset r (ascii "loginMap:" ++ u) [(ascii "address", []), (ascii "port", [])] =
      some { r with keys := (r.keys.hmset (ascii "loginMap:" ++ u) [(ascii "address", ascii "port")]).2 } :=
  hmset_loginMap hu (by decide) (by decide)

/-- The words sent for the socket `port:` are an odd number. -/
theorem hmset_loginMap_port (hu : CRedis.Plain u) :
    CRedis.hmset r (ascii "loginMap:" ++ u) [(ascii "address", ascii "port"), (ascii "port", [])] =
      some r := hmset_loginMap hu (by decide) (by decide)

theorem socketOf_eq {a : AList fun _ : Bytes => Bytes}
    (h : r.keys (ascii "loginMap:" ++ u) = some (.hash a)) :
    socketOf r u = fieldOf a "address" ++ ascii ":" ++ fieldOf a "port" := by
  rw [socketOf, Keyspace.hashAt, h]

theorem fieldOf_insert (dataMap : AList fun _ : Bytes => Bytes) (field : String) (v : Bytes) :
    fieldOf (dataMap.insert (ascii field) v) field = v := by
  rw [fieldOf, AList.lookup_insert, Option.getD_some]

theorem fieldOf_insert_of_ne {field : String} {f : Bytes} (h : ascii field ≠ f)
    (dataMap : AList fun _ : Bytes => Bytes) (v : Bytes) :
    fieldOf (dataMap.insert f v) field = fieldOf dataMap field := by
  rw [fieldOf, AList.lookup_insert_ne h, fieldOf]

theorem addressOf_append_portOf {socket : Bytes} (h : 58 ∈ socket) :
    addressOf socket ++ ascii ":" ++ portOf socket = socket := by
  induction socket with
  | nil => cases h
  | cons c socket ih =>
    by_cases hc : c = 58
    · subst hc
      rfl
    · have ih := ih ((List.mem_cons.1 h).resolve_left (Ne.symm hc))
      rw [addressOf, portOf] at ih ⊢
      rw [List.takeWhile_cons_of_pos (by simpa using hc), List.dropWhile_cons_of_pos (by simpa using hc),
        List.cons_append, List.cons_append, ih]

theorem plain_addressOf {socket : Bytes} (h : CRedis.Plain socket) : CRedis.Plain (addressOf socket) :=
  fun c hc => h c (List.takeWhile_subset _ hc)

theorem plain_portOf {socket : Bytes} (h : CRedis.Plain socket) : CRedis.Plain (portOf socket) :=
  fun c hc => h c (List.dropWhile_subset _ (List.mem_of_mem_tail hc))

theorem loginMap_not_user (u : Bytes) : ¬ascii "user:" <+: ascii "loginMap:" ++ u := by
  simp [ascii]

theorem serverRank_not_user : ¬ascii "user:" <+: ascii "serverRank" := by decide

end Writes

/-! ## The account -/

/-- Where one value of a function changes, one argument joins or leaves those with a given value. -/
theorem card_of_update {α β : Type*} [DecidableEq α] [DecidableEq β] {f g : α → β} {a : α}
    (hne : ∀ x, x ≠ a → g x = f x) {b : β} {A : Finset α} (hA : ∀ x, x ∈ A ↔ f x = b) :
    ∃ B : Finset α, (∀ x, x ∈ B ↔ g x = b) ∧
      (B.card : ℤ) + (if f a = b then 1 else 0) = A.card + (if g a = b then 1 else 0) := by
  by_cases hg : g a = b
  · refine ⟨insert a A, fun x => ?_, ?_⟩
    · by_cases hx : x = a
      · subst hx
        exact iff_of_true (Finset.mem_insert_self _ _) hg
      · rw [Finset.mem_insert, or_iff_right hx, hA, hne x hx]
    · rw [if_pos hg]
      by_cases hf : f a = b
      · rw [if_pos hf, Finset.insert_eq_of_mem ((hA a).2 hf)]
      · rw [if_neg hf, Finset.card_insert_of_notMem (mt (hA a).1 hf)]
        omega
  · refine ⟨A.erase a, fun x => ?_, ?_⟩
    · by_cases hx : x = a
      · subst hx
        exact iff_of_false (Finset.notMem_erase _ _) hg
      · rw [Finset.mem_erase, and_iff_right hx, hA, hne x hx]
    · rw [if_neg hg]
      by_cases hf : f a = b
      · have hcard := Finset.card_erase_add_one ((hA a).2 hf)
        rw [if_pos hf]
        omega
      · rw [if_neg hf, Finset.erase_eq_of_notMem (mt (hA a).1 hf)]

section Account

variable {md5 : Bytes → Bytes} {S : List Endpoint} {r r' : Redis} {u m : Bytes} {d : ℤ}

/-- A socket made of the fields of a hash that names no server: without a port, and with the address
that `HMSET` is sent for the socket `:`, which has none. -/
def Unnamed (m : Bytes) : Prop := m = ascii ":" ∨ m = ascii "port:"

/-- A socket that is ranked or noted. -/
def Known (S : List Endpoint) (m : Bytes) : Prop := Unnamed m ∨ ∃ e ∈ S, m = e.strServerSocket

/-- The score of the server is 100, less 10 for each user whose hash names it. -/
def Balanced (r : Redis) (e : Endpoint) : Prop :=
  ∃ users : Finset Bytes, (∀ u, u ∈ users ↔ Names r u e) ∧
    (r.keys.ranks (ascii "serverRank")).lookup e.strServerSocket = some (100 - 10 * (users.card : ℤ))

/-- The scores of the servers agree with the hashes of the users. -/
structure Accounts (S : List Endpoint) (r : Redis) : Prop where
  hash : ∀ u, r.keys.HashOrNone (ascii "loginMap:" ++ u)
  field : ∀ u, ∀ f ∈ r.keys.hashAt (ascii "loginMap:" ++ u), NulFree f
  member : ∀ m ∈ r.keys.ranks (ascii "serverRank"), Known S m
  socket : ∀ u, Known S (socketOf r u)
  balanced : ∀ e ∈ S, Balanced r e

/-- The socket of a server ends with a digit. -/
theorem Endpoint.strServerSocket_ne (e : Endpoint) (s : Bytes) : e.strServerSocket ≠ s ++ [58] := by
  intro h
  have hne := itoa_ne_nil e.port
  rw [strServerSocket, ← List.dropLast_append_getLast hne, ← List.append_assoc] at h
  have hlast := (List.append_inj' h rfl).2
  have hmem := (mem_itoa (List.getLast_mem hne)).2
  rw [List.singleton_inj.1 hlast] at hmem
  exact absurd hmem (by decide)

theorem Unnamed.ne (h : Unnamed m) (e : Endpoint) : m ≠ e.strServerSocket := by
  obtain rfl | rfl := h
  · exact (e.strServerSocket_ne []).symm
  · exact (e.strServerSocket_ne (ascii "port")).symm

theorem Known.nulFree (h : Known S m) : NulFree m := by
  obtain (rfl | rfl) | ⟨e, -, rfl⟩ := h
  · decide
  · decide
  · exact e.nulFree_strServerSocket

/-- A user who has no message server has no port. -/
theorem port_eq_nil (h : Known S (socketOf r u)) (hno : ∀ e ∈ S, ¬Names r u e) :
    fieldOf (r.keys.hashAt (ascii "loginMap:" ++ u)) "port" = [] := by
  have hcolon : ∀ {a p s : Bytes}, 58 ∉ s → a ++ [58] ++ p = s ++ [58] → p = [] := by
    intro a p s hs heq
    rcases List.eq_nil_or_concat p with rfl | ⟨q, b, rfl⟩
    · rfl
    · rw [List.concat_eq_append, ← List.append_assoc] at heq
      obtain ⟨rfl, -⟩ := List.append_inj' heq rfl
      simp at hs
  obtain (h | h) | ⟨e, he, h⟩ := h
  · exact hcolon List.not_mem_nil h
  · exact hcolon (show 58 ∉ ascii "port" by decide) h
  · exact absurd h (hno e he)

/-- **The account after a change** of the hash of one user and of one score. -/
theorem Accounts.change (h : Accounts S r)
    (hne : ∀ u', u' ≠ u → r'.keys (ascii "loginMap:" ++ u') = r.keys (ascii "loginMap:" ++ u'))
    (hranks : r'.keys (ascii "serverRank") =
      (r.keys.zincrby (ascii "serverRank") d m).2 (ascii "serverRank"))
    (hm : Known S m) (hhash : r'.keys.HashOrNone (ascii "loginMap:" ++ u))
    (hfield : ∀ f ∈ r'.keys.hashAt (ascii "loginMap:" ++ u), NulFree f)
    (hsocket : Known S (socketOf r' u))
    (hbalance : ∀ e ∈ S, (if Names r' u e then 10 else 0) + (if e.strServerSocket = m then d else 0) =
      if Names r u e then 10 else 0) : Accounts S r' := by
  have hcongr : r'.keys.ranks (ascii "serverRank") =
      (r.keys.zincrby (ascii "serverRank") d m).2.ranks (ascii "serverRank") := by
    rw [Keyspace.ranks, Keyspace.ranks, hranks]
  have hother : ∀ u', u' ≠ u → socketOf r' u' = socketOf r u' := fun u' hu => socketOf_congr (hne u' hu)
  refine ⟨fun u' => ?_, fun u' => ?_, fun x hx => ?_, fun u' => ?_, fun e he => ?_⟩
  · by_cases hu : u' = u
    · exact hu ▸ hhash
    · exact (h.hash u').congr (hne u' hu)
  · by_cases hu : u' = u
    · exact hu ▸ hfield
    · rw [Keyspace.hashAt_congr (hne u' hu)]
      exact h.field u'
  · rw [hcongr] at hx
    rcases Keyspace.mem_ranks_zincrby hx with hx | rfl
    · exact h.member x hx
    · exact hm
  · by_cases hu : u' = u
    · exact hu ▸ hsocket
    · exact hother u' hu ▸ h.socket u'
  · obtain ⟨users, husers, hscore⟩ := h.balanced e he
    obtain ⟨users', husers', hcard⟩ := card_of_update hother husers
    refine ⟨users', husers', ?_⟩
    have hcard : (users'.card : ℤ) + (if Names r u e then 1 else 0) =
        users.card + (if Names r' u e then 1 else 0) := hcard
    have hbal := hbalance e he
    rw [hcongr, Keyspace.lookup_zincrby hscore, Option.some.injEq]
    split_ifs at hcard hbal ⊢ <;> omega

/-- The account after a change that concerns neither the scores nor the sockets of the users. -/
theorem Accounts.keep (h : Accounts S r)
    (hranks : r'.keys (ascii "serverRank") = r.keys (ascii "serverRank"))
    (hhash : ∀ u, r'.keys.HashOrNone (ascii "loginMap:" ++ u))
    (hfield : ∀ u, ∀ f ∈ r'.keys.hashAt (ascii "loginMap:" ++ u), NulFree f)
    (hsocket : ∀ u, socketOf r' u = socketOf r u) : Accounts S r' := by
  have hcongr : r'.keys.ranks (ascii "serverRank") = r.keys.ranks (ascii "serverRank") := by
    rw [Keyspace.ranks, Keyspace.ranks, hranks]
  refine ⟨hhash, hfield, hcongr ▸ h.member, fun u => hsocket u ▸ h.socket u, fun e he => ?_⟩
  obtain ⟨users, husers, hscore⟩ := h.balanced e he
  refine ⟨users, fun u => ?_, hcongr ▸ hscore⟩
  rw [husers, Names, Names, hsocket]

theorem keys_zincrby_loginMap (u : Bytes) :
    (CRedis.zincrby r (ascii "serverRank") d m).keys (ascii "loginMap:" ++ u) =
      r.keys (ascii "loginMap:" ++ u) :=
  CRedis.keys_zincrby_of_ne (loginMap_ne_serverRank u) _ _

theorem keys_zincrby_serverRank (hm : NulFree m) :
    (CRedis.zincrby r (ascii "serverRank") d m).keys (ascii "serverRank") =
      (r.keys.zincrby (ascii "serverRank") d m).2 (ascii "serverRank") := by
  have hname : cstr (ascii "serverRank") = ascii "serverRank" := by decide
  rw [CRedis.zincrby, hname, cstr_eq_self hm]

theorem Accounts.hash_hmset (h : Accounts S r) (d : ℤ) (m : Bytes) (fvs : List (Bytes × Bytes)) :
    ((CRedis.zincrby r (ascii "serverRank") d m).keys.hmset (ascii "loginMap:" ++ u) fvs).2
        (ascii "loginMap:" ++ u) =
      some (.hash (fvs.foldl (fun a e => a.insert e.1 e.2)
        (r.keys.hashAt (ascii "loginMap:" ++ u)))) := by
  have hkey := keys_zincrby_loginMap (r := r) (d := d) (m := m) u
  rw [Keyspace.hmset_self ((h.hash u).congr hkey), Keyspace.hashAt_congr hkey]

/-- **The account after a server is picked** and noted. -/
theorem Accounts.pick (h : Accounts S r) (hm : Known S m) {fvs : List (Bytes × Bytes)}
    (hr' : r'.keys = ((CRedis.zincrby r (ascii "serverRank") (-10) m).keys.hmset
      (ascii "loginMap:" ++ u) fvs).2)
    (hfvs : ∀ f ∈ fvs.map Prod.fst, NulFree f) (hold : ∀ e ∈ S, ¬Names r u e)
    (hsocket : Unnamed m ∧ Unnamed (socketOf r' u) ∨ socketOf r' u = m) : Accounts S r' := by
  have hself := h.hash_hmset (u := u) (-10) m fvs
  refine h.change (m := m) (d := -10) (u := u) (fun u' hu => ?_) ?_ hm ?_ (fun f hf => ?_) ?_ ?_
  · rw [hr', Keyspace.hmset_of_ne fun he => hu (List.append_cancel_left he), keys_zincrby_loginMap]
  · rw [hr', Keyspace.hmset_of_ne (loginMap_ne_serverRank u).symm]
    exact keys_zincrby_serverRank hm.nulFree
  · rw [hr']
    intro v hv
    exact ⟨_, Option.some.inj (hv.symm.trans hself)⟩
  · rw [hr'] at hf
    rcases Keyspace.mem_hashAt_hmset hf with hf | ⟨-, hf⟩
    · rw [Keyspace.hashAt_congr (keys_zincrby_loginMap u)] at hf
      exact h.field u f hf
    · exact hfvs f hf
  · obtain ⟨-, hsocket⟩ | hsocket := hsocket
    · exact .inl hsocket
    · exact hsocket ▸ hm
  · intro e he
    have hnew : Names r' u e ↔ e.strServerSocket = m := by
      obtain ⟨hm, hsocket⟩ | hsocket := hsocket
      · exact iff_of_false (hsocket.ne e) (hm.ne e).symm
      · rw [Names, hsocket]
        exact eq_comm
    rw [if_neg (hold e he)]
    by_cases hem : e.strServerSocket = m
    · rw [if_pos (hnew.2 hem), if_pos hem]
      rfl
    · rw [if_neg (mt hnew.1 hem), if_neg hem]
      rfl

/-- The condition on a request: a `MsgServerRequest` that finds a server is of a user without one, whose
id means nothing in a format; and the socket that is picked means nothing there either, and does not
start with a colon. -/
def Assigns (S : List Endpoint) (r : Redis) : Request → Prop
  | .msgServer request => ∀ socket ∈ CRedis.zrevrange r (ascii "serverRank") 0 0,
      CRedis.Plain request.userId ∧ (∀ e ∈ S, ¬Names r request.userId e) ∧
        ∀ e ∈ S, socket = e.strServerSocket → CRedis.Plain socket ∧ addressOf socket ≠ []
  | .login .. => True

instance (S : List Endpoint) (r : Redis) (q : Request) : Decidable (Assigns S r q) :=
  match q with
  | .msgServer _ => inferInstanceAs (Decidable (∀ socket ∈ _, _))
  | .login .. => isTrue trivial

/-- **A `MsgServerRequest` keeps the account.** -/
theorem Accounts.onMsgServerRequest {request : MsgServerRequest} {response : Option MsgServResponse}
    (h : Accounts S r) (hok : Assigns S r (.msgServer request))
    (hstep : onMsgServerRequest r request = some (response, r')) : Accounts S r' := by
  obtain rfl | ⟨socket, hsocket, hcolon, hhmset⟩ := onMsgServerRequest_cases hstep
  · exact h
  · obtain ⟨m, hm, rfl⟩ := CRedis.mem_ranks_of_mem_zrevrange (hsocket ▸ List.mem_singleton_self socket)
    have hknown : Known S m := h.member m hm
    rw [cstr_eq_self hknown.nulFree] at hsocket hcolon hhmset
    obtain ⟨hplain, hold, haddress⟩ := hok m (hsocket ▸ List.mem_singleton_self m)
    obtain (rfl | rfl) | ⟨e, he, rfl⟩ := id hknown
    · obtain rfl := Option.some.inj ((hmset_loginMap_colon hplain).symm.trans hhmset)
      refine h.pick (u := request.userId) hknown rfl (by decide) hold (.inl ⟨.inl rfl, .inr ?_⟩)
      rw [socketOf_eq (h.hash_hmset (-10) (ascii ":") [(ascii "address", ascii "port")]),
        List.foldl_cons, List.foldl_nil, fieldOf_insert, fieldOf_insert_of_ne (by decide),
        port_eq_nil (h.socket _) hold]
      rfl
    · obtain rfl := Option.some.inj ((hmset_loginMap_port hplain).symm.trans hhmset)
      have hkey : ∀ u, (CRedis.zincrby r (ascii "serverRank") (-10) (ascii "port:")).keys
          (ascii "loginMap:" ++ u) = r.keys (ascii "loginMap:" ++ u) := keys_zincrby_loginMap
      refine h.change (u := request.userId) (fun u _ => hkey u) (keys_zincrby_serverRank (by decide)) hknown
        ((h.hash _).congr (hkey _)) ?_ ?_ ?_
      · rw [Keyspace.hashAt_congr (hkey _)]
        exact h.field _
      · rw [socketOf_congr (hkey _)]
        exact h.socket _
      · intro e he
        have hnew : ¬Names (CRedis.zincrby r (ascii "serverRank") (-10) (ascii "port:")) request.userId e :=
          fun hn => hold e he ((socketOf_congr (hkey _)).symm.trans hn)
        rw [if_neg (hold e he), if_neg hnew, if_neg (Unnamed.ne (.inr rfl) e).symm]
        rfl
    · obtain ⟨hsocketPlain, hne⟩ := haddress e he rfl
      have hsplit := addressOf_append_portOf hcolon
      have hport : portOf e.strServerSocket ≠ [] := by
        intro hnil
        rw [hnil, List.append_nil] at hsplit
        exact e.strServerSocket_ne _ hsplit.symm
      rw [hmset_loginMap_of_ne hplain (plain_addressOf hsocketPlain) (plain_portOf hsocketPlain) hne
        hport] at hhmset
      obtain rfl := Option.some.inj hhmset
      refine h.pick (u := request.userId) hknown rfl
        (show ∀ f ∈ [ascii "address", ascii "port"], NulFree f by decide) hold (.inr ?_)
      rw [socketOf_eq (h.hash_hmset (-10) _ [(ascii "address", _), (ascii "port", _)]),
        List.foldl_cons, List.foldl_cons, List.foldl_nil, fieldOf_insert,
        fieldOf_insert_of_ne (show ascii "address" ≠ ascii "port" by decide), fieldOf_insert, hsplit]

theorem cstr_loginMap (u : Bytes) : cstr (ascii "loginMap:" ++ u) = ascii "loginMap:" ++ cstr u :=
  cstr_append (by decide) u

/-- The session id is a field of its own. -/
theorem Accounts.sessionid (h : Accounts S r) {sessionID : Bytes}
    (hr' : ∀ k, ¬ascii "user:" <+: k → r'.keys k =
      (CRedis.hset r (ascii "loginMap:" ++ u) (ascii "sessionid") sessionID).keys k) :
    Accounts S r' := by
  have hother : ∀ u', u' ≠ cstr u →
      r'.keys (ascii "loginMap:" ++ u') = r.keys (ascii "loginMap:" ++ u') := by
    intro u' hu
    rw [hr' _ (loginMap_not_user u')]
    refine Keyspace.hset_of_ne ?_
    rw [cstr_loginMap]
    exact fun he => hu (List.append_cancel_left he)
  have hself : r'.keys (ascii "loginMap:" ++ cstr u) = some (.hash
      ((r.keys.hashAt (ascii "loginMap:" ++ cstr u)).insert (ascii "sessionid") (cstr sessionID))) := by
    rw [hr' _ (loginMap_not_user _), CRedis.hset, cstr_loginMap]
    exact Keyspace.hset_self (h.hash _) _ _
  refine h.keep ?_ (fun u' => ?_) (fun u' f hf => ?_) fun u' => ?_
  · rw [hr' _ serverRank_not_user]
    refine Keyspace.hset_of_ne ?_
    rw [cstr_loginMap]
    exact (loginMap_ne_serverRank _).symm
  · by_cases hu : u' = cstr u
    · rw [hu]
      exact fun v hv => ⟨_, Option.some.inj (hv.symm.trans hself)⟩
    · exact (h.hash u').congr (hother u' hu)
  · by_cases hu : u' = cstr u
    · rw [hu, Keyspace.hashAt, hself] at hf
      rcases (AList.mem_insert _).1 hf with rfl | hf
      · decide
      · exact h.field _ f hf
    · rw [Keyspace.hashAt_congr (hother u' hu)] at hf
      exact h.field u' f hf
  · by_cases hu : u' = cstr u
    · rw [hu, socketOf_eq hself, fieldOf_insert_of_ne (by decide), fieldOf_insert_of_ne (by decide)]
      rfl
    · exact socketOf_congr (hother u' hu)

/-- **A `LoginRequest` keeps the account.** -/
theorem Accounts.onLoginRequest {sessionID : Bytes} {nTimeTamp : ℤ} {request : LoginRequest}
    {response : LoginResponse} (h : Accounts S r)
    (hstep : onLoginRequest md5 sessionID nTimeTamp r request = some (response, r')) :
    Accounts S r' := by
  obtain rfl | hr' | ⟨-, rfl⟩ := keys_of_onLoginRequest hstep
  · exact h
  · exact h.sessionid hr'
  · have hself : (CRedis.zincrby (CRedis.del r (ascii "loginMap:" ++ request.userId))
        (ascii "serverRank") 10 (notedSocket r request.userId)).keys
          (ascii "loginMap:" ++ cstr request.userId) = none := by
      rw [keys_zincrby_loginMap, ← cstr_loginMap]
      exact CRedis.keys_del_self _
    have hnone : socketOf (CRedis.zincrby (CRedis.del r (ascii "loginMap:" ++ request.userId))
        (ascii "serverRank") 10 (notedSocket r request.userId)) (cstr request.userId) = ascii ":" := by
      rw [socketOf, Keyspace.hashAt, hself]
      rfl
    have hkey := notedSocket_eq (h.field (cstr request.userId))
    have hknown : Known S (notedSocket r request.userId) := hkey ▸ h.socket _
    refine h.change (u := cstr request.userId) (d := 10) (fun u hu => ?_) ?_ hknown ?_ ?_ ?_ ?_
    · rw [keys_zincrby_loginMap]
      refine CRedis.keys_del_of_ne ?_
      rw [cstr_loginMap]
      exact fun he => hu (List.append_cancel_left he)
    · rw [keys_zincrby_serverRank hknown.nulFree]
      refine Keyspace.zincrby_congr (CRedis.keys_del_of_ne ?_)
      rw [cstr_loginMap]
      exact (loginMap_ne_serverRank _).symm
    · intro v hv
      cases hself.symm.trans hv
    · rw [Keyspace.hashAt, hself]
      exact fun f hf => absurd hf (AList.notMem_empty f)
    · exact hnone ▸ .inl (.inl rfl)
    · intro e he
      have hnew : ¬Names (CRedis.zincrby (CRedis.del r (ascii "loginMap:" ++ request.userId))
          (ascii "serverRank") 10 (notedSocket r request.userId)) (cstr request.userId) e :=
        fun hn => Unnamed.ne (.inl rfl) e (hnone.symm.trans hn)
      rw [if_neg hnew, zero_add, hkey]
      exact if_congr eq_comm rfl rfl

/-- **A request keeps the account.** -/
theorem Accounts.serve {q : Request} (h : Accounts S r) (hok : Assigns S r q)
    (hstep : serve md5 r q = some r') : Accounts S r' := by
  cases q with
  | msgServer request =>
    obtain ⟨⟨response, r₁⟩, hr₁, rfl⟩ := Option.map_eq_some_iff.1 hstep
    exact h.onMsgServerRequest hok hr₁
  | login sessionID nTimeTamp request =>
    obtain ⟨⟨response, r₁⟩, hr₁, rfl⟩ := Option.map_eq_some_iff.1 hstep
    exact h.onLoginRequest hr₁

/-- **The scores account for the users.** From servers with the score 100 and no hashes of users, in
every run in which no user whose hash names a server asks for one, the ids of those who ask hold no
zero byte, blank or percent sign, nor do the sockets that are picked, and these do not start with a
colon: the score of every server is 100, less 10 for each user whose hash names it. -/
theorem score_eq_of_run {qs : List Request}
    (hrank : ∀ m z, (r.keys.ranks (ascii "serverRank")).lookup m = some z ↔
      z = 100 ∧ ∃ e ∈ S, m = e.strServerSocket)
    (hlogin : ∀ u, r.keys (ascii "loginMap:" ++ u) = none)
    (hrun : Run (LoginServer.serve md5) (Assigns S) r qs r') : ∀ e ∈ S, Balanced r' e := by
  have hsocket : ∀ u, socketOf r u = ascii ":" := fun u => by
    rw [socketOf, Keyspace.hashAt, hlogin u]
    rfl
  have hstart : Accounts S r := by
    refine ⟨fun u v hv => ?_, fun u f hf => ?_, fun m hm => ?_, fun u => ?_, fun e he => ?_⟩
    · cases (hlogin u).symm.trans hv
    · rw [Keyspace.hashAt, hlogin u] at hf
      exact absurd hf (AList.notMem_empty f)
    · obtain ⟨z, hz⟩ := Option.isSome_iff_exists.1 (AList.lookup_isSome.2 hm)
      exact .inr ((hrank m z).1 hz).2
    · exact .inl (.inl (hsocket u))
    · refine ⟨∅, fun u => iff_of_false (Finset.notMem_empty u) fun hn => ?_, ?_⟩
      · exact Unnamed.ne (.inl rfl) e ((hsocket u).symm.trans hn)
      · exact (hrank _ _).2 ⟨by simp, e, he, rfl⟩
  have h : Accounts S r' :=
    hrun.invariant (I := Accounts S) (fun _ _ _ h hok hstep => h.serve hok hstep) hstart
  exact h.balanced

end Account

/-- The server of `userRedis`. -/
def endpoint : Endpoint := ⟨ascii "h", 1, by decide⟩

theorem userRedis_serverRank (m : Bytes) (z : ℤ) :
    (userRedis.keys.ranks (ascii "serverRank")).lookup m = some z ↔
      z = 100 ∧ ∃ e ∈ [endpoint], m = e.strServerSocket := by
  have hkey : userRedis.keys (ascii "serverRank") = some (.zset (.singleton (ascii "h:1") 100)) := by
    simp [userRedis]
  have hsocket : endpoint.strServerSocket = ascii "h:1" := by decide
  rw [Keyspace.ranks, hkey, ← AList.insert_empty]
  by_cases hm : m = ascii "h:1"
  · rw [hm, AList.lookup_insert]
    simp [hsocket, eq_comm]
  · rw [AList.lookup_insert_ne hm, AList.lookup_empty]
    simp [hsocket, hm]

/-- The user `a` asks for a server and mistypes the password, then `a` and `b` ask and `a` logs in. -/
def logins : List Request :=
  [.msgServer ⟨ascii "a"⟩, .login (ascii "1") 0 ⟨0, ascii "a", []⟩, .msgServer ⟨ascii "a"⟩,
    .msgServer ⟨ascii "b"⟩, .login (ascii "2") 0 ⟨0, ascii "a", digestA⟩]

theorem balanced_after_logins :
    ∃ r, Run (serve md5A) (Assigns [endpoint]) userRedis logins r ∧
      (Names r (ascii "a") endpoint ∧ Names r (ascii "b") endpoint ∧
        (r.keys.ranks (ascii "serverRank")).lookup (ascii "h:1") = some 80) ∧
      ∀ e ∈ [endpoint], Balanced r e := by
  have hany : (exec (serve md5A) (Assigns [endpoint]) userRedis logins).any (fun r =>
      decide (Names r (ascii "a") endpoint ∧ Names r (ascii "b") endpoint ∧
        (r.keys.ranks (ascii "serverRank")).lookup (ascii "h:1") = some 80)) = true := by
    decide +kernel
  obtain ⟨r, hrun, hend⟩ := Run.exists_of_exec hany
  exact ⟨r, hrun, hend, score_eq_of_run userRedis_serverRank userRedis_loginMap hrun⟩

/-- A `MsgServerRequest` with an id and a socket that mean nothing in a format writes one hash. -/
theorem keys_of_msgServer {md5 : Bytes → Bytes} {r r' : Redis} {request : MsgServerRequest} {u : Bytes}
    (h : serve md5 r (.msgServer request) = some r') (hplain : CRedis.Plain request.userId)
    (hsocket : ∀ socket ∈ CRedis.zrevrange r (ascii "serverRank") 0 0, CRedis.Plain socket)
    (hu : u ≠ request.userId) :
    r'.keys (ascii "loginMap:" ++ u) = r.keys (ascii "loginMap:" ++ u) := by
  obtain ⟨⟨response, r₁⟩, hr₁, rfl⟩ := Option.map_eq_some_iff.1 h
  obtain rfl | ⟨socket, hpick, -, hhmset⟩ := onMsgServerRequest_cases hr₁
  · rfl
  · have hs := hsocket socket (hpick ▸ List.mem_singleton_self socket)
    rw [hmset_loginMap hplain (plain_addressOf hs) (plain_portOf hs)] at hhmset
    obtain rfl := Option.some.inj hhmset
    split
    · exact (Keyspace.hmset_of_ne fun he => hu (List.append_cancel_left he)).trans
        (keys_zincrby_loginMap u)
    · exact keys_zincrby_loginMap u

/-- The user `a` asks twice: the server has lost 20 points, and is noted for one user. -/
theorem score_after_two_requests :
    ∃ r, Run (serve md5A) (fun _ _ => True) userRedis
        [.msgServer ⟨ascii "a"⟩, .msgServer ⟨ascii "a"⟩] r ∧
      (r.keys.ranks (ascii "serverRank")).lookup endpoint.strServerSocket = some 80 ∧
      ¬Balanced r endpoint := by
  have hany : (exec (serve md5A)
      (fun r _ => ∀ socket ∈ CRedis.zrevrange r (ascii "serverRank") 0 0, CRedis.Plain socket)
      userRedis [.msgServer ⟨ascii "a"⟩, .msgServer ⟨ascii "a"⟩]).any (fun r =>
        decide ((r.keys.ranks (ascii "serverRank")).lookup endpoint.strServerSocket = some 80)) =
          true := by
    decide +kernel
  obtain ⟨r, hrun, hscore⟩ := Run.exists_of_exec hany
  refine ⟨r, hrun.mono fun _ _ _ => trivial, hscore, fun ⟨users, husers, hbalance⟩ => ?_⟩
  have hother : ∀ u, u ≠ ascii "a" → ¬Names r u endpoint := by
    intro u hu
    cases hrun with
    | cons hok hstep hrun =>
      cases hrun with
      | cons hok' hstep' hrun =>
        cases hrun
        rw [Names, socketOf, Keyspace.hashAt, keys_of_msgServer hstep' (by decide) hok' hu,
          keys_of_msgServer hstep (by decide) hok hu, userRedis_loginMap]
        decide
  have hcard : users.card ≤ 1 := by
    refine Finset.card_le_one_iff_subset_singleton.2 ⟨ascii "a", fun u hu => ?_⟩
    by_contra hne
    exact hother u (mt Finset.mem_singleton.2 hne) ((husers u).1 hu)
  have h80 := Option.some.inj (hscore.symm.trans hbalance)
  omega

end MutexIM.LoginServer
