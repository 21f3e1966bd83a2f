import MutexIM.LoginServer.Ranks

/-!
# Whose session ids are written

`onLoginRequest` reads the fields `useId` and `password` of the hash `user:<user>` into a map whose `[]`
makes an empty string of a field that is not there, and compares the digest of the password with the one
of the request by `strcmp`, which stops at a zero byte.

* `checked` is Redis when the check is made and, if it is passed, the session id written.
  `onLoginRequest_of_passes` and `onLoginRequest_of_not_passes` are about the rest of the handler.
* `writes_iff_hasCredentials_iff`: when a session id is written for the right credentials and only for them.
* `written_for_longer_digest`: a digest with a zero byte behind it is taken for the digest.
-/

namespace MutexIM.LoginServer

open Bytes

section Checked

variable (md5 : Bytes → Bytes)

/-- Redis in `Server::onLoginRequest` after the check and the `HSET` of the session id. -/
def checked (sessionID : Bytes) (r : Redis) (request : LoginRequest) : Redis :=
  if Passes md5 r request then
    CRedis.hset r (ascii "loginMap:" ++ request.userId) (ascii "sessionid") sessionID
  else r

/-- The session id of a user. -/
def sessionidOf (r : Redis) (u : Bytes) : Option Bytes :=
  (r.keys.hashAt (ascii "loginMap:" ++ u)).lookup (ascii "sessionid")

/-- The session id is written, whatever it is. -/
def Writes (r : Redis) (request : LoginRequest) : Prop :=
  ∀ sessionID, NulFree sessionID →
    sessionidOf (checked md5 sessionID r request) request.userId = some sessionID

/-- A field of the hash of a user. -/
def stored (r : Redis) (u : Bytes) (field : String) : Option Bytes :=
  (r.keys.hashAt (ascii "user:" ++ u)).lookup (ascii field)

/-- A field of a user as `HGetAll` reads it. -/
def seen (r : Redis) (u : Bytes) (field : String) : Option Bytes :=
  (CRedis.hgetAll r (ascii "user:" ++ u)).lookup (ascii field)

/-- The hash of the user has the id of the request, and a password whose digest is the one submitted. -/
def HasCredentials (r : Redis) (request : LoginRequest) : Prop :=
  stored r request.userId "useId" = some request.userId ∧
    ∃ password, stored r request.userId "password" = some password ∧ request.password = md5 password

/-- No other field is read for the id, nor one for the password whose digest the comparison could tell from
that of the password: the names of fields are cut at a zero byte. -/
structure Alike (r : Redis) (u : Bytes) : Prop where
  useId : seen r u "useId" = stored r u "useId"
  password : cstr (md5 ((seen r u "password").getD [])) = cstr (md5 ((stored r u "password").getD []))

/-- A session id can be written for the user: the id is a C string, and its hash or no value is there. -/
def Writable (r : Redis) (u : Bytes) : Prop :=
  NulFree u ∧ r.keys.HashOrNone (ascii "loginMap:" ++ u)

/-- The condition on Redis and the request. Where the credentials are right, a session id can be written
and no other fields are read; and where one can be written and the comparison succeeds, both fields are
there, no other ones are read, and the digest and the password submitted do not differ from the first zero
byte on. -/
structure Exact (r : Redis) (request : LoginRequest) : Prop where
  right : HasCredentials md5 r request → Writable r request.userId ∧ Alike md5 r request.userId
  compared : Writable r request.userId →
    CheckData md5 (CRedis.hgetAll r (ascii "user:" ++ request.userId)) request →
      ((stored r request.userId "useId").isSome ∧ (stored r request.userId "password").isSome ∧
        Alike md5 r request.userId) ∧
      ∀ password, stored r request.userId "password" = some password →
        cstr (md5 password) = cstr request.password → md5 password = request.password

end Checked

variable {md5 : Bytes → Bytes} {r r' : Redis} {request : LoginRequest} {sessionID u : Bytes}

/-- **The rest of the handler** after a request that passes. -/
theorem onLoginRequest_of_passes {nTimeTamp : ℤ} {response : LoginResponse}
    (hpass : Passes md5 r request)
    (h : onLoginRequest md5 sessionID nTimeTamp r request = some (response, r')) (u : Bytes) :
    sessionidOf r' u = sessionidOf (checked md5 sessionID r request) u := by
  obtain ⟨honline, hcheck⟩ := hpass
  simp only [onLoginRequest, honline, Bool.not_false, if_true, if_pos hcheck] at h
  obtain ⟨r₁, hr₁, heq⟩ := Option.map_eq_some_iff.1 h
  obtain ⟨-, rfl⟩ := Prod.mk.inj heq
  rw [checked, if_pos ⟨honline, hcheck⟩, sessionidOf, sessionidOf, CRedis.keys_publish]
  exact congrArg (AList.lookup _) (Keyspace.hashAt_congr
    (CRedis.keys_hmset_of_not_prefix (by decide) (by decide) hr₁ (loginMap_not_user u)))

theorem checked_of_not_passes (hpass : ¬Passes md5 r request) : checked md5 sessionID r request = r :=
  if_neg hpass

/-- The rest of the handler after one that fails writes no session id. -/
theorem onLoginRequest_of_not_passes {nTimeTamp : ℤ} {response : LoginResponse}
    (hpass : ¬Passes md5 r request)
    (h : onLoginRequest md5 sessionID nTimeTamp r request = some (response, r')) (u : Bytes) :
    sessionidOf r' u = sessionidOf r u ∨ sessionidOf r' u = none := by
  simp only [onLoginRequest] at h
  split at h
  · next honline =>
    rw [if_neg fun hcheck => hpass ⟨by simpa using honline, hcheck⟩] at h
    obtain ⟨-, rfl⟩ := Prod.mk.inj (Option.some.inj h)
    rw [sessionidOf, Keyspace.hashAt_congr (CRedis.keys_zincrby_of_ne (loginMap_ne_serverRank u) _ _)]
    by_cases hk : ascii "loginMap:" ++ u = cstr (ascii "loginMap:" ++ request.userId)
    · rw [hk, Keyspace.hashAt, CRedis.keys_del_self]
      exact .inr rfl
    · rw [Keyspace.hashAt_congr (CRedis.keys_del_of_ne hk)]
      exact .inl rfl
  · obtain ⟨-, rfl⟩ := Prod.mk.inj (Option.some.inj h)
    exact .inl rfl

theorem fieldOf_hgetAll (r : Redis) (u : Bytes) (field : String) :
    fieldOf (CRedis.hgetAll r (ascii "user:" ++ u)) field = (seen r u field).getD [] := rfl

/-- Without zero bytes in the names of the fields, those that are there are read. -/
theorem alike_of_nulFree (hu : NulFree u)
    (h : ∀ f ∈ r.keys.hashAt (ascii "user:" ++ u), NulFree f) : Alike md5 r u := by
  have hkey : cstr (ascii "user:" ++ u) = ascii "user:" ++ u :=
    cstr_eq_self (NulFree.append (by decide) hu)
  have hseen : ∀ field, seen r u field = stored r u field := by
    intro field
    rw [seen, CRedis.lookup_hgetAll (by rwa [hkey]), hkey, stored]
  exact ⟨hseen _, by rw [hseen]⟩

/-- The comparison, for fields that are there. -/
theorem checkData_iff (h : Alike md5 r request.userId) (hid : (stored r request.userId "useId").isSome)
    {password : Bytes} (hpassword : stored r request.userId "password" = some password) :
    CheckData md5 (CRedis.hgetAll r (ascii "user:" ++ request.userId)) request ↔
      stored r request.userId "useId" = some request.userId ∧
        cstr (md5 password) = cstr request.password := by
  obtain ⟨id, hid⟩ := Option.isSome_iff_exists.1 hid
  have hdigest := h.password
  rw [hpassword, Option.getD_some] at hdigest
  rw [CheckData, fieldOf_hgetAll, fieldOf_hgetAll, h.useId, hid, hdigest, Option.getD_some,
    Option.some_inj, eq_comm]

/-- A field that is there is read, or another one for it. -/
theorem seen_isSome (hu : NulFree u) {field : String} (hfield : NulFree (ascii field))
    (h : (stored r u field).isSome) : (seen r u field).isSome := by
  refine AList.lookup_isSome.2 (CRedis.mem_hgetAll hfield ?_)
  rw [cstr_eq_self (NulFree.append (by decide) hu)]
  exact AList.lookup_isSome.1 h

/-- Where right credentials pass the comparison, no other fields are read. -/
theorem alike_of_right (hu : NulFree request.userId) (hright : HasCredentials md5 r request)
    (hcheck : CheckData md5 (CRedis.hgetAll r (ascii "user:" ++ request.userId)) request) :
    Alike md5 r request.userId := by
  obtain ⟨hid, password, hpassword, hdigest⟩ := hright
  obtain ⟨heq, hcut⟩ := hcheck
  constructor
  · obtain ⟨id, hseen⟩ := Option.isSome_iff_exists.1 (seen_isSome hu (show NulFree (ascii "useId") by decide)
      (by rw [hid]; rfl))
    rw [fieldOf_hgetAll, hseen, Option.getD_some] at heq
    rw [hseen, hid, heq]
  · rw [hpassword, Option.getD_some, ← hdigest]
    exact hcut

/-- The key `online:<user>` as the client sees it. -/
theorem existsKey_online (hu : NulFree u) (h : r.keys (ascii "online:" ++ u) = none) :
    CRedis.existsKey r (ascii "online:" ++ u) = false := by
  rwa [CRedis.existsKey_eq_false_iff, cstr_eq_self (NulFree.append (by decide) hu)]

theorem sessionidOf_hset (hw : Writable r u) (hsession : NulFree sessionID) :
    sessionidOf (CRedis.hset r (ascii "loginMap:" ++ u) (ascii "sessionid") sessionID) u =
      some sessionID := by
  have hself : (CRedis.hset r (ascii "loginMap:" ++ u) (ascii "sessionid") sessionID).keys
      (ascii "loginMap:" ++ u) = some (.hash
        ((r.keys.hashAt (ascii "loginMap:" ++ u)).insert (ascii "sessionid") sessionID)) := by
    rw [CRedis.hset, cstr_loginMap, cstr_eq_self hw.1, cstr_eq_self hsession]
    exact Keyspace.hset_self hw.2 _ _
  rw [sessionidOf, Keyspace.hashAt, hself]
  exact AList.lookup_insert _

/-- Another key is written, or none. -/
theorem sessionidOf_hset_of_not (hw : ¬Writable r u) :
    sessionidOf (CRedis.hset r (ascii "loginMap:" ++ u) (ascii "sessionid") sessionID) u =
      sessionidOf r u := by
  refine congrArg (AList.lookup _) (Keyspace.hashAt_congr ?_)
  rw [CRedis.hset, cstr_loginMap]
  by_cases hu : NulFree u
  · have hhash : ¬r.keys.HashOrNone (ascii "loginMap:" ++ u) := fun h => hw ⟨hu, h⟩
    rw [cstr_eq_self hu, Keyspace.hset_of_not hhash]
  · refine Keyspace.hset_of_ne fun heq => hu ?_
    rw [List.append_cancel_left heq]
    exact nulFree_cstr u

/-- **When a session id is written**: the request passes, and the session id can be written. -/
theorem writes_iff : Writes md5 r request ↔ Passes md5 r request ∧ Writable r request.userId := by
  constructor
  · intro h
    by_contra hno
    -- two session ids cannot both have been there before
    have hsame : ∀ sessionID, sessionidOf (checked md5 sessionID r request) request.userId =
        sessionidOf r request.userId := by
      intro sessionID
      by_cases hpass : Passes md5 r request
      · rw [checked, if_pos hpass]
        exact sessionidOf_hset_of_not fun hw => hno ⟨hpass, hw⟩
      · rw [checked_of_not_passes hpass]
    have hnil := (hsame []).symm.trans (h [] (by decide))
    have hone := (hsame [1]).symm.trans (h [1] (by decide))
    cases hnil.symm.trans hone
  · rintro ⟨hpass, hw⟩ sessionID hsession
    rw [checked, if_pos hpass]
    exact sessionidOf_hset hw hsession

/-- **When the check of the credentials is exact.** For a user who is not online: a session id is written
for the right credentials and only for them, if and only if Redis and the request meet the condition. -/
theorem writes_iff_hasCredentials_iff (md5 : Bytes → Bytes) (r : Redis) (request : LoginRequest)
    (h : r.keys (ascii "online:" ++ request.userId) = none) :
    (Writes md5 r request ↔ HasCredentials md5 r request) ↔ Exact md5 r request := by
  have hpasses : Writable r request.userId → (Passes md5 r request ↔
      CheckData md5 (CRedis.hgetAll r (ascii "user:" ++ request.userId)) request) := fun hw =>
    and_iff_right (existsKey_online hw.1 h)
  rw [writes_iff]
  constructor
  · intro hiff
    refine ⟨fun hright => ?_, fun hw hcheck => ?_⟩
    · obtain ⟨hpass, hw⟩ := hiff.2 hright
      exact ⟨hw, alike_of_right hw.1 hright ((hpasses hw).1 hpass)⟩
    · have hright := hiff.1 ⟨(hpasses hw).2 hcheck, hw⟩
      obtain ⟨hid, password, hpassword, hdigest⟩ := id hright
      refine ⟨⟨?_, ?_, alike_of_right hw.1 hright hcheck⟩, fun password' hpassword' _ => ?_⟩
      · rw [hid]
        rfl
      · rw [hpassword]
        rfl
      · rw [hdigest, Option.some.inj (hpassword.symm.trans hpassword')]
  · intro hexact
    constructor
    · rintro ⟨hpass, hw⟩
      have hcheck := (hpasses hw).1 hpass
      obtain ⟨⟨hid, hsome, halike⟩, hdigest⟩ := hexact.compared hw hcheck
      obtain ⟨password, hpassword⟩ := Option.isSome_iff_exists.1 hsome
      obtain ⟨huser, hcut⟩ := (checkData_iff halike hid hpassword).1 hcheck
      exact ⟨huser, password, hpassword, (hdigest password hpassword hcut).symm⟩
    · intro hright
      obtain ⟨hw, halike⟩ := hexact.right hright
      obtain ⟨hid, password, hpassword, hdigest⟩ := hright
      refine ⟨(hpasses hw).2 ((checkData_iff halike (by rw [hid]; rfl) hpassword).2 ⟨hid, ?_⟩), hw⟩
      rw [hdigest]

theorem userRedis_writable : Writable userRedis (ascii "a") := by
  refine ⟨by decide, fun v hv => ?_⟩
  cases (userRedis_loginMap (ascii "a")).symm.trans hv

/-- The digest is taken. -/
theorem written_for_digest :
    Writes md5A userRedis ⟨0, ascii "a", digestA⟩ ↔
      HasCredentials md5A userRedis ⟨0, ascii "a", digestA⟩ := by
  refine (writes_iff_hasCredentials_iff md5A userRedis ⟨0, ascii "a", digestA⟩ (by decide)).2 ?_
  have halike : Alike md5A userRedis (ascii "a") := ⟨by decide +kernel, by decide +kernel⟩
  refine ⟨fun _ => ⟨userRedis_writable, halike⟩, fun _ _ => ⟨⟨?_, ?_, halike⟩, fun password h _ => ?_⟩⟩
  · decide +kernel
  · decide +kernel
  · have hpassword : stored userRedis (ascii "a") "password" = some (ascii "a") := by decide +kernel
    obtain rfl := Option.some.inj (hpassword.symm.trans h)
    decide +kernel

/-- So is the digest with a zero byte behind it. -/
theorem written_for_longer_digest :
    userRedis.keys (ascii "online:" ++ ascii "a") = none ∧
      Writes md5A userRedis ⟨0, ascii "a", digestA ++ [0]⟩ ∧
      ¬HasCredentials md5A userRedis ⟨0, ascii "a", digestA ++ [0]⟩ := by
  refine ⟨by decide, writes_iff.2 ⟨by decide +kernel, userRedis_writable⟩, ?_⟩
  rintro ⟨-, password, hpassword, hdigest⟩
  have ha : stored userRedis (ascii "a") "password" = some (ascii "a") := by decide +kernel
  obtain rfl := Option.some.inj (ha.symm.trans hpassword)
  revert hdigest
  decide +kernel

end MutexIM.LoginServer
