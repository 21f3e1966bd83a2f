import MutexIM.Redis.CRedis

/-!
# The login server

A client asks the login server for a message server (`MsgServerRequest`), and then logs in there with
a `LoginRequest`. Both handlers write the hash `loginMap:<user>`: the first one the address and the
port of the message server, the second one a session id.

* `onMsgServerRequest` and `onLoginRequest` are `none` where an exception is thrown or a format asks
  for an argument that was not passed.
* `Passes` is the check of a `LoginRequest`.
* `sessionid_of_onMsgServerRequest` and `sessionid_of_onLoginRequest`: a field `sessionid` in a hash
  `loginMap:<user>` comes from a request that passes, or from the text of an id or a socket.
-/

namespace MutexIM.LoginServer

open Bytes

/-! ## The messages -/

/-- `IM.RESULTERROR`. -/
inductive ResultError
  | success | usernameError | passwordError | msgServerError | loginServerError | onlyOneError
  deriving DecidableEq

/-- `IM.MsgServerRequest`. -/
structure MsgServerRequest where
  userId : Bytes

/-- `IM.MsgServResponse`. -/
structure MsgServResponse where
  result : ResultError := .success
  port : ℤ := 0
  address : Bytes := []
  deriving DecidableEq

/-- `IM.LoginRequest`. -/
structure LoginRequest where
  onlineState : ℤ
  userId : Bytes
  password : Bytes

/-- `IM.LoginResponse`. -/
structure LoginResponse where
  result : ResultError := .success
  onlineStatus : ℤ := 0
  timeTamp : ℤ := 0
  sessionId : Bytes := []
  userId : Bytes := []
  name : Bytes := []
  nickName : Bytes := []
  imageUrl : Bytes := []
  position : Bytes := []
  email : Bytes := []
  sex : ℤ := 0
  deriving DecidableEq

/-! ## The handlers -/

/-- The part of a socket before the first colon. -/
def addressOf (socket : Bytes) : Bytes := socket.takeWhile (· ≠ 58)

/-- The part of a socket behind the first colon. -/
def portOf (socket : Bytes) : Bytes := (socket.dropWhile (· ≠ 58)).tail

/-- `Server::onMsgServerRequest`: the answer, if there is one, and Redis. -/
def onMsgServerRequest (r : Redis) (request : MsgServerRequest) :
    Option (Option MsgServResponse × Redis) :=
  match CRedis.zrevrange r (ascii "serverRank") 0 0 with
  | [socket] =>
    let r := CRedis.zincrby r (ascii "serverRank") (-10) socket
    -- without a colon, `find` gives `npos`, and the constructor of the string throws
    if 58 ∈ socket then
      let strAddress := addressOf socket
      let strPort := portOf socket
      let response := { result := .success, address := strAddress, port := atoi strPort }
      let key := ascii "loginMap:" ++ request.userId
      (CRedis.hmset r key [(ascii "address", strAddress), (ascii "port", strPort)]).map
        fun r => (some response, r)
    else none
  | _ => some (none, r)

/-- `dataMap[field]`. -/
def fieldOf (dataMap : AList fun _ : Bytes => Bytes) (field : String) : Bytes :=
  (dataMap.lookup (ascii field)).getD []

section Login

variable (md5 : Bytes → Bytes)

/-- The check of `Server::onLoginRequest`; the digest is compared by `strcmp`. -/
def CheckData (dataMap : AList fun _ : Bytes => Bytes) (request : LoginRequest) : Prop :=
  request.userId = fieldOf dataMap "useId" ∧
    cstr (md5 (fieldOf dataMap "password")) = cstr request.password

instance (dataMap : AList fun _ : Bytes => Bytes) (request : LoginRequest) :
    Decidable (CheckData md5 dataMap request) := inferInstanceAs (Decidable (_ ∧ _))

/-- `Server::onLoginRequest`: the answer and Redis. -/
def onLoginRequest (sessionID : Bytes) (nTimeTamp : ℤ) (r : Redis) (request : LoginRequest) :
    Option (LoginResponse × Redis) :=
  if !CRedis.existsKey r (ascii "online:" ++ request.userId) then
    let dataMap := CRedis.hgetAll r (ascii "user:" ++ request.userId)
    let userID := fieldOf dataMap "useId"
    if CheckData md5 dataMap request then
      let r := CRedis.hset r (ascii "loginMap:" ++ request.userId) (ascii "sessionid") sessionID
      let hmsetData :=
        [(ascii "lastLoginTime", itoa (nTimeTamp.bmod (2 ^ 32))),
          (ascii "onlineStatus", itoa request.onlineState)]
      (CRedis.hmset r (ascii "user:" ++ userID) hmsetData).map fun r =>
        let r := CRedis.publish r (ascii "login") userID
        let response :=
          { result := .success
            timeTamp := nTimeTamp
            sessionId := sessionID
            userId := userID
            name := fieldOf dataMap "username"
            nickName := fieldOf dataMap "nickName"
            position := fieldOf dataMap "position"
            email := fieldOf dataMap "email"
            imageUrl := fieldOf dataMap "imageurl"
            sex := atoi (fieldOf dataMap "sex") }
        (response, r)
    else
      let key := ascii "loginMap:" ++ request.userId
      let dataMap := CRedis.hgetAll r key
      let r := CRedis.del r key
      let keySocket := fieldOf dataMap "address" ++ ascii ":" ++ fieldOf dataMap "port"
      -- the result of the answer is not set
      some ({}, CRedis.zincrby r (ascii "serverRank") 10 keySocket)
  else some ({ result := .onlyOneError }, r)

/-- The request passes the user-id and password check. -/
def Passes (r : Redis) (request : LoginRequest) : Prop :=
  CRedis.existsKey r (ascii "online:" ++ request.userId) = false ∧
    CheckData md5 (CRedis.hgetAll r (ascii "user:" ++ request.userId)) request

instance (r : Redis) (request : LoginRequest) : Decidable (Passes md5 r request) :=
  inferInstanceAs (Decidable (_ ∧ _))

end Login

/-! ## Where the session ids come from -/

/-- The words between blanks that `HMSET` is sent for a request besides the command, the key and its
own ones: those of the id behind the first blank, and those of the address and the port. -/
def spliced (r : Redis) (userId : Bytes) : List Bytes :=
  ((cstr userId).splitOn 32).tail ++
    (CRedis.zrevrange r (ascii "serverRank") 0 0).flatMap fun socket =>
      (addressOf socket).splitOn 32 ++ (portOf socket).splitOn 32

section Words

variable {userId address port w pre s : Bytes}

theorem splitOn_append (hpre : 32 ∉ pre) (s : Bytes) :
    (pre ++ s).splitOn 32 = (s.splitOn 32).modifyHead (pre ++ ·) := by
  induction pre with
  | nil => exact congrFun List.modifyHead_id.symm _
  | cons c pre ih =>
    obtain ⟨hc, hpre⟩ := not_or.1 (mt List.mem_cons.2 hpre)
    rw [List.cons_append, List.splitOn_cons_eq_if_modifyHead, if_neg (by simpa using Ne.symm hc),
      ih hpre, List.modifyHead_modifyHead]
    rfl

/-- A word of an id with a prefix has that prefix, or stands behind a blank. -/
theorem mem_splitOn_append (hpre : 32 ∉ pre) (hw : w ∈ (pre ++ s).splitOn 32) :
    pre <+: w ∨ w ∈ (s.splitOn 32).tail := by
  obtain ⟨a, t, hat⟩ := List.exists_cons_of_ne_nil (List.splitOn_ne_nil 32 s)
  rw [splitOn_append hpre, hat, List.modifyHead_cons] at hw
  rw [hat]
  rcases List.mem_cons.1 hw with rfl | hw
  · exact .inl (List.prefix_append _ _)
  · exact .inr hw

/-- The text sent for a `MsgServerRequest` behind the id. -/
def socketText (address port : Bytes) : Bytes :=
  ascii "address" ++ 32 :: (address ++ 32 :: (ascii "port" ++ 32 :: (port ++ [32])))

theorem hmsetText_eq : CRedis.hmsetText (ascii "loginMap:" ++ userId)
      [(ascii "address", address), (ascii "port", port)] =
    ascii "HMSET loginMap:" ++ (userId ++ 32 :: socketText address port) := by
  simp [CRedis.hmsetText, socketText, ascii]

theorem nulFree_socketText (haddress : NulFree address) (hport : NulFree port) :
    NulFree (socketText address port) := by
  have hblank : ∀ {s t : Bytes}, NulFree s → NulFree t → NulFree (s ++ 32 :: t) := by
    intro s t hs ht
    refine hs.append fun c hc => ?_
    rcases List.mem_cons.1 hc with rfl | hc
    · decide
    · exact ht c hc
  exact hblank (by decide) (hblank haddress (hblank (by decide) (hblank hport (by decide))))

/-- A word of the command sent for a `MsgServerRequest`: a zero byte in the id cuts off what stands
behind it. -/
theorem mem_splitOn_hmsetText (haddress : NulFree address) (hport : NulFree port)
    (hw : w ∈ (cstr (CRedis.hmsetText (ascii "loginMap:" ++ userId)
      [(ascii "address", address), (ascii "port", port)])).splitOn 32) :
    w = ascii "HMSET" ∨ ascii "loginMap:" <+: w ∨ w ∈ ((cstr userId).splitOn 32).tail ∨
      w ∈ [ascii "address", ascii "port", []] ∨ w ∈ address.splitOn 32 ∨ w ∈ port.splitOn 32 := by
  have hbegin : w ∈ (ascii "HMSET loginMap:" ++ cstr userId).splitOn 32 →
      w = ascii "HMSET" ∨ ascii "loginMap:" <+: w ∨ w ∈ ((cstr userId).splitOn 32).tail := by
    intro hw
    rw [show ascii "HMSET loginMap:" ++ cstr userId =
      ascii "HMSET" ++ 32 :: (ascii "loginMap:" ++ cstr userId) from rfl,
      List.splitOn_append_cons_self, List.mem_append] at hw
    rcases hw with hw | hw
    · exact .inl (List.mem_singleton.1 hw)
    · exact .inr (mem_splitOn_append (by decide) hw)
  rw [hmsetText_eq, cstr_append (by decide)] at hw
  by_cases hu : NulFree userId
  · have htail : NulFree (32 :: socketText address port) := by
      intro c hc
      rcases List.mem_cons.1 hc with rfl | hc
      · decide
      · exact nulFree_socketText haddress hport c hc
    rw [cstr_eq_self (hu.append htail), ← List.append_assoc, List.splitOn_append_cons_self,
      List.mem_append] at hw
    rcases hw with hw | hw
    · rw [← cstr_eq_self hu] at hw
      rcases hbegin hw with h | h | h
      · exact .inl h
      · exact .inr (.inl h)
      · exact .inr (.inr (.inl h))
    · rw [socketText, List.splitOn_append_cons_self, List.splitOn_append_cons_self,
        List.splitOn_append_cons_self, List.splitOn_append_cons_self, List.splitOn_nil] at hw
      have hone : (ascii "address").splitOn 32 = [ascii "address"] ∧
          (ascii "port").splitOn 32 = [ascii "port"] := by decide
      rw [hone.1, hone.2] at hw
      simp only [List.mem_append, List.mem_cons, List.not_mem_nil, or_false] at hw ⊢
      rcases hw with hw | hw | hw | hw | hw <;> simp [hw]
  · rw [cstr_append_of_not_nulFree hu] at hw
    rcases hbegin hw with h | h | h
    · exact .inl h
    · exact .inr (.inl h)
    · exact .inr (.inr (.inl h))

end Words

section SessionId

variable {r r' : Redis} {u : Bytes}

theorem loginMap_ne_serverRank (u : Bytes) : ascii "loginMap:" ++ u ≠ ascii "serverRank" := by
  simp [ascii]

theorem nulFree_socket {socket : Bytes}
    (h : socket ∈ CRedis.zrevrange r (ascii "serverRank") 0 0) :
    NulFree (addressOf socket) ∧ NulFree (portOf socket) := by
  obtain ⟨e, -, rfl⟩ := List.mem_map.1 h
  have hnul := nulFree_cstr e.bytes
  exact ⟨fun c hc => hnul c ((List.takeWhile_subset _) hc),
    fun c hc => hnul c (List.dropWhile_subset _ (List.mem_of_mem_tail hc))⟩

/-- **A `MsgServerRequest` gives no session id**, unless the text `sessionid` is spliced in. -/
theorem sessionid_of_onMsgServerRequest {request : MsgServerRequest}
    {response : Option MsgServResponse} (h : onMsgServerRequest r request = some (response, r'))
    (hs : ascii "sessionid" ∉ spliced r request.userId)
    (hu : ascii "sessionid" ∈ r'.keys.hashAt (ascii "loginMap:" ++ u)) :
    ascii "sessionid" ∈ r.keys.hashAt (ascii "loginMap:" ++ u) := by
  unfold onMsgServerRequest at h
  split at h
  · next socket hsocket =>
    split at h
    · obtain ⟨r₁, hr₁, heq⟩ := Option.map_eq_some_iff.1 h
      obtain ⟨-, rfl⟩ := Prod.mk.inj heq
      rcases CRedis.mem_hashAt_of_hmset hr₁ hu with hold | ⟨c, rest, hcommand, hrest⟩
      · rwa [Keyspace.hashAt_congr
          (CRedis.keys_zincrby_of_ne (loginMap_ne_serverRank u) _ _)] at hold
      · have hmem := CRedis.mem_splitOn_of_formatCommand hcommand
          (List.mem_cons_of_mem _ (List.mem_cons_of_mem _ hrest)) (by decide)
        obtain ⟨haddress, hport⟩ := nulFree_socket (hsocket ▸ List.mem_singleton_self socket)
        have hne : ascii "sessionid" ≠ ascii "HMSET" ∧ ¬ascii "loginMap:" <+: ascii "sessionid" ∧
            ascii "sessionid" ∉ [ascii "address", ascii "port", []] := by decide
        simp only [spliced, hsocket, List.flatMap_cons, List.flatMap_nil, List.append_nil,
          List.mem_append, not_or] at hs
        rcases mem_splitOn_hmsetText haddress hport hmem with h | h | h | h | h | h
        · exact absurd h hne.1
        · exact absurd h hne.2.1
        · exact absurd h hs.1
        · exact absurd h hne.2.2
        · exact absurd h hs.2.1
        · exact absurd h hs.2.2
    · cases h
  · obtain ⟨-, rfl⟩ := Prod.mk.inj (Option.some.inj h)
    exact hu

variable {md5 : Bytes → Bytes}

/-- **A session id comes from a `LoginRequest` that passes.** -/
theorem sessionid_of_onLoginRequest {sessionID : Bytes} {nTimeTamp : ℤ} {request : LoginRequest}
    {response : LoginResponse}
    (h : onLoginRequest md5 sessionID nTimeTamp r request = some (response, r'))
    (hu : ascii "sessionid" ∈ r'.keys.hashAt (ascii "loginMap:" ++ u)) :
    ascii "sessionid" ∈ r.keys.hashAt (ascii "loginMap:" ++ u) ∨
      Passes md5 r request ∧ u = cstr request.userId := by
  simp only [onLoginRequest] at h
  split at h
  · next honline =>
    split at h
    · next hcheck =>
      obtain ⟨r₁, hr₁, heq⟩ := Option.map_eq_some_iff.1 h
      obtain ⟨-, rfl⟩ := Prod.mk.inj heq
      rw [CRedis.keys_publish] at hu
      rcases CRedis.mem_hashAt_of_hmset hr₁ hu with hold | ⟨c, rest, hcommand, -⟩
      · rcases Keyspace.mem_hashAt_hset hold with hold | ⟨hk, -⟩
        · exact .inl hold
        · rw [cstr_append (by decide)] at hk
          exact .inr ⟨⟨by simpa using honline, hcheck⟩, List.append_cancel_left hk⟩
      · -- the other hash written is one of the users
        obtain ⟨s, hs⟩ := CRedis.prefix_of_hmsetText (by decide) (by decide) hcommand
        simp [ascii] at hs
    · obtain ⟨-, rfl⟩ := Prod.mk.inj (Option.some.inj h)
      rw [Keyspace.hashAt_congr (CRedis.keys_zincrby_of_ne (loginMap_ne_serverRank u) _ _)] at hu
      by_cases hk : ascii "loginMap:" ++ u = cstr (ascii "loginMap:" ++ request.userId)
      · rw [hk, Keyspace.hashAt, CRedis.keys_del_self] at hu
        cases hu
      · rw [Keyspace.hashAt_congr (CRedis.keys_del_of_ne hk)] at hu
        exact .inl hu
  · obtain ⟨-, rfl⟩ := Prod.mk.inj (Option.some.inj h)
    exact .inl hu

end SessionId

end MutexIM.LoginServer
