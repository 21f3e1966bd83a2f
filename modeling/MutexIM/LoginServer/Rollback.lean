import MutexIM.LoginServer.Ranks

/-!
# A refused login

A `MsgServerRequest` takes 10 off the score of the server it picks and notes the server in the hash
`loginMap:<user>`; a `LoginRequest` that fails the check deletes the hash and gives 10 to the server noted
in it. The two undo each other where the server is noted as it was picked, and the hash was not there
before.

* `scores_restored_iff`: lowering a score and raising one.
* `notedSocket_hmset_iff`: which servers are noted as they were picked.
* `attempt_rolledBack_iff`: when a refused login leaves everything as it was.
* `sessionid_lost`: it deletes the session id of an earlier login.
-/

namespace MutexIM.LoginServer

open Bytes

/-- A `MsgServerRequest` and a `LoginRequest` of one user. -/
def attempt (md5 : Bytes → Bytes) (sessionID : Bytes) (nTimeTamp : ℤ) (r : Redis)
    (request : LoginRequest) : Option Redis :=
  (onMsgServerRequest r ⟨request.userId⟩).bind fun p =>
    (onLoginRequest md5 sessionID nTimeTamp p.2 request).map Prod.snd

/-- The hash of a user, as the commands name it. -/
def loginMapKey (u : Bytes) : Bytes := ascii "loginMap:" ++ cstr u

/-- The scores and the hash of the user are what they were. -/
def RolledBack (r r' : Redis) (u : Bytes) : Prop :=
  (∀ m, (r'.keys.ranks (ascii "serverRank")).lookup m = (r.keys.ranks (ascii "serverRank")).lookup m) ∧
    r'.keys (loginMapKey u) = r.keys (loginMapKey u)

/-- The words that note a server are sent as they are, and none is empty. -/
def Notable (u socket : Bytes) : Prop :=
  CRedis.Plain u ∧ CRedis.Plain socket ∧ addressOf socket ≠ [] ∧ portOf socket ≠ []

instance (u socket : Bytes) : Decidable (Notable u socket) := inferInstanceAs (Decidable (_ ∧ _))

/-- The server noted is the one picked: it can be noted, or it is the socket `:`, which is read of a
user without a hash, and the words that note it go somewhere else. -/
def NotedAsPicked (u socket : Bytes) : Prop :=
  Notable u socket ∨ socket = ascii ":" ∧ ¬CRedis.Plain u ∧
    (CRedis.formatCommand (CRedis.hmsetText (ascii "loginMap:" ++ u)
      [(ascii "address", []), (ascii "port", [])])).isSome

/-! ## The scores -/

/-- **Lowering one score and raising one** leaves the scores as they were where it is the same one, and
there was one. -/
theorem scores_restored_iff {s : AList fun _ : Bytes => ℤ} {x y : Bytes} {d : ℤ} (hd : d ≠ 0) :
    (∀ m, ((s.insert x ((s.lookup x).getD 0 - d)).insert y
        (((s.insert x ((s.lookup x).getD 0 - d)).lookup y).getD 0 + d)).lookup m = s.lookup m) ↔
      y = x ∧ x ∈ s := by
  constructor
  · intro h
    by_cases hyx : y = x
    · subst hyx
      have hy := h y
      rw [AList.lookup_insert] at hy
      exact ⟨rfl, AList.lookup_isSome.1 (hy ▸ rfl)⟩
    · have hx := h x
      rw [AList.lookup_insert_ne (Ne.symm hyx), AList.lookup_insert] at hx
      rw [← hx, Option.getD_some, Option.some.injEq] at hx
      omega
  · rintro ⟨rfl, hmem⟩ m
    obtain ⟨z, hz⟩ := Option.isSome_iff_exists.1 (AList.lookup_isSome.2 hmem)
    by_cases hm : m = y
    · subst hm
      rw [AList.lookup_insert, AList.lookup_insert, hz, Option.getD_some, Option.getD_some,
        sub_add_cancel]
    · rw [AList.lookup_insert_ne hm, AList.lookup_insert_ne hm]

/-! ## The words of the command -/

section Words

variable {r r₁ : Redis} {u s c : Bytes} {rest : List Bytes} {socket : Bytes}

theorem loginMapKey_eq (u : Bytes) : cstr (ascii "loginMap:" ++ u) = loginMapKey u :=
  cstr_append (by decide) u

/-- **The hash of the user is the one in the command**: then the id means nothing in a format, and the
other words are those of the map. -/
theorem plain_of_key
    (h : CRedis.formatWords [] false (cstr (ascii "HMSET " ++ (ascii "loginMap:" ++ u) ++ ascii " " ++ s)) =
      some (c :: loginMapKey u :: rest)) (hrest : rest ≠ []) :
    CRedis.Plain u ∧ CRedis.formatWords [] false (cstr s) = some rest := by
  have hpre : ascii "HMSET " ++ (ascii "loginMap:" ++ u) ++ ascii " " ++ s =
      (ascii "HMSET" ++ 32 :: ascii "loginMap:") ++ (u ++ 32 :: s) := by
    simp [ascii]
  rw [hpre, cstr_append (by decide), List.append_assoc, CRedis.formatWords_append (by decide) (by decide),
    List.cons_append, CRedis.formatWords_blank, CRedis.formatWords_append (by decide) (by decide)] at h
  obtain ⟨ws, hws, heq⟩ := Option.map_eq_some_iff.1 h
  obtain ⟨-, rfl⟩ := List.cons.inj heq
  have hblank : 32 ∉ cstr u := fun hmem =>
    (CRedis.mem_of_formatWords hws List.mem_cons_self (List.mem_append_right _ hmem)).elim
      (fun hmem => absurd hmem (by decide)) fun hmem => hmem.2 rfl
  by_cases hnul : NulFree u
  · rw [cstr_eq_self hnul] at hblank
    rw [cstr_append hnul, cstr, List.takeWhile_cons_of_pos (by decide),
      CRedis.formatWords_word hblank] at hws
    obtain ⟨w, hw, hmap⟩ := Option.bind_eq_some_iff.1 hws
    obtain ⟨ws, hrest', heq⟩ := Option.map_eq_some_iff.1 hmap
    rw [if_pos (.inl rfl)] at heq
    obtain ⟨hkey, rfl⟩ := List.cons.inj heq
    rw [loginMapKey, cstr_eq_self hnul] at hkey
    obtain rfl := List.append_cancel_left hkey
    have hpercent := ((CRedis.length_of_unescape hw).2 rfl).2
    refine ⟨fun b hb => ⟨hnul b hb, ?_, ?_⟩, hrest'⟩
    · rintro rfl
      exact hpercent hb
    · rintro rfl
      exact hblank hb
  · -- the text ends within the id
    rw [cstr_append_of_not_nulFree hnul] at hws
    have hlen := CRedis.length_le_of_formatWords hws hblank
    exact absurd (List.eq_nil_of_length_eq_zero (by simpa using hlen)) hrest

/-- The bytes of the words of a text are no zeros and no blanks. -/
theorem bytes_of_words (h : CRedis.formatWords [] false (cstr s) = some rest) :
    ∀ w ∈ rest, ∀ b ∈ w, b ≠ 0 ∧ b ≠ 32 := by
  intro w hw b hb
  rcases CRedis.mem_of_formatWords h hw hb with hb | ⟨hb, hblank⟩
  · cases hb
  · exact ⟨nulFree_cstr _ b hb, hblank⟩

/-- **The words that note an address and a port** without blanks. -/
theorem words_of_map {address port : Bytes} (haddress : ∀ b ∈ address, b ≠ 0 ∧ b ≠ 32)
    (hport : ∀ b ∈ port, b ≠ 0 ∧ b ≠ 32)
    (h : CRedis.formatWords [] false (cstr ([(ascii "address", address), (ascii "port", port)].flatMap
      fun e => e.1 ++ ascii " " ++ e.2 ++ ascii " ")) = some rest) :
    ∃ a p, CRedis.unescape address = some a ∧ CRedis.unescape port = some p ∧
      rest = ascii "address" :: ((if address = [] then [] else [a]) ++
        ascii "port" :: if port = [] then [] else [p]) := by
  have htext : ([(ascii "address", address), (ascii "port", port)].flatMap
      fun e => e.1 ++ ascii " " ++ e.2 ++ ascii " ") =
        ascii "address" ++ 32 :: (address ++ 32 :: (ascii "port" ++ 32 :: (port ++ 32 :: []))) := by
    simp [ascii]
  have hnul : NulFree (ascii "address" ++ 32 :: (address ++ 32 :: (ascii "port" ++ 32 ::
      (port ++ 32 :: [])))) := by
    intro b hb
    simp only [List.mem_append, List.mem_cons, List.not_mem_nil, or_false] at hb
    rcases hb with hb | rfl | hb | rfl | hb | rfl | hb | rfl
    · exact (by decide : NulFree (ascii "address")) b hb
    · decide
    · exact (haddress b hb).1
    · decide
    · exact (by decide : NulFree (ascii "port")) b hb
    · decide
    · exact (hport b hb).1
    · decide
  have haddress' : 32 ∉ address := fun hmem => (haddress _ hmem).2 rfl
  have hport' : 32 ∉ port := fun hmem => (hport _ hmem).2 rfl
  rw [htext, cstr_eq_self hnul, CRedis.formatWords_append (by decide) (by decide),
    CRedis.formatWords_blank, CRedis.formatWords_word haddress',
    CRedis.formatWords_append (by decide) (by decide), CRedis.formatWords_blank,
    CRedis.formatWords_word hport'] at h
  obtain ⟨ws, hws, rfl⟩ := Option.map_eq_some_iff.1 h
  obtain ⟨a, ha, hws⟩ := Option.bind_eq_some_iff.1 hws
  obtain ⟨ws', hws', rfl⟩ := Option.map_eq_some_iff.1 hws
  obtain ⟨ws'', hws'', rfl⟩ := Option.map_eq_some_iff.1 hws'
  obtain ⟨p, hp, hws''⟩ := Option.bind_eq_some_iff.1 hws''
  obtain ⟨l, hl, rfl⟩ := Option.map_eq_some_iff.1 hws''
  obtain rfl := Option.some.inj hl
  refine ⟨a, p, ha, hp, ?_⟩
  by_cases hae : address = [] <;> by_cases hpe : port = [] <;> simp [hae, hpe]

/-- The hash made of fields with their values. -/
def hashOf (fvs : List (Bytes × Bytes)) : AList fun _ : Bytes => Bytes :=
  fvs.foldl (fun h e => h.insert e.1 e.2) ∅

/-- A value of a field that has been set is the one from before, or one of those set. -/
theorem lookup_foldl_insert_cases {fvs : List (Bytes × Bytes)} {dataMap : AList fun _ : Bytes => Bytes}
    {f v : Bytes} (h : (fvs.foldl (fun h e => h.insert e.1 e.2) dataMap).lookup f = some v) :
    dataMap.lookup f = some v ∨ v ∈ fvs.map Prod.snd := by
  induction fvs generalizing dataMap with
  | nil => exact .inl h
  | cons e fvs ih =>
    rcases ih h with h | h
    · by_cases hf : f = e.1
      · subst hf
        rw [AList.lookup_insert] at h
        exact .inr (Option.some.inj h ▸ List.mem_cons_self)
      · rw [AList.lookup_insert_ne hf] at h
        exact .inl h
    · exact .inr (List.mem_cons_of_mem _ h)

/-- **What is noted for a user without a hash**: the fields that are set; its bytes are no zeros and no
blanks. -/
theorem notedSocket_of_hmset {fvs : List (Bytes × Bytes)} (hnone : r.keys (loginMapKey u) = none)
    (hwords : ∀ w ∈ rest, ∀ b ∈ w, b ≠ 0 ∧ b ≠ 32) (hfvs : CRedis.fieldValues rest = some fvs)
    (hkeys : r₁.keys = (r.keys.hmset (loginMapKey u) fvs).2) :
    notedSocket r₁ u = fieldOf (hashOf fvs) "address" ++ ascii ":" ++
        fieldOf (hashOf fvs) "port" ∧
      ∀ b ∈ notedSocket r₁ u, b ≠ 0 ∧ b ≠ 32 := by
  have hhash : r.keys.hashAt (loginMapKey u) = ∅ := by rw [Keyspace.hashAt, hnone]
  have hself : r₁.keys (loginMapKey u) =
      some (.hash (hashOf fvs)) := by
    rw [hkeys, Keyspace.hmset_self (fun v hv => absurd hv (by simp [hnone])), hhash, hashOf]
  have hfields : ∀ f ∈ r₁.keys.hashAt (ascii "loginMap:" ++ cstr u), NulFree f := by
    intro f hf b hb
    rw [hkeys] at hf
    rcases Keyspace.mem_hashAt_hmset hf with hold | ⟨-, hnew⟩
    · rw [← loginMapKey, hhash] at hold
      exact absurd hold (AList.notMem_empty f)
    · exact (hwords f (CRedis.fieldValues_subset hfvs hnew) b hb).1
  have hnoted := (notedSocket_eq hfields).trans (socketOf_eq hself)
  refine ⟨hnoted, fun b hb => ?_⟩
  have hvalue : ∀ field, b ∈ fieldOf (hashOf fvs) field →
      b ≠ 0 ∧ b ≠ 32 := by
    intro field hb
    unfold fieldOf at hb
    cases hv : (hashOf fvs).lookup (ascii field) with
    | none =>
      rw [hv] at hb
      cases hb
    | some v =>
      rw [hv] at hb
      rcases lookup_foldl_insert_cases hv with hold | hnew
      · cases hold
      · exact hwords v (CRedis.fieldValues_subset_snd hfvs hnew) b hb
  rw [hnoted] at hb
  rcases List.mem_append.1 hb with hb | hb
  · rcases List.mem_append.1 hb with hb | hb
    · exact hvalue _ hb
    · rw [List.mem_singleton.1 hb]
      decide
  · exact hvalue _ hb

/-- What is noted where the hash of the user is not there. -/
theorem notedSocket_of_none (h : r.keys (loginMapKey u) = none) : notedSocket r u = ascii ":" := by
  have hfields : ∀ f ∈ r.keys.hashAt (ascii "loginMap:" ++ cstr u), NulFree f := by
    intro f hf
    rw [← loginMapKey, Keyspace.hashAt, h] at hf
    exact absurd hf (AList.notMem_empty f)
  rw [notedSocket_eq hfields, socketOf, ← loginMapKey, Keyspace.hashAt, h]
  rfl

theorem fieldOf_hashOf (a p : Bytes) :
    fieldOf (hashOf [(ascii "address", a), (ascii "port", p)]) "address" = a ∧
      fieldOf (hashOf [(ascii "address", a), (ascii "port", p)]) "port" = p :=
  have hne : ascii "address" ≠ ascii "port" := by decide
  ⟨(fieldOf_insert_of_ne hne _ p).trans (fieldOf_insert _ "address" a), fieldOf_insert _ "port" p⟩

theorem loginMapKey_of_plain (hu : CRedis.Plain u) : loginMapKey u = ascii "loginMap:" ++ u := by
  rw [loginMapKey, cstr_eq_self fun c hc => (hu c hc).1]

/-- A server that can be noted is noted as it is. -/
theorem notedSocket_of_notable (hnone : r.keys (loginMapKey u) = none) (hcolon : 58 ∈ socket)
    (h : CRedis.hmset r (ascii "loginMap:" ++ u)
      [(ascii "address", addressOf socket), (ascii "port", portOf socket)] = some r₁)
    (hnote : Notable u socket) : notedSocket r₁ u = socket := by
  obtain ⟨hu, hplain, ha, hp⟩ := hnote
  rw [hmset_loginMap_of_ne hu (plain_addressOf hplain) (plain_portOf hplain) ha hp] at h
  obtain rfl := Option.some.inj h
  have hwords : ∀ w ∈ [ascii "address", addressOf socket, ascii "port", portOf socket],
      ∀ b ∈ w, b ≠ 0 ∧ b ≠ 32 := by
    intro w hw b hb
    have hw' : CRedis.Plain w := by
      simp only [List.mem_cons, List.not_mem_nil, or_false] at hw
      rcases hw with rfl | rfl | rfl | rfl
      · decide
      · exact plain_addressOf hplain
      · decide
      · exact plain_portOf hplain
    exact ⟨(hw' b hb).1, (hw' b hb).2.2⟩
  rw [(notedSocket_of_hmset hnone hwords rfl (by rw [loginMapKey_of_plain hu])).1,
    (fieldOf_hashOf _ _).1, (fieldOf_hashOf _ _).2, addressOf_append_portOf hcolon]

/-- A server that is noted as it was picked, in the hash of the user, can be noted. -/
theorem notable_of_words {fvs : List (Bytes × Bytes)} (hnone : r.keys (loginMapKey u) = none)
    (hcolon : 58 ∈ socket) (hu : CRedis.Plain u) (hrest : CRedis.formatWords [] false
      (cstr ([(ascii "address", addressOf socket), (ascii "port", portOf socket)].flatMap
        fun e => e.1 ++ ascii " " ++ e.2 ++ ascii " ")) = some rest)
    (hfvs : CRedis.fieldValues rest = some fvs)
    (hkeys : r₁.keys = (r.keys.hmset (loginMapKey u) fvs).2) (h : notedSocket r₁ u = socket) :
    Notable u socket := by
  obtain ⟨hnoted, hbytes⟩ := notedSocket_of_hmset hnone (bytes_of_words hrest) hfvs hkeys
  rw [h] at hbytes
  have haddress : ∀ b ∈ addressOf socket, b ≠ 0 ∧ b ≠ 32 := fun b hb =>
    hbytes b (List.takeWhile_subset _ hb)
  have hport : ∀ b ∈ portOf socket, b ≠ 0 ∧ b ≠ 32 := fun b hb =>
    hbytes b (List.dropWhile_subset _ (List.mem_of_mem_tail hb))
  obtain ⟨a, p, ha, hp, rfl⟩ := words_of_map haddress hport hrest
  clear haddress hport
  by_cases haddress : addressOf socket = [] <;> by_cases hport : portOf socket = []
  · -- the value of the field `address` is the word `port`
    rw [if_pos haddress, if_pos hport] at hfvs
    obtain rfl := Option.some.inj hfvs
    rw [h, ← addressOf_append_portOf hcolon, haddress, hport] at hnoted
    exact absurd hnoted (by decide)
  · rw [if_pos haddress, if_neg hport] at hfvs
    cases hfvs
  · rw [if_neg haddress, if_pos hport] at hfvs
    cases hfvs
  · rw [if_neg haddress, if_neg hport] at hfvs
    obtain rfl := Option.some.inj hfvs
    rw [(fieldOf_hashOf a p).1, (fieldOf_hashOf a p).2, h] at hnoted
    have hlen := congrArg List.length ((addressOf_append_portOf hcolon).trans hnoted)
    obtain ⟨hale, haeq⟩ := CRedis.length_of_unescape ha
    obtain ⟨hple, hpeq⟩ := CRedis.length_of_unescape hp
    simp only [List.length_append] at hlen
    have hapercent := (haeq (by omega)).2
    have hppercent := (hpeq (by omega)).2
    refine ⟨hu, fun b hb => ⟨(hbytes b hb).1, ?_, (hbytes b hb).2⟩, haddress, hport⟩
    rintro rfl
    rw [← addressOf_append_portOf hcolon, List.append_assoc] at hb
    rcases List.mem_append.1 hb with hb | hb
    · exact hapercent hb
    · rcases List.mem_append.1 hb with hb | hb
      · exact absurd hb (by decide)
      · exact hppercent hb

/-- **Which servers are noted as they were picked**, for a user without a hash. -/
theorem notedSocket_hmset_iff (hnone : r.keys (loginMapKey u) = none) (hcolon : 58 ∈ socket)
    (hnul : NulFree socket) (h : CRedis.hmset r (ascii "loginMap:" ++ u)
      [(ascii "address", addressOf socket), (ascii "port", portOf socket)] = some r₁) :
    cstr (notedSocket r₁ u) = socket ↔ NotedAsPicked u socket := by
  rcases CRedis.keys_hmset_cases h (loginMapKey u) with hkey | ⟨c, rest, fvs, hargs, hfvs, hkeys⟩
  · have hfree := hkey.trans hnone
    rw [notedSocket_of_none hfree]
    constructor
    · rintro rfl
      refine .inr ⟨rfl, fun hu => ?_, ?_⟩
      · have hcolon' := h.symm.trans (hmset_loginMap_colon hu)
        obtain rfl := Option.some.inj hcolon'
        have hset := Keyspace.hmset_self (fun v hv => absurd hv (by simp [hnone]) :
          r.keys.HashOrNone (loginMapKey u)) [(ascii "address", ascii "port")]
        rw [← loginMapKey_of_plain hu] at hfree
        cases hset.symm.trans hfree
      · rw [CRedis.hmset, if_neg (List.cons_ne_nil _ _)] at h
        obtain ⟨args, hargs, -⟩ := Option.map_eq_some_iff.1 h
        exact hargs ▸ rfl
    · rintro (hnote | ⟨rfl, -⟩)
      · have hsocket := notedSocket_of_notable hnone hcolon h hnote
        rw [notedSocket_of_none hfree] at hsocket
        rw [← hsocket]
        rfl
      · rfl
  · have hrest : rest ≠ [] := by
      rintro rfl
      cases hfvs
    obtain ⟨hu, hwords⟩ := plain_of_key hargs hrest
    constructor
    · intro hsocket
      refine .inl (notable_of_words hnone hcolon hu hwords hfvs hkeys ?_)
      have hbytes := (notedSocket_of_hmset hnone (bytes_of_words hwords) hfvs hkeys).2
      rwa [cstr_eq_self fun b hb => (hbytes b hb).1] at hsocket
    · rintro (hnote | ⟨-, hu', -⟩)
      · rw [notedSocket_of_notable hnone hcolon h hnote, cstr_eq_self hnul]
      · exact absurd hu hu'

end Words

/-! ## Both requests -/

section Attempt

variable {md5 : Bytes → Bytes} {sessionID : Bytes} {nTimeTamp : ℤ} {r r₁ r' : Redis}
  {request : LoginRequest} {u socket : Bytes}

/-- A request is refused as well after a server has been noted. -/
theorem refused_congr (h : CRedis.hmset (CRedis.zincrby r (ascii "serverRank") (-10) socket)
      (ascii "loginMap:" ++ u)
      [(ascii "address", addressOf socket), (ascii "port", portOf socket)] = some r₁)
    (hrefused : Refused md5 r request) : Refused md5 r₁ request := by
  have hkeys : ∀ k, k ≠ ascii "serverRank" → ¬ascii "loginMap:" <+: k → r₁.keys k = r.keys k :=
    fun k hne hpre => by
      rw [CRedis.keys_hmset_of_not_prefix (by decide) (by decide) h hpre]
      exact CRedis.keys_zincrby_of_ne hne _ _
  have honline : CRedis.existsKey r₁ (ascii "online:" ++ request.userId) =
      CRedis.existsKey r (ascii "online:" ++ request.userId) := by
    rw [CRedis.existsKey, CRedis.existsKey, Keyspace.existsKey, Keyspace.existsKey, hkeys]
    · rw [cstr_append (by decide)]
      simp [ascii]
    · rw [cstr_append (by decide)]
      simp [ascii]
  have huser : CRedis.hgetAll r₁ (ascii "user:" ++ request.userId) =
      CRedis.hgetAll r (ascii "user:" ++ request.userId) := by
    rw [CRedis.hgetAll, CRedis.hgetAll, Keyspace.hgetall, Keyspace.hgetall, hkeys]
    · rw [cstr_append (by decide)]
      simp [ascii]
    · rw [cstr_append (by decide)]
      simp [ascii]
  rwa [Refused, honline, huser]

/-- A request that is refused is answered so. -/
theorem onLoginRequest_of_refused (sessionID : Bytes) (nTimeTamp : ℤ) (h : Refused md5 r request) :
    ∃ response, onLoginRequest md5 sessionID nTimeTamp r request = some (response,
      CRedis.zincrby (CRedis.del r (ascii "loginMap:" ++ request.userId)) (ascii "serverRank") 10
        (notedSocket r request.userId)) := by
  simp only [onLoginRequest, h.1, Bool.not_false, if_true, if_neg h.2]
  exact ⟨_, rfl⟩

theorem keys_zincrby_of_zset {s : AList fun _ : Bytes => ℤ} (hs : r.keys (ascii "serverRank") = some (.zset s))
    (d : ℤ) (m : Bytes) : (CRedis.zincrby r (ascii "serverRank") d m).keys (ascii "serverRank") =
      some (.zset (s.insert (cstr m) ((s.lookup (cstr m)).getD 0 + d))) := by
  have hname : cstr (ascii "serverRank") = ascii "serverRank" := by decide
  rw [CRedis.zincrby, hname]
  exact Keyspace.zincrby_zset hs d (cstr m)

/-- The keys after a `MsgServerRequest` that picks a socket and a `LoginRequest` that is refused. -/
theorem keys_of_refused {s : AList fun _ : Bytes => ℤ} (hs : r.keys (ascii "serverRank") = some (.zset s))
    (h : CRedis.hmset (CRedis.zincrby r (ascii "serverRank") (-10) socket) (ascii "loginMap:" ++ u)
      [(ascii "address", addressOf socket), (ascii "port", portOf socket)] = some r₁)
    (hr' : r' = CRedis.zincrby (CRedis.del r₁ (ascii "loginMap:" ++ u)) (ascii "serverRank") 10
      (notedSocket r₁ u)) :
    r'.keys (loginMapKey u) = none ∧
      ∀ s₁, s₁ = s.insert (cstr socket) ((s.lookup (cstr socket)).getD 0 - 10) →
        r'.keys.ranks (ascii "serverRank") = s₁.insert (cstr (notedSocket r₁ u))
          ((s₁.lookup (cstr (notedSocket r₁ u))).getD 0 + 10) := by
  subst hr'
  constructor
  · rw [CRedis.keys_zincrby_of_ne (by simp [loginMapKey, ascii, cstr]), ← loginMapKey_eq,
      CRedis.keys_del_self]
  · rintro s₁ rfl
    have hlowered := keys_zincrby_of_zset hs (-10) socket
    have hne : ascii "serverRank" ≠ cstr (ascii "loginMap:" ++ u) := by
      rw [cstr_append (by decide)]
      simp [ascii]
    rw [← CRedis.keys_hmset_of_not_prefix (by decide) (by decide) h (by decide),
      ← CRedis.keys_del_of_ne hne] at hlowered
    rw [Keyspace.ranks, keys_zincrby_of_zset hlowered]
    rfl

theorem attempt_of_colon
    (hrange : CRedis.zrevrange r (ascii "serverRank") 0 0 = [socket]) (hcolon : 58 ∈ socket) :
    attempt md5 sessionID nTimeTamp r request =
      (CRedis.hmset (CRedis.zincrby r (ascii "serverRank") (-10) socket)
        (ascii "loginMap:" ++ request.userId)
        [(ascii "address", addressOf socket), (ascii "port", portOf socket)]).bind fun r₁ =>
          (onLoginRequest md5 sessionID nTimeTamp r₁ request).map Prod.snd := by
  simp only [attempt, onMsgServerRequest, hrange, if_pos hcolon, Option.bind_map]
  rfl

theorem attempt_of_no_colon
    (hrange : CRedis.zrevrange r (ascii "serverRank") 0 0 = [socket]) (hcolon : 58 ∉ socket) :
    attempt md5 sessionID nTimeTamp r request = none := by
  simp only [attempt, onMsgServerRequest, hrange, if_neg hcolon]
  rfl

/-- A server that is noted as it was picked makes a command. -/
theorem isSome_hmset_of_notedAsPicked (h : NotedAsPicked u socket) :
    (CRedis.hmset r (ascii "loginMap:" ++ u)
      [(ascii "address", addressOf socket), (ascii "port", portOf socket)]).isSome := by
  rcases h with ⟨hu, hplain, ha, hp⟩ | ⟨rfl, -, hformat⟩
  · rw [hmset_loginMap_of_ne hu (plain_addressOf hplain) (plain_portOf hplain) ha hp]
    rfl
  · rw [CRedis.hmset, if_neg (List.cons_ne_nil _ _), Option.isSome_map]
    exact hformat

/-- Where a server is ranked, a socket is picked. -/
theorem exists_picked {s : AList fun _ : Bytes => ℤ} (hs : r.keys (ascii "serverRank") = some (.zset s))
    {x : Bytes} (hx : x ∈ s) :
    ∃ socket, CRedis.zrevrange r (ascii "serverRank") 0 0 = [socket] ∧ cstr socket = socket := by
  have hname : cstr (ascii "serverRank") = ascii "serverRank" := by decide
  obtain ⟨m, -, hrange, -⟩ := Keyspace.zrevrange_first hs hx
  refine ⟨cstr m, ?_, cstr_cstr m⟩
  rw [CRedis.zrevrange, hname, hrange]
  rfl

/-- The two requests, once a server has been noted. -/
theorem rolledBack_iff_of_hmset {s : AList fun _ : Bytes => ℤ}
    (hs : r.keys (ascii "serverRank") = some (.zset s)) (hrefused : Refused md5 r request)
    (hcolon : 58 ∈ socket) (hcstr : cstr socket = socket)
    (hr₁ : CRedis.hmset (CRedis.zincrby r (ascii "serverRank") (-10) socket)
      (ascii "loginMap:" ++ request.userId)
      [(ascii "address", addressOf socket), (ascii "port", portOf socket)] = some r₁) :
    (∃ r', (onLoginRequest md5 sessionID nTimeTamp r₁ request).map Prod.snd = some r' ∧
        RolledBack r r' request.userId) ↔
      r.keys (loginMapKey request.userId) = none ∧ socket ∈ s ∧ NotedAsPicked request.userId socket := by
  obtain ⟨response, hresponse⟩ := onLoginRequest_of_refused sessionID nTimeTamp
    (refused_congr hr₁ hrefused)
  obtain ⟨hfree, hscores⟩ := keys_of_refused hs hr₁ rfl
  have hkey : (CRedis.zincrby r (ascii "serverRank") (-10) socket).keys
      (loginMapKey request.userId) = r.keys (loginMapKey request.userId) :=
    CRedis.keys_zincrby_of_ne (by simp [loginMapKey, ascii, cstr]) _ _
  rw [hresponse, Option.map_some]
  simp only [Option.some.injEq, exists_eq_left', RolledBack, hfree, Keyspace.ranks_of_zset hs]
  rw [hscores _ rfl, scores_restored_iff (by norm_num), hcstr, and_comm, eq_comm]
  refine and_congr_right fun hnone => ?_
  rw [notedSocket_hmset_iff (hkey.trans hnone) hcolon (cstr_eq_self_iff.1 hcstr) hr₁, and_comm]

/-- **When a refused login is undone.** Where a server is ranked and the request is refused, the scores
and the hash of the user are as they were before the two requests exactly when the user had no hash,
and the socket with the highest score is noted as it is ranked. -/
theorem attempt_rolledBack_iff (hserver : ∃ m, m ∈ r.keys.ranks (ascii "serverRank"))
    (hrefused : Refused md5 r request) :
    (∃ r', attempt md5 sessionID nTimeTamp r request = some r' ∧ RolledBack r r' request.userId) ↔
      r.keys (loginMapKey request.userId) = none ∧
        ∃ socket, CRedis.zrevrange r (ascii "serverRank") 0 0 = [socket] ∧ 58 ∈ socket ∧
          socket ∈ r.keys.ranks (ascii "serverRank") ∧ NotedAsPicked request.userId socket := by
  obtain ⟨x, hx⟩ := hserver
  obtain ⟨s, hs⟩ : ∃ s, r.keys (ascii "serverRank") = some (.zset s) :=
    ⟨_, Keyspace.zset_of_mem_ranks hx⟩
  rw [Keyspace.ranks_of_zset hs] at hx ⊢
  obtain ⟨socket, hrange, hcstr⟩ := exists_picked hs hx
  have hsome : ∀ socket', CRedis.zrevrange r (ascii "serverRank") 0 0 = [socket'] ↔
      socket' = socket := fun socket' => by
    rw [hrange]
    exact ⟨fun h => (List.singleton_inj.1 h).symm, fun h => h ▸ rfl⟩
  simp only [hsome, exists_eq_left]
  by_cases hcolon : 58 ∈ socket
  swap
  · rw [attempt_of_no_colon hrange hcolon]
    refine iff_of_false ?_ ?_
    · rintro ⟨_, h, -⟩
      cases h
    · rintro ⟨-, h, -⟩
      exact hcolon h
  rw [attempt_of_colon hrange hcolon, and_iff_right hcolon]
  cases hr₁ : CRedis.hmset (CRedis.zincrby r (ascii "serverRank") (-10) socket)
      (ascii "loginMap:" ++ request.userId)
      [(ascii "address", addressOf socket), (ascii "port", portOf socket)] with
  | none =>
    refine iff_of_false ?_ ?_
    · rintro ⟨_, h, -⟩
      cases h
    · rintro ⟨-, -, hnoted⟩
      rw [← Option.not_isSome_iff_eq_none] at hr₁
      exact hr₁ (isSome_hmset_of_notedAsPicked hnoted)
  | some r₁ =>
    rw [Option.bind_some]
    exact rolledBack_iff_of_hmset hs hrefused hcolon hcstr hr₁

end Attempt

/-- One message server, and the user `a` with the password `a`. -/
def rankedRedis : Redis where
  keys k :=
    if k = ascii "serverRank" then some (.zset (.singleton (ascii "10.0.0.1:80") 100))
    else if k = ascii "user:a" then
      some (.hash ((AList.singleton (ascii "useId") (ascii "a")).insert (ascii "password") (ascii "a")))
    else none
  published := []

/-- A login of `a` without the password. -/
def wrongRequest : LoginRequest where
  onlineState := 0
  userId := ascii "a"
  password := []

/-- The user `a` is refused, without a login before. -/
theorem rolledBack_first : ∃ r', attempt md5A (ascii "1") 0 rankedRedis wrongRequest = some r' ∧
    RolledBack rankedRedis r' (ascii "a") := by
  have hrange : CRedis.zrevrange rankedRedis (ascii "serverRank") 0 0 = [ascii "10.0.0.1:80"] := by
    decide +kernel
  have hmem : ascii "10.0.0.1:80" ∈ rankedRedis.keys.ranks (ascii "serverRank") := by decide +kernel
  exact (attempt_rolledBack_iff ⟨_, hmem⟩ (by decide +kernel)).2
    ⟨by decide +kernel, _, hrange, by decide, hmem, .inl (by decide +kernel)⟩

/-- The user `a` logs in, and is refused at the next try. -/
theorem sessionid_lost : ∃ r r',
    ((serve md5A rankedRedis (.msgServer ⟨ascii "a"⟩)).bind fun r =>
      serve md5A r (.login (ascii "1") 0 ⟨0, ascii "a", digestA⟩)) = some r ∧
    ascii "10.0.0.1:80" ∈ r.keys.ranks (ascii "serverRank") ∧ Refused md5A r wrongRequest ∧
    attempt md5A (ascii "2") 0 r wrongRequest = some r' ∧
    (r.keys.hashAt (ascii "loginMap:a")).lookup (ascii "sessionid") = some (ascii "1") ∧
    r'.keys (ascii "loginMap:a") = none ∧ ¬RolledBack r r' (ascii "a") := by
  have hrun : (((serve md5A rankedRedis (.msgServer ⟨ascii "a"⟩)).bind fun r =>
      serve md5A r (.login (ascii "1") 0 ⟨0, ascii "a", digestA⟩)).bind fun r =>
        (attempt md5A (ascii "2") 0 r wrongRequest).map fun r' =>
          ((r.keys.ranks (ascii "serverRank")).lookup (ascii "10.0.0.1:80"),
            decide (Refused md5A r wrongRequest),
            (r.keys.hashAt (ascii "loginMap:a")).lookup (ascii "sessionid"),
            r'.keys (ascii "loginMap:a"))) =
      some (some 90, true, some (ascii "1"), none) := by decide +kernel
  obtain ⟨r, hr, hrest⟩ := Option.bind_eq_some_iff.1 hrun
  obtain ⟨r', hr', heq⟩ := Option.map_eq_some_iff.1 hrest
  simp only [Prod.mk.injEq, decide_eq_true_eq] at heq
  obtain ⟨hrank, hrefused, hsession, hnone⟩ := heq
  refine ⟨r, r', hr, AList.lookup_isSome.1 (hrank ▸ rfl), hrefused, hr', hsession, hnone, fun h => ?_⟩
  have hkey : loginMapKey (ascii "a") = ascii "loginMap:a" := by decide
  have hback := h.2
  rw [hkey, hnone] at hback
  rw [Keyspace.hashAt, ← hback] at hsession
  cases hsession

end MutexIM.LoginServer
