import MutexIM.LoginServer.Rollback

/-!
# The way of an endpoint through `serverRank`

A message server enters the text of its address, a colon and its port as one member of `serverRank`. The
login server splits the member it picks at the first colon.

* `Arrives`: the response and the hash of the user have the address and the port of the server.
* `arrives_iff`: they do for IPv4 addresses and user ids that mean nothing in a format.
* `loopback_cut`: the address `::1`.
-/

namespace MutexIM.LoginServer

open Bytes

/-- An IP address, with the text of an IPv6 address as `boost` writes it. -/
inductive Address
  | v4 (a b c d : UInt8)
  | v6 (text : Bytes) (colon : 58 ∈ text) (nulFree : NulFree text)

/-- A number between 0 and 255 of an address. -/
def octet (b : UInt8) : Bytes := itoa b.toNat

/-- `address::to_string`. -/
def Address.toString : Address → Bytes
  | v4 a b c d =>
    octet a ++ ascii "." ++ octet b ++ ascii "." ++ octet c ++ ascii "." ++ octet d
  | v6 text _ _ => text

def Address.IsV4 : Address → Prop
  | v4 .. => True
  | v6 .. => False

variable {a : Address} {port : UInt16} {r r' : Redis} {u address : Bytes}

theorem mem_octet {b x : UInt8} (h : x ∈ octet b) : 48 ≤ x.toNat ∧ x.toNat ≤ 57 := mem_itoa h

/-- The text of an IPv4 address has digits and dots. -/
theorem mem_toString_v4 {a b c d x : UInt8} (h : x ∈ (Address.v4 a b c d).toString) :
    x = 46 ∨ 48 ≤ x.toNat ∧ x.toNat ≤ 57 := by
  have hdot : x ∈ ascii "." → x = 46 := List.mem_singleton.1
  simp only [Address.toString, List.mem_append] at h
  rcases h with (((((h | h) | h) | h) | h) | h) | h
  · exact .inr (mem_octet h)
  · exact .inl (hdot h)
  · exact .inr (mem_octet h)
  · exact .inl (hdot h)
  · exact .inr (mem_octet h)
  · exact .inl (hdot h)
  · exact .inr (mem_octet h)

theorem plain_of_digits {s : Bytes} (h : ∀ x ∈ s, x = 46 ∨ 48 ≤ x.toNat ∧ x.toNat ≤ 57) :
    CRedis.Plain s ∧ 58 ∉ s := by
  refine ⟨fun x hx => ⟨?_, ?_, ?_⟩, fun hx => absurd (h _ hx) (by decide)⟩
  · rintro rfl
    exact absurd (h _ hx) (by decide)
  · rintro rfl
    exact absurd (h _ hx) (by decide)
  · rintro rfl
    exact absurd (h _ hx) (by decide)

theorem plain_toString_v4 (a b c d : UInt8) :
    CRedis.Plain (Address.v4 a b c d).toString ∧ 58 ∉ (Address.v4 a b c d).toString :=
  plain_of_digits fun _ => mem_toString_v4

theorem toString_v4_ne_nil (a b c d : UInt8) : (Address.v4 a b c d).toString ≠ [] := by
  simp [Address.toString, ascii]

theorem plain_port (port : UInt16) : CRedis.Plain (itoa port.toNat) :=
  (plain_of_digits fun _ hx => .inr (mem_itoa hx)).1

theorem Address.nulFree_toString (a : Address) : NulFree a.toString := by
  cases a with
  | v4 a b c d => exact fun x hx => ((plain_toString_v4 a b c d).1 x hx).1
  | v6 text colon nulFree => exact nulFree

/-- The endpoint of a message server. -/
def endpointOf (a : Address) (port : UInt16) : Endpoint := ⟨a.toString, port.toNat, a.nulFree_toString⟩

/-- The hash of the user has the address and the port. -/
def Noted (r : Redis) (u : Bytes) (a : Address) (port : UInt16) : Prop :=
  (r.keys.hashAt (ascii "loginMap:" ++ u)).lookup (ascii "address") = some a.toString ∧
    (r.keys.hashAt (ascii "loginMap:" ++ u)).lookup (ascii "port") = some (itoa port.toNat)

/-- The request is answered with the address and the port, and they are noted. -/
def Arrives (r : Redis) (u : Bytes) (a : Address) (port : UInt16) : Prop :=
  ∃ response r', onMsgServerRequest r ⟨u⟩ = some (some response, r') ∧
    response.address = a.toString ∧ response.port = port.toNat ∧ Noted r' u a port

/-! ## The split -/

theorem addressOf_append (h : 58 ∉ address) (s : Bytes) : addressOf (address ++ ascii ":" ++ s) = address := by
  have hall : ∀ b ∈ address, (decide (b ≠ 58)) = true := by
    intro b hb
    simpa using fun hb' : b = 58 => h (hb' ▸ hb)
  rw [addressOf, List.append_assoc, List.takeWhile_append_of_pos hall]
  exact List.append_nil _

theorem portOf_append (h : 58 ∉ address) (s : Bytes) : portOf (address ++ ascii ":" ++ s) = s := by
  have hall : ∀ b ∈ address, (decide (b ≠ 58)) = true := by
    intro b hb
    simpa using fun hb' : b = 58 => h (hb' ▸ hb)
  rw [portOf, List.append_assoc, List.dropWhile_append_of_pos hall]
  rfl

theorem colon_mem (e : Endpoint) : 58 ∈ e.strServerSocket := by
  rw [Endpoint.strServerSocket]
  simp [ascii]

/-! ## What is noted -/

/-- With an id that means something in a format, the hash of the user stays. -/
theorem noted_of_not_plain {mapValue : List (Bytes × Bytes)} (hu : ¬CRedis.Plain u)
    (h : CRedis.hmset r (ascii "loginMap:" ++ u) mapValue = some r') :
    r'.keys (ascii "loginMap:" ++ u) = r.keys (ascii "loginMap:" ++ u) := by
  rcases CRedis.keys_hmset_cases h (ascii "loginMap:" ++ u) with hkey | ⟨c, rest, fvs, hargs, hfvs, -⟩
  · exact hkey
  · refine absurd ?_ hu
    have hrest : rest ≠ [] := by
      rintro rfl
      cases hfvs
    have hnul : NulFree u := by
      intro b hb hzero
      have hword : ascii "loginMap:" ++ u ∈ c :: (ascii "loginMap:" ++ u) :: rest :=
        List.mem_cons_of_mem _ List.mem_cons_self
      rcases CRedis.mem_of_formatWords hargs hword (List.mem_append_right _ hb) with hmem | ⟨hmem, -⟩
      · cases hmem
      · exact nulFree_cstr _ b hmem hzero
    have hargs' : CRedis.formatCommand (CRedis.hmsetText (ascii "loginMap:" ++ u) mapValue) =
        some (c :: loginMapKey u :: rest) := by
      rw [hargs, loginMapKey, cstr_eq_self hnul]
    exact (plain_of_key hargs' hrest).1

/-- The condition: an IPv4 address, and a user id that means nothing in a format, with no hash or a hash of
the user; or the text of the command can be sent, and the address and the port are noted already. -/
def Kept (r : Redis) (u : Bytes) (a : Address) (port : UInt16) : Prop :=
  a.IsV4 ∧ (CRedis.Plain u ∧ r.keys.HashOrNone (ascii "loginMap:" ++ u) ∨
    ¬CRedis.Plain u ∧ (CRedis.formatCommand (CRedis.hmsetText (ascii "loginMap:" ++ u)
      [(ascii "address", a.toString), (ascii "port", itoa port.toNat)])).isSome ∧ Noted r u a port)

theorem noted_congr (h : r'.keys (ascii "loginMap:" ++ u) = r.keys (ascii "loginMap:" ++ u)) :
    Noted r' u a port ↔ Noted r u a port := by
  rw [Noted, Noted, Keyspace.hashAt_congr h]

/-- What an `HMSET` notes for a user id that means nothing in a format. -/
theorem hmset_noted_iff_of_plain (hu : CRedis.Plain u) (ha : CRedis.Plain a.toString)
    (hne : a.toString ≠ []) :
    (∃ r', CRedis.hmset r (ascii "loginMap:" ++ u)
        [(ascii "address", a.toString), (ascii "port", itoa port.toNat)] = some r' ∧ Noted r' u a port) ↔
      r.keys.HashOrNone (ascii "loginMap:" ++ u) := by
  rw [hmset_loginMap_of_ne hu ha (plain_port port) hne (itoa_ne_nil _)]
  simp only [Option.some.injEq, exists_eq_left']
  constructor
  · rintro ⟨haddress, -⟩
    have hmem := AList.lookup_isSome.1 (Option.isSome_iff_exists.2 ⟨_, haddress⟩)
    by_contra hno
    rw [Keyspace.hmset_of_not hno] at hmem
    exact hno (Keyspace.hashOrNone_of_mem hmem)
  · intro hhash
    have hself : (r.keys.hmset (ascii "loginMap:" ++ u) [(ascii "address", a.toString),
        (ascii "port", itoa port.toNat)]).2.hashAt (ascii "loginMap:" ++ u) =
          ((r.keys.hashAt (ascii "loginMap:" ++ u)).insert (ascii "address") a.toString).insert
            (ascii "port") (itoa port.toNat) := by
      rw [Keyspace.hashAt, Keyspace.hmset_self hhash]
      rfl
    simp only [Noted, hself]
    constructor
    · exact (AList.lookup_insert_ne (by decide)).trans (AList.lookup_insert _)
    · exact AList.lookup_insert _

/-- For any other user id the hash of the user is left alone. -/
theorem hmset_noted_iff_of_not_plain (hu : ¬CRedis.Plain u) :
    (∃ r', CRedis.hmset r (ascii "loginMap:" ++ u)
        [(ascii "address", a.toString), (ascii "port", itoa port.toNat)] = some r' ∧ Noted r' u a port) ↔
      (CRedis.formatCommand (CRedis.hmsetText (ascii "loginMap:" ++ u)
        [(ascii "address", a.toString), (ascii "port", itoa port.toNat)])).isSome ∧ Noted r u a port := by
  have hsome : (CRedis.formatCommand (CRedis.hmsetText (ascii "loginMap:" ++ u)
      [(ascii "address", a.toString), (ascii "port", itoa port.toNat)])).isSome =
        (CRedis.hmset r (ascii "loginMap:" ++ u)
          [(ascii "address", a.toString), (ascii "port", itoa port.toNat)]).isSome := by
    rw [CRedis.hmset, if_neg (List.cons_ne_nil _ _), Option.isSome_map]
  rw [hsome, Option.isSome_iff_exists]
  constructor
  · rintro ⟨r', hr', hnoted⟩
    exact ⟨⟨r', hr'⟩, (noted_congr (noted_of_not_plain hu hr')).1 hnoted⟩
  · rintro ⟨⟨r', hr'⟩, hnoted⟩
    exact ⟨r', hr', (noted_congr (noted_of_not_plain hu hr')).2 hnoted⟩

/-- **What an `HMSET` notes**, for an address that means nothing in a format. -/
theorem hmset_noted_iff (ha : CRedis.Plain a.toString) (hne : a.toString ≠ []) :
    (∃ r', CRedis.hmset r (ascii "loginMap:" ++ u)
        [(ascii "address", a.toString), (ascii "port", itoa port.toNat)] = some r' ∧ Noted r' u a port) ↔
      CRedis.Plain u ∧ r.keys.HashOrNone (ascii "loginMap:" ++ u) ∨
        ¬CRedis.Plain u ∧ (CRedis.formatCommand (CRedis.hmsetText (ascii "loginMap:" ++ u)
          [(ascii "address", a.toString), (ascii "port", itoa port.toNat)])).isSome ∧ Noted r u a port := by
  by_cases hu : CRedis.Plain u
  · simp only [hu, hmset_noted_iff_of_plain hu ha hne, not_true_eq_false, false_and, or_false, true_and]
  · simp only [hu, hmset_noted_iff_of_not_plain hu, not_false_eq_true, false_and, false_or, true_and]

/-- **The answer**, where a server with a socket is picked. -/
theorem arrives_iff_of_socket (h : CRedis.zrevrange r (ascii "serverRank") 0 0 =
      [(endpointOf a port).strServerSocket]) :
    Arrives r u a port ↔ addressOf (endpointOf a port).strServerSocket = a.toString ∧
      atoi (portOf (endpointOf a port).strServerSocket) = port.toNat ∧
      ∃ r', CRedis.hmset (CRedis.zincrby r (ascii "serverRank") (-10) (endpointOf a port).strServerSocket)
        (ascii "loginMap:" ++ u) [(ascii "address", addressOf (endpointOf a port).strServerSocket),
          (ascii "port", portOf (endpointOf a port).strServerSocket)] = some r' ∧ Noted r' u a port := by
  simp only [Arrives, onMsgServerRequest, h, if_pos (colon_mem (endpointOf a port))]
  constructor
  · rintro ⟨response, r', hr', haddress, hport, hnoted⟩
    obtain ⟨r₁, hr₁, heq⟩ := Option.map_eq_some_iff.1 hr'
    obtain ⟨hresponse, rfl⟩ := Prod.mk.inj heq
    obtain rfl := Option.some.inj hresponse
    exact ⟨haddress, hport, r₁, hr₁, hnoted⟩
  · rintro ⟨haddress, hport, r', hr', hnoted⟩
    rw [hr']
    exact ⟨_, r', rfl, haddress, hport, hnoted⟩

/-- **When an endpoint arrives.** For every address and port, user id and content of Redis with the endpoint
picked: the response and the hash of the user have the address and the port if and only if the condition
holds. -/
theorem arrives_iff (r : Redis) (u : Bytes) (a : Address) (port : UInt16)
    (h : CRedis.zrevrange r (ascii "serverRank") 0 0 = [(endpointOf a port).strServerSocket]) :
    Arrives r u a port ↔ Kept r u a port := by
  rw [arrives_iff_of_socket h]
  cases a with
  | v6 text colon nulFree =>
    refine iff_of_false ?_ fun h => h.1
    rintro ⟨haddress, -⟩
    have hmem : 58 ∈ addressOf (endpointOf (.v6 text colon nulFree) port).strServerSocket :=
      haddress ▸ colon
    simpa using List.mem_takeWhile_imp hmem
  | v4 a b c d =>
    obtain ⟨hplain, hcolon⟩ := plain_toString_v4 a b c d
    have haddress : addressOf (endpointOf (.v4 a b c d) port).strServerSocket =
        (Address.v4 a b c d).toString := addressOf_append hcolon _
    have hport : portOf (endpointOf (.v4 a b c d) port).strServerSocket = itoa port.toNat :=
      portOf_append hcolon _
    have hkey := keys_zincrby_loginMap (r := r) (d := -10)
      (m := (endpointOf (.v4 a b c d) port).strServerSocket) u
    rw [haddress, hport, eq_self_iff_true, true_and, eq_true (atoi_itoa port.toNat), true_and,
      hmset_noted_iff hplain (toString_v4_ne_nil a b c d), noted_congr hkey, Kept]
    have hhash : (CRedis.zincrby r (ascii "serverRank") (-10)
        (endpointOf (.v4 a b c d) port).strServerSocket).keys.HashOrNone (ascii "loginMap:" ++ u) ↔
          r.keys.HashOrNone (ascii "loginMap:" ++ u) :=
      ⟨Keyspace.HashOrNone.congr hkey.symm, Keyspace.HashOrNone.congr hkey⟩
    rw [hhash]
    exact (and_iff_right trivial).symm

/-- One message server with this socket. -/
def rankOf (a : Address) (port : UInt16) : Redis where
  keys k :=
    if k = ascii "serverRank" then some (.zset (.singleton (endpointOf a port).strServerSocket 100)) else none
  published := []

/-- The address `127.0.0.1`. -/
def loopback : Address := .v4 127 0 0 1

theorem loopback_arrives :
    CRedis.zrevrange (rankOf loopback 8080) (ascii "serverRank") 0 0 = [ascii "127.0.0.1:8080"] ∧
      Arrives (rankOf loopback 8080) (ascii "a") loopback 8080 := by
  have hsocket : (endpointOf loopback 8080).strServerSocket = ascii "127.0.0.1:8080" := by decide +kernel
  have hpick : CRedis.zrevrange (rankOf loopback 8080) (ascii "serverRank") 0 0 =
      [(endpointOf loopback 8080).strServerSocket] := by decide +kernel
  refine ⟨hsocket ▸ hpick, (arrives_iff (rankOf loopback 8080) (ascii "a") loopback 8080 hpick).2 ?_⟩
  refine ⟨trivial, .inl ⟨by decide, fun v hv => ?_⟩⟩
  cases hv

/-- The address `::1`. -/
def loopback6 : Address := .v6 (ascii "::1") (by decide) (by decide)

/-- It is cut at its first colon: the response has no address and the port 0. -/
theorem loopback_cut :
    CRedis.zrevrange (rankOf loopback6 8080) (ascii "serverRank") 0 0 = [ascii "::1:8080"] ∧
      (onMsgServerRequest (rankOf loopback6 8080) ⟨ascii "a"⟩).map Prod.fst =
        some (some { result := .success, address := [], port := 0 }) ∧
      ¬Arrives (rankOf loopback6 8080) (ascii "a") loopback6 8080 := by
  have hresponse : (onMsgServerRequest (rankOf loopback6 8080) ⟨ascii "a"⟩).map Prod.fst =
      some (some { result := .success, address := [], port := 0 }) := by decide +kernel
  refine ⟨by decide +kernel, hresponse, ?_⟩
  rintro ⟨response, r', hr', haddress, -⟩
  rw [hr'] at hresponse
  obtain rfl := Option.some.inj (Option.some.inj hresponse)
  exact absurd haddress (by decide)

end MutexIM.LoginServer
