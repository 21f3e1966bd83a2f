import Mathlib.Data.List.Flatten
import MutexIM.Routing.Group

/-!
# Whom a group message reaches

The online members of a group are spread over the servers. A message from a user on one of them is
to be sent to the session of each other online member, once, and to no other session.

* `groupMsg`: a group message is handled on the sender's server, and then by each server for which
  something was published.
* `groupMsg_eq`: whom each server looks up.
* `groupMsg_exact_iff`: the message reaches exactly the other online members if and only if no two of
  those on other servers have their servers' sockets in one bucket. So two members on one other
  server are already too many.
* `groupMsg_misses`: of two such members one gets nothing.
-/

namespace MutexIM.Routing

open Bytes Codec MessageServer ProtoWire

/-- The online members of a group: those in `onlineGroup:<group>` with a key `online:<user>`. -/
def onlineMembers (r : Redis) (groupId : Bytes) : List Bytes :=
  (r.keys.members (cstr (ascii "onlineGroup:" ++ groupId))).filter fun u =>
    (r.keys (ascii "online:" ++ u)).isSome

variable {ι : Type*} [DecidableEq ι]

/-- A group message on the server `a`, and what was published for it on every server: the server `j`
afterwards. -/
def groupMsg (L : Layout Bytes Bytes) (nodes : ι → Server) (r : Redis) (a : ι) (ptrMsg : MsgData)
    (j : ι) : Option Server :=
  deliverGroupMsg (Function.update nodes a (doOnlineGroupMsg L (nodes a) r ptrMsg).1 j)
    ((doOnlineGroupMsg L (nodes a) r ptrMsg).2.published.drop r.published.length)

/-- The online members of a group have sessions on servers, which their keys `online:<user>` name.
The ids in Redis are C strings. -/
structure Assigned (nodes : ι → Server) (r : Redis) (groupId : Bytes) (home : Bytes → ι) : Prop where
  socket_injective : Function.Injective fun j => (nodes j).strServerSocket
  socket_nulFree : ∀ j, NulFree (nodes j).strServerSocket
  socket_ne_nil : ∀ j, (nodes j).strServerSocket ≠ []
  onlineGroup : ∀ v, r.keys (cstr (ascii "onlineGroup:" ++ groupId)) = some v → ∃ s, v = .set s
  nulFree : ∀ u ∈ onlineMembers r groupId, NulFree u
  online : ∀ u ∈ onlineMembers r groupId,
    r.keys (ascii "online:" ++ u) = some (.str (nodes (home u)).strServerSocket)
  registered : ∀ u ∈ onlineMembers r groupId, ∃ s,
    (nodes (home u)).manager.findUser u = some s ∧
      ((nodes (home u)).manager.sessions s).userId = u ∧
      ((nodes (home u)).manager.sessions s).isConnected = true

/-- The session is that of an online member on the server, and not of the sender. -/
def Recipient (nodes : ι → Server) (r : Redis) (home : Bytes → ι) (ptrMsg : MsgData) (j : ι)
    (s : ℕ) : Prop :=
  ∃ u ∈ onlineMembers r ptrMsg.toId, home u = j ∧ u ≠ ptrMsg.fromId ∧
    (nodes j).manager.findUser u = some s

/-- The message was sent once to the session of each other online member, and to no session else. -/
def DeliveredExactly (nodes nodes' : ι → Server) (r : Redis) (home : Bytes → ι)
    (ptrMsg : MsgData) : Prop :=
  ∀ j s,
    (Recipient nodes r home ptrMsg j s → ((nodes' j).manager.sessions s).sent =
      ((nodes j).manager.sessions s).sent ++ [.msgData ptrMsg]) ∧
    (¬Recipient nodes r home ptrMsg j s →
      ((nodes' j).manager.sessions s).sent = ((nodes j).manager.sessions s).sent)

/-! ## Whom the servers look up -/

/-- The members on other servers, as the loop collects them. -/
def remoteMap (nodes : ι → Server) (r : Redis) (groupId : Bytes) (a : ι) :
    AList fun _ : Bytes => Bytes :=
  remoteMembers (nodes a) (CRedis.sortMultiSocket r (ascii "onlineGroup:" ++ groupId))

/-- The bucket of a server's socket. -/
def serverBucket (L : Layout Bytes Bytes) (nodes : ι → Server) (r : Redis) (groupId : Bytes)
    (a j : ι) : List (Bytes × Bytes) :=
  L.elements (remoteMap nodes r groupId a) (L.bucket (nodes j).strServerSocket)

/-- The users that a server looks up for what is published for it. -/
def lookups (L : Layout Bytes Bytes) (nodes : ι → Server) (r : Redis) (groupId : Bytes) (a j : ι) :
    List Bytes :=
  lookedUp (nodes j).strServerSocket (serverBucket L nodes r groupId a j)

/-- Whom a server looks up for the message: its own members on the sender's server, and what is
published for it. -/
def targets (L : Layout Bytes Bytes) (nodes : ι → Server) (r : Redis) (ptrMsg : MsgData) (a j : ι) :
    List Bytes :=
  (if j = a then localMembers (nodes a) ptrMsg.fromId
      (CRedis.sortMultiSocket r (ascii "onlineGroup:" ++ ptrMsg.toId)) else []) ++
    lookups L nodes r ptrMsg.toId a j

/-- How often the message is sent to a session. -/
def timesSent (us : List Bytes) (sv : Server) (s : ℕ) : ℕ :=
  us.countP fun u => sv.manager.findUser u = some s ∧ (sv.manager.sessions s).isConnected

/-- No two online members on other servers have their servers' sockets in one bucket. -/
def Spread (L : Layout Bytes Bytes) (nodes : ι → Server) (r : Redis) (groupId : Bytes)
    (home : Bytes → ι) (a : ι) : Prop :=
  ∀ u ∈ onlineMembers r groupId, ∀ v ∈ onlineMembers r groupId, home u ≠ a → home v ≠ a →
    L.bucket (nodes (home u)).strServerSocket = L.bucket (nodes (home v)).strServerSocket → u = v

/-- A part of a list of users fits into a message if the list does. -/
theorem fits_of_subperm {us vs : List Bytes} {d : Bytes}
    (h : (ChatMsg.serverGroupMsg ⟨us, d⟩).Fits) (hvs : vs.Subperm us) :
    (ChatMsg.serverGroupMsg ⟨vs, d⟩).Fits := by
  have hlength : ∀ us : List Bytes, (ChatMsg.serverGroupMsg ⟨us, d⟩).serialize.length =
      ((putRepeated 1 us).flatMap Field.encode).length + (encodeFields (putBytes 2 d)).length := by
    intro us
    rw [ChatMsg.serialize, ChatMsg.fields, encodeFields, List.flatMap_append, List.length_append]
    rfl
  obtain ⟨ws, hperm, hsub⟩ := hvs
  have hle : ((putRepeated 1 ws).flatMap Field.encode).length ≤ _ :=
    ((hsub.map fun u => (⟨1, .bytes u⟩ : ProtoWire.Field)).flatMap _).length_le
  have heq : ((putRepeated 1 ws).flatMap Field.encode).length = _ :=
    ((hperm.map fun u => (⟨1, .bytes u⟩ : ProtoWire.Field)).flatMap_right _).length_eq
  have hus := hlength us
  have hvs := hlength vs
  unfold ChatMsg.Fits at h ⊢
  unfold putRepeated at hle heq hus hvs
  omega

/-! ## What Redis answers -/

namespace Assigned

variable {nodes : ι → Server} {r : Redis} {groupId : Bytes} {home : Bytes → ι}

omit [DecidableEq ι] in
theorem nodup_onlineMembers : (onlineMembers r groupId).Nodup :=
  (Keyspace.nodup_members ..).filter _

omit [DecidableEq ι] in
/-- `SORT` gives each online member with the socket of the member's server. -/
theorem sortMultiSocket_eq (h : Assigned nodes r groupId home) :
    CRedis.sortMultiSocket r (ascii "onlineGroup:" ++ groupId) =
      (onlineMembers r groupId).map fun u => (u, (nodes (home u)).strServerSocket) := by
  cases hkey : r.keys (cstr (ascii "onlineGroup:" ++ groupId)) with
  | none =>
    have hnone : onlineMembers r groupId = [] := by
      rw [onlineMembers, Keyspace.members, hkey]
      rfl
    rw [hnone, CRedis.sortMultiSocket, Keyspace.sortGet, hkey]
    rfl
  | some v =>
    obtain ⟨members, rfl⟩ := h.onlineGroup v hkey
    have hmembers : onlineMembers r groupId =
        members.toList.filter fun u => (r.keys (ascii "online:" ++ u)).isSome := by
      rw [onlineMembers, Keyspace.members, hkey]
    have hmem : ∀ u ∈ members.toList, (r.keys (ascii "online:" ++ u)).isSome = true →
        u ∈ onlineMembers r groupId := by
      intro u hu hsome
      rw [hmembers]
      exact List.mem_filter.2 ⟨hu, hsome⟩
    rw [CRedis.sortMultiSocket, Keyspace.sortGet, hkey]
    simp only [Reply.elements, Reply.pairs_flatMap, List.filter_map, List.map_map]
    rw [hmembers, List.filter_congr (q := fun u => (r.keys (ascii "online:" ++ u)).isSome)]
    · refine List.map_congr_left fun u hu => ?_
      obtain ⟨hu, hsome⟩ := List.mem_filter.1 hu
      have hu' := hmem u hu hsome
      simp only [Function.comp_apply, h.online u hu', Reply.bytes, cstr_eq_self (h.nulFree u hu'),
        cstr_eq_self (h.socket_nulFree _)]
    · intro u hu
      cases hsome : r.keys (ascii "online:" ++ u) with
      | none => simp [hsome, Reply.bytes]
      | some v =>
        have honline := h.online u (hmem u hu (by rw [hsome]; rfl))
        obtain rfl := Option.some.inj (hsome.symm.trans honline)
        simp [hsome, Reply.bytes, h.socket_ne_nil]

variable {a : ι} {L : Layout Bytes Bytes}

omit [DecidableEq ι] in
theorem of_lookup_remoteMap (h : Assigned nodes r groupId home) {socket u : Bytes}
    (hlookup : (remoteMap nodes r groupId a).lookup socket = some u) :
    u ∈ onlineMembers r groupId ∧ home u ≠ a ∧ socket = (nodes (home u)).strServerSocket := by
  rw [remoteMap, remoteMembers, h.sortMultiSocket_eq] at hlookup
  rcases mem_of_lookup_insertAll hlookup with hmem | hempty
  · obtain ⟨e, he, heq⟩ := List.mem_map.1 hmem
    obtain ⟨he, hne⟩ := List.mem_filter.1 he
    obtain ⟨u', hu', rfl⟩ := List.mem_map.1 he
    cases heq
    refine ⟨hu', ?_, rfl⟩
    rintro rfl
    simp at hne
  · cases hempty

omit [DecidableEq ι] in
theorem lookup_remoteMap (h : Assigned nodes r groupId home) {u : Bytes}
    (hu : u ∈ onlineMembers r groupId) (hhome : home u ≠ a) :
    ∃ v, (remoteMap nodes r groupId a).lookup (nodes (home u)).strServerSocket = some v := by
  rw [remoteMap, remoteMembers, h.sortMultiSocket_eq]
  refine lookup_insertAll_isSome (.inl ?_)
  rw [List.map_map, List.mem_map]
  refine ⟨(u, (nodes (home u)).strServerSocket), List.mem_filter.2 ⟨List.mem_map_of_mem hu, ?_⟩, rfl⟩
  exact decide_eq_true (h.socket_injective.ne hhome)

omit [DecidableEq ι] in
/-- What stands in a bucket. -/
theorem of_mem_elements (h : Assigned nodes r groupId home) {i : ℕ} {e : Bytes × Bytes}
    (he : e ∈ L.elements (remoteMap nodes r groupId a) i) :
    e.2 ∈ onlineMembers r groupId ∧ home e.2 ≠ a ∧ e.1 = (nodes (home e.2)).strServerSocket ∧
      L.bucket (nodes (home e.2)).strServerSocket = i := by
  obtain ⟨socket, u⟩ := e
  obtain ⟨hlookup, hbucket⟩ := mem_elements.1 he
  obtain ⟨hu, hhome, rfl⟩ := h.of_lookup_remoteMap hlookup
  exact ⟨hu, hhome, rfl, hbucket⟩

omit [DecidableEq ι] in
/-- Only the bucket of a server's socket can hold something that is published for the server. -/
theorem flatMap_lookedUp (h : Assigned nodes r groupId home) (j : ι) :
    ((List.range L.bucketCount).flatMap fun i =>
      lookedUp (nodes j).strServerSocket (L.elements (remoteMap nodes r groupId a) i)) =
    lookups L nodes r groupId a j := by
  refine flatMap_range (L.bucket_lt _) fun i _ hi => ?_
  cases helements : L.elements (remoteMap nodes r groupId a) i with
  | nil => rfl
  | cons e rest =>
    obtain ⟨-, -, hsocket, hbucket⟩ := h.of_mem_elements (L := L) (i := i) (e := e)
      (by rw [helements]; exact List.mem_cons_self)
    rw [lookedUp, if_neg]
    rintro heq
    exact hi (by rw [← heq, hsocket, hbucket])

variable {ptrMsg : MsgData}

omit [DecidableEq ι] in
/-- The users of a bucket are online members, each once. -/
theorem subperm_onlineMembers (h : Assigned nodes r groupId home) (i : ℕ) :
    ((L.elements (remoteMap nodes r groupId a) i).map Prod.snd).Subperm (onlineMembers r groupId) := by
  have hkeys : (L.elements (remoteMap nodes r groupId a) i).map Prod.fst =
      ((L.elements (remoteMap nodes r groupId a) i).map Prod.snd).map
        fun u => (nodes (home u)).strServerSocket := by
    rw [List.map_map]
    exact List.map_congr_left fun e he => (h.of_mem_elements he).2.2.1
  have hnodup : ((L.elements (remoteMap nodes r groupId a) i).map Prod.snd).Nodup :=
    .of_map _ (hkeys ▸ nodup_elements)
  refine hnodup.subperm fun u hu => ?_
  obtain ⟨e, he, rfl⟩ := List.mem_map.1 hu
  exact (h.of_mem_elements he).1

/-- **Whom each server looks up.** -/
theorem groupMsg_eq (h : Assigned nodes r ptrMsg.toId home) (hm : (ChatMsg.msgData ptrMsg).Fits)
    (hfits : (ChatMsg.serverGroupMsg
      ⟨onlineMembers r ptrMsg.toId, (ChatMsg.msgData ptrMsg).serialize⟩).Fits) (j : ι) :
    groupMsg L nodes r a ptrMsg j = some { nodes j with
      manager := (nodes j).manager.sendUsers (.msgData ptrMsg) (targets L nodes r ptrMsg a j) } := by
  have hbuckets : ∀ b ∈ (List.range L.bucketCount).map
      (L.elements (remoteMap nodes r ptrMsg.toId a)), (∀ e ∈ b, NulFree e.1) ∧ (ChatMsg.serverGroupMsg
        ⟨b.map Prod.snd, (ChatMsg.msgData ptrMsg).serialize⟩).Fits := by
    intro b hb
    obtain ⟨i, -, rfl⟩ := List.mem_map.1 hb
    refine ⟨fun e he => ?_, fits_of_subperm hfits (h.subperm_onlineMembers i)⟩
    rw [(h.of_mem_elements he).2.2.1]
    exact h.socket_nulFree _
  have hdeliver : ∀ c : ConnectionManager,
      deliverGroupMsg ⟨(nodes j).strServerSocket, c⟩ ((List.range L.bucketCount).flatMap fun i =>
        bucketMsg (ChatMsg.msgData ptrMsg).serialize
          (L.elements (remoteMap nodes r ptrMsg.toId a) i)) =
      some ⟨(nodes j).strServerSocket,
        c.sendUsers (.msgData ptrMsg) (lookups L nodes r ptrMsg.toId a j)⟩ := by
    intro c
    have hall := deliverGroupMsg_bucketMsgs ⟨(nodes j).strServerSocket, c⟩ hm
      (fun b hb => (hbuckets b hb).1) fun b hb => (hbuckets b hb).2
    rwa [List.flatMap_map, List.flatMap_map, h.flatMap_lookedUp] at hall
  rw [groupMsg, doOnlineGroupMsg_published, List.drop_left, doOnlineGroupMsg_fst]
  by_cases hj : j = a
  · subst hj
    rw [Function.update_self]
    apply (hdeliver _).trans
    rw [targets, if_pos rfl, ConnectionManager.sendUsers_append]
  · rw [Function.update_of_ne hj]
    apply (hdeliver _).trans
    rw [targets, if_neg hj, List.nil_append]

theorem localMembers_eq (h : Assigned nodes r groupId home) (fromId : Bytes) :
    localMembers (nodes a) fromId (CRedis.sortMultiSocket r (ascii "onlineGroup:" ++ groupId)) =
      (onlineMembers r groupId).filter fun u => home u = a ∧ fromId ≠ u := by
  rw [localMembers, h.sortMultiSocket_eq, List.filter_map, List.map_map]
  refine (List.map_id'' (fun _ => rfl) _).trans (List.filter_congr fun u _ => ?_)
  simp only [Function.comp_apply, h.socket_injective.eq_iff]

omit [DecidableEq ι] in
/-- The bucket from which a server gets something starts with the server's socket. -/
theorem of_mem_lookups {j : ι} {x : Bytes} (hx : x ∈ lookups L nodes r groupId a j) :
    ∃ e rest, serverBucket L nodes r groupId a j = e :: rest ∧
      e.1 = (nodes j).strServerSocket ∧ lookups L nodes r groupId a j = e.2 :: rest.map Prod.snd := by
  unfold lookups at hx ⊢
  cases helements : serverBucket L nodes r groupId a j with
  | nil =>
    rw [helements] at hx
    cases hx
  | cons e rest =>
    rw [helements, lookedUp] at hx
    split at hx
    · next hsocket => exact ⟨e, rest, rfl, hsocket, by rw [lookedUp, if_pos hsocket]⟩
    · cases hx

omit [DecidableEq ι] in
theorem lookups_self (h : Assigned nodes r groupId home) : lookups L nodes r groupId a a = [] := by
  refine List.eq_nil_iff_forall_not_mem.2 fun x hx => ?_
  obtain ⟨e, rest, helements, hsocket, -⟩ := of_mem_lookups hx
  obtain ⟨-, hhome, he, -⟩ := h.of_mem_elements (helements ▸ List.mem_cons_self)
  exact hhome (h.socket_injective (he.symm.trans hsocket))

omit [DecidableEq ι] in
/-- Under the condition a server with an online member gets that member. -/
theorem lookups_of_spread (h : Assigned nodes r groupId home)
    (hspread : Spread L nodes r groupId home a) {u : Bytes} (hu : u ∈ onlineMembers r groupId)
    (hhome : home u ≠ a) : lookups L nodes r groupId a (home u) = [u] := by
  have hall : ∀ e ∈ serverBucket L nodes r groupId a (home u),
      e = ((nodes (home u)).strServerSocket, u) := by
    intro e he
    obtain ⟨hv, hhome', hsocket, hbucket⟩ := h.of_mem_elements he
    obtain rfl := hspread _ hv u hu hhome' hhome hbucket
    exact Prod.ext hsocket rfl
  obtain ⟨v, hv⟩ := h.lookup_remoteMap hu hhome
  have hmem : ((nodes (home u)).strServerSocket, v) ∈ serverBucket L nodes r groupId a (home u) :=
    mem_elements.2 ⟨hv, rfl⟩
  have hsingle : serverBucket L nodes r groupId a (home u) = _ :=
    elements_eq_singleton hmem fun e he => by rw [hall e he]
  obtain rfl : v = u := (Prod.mk.inj (hall _ hmem)).2
  rw [lookups, hsingle, lookedUp, if_pos rfl]
  rfl

theorem mem_targets (h : Assigned nodes r ptrMsg.toId home)
    (hspread : Spread L nodes r ptrMsg.toId home a)
    (hsender : ptrMsg.fromId ∈ onlineMembers r ptrMsg.toId → home ptrMsg.fromId = a) (j : ι) :
    (targets L nodes r ptrMsg a j).Nodup ∧ ∀ u, u ∈ targets L nodes r ptrMsg a j ↔
      u ∈ onlineMembers r ptrMsg.toId ∧ home u = j ∧ u ≠ ptrMsg.fromId := by
  by_cases hj : j = a
  · subst hj
    rw [targets, if_pos rfl, h.lookups_self, List.append_nil, h.localMembers_eq]
    refine ⟨nodup_onlineMembers.filter _, fun u => ?_⟩
    rw [List.mem_filter, decide_eq_true_iff, ne_comm]
  · rw [targets, if_neg hj, List.nil_append]
    by_cases hmember : ∃ u ∈ onlineMembers r ptrMsg.toId, home u = j
    · obtain ⟨u, hu, rfl⟩ := hmember
      rw [h.lookups_of_spread hspread hu hj]
      refine ⟨List.nodup_singleton u, fun x => ⟨fun hx => ?_, fun ⟨hx, hhome, _⟩ => ?_⟩⟩
      · obtain rfl := List.mem_singleton.1 hx
        exact ⟨hu, rfl, fun hfrom => hj (hfrom ▸ hsender (hfrom ▸ hu))⟩
      · exact List.mem_singleton.2 (hspread x hx u hu (hhome ▸ hj) hj (by rw [hhome]))
    · have hnil : lookups L nodes r ptrMsg.toId a j = [] := by
        refine List.eq_nil_iff_forall_not_mem.2 fun x hx => ?_
        obtain ⟨e, rest, helements, hsocket, -⟩ := of_mem_lookups hx
        obtain ⟨hv, -, he, -⟩ := h.of_mem_elements (helements ▸ List.mem_cons_self)
        exact hmember ⟨e.2, hv, h.socket_injective (he.symm.trans hsocket)⟩
      rw [hnil]
      exact ⟨List.nodup_nil, fun u => iff_of_false List.not_mem_nil
        fun ⟨hu, hhome, _⟩ => hmember ⟨u, hu, hhome⟩⟩

omit [DecidableEq ι] in
/-- The sessions of different online members are different. -/
theorem session_injective (h : Assigned nodes r groupId home) {u v : Bytes} {s : ℕ}
    (hu : u ∈ onlineMembers r groupId) (hv : v ∈ onlineMembers r groupId) (hhome : home u = home v)
    (hus : (nodes (home u)).manager.findUser u = some s)
    (hvs : (nodes (home u)).manager.findUser v = some s) : u = v := by
  obtain ⟨s₁, hs₁, huser₁, -⟩ := h.registered u hu
  obtain ⟨s₂, hs₂, huser₂, -⟩ := h.registered v hv
  rw [← hhome] at hs₂ huser₂
  obtain rfl := Option.some.inj (hus.symm.trans hs₁)
  obtain rfl := Option.some.inj (hvs.symm.trans hs₂)
  exact huser₁.symm.trans huser₂

omit [DecidableEq ι] in
/-- If the online members on a server are looked up, each of their sessions gets the message once. -/
theorem timesSent_eq (h : Assigned nodes r ptrMsg.toId home) {j : ι} {us : List Bytes}
    (hnodup : us.Nodup)
    (hus : ∀ u, u ∈ us ↔ u ∈ onlineMembers r ptrMsg.toId ∧ home u = j ∧ u ≠ ptrMsg.fromId) (s : ℕ) :
    (Recipient nodes r home ptrMsg j s → timesSent us (nodes j) s = 1) ∧
      (¬Recipient nodes r home ptrMsg j s → timesSent us (nodes j) s = 0) := by
  constructor
  · rintro ⟨u, hu, rfl, hfrom, hs⟩
    obtain ⟨s', hs', -, hconn⟩ := h.registered u hu
    obtain rfl := Option.some.inj (hs.symm.trans hs')
    have hcount : timesSent us (nodes (home u)) s = us.count u := by
      refine List.countP_congr fun v hv => ?_
      obtain ⟨hv, hhome, -⟩ := (hus v).1 hv
      rw [decide_eq_true_iff, beq_iff_eq]
      constructor
      · rintro ⟨hvs, -⟩
        exact (h.session_injective hu hv hhome.symm hs hvs).symm
      · rintro rfl
        exact ⟨hs, hconn⟩
    rw [hcount]
    exact List.count_eq_one_of_mem hnodup ((hus u).2 ⟨hu, rfl, hfrom⟩)
  · intro hnot
    refine List.countP_eq_zero.2 fun u hu => ?_
    obtain ⟨hu, hhome, hfrom⟩ := (hus u).1 hu
    rw [decide_eq_true_iff]
    exact fun hs => hnot ⟨u, hu, hhome, hfrom, hs.1⟩

/-- Each online member on another server is looked up there. -/
def Reached (L : Layout Bytes Bytes) (nodes : ι → Server) (r : Redis) (groupId : Bytes)
    (home : Bytes → ι) (a : ι) : Prop :=
  ∀ u ∈ onlineMembers r groupId, home u ≠ a → ∀ s,
    (nodes (home u)).manager.findUser u = some s →
      ∃ x ∈ lookups L nodes r groupId a (home u), (nodes (home u)).manager.findUser x = some s

section Reached

variable {u v : Bytes}

omit [DecidableEq ι] in
/-- The bucket of a member's server starts with that server's socket. -/
theorem bucket_of_reached (h : Assigned nodes r groupId home)
    (hreached : Reached L nodes r groupId home a) (hu : u ∈ onlineMembers r groupId)
    (hhome : home u ≠ a) :
    ∃ e rest, serverBucket L nodes r groupId a (home u) = e :: rest ∧
      e.1 = (nodes (home u)).strServerSocket ∧
      lookups L nodes r groupId a (home u) = e.2 :: rest.map Prod.snd := by
  obtain ⟨s, hs, -⟩ := h.registered u hu
  obtain ⟨x, hx, -⟩ := hreached u hu hhome s hs
  exact of_mem_lookups hx

omit [DecidableEq ι] in
/-- So members in one bucket are on one server. -/
theorem home_eq_of_reached (h : Assigned nodes r groupId home)
    (hreached : Reached L nodes r groupId home a) (hu : u ∈ onlineMembers r groupId)
    (hv : v ∈ onlineMembers r groupId) (hhu : home u ≠ a) (hhv : home v ≠ a)
    (hbucket : L.bucket (nodes (home u)).strServerSocket =
      L.bucket (nodes (home v)).strServerSocket) : home u = home v := by
  obtain ⟨e, rest, helements, hsocket, -⟩ := h.bucket_of_reached hreached hu hhu
  obtain ⟨e', rest', helements', hsocket', -⟩ := h.bucket_of_reached hreached hv hhv
  have hsame : serverBucket L nodes r groupId a (home u) =
      serverBucket L nodes r groupId a (home v) := congrArg (L.elements _) hbucket
  rw [hsame, helements'] at helements
  obtain rfl := (List.cons.inj helements).1
  exact h.socket_injective (hsocket.symm.trans hsocket')

omit [DecidableEq ι] in
/-- The bucket holds one socket, so that a server gets one member, the one that was entered last. -/
theorem lookups_of_reached (h : Assigned nodes r groupId home)
    (hreached : Reached L nodes r groupId home a) (hu : u ∈ onlineMembers r groupId)
    (hhome : home u ≠ a) : lookups L nodes r groupId a (home u) = [u] := by
  obtain ⟨e, rest, helements, hsocket, hlookups⟩ := h.bucket_of_reached hreached hu hhome
  have hmem : e ∈ serverBucket L nodes r groupId a (home u) := helements ▸ List.mem_cons_self
  obtain ⟨hw, hhomew, -, hbucketw⟩ := h.of_mem_elements hmem
  have hsingle : serverBucket L nodes r groupId a (home u) = [(e.1, e.2)] :=
    elements_eq_singleton hmem fun e' he' => by
      obtain ⟨hv, hhome', hsocket', hbucket⟩ := h.of_mem_elements he'
      rw [hsocket', hsocket, h.home_eq_of_reached hreached hv hu hhome' hhome hbucket]
  rw [helements] at hsingle
  obtain rfl := (List.cons.inj hsingle).2
  obtain ⟨s, hs, -⟩ := h.registered u hu
  obtain ⟨x, hx, hxs⟩ := hreached u hu hhome s hs
  rw [hlookups, List.map_nil, List.mem_singleton] at hx
  have hhomes := h.home_eq_of_reached hreached hu hw hhome hhomew hbucketw.symm
  rw [hlookups, List.map_nil, h.session_injective hu hw hhomes hs (hx ▸ hxs)]

omit [DecidableEq ι] in
/-- **Members in one bucket**: if each member on another server is looked up, there are none. -/
theorem spread_of_reached (h : Assigned nodes r groupId home)
    (hreached : Reached L nodes r groupId home a) : Spread L nodes r groupId home a := by
  intro u hu v hv hhu hhv hbucket
  have hlookups := h.lookups_of_reached hreached hu hhu
  rw [h.home_eq_of_reached hreached hu hv hhu hhv hbucket,
    h.lookups_of_reached hreached hv hhv] at hlookups
  exact (List.cons.inj hlookups).1.symm

end Reached

end Assigned

/-- **When a group message reaches the online members**: it is sent to the session of each other than
the sender once, and to no other session, if and only if no two members on other servers than the
sender's have their servers' sockets in one bucket of `dataUnorderMap`. -/
theorem groupMsg_exact_iff {L : Layout Bytes Bytes} {nodes : ι → Server} {r : Redis} {a : ι}
    {home : Bytes → ι} {ptrMsg : MsgData} (h : Assigned nodes r ptrMsg.toId home)
    (hsender : ptrMsg.fromId ∈ onlineMembers r ptrMsg.toId → home ptrMsg.fromId = a)
    (hm : (ChatMsg.msgData ptrMsg).Fits)
    (hfits : (ChatMsg.serverGroupMsg
      ⟨onlineMembers r ptrMsg.toId, (ChatMsg.msgData ptrMsg).serialize⟩).Fits) :
    (∃ nodes', (∀ j, groupMsg L nodes r a ptrMsg j = some (nodes' j)) ∧
      DeliveredExactly nodes nodes' r home ptrMsg) ↔
    Spread L nodes r ptrMsg.toId home a := by
  have hsent : ∀ j s, ((((nodes j).manager.sendUsers (.msgData ptrMsg)
      (targets L nodes r ptrMsg a j)).sessions s).sent) =
      ((nodes j).manager.sessions s).sent ++ List.replicate
        (timesSent (targets L nodes r ptrMsg a j) (nodes j) s) (.msgData ptrMsg) :=
    fun j s => ConnectionManager.sent_sendUsers _ s
  constructor
  · rintro ⟨nodes', hnodes', hexact⟩
    refine h.spread_of_reached fun u hu hhome s hs => ?_
    have hfrom : u ≠ ptrMsg.fromId := by
      rintro rfl
      exact hhome (hsender hu)
    have hsend := (hexact (home u) s).1 ⟨u, hu, rfl, hfrom, hs⟩
    obtain rfl := funext fun j => Option.some.inj ((hnodes' j).symm.trans (h.groupMsg_eq hm hfits j))
    rw [hsent, List.append_cancel_left_eq] at hsend
    have hone := congrArg List.length hsend
    rw [List.length_replicate, targets, if_neg hhome, List.nil_append] at hone
    have hpos : 0 < timesSent (lookups L nodes r ptrMsg.toId a (home u))
        (nodes (home u)) s := by
      rw [hone]
      exact Nat.one_pos
    obtain ⟨x, hx, hxs⟩ := List.countP_pos_iff.1 hpos
    exact ⟨x, hx, (of_decide_eq_true hxs).1⟩
  · intro hspread
    refine ⟨_, h.groupMsg_eq hm hfits, fun j s => ?_⟩
    obtain ⟨hnodup, hmem⟩ := h.mem_targets hspread hsender j
    obtain ⟨hone, hzero⟩ := h.timesSent_eq hnodup hmem s
    simp only [hsent]
    exact ⟨fun hrec => by rw [hone hrec]; rfl, fun hrec => by
      rw [hzero hrec]; exact List.append_nil _⟩

/-! ## Two members on one server -/

/-- A server with a session for each of some users. -/
def hostOf (strServerSocket : Bytes) (users : List Bytes) : Server :=
  ⟨strServerSocket,
    users.foldl (fun c u => c.handleAccept.bindUser c.created (ascii "1") u) .new⟩

/-- The user `a` is on one server, `b` and `c` are on another. -/
def groupServers (b : Bool) : Server :=
  if b then hostOf (ascii "h:1") [ascii "a"] else hostOf (ascii "h:2") [ascii "b", ascii "c"]

/-- The group `f` has the members `a` and `b`, the group `g` also `c`. -/
def groupRedis : Redis where
  keys k :=
    if k = ascii "onlineGroup:f" then some (.set ⟨[ascii "a", ascii "b"], by decide⟩)
    else if k = ascii "onlineGroup:g" then
      some (.set ⟨[ascii "a", ascii "b", ascii "c"], by decide⟩)
    else if k = ascii "online:a" then some (.str (ascii "h:1"))
    else if k = ascii "online:b" ∨ k = ascii "online:c" then some (.str (ascii "h:2"))
    else none
  published := []

/-- A message from `a` for a group. -/
def groupText (groupId : Bytes) : MsgData :=
  ⟨0, 0, ascii "a", groupId, ascii "hello", groupchatText⟩

/-- Eight buckets. -/
def eightBuckets : Layout Bytes Bytes where
  bucketCount := 8
  bucket k := (k.foldl (fun n c => n + c.toNat) 0) % 8
  bucket_lt _ := Nat.mod_lt _ (by decide)
  arrange l := l
  arrange_perm _ := .refl _

theorem assigned_groupServers {groupId : Bytes}
    (hgroup : groupId = ascii "f" ∨ groupId = ascii "g") :
    Assigned groupServers groupRedis groupId fun u => decide (u = ascii "a") := by
  have hmembers : ∀ u ∈ onlineMembers groupRedis groupId,
      u ∈ [ascii "a", ascii "b", ascii "c"] := by
    rcases hgroup with rfl | rfl <;> decide
  refine ⟨Bool.injective_iff.2 (by decide), by decide, by decide, fun v hv => ?_,
    fun u hu => ?_, fun u hu => ?_, fun u hu => ?_⟩
  · rcases hgroup with rfl | rfl <;> cases hv <;> exact ⟨_, rfl⟩
  · have hall : ∀ u ∈ [ascii "a", ascii "b", ascii "c"], NulFree u := by decide
    exact hall u (hmembers u hu)
  · have hall : ∀ u ∈ [ascii "a", ascii "b", ascii "c"], groupRedis.keys (ascii "online:" ++ u) =
        some (.str (groupServers (decide (u = ascii "a"))).strServerSocket) := by decide
    exact hall u (hmembers u hu)
  · have hall : ∀ u ∈ [ascii "a", ascii "b", ascii "c"], ∃ s ∈ List.range 2,
        (groupServers (decide (u = ascii "a"))).manager.findUser u = some s ∧
          ((groupServers (decide (u = ascii "a"))).manager.sessions s).userId = u ∧
          ((groupServers (decide (u = ascii "a"))).manager.sessions s).isConnected = true := by
      decide
    obtain ⟨s, -, hs⟩ := hall u (hmembers u hu)
    exact ⟨s, hs⟩

/-- A message for the group `f` reaches its only other member. -/
theorem groupMsg_reaches :
    ∃ nodes', (∀ j, groupMsg eightBuckets groupServers groupRedis true (groupText (ascii "f")) j =
        some (nodes' j)) ∧
      DeliveredExactly groupServers nodes' groupRedis (fun u => decide (u = ascii "a"))
        (groupText (ascii "f")) := by
  have hspread : Spread eightBuckets groupServers groupRedis (ascii "f")
      (fun u => decide (u = ascii "a")) true := by
    unfold Spread
    decide
  exact (@groupMsg_exact_iff Bool _ eightBuckets groupServers groupRedis true _
    (groupText (ascii "f")) (assigned_groupServers (.inl rfl)) (fun _ => rfl) (by decide +kernel)
    (by decide +kernel)).2 hspread

/-- A message for the group `g` is not sent to `b`, who is online. -/
theorem groupMsg_misses :
    Assigned groupServers groupRedis (ascii "g") (fun u => decide (u = ascii "a")) ∧
      Recipient groupServers groupRedis (fun u => decide (u = ascii "a")) (groupText (ascii "g"))
        false 0 ∧
      (groupMsg eightBuckets groupServers groupRedis true (groupText (ascii "g")) false).map
        (fun sv => ((sv.manager.sessions 0).sent, (sv.manager.sessions 1).sent)) =
          some ([], [.msgData (groupText (ascii "g"))]) := by
  refine ⟨assigned_groupServers (.inr rfl), ⟨ascii "b", ?_, ?_, ?_, ?_⟩, ?_⟩
  · decide
  · decide
  · decide
  · decide
  · decide +kernel

end MutexIM.Routing
