import MutexIM.Routing.GroupDelivery

/-!
# The channels of a group message

`doOnlineGroupMsg` collects one user for each remote socket in an `unordered_map`, and publishes once for
each bucket of it, on the channel of the first socket there and with the users of all of them.

* `publishCalls` are the calls of `Publish`, with the message of each; `doOnlineGroupMsgWith_published`.
* `routed_iff`: each remote socket has one message on its channel, with users of its own, if and only if no
  two remote sockets are in one bucket.
* `misrouted`: where two are, one message goes out with the users of both.
-/

namespace MutexIM.Routing

open Bytes Codec MessageServer

/-- The call of `Publish` for a bucket: the channel and the message. -/
def bucketCall (serializaStr : Bytes) : List (Bytes × Bytes) → List (Bytes × ServerGroupMsg)
  | [] => []
  | (socket, userId) :: rest =>
    [(ascii "groupMsg:" ++ socket, ⟨userId :: rest.map Prod.snd, serializaStr⟩)]

/-- The calls of `Publish` that `doOnlineGroupMsg` makes for what `SORT` has returned. -/
def publishCalls (L : Layout Bytes Bytes) (sv : Server) (vecStr : List (Bytes × Bytes))
    (serializaStr : Bytes) : List (Bytes × ServerGroupMsg) :=
  (List.range L.bucketCount).flatMap fun i =>
    bucketCall serializaStr (L.elements (remoteMembers sv vecStr) i)

/-- The socket is one of the list, and not the server's own. -/
def Remote (sv : Server) (vecStr : List (Bytes × Bytes)) (socket : Bytes) : Prop :=
  socket ∈ vecStr.map Prod.snd ∧ socket ≠ sv.strServerSocket

/-- There is one message on the channel of each remote socket, none on another channel, and the users of a
message are users of the socket. -/
structure Routed (sv : Server) (vecStr : List (Bytes × Bytes)) (calls : List (Bytes × ServerGroupMsg)) :
    Prop where
  one : ∀ socket, Remote sv vecStr socket →
    (calls.filter fun c => c.1 = ascii "groupMsg:" ++ socket).length = 1
  own : ∀ c ∈ calls, ∃ socket, Remote sv vecStr socket ∧ c.1 = ascii "groupMsg:" ++ socket ∧
    ∀ userId ∈ c.2.userId, (userId, socket) ∈ vecStr

/-- No two remote sockets are in one bucket. -/
def Apart (L : Layout Bytes Bytes) (sv : Server) (vecStr : List (Bytes × Bytes)) : Prop :=
  ∀ socket socket', Remote sv vecStr socket → Remote sv vecStr socket' →
    L.bucket socket = L.bucket socket' → socket = socket'

variable {L : Layout Bytes Bytes} {sv : Server} {vecStr : List (Bytes × Bytes)} {socket userId : Bytes}

/-- **The messages on the wire** are those of the calls. -/
theorem doOnlineGroupMsgWith_published (r : Redis) (ptrMsg : MsgData) :
    (doOnlineGroupMsgWith L sv r ptrMsg vecStr).2.published = r.published ++
      (publishCalls L sv vecStr (ChatMsg.msgData ptrMsg).serialize).map fun c =>
        (cstr c.1, (ChatMsg.serverGroupMsg c.2).serialize) := by
  have hbucket : ∀ l, bucketMsg (ChatMsg.msgData ptrMsg).serialize l =
      (bucketCall (ChatMsg.msgData ptrMsg).serialize l).map fun c =>
        (cstr c.1, (ChatMsg.serverGroupMsg c.2).serialize) := by
    intro l
    cases l <;> rfl
  rw [doOnlineGroupMsgWith_snd, publishCalls, List.map_flatMap]
  simp only [hbucket]

/-- What the map holds for a remote socket is a user of the socket. -/
theorem of_lookup_remoteMembers (h : (remoteMembers sv vecStr).lookup socket = some userId) :
    (userId, socket) ∈ vecStr ∧ Remote sv vecStr socket := by
  rcases mem_of_lookup_insertAll h with hmem | hempty
  · obtain ⟨e, he, heq⟩ := List.mem_map.1 hmem
    obtain ⟨rfl, rfl⟩ := Prod.mk.inj heq
    obtain ⟨he, hne⟩ := List.mem_filter.1 he
    exact ⟨he, List.mem_map_of_mem he, by simpa using hne⟩
  · rw [AList.lookup_empty] at hempty
    cases hempty

theorem lookup_remoteMembers (h : Remote sv vecStr socket) :
    ∃ userId, (remoteMembers sv vecStr).lookup socket = some userId := by
  obtain ⟨hmem, hne⟩ := h
  obtain ⟨e, he, rfl⟩ := List.mem_map.1 hmem
  refine lookup_insertAll_isSome (.inl ?_)
  rw [List.map_map]
  exact List.mem_map_of_mem (List.mem_filter.2 ⟨he, by simpa using hne⟩)

/-- What stands in a bucket. -/
theorem of_mem_bucket {i : ℕ} {e : Bytes × Bytes} (h : e ∈ L.elements (remoteMembers sv vecStr) i) :
    (e.2, e.1) ∈ vecStr ∧ Remote sv vecStr e.1 ∧ L.bucket e.1 = i := by
  obtain ⟨hlookup, hi⟩ := mem_elements.1 h
  obtain ⟨hmem, hremote⟩ := of_lookup_remoteMembers hlookup
  exact ⟨hmem, hremote, hi⟩

/-- Only the bucket of a socket can lead to a message on its channel. -/
theorem filter_publishCalls (serializaStr : Bytes) (socket : Bytes) :
    ((publishCalls L sv vecStr serializaStr).filter fun c => c.1 = ascii "groupMsg:" ++ socket) =
      (bucketCall serializaStr (L.elements (remoteMembers sv vecStr) (L.bucket socket))).filter
        fun c => c.1 = ascii "groupMsg:" ++ socket := by
  rw [publishCalls, List.filter_flatMap]
  refine flatMap_range (L.bucket_lt socket) fun i _ hi => List.filter_eq_nil_iff.2 fun c hc heq => ?_
  cases helements : L.elements (remoteMembers sv vecStr) i with
  | nil =>
    rw [helements] at hc
    cases hc
  | cons e rest =>
    rw [helements, bucketCall] at hc
    rw [List.mem_singleton.1 hc, decide_eq_true_eq] at heq
    obtain ⟨-, -, hbucket⟩ := of_mem_bucket (helements ▸ List.mem_cons_self)
    rw [List.append_cancel_left heq] at hbucket
    exact hi hbucket.symm

/-- The bucket of a socket that shares it with no other. -/
theorem bucket_of_apart (h : Apart L sv vecStr) (hremote : Remote sv vecStr socket) :
    ∃ userId, L.elements (remoteMembers sv vecStr) (L.bucket socket) = [(socket, userId)] := by
  obtain ⟨userId, hlookup⟩ := lookup_remoteMembers hremote
  refine ⟨userId, elements_eq_singleton (mem_elements.2 ⟨hlookup, rfl⟩) fun e he => ?_⟩
  obtain ⟨-, hremote', hbucket⟩ := of_mem_bucket he
  exact h _ _ hremote' hremote hbucket

/-- A socket with a message on its channel is the first of its bucket. -/
theorem head_of_one {serializaStr : Bytes}
    (h : ((publishCalls L sv vecStr serializaStr).filter
      fun c => c.1 = ascii "groupMsg:" ++ socket).length = 1) :
    ∃ userId rest, L.elements (remoteMembers sv vecStr) (L.bucket socket) = (socket, userId) :: rest := by
  rw [filter_publishCalls] at h
  cases helements : L.elements (remoteMembers sv vecStr) (L.bucket socket) with
  | nil =>
    rw [helements] at h
    cases h
  | cons e rest =>
    rw [helements, bucketCall] at h
    obtain ⟨c, hc⟩ := List.exists_mem_of_length_pos (h ▸ Nat.one_pos)
    obtain ⟨hmem, heq⟩ := List.mem_filter.1 hc
    rw [List.mem_singleton.1 hmem, decide_eq_true_eq] at heq
    exact ⟨e.2, rest, by rw [← List.append_cancel_left heq]⟩

/-- **When the group messages are routed right.** Whatever `SORT` has returned, and for every hash function
and layout of the map: there is one message on the channel of each remote socket, with users of that socket,
if and only if no two remote sockets are in one bucket. -/
theorem routed_iff (L : Layout Bytes Bytes) (sv : Server) (vecStr : List (Bytes × Bytes))
    (serializaStr : Bytes) :
    Routed sv vecStr (publishCalls L sv vecStr serializaStr) ↔ Apart L sv vecStr := by
  constructor
  · intro h socket socket' hremote hremote' hbucket
    obtain ⟨userId, rest, helements⟩ := head_of_one (h.one socket hremote)
    obtain ⟨userId', rest', helements'⟩ := head_of_one (h.one socket' hremote')
    rw [← hbucket, helements] at helements'
    exact congrArg Prod.fst (List.cons.inj helements').1
  · intro h
    constructor
    · intro socket hremote
      obtain ⟨userId, helements⟩ := bucket_of_apart h hremote
      rw [filter_publishCalls, helements, bucketCall, List.filter_cons_of_pos (by simp)]
      rfl
    · intro c hc
      obtain ⟨i, -, hc⟩ := List.mem_flatMap.1 hc
      cases helements : L.elements (remoteMembers sv vecStr) i with
      | nil =>
        rw [helements] at hc
        cases hc
      | cons e rest =>
        obtain ⟨socket, member⟩ := e
        rw [helements, bucketCall] at hc
        obtain rfl := List.mem_singleton.1 hc
        obtain ⟨hmem, hremote, rfl⟩ := of_mem_bucket (helements ▸ List.mem_cons_self)
        obtain ⟨userId, hsingle⟩ := bucket_of_apart h hremote
        rw [hsingle] at helements
        obtain ⟨-, rfl⟩ := List.cons.inj helements
        refine ⟨socket, hremote, rfl, fun u hu => ?_⟩
        rw [List.mem_singleton.1 hu]
        exact hmem

/-- The members `b` and `c` are on two servers whose sockets are in one bucket. -/
theorem misrouted :
    publishCalls eightBuckets (.start (ascii "h:1")) [(ascii "b", ascii "h:2"), (ascii "c", ascii "i:1")]
        (ascii "m") = [(ascii "groupMsg:i:1", ⟨[ascii "c", ascii "b"], ascii "m"⟩)] ∧
      ¬Routed (.start (ascii "h:1")) [(ascii "b", ascii "h:2"), (ascii "c", ascii "i:1")]
        (publishCalls eightBuckets (.start (ascii "h:1"))
          [(ascii "b", ascii "h:2"), (ascii "c", ascii "i:1")] (ascii "m")) := by
  refine ⟨by decide +kernel, fun h => ?_⟩
  have hone := h.one (ascii "h:2") (by unfold Remote; decide)
  revert hone
  decide +kernel

end MutexIM.Routing
