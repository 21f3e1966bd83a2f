import MutexIM.MessageServer.GroupMembers
import MutexIM.Routing.GroupMailbox
import MutexIM.Web.GroupCommands

/-!
# Ids of users in groups

A registration takes any id that is not empty. The ids in a group are sorted by three commands: with a
pattern that orders nothing in `SortMultiSocket`, and as numbers for the list of the members and for the
members that a web server sends a message to.

* `entries_iff`: a group's list has one entry for each member exactly if the ids are numbers without a zero
  byte.
* `pairs_iff`: a web server finds every member that is online exactly if the ids are numbers.
* `mem_sortMultiSocket`: `SortMultiSocket` finds the members with any ids.
* `named_lost`: a group with the user `alice`.
-/

namespace MutexIM.Routing

open Bytes Codec MessageServer Web

/-- `SORT` takes numbers, and nothing else. -/
def SortsNumbers (order : Keyspace.NumericOrder) (isNumber : Bytes → Prop) : Prop :=
  ∀ l, (order.sort l).isSome ↔ ∀ m ∈ l, isNumber m

/-- The members of a group, and those that are online. -/
def membersOf (r : Redis) (groupId : Bytes) : List Bytes :=
  r.keys.members (cstr (ascii "groupMember:" ++ groupId))

def onlineMembersOf (r : Redis) (groupId : Bytes) : List Bytes :=
  r.keys.members (cstr (ascii "onlineGroup:" ++ groupId))

/-- The user's entry has all that is asked for. -/
structure HasEntry (r : Redis) (userId : Bytes) : Prop where
  nickName : ascii "nickName" ∈ r.keys.hashAt (ascii "user:" ++ userId)
  imageUrl : ascii "imageurl" ∈ r.keys.hashAt (ascii "user:" ++ userId)
  onlineStatus : ascii "onlineStatus" ∈ r.keys.hashAt (ascii "user:" ++ userId)

/-- The answer to a request has one entry for each member. -/
def OneEntryEach (order : Keyspace.NumericOrder) (r : Redis) (ptrRequest : GroupMembeRequest) : Prop :=
  ∀ nowtime, ∃ response, onGroupMemberRequest order r ptrRequest nowtime = .sent response ∧
    (response.msgData.map GroupMemberInfo.userId).Perm (membersOf r ptrRequest.groupId)

/-- A web server finds every member that is online, with what the member's key holds. -/
def FindsEach (order : Keyspace.NumericOrder) (r : Redis) (toId : Bytes) : Prop :=
  ∀ userId ∈ r.keys.members (ascii "onlineGroup:" ++ toId),
    (userId, stringAt r (ascii "online:" ++ userId)) ∈ groupLookup order r toId

theorem map_cstr_perm_iff {l : List Bytes} : (l.map cstr).Perm l ↔ ∀ x ∈ l, NulFree x := by
  constructor
  · intro h x hx
    obtain ⟨y, -, rfl⟩ := List.mem_map.1 (h.mem_iff.2 hx)
    exact nulFree_cstr y
  · intro h
    rw [List.map_congr_left fun x hx => cstr_eq_self (h x hx), List.map_id']

section Ids

variable {order : Keyspace.NumericOrder} {isNumber : Bytes → Prop} {r : Redis}

theorem HasEntry.described {userId : Bytes} (h : HasEntry r userId) : Described r userId :=
  ⟨h.nickName, h.imageUrl, fun _ => h.onlineStatus⟩

variable (order) in
theorem sortedMembers_eq {groupId : Bytes}
    (hset : r.keys.SetOrNone (cstr (ascii "groupMember:" ++ groupId))) :
    sortedMembers order r groupId = (order.sort (membersOf r groupId)).getD [] := by
  rw [sortedMembers, Keyspace.sortable_eq hset]
  rfl

/-- **A list of the members** has one entry for each of them exactly if all ids are numbers, and end where
they end as C strings. -/
theorem entries_iff (horder : SortsNumbers order isNumber) {ptrRequest : GroupMembeRequest}
    (hset : r.keys.SetOrNone (cstr (ascii "groupMember:" ++ ptrRequest.groupId)))
    (hentry : ∀ userId ∈ membersOf r ptrRequest.groupId, HasEntry r userId) :
    OneEntryEach order r ptrRequest ↔
      ∀ userId ∈ membersOf r ptrRequest.groupId, isNumber userId ∧ NulFree userId := by
  have hsorted := sortedMembers_eq order hset
  constructor
  · intro h
    obtain ⟨response, hsent, hperm⟩ := h 0
    rw [onGroupMemberRequest_userId hsent, hsorted] at hperm
    cases hsort : order.sort (membersOf r ptrRequest.groupId) with
    | none =>
      rw [hsort] at hperm
      rw [List.nil_perm.1 hperm]
      exact List.forall_mem_nil _
    | some l =>
      rw [hsort] at hperm
      have hnumber := (horder _).1 (Option.isSome_iff_exists.2 ⟨l, hsort⟩)
      have hnul := map_cstr_perm_iff.1 (((order.perm hsort).map cstr).symm.trans hperm)
      exact fun userId hmem => ⟨hnumber userId hmem, hnul userId hmem⟩
  · intro h nowtime
    obtain ⟨l, hsort⟩ := Option.isSome_iff_exists.1 ((horder _).2 fun userId hmem => (h userId hmem).1)
    rw [hsort, Option.getD_some] at hsorted
    have hdefined : onGroupMemberRequest order r ptrRequest nowtime ≠ .undefined := by
      rw [onGroupMemberRequest_ne_undefined, hsorted]
      exact fun userId hmem => (hentry userId ((order.perm hsort).mem_iff.1 hmem)).described
    obtain ⟨response, hsent⟩ := exists_sent hdefined
    refine ⟨response, hsent, ?_⟩
    rw [onGroupMemberRequest_userId hsent, hsorted]
    exact ((order.perm hsort).map cstr).trans
      (map_cstr_perm_iff.2 fun userId hmem => (h userId hmem).2)

/-- **A web server finds the members** exactly if all ids are numbers. -/
theorem pairs_iff (horder : SortsNumbers order isNumber) (toId : Bytes) :
    FindsEach order r toId ↔
      ∀ userId ∈ r.keys.members (ascii "onlineGroup:" ++ toId), isNumber userId := by
  rw [FindsEach, groupLookup_eq]
  constructor
  · intro h userId hmem
    obtain ⟨userId', hsorted, -⟩ := List.mem_map.1 (h userId hmem)
    rw [Keyspace.sortable_eq (Keyspace.setOrNone_of_mem hmem), Option.bind_some] at hsorted
    refine (horder _).1 ?_ userId hmem
    cases hsort : order.sort (r.keys.members (ascii "onlineGroup:" ++ toId)) with
    | none =>
      rw [hsort] at hsorted
      cases hsorted
    | some l => rfl
  · intro h userId hmem
    obtain ⟨l, hsort⟩ := Option.isSome_iff_exists.1 ((horder _).2 h)
    rw [Keyspace.sortable_eq (Keyspace.setOrNone_of_mem hmem), Option.bind_some, hsort]
    exact List.mem_map.2 ⟨userId, (order.perm hsort).mem_iff.2 hmem, rfl⟩

/-- **`SortMultiSocket` finds the members**, whatever their ids. -/
theorem mem_sortMultiSocket {groupId userId serverSocket : Bytes}
    (hmem : userId ∈ onlineMembersOf r groupId)
    (honline : r.keys (ascii "online:" ++ userId) = some (.str serverSocket)) (hne : serverSocket ≠ []) :
    (cstr userId, cstr serverSocket) ∈ CRedis.sortMultiSocket r (ascii "onlineGroup:" ++ groupId) := by
  have hset := Keyspace.setOrNone_of_mem hmem
  unfold onlineMembersOf Keyspace.members at hmem
  cases hkey : r.keys (cstr (ascii "onlineGroup:" ++ groupId)) with
  | none =>
    rw [hkey] at hmem
    cases hmem
  | some v =>
    obtain ⟨s, rfl⟩ := hset v hkey
    rw [hkey] at hmem
    rw [CRedis.sortMultiSocket, Keyspace.sortGet, hkey]
    simp only [Reply.elements, Reply.pairs_flatMap]
    refine List.mem_map.2 ⟨(.str userId, .str serverSocket), List.mem_filter.2 ⟨?_, ?_⟩, rfl⟩
    · refine List.mem_map.2 ⟨userId, hmem, ?_⟩
      rw [honline]
    · exact decide_eq_true hne

/-- **Which ids work in groups**: an answer has one entry for each member exactly if the ids are numbers
without a zero byte, and a web server finds the members that are online exactly if their ids are numbers.
`SortMultiSocket` finds all who are at a server. -/
theorem anyId_iff (horder : SortsNumbers order isNumber) {ptrRequest : GroupMembeRequest}
    (hset : r.keys.SetOrNone (cstr (ascii "groupMember:" ++ ptrRequest.groupId)))
    (hentry : ∀ userId ∈ membersOf r ptrRequest.groupId, HasEntry r userId) (toId : Bytes) :
    (OneEntryEach order r ptrRequest ↔
      ∀ userId ∈ membersOf r ptrRequest.groupId, isNumber userId ∧ NulFree userId) ∧
    (FindsEach order r toId ↔
      ∀ userId ∈ r.keys.members (ascii "onlineGroup:" ++ toId), isNumber userId) ∧
    ∀ userId ∈ onlineMembersOf r toId, ∀ serverSocket ≠ [],
      r.keys (ascii "online:" ++ userId) = some (.str serverSocket) →
        (cstr userId, cstr serverSocket) ∈ CRedis.sortMultiSocket r (ascii "onlineGroup:" ++ toId) := by
  refine ⟨entries_iff horder hset hentry, pairs_iff horder toId, ?_⟩
  exact fun userId hmem serverSocket hne honline => mem_sortMultiSocket hmem honline hne

end Ids

/-- Decimal digits, at least one. -/
def IsDecimal (m : Bytes) : Prop := m ≠ [] ∧ m.all fun c => 48 ≤ c ∧ c ≤ 57

instance (m : Bytes) : Decidable (IsDecimal m) := inferInstanceAs (Decidable (_ ∧ _))

theorem sortsNumbers_decimalOrder : SortsNumbers GroupLog.decimalOrder IsDecimal := by
  intro l
  unfold GroupLog.decimalOrder
  dsimp only
  split
  · next h => exact iff_of_true rfl h
  · next h => exact iff_of_false Bool.noConfusion h

/-- The group `7` with one member, who is at the server `h:1`. -/
def groupOf (userId : Bytes) : Redis where
  keys k :=
    if k = ascii "groupMember:7" ∨ k = ascii "onlineGroup:7" then some (.set (.singleton userId))
    else if k = ascii "user:" ++ userId then
      some (.hash (AList.insert (ascii "nickName") userId
        (AList.insert (ascii "imageurl") (ascii "i") (AList.singleton (ascii "onlineStatus") (ascii "1")))))
    else if k = ascii "online:" ++ userId then some (.str (ascii "h:1"))
    else none
  published := []

instance (r : Redis) (userId : Bytes) : Decidable (HasEntry r userId) :=
  decidable_of_iff (_ ∧ _ ∧ _) ⟨fun h => ⟨h.1, h.2.1, h.2.2⟩, fun h => ⟨h.1, h.2, h.3⟩⟩

/-- The list of the members of `7` is asked for. -/
def askMembers : GroupMembeRequest := ⟨0, ascii "7", ascii "8"⟩

/-- A member whose id is a number. -/
theorem anyId_numbered : OneEntryEach GroupLog.decimalOrder (groupOf (ascii "8")) askMembers ∧
    FindsEach GroupLog.decimalOrder (groupOf (ascii "8")) (ascii "7") := by
  have hset : (groupOf (ascii "8")).keys.SetOrNone
      (cstr (ascii "groupMember:" ++ askMembers.groupId)) := by decide +kernel
  have hentry : ∀ userId ∈ membersOf (groupOf (ascii "8")) askMembers.groupId,
      HasEntry (groupOf (ascii "8")) userId := by decide +kernel
  have hiff := anyId_iff sortsNumbers_decimalOrder hset hentry (ascii "7")
  exact ⟨hiff.1.2 (by decide +kernel), hiff.2.1.2 (by decide +kernel)⟩

/-- **A group with the user `alice`**: the list has nobody, and a web server finds nobody. -/
theorem named_lost : (∀ userId ∈ membersOf (groupOf (ascii "alice")) (ascii "7"),
      HasEntry (groupOf (ascii "alice")) userId) ∧
    onGroupMemberRequest GroupLog.decimalOrder (groupOf (ascii "alice")) askMembers 0 =
      .sent ⟨0, 0, ascii "8", ascii "7", []⟩ ∧
    groupLookup GroupLog.decimalOrder (groupOf (ascii "alice")) (ascii "7") = [] ∧
    CRedis.sortMultiSocket (groupOf (ascii "alice")) (ascii "onlineGroup:" ++ ascii "7") =
      [(ascii "alice", ascii "h:1")] ∧
    ¬OneEntryEach GroupLog.decimalOrder (groupOf (ascii "alice")) askMembers ∧
    ¬FindsEach GroupLog.decimalOrder (groupOf (ascii "alice")) (ascii "7") := by
  have hsent : onGroupMemberRequest GroupLog.decimalOrder (groupOf (ascii "alice")) askMembers 0 =
      .sent ⟨0, 0, ascii "8", ascii "7", []⟩ := by decide +kernel
  have hlookup : groupLookup GroupLog.decimalOrder (groupOf (ascii "alice")) (ascii "7") = [] := by
    decide +kernel
  refine ⟨by decide +kernel, hsent, hlookup, by decide +kernel, fun h => ?_, fun h => ?_⟩
  · obtain ⟨response, hsent', hperm⟩ := h 0
    obtain rfl := Outcome.sent.inj (hsent.symm.trans hsent')
    revert hperm
    decide +kernel
  · have hpair := h (ascii "alice") (by decide +kernel)
    rw [hlookup] at hpair
    cases hpair

end MutexIM.Routing
