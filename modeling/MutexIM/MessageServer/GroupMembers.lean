import MutexIM.MessageServer.Lists

/-!
# The answers about groups

`onGroupMemberRequest` takes five columns of one reply, the last four of them strings at keys made from
the id of a member; a nil among them has a null `str`. `onAllGroupRequest` reads its second entry, whether
there is one or not.

* `memberRow` is the row of a member, and `onGroupMemberRequest_eq` the handler over the rows.
* `defined_iff`: the two handlers end without a null `str` and without an entry that is not there exactly
  if the user has no group or two that have a hash, and every member has a nick name, an image and, where
  online, a status.
* `undefined_inOneGroup`: one group, and a member without an image.
-/

namespace MutexIM.MessageServer

open Bytes Codec

/-! ## The rows -/

/-- The row of a member. -/
def memberRow (r : Redis) (userId : Bytes) : Reply × Reply × Reply × Reply × Reply :=
  (.str userId, r.keys.fetch (ascii "user:*->nickName") userId,
    r.keys.fetch (ascii "user:*->imageurl") userId, r.keys.fetch (ascii "online:*") userId,
    r.keys.fetch (ascii "user:*->onlineStatus") userId)

/-- The ids of the members in the order of the reply; none if the command is refused. -/
def sortedMembers (order : Keyspace.NumericOrder) (r : Redis) (groupId : Bytes) : List Bytes :=
  ((r.keys.sortable (cstr (ascii "groupMember:" ++ groupId))).bind order.sort).getD []

/-- What is known of a member: a nick name and an image, and the status of one who is online. -/
structure Described (r : Redis) (userId : Bytes) : Prop where
  nickName : ascii "nickName" ∈ r.keys.hashAt (ascii "user:" ++ userId)
  imageUrl : ascii "imageurl" ∈ r.keys.hashAt (ascii "user:" ++ userId)
  onlineStatus : CRedis.textOf (r.keys (ascii "online:" ++ userId)) ≠ [] →
    ascii "onlineStatus" ∈ r.keys.hashAt (ascii "user:" ++ userId)

theorem rows_flatMap {α : Type*} (f₁ f₂ f₃ f₄ f₅ : α → Reply) (l : List α) :
    Reply.rows (l.flatMap fun x => [f₁ x, f₂ x, f₃ x, f₄ x, f₅ x]) =
      l.map fun x => (f₁ x, f₂ x, f₃ x, f₄ x, f₅ x) := by
  induction l with
  | nil => rfl
  | cons x l ih => exact congrArg (List.cons (f₁ x, f₂ x, f₃ x, f₄ x, f₅ x)) ih

section Rows

variable {order : Keyspace.NumericOrder} {r : Redis} {userId groupId : Bytes}

/-- A member has one row. -/
theorem elements_sortGets : (CRedis.sortGets r order (ascii "groupMember:" ++ groupId)
    memberPatterns).elements = (sortedMembers order r groupId).flatMap fun m =>
      [.str m, r.keys.fetch (ascii "user:*->nickName") m, r.keys.fetch (ascii "user:*->imageurl") m,
        r.keys.fetch (ascii "online:*") m, r.keys.fetch (ascii "user:*->onlineStatus") m] := by
  unfold CRedis.sortGets Keyspace.sortGets sortedMembers
  cases (r.keys.sortable (cstr (ascii "groupMember:" ++ groupId))).bind order.sort with
  | none => rfl
  | some l => rfl

theorem rows_sortGets : Reply.rows (CRedis.sortGets r order (ascii "groupMember:" ++ groupId)
    memberPatterns).elements = (sortedMembers order r groupId).map (memberRow r) := by
  rw [elements_sortGets, rows_flatMap]
  rfl

/-- **The handler over the rows.** -/
theorem onGroupMemberRequest_eq (ptrRequest : GroupMembeRequest) (nowtime : UInt64) :
    onGroupMemberRequest order r ptrRequest nowtime =
      match ((sortedMembers order r ptrRequest.groupId).map (memberRow r)).mapM memberInfo with
      | some msgData => .sent ⟨nowtime, UInt32.ofNat msgData.length, ptrRequest.userId,
          ptrRequest.groupId, msgData⟩
      | none => .undefined := by
  have hlen : (CRedis.sortGets r order (ascii "groupMember:" ++ ptrRequest.groupId)
      memberPatterns).elements.length = 5 * (sortedMembers order r ptrRequest.groupId).length := by
    rw [elements_sortGets, List.length_flatMap]
    simp [mul_comm]
  simp only [onGroupMemberRequest, rows_sortGets, hlen]
  by_cases hnil : 5 * (sortedMembers order r ptrRequest.groupId).length ≠ 0
  · rw [if_pos hnil, Nat.mul_div_cancel_left _ (by decide)]
    cases hrows : ((sortedMembers order r ptrRequest.groupId).map (memberRow r)).mapM memberInfo with
    | none => rfl
    | some msgData =>
      have hmsgData := length_of_mapM hrows
      rw [List.length_map] at hmsgData
      simp only [hmsgData]
  · have hmembers : sortedMembers order r ptrRequest.groupId = [] :=
      List.length_eq_zero_iff.1 (by omega)
    rw [if_neg hnil, hmembers]
    rfl

variable (r userId) in
theorem isSome_text_arrow {f : Bytes} (hf : f ≠ []) :
    (r.keys.fetch (ascii "user:" ++ ascii "*->" ++ f) userId).text.isSome ↔
      f ∈ r.keys.hashAt (ascii "user:" ++ userId) := by
  rw [Keyspace.fetch_arrow (by decide) hf, ← AList.lookup_isSome]
  cases (r.keys.hashAt (ascii "user:" ++ userId)).lookup f <;> exact Iff.rfl

variable (r userId) in
theorem bytes_star : (r.keys.fetch (ascii "online:" ++ ascii "*") userId).bytes =
    CRedis.textOf (r.keys (ascii "online:" ++ userId)) :=
  CRedis.bytes_fetch_star r.keys (by decide) userId

/-- What the handler reads of a row. -/
theorem isSome_memberInfo (id nickName imageUrl online onlineStatus : Reply) :
    (memberInfo (id, nickName, imageUrl, online, onlineStatus)).isSome ↔ id.text.isSome ∧
      nickName.text.isSome ∧ imageUrl.text.isSome ∧ (online.bytes ≠ [] → onlineStatus.text.isSome) := by
  simp only [memberInfo, Ne, List.length_eq_zero_iff]
  cases id.text with
  | none => simp
  | some id =>
    cases nickName.text with
    | none => simp
    | some nickName =>
      cases imageUrl.text with
      | none => simp
      | some imageUrl =>
        by_cases honline : online.bytes = []
        · simp [honline]
        · simp [honline]

/-- The entry of a row has its id. -/
theorem text_of_memberInfo {id nickName imageUrl online onlineStatus : Reply} {e : GroupMemberInfo}
    (h : memberInfo (id, nickName, imageUrl, online, onlineStatus) = some e) :
    id.text = some e.userId := by
  simp only [memberInfo] at h
  obtain ⟨id', hid, h⟩ := Option.bind_eq_some_iff.1 h
  obtain ⟨nickName', -, h⟩ := Option.bind_eq_some_iff.1 h
  obtain ⟨imageUrl', -, h⟩ := Option.bind_eq_some_iff.1 h
  rw [hid]
  split at h
  · obtain ⟨status, -, rfl⟩ := Option.map_eq_some_iff.1 h
    rfl
  · obtain rfl := Option.some.inj h
    rfl

/-- **No null is used** for a member of whom enough is known, and for no other. -/
theorem isSome_memberInfo_memberRow : (memberInfo (memberRow r userId)).isSome ↔ Described r userId := by
  have hnickName := isSome_text_arrow r userId (f := ascii "nickName") (by decide)
  have himageUrl := isSome_text_arrow r userId (f := ascii "imageurl") (by decide)
  have honlineStatus := isSome_text_arrow r userId (f := ascii "onlineStatus") (by decide)
  have honline := bytes_star r userId
  rw [memberRow, isSome_memberInfo]
  constructor
  · rintro ⟨-, hnick, himage, hstatus⟩
    exact ⟨hnickName.1 hnick, himageUrl.1 himage, fun h => honlineStatus.1 (hstatus (honline ▸ h))⟩
  · rintro ⟨hnick, himage, hstatus⟩
    exact ⟨rfl, hnickName.2 hnick, himageUrl.2 himage, fun h => honlineStatus.2 (hstatus (honline ▸ h))⟩

theorem isSome_mapM {α β : Type} {f : α → Option β} {l : List α} :
    (l.mapM f).isSome ↔ ∀ a ∈ l, (f a).isSome := by
  induction l with
  | nil => simp
  | cons a l ih =>
    rw [List.forall_mem_cons, ← ih, List.mapM_cons]
    cases f a with
    | none => simp
    | some b => cases l.mapM f <;> simp

/-- The ids of the entries are those of the rows. -/
theorem userId_of_mapM {l : List Bytes} {msgData : List GroupMemberInfo}
    (h : (l.map (memberRow r)).mapM memberInfo = some msgData) :
    msgData.map GroupMemberInfo.userId = l.map cstr := by
  induction l generalizing msgData with
  | nil =>
    obtain rfl := Option.some.inj h
    rfl
  | cons m l ih =>
    rw [List.map_cons, List.mapM_cons] at h
    obtain ⟨e, he, h⟩ := Option.bind_eq_some_iff.1 h
    obtain ⟨es, hes, h⟩ := Option.bind_eq_some_iff.1 h
    obtain rfl := Option.some.inj h
    rw [List.map_cons, List.map_cons, ih hes, ← Option.some.inj (text_of_memberInfo he)]

/-- The handler for the members. -/
theorem onGroupMemberRequest_ne_undefined (ptrRequest : GroupMembeRequest) (nowtime : UInt64) :
    onGroupMemberRequest order r ptrRequest nowtime ≠ .undefined ↔
      ∀ userId ∈ sortedMembers order r ptrRequest.groupId, Described r userId := by
  have hrows : (∀ userId ∈ sortedMembers order r ptrRequest.groupId, Described r userId) ↔
      (((sortedMembers order r ptrRequest.groupId).map (memberRow r)).mapM memberInfo).isSome := by
    rw [isSome_mapM, List.forall_mem_map]
    exact forall₂_congr fun userId _ => isSome_memberInfo_memberRow.symm
  rw [hrows, onGroupMemberRequest_eq]
  cases ((sortedMembers order r ptrRequest.groupId).map (memberRow r)).mapM memberInfo with
  | none => simp
  | some msgData => simp

/-- The handler sends a response, or its behaviour is undefined. -/
theorem exists_sent {ptrRequest : GroupMembeRequest} {nowtime : UInt64}
    (h : onGroupMemberRequest order r ptrRequest nowtime ≠ .undefined) :
    ∃ response, onGroupMemberRequest order r ptrRequest nowtime = .sent response := by
  rw [onGroupMemberRequest_eq] at h ⊢
  split at h
  · exact ⟨_, rfl⟩
  · exact absurd rfl h

/-- The ids of a response. -/
theorem onGroupMemberRequest_userId {ptrRequest : GroupMembeRequest} {nowtime : UInt64}
    {response : GroupMemberResponse}
    (h : onGroupMemberRequest order r ptrRequest nowtime = .sent response) :
    response.msgData.map GroupMemberInfo.userId =
      (sortedMembers order r ptrRequest.groupId).map cstr := by
  rw [onGroupMemberRequest_eq] at h
  split at h
  · next msgData hrows =>
    obtain rfl := Outcome.sent.inj h
    exact userId_of_mapM hrows
  · cases h

/-- The ids that are sorted are the members. -/
theorem mem_sortedMembers {l : List Bytes}
    (hl : r.keys.sortable (cstr (ascii "groupMember:" ++ groupId)) = some l) :
    userId ∈ sortedMembers order r groupId ↔ (order.sort l).isSome ∧ userId ∈ l := by
  rw [sortedMembers, hl, Option.bind_some]
  cases hsort : order.sort l with
  | none => simp
  | some l' => simp [(order.perm hsort).mem_iff]

end Rows

/-- Enough is known of all members, if Redis sorts them. -/
def AllDescribed (order : Keyspace.NumericOrder) (r : Redis) (groupId : Bytes) : Prop :=
  ∀ l, r.keys.sortable (cstr (ascii "groupMember:" ++ groupId)) = some l → (order.sort l).isSome →
    ∀ userId ∈ l, Described r userId

/-- **When the lists are answered without undefined behaviour**, whatever Redis holds: the user has no
group, or two that have a hash; and enough is known of every member of the group. -/
theorem defined_iff (order : Keyspace.NumericOrder) (r : Redis) (ptrGroups : GroupAllRequest)
    (ptrMembers : GroupMembeRequest) (nowtime : UInt64) :
    (onAllGroupRequest r ptrGroups nowtime ≠ .undefined ↔ groupsOf r ptrGroups.userId = [] ∨
      2 ≤ (found r (ascii "group:") (groupsOf r ptrGroups.userId)).length) ∧
    (onGroupMemberRequest order r ptrMembers nowtime ≠ .undefined ↔
      AllDescribed order r ptrMembers.groupId) := by
  constructor
  · rw [onAllGroupRequest_eq, ← List.length_eq_zero_iff]
    split
    · next hgroups =>
      split
      · next htwo => exact iff_of_true nofun (.inr htwo)
      · next htwo => exact iff_of_false (not_not.2 rfl) fun h => h.elim hgroups htwo
    · next hgroups => exact iff_of_true nofun (.inl (not_not.1 hgroups))
  · rw [onGroupMemberRequest_ne_undefined, AllDescribed]
    constructor
    · exact fun h l hl hsort userId hmem => h userId ((mem_sortedMembers hl).2 ⟨hsort, hmem⟩)
    · intro h userId hmem
      cases hl : r.keys.sortable (cstr (ascii "groupMember:" ++ ptrMembers.groupId)) with
      | none =>
        rw [sortedMembers, hl] at hmem
        cases hmem
      | some l =>
        obtain ⟨hsort, hmem⟩ := (mem_sortedMembers hl).1 hmem
        exact h l hl hsort userId hmem

/-- The user `8` has been entered by a registration, and is in the group `7` and in no other. -/
def inOneGroup : Redis where
  keys k :=
    if k = ascii "groupSet:8" then some (.set (.singleton (ascii "7")))
    else if k = ascii "group:7" then
      some (.hash (AList.singleton (ascii "groupId") (ascii "7")))
    else if k = ascii "groupMember:7" then some (.set (.singleton (ascii "8")))
    else if k = ascii "user:8" then
      some (.hash (AList.insert (ascii "useId") (ascii "8")
        (AList.insert (ascii "password") (ascii "p") (AList.insert (ascii "email") (ascii "8@m")
          (AList.singleton (ascii "nickName") (ascii "8"))))))
    else none
  published := []

/-- **One group, and a member without an image**: the entry that is read is not there, and a null is
used. -/
theorem undefined_inOneGroup : onAllGroupRequest inOneGroup ⟨0, ascii "8"⟩ 0 = .undefined ∧
    ∀ order : Keyspace.NumericOrder, order.sort [ascii "8"] = some [ascii "8"] →
      onGroupMemberRequest order inOneGroup ⟨0, ascii "7", ascii "8"⟩ 0 = .undefined := by
  refine ⟨by decide +kernel, fun order hsort => ?_⟩
  have hmembers : sortedMembers order inOneGroup (ascii "7") = [ascii "8"] := by
    have hkey : inOneGroup.keys.sortable (cstr (ascii "groupMember:" ++ ascii "7")) =
      some [ascii "8"] := by decide +kernel
    rw [sortedMembers, hkey, Option.bind_some, hsort, Option.getD_some]
  rw [onGroupMemberRequest_eq, hmembers]
  decide +kernel

end MutexIM.MessageServer
