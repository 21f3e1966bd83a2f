import MutexIM.Foundations.Runs
import MutexIM.MessageServer.Unread

/-!
# The messages of a group that a user has missed

The messages of a group are in one list, the newest first. A counter for each member says how many of
them came while it was not online.

* `GroupLog.step`: messages are handled and counters reset; the log keeps for every message in a list
  whether a certain user was online when it was handled.
* `GroupLog.returnsMissed_iff_of_run`: the user gets the messages counted, and none from a time it was
  online, exactly if for each group nothing is counted, the list is empty, or the whole list is counted.
* `GroupLog.returns_one_more`: otherwise it gets one more, which may be one it has had.
-/

namespace MutexIM.Routing

open Bytes Codec MessageServer

/-! ## Counters -/

/-- The number at a key. -/
def count (ks : Keyspace) (k : Bytes) : ℕ := (atoi (CRedis.textOf (ks k))).toNat

/-- The key is free, or holds a number that has been counted. -/
def IsCounter (ks : Keyspace) (k : Bytes) : Prop :=
  ks k = none ∨ ∃ n < 2 ^ 63, ks k = some (.str (itoa (n : ℕ)))

theorem count_of_none {ks : Keyspace} {k : Bytes} (h : ks k = none) : count ks k = 0 := by
  rw [count, h]
  rfl

theorem count_of_itoa {ks : Keyspace} {k : Bytes} {n : ℕ} (h : ks k = some (.str (itoa n))) :
    count ks k = n := by
  rw [count, h, CRedis.textOf, atoi_itoa, Int.toNat_natCast]

theorem itoa_zero : itoa (0 : ℕ) = ascii "0" := rfl

theorem itoa_ne_zero {n : ℕ} (h : n ≠ 0) : itoa n ≠ ascii "0" := by
  intro heq
  have hzero := atoi_itoa n
  rw [heq, ← itoa_zero, atoi_itoa] at hzero
  exact h (Int.ofNat.inj hzero).symm

theorem unreadNumber_ne_groupMsg (x g : Bytes) : ascii "unreadNumber:" ++ x ≠ ascii "groupMsg:" ++ g := by
  simp [ascii]

theorem groupMsg_inj {g g' : Bytes} : ascii "groupMsg:" ++ g = ascii "groupMsg:" ++ g' ↔ g = g' :=
  List.append_right_inj _

theorem cstr_groupMsg (g : Bytes) : cstr (ascii "groupMsg:" ++ g) = ascii "groupMsg:" ++ cstr g :=
  cstr_append (by decide) g

theorem cstr_unreadNumber (userId g : Bytes) : cstr (unreadNumber userId g) =
    ascii "unreadNumber:" ++ cstr (userId ++ (ascii ":" ++ g)) := by
  rw [unreadNumber, List.append_assoc, List.append_assoc, cstr_append (by decide)]

theorem IsCounter.congr {ks ks' : Keyspace} {k : Bytes} (h : ks' k = ks k) (hc : IsCounter ks k) :
    IsCounter ks' k := by
  rwa [IsCounter, h]

/-- **Counting** leaves counters. -/
theorem IsCounter.incr {ks : Keyspace} {k : Bytes} (hc : IsCounter ks k) (k' : Bytes) :
    IsCounter (ks.incr k').2 k := by
  by_cases hk : k = k'
  · subst hk
    have hnext : ∀ n : ℕ, IsCounter (if (n : ℤ) + 1 < 2 ^ 63 then
        (Reply.integer (n + 1), Function.update ks k (some (.str (itoa (n + 1))))) else (.error, ks)).2 k := by
      intro n
      split
      · next hn =>
        exact .inr ⟨n + 1, by omega, Function.update_self ..⟩
      · exact hc
    rcases hc with hnone | ⟨n, hn, hsome⟩
    · rw [Keyspace.incr, hnone]
      exact hnext 0
    · simp only [Keyspace.incr, hsome, Keyspace.integer_itoa hn]
      exact hnext n
  · exact hc.congr (Keyspace.incr_of_ne hk)

/-! ## Handling a message of a group -/

section Push

variable {r : Redis} {ptrMsg : MsgData} {k : Bytes}

theorem pushGroupMsg_of_ne (h : k ≠ cstr (ascii "groupMsg:" ++ ptrMsg.toId)) :
    (pushGroupMsg r ptrMsg).keys k = r.keys k := CRedis.keys_lpushKeep_of_ne h

theorem listOrNone_pushGroupMsg (h : r.keys.ListOrNone k) :
    (pushGroupMsg r ptrMsg).keys.ListOrNone k := CRedis.listOrNone_lpushKeep h

/-- **A message is put in the list**, which is cut off at a hundred. -/
theorem listAt_pushGroupMsg (h : r.keys.ListOrNone (cstr (ascii "groupMsg:" ++ ptrMsg.toId))) :
    (pushGroupMsg r ptrMsg).keys.listAt (cstr (ascii "groupMsg:" ++ ptrMsg.toId)) =
      ((ChatMsg.msgData ptrMsg).serialize ::
        r.keys.listAt (cstr (ascii "groupMsg:" ++ ptrMsg.toId))).take 100 :=
  CRedis.listAt_lpushKeep h

theorem foldl_incr_of_ne (h : ∀ x, k ≠ ascii "unreadNumber:" ++ x) (us : List Bytes) (g : Bytes) :
    (us.foldl (fun r u => CRedis.incr r (unreadNumber u g)) r).keys k = r.keys k := by
  induction us generalizing r with
  | nil => rfl
  | cons u us ih =>
    rw [List.foldl_cons, ih]
    exact Keyspace.incr_of_ne (cstr_unreadNumber u g ▸ h _)

theorem IsCounter.foldl_incr (h : IsCounter r.keys k) (us : List Bytes) (g : Bytes) :
    IsCounter (us.foldl (fun r u => CRedis.incr r (unreadNumber u g)) r).keys k := by
  induction us generalizing r with
  | nil => exact h
  | cons u us ih => exact ih (h.incr _)

theorem foldl_set_of_ne (h : ∀ x, k ≠ ascii "unreadNumber:" ++ x) (userId : Bytes)
    (numberData : List (Bytes × Bytes)) : (resetNumbers r userId numberData).keys k = r.keys k := by
  unfold resetNumbers
  induction numberData generalizing r with
  | nil => rfl
  | cons e numberData ih =>
    rw [List.foldl_cons, ih]
    split
    · exact CRedis.keys_set_of_ne (cstr_unreadNumber userId e.1 ▸ h _) _
    · rfl

theorem IsCounter.resetNumbers (h : IsCounter r.keys k) (userId : Bytes)
    (numberData : List (Bytes × Bytes)) :
    IsCounter (MessageServer.resetNumbers r userId numberData).keys k := by
  unfold MessageServer.resetNumbers
  induction numberData generalizing r with
  | nil => exact h
  | cons e numberData ih =>
    rw [List.foldl_cons]
    refine ih ?_
    split
    · by_cases hk : k = cstr (unreadNumber userId e.1)
      · exact .inr ⟨0, by omega, hk ▸ CRedis.keys_set_self _ _⟩
      · exact h.congr (CRedis.keys_set_of_ne hk _)
    · exact h

end Push

/-! ## What is read of a group -/

section Read

variable {order : Keyspace.NumericOrder} {r : Redis} {userId g : Bytes}

theorem bytes_unreadNumber (ks : Keyspace) (hstar : 42 ∉ userId) (g : Bytes) :
    (ks.fetch (unreadNumber userId (ascii "*")) g).bytes = CRedis.textOf (ks (unreadNumber userId g)) := by
  have hfree : 42 ∉ ascii "unreadNumber:" ++ userId ++ ascii ":" := by
    simp only [List.mem_append, hstar, or_false]
    decide
  exact CRedis.bytes_fetch_star ks hfree g

/-- A zero byte in the user's id cuts off the star. -/
theorem fetch_of_not_nulFree (ks : Keyspace) (hstar : 42 ∉ userId) (h : ¬NulFree userId) (g : Bytes) :
    ks.fetch (cstr (unreadNumber userId (ascii "*"))) g = .nil := by
  have hnul : ¬NulFree (ascii "unreadNumber:" ++ userId) :=
    fun hn => h fun c hc => hn c (List.mem_append_right _ hc)
  rw [unreadNumber, List.append_assoc, cstr_append_of_not_nulFree hnul, cstr_append (by decide)]
  refine Keyspace.fetch_of_not_mem (fun hmem => ?_) (by simp [ascii]) g
  rcases List.mem_append.1 hmem with hmem | hmem
  · revert hmem
    decide
  · exact hstar ((List.takeWhile_prefix _).subset hmem)

/-- **What is read of a group.** -/
theorem entries_eq {n : ℕ} (hg : NulFree g) (hn : n < 2 ^ 63)
    (hlist : r.keys.ListOrNone (ascii "groupMsg:" ++ g)) :
    (CRedis.lrangeNumber r (ascii "groupMsg:" ++ g) (itoa n)).elements.map Reply.bytes =
      (r.keys.listAt (ascii "groupMsg:" ++ g)).take (n + 1) := by
  have hkey : cstr (ascii "groupMsg:" ++ g) = ascii "groupMsg:" ++ g :=
    cstr_eq_self (.append (by decide) hg)
  simp only [CRedis.lrangeNumber, cstr_eq_self (nulFree_itoa n), Keyspace.integer_itoa hn, hkey,
    Keyspace.lrange, Keyspace.listAt]
  rcases hv : r.keys (ascii "groupMsg:" ++ g) with _ | v
  · rfl
  · obtain ⟨l, rfl⟩ := hlist v hv
    simp only [Reply.elements, List.map_map, Keyspace.slice_zero]
    exact List.map_id _

theorem entries_nil : (CRedis.lrangeNumber r (ascii "groupMsg:" ++ g) []).elements.map Reply.bytes = [] :=
  rfl

/-- The groups in the order of their ids, each with the text of its counter. -/
theorem numberData_eq (hstar : 42 ∉ userId) : numberData order r userId =
    (((r.keys.sortable (cstr (ascii "groupSet:" ++ userId))).bind order.sort).getD []).map fun g =>
      (g, if NulFree userId then CRedis.textOf (r.keys (unreadNumber userId g)) else []) := by
  rw [numberData, CRedis.sortNumbers_eq]
  refine List.map_congr_left fun g _ => Prod.ext rfl ?_
  by_cases h : NulFree userId
  · have hnul : NulFree (unreadNumber userId (ascii "*")) :=
      .append (.append (.append (by decide) h) (by decide)) (by decide)
    rw [if_pos h, cstr_eq_self hnul, bytes_unreadNumber _ hstar]
  · rw [if_neg h, fetch_of_not_nulFree _ hstar h]
    rfl

/-- A group among those selected. -/
theorem lookup_filter_map (l : List Bytes) (number : Bytes → Bytes) (entries : Bytes → Bytes → List Bytes) :
    (((l.map fun g => (g, number g)).filter fun e => e.2 ≠ ascii "0").map fun e =>
        (e.1, entries e.1 e.2)).lookup g =
      if g ∈ l ∧ number g ≠ ascii "0" then some (entries g (number g)) else none := by
  induction l with
  | nil => rfl
  | cons a l ih =>
    rw [List.map_cons]
    by_cases hzero : number a ≠ ascii "0"
    · rw [List.filter_cons_of_pos (by simpa using hzero), List.map_cons]
      by_cases hga : g = a
      · subst hga
        rw [List.lookup_cons_self, if_pos ⟨List.mem_cons_self, hzero⟩]
      · rw [List.lookup_cons, beq_false_of_ne hga, ih]
        simp only [List.mem_cons, hga, false_or]
    · rw [List.filter_cons_of_neg (by simpa using hzero), ih]
      refine if_congr ⟨fun h => ⟨List.mem_cons_of_mem _ h.1, h.2⟩, fun h => ⟨?_, h.2⟩⟩ rfl rfl
      rcases List.mem_cons.1 h.1 with rfl | hmem
      · exact absurd h.2 hzero
      · exact hmem

/-- The messages that `appendGroupMsg` adds for a group. -/
def returned (order : Keyspace.NumericOrder) (r : Redis) (userId g : Bytes) : List Bytes :=
  ((unreadGroups order r userId).lookup g).getD []

/-- **The messages added for a group of the user**: one more than are counted. -/
theorem returned_eq (hstar : 42 ∉ userId) (hg : NulFree g)
    (hmem : g ∈ r.keys.members (ascii "groupSet:" ++ userId))
    (hlist : r.keys.ListOrNone (ascii "groupMsg:" ++ g))
    (hcounter : IsCounter r.keys (unreadNumber userId g)) :
    returned order r userId g =
      if NulFree userId ∧ (order.sort (r.keys.members (ascii "groupSet:" ++ userId))).isSome ∧
          count r.keys (unreadNumber userId g) ≠ 0 then
        (r.keys.listAt (ascii "groupMsg:" ++ g)).take (count r.keys (unreadNumber userId g) + 1)
      else [] := by
  rw [returned, unreadGroups_eq, numberData_eq hstar, lookup_filter_map _ _
    fun g number => (CRedis.lrangeNumber r (ascii "groupMsg:" ++ g) number).elements.map Reply.bytes]
  by_cases hnul : NulFree userId
  · obtain ⟨s, hs⟩ : ∃ s, r.keys (ascii "groupSet:" ++ userId) = some (.set s) := by
      unfold Keyspace.members at hmem
      split at hmem
      · next s hs => exact ⟨s, hs⟩
      · cases hmem
    have hkey : cstr (ascii "groupSet:" ++ userId) = ascii "groupSet:" ++ userId :=
      cstr_eq_self (.append (by decide) hnul)
    have hsortable : r.keys.sortable (ascii "groupSet:" ++ userId) =
        some (r.keys.members (ascii "groupSet:" ++ userId)) := by
      simp only [Keyspace.sortable, Keyspace.members, hs]
    rw [hkey, hsortable, Option.bind_some, if_pos hnul]
    cases hsort : order.sort (r.keys.members (ascii "groupSet:" ++ userId)) with
    | none => simp
    | some gs =>
      have hgs : g ∈ gs := (order.perm hsort).mem_iff.2 hmem
      simp only [Option.getD_some, hgs, true_and, hnul, Option.isSome_some]
      rcases hcounter with hnone | ⟨n, hn, hsome⟩
      · have htext : CRedis.textOf (none : Option Value) = [] := rfl
        rw [hnone, count_of_none hnone, if_neg (not_not.2 rfl), htext, entries_nil]
        split <;> rfl
      · rw [hsome, count_of_itoa hsome, CRedis.textOf]
        by_cases hzero : n = 0
        · subst hzero
          rfl
        · rw [if_pos (itoa_ne_zero hzero), if_pos hzero, entries_eq hg hn hlist, Option.getD_some]
  · simp only [entries_nil, hnul, false_and, if_false]
    split <;> rfl

end Read

/-! ## The log -/

/-- Redis, and for each group, for the messages in its list, whether the user was online when they were
handled. -/
structure GroupLog where
  redis : Redis
  online : Bytes → List Bool

namespace GroupLog

/-- What happens: a message of a group is handled, a user asks for unread messages, other programs
change other keys. -/
inductive Event
  | groupMsg (ptrMsg : MsgData)
  | unreadMsgRequest (ptrRequest : UnreadMsgRequest)
  | other (k : Bytes) (v : Option Value)

section Step

variable (order : Keyspace.NumericOrder) (userId : Bytes) (s : GroupLog)

/-- The messages of a group. -/
def messages (g : Bytes) : List Bytes := s.redis.keys.listAt (ascii "groupMsg:" ++ g)

/-- The groups of the user. -/
def groups : List Bytes := s.redis.keys.members (ascii "groupSet:" ++ userId)

/-- How many messages of the group are counted for the user. -/
def number (g : Bytes) : ℕ := count s.redis.keys (unreadNumber userId g)

def step : Event → Option GroupLog
  | .groupMsg ptrMsg =>
    let g := cstr ptrMsg.toId
    some
      { redis := doOfflineGroupMsg s.redis ptrMsg
        online := Function.update s.online g ((decide
          (userId ∈ s.redis.keys.members (ascii "onlineGroup:" ++ g)) :: s.online g).take 100) }
  | .unreadMsgRequest ptrRequest =>
    some { s with redis := (appendGroupMsg order s.redis ptrRequest ⟨0, 0, [], []⟩).2.2 }
  | .other k v =>
    if ascii "groupMsg:" <+: k ∨ ascii "unreadNumber:" <+: k then none
    else some { s with redis := { s.redis with keys := Function.update s.redis.keys k v } }

/-- The user's groups are read as they are counted: the messages added for a group are the newest ones,
as many as are counted, and none was handled while the user was online. -/
structure ReturnsMissed : Prop where
  counted : ∀ g ∈ s.groups userId,
    returned order s.redis userId g = (s.messages g).take (s.number userId g)
  missed : ∀ g ∈ s.groups userId,
    true ∉ (s.online g).take (returned order s.redis userId g).length

/-- Nothing of the group is counted, it has no messages, or all of them are counted and came while the
user was not online; the user's id is a C string, and the ids of the groups can be sorted. -/
def Fits (g : Bytes) : Prop :=
  s.number userId g = 0 ∨ s.messages g = [] ∨
    NulFree userId ∧ (order.sort (s.groups userId)).isSome ∧
      (s.messages g).length ≤ s.number userId g ∧ true ∉ s.online g

/-- The lists and counters are such, and the log is about the messages in the lists. -/
structure Inv : Prop where
  list : ∀ g, s.redis.keys.ListOrNone (ascii "groupMsg:" ++ g)
  counter : ∀ x, IsCounter s.redis.keys (ascii "unreadNumber:" ++ x)
  online : ∀ g, (s.online g).length = (s.messages g).length

end Step

variable {order : Keyspace.NumericOrder} {userId : Bytes} {s s' : GroupLog} {g : Bytes}

/-- **One group.** -/
theorem returned_iff (hs : s.Inv) (hstar : 42 ∉ userId) (hg : NulFree g)
    (hmem : g ∈ s.groups userId) :
    (returned order s.redis userId g = (s.messages g).take (s.number userId g) ∧
      true ∉ (s.online g).take (returned order s.redis userId g).length) ↔ s.Fits order userId g := by
  have hcounter : IsCounter s.redis.keys (unreadNumber userId g) := by
    rw [unreadNumber, List.append_assoc, List.append_assoc]
    exact hs.counter _
  have heq : returned order s.redis userId g =
      if NulFree userId ∧ (order.sort (s.groups userId)).isSome ∧ s.number userId g ≠ 0 then
        (s.messages g).take (s.number userId g + 1) else [] :=
    returned_eq hstar hg hmem (hs.list g) hcounter
  rw [heq]
  by_cases hzero : s.number userId g = 0
  · rw [if_neg fun h => h.2.2 hzero, hzero]
    exact iff_of_true ⟨rfl, List.not_mem_nil⟩ (.inl hzero)
  by_cases hnil : s.messages g = []
  · have hempty : (if NulFree userId ∧ (order.sort (s.groups userId)).isSome ∧
        s.number userId g ≠ 0 then (s.messages g).take (s.number userId g + 1) else []) = [] := by
      rw [hnil, List.take_nil]
      split <;> rfl
    rw [hempty, hnil, List.take_nil]
    exact iff_of_true ⟨rfl, List.not_mem_nil⟩ (.inr (.inl hnil))
  have hpos : 0 < (s.messages g).length := List.length_pos_iff.2 hnil
  have hlen := hs.online g
  rw [Fits, or_iff_right hzero, or_iff_right hnil]
  by_cases hok : NulFree userId ∧ (order.sort (s.groups userId)).isSome
  · rw [if_pos ⟨hok.1, hok.2, hzero⟩]
    constructor
    · rintro ⟨htake, hmissed⟩
      have hle : (s.messages g).length ≤ s.number userId g := by
        have h := congrArg List.length htake
        rw [List.length_take, List.length_take] at h
        omega
      rw [List.take_of_length_le (hle.trans (Nat.le_succ _)), List.take_of_length_le hlen.le] at hmissed
      exact ⟨hok.1, hok.2, hle, hmissed⟩
    · rintro ⟨-, -, hle, hmissed⟩
      rw [List.take_of_length_le (hle.trans (Nat.le_succ _)), List.take_of_length_le hle,
        List.take_of_length_le hlen.le]
      exact ⟨rfl, hmissed⟩
  · rw [if_neg fun h => hok ⟨h.1, h.2.1⟩]
    refine iff_of_false (fun h => ?_) fun h => hok ⟨h.1, h.2.1⟩
    have hlength := congrArg List.length h.1
    rw [List.length_take, List.length_nil] at hlength
    omega

/-- A step that leaves the lists. -/
theorem Inv.of_keys (hs : s.Inv) {r : Redis}
    (hlist : ∀ g, r.keys (ascii "groupMsg:" ++ g) = s.redis.keys (ascii "groupMsg:" ++ g))
    (hcounter : ∀ x, IsCounter r.keys (ascii "unreadNumber:" ++ x)) :
    Inv { s with redis := r } where
  list g v hv := hs.list g v (hlist g ▸ hv)
  counter := hcounter
  online g := by
    rw [hs.online g]
    exact congrArg List.length (Keyspace.listAt_congr (hlist g)).symm

/-- A message is handled. -/
theorem Inv.groupMsg (hs : s.Inv) (ptrMsg : MsgData) (online : Bool) :
    Inv { redis := doOfflineGroupMsg s.redis ptrMsg
          online := Function.update s.online (cstr ptrMsg.toId)
            ((online :: s.online (cstr ptrMsg.toId)).take 100) } := by
  have hkeys : ∀ g, (doOfflineGroupMsg s.redis ptrMsg).keys (ascii "groupMsg:" ++ g) =
      (pushGroupMsg s.redis ptrMsg).keys (ascii "groupMsg:" ++ g) :=
    fun g => foldl_incr_of_ne (fun x => (unreadNumber_ne_groupMsg x g).symm) _ _
  constructor
  case list =>
    intro g v hv
    exact listOrNone_pushGroupMsg (hs.list g) v (hkeys g ▸ hv)
  case counter =>
    intro x
    refine IsCounter.foldl_incr ((hs.counter x).congr (pushGroupMsg_of_ne ?_)) _ _
    rw [cstr_groupMsg]
    exact unreadNumber_ne_groupMsg x _
  case online =>
    intro g
    rw [messages, Keyspace.listAt_congr (hkeys g)]
    dsimp only
    by_cases hg : g = cstr ptrMsg.toId
    · subst hg
      have hlist : s.redis.keys.ListOrNone (cstr (ascii "groupMsg:" ++ ptrMsg.toId)) →
          (pushGroupMsg s.redis ptrMsg).keys.listAt (cstr (ascii "groupMsg:" ++ ptrMsg.toId)) = _ :=
        listAt_pushGroupMsg
      rw [cstr_groupMsg] at hlist
      have hlen := hs.online (cstr ptrMsg.toId)
      rw [messages] at hlen
      rw [hlist (hs.list _), Function.update_self, List.length_take, List.length_take,
        List.length_cons, List.length_cons, hlen]
    · rw [Function.update_of_ne hg, hs.online g, messages]
      refine congrArg List.length (Keyspace.listAt_congr (pushGroupMsg_of_ne ?_)).symm
      rw [cstr_groupMsg]
      exact fun heq => hg (groupMsg_inj.1 heq)

/-- **Every step keeps the invariant.** -/
theorem Inv.step (hs : s.Inv) {e : Event} (h : s.step order userId e = some s') : s'.Inv := by
  cases e with
  | groupMsg ptrMsg =>
    obtain rfl := Option.some.inj h
    exact hs.groupMsg ptrMsg _
  | unreadMsgRequest ptrRequest =>
    obtain rfl := Option.some.inj h
    refine hs.of_keys (fun g => ?_) fun x => (hs.counter x).resetNumbers _ _
    exact foldl_set_of_ne (fun x => (unreadNumber_ne_groupMsg x g).symm) _ _
  | other k v =>
    simp only [GroupLog.step] at h
    split at h
    · cases h
    · next hk =>
      obtain rfl := Option.some.inj h
      rw [not_or] at hk
      refine hs.of_keys (fun g => Function.update_of_ne ?_ ..) fun x => ?_
      · rintro rfl
        exact hk.1 (List.prefix_append ..)
      · refine (hs.counter x).congr (Function.update_of_ne ?_ ..)
        rintro rfl
        exact hk.2 (List.prefix_append ..)

/-- **What a user has missed**: after every run of messages and requests, from any lists and counters,
the user's groups are read as they are counted exactly if all of them fit. -/
theorem returnsMissed_iff_of_run {s₀ : GroupLog} {es : List Event} (hs : s₀.Inv)
    (hrun : Run (step order userId) (fun _ _ => True) s₀ es s) (hstar : 42 ∉ userId)
    (hgroups : ∀ g ∈ s.groups userId, NulFree g) :
    s.ReturnsMissed order userId ↔ ∀ g ∈ s.groups userId, s.Fits order userId g := by
  have hinv : s.Inv := hrun.invariant (fun _ _ _ hs _ hstep => hs.step hstep) hs
  have hone : ∀ g ∈ s.groups userId,
      (returned order s.redis userId g = (s.messages g).take (s.number userId g) ∧
        true ∉ (s.online g).take (returned order s.redis userId g).length) ↔ s.Fits order userId g :=
    fun g hg => returned_iff hinv hstar (hgroups g hg) hg
  exact ⟨fun h g hg => (hone g hg).1 ⟨h.counted g hg, h.missed g hg⟩,
    fun h => ⟨fun g hg => ((hone g hg).2 (h g hg)).1, fun g hg => ((hone g hg).2 (h g hg)).2⟩⟩

/-! ## One message more -/

/-- Ids that are decimal numbers are sorted by what they are. -/
def decimalOrder : Keyspace.NumericOrder where
  sort l := if ∀ m ∈ l, m ≠ [] ∧ m.all fun c => 48 ≤ c ∧ c ≤ 57 then
    some (l.insertionSort fun m m' => atoi m ≤ atoi m') else none
  perm h := by
    split at h
    · obtain rfl := Option.some.inj h
      exact List.perm_insertionSort _ _
    · cases h

/-- `u` is a member of the group `7`, in which nothing has been said. -/
def quiet : GroupLog where
  redis := ⟨fun k =>
    if k = ascii "groupSet:u" then some (.set (.singleton (ascii "7")))
    else if k = ascii "groupMember:7" then some (.set (.singleton (ascii "u")))
    else none, []⟩
  online _ := []

/-- A message to the group. -/
def toGroup (text : String) : MsgData := ⟨0, 0, ascii "v", ascii "7", ascii text, groupchatText⟩

/-- `u` is online for the first message, and not for the second. -/
def onlineForOne : List Event :=
  [.other (ascii "onlineGroup:7") (some (.set (.singleton (ascii "u")))), .groupMsg (toGroup "1"),
    .other (ascii "onlineGroup:7") none, .groupMsg (toGroup "2")]

theorem inv_quiet : quiet.Inv where
  list g v hv := by
    have hset : ascii "groupMsg:" ++ g ≠ ascii "groupSet:u" := by simp [ascii]
    have hmember : ascii "groupMsg:" ++ g ≠ ascii "groupMember:7" := by simp [ascii]
    simp only [quiet, if_neg hset, if_neg hmember] at hv
    cases hv
  counter x := by
    have hset : ascii "unreadNumber:" ++ x ≠ ascii "groupSet:u" := by simp [ascii]
    have hmember : ascii "unreadNumber:" ++ x ≠ ascii "groupMember:7" := by simp [ascii]
    exact .inl (by simp only [quiet, if_neg hset, if_neg hmember])
  online g := by
    have hset : ascii "groupMsg:" ++ g ≠ ascii "groupSet:u" := by simp [ascii]
    have hmember : ascii "groupMsg:" ++ g ≠ ascii "groupMember:7" := by simp [ascii]
    simp only [messages, Keyspace.listAt, quiet, if_neg hset, if_neg hmember]
    rfl

instance (s : GroupLog) (g : Bytes) : Decidable (s.Fits order userId g) :=
  inferInstanceAs (Decidable (_ ∨ _ ∨ _))

theorem returnsMissed_one : ∃ s,
    Run (step decimalOrder (ascii "u")) (fun _ _ => True) quiet [.groupMsg (toGroup "1")] s ∧
      s.ReturnsMissed decimalOrder (ascii "u") := by
  have hany : (exec (step decimalOrder (ascii "u")) (fun _ _ => True) quiet
      [.groupMsg (toGroup "1")]).any (fun s => (∀ g ∈ s.groups (ascii "u"), NulFree g) ∧
        ∀ g ∈ s.groups (ascii "u"), s.Fits decimalOrder (ascii "u") g) = true := by decide +kernel
  obtain ⟨s, hrun, hfits⟩ := Run.exists_of_exec hany
  exact ⟨s, hrun, (returnsMissed_iff_of_run inv_quiet hrun (by decide) hfits.1).2 hfits.2⟩

/-- **One message too many**: one is counted, and two are returned, the other of which came while the
user was online. -/
theorem returns_one_more : ∃ s,
    Run (step decimalOrder (ascii "u")) (fun _ _ => True) quiet onlineForOne s ∧
      s.groups (ascii "u") = [ascii "7"] ∧ s.number (ascii "u") (ascii "7") = 1 ∧
      s.online (ascii "7") = [false, true] ∧
      returned decimalOrder s.redis (ascii "u") (ascii "7") =
        [(ChatMsg.msgData (toGroup "2")).serialize, (ChatMsg.msgData (toGroup "1")).serialize] ∧
      ¬s.ReturnsMissed decimalOrder (ascii "u") := by
  have hany : (exec (step decimalOrder (ascii "u")) (fun _ _ => True) quiet onlineForOne).any (fun s =>
      s.groups (ascii "u") = [ascii "7"] ∧ s.number (ascii "u") (ascii "7") = 1 ∧
      s.online (ascii "7") = [false, true] ∧
      returned decimalOrder s.redis (ascii "u") (ascii "7") =
        [(ChatMsg.msgData (toGroup "2")).serialize, (ChatMsg.msgData (toGroup "1")).serialize]) =
      true := by decide +kernel
  obtain ⟨s, hrun, hgroups, hnumber, honline, hreturned⟩ := Run.exists_of_exec hany
  refine ⟨s, hrun, hgroups, hnumber, honline, hreturned, fun h => ?_⟩
  have hmissed := h.missed (ascii "7") (hgroups ▸ List.mem_singleton_self _)
  rw [hreturned, honline] at hmissed
  exact hmissed (by simp)

end GroupLog

end MutexIM.Routing
