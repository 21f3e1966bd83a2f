import MutexIM.Routing.Effects
import MutexIM.Routing.GroupDelivery
import MutexIM.Routing.GroupMailbox

/-!
# What the counters count

`doOfflineGroupMsg` counts a message for each member of the group that is not online, and a request for
unread messages sets the counters of the user's groups to zero.

* `Tally.step`: the servers handle messages of groups and requests, and the online sets change; the tally
  is what each user has missed of each group since its last request.
* `Tally.Inv.step`: the counters follow the tally, up to the largest number Redis counts to, and each
  step leaves the counters of everyone it does not concern.
* `counts_of_run`: so they do over every run. `counter_stops`: after that number, they stop.
-/

namespace MutexIM.Routing

open Bytes Codec MessageServer

/-! ## Ids and groups -/

/-- The decimal of a number. -/
def Decimal (g : Bytes) : Prop := g ≠ [] ∧ ∀ c ∈ g, 48 ≤ c ∧ c ≤ 57

instance (g : Bytes) : Decidable (Decimal g) :=
  haveI : Decidable (∀ c ∈ g, 48 ≤ c ∧ c ≤ 57) := List.decidableBAll (fun c => 48 ≤ c ∧ c ≤ 57) g
  inferInstanceAs (Decidable (_ ∧ _))

/-- An id without a zero byte, a colon or a star. -/
def PlainId (u : Bytes) : Prop := ∀ c ∈ u, c ≠ 0 ∧ c ≠ 58 ∧ c ≠ 42

instance (u : Bytes) : Decidable (PlainId u) :=
  List.decidableBAll (fun c => c ≠ 0 ∧ c ≠ 58 ∧ c ≠ 42) u

/-- Redis takes decimals for numbers. -/
def SortsDecimals (order : Keyspace.NumericOrder) : Prop :=
  ∀ l : List Bytes, (∀ g ∈ l, Decimal g) → (order.sort l).isSome

/-- The members of the groups and the groups of the users say the same, of ids of these forms. -/
structure Enrolled (ks : Keyspace) : Prop where
  members : ∀ g, ks.SetOrNone (ascii "groupMember:" ++ g)
  groups : ∀ u, ks.SetOrNone (ascii "groupSet:" ++ u)
  mem_iff : ∀ u g, u ∈ ks.members (ascii "groupMember:" ++ g) ↔ g ∈ ks.members (ascii "groupSet:" ++ u)
  plain : ∀ u g, u ∈ ks.members (ascii "groupMember:" ++ g) → PlainId u
  decimal : ∀ u g, g ∈ ks.members (ascii "groupSet:" ++ u) → Decimal g

/-- The user is a member of the group, and not online. -/
def Away (r : Redis) (u g : Bytes) : Prop :=
  u ∈ r.keys.members (ascii "groupMember:" ++ g) ∧ u ∉ r.keys.members (ascii "onlineGroup:" ++ g)

instance (r : Redis) (u g : Bytes) : Decidable (Away r u g) := inferInstanceAs (Decidable (_ ∧ _))

theorem Enrolled.congr {ks ks' : Keyspace} (h : Enrolled ks)
    (hmember : ∀ g, ks' (ascii "groupMember:" ++ g) = ks (ascii "groupMember:" ++ g))
    (hset : ∀ u, ks' (ascii "groupSet:" ++ u) = ks (ascii "groupSet:" ++ u)) : Enrolled ks' where
  members g := (h.members g).congr (hmember g)
  groups u := (h.groups u).congr (hset u)
  mem_iff u g := by
    rw [Keyspace.members_congr (hmember g), Keyspace.members_congr (hset u)]
    exact h.mem_iff u g
  plain u g hu := h.plain u g (Keyspace.members_congr (hmember g) ▸ hu)
  decimal u g hg := h.decimal u g (Keyspace.members_congr (hset u) ▸ hg)

section Ids

variable {u u' g g' : Bytes}

theorem Decimal.nulFree (h : Decimal g) : NulFree g := by
  rintro c hc rfl
  exact absurd (h.2 0 hc).1 (by decide)

theorem PlainId.nulFree (h : PlainId u) : NulFree u := fun c hc => (h c hc).1

theorem PlainId.star_not_mem (h : PlainId u) : 42 ∉ u := fun hc => (h 42 hc).2.2 rfl

theorem cstr_unreadNumber_eq (hu : PlainId u) (hg : Decimal g) :
    cstr (unreadNumber u g) = unreadNumber u g :=
  cstr_eq_self (.append (.append (.append (by decide) hu.nulFree) (by decide)) hg.nulFree)

/-- **Each user and group** have a counter of their own. -/
theorem unreadNumber_inj (hu : PlainId u) (hg : Decimal g) :
    unreadNumber u g = unreadNumber u' g' ↔ u = u' ∧ g = g' := by
  have hcolon : (58 : UInt8) ∉ u := fun hc => (hu 58 hc).2.1 rfl
  have hcolon' : (58 : UInt8) ∉ g := fun hc => absurd (hg.2 58 hc).2 (by decide)
  rw [unreadNumber, unreadNumber, List.append_assoc, List.append_assoc, List.append_assoc,
    List.append_assoc, List.append_right_inj]
  refine (List.append_cons_inj_of_notMem hcolon hcolon').trans ?_
  exact ⟨fun h => ⟨h.1, h.2.2⟩, fun h => ⟨h.1, rfl, h.2⟩⟩

end Ids

/-! ## Counting and resetting -/

section Counting

variable {ks ks' : Keyspace} {r : Redis} {k u g : Bytes}

/-- What counting makes of a key depends on the key. -/
theorem incr_congr (h : ks k = ks' k) : (ks.incr k).2 k = (ks'.incr k).2 k := by
  have hnext : ∀ n : ℤ, (if n + 1 < 2 ^ 63 then
        (Reply.integer (n + 1), Function.update ks k (some (.str (itoa (n + 1))))) else (.error, ks)).2 k =
      (if n + 1 < 2 ^ 63 then
        (Reply.integer (n + 1), Function.update ks' k (some (.str (itoa (n + 1))))) else (.error, ks')).2 k := by
    intro n
    split
    · simp only [Function.update_self]
    · exact h
  unfold Keyspace.incr
  rw [← h]
  dsimp only
  split
  · exact hnext 0
  · split
    · exact hnext _
    · exact h
  · exact h

/-- **A counter is incremented** up to the largest number there is. -/
theorem count_incr (h : IsCounter ks k) : count (ks.incr k).2 k = min (count ks k + 1) (2 ^ 63 - 1) := by
  have hnext : ∀ n : ℕ, n < 2 ^ 63 → count ks k = n →
      count (if (n : ℤ) + 1 < 2 ^ 63 then
        (Reply.integer (n + 1), Function.update ks k (some (.str (itoa (n + 1))))) else (.error, ks)).2 k =
      min (count ks k + 1) (2 ^ 63 - 1) := by
    intro n hn hcount
    rw [hcount]
    split
    · next hlt =>
      have htext : Function.update ks k (some (.str (itoa ((n : ℤ) + 1)))) k =
          some (.str (itoa ((n + 1 : ℕ) : ℤ))) := Function.update_self ..
      rw [count_of_itoa htext]
      omega
    · rw [hcount]
      omega
  rcases h with hnone | ⟨n, hn, hsome⟩
  · rw [Keyspace.incr, hnone]
    exact hnext 0 (by omega) (count_of_none hnone)
  · simp only [Keyspace.incr, hsome, Keyspace.integer_itoa hn]
    exact hnext n hn (count_of_itoa hsome)

/-- **Counting for some members**: the counter of each is incremented once. -/
theorem foldl_incr_apply {us : List Bytes} (hnodup : us.Nodup) (hus : ∀ v ∈ us, PlainId v)
    {g g' : Bytes} (hg : Decimal g) (hu : PlainId u) (hg' : Decimal g') :
    (us.foldl (fun r v => CRedis.incr r (unreadNumber v g)) r).keys (unreadNumber u g') =
      if g' = g ∧ u ∈ us then (r.keys.incr (unreadNumber u g')).2 (unreadNumber u g')
      else r.keys (unreadNumber u g') := by
  induction us generalizing r with
  | nil => simp
  | cons v us ih =>
    obtain ⟨hv, hnodup⟩ := List.nodup_cons.1 hnodup
    have hkey : cstr (unreadNumber v g) = unreadNumber v g :=
      cstr_unreadNumber_eq (hus v List.mem_cons_self) hg
    have ih' := ih (r := CRedis.incr r (unreadNumber v g)) hnodup
      fun w hw => hus w (List.mem_cons_of_mem _ hw)
    rw [List.foldl_cons, ih']
    by_cases hsame : unreadNumber u g' = unreadNumber v g
    · obtain ⟨rfl, rfl⟩ := (unreadNumber_inj hu hg').1 hsame
      rw [if_neg fun h => hv h.2, if_pos ⟨rfl, List.mem_cons_self⟩, CRedis.incr, hkey]
    · have hkeep : (CRedis.incr r (unreadNumber v g)).keys (unreadNumber u g') =
          r.keys (unreadNumber u g') := by
        apply Keyspace.incr_of_ne
        rwa [hkey]
      rw [incr_congr hkeep, hkeep]
      refine if_congr (and_congr_right fun hgg => ?_) rfl rfl
      rw [List.mem_cons, or_iff_right]
      rintro rfl
      exact hsame (hgg ▸ rfl)

/-- **What the third loop sets to zero.** -/
theorem resetNumbers_apply (l : List (Bytes × Bytes)) :
    (resetNumbers r u l).keys k =
      if ∃ e ∈ l, e.2 ≠ ascii "0" ∧ k = cstr (unreadNumber u e.1) then some (.str (ascii "0"))
      else r.keys k := by
  unfold resetNumbers
  induction l generalizing r with
  | nil => simp
  | cons e l ih =>
    rw [List.foldl_cons, ih]
    by_cases hl : ∃ e ∈ l, e.2 ≠ ascii "0" ∧ k = cstr (unreadNumber u e.1)
    · obtain ⟨e', he', h⟩ := hl
      rw [if_pos ⟨e', he', h⟩, if_pos ⟨e', List.mem_cons_of_mem _ he', h⟩]
    · rw [if_neg hl]
      by_cases he : e.2 ≠ ascii "0" ∧ k = cstr (unreadNumber u e.1)
      · have hex : ∃ e' ∈ e :: l, e'.2 ≠ ascii "0" ∧ k = cstr (unreadNumber u e'.1) :=
          ⟨e, List.mem_cons_self, he⟩
        rw [if_pos he.1, if_pos hex, he.2, CRedis.keys_set_self]
        rfl
      · have hnot : ¬∃ e' ∈ e :: l, e'.2 ≠ ascii "0" ∧ k = cstr (unreadNumber u e'.1) := by
          rintro ⟨e', he', h⟩
          rcases List.mem_cons.1 he' with rfl | hmem
          · exact he h
          · exact hl ⟨e', hmem, h⟩
        rw [if_neg hnot]
        by_cases hzero : e.2 ≠ ascii "0"
        · rw [if_pos hzero]
          exact CRedis.keys_set_of_ne (fun hk => he ⟨hzero, hk⟩) _
        · rw [if_neg hzero]

end Counting

/-! ## The handlers -/

section Handlers

variable {order : Keyspace.NumericOrder} {r : Redis} {ptrMsg : MsgData} {u g k : Bytes}

/-- **Whom a message is counted for.** -/
theorem sdiff_pushGroupMsg (h : Enrolled r.keys)
    (honline : ∀ g, r.keys.SetOrNone (ascii "onlineGroup:" ++ g)) (hto : Decimal ptrMsg.toId) :
    CRedis.sdiff (pushGroupMsg r ptrMsg) (ascii "groupMember:" ++ ptrMsg.toId)
        (ascii "onlineGroup:" ++ ptrMsg.toId) =
      (r.keys.members (ascii "groupMember:" ++ ptrMsg.toId)).filter
        (· ∉ r.keys.members (ascii "onlineGroup:" ++ ptrMsg.toId)) := by
  have hmember : cstr (ascii "groupMember:" ++ ptrMsg.toId) = ascii "groupMember:" ++ ptrMsg.toId :=
    cstr_eq_self (.append (by decide) hto.nulFree)
  have honlineKey : cstr (ascii "onlineGroup:" ++ ptrMsg.toId) = ascii "onlineGroup:" ++ ptrMsg.toId :=
    cstr_eq_self (.append (by decide) hto.nulFree)
  have hkeepMember : (pushGroupMsg r ptrMsg).keys (ascii "groupMember:" ++ ptrMsg.toId) =
      r.keys (ascii "groupMember:" ++ ptrMsg.toId) := by
    apply pushGroupMsg_of_ne
    rw [cstr_groupMsg]
    simp [ascii]
  have hkeepOnline : (pushGroupMsg r ptrMsg).keys (ascii "onlineGroup:" ++ ptrMsg.toId) =
      r.keys (ascii "onlineGroup:" ++ ptrMsg.toId) := by
    apply pushGroupMsg_of_ne
    rw [cstr_groupMsg]
    simp [ascii]
  have hset : (pushGroupMsg r ptrMsg).keys.SetOrNone (cstr (ascii "groupMember:" ++ ptrMsg.toId)) := by
    rw [hmember]
    exact (h.members _).congr hkeepMember
  have hset' : (pushGroupMsg r ptrMsg).keys.SetOrNone (cstr (ascii "onlineGroup:" ++ ptrMsg.toId)) := by
    rw [honlineKey]
    exact (honline _).congr hkeepOnline
  rw [CRedis.sdiff_eq hset hset', hmember, honlineKey,
    Keyspace.members_congr hkeepMember, Keyspace.members_congr hkeepOnline]
  refine (List.map_congr_left fun u hu => ?_).trans (List.map_id _)
  exact cstr_eq_self (h.plain u _ (List.mem_of_mem_filter hu)).nulFree

/-- **A message** is counted for the members that are away. -/
theorem counter_doOfflineGroupMsg (h : Enrolled r.keys)
    (honline : ∀ g, r.keys.SetOrNone (ascii "onlineGroup:" ++ g)) (hto : Decimal ptrMsg.toId)
    (hu : PlainId u) (hg : Decimal g) :
    (doOfflineGroupMsg r ptrMsg).keys (unreadNumber u g) =
      if g = ptrMsg.toId ∧ Away r u g then (r.keys.incr (unreadNumber u g)).2 (unreadNumber u g)
      else r.keys (unreadNumber u g) := by
  have hpush : (pushGroupMsg r ptrMsg).keys (unreadNumber u g) = r.keys (unreadNumber u g) := by
    apply pushGroupMsg_of_ne
    rw [cstr_groupMsg, unreadNumber, List.append_assoc, List.append_assoc]
    exact unreadNumber_ne_groupMsg _ _
  unfold doOfflineGroupMsg
  dsimp only
  rw [sdiff_pushGroupMsg h honline hto, foldl_incr_apply ((Keyspace.nodup_members ..).filter _)
    (fun v hv => h.plain v _ (List.mem_of_mem_filter hv)) hto hu hg, incr_congr hpush, hpush]
  refine if_congr (and_congr_right fun hgg => ?_) rfl rfl
  subst hgg
  simp only [List.mem_filter, decide_eq_true_iff]
  rfl

theorem doOfflineGroupMsg_of_ne (hlist : ∀ x, k ≠ ascii "groupMsg:" ++ x)
    (hcounter : ∀ x, k ≠ ascii "unreadNumber:" ++ x) :
    (doOfflineGroupMsg r ptrMsg).keys k = r.keys k := by
  refine (foldl_incr_of_ne hcounter _ _).trans (pushGroupMsg_of_ne ?_)
  rw [cstr_groupMsg]
  exact hlist _

/-- The groups that a request finds. -/
theorem numberData_enrolled (h : Enrolled r.keys) (horder : SortsDecimals order) (hu : PlainId u) :
    ∃ gs : List Bytes, gs.Perm (r.keys.members (ascii "groupSet:" ++ u)) ∧
      numberData order r u = gs.map fun g => (g, CRedis.textOf (r.keys (unreadNumber u g))) := by
  have hkey : cstr (ascii "groupSet:" ++ u) = ascii "groupSet:" ++ u :=
    cstr_eq_self (.append (by decide) hu.nulFree)
  have hsortable : r.keys.sortable (ascii "groupSet:" ++ u) =
      some (r.keys.members (ascii "groupSet:" ++ u)) := by
    unfold Keyspace.sortable Keyspace.members
    rcases hv : r.keys (ascii "groupSet:" ++ u) with _ | v
    · rfl
    · obtain ⟨s, rfl⟩ := h.groups u v hv
      rfl
  obtain ⟨gs, hgs⟩ := Option.isSome_iff_exists.1 (horder _ (h.decimal u))
  refine ⟨gs, order.perm hgs, ?_⟩
  rw [numberData_eq hu.star_not_mem, hkey, hsortable, Option.bind_some, hgs, Option.getD_some]
  simp only [hu.nulFree, if_true]

/-- **A request** sets the user's counters to zero, and leaves those of others. -/
theorem counter_resetNumbers (h : Enrolled r.keys) (horder : SortsDecimals order) {v : Bytes}
    (hv : PlainId v) (hu : PlainId u) (hg : Decimal g) :
    (resetNumbers r v (numberData order r v)).keys (unreadNumber u g) =
      if u = v ∧ g ∈ r.keys.members (ascii "groupSet:" ++ u) then some (.str (ascii "0"))
      else r.keys (unreadNumber u g) := by
  obtain ⟨gs, hperm, hdata⟩ := numberData_enrolled h horder hv
  have hex : (∃ e ∈ numberData order r v, e.2 ≠ ascii "0" ∧
      unreadNumber u g = cstr (unreadNumber v e.1)) ↔
      (u = v ∧ g ∈ r.keys.members (ascii "groupSet:" ++ u)) ∧
        CRedis.textOf (r.keys (unreadNumber u g)) ≠ ascii "0" := by
    rw [hdata]
    constructor
    · rintro ⟨e, he, htext, hkey⟩
      obtain ⟨g', hg', rfl⟩ := List.mem_map.1 he
      have hmem := hperm.mem_iff.1 hg'
      rw [cstr_unreadNumber_eq hv (h.decimal v g' hmem)] at hkey
      obtain ⟨rfl, rfl⟩ := (unreadNumber_inj hu hg).1 hkey
      exact ⟨⟨rfl, hmem⟩, htext⟩
    · rintro ⟨⟨rfl, hmem⟩, htext⟩
      exact ⟨_, List.mem_map.2 ⟨g, hperm.mem_iff.2 hmem, rfl⟩, htext, (cstr_unreadNumber_eq hu hg).symm⟩
  rw [resetNumbers_apply]
  by_cases hmine : u = v ∧ g ∈ r.keys.members (ascii "groupSet:" ++ u)
  · rw [if_pos hmine]
    split
    · rfl
    · next hnot =>
      -- a counter at zero is left at zero
      have htext : CRedis.textOf (r.keys (unreadNumber u g)) = ascii "0" := by
        by_contra hne
        exact hnot (hex.2 ⟨hmine, hne⟩)
      unfold CRedis.textOf at htext
      split at htext
      · next s hs => rw [hs, htext]
      · cases htext
  · rw [if_neg hmine, if_neg fun hall => hmine (hex.1 hall).1]

/-- **The handler of a request**: the same, and only these counters. -/
theorem counter_onUnreadMsgRequest {sv : Server} {conn : ℕ} {ptrRequest : UnreadMsgRequest}
    {nowtime : UInt64} (h : Enrolled r.keys) (horder : SortsDecimals order)
    (hv : PlainId ptrRequest.userId) (hu : PlainId u) (hg : Decimal g) :
    (onUnreadMsgRequest order sv r conn ptrRequest nowtime).2.keys (unreadNumber u g) =
      if u = ptrRequest.userId ∧ g ∈ r.keys.members (ascii "groupSet:" ++ u) then some (.str (ascii "0"))
      else r.keys (unreadNumber u g) := by
  have hdel : ∀ k, (∀ x, k ≠ ascii "unreadMsg:" ++ x) →
      (CRedis.del r (ascii "unreadMsg:" ++ ptrRequest.userId)).keys k = r.keys k := by
    intro k hk
    apply CRedis.keys_del_of_ne
    rw [cstr_unreadMsg]
    exact hk _
  have hcounter := hdel (unreadNumber u g) fun x => by simp [unreadNumber, ascii]
  have hset := hdel (ascii "groupSet:" ++ u) fun x => by simp [ascii]
  have hdeleted : Enrolled (CRedis.del r (ascii "unreadMsg:" ++ ptrRequest.userId)).keys :=
    h.congr (fun g => hdel _ fun x => by simp [ascii]) fun u => hdel _ fun x => by simp [ascii]
  rw [onUnreadMsgRequest_eq]
  dsimp only
  rw [counter_resetNumbers hdeleted horder hv hu hg, hcounter, Keyspace.members_congr hset]

theorem onUnreadMsgRequest_of_ne {sv : Server} {conn : ℕ} {ptrRequest : UnreadMsgRequest}
    {nowtime : UInt64} (hlist : ∀ x, k ≠ ascii "unreadMsg:" ++ x)
    (hcounter : ∀ x, k ≠ ascii "unreadNumber:" ++ x) :
    (onUnreadMsgRequest order sv r conn ptrRequest nowtime).2.keys k = r.keys k := by
  rw [onUnreadMsgRequest_eq]
  refine (foldl_set_of_ne hcounter _ _).trans (CRedis.keys_del_of_ne ?_)
  rw [cstr_unreadMsg]
  exact hlist _

end Handlers

/-! ## The tally -/

/-- Message servers on one Redis server, and what each user has missed of each group since its last
request. -/
structure Tally (ι : Type*) where
  servers : ι → Server
  redis : Redis
  missed : Bytes → Bytes → ℕ

namespace Tally

variable {ι : Type*}

/-- What happens: a server handles a message of a group or a request for unread messages, the online
set of a group becomes another one, or goes. -/
inductive Event (ι : Type*)
  | groupMsg (i : ι) (ptrMsg : MsgData)
  | unreadMsgRequest (i : ι) (conn : ℕ) (ptrRequest : UnreadMsgRequest) (nowtime : UInt64)
  | onlineGroup (g : Bytes) (s : Option Members)

section Step

variable [DecidableEq ι] (L : Layout Bytes Bytes) (order : Keyspace.NumericOrder) (t : Tally ι)

def step : Event ι → Option (Tally ι)
  | .groupMsg i ptrMsg =>
    let out := doOnlineGroupMsg L (t.servers i) t.redis ptrMsg
    some
      { servers := Function.update t.servers i out.1
        redis := doOfflineGroupMsg out.2 ptrMsg
        missed := fun u g =>
          if g = ptrMsg.toId ∧ Away t.redis u g then t.missed u g + 1 else t.missed u g }
  | .unreadMsgRequest i conn ptrRequest nowtime =>
    let out := onUnreadMsgRequest order (t.servers i) t.redis conn ptrRequest nowtime
    some
      { servers := Function.update t.servers i out.1
        redis := out.2
        missed := fun u g => if u = ptrRequest.userId then 0 else t.missed u g }
  | .onlineGroup g s => some { t with redis := { t.redis with
      keys := Function.update t.redis.keys (ascii "onlineGroup:" ++ g) (s.map Value.set) } }

/-- The ids of groups are decimals, and those of users have no zero byte, colon or star. -/
def Plain : Event ι → Prop
  | .groupMsg _ ptrMsg => Decimal ptrMsg.toId
  | .unreadMsgRequest _ _ ptrRequest _ => PlainId ptrRequest.userId
  | .onlineGroup g _ => Decimal g

instance : (e : Event ι) → Decidable (Plain e)
  | .groupMsg _ ptrMsg => inferInstanceAs (Decidable (Decimal ptrMsg.toId))
  | .unreadMsgRequest _ _ ptrRequest _ => inferInstanceAs (Decidable (PlainId ptrRequest.userId))
  | .onlineGroup g _ => inferInstanceAs (Decidable (Decimal g))

/-- The event is to change the counter of the user and the group. -/
def Concerns (u g : Bytes) : Event ι → Prop
  | .groupMsg _ ptrMsg => g = ptrMsg.toId ∧ Away t.redis u g
  | .unreadMsgRequest _ _ ptrRequest _ =>
    u = ptrRequest.userId ∧ g ∈ t.redis.keys.members (ascii "groupSet:" ++ u)
  | .onlineGroup _ _ => False

/-- The counters that are not to change do not. -/
def Confined (e : Event ι) : Prop :=
  ∀ t', t.step L order e = some t' → ∀ u g, PlainId u → Decimal g → ¬t.Concerns u g e →
    t'.redis.keys (unreadNumber u g) = t.redis.keys (unreadNumber u g)

/-- Nothing is counted. -/
def start (servers : ι → Server) (r : Redis) : Tally ι := ⟨servers, r, fun _ _ => 0⟩

/-- The counters are what the users have missed, up to the largest number Redis counts to. -/
def Counts : Prop :=
  ∀ u g, PlainId u → Decimal g →
    count t.redis.keys (unreadNumber u g) = min (t.missed u g) (2 ^ 63 - 1)

end Step

/-- The groups are as they were, the counters are counters, and count; who is no member has missed
nothing. -/
structure Inv (t : Tally ι) : Prop where
  enrolled : Enrolled t.redis.keys
  online : ∀ g, t.redis.keys.SetOrNone (ascii "onlineGroup:" ++ g)
  counter : ∀ x, IsCounter t.redis.keys (ascii "unreadNumber:" ++ x)
  counts : t.Counts
  members : ∀ u g, u ∉ t.redis.keys.members (ascii "groupMember:" ++ g) → t.missed u g = 0

variable {t t' : Tally ι}

/-- A step that keeps the groups. -/
theorem Inv.of_keys (h : t.Inv)
    (hkeep : ∀ k, (∀ x, k ≠ ascii "groupMsg:" ++ x) → (∀ x, k ≠ ascii "unreadMsg:" ++ x) →
      (∀ x, k ≠ ascii "unreadNumber:" ++ x) → (∀ x, k ≠ ascii "onlineGroup:" ++ x) →
        t'.redis.keys k = t.redis.keys k)
    (honline : ∀ g, t'.redis.keys.SetOrNone (ascii "onlineGroup:" ++ g))
    (hcounter : ∀ x, IsCounter t'.redis.keys (ascii "unreadNumber:" ++ x)) (hcounts : t'.Counts)
    (hmissed : ∀ u g, u ∉ t.redis.keys.members (ascii "groupMember:" ++ g) → t.missed u g = 0 →
      t'.missed u g = 0) : t'.Inv := by
  have hmember : ∀ g, t'.redis.keys (ascii "groupMember:" ++ g) =
      t.redis.keys (ascii "groupMember:" ++ g) := by
    intro g
    apply hkeep <;> simp [ascii]
  have hset : ∀ u, t'.redis.keys (ascii "groupSet:" ++ u) = t.redis.keys (ascii "groupSet:" ++ u) := by
    intro u
    apply hkeep <;> simp [ascii]
  refine ⟨h.enrolled.congr hmember hset, honline, hcounter, hcounts, fun u g hu => ?_⟩
  rw [Keyspace.members_congr (hmember g)] at hu
  exact hmissed u g hu (h.members u g hu)

theorem Inv.isCounter_unreadNumber (h : t.Inv) (u g : Bytes) :
    IsCounter t.redis.keys (unreadNumber u g) := by
  rw [unreadNumber, List.append_assoc, List.append_assoc]
  exact h.counter _

theorem inv_start {servers : ι → Server} {r : Redis} (henrolled : Enrolled r.keys)
    (honline : ∀ g, r.keys.SetOrNone (ascii "onlineGroup:" ++ g))
    (hcounter : ∀ x, r.keys (ascii "unreadNumber:" ++ x) = none) : (start servers r).Inv := by
  refine ⟨henrolled, honline, fun x => .inl (hcounter x), fun u g _ _ => ?_, fun _ _ _ => rfl⟩
  have hnone : r.keys (unreadNumber u g) = none := by
    rw [unreadNumber, List.append_assoc, List.append_assoc]
    exact hcounter _
  exact count_of_none hnone

variable [DecidableEq ι] {L : Layout Bytes Bytes} {order : Keyspace.NumericOrder}

/-- **The counters after a step.** -/
theorem counter_step (h : t.Inv) (horder : SortsDecimals order) {e : Event ι} (he : Plain e)
    (hstep : t.step L order e = some t') {u g : Bytes} (hu : PlainId u) (hg : Decimal g) :
    t'.redis.keys (unreadNumber u g) =
      match e with
      | .groupMsg _ ptrMsg =>
        if g = ptrMsg.toId ∧ Away t.redis u g then
          (t.redis.keys.incr (unreadNumber u g)).2 (unreadNumber u g)
        else t.redis.keys (unreadNumber u g)
      | .unreadMsgRequest _ _ ptrRequest _ =>
        if u = ptrRequest.userId ∧ g ∈ t.redis.keys.members (ascii "groupSet:" ++ u) then
          some (.str (ascii "0"))
        else t.redis.keys (unreadNumber u g)
      | .onlineGroup _ _ => t.redis.keys (unreadNumber u g) := by
  cases e with
  | groupMsg i ptrMsg =>
    obtain rfl := Option.some.inj hstep
    dsimp only
    rw [doOnlineGroupMsg_snd]
    exact counter_doOfflineGroupMsg h.enrolled h.online he hu hg
  | unreadMsgRequest i conn ptrRequest nowtime =>
    obtain rfl := Option.some.inj hstep
    exact counter_onUnreadMsgRequest h.enrolled horder he hu hg
  | onlineGroup g' s =>
    obtain rfl := Option.some.inj hstep
    have hne : unreadNumber u g ≠ ascii "onlineGroup:" ++ g' := by simp [unreadNumber, ascii]
    exact Function.update_of_ne hne (s.map Value.set) _

/-- **A step leaves the counters** it does not concern. -/
theorem Inv.confined (h : t.Inv) (horder : SortsDecimals order) {e : Event ι} (he : Plain e) :
    t.Confined L order e := by
  intro t' hstep u g hu hg hconcerns
  rw [counter_step h horder he hstep hu hg]
  cases e with
  | groupMsg i ptrMsg => exact if_neg hconcerns
  | unreadMsgRequest i conn ptrRequest nowtime => exact if_neg hconcerns
  | onlineGroup g' s => rfl

/-- **A step counts** what the tally does. -/
theorem Inv.counts_step (h : t.Inv) (horder : SortsDecimals order) {e : Event ι} (he : Plain e)
    (hstep : t.step L order e = some t') : t'.Counts := by
  intro u g hu hg
  have hcount := h.counts u g hu hg
  have hkey := counter_step h horder he hstep hu hg
  cases e with
  | groupMsg i ptrMsg =>
    obtain rfl := Option.some.inj hstep
    dsimp only at hkey ⊢
    by_cases haway : g = ptrMsg.toId ∧ Away t.redis u g
    · rw [if_pos haway] at hkey ⊢
      have hincr := count_incr (h.isCounter_unreadNumber u g)
      rw [count] at hincr ⊢
      rw [hkey, hincr, hcount]
      omega
    · rw [if_neg haway] at hkey ⊢
      rw [count, hkey, ← count, hcount]
  | unreadMsgRequest i conn ptrRequest nowtime =>
    obtain rfl := Option.some.inj hstep
    dsimp only at hkey ⊢
    by_cases huser : u = ptrRequest.userId
    · rw [if_pos huser, count, hkey]
      by_cases hgroup : g ∈ t.redis.keys.members (ascii "groupSet:" ++ u)
      · rw [if_pos ⟨huser, hgroup⟩]
        rfl
      · -- the counter of a group the user is not in is zero
        rw [if_neg fun hall => hgroup hall.2, ← count, hcount,
          h.members u g fun hmem => hgroup ((h.enrolled.mem_iff u g).1 hmem)]
    · rw [if_neg huser, count, hkey, if_neg fun hall => huser hall.1, ← count, hcount]
  | onlineGroup g' s =>
    obtain rfl := Option.some.inj hstep
    rw [count, hkey, ← count, hcount]

/-- **Every step keeps the invariant.** -/
theorem Inv.step (h : t.Inv) (horder : SortsDecimals order) {e : Event ι} (he : Plain e)
    (hstep : t.step L order e = some t') : t'.Inv := by
  have hcounts := h.counts_step horder he hstep
  cases e with
  | groupMsg i ptrMsg =>
    obtain rfl := Option.some.inj hstep
    have hkeys : (doOnlineGroupMsg L (t.servers i) t.redis ptrMsg).2.keys = t.redis.keys := by
      rw [doOnlineGroupMsg_snd]
    refine h.of_keys (fun k hlist _ hcounter _ => ?_) (fun g => ?_) (fun x => ?_) hcounts
      fun u g hu hmissed => ?_
    · rw [doOfflineGroupMsg_of_ne hlist hcounter, hkeys]
    · refine (h.online g).congr ?_
      rw [doOfflineGroupMsg_of_ne (by simp [ascii]) (by simp [ascii]), hkeys]
    · refine IsCounter.foldl_incr ((h.counter x).congr ?_) _ _
      rw [pushGroupMsg_of_ne, hkeys]
      rw [cstr_groupMsg]
      exact unreadNumber_ne_groupMsg x _
    · dsimp only
      rw [if_neg fun hall => hu hall.2.1, hmissed]
  | unreadMsgRequest i conn ptrRequest nowtime =>
    obtain rfl := Option.some.inj hstep
    refine h.of_keys (fun k _ hlist hcounter _ => onUnreadMsgRequest_of_ne hlist hcounter) (fun g => ?_)
      (fun x => ?_) hcounts fun u g _ hmissed => ?_
    · refine (h.online g).congr (onUnreadMsgRequest_of_ne ?_ ?_) <;> simp [ascii]
    · dsimp only
      rw [onUnreadMsgRequest_eq]
      refine IsCounter.resetNumbers ((h.counter x).congr (CRedis.keys_del_of_ne ?_)) _ _
      rw [cstr_unreadMsg]
      simp [ascii]
    · dsimp only
      rw [hmissed, ite_self]
  | onlineGroup g s =>
    obtain rfl := Option.some.inj hstep
    refine h.of_keys (fun k _ _ _ honline => Function.update_of_ne (honline g) ..) (fun g' => ?_)
      (fun x => ?_) hcounts fun _ _ _ hmissed => hmissed
    · by_cases hg : g' = g
      · subst hg
        intro v hv
        dsimp only at hv
        rw [Function.update_self] at hv
        obtain ⟨s', -, rfl⟩ := Option.map_eq_some_iff.1 hv
        exact ⟨s', rfl⟩
      · refine (h.online g').congr (Function.update_of_ne ?_ ..)
        exact fun heq => hg (List.append_cancel_left heq)
    · have hne : ascii "unreadNumber:" ++ x ≠ ascii "onlineGroup:" ++ g := by simp [ascii]
      exact (h.counter x).congr (Function.update_of_ne hne (s.map Value.set) _)

/-- **What the counters count**: in every run, the counter of a user and a group is the number of
messages the user has missed of the group since its last request, up to the largest number Redis counts
to; and no step changes a counter that it does not concern. -/
theorem counts_of_run {servers : ι → Server} {r : Redis} {es : List (Event ι)}
    (horder : SortsDecimals order) (henrolled : Enrolled r.keys)
    (honline : ∀ g, r.keys.SetOrNone (ascii "onlineGroup:" ++ g))
    (hcounter : ∀ x, r.keys (ascii "unreadNumber:" ++ x) = none)
    (hrun : Run (step L order) (fun _ e => Plain e) (start servers r) es t) :
    t.Counts ∧ Run (step L order) (fun t e => t.Confined L order e) (start servers r) es t := by
  have hstart : (start servers r).Inv := inv_start henrolled honline hcounter
  exact ⟨(hrun.invariant (I := Inv) (fun _ _ _ h he hstep => h.step horder he hstep) hstart).counts,
    hrun.mono_of_invariant (I := Inv) (fun _ _ _ h he hstep => h.step horder he hstep)
      (fun _ _ h he => h.confined horder he) hstart⟩

/-! ## Where counting stops -/

/-- The message of a group that a user misses any number of times. -/
theorem exists_run_replicate (h : t.Inv) (horder : SortsDecimals order) (i : ι) {ptrMsg : MsgData}
    (hto : Decimal ptrMsg.toId) {u : Bytes} (haway : Away t.redis u ptrMsg.toId) (n : ℕ) :
    ∃ t', Run (step L order) (fun _ e => Plain e) t (List.replicate n (.groupMsg i ptrMsg)) t' ∧
      t'.Inv ∧ t'.missed u ptrMsg.toId = t.missed u ptrMsg.toId + n := by
  induction n generalizing t with
  | zero => exact ⟨t, .nil t, h, rfl⟩
  | succ n ih =>
    have he : Plain (Event.groupMsg i ptrMsg) := hto
    obtain ⟨t₁, hstep⟩ : ∃ t₁, t.step L order (.groupMsg i ptrMsg) = some t₁ := ⟨_, rfl⟩
    have hkeep : ∀ k, (∀ x, k ≠ ascii "groupMsg:" ++ x) → (∀ x, k ≠ ascii "unreadNumber:" ++ x) →
        t₁.redis.keys k = t.redis.keys k := by
      obtain rfl := Option.some.inj hstep
      intro k hlist hcounter
      refine (doOfflineGroupMsg_of_ne hlist hcounter).trans ?_
      rw [doOnlineGroupMsg_snd]
    have hmissed : t₁.missed u ptrMsg.toId = t.missed u ptrMsg.toId + 1 := by
      obtain rfl := Option.some.inj hstep
      exact if_pos ⟨rfl, haway⟩
    have haway₁ : Away t₁.redis u ptrMsg.toId := by
      rw [Away, Keyspace.members_congr (hkeep _ (by simp [ascii]) (by simp [ascii])),
        Keyspace.members_congr (hkeep _ (by simp [ascii]) (by simp [ascii]))]
      exact haway
    obtain ⟨t', hrun, hinv, hcount⟩ := ih (h.step horder he hstep) haway₁
    exact ⟨t', .cons he hstep hrun, hinv, by omega⟩

theorem sortsDecimals_decimalOrder : SortsDecimals GroupLog.decimalOrder := by
  intro l hl
  have hall : ∀ m ∈ l, m ≠ [] ∧ (m.all fun c => 48 ≤ c ∧ c ≤ 57) = true := by
    intro m hm
    refine ⟨(hl m hm).1, List.all_eq_true.2 fun c hc => decide_eq_true ((hl m hm).2 c hc)⟩
  rw [GroupLog.decimalOrder]
  dsimp only
  rw [if_pos hall]
  rfl

theorem quiet_groupMember (g : Bytes) : GroupLog.quiet.redis.keys (ascii "groupMember:" ++ g) =
    if g = ascii "7" then some (.set (.singleton (ascii "u"))) else none := by
  have hset : ascii "groupMember:" ++ g ≠ ascii "groupSet:u" := by simp [ascii]
  have hmember : ascii "groupMember:" ++ g = ascii "groupMember:7" ↔ g = ascii "7" :=
    List.append_right_inj (ascii "groupMember:")
  simp only [GroupLog.quiet, if_neg hset, hmember]

theorem quiet_groupSet (u : Bytes) : GroupLog.quiet.redis.keys (ascii "groupSet:" ++ u) =
    if u = ascii "u" then some (.set (.singleton (ascii "7"))) else none := by
  have hmember : ascii "groupSet:" ++ u ≠ ascii "groupMember:7" := by simp [ascii]
  have hset : ascii "groupSet:" ++ u = ascii "groupSet:u" ↔ u = ascii "u" :=
    List.append_right_inj (ascii "groupSet:")
  simp only [GroupLog.quiet, if_neg hmember, hset]

/-- `u` is a member of the group `7`. -/
theorem enrolled_quiet : Enrolled GroupLog.quiet.redis.keys := by
  have hmember : ∀ u g, u ∈ GroupLog.quiet.redis.keys.members (ascii "groupMember:" ++ g) ↔
      u = ascii "u" ∧ g = ascii "7" := by
    intro u g
    rw [Keyspace.members, quiet_groupMember]
    by_cases hg : g = ascii "7" <;> simp [hg, Members.singleton]
  have hset : ∀ u g, g ∈ GroupLog.quiet.redis.keys.members (ascii "groupSet:" ++ u) ↔
      u = ascii "u" ∧ g = ascii "7" := by
    intro u g
    rw [Keyspace.members, quiet_groupSet]
    by_cases hu : u = ascii "u" <;> simp [hu, Members.singleton]
  constructor
  case members =>
    intro g v hv
    rw [quiet_groupMember] at hv
    split at hv
    · exact ⟨_, (Option.some.inj hv).symm⟩
    · cases hv
  case groups =>
    intro u v hv
    rw [quiet_groupSet] at hv
    split at hv
    · exact ⟨_, (Option.some.inj hv).symm⟩
    · cases hv
  case mem_iff => exact fun u g => (hmember u g).trans (hset u g).symm
  case plain =>
    intro u g hu
    obtain ⟨rfl, -⟩ := (hmember u g).1 hu
    decide
  case decimal =>
    intro u g hg
    obtain ⟨-, rfl⟩ := (hset u g).1 hg
    decide

theorem quiet_of_ne {k : Bytes} (hset : k ≠ ascii "groupSet:u") (hmember : k ≠ ascii "groupMember:7") :
    GroupLog.quiet.redis.keys k = none := by
  simp only [GroupLog.quiet, if_neg hset, if_neg hmember]

theorem quiet_online (g : Bytes) : GroupLog.quiet.redis.keys (ascii "onlineGroup:" ++ g) = none :=
  quiet_of_ne (by simp [ascii]) (by simp [ascii])

theorem quiet_counter (x : Bytes) : GroupLog.quiet.redis.keys (ascii "unreadNumber:" ++ x) = none :=
  quiet_of_ne (by simp [ascii]) (by simp [ascii])

theorem quiet_onlineSet (g : Bytes) :
    GroupLog.quiet.redis.keys.SetOrNone (ascii "onlineGroup:" ++ g) := by
  intro v hv
  rw [quiet_online] at hv
  cases hv

/-- A server without connections. -/
def idle : Tally Unit := start (fun _ => .start (ascii "h:1")) GroupLog.quiet.redis

/-- `u` misses the second of two messages. -/
def missesOne : List (Event Unit) :=
  [.onlineGroup (ascii "7") (some (.singleton (ascii "u"))), .groupMsg () (GroupLog.toGroup "1"),
    .onlineGroup (ascii "7") none, .groupMsg () (GroupLog.toGroup "2")]

theorem counts_missesOne : ∃ t : Tally Unit,
    Run (step eightBuckets GroupLog.decimalOrder) (fun _ e => Plain e) idle missesOne t ∧
      t.missed (ascii "u") (ascii "7") = 1 ∧ t.Counts := by
  have hany : (exec (step eightBuckets GroupLog.decimalOrder) (fun _ e => Plain e) idle missesOne).any
      (fun t => t.missed (ascii "u") (ascii "7") = 1) = true := by decide +kernel
  obtain ⟨t, hrun, hmissed⟩ := Run.exists_of_exec hany
  exact ⟨t, hrun, hmissed, (counts_of_run sortsDecimals_decimalOrder enrolled_quiet quiet_onlineSet
    quiet_counter hrun).1⟩

/-- **The counter stops**: `u` has missed as many messages as there are numbers, and one less are
counted. -/
theorem counter_stops : ∃ (es : List (Event Unit)) (t : Tally Unit),
    Run (step eightBuckets GroupLog.decimalOrder) (fun _ e => Plain e) idle es t ∧
      t.missed (ascii "u") (ascii "7") = 2 ^ 63 ∧
      count t.redis.keys (unreadNumber (ascii "u") (ascii "7")) = 2 ^ 63 - 1 := by
  have hinv : idle.Inv :=
    inv_start enrolled_quiet quiet_onlineSet quiet_counter
  have haway : Away idle.redis (ascii "u") (ascii "7") := by decide +kernel
  obtain ⟨t, hrun, ht, hmissed⟩ := exists_run_replicate (L := eightBuckets) hinv
    sortsDecimals_decimalOrder () (by decide : Decimal (GroupLog.toGroup "1").toId) haway (2 ^ 63)
  have hmissed' : t.missed (ascii "u") (ascii "7") = 2 ^ 63 := hmissed.trans (Nat.zero_add _)
  refine ⟨_, t, hrun, hmissed', ?_⟩
  rw [ht.counts (ascii "u") (ascii "7") (by decide) (by decide), hmissed']
  rfl

end Tally

end MutexIM.Routing
