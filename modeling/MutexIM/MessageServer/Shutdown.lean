import MutexIM.MessageServer.Presence

/-!
# A shutdown

`stop_all` stops the sessions, and goes through the users of the map: each goes offline, and leaves the
online sets of the groups that `SMEMBERS` finds. The destructors of the server, of its `tcp_server` and of
the manager run it one after the other.

* `signOff_onlineGroup`, `signOffAll_onlineGroup`: the members of an online set after one user, and after
  all of them, have gone.
* `stopAll_cleans`: what is left after a shutdown, and after a second one.
-/

namespace MutexIM.MessageServer

open Bytes Codec

/-- A user of the map who is in the group goes. -/
def Leaves (c : ConnectionManager) (r : Redis) (g x : Bytes) : Prop :=
  x ∈ c.sessionMap ∧ g ∈ r.keys.members (ascii "groupSet:" ++ x)

instance (c : ConnectionManager) (r : Redis) (g x : Bytes) : Decidable (Leaves c r g x) :=
  inferInstanceAs (Decidable (_ ∧ _))

/-- What a shutdown leaves. A key that is not named here stays. -/
structure Cleaned (c : ConnectionManager) (r : Redis) (out : ConnectionManager × Redis) : Prop where
  sessionSet : out.1.sessionSet = ∅
  sessionMap : out.1.sessionMap = ∅
  online : ∀ u ∈ c.sessionMap, out.2.keys (ascii "online:" ++ u) = none
  onlineGroup : ∀ g, out.2.keys.members (ascii "onlineGroup:" ++ g) =
    (r.keys.members (ascii "onlineGroup:" ++ g)).filter fun x => ¬Leaves c r g x
  notSet : ∀ g, (∀ s, r.keys (ascii "onlineGroup:" ++ g) ≠ some (.set s)) →
    out.2.keys (ascii "onlineGroup:" ++ g) = r.keys (ascii "onlineGroup:" ++ g)
  others : ∀ k, (∀ u ∈ c.sessionMap, k ≠ ascii "online:" ++ u) →
    (∀ g x, Leaves c r g x → k ≠ ascii "onlineGroup:" ++ g) → out.2.keys k = r.keys k
  published : ∃ users : List Bytes, users.Perm c.sessionMap.keys ∧
    out.2.published = r.published ++ users.map fun u => (ascii "offline", u)
  again : out.1.stopAll out.2 = out

section SignOff

variable {r : Redis} {userId k g : Bytes} {users : List Bytes}

/-- What `stop_all` does in Redis for the users. -/
def signOffAll (r : Redis) (users : List Bytes) : Redis :=
  users.foldl (fun r userId => ConnectionManager.signOff r CRedis.smembers userId) r

theorem signOffAll_cons : signOffAll r (userId :: users) =
    signOffAll (ConnectionManager.signOff r CRedis.smembers userId) users := rfl

/-- **The online set of a group after a user has gone.** -/
theorem signOff_onlineGroup (hu : NulFree userId)
    (hg : ∀ g ∈ r.keys.members (ascii "groupSet:" ++ userId), NulFree g) (g : Bytes) :
    (ConnectionManager.signOff r CRedis.smembers userId).keys.members (ascii "onlineGroup:" ++ g) =
      (r.keys.members (ascii "onlineGroup:" ++ g)).filter fun x =>
        ¬(x = userId ∧ g ∈ r.keys.members (ascii "groupSet:" ++ userId)) := by
  have hdel : (CRedis.del r (ascii "online:" ++ userId)).keys (ascii "onlineGroup:" ++ g) =
      r.keys (ascii "onlineGroup:" ++ g) := by
    apply CRedis.keys_del_of_ne
    rw [cstr_online]
    exact (online_ne_onlineGroup _ _).symm
  refine (CRedis.members_foldl_srem _ _ _).trans ?_
  rw [Keyspace.members_congr hdel, smembers_del_groupSet, cstr_eq_self hu]
  refine List.filter_congr fun x _ => ?_
  have hgroup : (∃ g' ∈ r.keys.members (ascii "groupSet:" ++ userId),
      ascii "onlineGroup:" ++ g = cstr (ascii "onlineGroup:" ++ g')) ↔
        g ∈ r.keys.members (ascii "groupSet:" ++ userId) := by
    constructor
    · rintro ⟨g', hg', heq⟩
      rw [cstr_onlineGroup, cstr_eq_self (hg g' hg')] at heq
      rwa [List.append_cancel_left heq]
    · intro h
      exact ⟨g, h, by rw [cstr_onlineGroup, cstr_eq_self (hg g h)]⟩
  rw [decide_eq_decide, hgroup]

theorem signOff_notSet (h : ∀ s, r.keys (ascii "onlineGroup:" ++ g) ≠ some (.set s)) :
    (ConnectionManager.signOff r CRedis.smembers userId).keys (ascii "onlineGroup:" ++ g) =
      r.keys (ascii "onlineGroup:" ++ g) := by
  have hdel : (CRedis.del r (ascii "online:" ++ userId)).keys (ascii "onlineGroup:" ++ g) =
      r.keys (ascii "onlineGroup:" ++ g) := by
    apply CRedis.keys_del_of_ne
    rw [cstr_online]
    exact (online_ne_onlineGroup _ _).symm
  exact (CRedis.foldl_srem_of_not_set _ _ _ (by rwa [hdel])).trans hdel

theorem signOff_online (hu : NulFree userId) :
    (ConnectionManager.signOff r CRedis.smembers userId).keys (ascii "online:" ++ userId) = none := by
  refine (CRedis.foldl_srem_of_ne _ _ _ fun g _ => ?_).trans ?_
  · rw [cstr_onlineGroup]
    exact online_ne_onlineGroup _ _
  · have hself := CRedis.keys_del_self (r := r) (ascii "online:" ++ userId)
    rwa [cstr_online, cstr_eq_self hu] at hself

/-- A key that is neither the user's nor one of the online sets of the user's groups stays. -/
theorem signOff_others (hu : NulFree userId)
    (hg : ∀ g ∈ r.keys.members (ascii "groupSet:" ++ userId), NulFree g)
    (hk : k ≠ ascii "online:" ++ userId)
    (hgroup : ∀ g ∈ r.keys.members (ascii "groupSet:" ++ userId), k ≠ ascii "onlineGroup:" ++ g) :
    (ConnectionManager.signOff r CRedis.smembers userId).keys k = r.keys k := by
  refine (CRedis.foldl_srem_of_ne _ _ _ fun g hmem => ?_).trans (CRedis.keys_del_of_ne ?_)
  · rw [smembers_del_groupSet, cstr_eq_self hu] at hmem
    rw [cstr_onlineGroup, cstr_eq_self (hg g hmem)]
    exact hgroup g hmem
  · rwa [cstr_online, cstr_eq_self hu]

theorem members_groupSet_signOff (u : Bytes) :
    (ConnectionManager.signOff r CRedis.smembers userId).keys.members (ascii "groupSet:" ++ u) =
      r.keys.members (ascii "groupSet:" ++ u) :=
  Keyspace.members_congr (signOff_of_ne _ (groupSet_ne_online _ _) (groupSet_ne_onlineGroup _))

/-! ## All users -/

/-- The users and their groups have ids without zero bytes. -/
structure PlainIds (r : Redis) (users : List Bytes) : Prop where
  user : ∀ u ∈ users, NulFree u
  group : ∀ u ∈ users, ∀ g ∈ r.keys.members (ascii "groupSet:" ++ u), NulFree g

theorem PlainIds.tail (h : PlainIds r (userId :: users)) :
    PlainIds (ConnectionManager.signOff r CRedis.smembers userId) users := by
  refine ⟨fun u hu => h.user u (List.mem_cons_of_mem _ hu), fun u hu g hg => ?_⟩
  rw [members_groupSet_signOff] at hg
  exact h.group u (List.mem_cons_of_mem _ hu) g hg

/-- **The online set of a group after all users have gone.** -/
theorem signOffAll_onlineGroup (h : PlainIds r users) (g : Bytes) :
    (signOffAll r users).keys.members (ascii "onlineGroup:" ++ g) =
      (r.keys.members (ascii "onlineGroup:" ++ g)).filter fun x =>
        ¬(x ∈ users ∧ g ∈ r.keys.members (ascii "groupSet:" ++ x)) := by
  induction users generalizing r with
  | nil => exact (List.filter_eq_self.2 fun x _ => by simp).symm
  | cons u users ih =>
    rw [signOffAll_cons, ih h.tail, signOff_onlineGroup (h.user u List.mem_cons_self)
      (h.group u List.mem_cons_self), List.filter_filter]
    refine List.filter_congr fun x _ => ?_
    rw [members_groupSet_signOff, ← Bool.decide_and, decide_eq_decide, List.mem_cons]
    constructor
    · rintro ⟨hrest, hfirst⟩ ⟨rfl | hx, hg⟩
      · exact hfirst ⟨rfl, hg⟩
      · exact hrest ⟨hx, hg⟩
    · intro hno
      refine ⟨fun hx => hno ⟨.inr hx.1, hx.2⟩, ?_⟩
      rintro ⟨rfl, hg⟩
      exact hno ⟨.inl rfl, hg⟩

theorem signOffAll_notSet (h : ∀ s, r.keys (ascii "onlineGroup:" ++ g) ≠ some (.set s)) :
    (signOffAll r users).keys (ascii "onlineGroup:" ++ g) = r.keys (ascii "onlineGroup:" ++ g) := by
  induction users generalizing r with
  | nil => rfl
  | cons u users ih =>
    have hstep : (ConnectionManager.signOff r CRedis.smembers u).keys (ascii "onlineGroup:" ++ g) =
        r.keys (ascii "onlineGroup:" ++ g) := signOff_notSet h
    rw [signOffAll_cons, ih (by rwa [hstep]), hstep]

theorem signOffAll_others (h : PlainIds r users) (hk : ∀ u ∈ users, k ≠ ascii "online:" ++ u)
    (hgroup : ∀ u ∈ users, ∀ g ∈ r.keys.members (ascii "groupSet:" ++ u), k ≠ ascii "onlineGroup:" ++ g) :
    (signOffAll r users).keys k = r.keys k := by
  induction users generalizing r with
  | nil => rfl
  | cons u users ih =>
    rw [signOffAll_cons, ih h.tail fun v hv => hk v (List.mem_cons_of_mem _ hv)]
    · exact signOff_others (h.user u List.mem_cons_self) (h.group u List.mem_cons_self)
        (hk u List.mem_cons_self) (hgroup u List.mem_cons_self)
    · intro v hv g hg
      rw [members_groupSet_signOff] at hg
      exact hgroup v (List.mem_cons_of_mem _ hv) g hg

/-- A user who has gone, or was not online, is not online. -/
theorem signOffAll_online (h : PlainIds r users)
    (hu : userId ∈ users ∨ r.keys (ascii "online:" ++ userId) = none) :
    (signOffAll r users).keys (ascii "online:" ++ userId) = none := by
  induction users generalizing r with
  | nil => exact hu.resolve_left List.not_mem_nil
  | cons u users ih =>
    refine ih h.tail ?_
    by_cases heq : userId = u
    · subst heq
      exact .inr (signOff_online (h.user userId List.mem_cons_self))
    · rcases hu with hu | hu
      · exact .inl ((List.mem_cons.1 hu).resolve_left heq)
      · refine .inr ((signOff_others (h.user u List.mem_cons_self) (h.group u List.mem_cons_self) ?_
          fun g _ => online_ne_onlineGroup _ _).trans hu)
        exact fun he => heq (List.append_cancel_left he)

theorem published_signOffAll : (signOffAll r users).published =
    r.published ++ users.map fun u => (ascii "offline", u) := by
  induction users generalizing r with
  | nil => exact (List.append_nil _).symm
  | cons u users ih =>
    rw [signOffAll_cons, ih, published_signOff, List.append_assoc]
    rfl

end SignOff

/-! ## The shutdown -/

variable {c : ConnectionManager} {r : Redis}

theorem perm_users (c : ConnectionManager) : c.users.Perm c.sessionMap.keys :=
  List.perm_insertionSort _ _

theorem stopAll_empty (h : c.sessionSet = ∅) (h' : c.sessionMap = ∅) : c.stopAll r = (c, r) := by
  obtain ⟨sessions, created, sessionSet, sessionMap⟩ := c
  obtain rfl : sessionSet = ∅ := h
  obtain rfl : sessionMap = ∅ := h'
  rfl

/-- **What a shutdown leaves.** For every manager and content of Redis in which the users of the map and
their groups have ids without zero bytes: no session and no user is left, no user of the map is online or in
an online set of the user's groups, everything else stays, each user is said once to be offline, and a
second shutdown does nothing. -/
theorem stopAll_cleans (c : ConnectionManager) (r : Redis) (huser : ∀ u ∈ c.sessionMap, NulFree u)
    (hgroup : ∀ u ∈ c.sessionMap, ∀ g ∈ r.keys.members (ascii "groupSet:" ++ u), NulFree g) :
    Cleaned c r (c.stopAll r) := by
  have hmem : ∀ u, u ∈ c.users ↔ u ∈ c.sessionMap := fun u =>
    (perm_users c).mem_iff.trans AList.mem_keys.symm
  have hids : PlainIds r c.users :=
    ⟨fun u hu => huser u ((hmem u).1 hu), fun u hu => hgroup u ((hmem u).1 hu)⟩
  have hredis : (c.stopAll r).2 = signOffAll r c.users := rfl
  refine ⟨rfl, rfl, fun u hu => ?_, fun g => ?_, fun g hset => ?_, fun k hk hgroups => ?_,
    ⟨c.users, perm_users c, published_signOffAll⟩, stopAll_empty rfl rfl⟩
  · exact signOffAll_online hids (.inl ((hmem u).2 hu))
  · rw [hredis, signOffAll_onlineGroup hids]
    refine List.filter_congr fun x _ => ?_
    exact decide_eq_decide.2 (not_congr (and_congr_left fun _ => hmem x))
  · exact signOffAll_notSet hset
  · exact signOffAll_others hids (fun u hu => hk u ((hmem u).1 hu)) fun u hu g hg =>
      hgroups g u ⟨(hmem u).1 hu, hg⟩

/-- The user `a`, of the group `g`, has come online. -/
def comeOnline : Server × Redis :=
  onShakeHandleReq ⟨ascii "h:1", ConnectionManager.new.handleAccept⟩ memberRedis 0 ⟨0, ascii "a"⟩ 0

theorem comeOnline_cleaned :
    comeOnline.2.keys.members (ascii "onlineGroup:g") = [ascii "a"] ∧
      Cleaned comeOnline.1.manager comeOnline.2 (comeOnline.1.manager.stopAll comeOnline.2) := by
  have hkeys : comeOnline.1.manager.sessionMap.keys = [ascii "a"] := by decide +kernel
  have huser : ∀ u ∈ comeOnline.1.manager.sessionMap, u = ascii "a" := fun u hu =>
    List.mem_singleton.1 (hkeys ▸ AList.mem_keys.1 hu)
  have hgroup : comeOnline.2.keys.members (ascii "groupSet:" ++ ascii "a") = [ascii "g"] := by decide +kernel
  refine ⟨by decide +kernel, stopAll_cleans comeOnline.1.manager comeOnline.2 (fun u hu => ?_) fun u hu g hg => ?_⟩
  · rw [huser u hu]
    decide
  · rw [huser u hu, hgroup] at hg
    rw [List.mem_singleton.1 hg]
    decide

end MutexIM.MessageServer
