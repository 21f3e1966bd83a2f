import MutexIM.Foundations.Runs
import MutexIM.MessageServer.Handshake

/-!
# Presence

Who is online stands in Redis: the key `online:<user>` names the user's server, and the sets
`onlineGroup:<group>` hold the members of each group that are online. A handshake enters a user in
the sets of the groups in `groupSet:<user>`; `stop` and `stop_all` are to take the user out again.

* `signOn` and `signOff` have one lemma for each family of keys; `Server.step_of_ne`: no other key is
  changed.
* `Present.signOn` and `Present.stopAll`: a handshake and a shutdown keep the presence
  keys coherent.
* `coherent_of_run`: so does every run in which a session is stopped alone only when its user is in
  none of the sets.
* `stop_leaves_member`: `stop` reads the groups with a command for lists, and so finds none.
-/

namespace MutexIM.MessageServer

open Bytes Codec

/-! ## The presence keys -/

theorem online_ne_onlineGroup (u g : Bytes) : ascii "online:" ++ u ≠ ascii "onlineGroup:" ++ g := by
  simp [ascii]

theorem groupSet_ne_online (u v : Bytes) : ascii "groupSet:" ++ u ≠ ascii "online:" ++ v := by
  simp [ascii]

theorem groupSet_ne_onlineGroup (u g : Bytes) :
    ascii "groupSet:" ++ u ≠ ascii "onlineGroup:" ++ g := by
  simp [ascii]

theorem cstr_online (u : Bytes) : cstr (ascii "online:" ++ u) = ascii "online:" ++ cstr u :=
  cstr_append (by decide) u

theorem cstr_onlineGroup (g : Bytes) :
    cstr (ascii "onlineGroup:" ++ g) = ascii "onlineGroup:" ++ cstr g := cstr_append (by decide) g

theorem cstr_groupSet (u : Bytes) : cstr (ascii "groupSet:" ++ u) = ascii "groupSet:" ++ cstr u :=
  cstr_append (by decide) u

section Sign

variable {r : Redis} {userId strServerSocket k x g : Bytes}

theorem signOn_of_ne (hk : k ≠ ascii "online:" ++ cstr userId)
    (hg : ∀ g, k ≠ ascii "onlineGroup:" ++ g) :
    (signOn r userId strServerSocket).keys k = r.keys k := by
  refine (CRedis.foldl_sadd_of_ne _ _ _ fun g' _ => ?_).trans (CRedis.keys_set_of_ne ?_ _)
  · rw [cstr_onlineGroup]
    exact hg _
  · rwa [cstr_online]

theorem signOn_online : (signOn r userId strServerSocket).keys (ascii "online:" ++ cstr userId) =
    some (.str (cstr strServerSocket)) := by
  refine (CRedis.foldl_sadd_of_ne _ _ _ fun g' _ => ?_).trans ?_
  · rw [cstr_onlineGroup]
    exact online_ne_onlineGroup _ _
  · rw [← cstr_online, CRedis.keys_set_self]

theorem mem_members_signOn
    (h : x ∈ (signOn r userId strServerSocket).keys.members (ascii "onlineGroup:" ++ g)) :
    x ∈ r.keys.members (ascii "onlineGroup:" ++ g) ∨
      x = cstr userId ∧ ∃ g' ∈ r.keys.members (ascii "groupSet:" ++ cstr userId), g = cstr g' := by
  have hset : ∀ k, k ≠ ascii "online:" ++ cstr userId →
      (CRedis.set r (ascii "online:" ++ userId) strServerSocket).keys.members k =
        r.keys.members k := by
    intro k hk
    rw [← cstr_online] at hk
    exact Keyspace.members_congr (CRedis.keys_set_of_ne hk _)
  rcases CRedis.mem_members_foldl_sadd _ _ _ h with h | ⟨hx, g', hg', hk⟩
  · rw [hset _ (online_ne_onlineGroup _ _).symm] at h
    exact .inl h
  · rw [CRedis.smembers_eq, cstr_groupSet, hset _ (groupSet_ne_online _ _)] at hg'
    rw [cstr_onlineGroup] at hk
    exact .inr ⟨hx, g', hg', List.append_cancel_left hk⟩

variable (readGroups : Redis → Bytes → List Bytes)

theorem signOff_of_ne (hk : k ≠ ascii "online:" ++ cstr userId)
    (hg : ∀ g, k ≠ ascii "onlineGroup:" ++ g) :
    (ConnectionManager.signOff r readGroups userId).keys k = r.keys k := by
  refine (CRedis.foldl_srem_of_ne _ _ _ fun g' _ => ?_).trans (CRedis.keys_del_of_ne ?_)
  · rw [cstr_onlineGroup]
    exact hg _
  · rwa [cstr_online]

theorem mem_members_signOff :
    x ∈ (ConnectionManager.signOff r readGroups userId).keys.members (ascii "onlineGroup:" ++ g) ↔
      x ∈ r.keys.members (ascii "onlineGroup:" ++ g) ∧
        ¬(x = cstr userId ∧ ∃ g' ∈ readGroups (CRedis.del r (ascii "online:" ++ userId))
          (ascii "groupSet:" ++ userId), g = cstr g') := by
  have hdel : (CRedis.del r (ascii "online:" ++ userId)).keys (ascii "onlineGroup:" ++ g) =
      r.keys (ascii "onlineGroup:" ++ g) := by
    apply CRedis.keys_del_of_ne
    rw [cstr_online]
    exact (online_ne_onlineGroup _ _).symm
  refine (CRedis.mem_members_foldl_srem _ _ _).trans ?_
  rw [Keyspace.members_congr hdel]
  simp only [cstr_onlineGroup, List.append_cancel_left_eq]

theorem smembers_del_groupSet :
    CRedis.smembers (CRedis.del r (ascii "online:" ++ userId)) (ascii "groupSet:" ++ userId) =
      r.keys.members (ascii "groupSet:" ++ cstr userId) := by
  rw [CRedis.smembers_eq, cstr_groupSet]
  refine Keyspace.members_congr (CRedis.keys_del_of_ne ?_)
  rw [cstr_online]
  exact groupSet_ne_online _ _

theorem stopAll_of_ne (c : ConnectionManager) (ho : ∀ u, k ≠ ascii "online:" ++ u)
    (hg : ∀ g, k ≠ ascii "onlineGroup:" ++ g) : (c.stopAll r).2.keys k = r.keys k := by
  change (c.users.foldl _ r).keys k = _
  induction c.users generalizing r with
  | nil => rfl
  | cons u us ih => exact ih.trans (signOff_of_ne _ (ho _) hg)

/-- A server changes no other keys. -/
theorem Server.step_of_ne {sv : Server} {e : Server.Event} {out : Server × Redis}
    (hstep : sv.step r e = some out) (ho : ∀ u, k ≠ ascii "online:" ++ u)
    (hg : ∀ g, k ≠ ascii "onlineGroup:" ++ g) : out.2.keys k = r.keys k := by
  cases e with
  | accept =>
    obtain rfl := Option.some.inj hstep
    rfl
  | handshake conn request nowtime =>
    simp only [Server.step] at hstep
    split at hstep
    · obtain rfl := Option.some.inj hstep
      by_cases hb : Binds r request.userId
      · obtain ⟨sessionid, heq⟩ := onShakeHandleReq_of_binds sv conn nowtime hb
        rw [heq]
        exact signOn_of_ne (ho _) hg
      · rw [(onShakeHandleReq_of_not_binds sv conn nowtime hb).1]
    · cases hstep
  | disconnect s =>
    obtain ⟨⟨c', r'⟩, hstop, rfl⟩ := Option.map_eq_some_iff.1 hstep
    obtain ⟨-, -, rfl⟩ := ConnectionManager.stop_eq_some_iff.1 hstop
    change (if _ then _ else _ : Redis).keys k = r.keys k
    split
    · rfl
    · exact signOff_of_ne _ (ho _) hg
  | stopAll =>
    obtain rfl := Option.some.inj hstep
    exact stopAll_of_ne _ ho hg

/-! ### What is published -/

theorem published_foldl {α : Type*} {f : Redis → α → Redis}
    (hf : ∀ r a, (f r a).published = r.published) (l : List α) (r : Redis) :
    (l.foldl f r).published = r.published := by
  induction l generalizing r with
  | nil => rfl
  | cons a l ih => exact (ih _).trans (hf r a)

theorem published_signOn (r : Redis) (userId strServerSocket : Bytes) :
    (signOn r userId strServerSocket).published = r.published ++ [(ascii "online", userId)] := by
  have hsadd : ∀ vecStr : List Bytes,
      (vecStr.foldl (fun r g => CRedis.sadd r (ascii "onlineGroup:" ++ g) userId)
        (CRedis.set r (ascii "online:" ++ userId) strServerSocket)).published = r.published := by
    intro vecStr
    rw [published_foldl (f := fun r g => CRedis.sadd r (ascii "onlineGroup:" ++ g) userId)
      fun _ _ => rfl]
    rfl
  exact congrArg (· ++ [(ascii "online", userId)]) (hsadd _)

theorem published_signOff (r : Redis) (readGroups : Redis → Bytes → List Bytes) (userId : Bytes) :
    (ConnectionManager.signOff r readGroups userId).published =
      r.published ++ [(ascii "offline", userId)] := by
  have hsrem : ∀ vecStr : List Bytes,
      (vecStr.foldl (fun r g => CRedis.srem r (ascii "onlineGroup:" ++ g) userId)
        (CRedis.del r (ascii "online:" ++ userId))).published = r.published := by
    intro vecStr
    rw [published_foldl (f := fun r g => CRedis.srem r (ascii "onlineGroup:" ++ g) userId)
      fun _ _ => rfl]
    rfl
  exact congrArg (· ++ [(ascii "offline", userId)]) (hsrem _)

end Sign

/-! ## Coherence -/

/-- A key of presence or of the groups of a user. -/
def PresenceKey (key : Bytes) : Prop :=
  ascii "online:" <+: key ∨ ascii "onlineGroup:" <+: key ∨ ascii "groupSet:" <+: key

instance (key : Bytes) : Decidable (PresenceKey key) := inferInstanceAs (Decidable (_ ∨ _ ∨ _))

/-- Whoever is in the online set of a group is online and in the group. -/
def Coherent (ks : Keyspace) : Prop :=
  ∀ u g, u ∈ ks.members (ascii "onlineGroup:" ++ g) →
    (ks (ascii "online:" ++ u)).isSome ∧ g ∈ ks.members (ascii "groupSet:" ++ u)

/-- The presence keys are coherent, and their users and groups are C strings. -/
structure Present (ks : Keyspace) : Prop where
  coherent : Coherent ks
  user_nulFree : ∀ u g, u ∈ ks.members (ascii "onlineGroup:" ++ g) → NulFree u
  group_nulFree : ∀ u g, u ∈ ks.members (ascii "onlineGroup:" ++ g) → NulFree g

namespace Present

variable {r : Redis} {userId : Bytes}

theorem congr {ks ks' : Keyspace} (h : Present ks) (hkeep : ∀ k, PresenceKey k → ks' k = ks k) :
    Present ks' := by
  have hset : ∀ u, ks'.members (ascii "groupSet:" ++ u) = ks.members (ascii "groupSet:" ++ u) :=
    fun u => Keyspace.members_congr (hkeep _ (.inr (.inr (List.prefix_append _ _))))
  have hgroup : ∀ g, ks'.members (ascii "onlineGroup:" ++ g) =
      ks.members (ascii "onlineGroup:" ++ g) :=
    fun g => Keyspace.members_congr (hkeep _ (.inr (.inl (List.prefix_append _ _))))
  refine ⟨fun u g hu => ?_, fun u g hu => ?_, fun u g hu => ?_⟩
  · rw [hgroup] at hu
    rw [hset, hkeep _ (.inl (List.prefix_append _ _))]
    exact h.coherent u g hu
  · rw [hgroup] at hu
    exact h.user_nulFree u g hu
  · rw [hgroup] at hu
    exact h.group_nulFree u g hu

/-- **A handshake keeps the presence keys coherent** when the ids of the user's groups, as C strings,
are groups of the user. -/
theorem signOn (h : Present r.keys) (strServerSocket : Bytes)
    (hgroups : ∀ g ∈ r.keys.members (ascii "groupSet:" ++ cstr userId),
      cstr g ∈ r.keys.members (ascii "groupSet:" ++ cstr userId)) :
    Present (signOn r userId strServerSocket).keys := by
  have hset : ∀ u, (MessageServer.signOn r userId strServerSocket).keys.members
      (ascii "groupSet:" ++ u) = r.keys.members (ascii "groupSet:" ++ u) := fun u =>
    Keyspace.members_congr (signOn_of_ne (groupSet_ne_online _ _) (groupSet_ne_onlineGroup _))
  refine ⟨fun u g hu => ?_, fun u g hu => ?_, fun u g hu => ?_⟩
  · rw [hset]
    rcases mem_members_signOn hu with hu | ⟨rfl, g', hg', rfl⟩
    · obtain ⟨honline, hgroup⟩ := h.coherent u g hu
      refine ⟨?_, hgroup⟩
      by_cases hk : ascii "online:" ++ u = ascii "online:" ++ cstr userId
      · rw [hk, signOn_online]
        rfl
      · rwa [signOn_of_ne hk (online_ne_onlineGroup _)]
    · rw [signOn_online]
      exact ⟨rfl, hgroups g' hg'⟩
  · rcases mem_members_signOn hu with hu | ⟨rfl, -⟩
    · exact h.user_nulFree u g hu
    · exact nulFree_cstr userId
  · rcases mem_members_signOn hu with hu | ⟨-, g', -, rfl⟩
    · exact h.group_nulFree u g hu
    · exact nulFree_cstr g'

/-- What a user leaves behind is coherent when the user is no longer in any online set. -/
theorem signOff (h : Present r.keys) (readGroups : Redis → Bytes → List Bytes)
    (hgone : ∀ g, cstr userId ∉
      (ConnectionManager.signOff r readGroups userId).keys.members (ascii "onlineGroup:" ++ g)) :
    Present (ConnectionManager.signOff r readGroups userId).keys := by
  refine ⟨fun u g hu => ?_, fun u g hu => ?_, fun u g hu => ?_⟩
  · have hold := ((mem_members_signOff readGroups).1 hu).1
    have hne : ascii "online:" ++ u ≠ ascii "online:" ++ cstr userId := by
      intro heq
      rw [List.append_cancel_left heq] at hu
      exact hgone g hu
    rw [signOff_of_ne _ hne (online_ne_onlineGroup _), Keyspace.members_congr
      (signOff_of_ne _ (groupSet_ne_online _ _) (groupSet_ne_onlineGroup _))]
    exact h.coherent u g hold
  · exact h.user_nulFree u g ((mem_members_signOff readGroups).1 hu).1
  · exact h.group_nulFree u g ((mem_members_signOff readGroups).1 hu).1

/-- `stop_all` takes a user out of all sets of the user's groups. -/
theorem signOff_smembers (h : Present r.keys) :
    Present (ConnectionManager.signOff r CRedis.smembers userId).keys := by
  refine h.signOff _ fun g hu => ?_
  obtain ⟨hold, hnot⟩ := (mem_members_signOff _).1 hu
  rw [smembers_del_groupSet] at hnot
  exact hnot ⟨rfl, g, (h.coherent _ g hold).2, (cstr_eq_self (h.group_nulFree _ g hold)).symm⟩

/-- **A shutdown keeps the presence keys coherent.** -/
theorem stopAll (h : Present r.keys) (c : ConnectionManager) : Present (c.stopAll r).2.keys := by
  change Present (c.users.foldl _ r).keys
  induction c.users generalizing r with
  | nil => exact h
  | cons u us ih => exact ih h.signOff_smembers

/-- `stop` keeps them coherent for a user who is in none of the sets of the user's groups. -/
theorem stop (h : Present r.keys) {c c' : ConnectionManager} {r' : Redis} {s : ℕ}
    (hstop : c.stop r s = some (c', r'))
    (hgone : (c.sessions s).userId ≠ [] →
      ∀ g ∈ r.keys.members (ascii "groupSet:" ++ cstr (c.sessions s).userId),
        cstr (c.sessions s).userId ∉ r.keys.members (ascii "onlineGroup:" ++ g)) :
    Present r'.keys := by
  obtain ⟨-, -, rfl⟩ := ConnectionManager.stop_eq_some_iff.1 hstop
  split
  · exact h
  · next huser =>
    refine h.signOff _ fun g hu => ?_
    have hold := ((mem_members_signOff _).1 hu).1
    exact hgone huser g (h.coherent _ g hold).2 hold

end Present

/-! ## Several servers -/

/-- Message servers on one Redis server. -/
structure Cluster (ι : Type*) where
  servers : ι → Server
  redis : Redis

namespace Cluster

variable {ι : Type*} [DecidableEq ι]

/-- A server takes a step, or another program writes a key that is none of presence. -/
inductive Event (ι : Type*)
  | server (i : ι) (e : Server.Event)
  | other (key : Bytes) (v : Option Value)

def step (c : Cluster ι) : Event ι → Option (Cluster ι)
  | .server i e =>
    ((c.servers i).step c.redis e).map fun (sv, r) => ⟨Function.update c.servers i sv, r⟩
  | .other key v =>
    if PresenceKey key then none
    else some { c with redis := { c.redis with keys := Function.update c.redis.keys key v } }

/-- The servers have just started. -/
def start (sockets : ι → Bytes) (r : Redis) : Cluster ι := ⟨fun i => .start (sockets i), r⟩

/-- A user who shakes hands has groups whose ids, as C strings, are groups of the user; a session
that is stopped alone belongs to a user in none of the online sets of the user's groups. -/
def Orderly (c : Cluster ι) : Event ι → Prop
  | .server _ (.handshake _ request _) => Binds c.redis request.userId →
      ∀ g ∈ c.redis.keys.members (ascii "groupSet:" ++ cstr request.userId),
        cstr g ∈ c.redis.keys.members (ascii "groupSet:" ++ cstr request.userId)
  | .server i (.disconnect s) => ((c.servers i).manager.sessions s).userId ≠ [] →
      ∀ g ∈ c.redis.keys.members
          (ascii "groupSet:" ++ cstr ((c.servers i).manager.sessions s).userId),
        cstr ((c.servers i).manager.sessions s).userId ∉
          c.redis.keys.members (ascii "onlineGroup:" ++ g)
  | _ => True

instance (c : Cluster ι) (e : Event ι) : Decidable (c.Orderly e) := by
  unfold Orderly
  split <;> infer_instance

end Cluster

variable {ι : Type*} [DecidableEq ι]

/-- **A step keeps the presence keys coherent.** -/
theorem Present.step {c c' : Cluster ι} {e : Cluster.Event ι} (h : Present c.redis.keys)
    (hok : c.Orderly e) (hstep : c.step e = some c') : Present c'.redis.keys := by
  cases e with
  | server i e =>
    obtain ⟨⟨sv, r⟩, hsv, rfl⟩ := Option.map_eq_some_iff.1 hstep
    cases e with
    | accept =>
      obtain rfl := congrArg Prod.snd (Option.some.inj hsv)
      exact h
    | handshake conn request nowtime =>
      simp only [Server.step] at hsv
      split at hsv
      · obtain rfl := congrArg Prod.snd (Option.some.inj hsv)
        by_cases hb : Binds c.redis request.userId
        · obtain ⟨sessionid, heq⟩ := onShakeHandleReq_of_binds (c.servers i) conn nowtime hb
          rw [heq]
          exact h.signOn _ (hok hb)
        · rwa [(onShakeHandleReq_of_not_binds _ _ _ hb).1]
      · cases hsv
    | disconnect s =>
      obtain ⟨⟨c', r'⟩, hstop, heq⟩ := Option.map_eq_some_iff.1 hsv
      obtain ⟨-, rfl⟩ := Prod.mk.inj heq
      exact h.stop hstop hok
    | stopAll =>
      obtain rfl := congrArg Prod.snd (Option.some.inj hsv)
      exact h.stopAll _
  | other key v =>
    simp only [Cluster.step] at hstep
    split at hstep
    · cases hstep
    · next hkey =>
      obtain rfl := Option.some.inj hstep
      refine h.congr fun k hk => Function.update_of_ne ?_ ..
      rintro rfl
      exact hkey hk

/-- **Presence in a run.** From no online sets of groups, in every run in which a session is stopped alone only
when its user is in none of the online sets, and in which the ids of a user's groups are groups of
the user as C strings too, whoever is in the online set of a group is online and in the group. -/
theorem coherent_of_run {sockets : ι → Bytes} {r : Redis} {es : List (Cluster.Event ι)}
    {c : Cluster ι} (hgroup : ∀ g, r.keys (ascii "onlineGroup:" ++ g) = none)
    (hrun : Run Cluster.step Cluster.Orderly (Cluster.start sockets r) es c) :
    Coherent c.redis.keys := by
  have hnone : ∀ u g, u ∉ r.keys.members (ascii "onlineGroup:" ++ g) := by
    intro u g hu
    rw [Keyspace.members, hgroup] at hu
    cases hu
  have h : Present c.redis.keys :=
    hrun.invariant (I := fun c => Present c.redis.keys)
      (fun _ _ _ h hok hstep => h.step hok hstep)
      ⟨fun u g hu => absurd hu (hnone u g), fun u g hu => absurd hu (hnone u g),
        fun u g hu => absurd hu (hnone u g)⟩
  exact h.coherent

/-- The user `a` has logged in and is in the group `g`. -/
def memberRedis : Redis :=
  { loggedIn [ascii "a"] with
    keys := Function.update (loggedIn [ascii "a"]).keys (ascii "groupSet:a")
      (some (.set (.singleton (ascii "g")))) }

theorem memberRedis_eq_none {k : Bytes} (hlogin : k ≠ ascii "loginMap:a")
    (hgroup : k ≠ ascii "groupSet:a") : memberRedis.keys k = none := by
  refine (Function.update_of_ne hgroup ..).trans (if_neg fun hk => hlogin ?_)
  rw [List.map_singleton, List.mem_singleton] at hk
  exact hk

/-- The user `a` comes online on one of two servers, which is then shut down. -/
theorem coherent_after_shutdown :
    ∃ c, Run Cluster.step Cluster.Orderly
        (Cluster.start (fun b : Bool => if b then ascii "h:1" else ascii "h:2") memberRedis)
        [.server true .accept, .server true (.handshake 0 ⟨0, ascii "a"⟩ 0), .server true .stopAll]
        c ∧ Coherent c.redis.keys := by
  have hsome : (exec Cluster.step Cluster.Orderly
      (Cluster.start (fun b : Bool => if b then ascii "h:1" else ascii "h:2") memberRedis)
      [.server true .accept, .server true (.handshake 0 ⟨0, ascii "a"⟩ 0),
        .server true .stopAll]).isSome = true := by decide +kernel
  obtain ⟨c, hexec⟩ := Option.isSome_iff_exists.1 hsome
  refine ⟨c, .of_exec hexec, coherent_of_run (fun g => ?_) (.of_exec hexec)⟩
  exact memberRedis_eq_none (by simp [ascii]) (by simp [ascii])

/-- The user `a` comes online and goes: `a` stays in the online set of the group. -/
theorem stop_leaves_member :
    ∃ c, Run Cluster.step (fun _ _ => True) (Cluster.start (fun _ : Unit => ascii "h:1") memberRedis)
        [.server () .accept, .server () (.handshake 0 ⟨0, ascii "a"⟩ 0),
          .server () (.disconnect 0)] c ∧
      c.redis.keys.members (ascii "onlineGroup:g") = [ascii "a"] ∧
      c.redis.keys (ascii "online:a") = none := by
  have hexec : ((exec Cluster.step (fun _ _ => True)
      (Cluster.start (fun _ : Unit => ascii "h:1") memberRedis)
      [.server () .accept, .server () (.handshake 0 ⟨0, ascii "a"⟩ 0),
        .server () (.disconnect 0)]).map fun c =>
          (c.redis.keys.members (ascii "onlineGroup:g"), c.redis.keys (ascii "online:a"))) =
      some ([ascii "a"], none) := by decide +kernel
  obtain ⟨c, hexec, hend⟩ := Option.map_eq_some_iff.1 hexec
  obtain ⟨hmem, honline⟩ := Prod.mk.inj hend
  exact ⟨c, .of_exec hexec, hmem, honline⟩

end MutexIM.MessageServer
