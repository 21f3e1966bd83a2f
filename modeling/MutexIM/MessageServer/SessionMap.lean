import MutexIM.Foundations.Runs
import MutexIM.MessageServer.Handshake

/-!
# The map from users to sessions

One message server, whose connections come, shake hands and go, while other programs change Redis.
An entry of `m_SessionMap` should name a live session whose user is the entry's key.

* `step_consistent`: a step keeps the map consistent, unless a handshake moves a connection on to
  another user, or the connection of a user with the empty id goes.
* `consistent_of_run`: so in every run without such steps.
* `rebind_inconsistent`: two handshakes on one connection leave an entry behind.
-/

namespace MutexIM.MessageServer

open Bytes Codec

/-- A message server and the Redis server. -/
structure Host where
  server : Server
  redis : Redis

namespace Host

/-- A step of the server, or another program changes Redis. -/
inductive Event
  | server (e : Server.Event)
  | redis (r : Redis)

def step (h : Host) : Event → Option Host
  | .server e => (h.server.step h.redis e).map fun (server, redis) => ⟨server, redis⟩
  | .redis r => some { h with redis := r }

end Host

/-- Every entry of the map names a session of the set that belongs to the entry's user. -/
def ConnectionManager.Consistent (c : ConnectionManager) : Prop :=
  ∀ u s, c.sessionMap.lookup u = some s → s ∈ c.sessionSet ∧ (c.sessions s).userId = u

/-- A handshake does not move a connection on from another user, and a session of the user with the
empty id is not stopped alone. -/
def Host.Steady (h : Host) : Event → Prop
  | .server (.handshake conn request _) => Binds h.redis request.userId →
      ∀ e ∈ h.server.manager.sessionMap.entries, e.2 = conn → e.1 = request.userId
  | .server (.disconnect s) => h.server.manager.sessionMap.lookup [] ≠ some s
  | _ => True

instance (h : Host) (e : Host.Event) : Decidable (h.Steady e) := by
  unfold Host.Steady
  split <;> infer_instance

namespace ConnectionManager

variable {c : ConnectionManager}

theorem Consistent.handleAccept (h : c.Consistent) : c.handleAccept.Consistent := by
  intro u s hs
  obtain ⟨hmem, huser⟩ := h u s hs
  refine ⟨Finset.mem_insert_of_mem hmem, ?_⟩
  rwa [apply_handleAccept TcpSession.userId rfl]

theorem Consistent.send (h : c.Consistent) (conn : ℕ) (m : ChatMsg) :
    (c.send conn m).Consistent := by
  intro u s hs
  obtain ⟨hmem, huser⟩ := h u s hs
  refine ⟨hmem, ?_⟩
  rwa [send_sessions_userId]

/-- Binding a connection that no other user has an entry for. -/
theorem Consistent.bindUser (h : c.Consistent) {conn : ℕ} {sessionId userId : Bytes}
    (hother : ∀ u, c.sessionMap.lookup u = some conn → u = userId) :
    (c.bindUser conn sessionId userId).Consistent := by
  intro u s hs
  rcases of_findUser_bindUser hs with ⟨hconn, rfl, rfl⟩ | hs
  · exact ⟨by rwa [bindUser_sessionSet], by rw [bindUser_sessions_self]⟩
  · obtain ⟨hmem, huser⟩ := h u s hs
    refine ⟨by rwa [bindUser_sessionSet], ?_⟩
    by_cases hne : s = conn
    · -- an old entry of the connection is one of its new user
      rw [hne, bindUser_sessions_self, hother u (hne ▸ hs)]
    · rwa [bindUser_sessions_of_ne hne]

theorem Consistent.without (h : c.Consistent) {s : ℕ}
    (hempty : c.sessionMap.lookup [] ≠ some s) : (c.without s).Consistent := by
  intro u s' hs'
  -- an entry that is left is an old one, and not one of the session that goes
  have hold : c.sessionMap.lookup u = some s' ∧ s' ≠ s := by
    by_cases hnil : (c.sessions s).userId = []
    · simp only [ConnectionManager.without, hnil, if_true] at hs'
      refine ⟨hs', ?_⟩
      rintro rfl
      rw [(h u s' hs').2] at hnil
      exact hempty (hnil ▸ hs')
    · simp only [ConnectionManager.without, hnil, if_false] at hs'
      by_cases hu : u = (c.sessions s).userId
      · rw [hu, AList.lookup_erase] at hs'
        cases hs'
      · rw [AList.lookup_erase_ne hu] at hs'
        refine ⟨hs', ?_⟩
        rintro rfl
        exact hu (h u s' hs').2.symm
  obtain ⟨hmem, huser⟩ := h u s' hold.1
  exact ⟨Finset.mem_erase.2 ⟨hold.2, hmem⟩, by rwa [without_sessions_of_ne hold.2]⟩

theorem consistent_stopAll (c : ConnectionManager) (r : Redis) : (c.stopAll r).1.Consistent := by
  intro u s hs
  cases hs

end ConnectionManager

/-- **A step keeps the map consistent.** -/
theorem step_consistent {h h' : Host} {e : Host.Event} (hc : h.server.manager.Consistent)
    (hok : h.Steady e) (hstep : h.step e = some h') : h'.server.manager.Consistent := by
  cases e with
  | server e =>
    obtain ⟨⟨sv, r⟩, hsv, rfl⟩ := Option.map_eq_some_iff.1 hstep
    cases e with
    | accept =>
      obtain ⟨rfl, -⟩ := Prod.mk.inj (Option.some.inj hsv)
      exact hc.handleAccept
    | handshake conn request nowtime =>
      simp only [Server.step] at hsv
      split at hsv
      · obtain rfl := congrArg Prod.fst (Option.some.inj hsv)
        refine onShakeHandleReq_manager hc (fun hb sessionid => hc.bindUser fun u hu => ?_)
          fun c m hc => hc.send conn m
        exact hok hb ⟨u, conn⟩ (AList.mem_lookup_iff.1 hu) rfl
      · cases hsv
    | disconnect s =>
      obtain ⟨⟨c', r'⟩, hstop, heq⟩ := Option.map_eq_some_iff.1 hsv
      obtain ⟨rfl, -⟩ := Prod.mk.inj heq
      obtain ⟨-, rfl, -⟩ := ConnectionManager.stop_eq_some_iff.1 hstop
      exact hc.without hok
    | stopAll =>
      obtain ⟨rfl, -⟩ := Prod.mk.inj (Option.some.inj hsv)
      exact ConnectionManager.consistent_stopAll _ h.redis
  | redis r =>
    obtain rfl := Option.some.inj hstep
    exact hc

/-- **The session map of a run.** In every run in which no handshake moves a connection on to another
user, and no session of the user with the empty id is stopped alone, every entry of the map names a
session of the set that belongs to the entry's user, and no user is mapped to a stopped session. -/
theorem consistent_of_run {strServerSocket : Bytes} {r : Redis} {es : List Host.Event} {h : Host}
    (hrun : Run Host.step Host.Steady ⟨.start strServerSocket, r⟩ es h) :
    h.server.manager.Consistent ∧
      ∀ s ∉ h.server.manager.sessionSet, ∀ u, h.server.manager.sessionMap.lookup u ≠ some s := by
  have hc : h.server.manager.Consistent :=
    hrun.invariant (I := fun h => h.server.manager.Consistent)
      (fun _ _ _ hc hok hstep => step_consistent hc hok hstep) fun u s hs => by cases hs
  exact ⟨hc, fun s hs u hu => hs (hc u s hu).1⟩

/-- One connection: it is accepted, and shakes hands for the users in turn. -/
def Host.shakes (users : List Bytes) : List Host.Event :=
  .server .accept :: users.map fun u => .server (.handshake 0 ⟨0, u⟩ 0)

theorem consistent_of_shakes :
    ∃ h, Run Host.step Host.Steady ⟨.start (ascii "h:1"), loggedIn [ascii "a"]⟩
        (Host.shakes [ascii "a"]) h ∧ h.server.manager.Consistent ∧
      ∀ s ∉ h.server.manager.sessionSet, ∀ u, h.server.manager.sessionMap.lookup u ≠ some s := by
  have hsome : (exec Host.step Host.Steady ⟨.start (ascii "h:1"), loggedIn [ascii "a"]⟩
      (Host.shakes [ascii "a"])).isSome = true := by decide +kernel
  obtain ⟨h, hexec⟩ := Option.isSome_iff_exists.1 hsome
  exact ⟨h, .of_exec hexec, consistent_of_run (.of_exec hexec)⟩

/-- The connection shakes hands for `a` and then for `b`, and goes: `a` stays in the map. -/
theorem rebind_inconsistent :
    ∃ h, Run Host.step (fun _ _ => True)
        ⟨.start (ascii "h:1"), loggedIn [ascii "a", ascii "b"]⟩
        (Host.shakes [ascii "a", ascii "b"] ++ [.server (.disconnect 0)]) h ∧
      0 ∉ h.server.manager.sessionSet ∧
      h.server.manager.sessionMap.lookup (ascii "a") = some 0 := by
  have hexec : ((exec Host.step (fun _ _ => True)
      ⟨.start (ascii "h:1"), loggedIn [ascii "a", ascii "b"]⟩
      (Host.shakes [ascii "a", ascii "b"] ++ [.server (.disconnect 0)])).map fun h =>
        (h.server.manager.sessionSet, h.server.manager.sessionMap.lookup (ascii "a"))) =
      some (∅, some 0) := by decide +kernel
  obtain ⟨h, hexec, hend⟩ := Option.map_eq_some_iff.1 hexec
  obtain ⟨hset, hmap⟩ := Prod.mk.inj hend
  exact ⟨h, .of_exec hexec, by rw [hset]; exact Finset.notMem_empty 0, hmap⟩

end MutexIM.MessageServer
