import MutexIM.Foundations.Runs
import MutexIM.Web.Socket

/-!
# The web server's two maps

A handshake enters a socket for a user and the user for the socket, and a disconnect takes both out.
Neither looks at what the maps held before: a user may have several sockets, and a socket may have been
another user's.

* `SocketServer.Inverse`: each map has what the other one has, and the users of sockets are online.
* `SocketServer.inverse_iff_of_run`: a run goes through such states only exactly if no handshake takes
  over a socket that is entered for another user, and no socket goes whose user has another one.
* `SocketServer.unreachable_user`: a user opens two sockets and closes the first one.
-/

namespace MutexIM.Web.SocketServer

open Bytes

/-! ## The events of sockets -/

/-- A socket connects, sends a handshake, or goes. -/
inductive Event
  | connection
  | handleShake (socket : ℕ) (userId : Bytes)
  | disconnect (socket : ℕ)

/-- What a server does at an event; a socket that is not connected has none. -/
def step (sv : SocketServer) : Event → Option SocketServer
  | .connection => some sv.connection
  | .handleShake socket userId =>
    if sv.connected socket then some (sv.handleShake socket userId) else none
  | .disconnect socket => if sv.connected socket then some (sv.disconnect socket) else none

/-- What a command does to the key `online:<user>`. -/
def setOnline (u : Bytes) (online : Bool) : SocketCommand → Bool
  | .set userId _ => if userId = u then true else online
  | .del userId => if userId = u then false else online
  | _ => online

/-- Among the commands issued, the key `online:<user>` has been set and not deleted since. -/
def OnlineIssued (sv : SocketServer) (u : Bytes) : Prop := sv.redisDB.settle (setOnline u) false = true

instance (sv : SocketServer) (u : Bytes) : Decidable (sv.OnlineIssued u) :=
  inferInstanceAs (Decidable (_ = true))

/-- The maps are inverse, and who has a socket is online. -/
structure Inverse (sv : SocketServer) : Prop where
  of_userIdMap : ∀ {u socket}, sv.userIdMap u = some socket → sv.socketMap socket = some u
  of_socketMap : ∀ {socket u}, sv.socketMap socket = some u →
    (∃ socket', sv.userIdMap u = some socket') ∧ sv.OnlineIssued u

/-- The condition on an event: a handshake comes from a socket that is entered for no other user, and a
socket that goes is the only one of its user. -/
def Alone (sv : SocketServer) : Event → Prop
  | .connection => True
  | .handleShake socket userId => ∀ u, u ≠ userId → sv.userIdMap u ≠ some socket
  | .disconnect socket => ∀ u, sv.socketMap socket = some u →
      ∀ socket', socket' ≠ socket → sv.socketMap socket' ≠ some u

/-! ## What an event does to the maps -/

variable {sv sv' : SocketServer} {socket : ℕ} {userId u : Bytes}

theorem onlineIssued_handleShake :
    (sv.handleShake socket userId).OnlineIssued u ↔ u = userId ∨ sv.OnlineIssued u := by
  unfold OnlineIssued handleShake issue
  rw [Pipeline.settle_issue]
  by_cases hu : userId = u
  · simp [setOnline, hu]
  · simp [setOnline, hu, Ne.symm hu]

theorem disconnect_of_none (h : sv.socketMap socket = none) :
    sv.disconnect socket = { sv with connected := Function.update sv.connected socket false } := by
  unfold disconnect
  simp only [h]

theorem disconnect_of_some (h : sv.socketMap socket = some userId) :
    sv.disconnect socket = { sv with
      connected := Function.update sv.connected socket false
      userIdMap := Function.update sv.userIdMap userId none
      socketMap := Function.update sv.socketMap socket none
      redisDB := sv.redisDB.issue
        [.publish (ascii "offline") userId, .del userId, .smembers userId false] } := by
  unfold disconnect issue
  simp only [h]

theorem connected_disconnect :
    (sv.disconnect socket).connected = Function.update sv.connected socket false := by
  cases h : sv.socketMap socket with
  | none => rw [disconnect_of_none h]
  | some userId => rw [disconnect_of_some h]

theorem created_disconnect : (sv.disconnect socket).created = sv.created := by
  cases h : sv.socketMap socket with
  | none => rw [disconnect_of_none h]
  | some userId => rw [disconnect_of_some h]

theorem socketMap_disconnect :
    (sv.disconnect socket).socketMap = Function.update sv.socketMap socket none := by
  cases h : sv.socketMap socket with
  | none => rw [disconnect_of_none h, ← h, Function.update_eq_self]
  | some userId => rw [disconnect_of_some h]

theorem onlineIssued_disconnect (h : sv.socketMap socket = some userId) (hu : u ≠ userId) :
    (sv.disconnect socket).OnlineIssued u ↔ sv.OnlineIssued u := by
  unfold OnlineIssued
  rw [disconnect_of_some h, Pipeline.settle_issue]
  simp [setOnline, Ne.symm hu]

/-! ## The maps stay inverse -/

/-- **A handshake** keeps the maps inverse exactly if the socket is entered for no other user. -/
theorem Inverse.handleShake_iff (h : sv.Inverse) :
    sv.Alone (.handleShake socket userId) ↔ (sv.handleShake socket userId).Inverse := by
  constructor
  · intro halone
    refine ⟨fun {u s} hu => ?_, fun {s u} hs => ?_⟩
    · simp only [handleShake, issue, Function.update_apply] at hu ⊢
      split at hu
      · next heq =>
        obtain rfl := Option.some.inj hu
        rw [if_pos rfl, heq]
      · next hne =>
        have hs : s ≠ socket := fun heq => halone u hne (heq ▸ hu)
        rw [if_neg hs]
        exact h.of_userIdMap hu
    · rw [onlineIssued_handleShake]
      simp only [handleShake, issue, Function.update_apply] at hs ⊢
      by_cases hu : u = userId
      · exact ⟨⟨socket, if_pos hu⟩, .inl hu⟩
      · rw [if_neg hu]
        split at hs
        · exact absurd (Option.some.inj hs).symm hu
        · exact ⟨(h.of_socketMap hs).1, .inr (h.of_socketMap hs).2⟩
  · intro hinv u hu hs
    have hs' : (sv.handleShake socket userId).userIdMap u = some socket := by
      simp only [handleShake, issue, Function.update_of_ne hu, hs]
    have hback := hinv.of_userIdMap hs'
    simp only [handleShake, issue, Function.update_self] at hback
    exact hu (Option.some.inj hback).symm

/-- **A disconnect** keeps the maps inverse exactly if the socket is the only one of its user. -/
theorem Inverse.disconnect_iff (h : sv.Inverse) :
    sv.Alone (.disconnect socket) ↔ (sv.disconnect socket).Inverse := by
  cases hsocket : sv.socketMap socket with
  | none =>
    rw [disconnect_of_none hsocket]
    refine iff_of_true (fun u hu => ?_) ⟨h.of_userIdMap, h.of_socketMap⟩
    cases hsocket.symm.trans hu
  | some userId =>
    constructor
    · intro halone
      have halone := halone userId hsocket
      refine ⟨fun {u s} hu => ?_, fun {s u} hs => ?_⟩
      · rw [disconnect_of_some hsocket] at hu ⊢
        simp only [Function.update_apply] at hu ⊢
        split at hu
        · cases hu
        · next hne =>
          have hback := h.of_userIdMap hu
          have hs : s ≠ socket := by
            rintro rfl
            exact hne (Option.some.inj (hback.symm.trans hsocket))
          rw [if_neg hs]
          exact hback
      · have hs' : s ≠ socket ∧ sv.socketMap s = some u := by
          rw [disconnect_of_some hsocket] at hs
          simp only [Function.update_apply] at hs
          split at hs
          · cases hs
          · next hne => exact ⟨hne, hs⟩
        have hu : u ≠ userId := by
          rintro rfl
          exact halone s hs'.1 hs'.2
        rw [onlineIssued_disconnect hsocket hu, disconnect_of_some hsocket]
        simp only [Function.update_of_ne hu]
        exact h.of_socketMap hs'.2
    · intro hinv u hu s hs hsu
      obtain rfl := Option.some.inj (hsocket.symm.trans hu)
      have hs' : (sv.disconnect socket).socketMap s = some userId := by
        rw [disconnect_of_some hsocket]
        simp only [Function.update_of_ne hs, hsu]
      obtain ⟨⟨s', hentry⟩, -⟩ := hinv.of_socketMap hs'
      rw [disconnect_of_some hsocket] at hentry
      simp only [Function.update_self] at hentry
      cases hentry

/-- **An event** keeps the maps inverse exactly under the condition. -/
theorem Inverse.step_iff {e : Event} (h : sv.Inverse) (hstep : sv.step e = some sv') :
    sv.Alone e ↔ sv'.Inverse := by
  cases e with
  | connection =>
    obtain rfl := Option.some.inj hstep
    exact iff_of_true trivial ⟨h.of_userIdMap, h.of_socketMap⟩
  | handleShake socket userId =>
    simp only [step] at hstep
    split at hstep
    · obtain rfl := Option.some.inj hstep
      exact h.handleShake_iff
    · cases hstep
  | disconnect socket =>
    simp only [step] at hstep
    split at hstep
    · obtain rfl := Option.some.inj hstep
      exact h.disconnect_iff
    · cases hstep

/-- **The maps of a run.** In every run from the start, the maps are inverse in all states exactly if
all events meet the condition: no handshake comes from a socket that is entered for another user, and no
socket goes while its user has another one. -/
theorem inverse_iff_of_run {g_socketStr : Bytes} {es : List Event}
    (hrun : Run step (fun _ _ => True) (start g_socketStr) es sv) :
    Run step Alone (start g_socketStr) es sv ↔
      Run step (fun sv _ => sv.Inverse) (start g_socketStr) es sv ∧ sv.Inverse := by
  refine hrun.invariant_iff (fun _ _ _ h hstep => h.step_iff hstep) ⟨fun h => ?_, fun h => ?_⟩
  · cases h
  · cases h

/-- Two users open a socket each, and the first one closes it. -/
def twoUsers : List Event :=
  [.connection, .handleShake 0 (ascii "a"), .connection, .handleShake 1 (ascii "b"), .disconnect 0]

theorem inverse_iff_of_two_users :
    ∃ sv, Run step (fun _ _ => True) (start (ascii "h:1")) twoUsers sv ∧
      (sv.userIdMap (ascii "a") = none ∧ sv.userIdMap (ascii "b") = some 1) ∧
      (Run step Alone (start (ascii "h:1")) twoUsers sv ↔
        Run step (fun sv _ => sv.Inverse) (start (ascii "h:1")) twoUsers sv ∧ sv.Inverse) := by
  have hany : (exec step (fun _ _ => True) (start (ascii "h:1")) twoUsers).any (fun sv =>
      decide (sv.userIdMap (ascii "a") = none ∧ sv.userIdMap (ascii "b") = some 1)) = true := by
    decide
  obtain ⟨sv, hrun, hmaps⟩ := Run.exists_of_exec hany
  exact ⟨sv, hrun, hmaps, inverse_iff_of_run hrun⟩

/-- The user `a` opens two sockets and closes the first one: the second one is left without an entry
in `userIdMap`, and `online:a` is deleted. -/
theorem unreachable_user :
    ∃ sv, Run step (fun _ _ => True) (start (ascii "h:1"))
        [.connection, .connection, .handleShake 0 (ascii "a"), .handleShake 1 (ascii "a"),
          .disconnect 0] sv ∧
      sv.connected 1 = true ∧ sv.socketMap 1 = some (ascii "a") ∧
      sv.userIdMap (ascii "a") = none ∧ ¬sv.OnlineIssued (ascii "a") :=
  Run.exists_of_exec (p := fun sv : SocketServer => sv.connected 1 = true ∧
    sv.socketMap 1 = some (ascii "a") ∧ sv.userIdMap (ascii "a") = none ∧ ¬sv.OnlineIssued (ascii "a")) (by decide)

end MutexIM.Web.SocketServer
