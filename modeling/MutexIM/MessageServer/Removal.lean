import MutexIM.Foundations.Runs
import MutexIM.MessageServer.Handshake

/-!
# The removal of a session

A session that fails is taken out by `Connection_Manager::stop`, which its read handler and its write
handlers call through `DisconnectedCallback_`. When the socket is closed, the operations that are
outstanding report `operation_aborted`, and those that had completed before report their own result. The
read handler passes over `operation_aborted`, the write handler does not; neither asks whether the session
has been stopped.

* `Net.step` is the server with the results of its operations.
* `removed_once_of_run`: no session is stopped twice, and nothing is erased that is not there, in every run
  in which the operations that fail are those of sessions that are connected and share their user with no
  other session. What fails for a session that was stopped makes `stop` erase `end()`.
* `aborted_write_stops_again`: with two writes outstanding, the session is stopped twice.
-/

namespace MutexIM.MessageServer

open Bytes Codec

/-- A message server with the calls of `Connection_Manager::stop` so far, and whether one of them
erased `end()`, after which nothing is known. -/
structure Net where
  server : Server
  redis : Redis
  stops : List ℕ
  endErased : Bool

namespace Net

/-- What happens to the server. The messages its handlers send, on the connection they serve or on
others, are events of their own. -/
inductive Event
  | accept
  | handshake (conn : ℕ) (request : ShakeHandleReq) (nowtime : UInt64)
  | send (conn : ℕ) (m : ChatMsg)
  | readDone (s : ℕ) (e : ErrorCode)
  | writeDone (s : ℕ) (e : ErrorCode)
  | stopAll
  | redis (r : Redis)

/-- The connections of the server. -/
def manager (n : Net) : ConnectionManager := n.server.manager

/-- The connections are changed. -/
def withManager (n : Net) (c : ConnectionManager) : Net :=
  { n with server := { n.server with manager := c } }

/-- The server takes a step. -/
def serverStep (n : Net) (e : Server.Event) : Option Net :=
  (n.server.step n.redis e).map fun (server, redis) => { n with server := server, redis := redis }

/-- `tcp_server::removeConnection`. -/
def removeConnection (n : Net) (session : ℕ) : Net :=
  match n.serverStep (.disconnect session) with
  | some n => { n with stops := n.stops ++ [session] }
  | none => { n with stops := n.stops ++ [session], endErased := true }

/-- What an operation may report: `operation_aborted` only when the socket was closed. An operation that had
completed before that reports its own result. -/
def Reports (t : TcpSession) (e : ErrorCode) : Prop := t.isConnected = true → e ≠ .operationAborted

instance (t : TcpSession) (e : ErrorCode) : Decidable (Reports t e) :=
  inferInstanceAs (Decidable (_ → _))

/-- A handler runs: the session changes, and is removed if the handler says so. -/
def handle (n : Net) (s : ℕ) (handler : TcpSession → TcpSession × Bool) : Net :=
  let t := n.manager.sessions s
  let n := n.withManager (n.manager.modify s fun t => (handler t).1)
  if (handler t).2 then n.removeConnection s else n

/-- The effect of an event while everything is defined. -/
def react (n : Net) : Event → Option Net
  | .accept => n.serverStep .accept
  | .handshake conn request nowtime => n.serverStep (.handshake conn request nowtime)
  | .send conn m =>
    if conn < n.manager.created then some (n.withManager (n.manager.send conn m)) else none
  | .readDone s e =>
    if (n.manager.sessions s).pendingRead ∧ Reports (n.manager.sessions s) e then
      some (n.handle s (·.handleRead e))
    else none
  | .writeDone s e =>
    if 0 < (n.manager.sessions s).pendingWrites ∧ Reports (n.manager.sessions s) e then
      some (n.handle s (·.handleWrite e))
    else none
  | .stopAll => n.serverStep .stopAll
  | .redis r => some { n with redis := r }

def step (n : Net) (e : Event) : Option Net := if n.endErased then none else n.react e

/-- A server that has just started. -/
def start (strServerSocket : Bytes) (r : Redis) : Net := ⟨.start strServerSocket, r, [], false⟩

/-- The session's user, if it has one, has no other session. -/
def SoleUser (c : ConnectionManager) (s : ℕ) : Prop :=
  (c.sessions s).userId ≠ [] → ∀ s' ∈ c.sessionSet, (c.sessions s').userId = (c.sessions s).userId →
    s' = s

instance (c : ConnectionManager) (s : ℕ) : Decidable (SoleUser c s) :=
  inferInstanceAs (Decidable (_ → _))

/-- The session for which a handler calls `DisconnectedCallback_`. -/
def failing : Event → Option ℕ
  | .readDone s .other => some s
  | .writeDone s .operationAborted => some s
  | .writeDone s .other => some s
  | _ => none

/-- An operation that fails is one of a session that is still connected and shares its user with no other
session. -/
def Quiet (n : Net) (e : Event) : Prop :=
  ∀ s ∈ failing e, (n.manager.sessions s).isConnected = true ∧ SoleUser n.manager s

instance (n : Net) (e : Event) : Decidable (n.Quiet e) :=
  inferInstanceAs (Decidable (∀ s ∈ failing e, _))

end Net

/-! ## The invariant -/

/-- The sessions of the set are the connected ones, and every user of a session of the set is in the map.
-/
structure ConnectionManager.Managed (c : ConnectionManager) : Prop where
  connected_iff : ∀ s, (c.sessions s).isConnected = true ↔ s ∈ c.sessionSet
  user_mem : ∀ s ∈ c.sessionSet, (c.sessions s).userId ≠ [] → (c.sessions s).userId ∈ c.sessionMap
  lt_created : ∀ s ∈ c.sessionSet, s < c.created
  userId_eq : ∀ s, c.created ≤ s → (c.sessions s).userId = []

namespace ConnectionManager.Managed

variable {c : ConnectionManager}

theorem new : ConnectionManager.new.Managed where
  connected_iff s := by simp [ConnectionManager.new, TcpSession.new]
  user_mem s hs := absurd hs (Finset.notMem_empty s)
  lt_created s hs := absurd hs (Finset.notMem_empty s)
  userId_eq _ _ := rfl

theorem handleAccept (h : c.Managed) : c.handleAccept.Managed := by
  refine ⟨fun s => ?_, fun s hs hu => ?_, fun s hs => ?_, fun s hs => ?_⟩
  · by_cases heq : s = c.created
    · rw [heq, handleAccept_sessions_created]
      exact iff_of_true rfl (Finset.mem_insert_self _ _)
    · rw [handleAccept_sessions_of_ne heq, handleAccept_sessionSet, Finset.mem_insert,
        h.connected_iff, or_iff_right heq]
  · rw [apply_handleAccept TcpSession.userId rfl] at hu ⊢
    rcases Finset.mem_insert.1 hs with rfl | hs
    · exact absurd (h.userId_eq _ le_rfl) hu
    · exact h.user_mem s hs hu
  · rw [handleAccept_created]
    rcases Finset.mem_insert.1 hs with rfl | hs
    · exact Nat.lt_succ_self _
    · exact (h.lt_created s hs).trans (Nat.lt_succ_self _)
  · rw [apply_handleAccept TcpSession.userId rfl]
    exact h.userId_eq s ((Nat.le_succ _).trans hs)

/-- A session may change in what does not matter here. -/
theorem modify (h : c.Managed) {s : ℕ} {f : TcpSession → TcpSession}
    (hconn : (f (c.sessions s)).isConnected = (c.sessions s).isConnected)
    (huser : (f (c.sessions s)).userId = (c.sessions s).userId) : (c.modify s f).Managed := by
  have huser' := apply_modify TcpSession.userId huser
  refine ⟨fun s' => ?_, fun s' hs' hu => ?_, h.lt_created, fun s' hs' => ?_⟩
  · rw [apply_modify TcpSession.isConnected hconn]
    exact h.connected_iff s'
  · rw [huser'] at hu ⊢
    exact h.user_mem s' hs' hu
  · rw [huser']
    exact h.userId_eq s' hs'

theorem send (h : c.Managed) (conn : ℕ) (m : ChatMsg) : (c.send conn m).Managed :=
  h.modify (TcpSession.send_isConnected _ m) (TcpSession.send_userId _ m)

theorem bindUser (h : c.Managed) {conn : ℕ} (hconn : conn < c.created) (sessionId userId : Bytes) :
    (c.bindUser conn sessionId userId).Managed := by
  refine ⟨fun s => ?_, fun s hs hu => ?_, fun s hs => ?_, fun s hs => ?_⟩
  · rw [bindUser_sessionSet, ← h.connected_iff, apply_bindUser TcpSession.isConnected fun _ _ _ => rfl]
  · rw [bindUser_sessionSet] at hs
    rw [bindUser_sessionMap]
    by_cases heq : s = conn
    · rw [heq, bindUser_sessions_self, if_pos (heq ▸ hs)]
      exact (AList.mem_insert _).2 (.inl rfl)
    · rw [bindUser_sessions_of_ne heq] at hu ⊢
      have hold := h.user_mem s hs hu
      split
      · exact (AList.mem_insert _).2 (.inr hold)
      · exact hold
  · rw [bindUser_sessionSet] at hs
    rw [bindUser_created]
    exact h.lt_created s hs
  · rw [bindUser_created] at hs
    rw [bindUser_sessions_of_ne (by omega)]
    exact h.userId_eq s hs

theorem without (h : c.Managed) {s : ℕ} (hsole : Net.SoleUser c s) : (c.without s).Managed := by
  refine ⟨fun s' => ?_, fun s' hs' hu => ?_, fun s' hs' => ?_, fun s' hs' => ?_⟩
  · rw [without_sessionSet, Finset.mem_erase, ← h.connected_iff]
    by_cases heq : s' = s
    · rw [heq, without_sessions_self]
      simp
    · rw [without_sessions_of_ne heq, and_iff_right heq]
  · obtain ⟨heq, hmem⟩ := Finset.mem_erase.1 hs'
    rw [without_sessions_of_ne heq] at hu ⊢
    have hold := h.user_mem s' hmem hu
    unfold ConnectionManager.without
    split
    · exact hold
    · next hnil => exact AList.mem_erase.2 ⟨fun he => heq (hsole hnil s' hmem he), hold⟩
  · exact h.lt_created s' (Finset.mem_of_mem_erase hs')
  · rw [apply_without TcpSession.userId rfl]
    exact h.userId_eq s' hs'

theorem stopAll (h : c.Managed) {r : Redis} : (c.stopAll r).1.Managed := by
  have hsess : ∀ s, (c.stopAll r).1.sessions s =
      if s ∈ c.sessionSet then (c.sessions s).stop else c.sessions s := fun _ => rfl
  refine ⟨fun s => ?_, fun s hs => ?_, fun s hs => ?_, fun s hs => ?_⟩
  · refine iff_of_false ?_ (Finset.notMem_empty s)
    rw [hsess]
    split
    · exact Bool.false_ne_true
    · next hs => exact fun hc => hs ((h.connected_iff s).1 hc)
  · exact absurd hs (Finset.notMem_empty s)
  · exact absurd hs (Finset.notMem_empty s)
  · rw [hsess]
    split
    · exact h.userId_eq s hs
    · exact h.userId_eq s hs

end ConnectionManager.Managed

namespace Net

/-- Nothing was erased that is not there, and the sessions stopped so far are different and gone. -/
structure Inv (n : Net) : Prop where
  endErased_eq : n.endErased = false
  managed : n.manager.Managed
  nodup : n.stops.Nodup
  gone : ∀ s ∈ n.stops, s ∉ n.manager.sessionSet ∧ s < n.manager.created

variable {n n' : Net}

/-- A change of the server that brings no old session back into the set. -/
theorem Inv.withServer (h : n.Inv) {sv : Server} {r : Redis} (hc : sv.manager.Managed)
    (hset : ∀ s ∈ sv.manager.sessionSet, s < n.manager.created → s ∈ n.manager.sessionSet)
    (hcreated : n.manager.created ≤ sv.manager.created) :
    ({ n with server := sv, redis := r } : Net).Inv where
  endErased_eq := h.endErased_eq
  managed := hc
  nodup := h.nodup
  gone s hs := by
    obtain ⟨hgone, hlt⟩ := h.gone s hs
    exact ⟨fun hmem => hgone (hset s hmem hlt), hlt.trans_le hcreated⟩

theorem Inv.withManager (h : n.Inv) {c : ConnectionManager} (hc : c.Managed)
    (hset : c.sessionSet = n.manager.sessionSet) (hcreated : c.created = n.manager.created) :
    (n.withManager c).Inv :=
  h.withServer hc (fun s hs _ => by rwa [← hset]) hcreated.ge

/-- **The removal of a connected session.** -/
theorem Inv.removeConnection (h : n.Inv) {s : ℕ} (hconn : (n.manager.sessions s).isConnected = true)
    (hsole : SoleUser n.manager s) : (n.removeConnection s).Inv := by
  have hs := (h.managed.connected_iff s).1 hconn
  obtain ⟨r, hstop⟩ : ∃ r, n.manager.stop n.redis s = some (n.manager.without s, r) :=
    ⟨_, ConnectionManager.stop_eq_some_iff.2 ⟨⟨hs, h.managed.user_mem s hs⟩, rfl, rfl⟩⟩
  have hstep : n.serverStep (.disconnect s) =
      some { n with server := ⟨n.server.strServerSocket, n.manager.without s⟩, redis := r } :=
    Option.map_eq_some_iff.2 ⟨_, Option.map_eq_some_iff.2 ⟨_, hstop, rfl⟩, rfl⟩
  rw [Net.removeConnection, hstep]
  refine ⟨h.endErased_eq, h.managed.without hsole, ?_, fun s' hs' => ?_⟩
  · refine List.nodup_append.2 ⟨h.nodup, List.nodup_singleton s, fun a ha b hb => ?_⟩
    rw [List.mem_singleton.1 hb]
    rintro rfl
    exact (h.gone a ha).1 hs
  · change s' ∉ n.manager.sessionSet.erase s ∧ s' < n.manager.created
    rcases List.mem_append.1 hs' with hs' | hs'
    · exact ⟨fun hmem => (h.gone s' hs').1 (Finset.mem_of_mem_erase hmem), (h.gone s' hs').2⟩
    · rw [List.mem_singleton.1 hs']
      exact ⟨Finset.notMem_erase s _, h.managed.lt_created s hs⟩

/-- The removal of a session that is not connected erases what is not there. -/
theorem Inv.removeConnection_stopped (h : n.Inv) {s : ℕ}
    (hconn : (n.manager.sessions s).isConnected = false) :
    (n.removeConnection s).endErased = true := by
  have hs : s ∉ n.manager.sessionSet := by
    rw [← h.managed.connected_iff, hconn]
    exact Bool.false_ne_true
  have hstop : n.manager.stop n.redis s = none :=
    ConnectionManager.stop_eq_none_iff.2 fun hin => hs hin.1
  have hstep : n.serverStep (.disconnect s) = none :=
    Option.map_eq_none_iff.2 (Option.map_eq_none_iff.2 hstop)
  rw [Net.removeConnection, hstep]

/-- What a handler changes of a session. -/
theorem Inv.modify (h : n.Inv) {s : ℕ} {handler : TcpSession → TcpSession × Bool}
    (hconn : ∀ t, (handler t).1.isConnected = t.isConnected)
    (huser : ∀ t, (handler t).1.userId = t.userId) :
    (n.withManager (n.manager.modify s fun t => (handler t).1)).Inv :=
  h.withManager (h.managed.modify (hconn _) (huser _)) rfl rfl

/-- A handler runs, and removes the session only if it may be removed. -/
theorem Inv.handle (h : n.Inv) {s : ℕ} {handler : TcpSession → TcpSession × Bool}
    (hconn : ∀ t, (handler t).1.isConnected = t.isConnected)
    (huser : ∀ t, (handler t).1.userId = t.userId)
    (hremove : (handler (n.manager.sessions s)).2 = true →
      (n.manager.sessions s).isConnected = true ∧ SoleUser n.manager s) :
    (n.handle s handler).Inv := by
  have hmod : (n.withManager (n.manager.modify s fun t => (handler t).1)).Inv := h.modify hconn huser
  unfold Net.handle
  dsimp only
  split
  · next hcall =>
    obtain ⟨hlive, hsole⟩ := hremove hcall
    have huser' := ConnectionManager.apply_modify (c := n.manager) (f := fun t => (handler t).1)
      TcpSession.userId (huser (n.manager.sessions s))
    refine hmod.removeConnection ?_ fun hne s' hs' heq => ?_
    · exact (ConnectionManager.apply_modify (f := fun t => (handler t).1) TcpSession.isConnected
        (hconn _) s).trans hlive
    · refine hsole (fun hnil => hne ((huser' s).trans hnil)) s' hs' ?_
      exact (huser' s').symm.trans (heq.trans (huser' s))
  · exact hmod

/-- A handler that removes a session which was stopped erases what is not there. -/
theorem Inv.handle_stopped (h : n.Inv) {s : ℕ} {handler : TcpSession → TcpSession × Bool}
    (hconn : ∀ t, (handler t).1.isConnected = t.isConnected)
    (huser : ∀ t, (handler t).1.userId = t.userId)
    (hcall : (handler (n.manager.sessions s)).2 = true)
    (hstopped : (n.manager.sessions s).isConnected = false) : (n.handle s handler).endErased = true := by
  unfold Net.handle
  dsimp only
  rw [if_pos hcall]
  refine (h.modify hconn huser).removeConnection_stopped ?_
  exact (ConnectionManager.apply_modify (f := fun t => (handler t).1) TcpSession.isConnected
    (hconn _) s).trans hstopped

theorem handleRead_isConnected (e : ErrorCode) (t : TcpSession) :
    (t.handleRead e).1.isConnected = t.isConnected := by cases e <;> rfl

theorem handleRead_userId (e : ErrorCode) (t : TcpSession) :
    (t.handleRead e).1.userId = t.userId := by cases e <;> rfl

theorem handleWrite_isConnected (e : ErrorCode) (t : TcpSession) :
    (t.handleWrite e).1.isConnected = t.isConnected := by cases e <;> rfl

theorem handleWrite_userId (e : ErrorCode) (t : TcpSession) :
    (t.handleWrite e).1.userId = t.userId := by cases e <;> rfl

/-- The read handler calls `DisconnectedCallback_` where the operation is failing. -/
theorem handleRead_snd_iff {s : ℕ} {e : ErrorCode} {t : TcpSession} :
    (t.handleRead e).2 = true ↔ failing (.readDone s e) = some s := by
  cases e <;> simp [TcpSession.handleRead, failing]

theorem handleWrite_snd_iff {s : ℕ} {e : ErrorCode} {t : TcpSession} :
    (t.handleWrite e).2 = true ↔ failing (.writeDone s e) = some s := by
  cases e <;> simp [TcpSession.handleWrite, failing]

/-- **A step keeps the invariant.** -/
theorem Inv.step {e : Event} (h : n.Inv) (hok : n.Quiet e)
    (hstep : Net.step n e = some n') : n'.Inv := by
  unfold Net.step at hstep
  rw [h.endErased_eq, if_neg Bool.false_ne_true] at hstep
  cases e with
  | accept =>
    obtain rfl := Option.some.inj hstep
    refine h.withServer h.managed.handleAccept (fun s hs hlt => ?_) (Nat.le_succ _)
    rcases Finset.mem_insert.1 hs with rfl | hs
    · exact absurd hlt (lt_irrefl _)
    · exact hs
  | handshake conn request nowtime =>
    obtain ⟨⟨sv, r⟩, hsv, rfl⟩ := Option.map_eq_some_iff.1 hstep
    simp only [Server.step] at hsv
    split at hsv
    · next hconn =>
      obtain rfl := congrArg Prod.fst (Option.some.inj hsv)
      refine h.withServer ?_ (fun s hs _ => ?_) onShakeHandleReq_created.ge
      · exact onShakeHandleReq_manager h.managed
          (fun _ sessionid => h.managed.bindUser hconn sessionid _) fun c m hc => hc.send conn m
      · rwa [onShakeHandleReq_sessionSet] at hs
    · cases hsv
  | send conn m =>
    simp only [react] at hstep
    split at hstep
    · obtain rfl := Option.some.inj hstep
      exact h.withManager (h.managed.send conn m) rfl rfl
    · cases hstep
  | readDone s e =>
    simp only [react] at hstep
    split at hstep
    · obtain rfl := Option.some.inj hstep
      exact h.handle (handleRead_isConnected e) (handleRead_userId e) fun hcall =>
        hok s (handleRead_snd_iff.1 hcall)
    · cases hstep
  | writeDone s e =>
    simp only [react] at hstep
    split at hstep
    · obtain rfl := Option.some.inj hstep
      exact h.handle (handleWrite_isConnected e) (handleWrite_userId e) fun hcall =>
        hok s (handleWrite_snd_iff.1 hcall)
    · cases hstep
  | stopAll =>
    obtain rfl := Option.some.inj hstep
    exact h.withServer (h.managed.stopAll (r := n.redis))
      (fun s hs _ => absurd hs (Finset.notMem_empty s)) le_rfl
  | redis r =>
    obtain rfl := Option.some.inj hstep
    exact h.withServer h.managed (fun s hs _ => hs) le_rfl

/-- An operation that fails for a session which was stopped. -/
theorem Inv.endErased_of_step {e : Event} (h : n.Inv) {s : ℕ} (hs : failing e = some s)
    (hstopped : (n.manager.sessions s).isConnected = false) (hstep : Net.step n e = some n') :
    n'.endErased = true := by
  unfold Net.step at hstep
  rw [h.endErased_eq, if_neg Bool.false_ne_true] at hstep
  cases e with
  | readDone s' e =>
    obtain rfl : s' = s := by cases e <;> cases hs; rfl
    simp only [react] at hstep
    split at hstep
    · obtain rfl := Option.some.inj hstep
      exact h.handle_stopped (handleRead_isConnected e) (handleRead_userId e) (handleRead_snd_iff.2 hs)
        hstopped
    · cases hstep
  | writeDone s' e =>
    obtain rfl : s' = s := by cases e <;> cases hs <;> rfl
    simp only [react] at hstep
    split at hstep
    · obtain rfl := Option.some.inj hstep
      exact h.handle_stopped (handleWrite_isConnected e) (handleWrite_userId e)
        (handleWrite_snd_iff.2 hs) hstopped
    · cases hstep
  | accept | handshake | send | stopAll | redis => cases hs

end Net

/-- **A session is removed once.** In every run in which the operations that fail are those of sessions that
are connected and share their user with no other session, no call of `Connection_Manager::stop` erases
`end()`, and no session is stopped twice. When after such a run an operation fails for a session that was
stopped, `stop` erases `end()`. -/
theorem removed_once_of_run {strServerSocket : Bytes} {r : Redis} {es : List Net.Event} {n : Net}
    (hrun : Run Net.step Net.Quiet (Net.start strServerSocket r) es n) :
    n.endErased = false ∧ n.stops.Nodup ∧
      ∀ e s n', Net.failing e = some s → (n.manager.sessions s).isConnected = false →
        Net.step n e = some n' → n'.endErased = true := by
  have h : n.Inv := hrun.invariant (I := Net.Inv) (fun _ _ _ h hok hstep => h.step hok hstep)
    ⟨rfl, .new, List.nodup_nil, fun s hs => by cases hs⟩
  exact ⟨h.endErased_eq, h.nodup, fun e s n' hs hstopped hstep => h.endErased_of_step hs hstopped hstep⟩

/-- A connection that shakes hands for the user `a`, gets its answer, and fails in reading. -/
theorem removed_once_of_failed_read :
    ∃ n, Run Net.step Net.Quiet (Net.start (ascii "h:1") (loggedIn [ascii "a"]))
        [.accept, .handshake 0 ⟨0, ascii "a"⟩ 0, .readDone 0 .success, .writeDone 0 .success,
          .readDone 0 .other] n ∧
      n.endErased = false ∧ n.stops.Nodup := by
  have hsome : (exec Net.step Net.Quiet (Net.start (ascii "h:1") (loggedIn [ascii "a"]))
      [.accept, .handshake 0 ⟨0, ascii "a"⟩ 0, .readDone 0 .success, .writeDone 0 .success,
        .readDone 0 .other]).isSome = true := by decide +kernel
  obtain ⟨n, hexec⟩ := Option.isSome_iff_exists.1 hsome
  have hremoved := removed_once_of_run (.of_exec hexec)
  exact ⟨n, .of_exec hexec, hremoved.1, hremoved.2.1⟩

/-- Two messages are being written when the connection fails: the first write that reports the failure
closes the socket, the second one reports `operation_aborted`. -/
theorem aborted_write_stops_again :
    ∃ n, Run Net.step (fun _ _ => True) (Net.start (ascii "h:1") (loggedIn []))
        [.accept, .send 0 (.shakeHandleRes ⟨0, 0⟩), .send 0 (.shakeHandleRes ⟨0, 0⟩),
          .writeDone 0 .other, .writeDone 0 .operationAborted] n ∧
      n.endErased = true ∧ n.stops = [0, 0] := by
  have hexec : ((exec Net.step (fun _ _ => True) (Net.start (ascii "h:1") (loggedIn []))
      [.accept, .send 0 (.shakeHandleRes ⟨0, 0⟩), .send 0 (.shakeHandleRes ⟨0, 0⟩),
        .writeDone 0 .other, .writeDone 0 .operationAborted]).map fun n =>
          (n.endErased, n.stops)) = some (true, [0, 0]) := by decide +kernel
  obtain ⟨n, hexec, hend⟩ := Option.map_eq_some_iff.1 hexec
  obtain ⟨hend, hstops⟩ := Prod.mk.inj hend
  exact ⟨n, .of_exec hexec, hend, hstops⟩

end MutexIM.MessageServer
