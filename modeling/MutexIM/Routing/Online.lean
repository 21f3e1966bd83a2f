import Mathlib.Data.Fintype.Sum
import MutexIM.Foundations.Runs
import MutexIM.Routing.Turns

/-!
# One user on one server

* `World.Inv.step`: every step keeps the invariants of the servers, and the key of every user a good
  lease.
* `holder_unique_of_run`: a user is connected to one server at a time and the key names it, as long as
  a server enters the user only while the key is free and no other server is about to set it, and
  deletes the key only while it names the server itself.
* `two_holders`: two servers find no key and both enter the user.
-/

namespace MutexIM.Routing

open Bytes Codec MessageServer Web

namespace World

variable {ι κ : Type*} {sockets : ι ⊕ κ → Bytes} {w w' : World ι κ}
  {serialize : MsgData → Bytes} {gbk : Bytes → Bytes}

/-- The invariant: of every server, and the key of every user is a good lease. -/
structure Inv (sockets : ι ⊕ κ → Bytes) (w : World ι κ) : Prop where
  node : ∀ i, (w.nodes i).Inv
  nodeSocket : ∀ i, (w.nodes i).server.strServerSocket = sockets (.inl i)
  web : ∀ j, SocketInv (w.webs j)
  webSocket : ∀ j, (w.webs j).g_socketStr = sockets (.inr j)
  lease : ∀ u, (w.lease u).Good (names sockets)

theorem names_injective (hsockets : Function.Injective sockets) : Function.Injective (names sockets) :=
  fun _ _ h => hsockets (Value.str.inj h)

theorem inv_start (sockets : ι ⊕ κ → Bytes) (r : Redis) : (start sockets r).Inv sockets where
  node i :=
    { connected :=
        { set_lt := fun s hs => by cases hs
          map_lt := fun u s hs => by cases hs
          fresh := fun s hs => rfl
          isConnected := fun s hs => by cases hs
          unique := fun s hs => by cases hs
          nulFree := fun s => List.forall_mem_nil _ }
      task := trivial }
  nodeSocket i := rfl
  web j :=
    { connected_lt := fun socket h => by cases h
      map_lt := fun u socket h => by cases h
      value := fun u v h => by cases h }
  webSocket j := rfl
  lease u :=
    { settled := by rintro (i | j) ⟨s, hs, -⟩ <;> cases hs
      exclusive := by rintro (i | j) h <;> cases h }

variable [DecidableEq ι] [DecidableEq κ]

theorem lease_setNode (i : ι) (n : Worker) (r : Redis) (u : Bytes) :
    (w.setNode i n r).lease u = ⟨r.keys (ascii "online:" ++ u),
      Function.update (w.lease u).holds (.inl i) (n.Holds u),
      Function.update (w.lease u).ops (.inl i) (n.ops u)⟩ := by
  simp only [lease, setNode, Sum.update_elim_inl, Lease.mk.injEq, true_and]
  constructor
  · congr 1
    exact Function.comp_update (fun n : Worker => n.Holds u) ..
  · congr 1
    exact Function.comp_update (fun n : Worker => n.ops u) ..

theorem lease_setWeb (j : κ) (sv : SocketServer) (r : Redis) (u : Bytes) :
    (w.setWeb j sv r).lease u = ⟨r.keys (ascii "online:" ++ u),
      Function.update (w.lease u).holds (.inr j) (sv.Holds u),
      Function.update (w.lease u).ops (.inr j) (sv.ops u)⟩ := by
  simp only [lease, setWeb, Sum.update_elim_inr, Lease.mk.injEq, true_and]
  constructor
  · congr 1
    exact Function.comp_update (fun sv : SocketServer => sv.Holds u) ..
  · congr 1
    exact Function.comp_update (fun sv : SocketServer => sv.ops u) ..

/-- A turn of a message server. -/
theorem Inv.setNode (hw : w.Inv sockets) (hsockets : Function.Injective sockets) {i : ι} {n : Worker}
    {r : Redis} (h : Turned sockets w i n r) : (w.setNode i n r).Inv sockets := by
  constructor
  case node =>
    refine (Function.forall_update_iff w.nodes fun _ n => n.Inv).2 ⟨h.inv, fun k _ => hw.node k⟩
  case nodeSocket =>
    refine (Function.forall_update_iff w.nodes
      fun k n => n.server.strServerSocket = sockets (.inl k)).2 ⟨?_, fun k _ => hw.nodeSocket k⟩
    exact h.socket.trans (hw.nodeSocket i)
  case web => exact hw.web
  case webSocket => exact hw.webSocket
  case lease =>
    intro u
    rw [lease_setNode]
    exact (hw.lease u).turn (names_injective hsockets) (h.turn u)

/-- A turn of a web server. -/
theorem Inv.setWeb (hw : w.Inv sockets) (hsockets : Function.Injective sockets) {j : κ}
    {sv : SocketServer} {r : Redis} (h : SocketTurned sockets w j sv r) :
    (w.setWeb j sv r).Inv sockets := by
  constructor
  case node => exact hw.node
  case nodeSocket => exact hw.nodeSocket
  case web =>
    refine (Function.forall_update_iff w.webs fun _ sv => SocketInv sv).2 ⟨h.inv, fun k _ => hw.web k⟩
  case webSocket =>
    refine (Function.forall_update_iff w.webs fun k sv => sv.g_socketStr = sockets (.inr k)).2
      ⟨h.socket.trans (hw.webSocket j), fun k _ => hw.webSocket k⟩
  case lease =>
    intro u
    rw [lease_setWeb]
    exact (hw.lease u).turn (names_injective hsockets) (h.turn u)

/-- The thread of a message server turns to a handshake or a disconnect. -/
theorem Inv.begin (hw : w.Inv sockets) (hsockets : Function.Injective sockets) {i : ι} {t : Task}
    (h : w.begin i t = some w') (hops : ∀ u, Worker.ops ⟨(w.nodes i).server, some t⟩ u = [])
    (htask : TaskInv ⟨(w.nodes i).server, some t⟩) : w'.Inv sockets := by
  unfold World.begin at h
  split at h
  · next hnone =>
    obtain rfl := Option.some.inj h
    have hidle : ∀ u, (w.nodes i).ops u = [] := fun u => by rw [Worker.ops, hnone]
    exact hw.setNode hsockets (.quiet (hw.node i) hidle (.refl _) rfl (fun _ => rfl) hops htask)
  · cases h

/-- **Every step keeps the invariant.** -/
theorem Inv.step (hw : w.Inv sockets) (hsockets : Function.Injective sockets)
    (hnul : ∀ i, NulFree (sockets (.inl i))) {e : Event ι κ} (hok : w.Undisturbed sockets e)
    (h : w.step serialize gbk e = some w') : w'.Inv sockets := by
  cases e with
  | accept i =>
    simp only [World.step] at h
    split at h
    · next hnone =>
      obtain rfl := Option.some.inj h
      have hidle : ∀ u, (w.nodes i).ops u = [] := fun u => by rw [Worker.ops, hnone]
      have hconnected := (hw.node i).connected
      refine hw.setNode hsockets ⟨⟨hconnected.handleAccept, trivial⟩, rfl, fun u => ?_⟩
      exact .quiet (holds_handleAccept hconnected).1 (hidle u).symm rfl
    · cases h
  | shakeHandle i conn request nowtime =>
    simp only [World.step] at h
    split at h
    · next hconn =>
      exact hw.begin hsockets h (fun _ => rfl) ⟨hconn, fun h => by cases h⟩
    · cases h
  | disconnect i s => exact hw.begin hsockets h (fun _ => rfl) fun h => absurd rfl h
  | work i =>
    obtain ⟨t, htask, h⟩ := Option.bind_eq_some_iff.1 h
    obtain ⟨⟨t', sv', r'⟩, hnext, rfl⟩ := Option.map_eq_some_iff.1 h
    exact hw.setNode hsockets
      (Worker.turn (hw.node i) htask (hw.nodeSocket i) (hnul i) hw.lease hok hnext)
  | connection j =>
    obtain rfl := Option.some.inj h
    exact hw.setWeb hsockets (.connection (hw.web j))
  | handleShake j socket userId =>
    simp only [World.step] at h
    split at h
    · next hconnected =>
      obtain rfl := Option.some.inj h
      exact hw.setWeb hsockets (.handleShake (hw.web j) hconnected hok.1 hok.2)
    · cases h
  | peerMessage j data =>
    obtain rfl := Option.some.inj h
    exact hw.setWeb hsockets (.issue (hw.web j) rfl (List.forall_mem_singleton.2 fun _ => rfl))
  | close j socket =>
    simp only [World.step] at h
    split at h
    · obtain rfl := Option.some.inj h
      exact hw.setWeb hsockets (.disconnect (hw.web j))
    · cases h
  | execute j =>
    obtain ⟨⟨r', p⟩, hrun, rfl⟩ := Option.map_eq_some_iff.1 h
    exact hw.setWeb hsockets (.execute (hw.web j) (hw.webSocket j) hok hrun)
  | callback j =>
    obtain ⟨⟨reply, p⟩, hnext, rfl⟩ := Option.map_eq_some_iff.1 h
    exact hw.setWeb hsockets
      (.callback (hw.web j) (Pipeline.next?_eq_some hnext).2 serialize gbk reply)
  | other k v =>
    simp only [World.step] at h
    split at h
    · cases h
    · next hk =>
      obtain rfl := Option.some.inj h
      have hkeys : ∀ u, Function.update w.redis.keys k v (ascii "online:" ++ u) =
          w.redis.keys (ascii "online:" ++ u) := by
        intro u
        refine Function.update_of_ne (fun heq => hk ?_) ..
        exact heq ▸ List.prefix_append ..
      exact ⟨hw.node, hw.nodeSocket, hw.web, hw.webSocket,
        fun u => (hw.lease u).weaken (fun _ h => h) rfl (hkeys u)⟩

/-- The server has a connection that is registered for the user and lives. -/
def Holds (w : World ι κ) (x : ι ⊕ κ) (u : Bytes) : Prop := (w.lease u).holds x

/-- No handshake and no disconnect on the server is about to write the user's key. -/
def Idle (w : World ι κ) (x : ι ⊕ κ) (u : Bytes) : Prop := (w.lease u).ops x = []

/-- A user is connected to one server at a time, and the user's key names it. -/
structure OneServer (sockets : ι ⊕ κ → Bytes) (w : World ι κ) : Prop where
  unique : ∀ u x y, w.Holds x u → w.Holds y u → x = y
  named : ∀ u x, w.Holds x u → w.Idle x u →
    w.redis.keys (ascii "online:" ++ u) = some (names sockets x)

/-- **One user is online on one server**, in every run in which a handshake enters the user while the
key is free and no other server is about to set it, and a disconnect deletes the key while it is free
or names its own server. -/
theorem holder_unique_of_run (hsockets : Function.Injective sockets)
    (hnul : ∀ i, NulFree (sockets (.inl i))) {r : Redis} {es : List (Event ι κ)}
    (hrun : Run (step serialize gbk) (Undisturbed sockets) (start sockets r) es w) :
    w.OneServer sockets := by
  have hw : w.Inv sockets :=
    hrun.invariant (fun _ _ _ hw hok hstep => hw.step hsockets hnul hok hstep) (inv_start sockets r)
  exact ⟨fun u x y => (hw.lease u).holder_unique (names_injective hsockets),
    fun u x => (hw.lease u).key_eq⟩

/-! ## Two servers -/

/-- A message server and a web server. -/
def mixedSockets : Unit ⊕ Unit → Bytes
  | .inl () => ascii "h:1"
  | .inr () => ascii "w:1"

/-- Two message servers. -/
def twoSockets : Bool ⊕ Empty → Bytes
  | .inl i => if i then ascii "h:1" else ascii "h:2"

instance [Fintype ι] [Fintype κ] (sockets : ι ⊕ κ → Bytes) (w : World ι κ) (e : Event ι κ) :
    Decidable (w.Undisturbed sockets e) := by
  unfold Undisturbed
  split
  · split <;> infer_instance
  · infer_instance
  · split <;> infer_instance
  · infer_instance

/-- A user comes online on the message server, goes, and comes online on the web server. -/
def oneAfterTheOther : List (Event Unit Unit) :=
  [.accept (), .shakeHandle () 0 ⟨0, ascii "a"⟩ 0] ++ List.replicate 7 (.work ()) ++
    [.disconnect () 0] ++ List.replicate 5 (.work ()) ++
    [.connection (), .handleShake () 0 (ascii "a"), .execute (), .execute (), .execute ()]

/-- A user's handshakes on two servers, command by command in turns. -/
def atOnce : List (Event Bool Empty) :=
  [.accept true, .accept false, .shakeHandle true 0 ⟨0, ascii "a"⟩ 0, .shakeHandle false 0 ⟨0, ascii "a"⟩ 0] ++
    (List.replicate 3 [.work true, .work false]).flatten

theorem oneServer_oneAfterTheOther : ∃ w,
    Run (step (fun m => (ChatMsg.msgData m).serialize) id) (Undisturbed mixedSockets)
      (start mixedSockets (loggedIn [ascii "a"])) oneAfterTheOther w ∧ w.OneServer mixedSockets := by
  have hsome : (exec (step (fun m => (ChatMsg.msgData m).serialize) id) (Undisturbed mixedSockets)
      (start mixedSockets (loggedIn [ascii "a"])) oneAfterTheOther).isSome = true := by
    decide +kernel
  obtain ⟨w, hexec⟩ := Option.isSome_iff_exists.1 hsome
  have hrun := Run.of_exec hexec
  exact ⟨w, hrun, holder_unique_of_run (by decide) (by decide) hrun⟩

/-- **Two holders**: both servers find no key, and both enter the user. -/
theorem two_holders : Function.Injective twoSockets ∧ (∀ i, NulFree (twoSockets (.inl i))) ∧ ∃ w,
    Run (step (fun m => (ChatMsg.msgData m).serialize) id) (fun _ _ => True)
      (start twoSockets (loggedIn [ascii "a"])) atOnce w ∧ ¬w.OneServer twoSockets := by
  have hany : (exec (step (fun m => (ChatMsg.msgData m).serialize) id) (fun _ _ => True)
      (start twoSockets (loggedIn [ascii "a"])) atOnce).any (fun w => ∀ i,
        (w.nodes i).server.manager.findUser (ascii "a") = some 0 ∧
          ((w.nodes i).server.manager.sessions 0).isConnected = true) = true := by decide +kernel
  obtain ⟨w, hrun, hw⟩ := Run.exists_of_exec hany
  have hholds : ∀ i, w.Holds (.inl i) (ascii "a") := fun i => ⟨0, hw i⟩
  refine ⟨by decide, by decide, w, hrun, fun h => ?_⟩
  cases h.unique _ _ _ (hholds true) (hholds false)

end World

end MutexIM.Routing
