import Mathlib.Algebra.BigOperators.Ring.Finset
import Mathlib.Data.Fintype.BigOperators
import MutexIM.EndToEnd.Addressed
import MutexIM.Foundations.Channels

/-!
# How often the servers send a message

A chat message for a user is handled on the server it has come in on, and is sent from there, is published
for another server and sent from there, or is put in a list. So the servers send it to a client no more
often than it has come in, unless another program publishes it too.

* `onTheWay` counts the copies of a message that are handled, or published for a client's server.
* `balance_input`, `balance_receive`: what is sent to the client is on the way no longer.
* `Bounded` is the invariant; `Bounded.input` and `Bounded.receive`: every step keeps it.
-/

namespace MutexIM.EndToEnd

open Bytes Codec MessageServer Routing

variable {ι : Type} {n : ℕ}

/-! ## Where the copies are -/

/-- A handler has the message. -/
def pending (m : MsgData) : Option Job → ℕ
  | some (.task (.peer ptrMsg _)) => if ptrMsg = m then 1 else 0
  | _ => 0

/-- The messages for users in what a server gets. -/
def inbox (strServerSocket : Bytes) (es : List (Bytes × Bytes)) : List MsgData :=
  (es.filter fun e => e.1 = ascii "peerMsg:" ++ strServerSocket).flatMap fun e => received e.2

/-- The server of a client. -/
def Backend.nodeOf (S : Setting ι n) (b : Backend ι) (k : Fin n) : ServerNode := b.nodes (S.home k).1

/-- The copies that are handled, and those that the server of a client is going to get. -/
def onTheWay [Fintype ι] (S : Setting ι n) (b : Backend ι) (k : Fin n) (m : MsgData) : ℕ :=
  (inbox (b.nodeOf S k).server.strServerSocket (unread b.redis.published (b.nodeOf S k).seen)).count m +
    ∑ j, pending m (b.nodes j).job

theorem chats_append (ms ms' : List IMMsg) : chats (ms ++ ms') = chats ms ++ chats ms' :=
  List.filterMap_append

theorem inbox_append (socket : Bytes) (es es' : List (Bytes × Bytes)) :
    inbox socket (es ++ es') = inbox socket es ++ inbox socket es' := by
  rw [inbox, List.filter_append, List.flatMap_append]
  rfl

theorem inbox_sublist (socket : Bytes) (es : List (Bytes × Bytes)) :
    (inbox socket es).Sublist (es.flatMap fun e => received e.2) := List.filter_sublist.flatMap _

/-- Behind what has been seen, there is no more than what is added. -/
theorem count_inbox_unread_append (socket : Bytes) (es es' : List (Bytes × Bytes)) (seen : ℕ) (m : MsgData) :
    (inbox socket (unread (es ++ es') seen)).count m ≤
      (inbox socket (unread es seen)).count m + (inbox socket es').count m := by
  rw [unread, List.drop_append, inbox_append, List.count_append]
  exact Nat.add_le_add_left ((((List.drop_sublist _ es').filter _).flatMap _).count_le m) _

/-- A message that is published on the channel of the server. -/
theorem inbox_singleton {socket : Bytes} {e : Bytes × Bytes} {ptrMsg : MsgData}
    (hchannel : e.1 = ascii "peerMsg:" ++ socket) (hptr : received e.2 = [ptrMsg]) :
    inbox socket [e] = [ptrMsg] := by
  rw [inbox, List.filter_eq_self.2 fun x hx => decide_eq_true (List.mem_singleton.1 hx ▸ hchannel),
    List.flatMap_singleton, hptr]

/-! ## Steps -/

section Steps

variable {S : Setting ι n} {b b' : Backend ι} {got out ms : List (Option (Fin n) × IMMsg)} {k : Fin n}
  {m : MsgData} {H : History n} {i : ι} {L : Layout Bytes Bytes} {order : Keyspace.NumericOrder}
  {sv sv' : Server} {r r' : Redis} {t : Job} {t' : Option Job} {answers : List (ℕ × IMMsg)}
  {e : Bytes × Bytes}

/-- Lists are no chat messages. -/
theorem msgData?_answers (hnext : t.next L order sv r = some (t', sv', r', answers)) :
    ∀ a ∈ answers, a.2.msgData? = none := by
  intro a ha
  cases t with
  | task t =>
    obtain ⟨t₁, -, -, rfl⟩ := Job.next_task hnext
    cases ha
  | group ptrMsg stage =>
    obtain ⟨stage', -, -, rfl, -⟩ := Job.next_group hnext
    cases ha
  | unread t =>
    obtain ⟨stage', -, -, rfl⟩ := Job.next_unread hnext
    cases ha
  | users conn ptrRequest nowtime stage =>
    obtain ⟨-, -, ⟨stage', -, -, rfl⟩ | ⟨ids, msgData, -, -, hanswers⟩⟩ := Job.next_users hnext
    · cases ha
    · rw [hanswers a ha]
      rfl
  | groups conn ptrRequest nowtime stage =>
    obtain ⟨-, -, ⟨stage', -, -, rfl⟩ | ⟨ids, msgData, -, -, hanswers⟩⟩ := Job.next_groups hnext
    · cases ha
    · rw [hanswers a ha]
      rfl
  | members conn ptrRequest nowtime =>
    obtain ⟨-, -, -, hanswers⟩ := Job.next_members hnext
    obtain ⟨response, -, rfl⟩ := hanswers a ha
    rfl

/-- The chat messages that a client gets. -/
theorem chats_emit [DecidableEq ι] (hanswers : ∀ a ∈ answers, a.2.msgData? = none) :
    chats (ofPeer (some k) (Backend.emit S i sv sv' answers)) =
      if (S.home k).1 = i then chats ((gained sv sv' (S.home k).2).map IMMsg.ofChat) else [] := by
  rw [Backend.ofPeer_emit]
  split
  · have hnone : chats ((answers.filter fun a => a.1 = (S.home k).2).map Prod.snd) = [] := by
      refine List.filterMap_eq_nil_iff.2 fun x hx => ?_
      obtain ⟨a, ha, rfl⟩ := List.mem_map.1 hx
      exact hanswers a (List.mem_filter.1 ha).1
    rw [chats_append, hnone, List.append_nil]
  · rfl

theorem count_chats_emit [DecidableEq ι] (hanswers : ∀ a ∈ answers, a.2.msgData? = none) :
    (chats (ofPeer (some k) (Backend.emit S i sv sv' answers))).count m =
      if (S.home k).1 = i then (chats ((gained sv sv' (S.home k).2).map IMMsg.ofChat)).count m else 0 := by
  rw [chats_emit hanswers]
  split <;> rfl

/-- What is left of the handler of a message has it at most. -/
theorem pending_peer_le (ptrMsg : MsgData) (stage : PeerStage) (stage' : Option PeerStage) :
    pending m ((stage'.map (.peer ptrMsg)).map .task) ≤ pending m (some (.task (.peer ptrMsg stage))) := by
  cases stage' with
  | none => exact Nat.zero_le _
  | some stage' => exact le_rfl

theorem count_singleton_le_pending (ptrMsg : MsgData) (stage : PeerStage) :
    [ptrMsg].count m ≤ pending m (some (.task (.peer ptrMsg stage))) := by
  rw [List.count_singleton, pending]
  simp only [beq_iff_eq, le_refl]

/-- A step of the handler of a message for a user. -/
theorem PeerStage.balance_le {ptrMsg : MsgData} (hfits : (ChatMsg.msgData ptrMsg).Fits) (s : ℕ)
    (socket : Bytes) {stage : PeerStage} {stage' : Option PeerStage}
    (hstage : stage.next sv r ptrMsg = (stage', sv', r')) :
    (chats ((Job.puts sv r (.task (.peer ptrMsg stage)) s).map IMMsg.ofChat)).count m +
      (inbox socket (Job.publishes sv (.task (.peer ptrMsg stage)))).count m +
        pending m ((stage'.map (.peer ptrMsg)).map .task) ≤
      pending m (some (.task (.peer ptrMsg stage))) := by
  have hleft := pending_peer_le (m := m) ptrMsg stage stage'
  have hone := count_singleton_le_pending (m := m) ptrMsg stage
  cases stage with
  | find =>
    rw [Job.puts]
    split
    · next hfind =>
      rw [PeerStage.next, hfind.1] at hstage
      obtain ⟨rfl, -⟩ := hstage
      exact hone
    · exact (Nat.zero_add _).trans_le hleft
  | publish serverSocket =>
    obtain ⟨rfl, -⟩ := hstage
    refine le_trans ?_ hone
    have hsub : (inbox socket [(cstr (ascii "peerMsg:" ++ serverSocket),
        (ChatMsg.msgData ptrMsg).serialize)]).Sublist [ptrMsg] := by
      rw [← received_serialize hfits]
      have hsub := inbox_sublist socket
        [(cstr (ascii "peerMsg:" ++ serverSocket), (ChatMsg.msgData ptrMsg).serialize)]
      rwa [List.flatMap_singleton] at hsub
    exact (Nat.zero_add _).trans_le (hsub.count_le m)
  | _ => exact (Nat.zero_add _).trans_le hleft

/-- The handlers of messages for users. -/
def IsPeer (t : Job) : Prop := ∃ ptrMsg stage, t = .task (.peer ptrMsg stage)

/-- Others send no message for a user, -/
theorem JobSound.isPeer_of_puts (h : JobSound H S i t) (hm : PeerMsg m) {s : ℕ}
    (hmem : m ∈ chats ((t.puts sv r s).map IMMsg.ofChat)) : IsPeer t := by
  obtain ⟨x, hx, hmsg⟩ := List.mem_filterMap.1 hmem
  obtain ⟨c, hc, rfl⟩ := List.mem_map.1 hx
  unfold Job.puts at hc
  split at hc
  · exact ⟨_, _, rfl⟩
  · split at hc
    · obtain rfl := List.mem_singleton.1 hc
      cases hmsg
    · cases hc
  · obtain ⟨-, rfl⟩ := List.mem_replicate.1 hc
    obtain rfl := Option.some.inj hmsg
    exact absurd hm (not_peerMsg_of_groupMsg h.1)
  · split at hc
    · obtain rfl := List.mem_singleton.1 hc
      cases hmsg
    · cases hc
  · cases hc

/-- publish none, -/
theorem JobSound.isPeer_of_publishes (h : JobSound H S i t) {socket : Bytes}
    (hmem : m ∈ inbox socket (t.publishes sv)) : IsPeer t := by
  obtain ⟨e, he, -⟩ := List.mem_flatMap.1 hmem
  obtain ⟨he, hchannel⟩ := List.mem_filter.1 he
  have hpeer : ascii "peerMsg:" <+: e.1 := of_decide_eq_true hchannel ▸ List.prefix_append _ _
  unfold Job.publishes at he
  split at he
  · exact ⟨_, _, rfl⟩
  · obtain rfl := List.mem_singleton.1 he
    exact absurd hpeer (show ¬ascii "peerMsg:" <+: ascii "online" by decide)
  · obtain rfl := List.mem_singleton.1 he
    exact absurd hpeer (show ¬ascii "peerMsg:" <+: ascii "offline" by decide)
  · obtain rfl := List.mem_singleton.1 he
    obtain ⟨rest, hrest⟩ := (h.2.2 _ rfl _ List.mem_cons_self).channel
    obtain ⟨rest', hrest'⟩ := hpeer
    cases hrest.trans hrest'.symm
  · cases he

/-- and do not turn into one. -/
theorem isPeer_of_next (hnext : t.next L order sv r = some (t', sv', r', answers))
    (hpending : pending m t' ≠ 0) : IsPeer t := by
  cases t with
  | task t =>
    obtain ⟨t₁, htask, rfl, -⟩ := Job.next_task hnext
    cases t with
    | peer ptrMsg stage => exact ⟨ptrMsg, stage, rfl⟩
    | shake conn request nowtime stage =>
      obtain ⟨stage', -, rfl⟩ := Task.next_shake htask
      cases stage' <;> exact absurd rfl hpending
    | stop conn stage =>
      obtain ⟨stage', -, rfl⟩ := Task.next_stop htask
      cases stage' <;> exact absurd rfl hpending
  | group ptrMsg stage =>
    obtain ⟨stage', -, rfl, -⟩ := Job.next_group hnext
    cases stage' <;> exact absurd rfl hpending
  | unread t =>
    obtain ⟨stage', -, rfl, -⟩ := Job.next_unread hnext
    cases stage' <;> exact absurd rfl hpending
  | users conn ptrRequest nowtime stage =>
    obtain ⟨-, -, ⟨stage', -, rfl, -⟩ | ⟨ids, msgData, -, rfl, -⟩⟩ := Job.next_users hnext <;>
      exact absurd rfl hpending
  | groups conn ptrRequest nowtime stage =>
    obtain ⟨-, -, ⟨stage', -, rfl, -⟩ | ⟨ids, msgData, -, rfl, -⟩⟩ := Job.next_groups hnext <;>
      exact absurd rfl hpending
  | members conn ptrRequest nowtime =>
    obtain ⟨-, -, rfl, -⟩ := Job.next_members hnext
    exact absurd rfl hpending

/-- **A step of a handler**: a message for a user that it sends or publishes it does not have any more. -/
theorem JobSound.balance (h : JobSound H S i t) (hfits : ∀ x ∈ H.chats, (ChatMsg.msgData x).Fits)
    (hm : PeerMsg m) (s : ℕ) (socket : Bytes)
    (hnext : t.next L order sv r = some (t', sv', r', answers)) :
    (chats ((t.puts sv r s).map IMMsg.ofChat)).count m + (inbox socket (t.publishes sv)).count m +
      pending m t' ≤ pending m (some t) := by
  by_cases hpeer : IsPeer t
  · obtain ⟨ptrMsg, stage, rfl⟩ := hpeer
    obtain ⟨t₁, htask, rfl, -⟩ := Job.next_task hnext
    obtain ⟨stage', hstage, rfl⟩ := Task.next_peer htask
    exact PeerStage.balance_le (hfits ptrMsg h.2) s socket hstage
  · rw [List.count_eq_zero.2 fun hmem => hpeer (h.isPeer_of_puts hm hmem),
      List.count_eq_zero.2 fun hmem => hpeer (h.isPeer_of_publishes hmem),
      not_ne_iff.1 fun hpending => hpeer (isPeer_of_next hnext hpending)]
    exact Nat.zero_le _

variable [Fintype ι]

/-- **The invariant**: the copies that were sent to the client and those that are on the way are no more than
have come in. -/
def Bounded (S : Setting ι n) (b : Backend ι) (got out : List (Option (Fin n) × IMMsg)) (k : Fin n)
    (m : MsgData) : Prop :=
  (chats (ofPeer (some k) out)).count m + onTheWay S b k m ≤ (b.history got).chats.count m

theorem bounded_start (S : Setting ι n) (sockets : ι → Bytes) (r : Redis) (k : Fin n) (m : MsgData) :
    Bounded S (.start sockets r) [] [] k m := by
  have hinbox : unread r.published r.published.length = [] := List.drop_length
  simp [Bounded, onTheWay, Backend.nodeOf, Backend.start, Backend.history, History.chats, hinbox, chats,
    ofPeer, inbox, pending]

variable [DecidableEq ι]

/-- A server is replaced: what it has more of, others do not. -/
theorem onTheWay_update {node : ServerNode} {r : Redis} {c : ℕ}
    (hnodes : b'.nodes = Function.update b.nodes i node) (hredis : b'.redis.published = r.published)
    (hcount : (S.home k).1 = i →
      (inbox node.server.strServerSocket (unread r.published node.seen)).count m + pending m node.job + c ≤
        (inbox (b.nodes i).server.strServerSocket (unread b.redis.published (b.nodes i).seen)).count m +
          pending m (b.nodes i).job)
    (hother : (S.home k).1 ≠ i →
      (inbox (b.nodeOf S k).server.strServerSocket (unread r.published (b.nodeOf S k).seen)).count m +
          pending m node.job + c ≤
        (inbox (b.nodeOf S k).server.strServerSocket
          (unread b.redis.published (b.nodeOf S k).seen)).count m + pending m (b.nodes i).job) :
    c + onTheWay S b' k m ≤ onTheWay S b k m := by
  have hsum := sum_place (fun _ node => pending m node.job) b.nodes i node
  unfold onTheWay
  rw [hredis, Backend.nodeOf, hnodes]
  by_cases hk : (S.home k).1 = i
  · have hself := hcount hk
    rw [hk, Function.update_self]
    rw [Backend.nodeOf, hk]
    omega
  · have hrest := hother hk
    rw [Function.update_of_ne hk]
    rw [Backend.nodeOf] at hrest ⊢
    omega

/-- The thread of a server goes on. -/
theorem balance_work (h : Sound S b got out) (hm : PeerMsg m) (ht : (b.nodes i).job = some t)
    (hnext : t.next S.L S.order (b.nodes i).server b.redis = some (t', sv, r, answers)) :
    (chats (ofPeer (some k) (Backend.emit S i (b.nodes i).server sv answers))).count m +
      onTheWay S (b.afterWork i t' sv r) k m ≤ onTheWay S b k m := by
  have hturn := Job.turn hnext
  have hbalance := fun socket => (h.job i t ht).balance h.fits hm (S.home k).2 socket hnext
  rw [count_chats_emit (msgData?_answers hnext), gained_eq (hturn.sent _)]
  refine onTheWay_update (i := i) (r := r) rfl rfl (fun hk => ?_) fun hk => ?_
  · have hinbox := count_inbox_unread_append (b.nodes i).server.strServerSocket b.redis.published
      (t.publishes (b.nodes i).server) (b.nodes i).seen m
    have hown := hbalance (b.nodes i).server.strServerSocket
    dsimp only
    rw [if_pos hk, hturn.published, hturn.socket, ht]
    omega
  · have hinbox := count_inbox_unread_append (b.nodeOf S k).server.strServerSocket b.redis.published
      (t.publishes (b.nodes i).server) (b.nodeOf S k).seen m
    have hown := hbalance (b.nodeOf S k).server.strServerSocket
    dsimp only
    rw [if_neg hk, hturn.published, ht]
    omega

/-- The subscriber of a server is handed a published message. -/
theorem balance_deliver {puts : ℕ → List ChatMsg}
    (he : b.redis.published[(b.nodes i).seen]? = some e)
    (hturn : Turn (b.nodes i).server b.redis sv b.redis [] puts [])
    (hputs : (chats ((puts (S.home k).2).map IMMsg.ofChat)).count m ≤
      (inbox (b.nodes i).server.strServerSocket [e]).count m) :
    (chats (ofPeer (some k) (Backend.emit S i (b.nodes i).server sv []))).count m +
      onTheWay S (b.afterDeliver i sv) k m ≤ onTheWay S b k m := by
  rw [count_chats_emit (List.forall_mem_nil _), gained_eq (hturn.sent _)]
  refine onTheWay_update (i := i) (r := b.redis) rfl rfl (fun hk => ?_) fun hk => ?_
  · dsimp only
    rw [if_pos hk, hturn.socket, unread_eq_cons he, ← List.singleton_append, inbox_append, List.count_append]
    omega
  · rw [if_neg hk]
    exact le_rfl

/-- A server is replaced, and nothing is sent. -/
theorem balance_setNode {node : ServerNode} {c : ℕ}
    (hsocket : node.server.strServerSocket = (b.nodes i).server.strServerSocket)
    (hseen : (b.nodes i).seen ≤ node.seen) (hjob : pending m node.job ≤ pending m (b.nodes i).job + c) :
    (chats (ofPeer (some k) [])).count m + onTheWay S (b.setNode i node) k m ≤ onTheWay S b k m + c := by
  have hsum := sum_place (fun _ node => pending m node.job) b.nodes i node
  have hunread : (inbox ((b.setNode i node).nodeOf S k).server.strServerSocket
      (unread b.redis.published ((b.setNode i node).nodeOf S k).seen)).Sublist
      (inbox (b.nodeOf S k).server.strServerSocket (unread b.redis.published (b.nodeOf S k).seen)) := by
    change (inbox (Function.update b.nodes i node (S.home k).1).server.strServerSocket
      (unread _ (Function.update b.nodes i node (S.home k).1).seen)).Sublist
      (inbox (b.nodes (S.home k).1).server.strServerSocket (unread _ (b.nodes (S.home k).1).seen))
    by_cases hk : (S.home k).1 = i
    · rw [hk, Function.update_self, hsocket]
      exact ((List.drop_sublist_drop_left _ hseen).filter _).flatMap _
    · rw [Function.update_of_ne hk]
  have hcount := hunread.count_le m
  have hnone : (chats (ofPeer (some k) ([] : List (Option (Fin n) × IMMsg)))).count m = 0 := rfl
  rw [hnone]
  unfold onTheWay
  change _ + ((inbox _ (unread b.redis.published _)).count m +
    ∑ j, pending m (Function.update b.nodes i node j).job) ≤ _
  omega

theorem balance_quiet {node : ServerNode}
    (hsocket : node.server.strServerSocket = (b.nodes i).server.strServerSocket)
    (hseen : (b.nodes i).seen ≤ node.seen) (hjob : node.job = (b.nodes i).job) :
    (chats (ofPeer (some k) [])).count m + onTheWay S (b.setNode i node) k m ≤ onTheWay S b k m :=
  balance_setNode (c := 0) hsocket hseen (congrArg (pending m) hjob).le

/-- The thread of a server turns to a handler. -/
theorem balance_begin {t : Option Job} (hbegin : b.begin i t = some (b', ms)) :
    (chats (ofPeer (some k) ms)).count m + onTheWay S b' k m ≤ onTheWay S b k m + pending m t := by
  obtain ⟨-, rfl, rfl⟩ := Backend.begin_inv hbegin
  exact balance_setNode rfl le_rfl (Nat.le_add_left _ _)

/-- The subscriber of a server is handed a message for a user. -/
theorem balance_subscribePeerMsg (he : b.redis.published[(b.nodes i).seen]? = some e)
    (hchannel : e.1 = ascii "peerMsg:" ++ (b.nodes i).server.strServerSocket)
    (hsv : subscribePeerMsg (b.nodes i).server e.2 = some sv) :
    (chats (ofPeer (some k) (Backend.emit S i (b.nodes i).server sv []))).count m +
      onTheWay S (b.afterDeliver i sv) k m ≤ onTheWay S b k m := by
  obtain ⟨ptrMsg, hptr, hturn⟩ := subscribePeerMsg_turn b.redis hsv
  refine balance_deliver he hturn ?_
  rw [inbox_singleton hchannel hptr]
  split
  · exact le_rfl
  · exact Nat.zero_le _

/-- What is published for members of a group is no message for a user. -/
theorem Genuine.not_mem_members (hgenuine : Genuine H e) (hchannel : ascii "groupMsg:" <+: e.1)
    (hm : PeerMsg m) (hforeign : m ∉ H.foreign) {ptrMsg : MsgData} (hptr : receivedGroup e.2 = [ptrMsg])
    (c : ℕ) : m ∉ chats ((List.replicate c (ChatMsg.msgData ptrMsg)).map IMMsg.ofChat) := by
  intro hmem
  obtain ⟨x, hx, hmsg⟩ := List.mem_filterMap.1 hmem
  obtain ⟨y, hy, rfl⟩ := List.mem_map.1 hx
  obtain ⟨-, rfl⟩ := List.mem_replicate.1 hy
  obtain rfl := Option.some.inj hmsg
  rcases hgenuine.group hchannel ptrMsg (hptr ▸ List.mem_singleton_self _) with hmem | ⟨hgroup, -⟩
  · exact hforeign hmem
  · exact not_peerMsg_of_groupMsg hgroup hm

/-- It is handed a message for members of a group. -/
theorem balance_subscribeGroupMsg (he : b.redis.published[(b.nodes i).seen]? = some e)
    (hchannel : ascii "groupMsg:" <+: e.1) (hgenuine : Genuine (b.history got) e) (hm : PeerMsg m)
    (hforeign : m ∉ b.foreign) (hsv : subscribeGroupMsg (b.nodes i).server e.2 = some sv) :
    (chats (ofPeer (some k) (Backend.emit S i (b.nodes i).server sv []))).count m +
      onTheWay S (b.afterDeliver i sv) k m ≤ onTheWay S b k m := by
  obtain ⟨ptrMsg, hptr, hturn⟩ := subscribeGroupMsg_turn b.redis hsv
  refine balance_deliver he hturn ?_
  exact (List.count_eq_zero.2 (hgenuine.not_mem_members hchannel hm hforeign hptr _)).trans_le (Nat.zero_le _)

/-- **What happens at the servers**, unless another program has published the message: what is sent is on
the way no longer. -/
theorem balance_input (h : Sound S b got out) (hm : PeerMsg m) {x : Backend.Input ι}
    (hx : b.input S x = some (b', ms)) (hforeign : m ∉ b'.foreign) :
    (chats (ofPeer (some k) ms)).count m + onTheWay S b' k m ≤ onTheWay S b k m := by
  cases x with
  | accept i =>
    obtain ⟨rfl, rfl⟩ := Backend.accept_inv hx
    exact balance_quiet rfl le_rfl rfl
  | disconnect i s => exact (balance_begin hx).trans (Nat.add_zero _).le
  | work i =>
    obtain ⟨t, t', sv, r, answers, ht, hnext, rfl, rfl⟩ := Backend.work_inv hx
    exact balance_work h hm ht hnext
  | deliver i =>
    obtain ⟨e, he, hcases⟩ := Backend.deliver_inv hx
    have hgenuine : Genuine (b.history got) e :=
      h.published i _ (List.mem_of_getElem? (i := 0) (by rwa [List.getElem?_drop]))
    rcases hcases with ⟨hchannel, sv, hsv, rfl, rfl⟩ | ⟨hchannel, sv, hsv, rfl, rfl⟩ | ⟨rfl, rfl⟩
    · exact balance_subscribePeerMsg he hchannel hsv
    · exact balance_subscribeGroupMsg he (hchannel ▸ List.prefix_append _ _) hgenuine hm hforeign hsv
    · exact balance_quiet rfl (Nat.le_succ _) rfl
  | publish channel value =>
    obtain ⟨rfl, rfl⟩ := Prod.mk.inj (Option.some.inj hx)
    have hnone : (inbox (b.nodeOf S k).server.strServerSocket [(channel, value)]).count m = 0 := by
      refine List.count_eq_zero.2 fun hmem => hforeign (List.mem_append_right _ (List.mem_append_left _ ?_))
      simpa using (inbox_sublist _ _).subset hmem
    have hinbox := count_inbox_unread_append (b.nodeOf S k).server.strServerSocket b.redis.published
      [(channel, value)] (b.nodeOf S k).seen m
    rw [hnone] at hinbox
    exact (Nat.zero_add _).trans_le (Nat.add_le_add_right hinbox _)
  | other k v =>
    obtain ⟨rfl, rfl⟩ := Prod.mk.inj (Option.some.inj hx)
    exact (Nat.zero_add _).le
  | time nowtime =>
    obtain ⟨rfl, rfl⟩ := Prod.mk.inj (Option.some.inj hx)
    exact (Nat.zero_add _).le

theorem count_chats_singleton (m ptrMsg : MsgData) :
    (chats [(⟨.chat .msgData, ptrMsg⟩ : IMMsg)]).count m = if ptrMsg = m then 1 else 0 := by
  change [ptrMsg].count m = _
  rw [List.count_singleton]
  simp only [beq_iff_eq]

/-- **A message comes in from a client**: it is on the way at most once more. -/
theorem balance_receive {x : IMMsg} {j : Fin n} (hx : b.receive S j x = some (b', ms)) :
    (chats (ofPeer (some k) ms)).count m + onTheWay S b' k m ≤ onTheWay S b k m + (chats [x]).count m := by
  refine (balance_begin (Backend.receive_inv hx)).trans (Nat.add_le_add_left ?_ _)
  unfold Job.forMessage
  split
  · exact Nat.zero_le _
  · split
    · exact (count_chats_singleton m _).ge
    · split <;> exact Nat.zero_le _
  all_goals exact Nat.zero_le _

theorem Bounded.input (h : Bounded S b got out k m) (hsound : Sound S b got out) (hm : PeerMsg m)
    {x : Backend.Input ι} (hx : b.input S x = some (b', ms)) (hforeign : m ∉ b'.foreign) :
    Bounded S b' got (out ++ ms) k m := by
  have hbalance := balance_input (k := k) hsound hm hx hforeign
  unfold Bounded at h ⊢
  rw [ofPeer_append, chats_append, List.count_append]
  change _ ≤ (b.history got).chats.count m
  omega

theorem Bounded.receive (h : Bounded S b got out k m) {x : IMMsg} {j : Fin n}
    (hx : b.receive S j x = some (b', ms)) :
    Bounded S b' (got ++ [(some j, x)]) (out ++ ms) k m := by
  have hbalance := balance_receive (k := k) (m := m) hx
  have hgot : (b'.history (got ++ [(some j, x)])).chats = (b.history got).chats ++ chats [x] := by
    rw [History.chats, History.chats, ← chats_append]
    exact congrArg chats List.map_append
  unfold Bounded at h ⊢
  rw [ofPeer_append, chats_append, List.count_append, hgot, List.count_append]
  omega

end Steps

end MutexIM.EndToEnd
