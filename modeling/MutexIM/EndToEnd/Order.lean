import MutexIM.EndToEnd.Copies

/-!
# In which order the servers send messages

A server handles one message after the other, and what it publishes for another server is handed out there in
that order. So what a client gets from a client of another server, it gets in the order in which it was
written. This needs two servers: on one server a message may be sent at once while an earlier one is still
published.

* `queue` are the messages from one client to another that are on the way.
* `InOrder` is the invariant; `InOrder.input` and `InOrder.receive`: every step keeps it.
* `OrderKept`: it holds for the clients of different servers.
-/

namespace MutexIM.EndToEnd

open Bytes Codec MessageServer Routing

variable {ι : Type} {n : ℕ}

/-! ## What is on the way -/

/-- The message for a user that a handler has. -/
def handled : Option Job → List MsgData
  | some (.task (.peer ptrMsg _)) => [ptrMsg]
  | _ => []

/-- What the server of a client is going to get. -/
def inboxOf (S : Setting ι n) (b : Backend ι) (k : Fin n) : List MsgData :=
  inbox (b.nodeOf S k).server.strServerSocket (unread b.redis.published (b.nodeOf S k).seen)

/-- From one client to another: what was published for the server of `k`, and then what the server of `j` has
taken. -/
def queue (S : Setting ι n) (b : Backend ι) (p : MsgData → Bool) (j k : Fin n) : List MsgData :=
  (inboxOf S b k).filter p ++ (handled (b.nodeOf S j).job).filter p

theorem pending_eq_count (m : MsgData) (t : Option Job) : pending m t = (handled t).count m := by
  cases t with
  | none => rfl
  | some t =>
    cases t with
    | task t =>
      cases t with
      | peer ptrMsg stage =>
        rw [pending, handled, List.count_singleton]
        simp only [beq_iff_eq]
      | _ => rfl
    | _ => rfl

/-- A handler has one message at most, so there is no order to be kept. -/
theorem sublist_handled {l : List MsgData} {t : Option Job} (h : ∀ m ∈ l, l.count m ≤ pending m t) :
    l.Sublist (handled t) := by
  have hsubperm : List.Subperm l (handled t) :=
    List.subperm_ext_iff.2 fun m hm => (h m hm).trans_eq (pending_eq_count m t)
  unfold handled at hsubperm ⊢
  split at hsubperm
  · rcases List.subperm_singleton_iff.1 hsubperm with rfl | rfl
    · exact List.nil_sublist _
    · exact List.Sublist.refl _
  · rw [List.subperm_nil.1 hsubperm]

theorem filter_handled_forMessage {conn : ℕ} {nowtime : UInt64} {x : IMMsg} (p : MsgData → Bool) :
    ((handled (Job.forMessage conn nowtime x)).filter p).Sublist ((chats [x]).filter p) := by
  refine List.Sublist.filter p ?_
  unfold Job.forMessage
  split
  · exact List.nil_sublist _
  · split
    · exact List.Sublist.refl _
    · split <;> exact List.nil_sublist _
  all_goals exact List.nil_sublist _

/-! ## Steps -/

section Steps

variable {S : Setting ι n} {b b' : Backend ι} {got out ms : List (Option (Fin n) × IMMsg)} {j k : Fin n}
  {p : MsgData → Bool} {H : History n} {i : ι} {L : Layout Bytes Bytes} {order : Keyspace.NumericOrder}
  {sv sv' : Server} {r r' : Redis} {t : Job} {t' : Option Job} {answers : List (ℕ × IMMsg)}
  {e : Bytes × Bytes} {node : ServerNode}

/-- **A step of a handler**: what it sends, publishes and keeps it has had, in this order. -/
theorem JobSound.sublist_handled (h : JobSound H S i t) (hfits : ∀ x ∈ H.chats, (ChatMsg.msgData x).Fits)
    (hp : ∀ m, p m → PeerMsg m) (s : ℕ) (socket : Bytes)
    (hnext : t.next L order sv r = some (t', sv', r', answers)) :
    ((chats ((t.puts sv r s).map IMMsg.ofChat)).filter p ++ (inbox socket (t.publishes sv)).filter p ++
      (handled t').filter p).Sublist ((handled (some t)).filter p) := by
  rw [← List.filter_append, ← List.filter_append]
  have hsub := EndToEnd.sublist_handled (t := some t)
    (l := ((chats ((t.puts sv r s).map IMMsg.ofChat)) ++ inbox socket (t.publishes sv) ++
      handled t').filter p)
    fun m hm => by
      have hpm := (List.mem_filter.1 hm).2
      have hbalance := h.balance hfits (hp m hpm) s socket hnext
      rw [List.count_filter hpm, List.count_append, List.count_append, ← pending_eq_count]
      exact hbalance
  simpa only [List.filter_filter, Bool.and_self] using hsub.filter p

/-- Where something is published, a server is going to get no more than that. -/
theorem inboxOf_sublist (es : List (Bytes × Bytes))
    (hsocket : (b'.nodeOf S k).server.strServerSocket = (b.nodeOf S k).server.strServerSocket)
    (hseen : (b.nodeOf S k).seen ≤ (b'.nodeOf S k).seen)
    (hpublished : b'.redis.published = b.redis.published ++ es) :
    (inboxOf S b' k).Sublist (inboxOf S b k ++ inbox (b.nodeOf S k).server.strServerSocket es) := by
  rw [inboxOf, inboxOf, hsocket, hpublished, ← inbox_append]
  refine List.Sublist.flatMap (List.Sublist.filter _ ?_) _
  rw [unread, List.drop_append]
  exact (List.drop_sublist_drop_left _ hseen).append (List.drop_sublist _ es)

variable [DecidableEq ι]

theorem inboxOf_update (es : List (Bytes × Bytes)) (hnodes : b'.nodes = Function.update b.nodes i node)
    (hsocket : node.server.strServerSocket = (b.nodes i).server.strServerSocket)
    (hseen : (b.nodes i).seen ≤ node.seen) (hpublished : b'.redis.published = b.redis.published ++ es) :
    (inboxOf S b' k).Sublist (inboxOf S b k ++ inbox (b.nodeOf S k).server.strServerSocket es) := by
  have hnode : (b'.nodeOf S k).server.strServerSocket = (b.nodeOf S k).server.strServerSocket ∧
      (b.nodeOf S k).seen ≤ (b'.nodeOf S k).seen := by
    rw [Backend.nodeOf, Backend.nodeOf, hnodes]
    by_cases hk : (S.home k).1 = i
    · rw [hk, Function.update_self]
      exact ⟨hsocket, hseen⟩
    · rw [Function.update_of_ne hk]
      exact ⟨rfl, le_rfl⟩
  exact inboxOf_sublist es hnode.1 hnode.2 hpublished

/-- **The invariant**: what the client `k` was sent of the messages in question, and behind it what is on the
way, is what has come in from the client `j`, in this order; and no other server handles any. -/
structure InOrder (S : Setting ι n) (b : Backend ι) (got out : List (Option (Fin n) × IMMsg))
    (p : MsgData → Bool) (j k : Fin n) : Prop where
  elsewhere : ∀ i, i ≠ (S.home j).1 → (handled (b.nodes i).job).filter p = []
  order : ((chats (ofPeer (some k) out)).filter p ++ queue S b p j k).Sublist
    ((chats (ofPeer (some j) got)).filter p)

omit [DecidableEq ι] in
theorem inOrder_start (S : Setting ι n) (sockets : ι → Bytes) (r : Redis) (p : MsgData → Bool) (j k : Fin n) :
    InOrder S (.start sockets r) [] [] p j k where
  elsewhere _ _ := rfl
  order := by
    have hinbox : unread r.published r.published.length = [] := List.drop_length
    simp [queue, inboxOf, Backend.nodeOf, Backend.start, hinbox, chats, ofPeer, inbox, handled]

omit [DecidableEq ι] in
/-- What is sent was at the head of the queue. -/
theorem InOrder.step (h : InOrder S b got out p j k)
    (helsewhere : ∀ i, i ≠ (S.home j).1 → (handled (b'.nodes i).job).filter p = [])
    (hqueue : ((chats (ofPeer (some k) ms)).filter p ++ queue S b' p j k).Sublist (queue S b p j k)) :
    InOrder S b' got (out ++ ms) p j k where
  elsewhere := helsewhere
  order := by
    rw [ofPeer_append, chats_append, List.filter_append, List.append_assoc]
    exact (hqueue.append_left _).trans h.order

/-- No other server gets a message to handle. -/
theorem InOrder.elsewhere_update (h : InOrder S b got out p j k)
    (hnodes : b'.nodes = Function.update b.nodes i node)
    (hhandled : ((handled node.job).filter p).Sublist ((handled (b.nodes i).job).filter p)) :
    ∀ i, i ≠ (S.home j).1 → (handled (b'.nodes i).job).filter p = [] := by
  intro l hl
  rw [hnodes]
  by_cases hli : l = i
  · subst hli
    rw [Function.update_self]
    exact List.sublist_nil.1 (h.elsewhere l hl ▸ hhandled)
  · rw [Function.update_of_ne hli]
    exact h.elsewhere l hl

/-- A server goes on, or its thread turns to something else. What it sends, publishes and keeps it has had. -/
theorem InOrder.update (h : InOrder S b got out p j k) (hjk : (S.home j).1 ≠ (S.home k).1)
    (es : List (Bytes × Bytes)) (puts : List MsgData) (hnodes : b'.nodes = Function.update b.nodes i node)
    (hsocket : node.server.strServerSocket = (b.nodes i).server.strServerSocket)
    (hseen : (b.nodes i).seen ≤ node.seen) (hpublished : b'.redis.published = b.redis.published ++ es)
    (hputs : chats (ofPeer (some k) ms) = if (S.home k).1 = i then puts else [])
    (hhandled : (puts.filter p ++ (inbox (b.nodeOf S k).server.strServerSocket es).filter p ++
      (handled node.job).filter p).Sublist ((handled (b.nodes i).job).filter p)) :
    InOrder S b' got (out ++ ms) p j k := by
  have hinbox := (inboxOf_update (S := S) (k := k) es hnodes hsocket hseen hpublished).filter p
  rw [List.filter_append] at hinbox
  refine h.step (h.elsewhere_update hnodes ((List.sublist_append_right _ _).trans hhandled)) ?_
  rw [hputs, queue, queue]
  by_cases hi : i = (S.home j).1
  · subst hi
    have hnode : (b'.nodeOf S j).job = node.job := by rw [Backend.nodeOf, hnodes, Function.update_self]
    rw [if_neg hjk.symm, hnode]
    have hsub := hinbox.append_right ((handled node.job).filter p)
    rw [List.append_assoc] at hsub hhandled
    exact hsub.trans (((List.sublist_append_right _ _).trans hhandled).append_left _)
  · have hnone := List.sublist_nil.1 (h.elsewhere i hi ▸ hhandled)
    obtain ⟨hhead, -⟩ := List.append_eq_nil_iff.1 hnone
    obtain ⟨hsent, hes⟩ := List.append_eq_nil_iff.1 hhead
    have hnode : b'.nodeOf S j = b.nodeOf S j := by
      rw [Backend.nodeOf, hnodes, Function.update_of_ne (Ne.symm hi)]
      rfl
    rw [hes, List.append_nil] at hinbox
    rw [hnode]
    split
    · rw [hsent]
      exact hinbox.append_right _
    · exact hinbox.append_right _

/-- A server is replaced, and nothing is sent. -/
theorem InOrder.setNode (h : InOrder S b got out p j k) (hjk : (S.home j).1 ≠ (S.home k).1)
    (hsocket : node.server.strServerSocket = (b.nodes i).server.strServerSocket)
    (hseen : (b.nodes i).seen ≤ node.seen)
    (hhandled : ((handled node.job).filter p).Sublist ((handled (b.nodes i).job).filter p)) :
    InOrder S (b.setNode i node) got (out ++ []) p j k :=
  h.update hjk [] [] rfl hsocket hseen (List.append_nil _).symm (ite_self _).symm hhandled

/-- The thread of a server goes on. -/
theorem InOrder.work (h : InOrder S b got out p j k) (hjk : (S.home j).1 ≠ (S.home k).1)
    (hsound : Sound S b got out) (hp : ∀ m, p m → PeerMsg m) (ht : (b.nodes i).job = some t)
    (hnext : t.next S.L S.order (b.nodes i).server b.redis = some (t', sv, r, answers)) :
    InOrder S (b.afterWork i t' sv r) got (out ++ Backend.emit S i (b.nodes i).server sv answers) p j k := by
  have hturn := Job.turn hnext
  have hputs : chats (ofPeer (some k) (Backend.emit S i (b.nodes i).server sv answers)) = _ :=
    chats_emit (msgData?_answers hnext)
  rw [gained_eq (hturn.sent _)] at hputs
  refine h.update hjk _ _ rfl hturn.socket le_rfl hturn.published hputs ?_
  rw [ht]
  exact (hsound.job i t ht).sublist_handled hsound.fits hp _ _ hnext

/-- The subscriber of a server is handed a published message. -/
theorem InOrder.deliver (h : InOrder S b got out p j k)
    (he : b.redis.published[(b.nodes i).seen]? = some e) {puts : ℕ → List ChatMsg}
    (hturn : Turn (b.nodes i).server b.redis sv b.redis [] puts [])
    (hputs : ((chats ((puts (S.home k).2).map IMMsg.ofChat)).filter p).Sublist
      ((inbox (b.nodes i).server.strServerSocket [e]).filter p)) :
    InOrder S (b.afterDeliver i sv) got (out ++ Backend.emit S i (b.nodes i).server sv []) p j k := by
  refine h.step (h.elsewhere_update rfl (List.Sublist.refl _)) ?_
  have hjob : ((b.afterDeliver i sv).nodeOf S j).job = (b.nodeOf S j).job := by
    change (Function.update b.nodes i _ (S.home j).1).job = (b.nodes (S.home j).1).job
    by_cases hj : (S.home j).1 = i
    · rw [hj, Function.update_self]
    · rw [Function.update_of_ne hj]
  rw [chats_emit (List.forall_mem_nil _), gained_eq (hturn.sent _), queue, queue, hjob, ← List.append_assoc]
  refine List.Sublist.append_right ?_ _
  by_cases hk : (S.home k).1 = i
  · subst hk
    have hinbox : inboxOf S b k = inbox (b.nodes (S.home k).1).server.strServerSocket [e] ++
        inboxOf S (b.afterDeliver (S.home k).1 sv) k := by
      rw [inboxOf, inboxOf, Backend.nodeOf, Backend.nodeOf, unread_eq_cons he, ← List.singleton_append,
        inbox_append]
      change _ = _ ++ inbox (Function.update b.nodes (S.home k).1 _ (S.home k).1).server.strServerSocket
        (unread _ (Function.update b.nodes (S.home k).1 _ (S.home k).1).seen)
      rw [Function.update_self, hturn.socket]
      rfl
    rw [if_pos rfl, hinbox, List.filter_append]
    exact hputs.append_right _
  · have hinbox : (inboxOf S (b.afterDeliver i sv) k).Sublist (inboxOf S b k ++ []) :=
      inboxOf_update [] rfl hturn.socket (Nat.le_succ _) (List.append_nil _).symm
    rw [List.append_nil] at hinbox
    rw [if_neg hk]
    exact hinbox.filter p

/-- It is handed a message for a user. -/
theorem InOrder.subscribePeerMsg (h : InOrder S b got out p j k)
    (he : b.redis.published[(b.nodes i).seen]? = some e)
    (hchannel : e.1 = ascii "peerMsg:" ++ (b.nodes i).server.strServerSocket)
    (hsv : Routing.subscribePeerMsg (b.nodes i).server e.2 = some sv) :
    InOrder S (b.afterDeliver i sv) got (out ++ Backend.emit S i (b.nodes i).server sv []) p j k := by
  obtain ⟨ptrMsg, hptr, hturn⟩ := subscribePeerMsg_turn b.redis hsv
  refine h.deliver he hturn ?_
  rw [inbox_singleton hchannel hptr]
  split
  · exact List.Sublist.refl _
  · exact List.nil_sublist _

/-- It is handed a message for members of a group. -/
theorem InOrder.subscribeGroupMsg (h : InOrder S b got out p j k)
    (hp : ∀ m, p m → PeerMsg m) (he : b.redis.published[(b.nodes i).seen]? = some e)
    (hchannel : ascii "groupMsg:" <+: e.1) (hgenuine : Genuine (b.history got) e)
    (hforeign : ∀ m ∈ b.foreign, ¬p m) (hsv : Routing.subscribeGroupMsg (b.nodes i).server e.2 = some sv) :
    InOrder S (b.afterDeliver i sv) got (out ++ Backend.emit S i (b.nodes i).server sv []) p j k := by
  obtain ⟨ptrMsg, hptr, hturn⟩ := subscribeGroupMsg_turn b.redis hsv
  refine h.deliver he hturn ?_
  rw [List.filter_eq_nil_iff.2 fun m hmem hm =>
    hgenuine.not_mem_members hchannel (hp m hm) (fun hmf => hforeign m hmf hm) hptr _ hmem]
  exact List.nil_sublist _

omit [DecidableEq ι] in
/-- Another program publishes something else. -/
theorem InOrder.publish (h : InOrder S b got out p j k) (es : List (Bytes × Bytes))
    (hnodes : b'.nodes = b.nodes) (hpublished : b'.redis.published = b.redis.published ++ es)
    (hes : ∀ socket, (inbox socket es).filter p = []) : InOrder S b' got (out ++ []) p j k := by
  have hnode : ∀ l, b'.nodeOf S l = b.nodeOf S l := fun l => congrFun hnodes _
  have hinbox := (inboxOf_sublist (S := S) (k := k) es (by rw [hnode]) (by rw [hnode]) hpublished).filter p
  rw [List.filter_append, hes, List.append_nil] at hinbox
  refine h.step (hnodes ▸ h.elsewhere) ?_
  rw [queue, queue, hnode j]
  exact hinbox.append_right _

/-- **What happens at the servers** keeps the order, unless another program has published such a message. -/
theorem InOrder.input (h : InOrder S b got out p j k) (hjk : (S.home j).1 ≠ (S.home k).1)
    (hsound : Sound S b got out) (hp : ∀ m, p m → PeerMsg m) {x : Backend.Input ι}
    (hx : b.input S x = some (b', ms)) (hforeign : ∀ m ∈ b'.foreign, ¬p m) :
    InOrder S b' got (out ++ ms) p j k := by
  cases x with
  | accept i =>
    obtain ⟨rfl, rfl⟩ := Backend.accept_inv hx
    exact h.setNode hjk rfl le_rfl (List.Sublist.refl _)
  | disconnect i s =>
    obtain ⟨-, rfl, rfl⟩ := Backend.begin_inv hx
    exact h.setNode hjk rfl le_rfl (List.nil_sublist _)
  | work i =>
    obtain ⟨t, t', sv, r, answers, ht, hnext, rfl, rfl⟩ := Backend.work_inv hx
    exact h.work hjk hsound hp ht hnext
  | deliver i =>
    obtain ⟨e, he, hcases⟩ := Backend.deliver_inv hx
    have hgenuine : Genuine (b.history got) e :=
      hsound.published i _ (List.mem_of_getElem? (i := 0) (by rwa [List.getElem?_drop]))
    rcases hcases with ⟨hchannel, sv, hsv, rfl, rfl⟩ | ⟨hchannel, sv, hsv, rfl, rfl⟩ | ⟨rfl, rfl⟩
    · exact h.subscribePeerMsg he hchannel hsv
    · exact h.subscribeGroupMsg hp he (hchannel ▸ List.prefix_append _ _) hgenuine hforeign hsv
    · exact h.setNode hjk rfl (Nat.le_succ _) (List.Sublist.refl _)
  | publish channel value =>
    obtain ⟨rfl, rfl⟩ := Prod.mk.inj (Option.some.inj hx)
    refine h.publish [(channel, value)] rfl rfl fun socket => ?_
    refine List.filter_eq_nil_iff.2 fun m hmem => hforeign m ?_
    refine List.mem_append_right _ (List.mem_append_left _ ?_)
    simpa using (inbox_sublist _ _).subset hmem
  | other k v =>
    obtain ⟨rfl, rfl⟩ := Prod.mk.inj (Option.some.inj hx)
    exact h.step h.elsewhere (List.Sublist.refl _)
  | time nowtime =>
    obtain ⟨rfl, rfl⟩ := Prod.mk.inj (Option.some.inj hx)
    exact h.step h.elsewhere (List.Sublist.refl _)

/-- **A message comes in from a client**: it is behind those that are on the way. -/
theorem InOrder.receive (h : InOrder S b got out p j k) {x : IMMsg}
    {l : Fin n} (hx : b.receive S l x = some (b', ms)) (hfrom : l ≠ j → ∀ m ∈ chats [x], ¬p m) :
    InOrder S b' (got ++ [(some l, x)]) (out ++ ms) p j k := by
  obtain ⟨hjob, rfl, rfl⟩ := Backend.begin_inv (Backend.receive_inv hx)
  have hhandled : ((handled (Job.forMessage (S.home l).2 b.nowtime x)).filter p).Sublist
      ((chats (ofPeer (some j) [(some l, x)])).filter p) := by
    have hsub :
        ((handled (Job.forMessage (S.home l).2 b.nowtime x)).filter p).Sublist ((chats [x]).filter p) :=
      filter_handled_forMessage p
    by_cases hl : l = j
    · subst hl
      rwa [ofPeer_self]
    · rw [List.filter_eq_nil_iff.2 (hfrom hl)] at hsub
      exact hsub.trans (List.nil_sublist _)
  have hinbox : (inboxOf S (b.setNode (S.home l).1 { b.nodes (S.home l).1 with
      job := Job.forMessage (S.home l).2 b.nowtime x }) k).Sublist (inboxOf S b k ++ []) :=
    inboxOf_update [] rfl rfl le_rfl (List.append_nil _).symm
  rw [List.append_nil] at hinbox
  refine ⟨fun i hi => ?_, ?_⟩
  · change (handled (Function.update b.nodes (S.home l).1 _ i).job).filter p = []
    by_cases hil : i = (S.home l).1
    · subst hil
      rw [ofPeer_of_ne (fun hl => hi (by rw [Option.some.inj hl]))] at hhandled
      rw [Function.update_self]
      exact List.sublist_nil.1 hhandled
    · rw [Function.update_of_ne hil]
      exact h.elsewhere i hi
  · rw [List.append_nil, ofPeer_append, chats_append, List.filter_append]
    refine List.Sublist.trans ?_ (h.order.append_right _)
    rw [List.append_assoc, queue, queue, List.append_assoc]
    refine List.Sublist.append_left ((hinbox.filter p).append ?_) _
    change ((handled (Function.update b.nodes (S.home l).1 _ (S.home j).1).job).filter p).Sublist _
    by_cases hjl : (S.home j).1 = (S.home l).1
    · rw [hjl, Function.update_self]
      exact hhandled.trans (List.sublist_append_right _ _)
    · rw [Function.update_of_ne hjl]
      exact List.sublist_append_left _ _

/-- The order is kept between clients of different servers, for messages to users that only one client writes
and no other program publishes. -/
def OrderKept (S : Setting ι n) (b : Backend ι) (got out : List (Option (Fin n) × IMMsg)) : Prop :=
  ∀ (p : MsgData → Bool) (j k : Fin n), (S.home j).1 ≠ (S.home k).1 → (∀ m, p m → PeerMsg m) →
    (∀ m ∈ b.foreign, ¬p m) → (∀ l, l ≠ j → ∀ m ∈ chats (ofPeer (some l) got), ¬p m) →
      InOrder S b got out p j k

omit [DecidableEq ι] in
theorem orderKept_start (S : Setting ι n) (sockets : ι → Bytes) (r : Redis) :
    OrderKept S (.start sockets r) [] [] :=
  fun p j k _ _ _ _ => inOrder_start S sockets r p j k

theorem OrderKept.input (h : OrderKept S b got out) (hsound : Sound S b got out) {x : Backend.Input ι}
    (hx : b.input S x = some (b', ms)) : OrderKept S b' got (out ++ ms) :=
  fun p j k hjk hp hforeign hfrom =>
    (h p j k hjk hp (fun m hm => hforeign m (Backend.foreign_subset_input hx hm)) hfrom).input hjk hsound hp
      hx hforeign

theorem OrderKept.receive (h : OrderKept S b got out) {x : IMMsg} {l : Fin n}
    (hx : b.receive S l x = some (b', ms)) : OrderKept S b' (got ++ [(some l, x)]) (out ++ ms) := by
  intro p j k hjk hp hforeign hfrom
  rw [Backend.foreign_receive hx] at hforeign
  simp only [ofPeer_append, chats_append, List.forall_mem_append] at hfrom
  refine (h p j k hjk hp hforeign fun i hi => (hfrom i hi).1).receive hx fun hl => ?_
  simpa only [ofPeer_self] using (hfrom l hl).2

end Steps

end MutexIM.EndToEnd
