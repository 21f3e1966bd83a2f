import MutexIM.Routing.Effects
import MutexIM.Routing.Exchange

/-!
# Whose messages a request takes

The messages that are stored for a user are taken out of Redis by a request that names the user. The
request comes in on some connection, which need not be the user's.

* `Keeps` is what a handler leaves: the lists of unread messages, and the counters, which only grow.
  All handlers but the one of the request do so; `counter_of_lt`, `list_of_none`: what that one takes.
* `private_of_run`: what is stored for a user is sent, deleted and set back only for requests that name
  the user, and is sent on their connection.
* `disclosed`: a connection that is bound to nobody gets the messages of `v`, and the list is deleted.
-/

namespace MutexIM.Routing

open Bytes Codec MessageServer

/-! ## What a handler leaves -/

/-- The lists of unread messages stay where they are, and the counters do not get lower. -/
structure Keeps (r r' : Redis) : Prop where
  list : ∀ v, (r.keys (ascii "unreadMsg:" ++ v)).isSome → (r'.keys (ascii "unreadMsg:" ++ v)).isSome
  counter : ∀ x, count r.keys (ascii "unreadNumber:" ++ x) ≤ count r'.keys (ascii "unreadNumber:" ++ x)

namespace Keeps

variable {r r' r'' : Redis}

theorem of_keys (hlist : ∀ v, r'.keys (ascii "unreadMsg:" ++ v) = r.keys (ascii "unreadMsg:" ++ v))
    (hcounter : ∀ x, r'.keys (ascii "unreadNumber:" ++ x) = r.keys (ascii "unreadNumber:" ++ x)) :
    Keeps r r' where
  list v hv := hlist v ▸ hv
  counter x := by rw [count, count, hcounter x]

theorem refl (r : Redis) : Keeps r r := of_keys (fun _ => rfl) fun _ => rfl

theorem trans (h : Keeps r r') (h' : Keeps r' r'') : Keeps r r'' where
  list v hv := h'.list v (h.list v hv)
  counter x := (h.counter x).trans (h'.counter x)

end Keeps

/-- **Counting** does not lower a number. -/
theorem count_incr_le (ks : Keyspace) (k k' : Bytes) : count ks k ≤ count (ks.incr k').2 k := by
  by_cases hk : k = k'
  · subst hk
    have hnext : ∀ n : ℤ, count ks k ≤ n.toNat → count ks k ≤ count (if n + 1 < 2 ^ 63 then
        (Reply.integer (n + 1), Function.update ks k (some (.str (itoa (n + 1))))) else (.error, ks)).2 k := by
      intro n hn
      split
      · rcases lt_or_ge (n + 1) 0 with hneg | hpos
        · rw [Int.toNat_eq_zero.2 (by omega)] at hn
          exact hn.trans (Nat.zero_le _)
        · obtain ⟨m, hm⟩ := Int.eq_ofNat_of_zero_le hpos
          have htext : count (Function.update ks k (some (.str (itoa (n + 1))))) k = m :=
            count_of_itoa (hm ▸ Function.update_self ..)
          refine hn.trans (le_of_le_of_eq ?_ htext.symm)
          omega
      · exact le_rfl
    unfold Keyspace.incr
    dsimp only
    split
    · next hnone => exact hnext 0 (count_of_none hnone).le
    · next s hs =>
      split
      · next n hn =>
        refine hnext n (le_of_eq ?_)
        rw [count, hs, CRedis.textOf]
        unfold Keyspace.integer at hn
        split at hn
        · rw [Option.some.inj hn]
        · cases hn
      · exact le_rfl
    · exact le_rfl
  · rw [count, count, Keyspace.incr_of_ne hk]

theorem Keeps.foldl_incr (us : List Bytes) (g : Bytes) (r : Redis) :
    Keeps r (us.foldl (fun r u => CRedis.incr r (unreadNumber u g)) r) := by
  induction us generalizing r with
  | nil => exact .refl r
  | cons u us ih =>
    refine trans ⟨fun v hv => ?_, fun x => count_incr_le ..⟩ (ih _)
    have hkeep : (CRedis.incr r (unreadNumber u g)).keys (ascii "unreadMsg:" ++ v) =
        r.keys (ascii "unreadMsg:" ++ v) := by
      apply Keyspace.incr_of_ne
      rw [cstr_unreadNumber]
      simp [ascii]
    rwa [hkeep]

section Handlers

variable {sv : Server} {r : Redis} {ptrMsg : MsgData}

theorem Keeps.server {e : Server.Event} {out : Server × Redis} (h : sv.step r e = some out) :
    Keeps r out.2 := by
  refine of_keys (fun v => Server.step_of_ne h (fun u => ?_) fun g => ?_) fun x =>
    Server.step_of_ne h (fun u => ?_) fun g => ?_
  all_goals simp [ascii]

theorem Keeps.doPeerMsg : Keeps r (MutexIM.Routing.doPeerMsg sv r ptrMsg).2 := by
  rw [doPeerMsg_eq]
  split
  · exact .refl r
  · split
    · exact .of_keys (fun _ => rfl) fun _ => rfl
    · refine ⟨fun v hv => CRedis.isSome_lpushKeep hv, fun x => ?_⟩
      have hne : ascii "unreadNumber:" ++ x ≠ cstr (ascii "unreadMsg:" ++ ptrMsg.toId) := by
        rw [cstr_unreadMsg]
        simp [ascii]
      rw [count, count, CRedis.keys_lpushKeep_of_ne hne]

theorem Keeps.onMsgData {L : Layout Bytes Bytes} :
    Keeps r (MutexIM.Routing.onMsgData L sv r ptrMsg).2 := by
  unfold MutexIM.Routing.onMsgData
  split
  · exact Keeps.doPeerMsg
  · split
    · have honline : Keeps r (doOnlineGroupMsg L sv r ptrMsg).2 := by
        rw [doOnlineGroupMsg_snd]
        exact .of_keys (fun _ => rfl) fun _ => rfl
      have hpush : Keeps (doOnlineGroupMsg L sv r ptrMsg).2
          (pushGroupMsg (doOnlineGroupMsg L sv r ptrMsg).2 ptrMsg) := by
        refine .of_keys (fun v => pushGroupMsg_of_ne ?_) fun x => pushGroupMsg_of_ne ?_
        all_goals rw [cstr_groupMsg]; simp [ascii]
      exact honline.trans (hpush.trans (.foldl_incr _ _ _))
    · exact .refl r

end Handlers

/-! ## What a request takes -/

section Request

variable {order : Keyspace.NumericOrder} {sv : Server} {r : Redis} {conn : ℕ}
  {ptrRequest : UnreadMsgRequest} {nowtime : UInt64}

/-- **The list that is deleted** is that of the user the request names. -/
theorem list_of_none {v : Bytes} (hv : (r.keys (ascii "unreadMsg:" ++ v)).isSome)
    (hnone : (onUnreadMsgRequest order sv r conn ptrRequest nowtime).2.keys
      (ascii "unreadMsg:" ++ v) = none) : cstr ptrRequest.userId = v := by
  rw [onUnreadMsgRequest_eq] at hnone
  by_contra hne
  have hkeep : ascii "unreadMsg:" ++ v ≠ cstr (ascii "unreadMsg:" ++ ptrRequest.userId) := by
    rw [cstr_unreadMsg]
    exact fun h => hne (List.append_cancel_left h).symm
  have hreset : ∀ l, (resetNumbers (CRedis.del r (ascii "unreadMsg:" ++ ptrRequest.userId))
      ptrRequest.userId l).keys (ascii "unreadMsg:" ++ v) = r.keys (ascii "unreadMsg:" ++ v) := by
    intro l
    refine (foldl_set_of_ne (fun x => ?_) _ _).trans (CRedis.keys_del_of_ne hkeep)
    simp [ascii]
  rw [hreset] at hnone
  rw [hnone] at hv
  cases hv

/-- **A counter that is set back** has the name of one of the user that the request names. -/
theorem counter_of_lt {x : Bytes}
    (hlt : count (onUnreadMsgRequest order sv r conn ptrRequest nowtime).2.keys
      (ascii "unreadNumber:" ++ x) < count r.keys (ascii "unreadNumber:" ++ x)) :
    ∃ g, cstr (unreadNumber ptrRequest.userId g) = ascii "unreadNumber:" ++ x := by
  rw [onUnreadMsgRequest_eq] at hlt
  by_contra hne
  have hreset : ∀ (l : List (Bytes × Bytes)) (r : Redis),
      (resetNumbers r ptrRequest.userId l).keys (ascii "unreadNumber:" ++ x) =
        r.keys (ascii "unreadNumber:" ++ x) := by
    intro l
    unfold resetNumbers
    induction l with
    | nil => exact fun _ => rfl
    | cons e l ih =>
      intro r
      rw [List.foldl_cons, ih]
      split
      · exact CRedis.keys_set_of_ne (fun h => hne ⟨e.1, h.symm⟩) _
      · rfl
  have hdel : (CRedis.del r (ascii "unreadMsg:" ++ ptrRequest.userId)).keys
      (ascii "unreadNumber:" ++ x) = r.keys (ascii "unreadNumber:" ++ x) := by
    apply CRedis.keys_del_of_ne
    rw [cstr_unreadMsg]
    simp [ascii]
  rw [count, count, hreset, hdel] at hlt
  exact lt_irrefl _ hlt

end Request

/-! ## Runs -/

namespace Exchange

variable {ι : Type*}

/-- A request that came in is answered on its connection, with what was stored for the user it
names. -/
def Answers (order : Keyspace.NumericOrder) (w : Exchange ι) (p : Arrival ι UnreadMsgRequest → Prop)
    (i : ι) (s : ℕ) (x : ChatMsg) : Prop :=
  ∃ q ∈ w.requests, p q ∧ q.server = i ∧ q.conn = s ∧ ∃ response, x = .unreadMsgResponse response ∧
    response.userId = q.message.userId ∧ response.msgData = storedFor order q.redis q.message.userId

/-- A chat message that came in, or that a subscriber was handed. -/
def Relays (w : Exchange ι) (x : ChatMsg) : Prop :=
  ∃ m, x = .msgData m ∧ (m ∈ w.delivered ∨ ∃ a ∈ w.arrived, a.message = m)

/-- What is sent is an answer to a request with the property, a chat message that came in, or an answer
to a handshake: what is stored is sent in no other way. -/
def Private (order : Keyspace.NumericOrder) (w : Exchange ι)
    (p : Arrival ι UnreadMsgRequest → Prop) : Prop :=
  ∀ i s, ∀ x ∈ ((w.servers i).manager.sessions s).sent,
    w.Answers order p i s x ∨ w.Relays x ∨ ∃ m, x = .shakeHandleRes m

section Guarded

variable [DecidableEq ι] (L : Layout Bytes Bytes) (order : Keyspace.NumericOrder)
  (p : Arrival ι UnreadMsgRequest → Prop) (w : Exchange ι)

/-- The request that comes in has the property. -/
def Asked : Event ι → Prop
  | .unreadMsgRequest i conn ptrRequest _ => p (w.arrival i conn ptrRequest)
  | _ => True

/-- What takes a list or sets a counter back is a request with the property that names the user, up to
the name of the key. -/
structure Guarded (e : Event ι) : Prop where
  list : ∀ w', w.step L order e = some w' → ∀ v, (w.redis.keys (ascii "unreadMsg:" ++ v)).isSome →
    w'.redis.keys (ascii "unreadMsg:" ++ v) = none →
    ∃ i conn ptrRequest nowtime, e = .unreadMsgRequest i conn ptrRequest nowtime ∧
      p (w.arrival i conn ptrRequest) ∧ cstr ptrRequest.userId = v
  counter : ∀ w', w.step L order e = some w' → ∀ v g,
    count w'.redis.keys (unreadNumber v g) < count w.redis.keys (unreadNumber v g) →
    ∃ i conn ptrRequest nowtime, e = .unreadMsgRequest i conn ptrRequest nowtime ∧
      p (w.arrival i conn ptrRequest) ∧
        ∃ g', cstr (unreadNumber ptrRequest.userId g') = unreadNumber v g

end Guarded

/-- The request names the user of its connection. -/
def OwnUser (q : Arrival ι UnreadMsgRequest) : Prop := q.bound = some q.message.userId

variable [DecidableEq ι] {L : Layout Bytes Bytes} {order : Keyspace.NumericOrder} {w w' : Exchange ι}
  {p : Arrival ι UnreadMsgRequest → Prop}

/-- **The handlers other than that of the request** leave what is stored. -/
theorem keeps_of_step {e : Event ι} (h : w.step L order e = some w')
    (he : ∀ i conn ptrRequest nowtime, e ≠ .unreadMsgRequest i conn ptrRequest nowtime) :
    Keeps w.redis w'.redis := by
  cases e with
  | server i e =>
    obtain ⟨out, hout, rfl⟩ := Option.map_eq_some_iff.1 h
    exact Keeps.server hout
  | msgData i conn ptrMsg =>
    simp only [step] at h
    split at h
    · obtain rfl := Option.some.inj h
      exact Keeps.onMsgData
    · cases h
  | unreadMsgRequest i conn ptrRequest nowtime => exact absurd rfl (he i conn ptrRequest nowtime)
  | subscribePeerMsg i value =>
    obtain ⟨sv, -, rfl⟩ := Option.map_eq_some_iff.1 h
    exact .refl _
  | subscribeGroupMsg i value =>
    obtain ⟨sv, -, rfl⟩ := Option.map_eq_some_iff.1 h
    exact .refl _
  | other k v =>
    simp only [step] at h
    split at h
    · cases h
    · next hk =>
      obtain rfl := Option.some.inj h
      rw [not_or] at hk
      refine .of_keys (fun v => Function.update_of_ne ?_ ..) fun x => Function.update_of_ne ?_ ..
      · rintro rfl
        exact hk.1 (.inl (List.prefix_append ..))
      · rintro rfl
        exact hk.2 (List.prefix_append ..)

/-- **One step.** -/
theorem guarded_of_asked {e : Event ι} (h : w.Asked p e) : w.Guarded L order p e := by
  by_cases he : ∃ i conn ptrRequest nowtime, e = .unreadMsgRequest i conn ptrRequest nowtime
  · obtain ⟨i, conn, ptrRequest, nowtime, rfl⟩ := he
    constructor
    case list =>
      intro w' hstep v hv hnone
      simp only [step] at hstep
      split at hstep
      · obtain rfl := Option.some.inj hstep
        exact ⟨i, conn, ptrRequest, nowtime, rfl, h, list_of_none hv hnone⟩
      · cases hstep
    case counter =>
      intro w' hstep v g hlt
      simp only [step] at hstep
      split at hstep
      · obtain rfl := Option.some.inj hstep
        simp only [unreadNumber, List.append_assoc] at hlt ⊢
        obtain ⟨g', hg'⟩ := counter_of_lt hlt
        simp only [unreadNumber, List.append_assoc] at hg'
        exact ⟨i, conn, ptrRequest, nowtime, rfl, h, g', hg'⟩
      · cases hstep
  · have hkeeps : ∀ w', w.step L order e = some w' → Keeps w.redis w'.redis :=
      fun w' hstep => keeps_of_step hstep fun i conn q t heq => he ⟨i, conn, q, t, heq⟩
    constructor
    case list =>
      intro w' hstep v hv hnone
      have hsome := (hkeeps w' hstep).list v hv
      rw [hnone] at hsome
      cases hsome
    case counter =>
      intro w' hstep v g hlt
      simp only [unreadNumber, List.append_assoc] at hlt
      exact absurd ((hkeeps w' hstep).counter _) (not_le.2 hlt)

/-- One server does something. -/
theorem Private.update (h : w.Private order p) {i : ι} {out : Server × Redis}
    {sends : ℕ → ChatMsg → Prop} {publishes stores : Bytes → Prop}
    (hout : Emits (w.servers i) w.redis out sends publishes stores)
    (hservers : w'.servers = Function.update w.servers i out.1)
    (harrived : w.arrived ⊆ w'.arrived) (hdelivered : w.delivered ⊆ w'.delivered)
    (hrequests : w.requests ⊆ w'.requests)
    (hsends : ∀ s x, sends s x →
      w'.Answers order p i s x ∨ w'.Relays x ∨ ∃ m, x = .shakeHandleRes m) :
    w'.Private order p := by
  intro j s x hx
  rw [hservers] at hx
  rcases hout.sent_update hx with hold | ⟨rfl, hnew⟩
  · rcases h j s x hold with ⟨q, hq, hanswer⟩ | ⟨m, hm, hrelay⟩ | hshake
    · exact .inl ⟨q, hrequests hq, hanswer⟩
    · exact .inr (.inl ⟨m, hm, hrelay.imp (fun h => hdelivered h) fun ⟨a, ha, heq⟩ =>
        ⟨a, harrived ha, heq⟩⟩)
    · exact .inr (.inr hshake)
  · exact hsends s x hnew

theorem Private.step {e : Event ι} (h : w.Private order p) (he : w.Asked p e)
    (hstep : w.step L order e = some w') : w'.Private order p := by
  cases e with
  | server i e =>
    obtain ⟨out, hout, rfl⟩ := Option.map_eq_some_iff.1 hstep
    exact h.update (Emits.server hout) rfl (List.Subset.refl _) (List.Subset.refl _)
      (List.Subset.refl _) fun s x hx => .inr (.inr hx)
  | msgData i conn ptrMsg =>
    simp only [Exchange.step] at hstep
    split at hstep
    · obtain rfl := Option.some.inj hstep
      have hmem : w.arrival i conn ptrMsg ∈ w.arrived ++ [w.arrival i conn ptrMsg] :=
        List.mem_append_right _ (List.mem_singleton_self _)
      exact h.update Emits.onMsgData rfl (List.subset_append_left ..) (List.Subset.refl _)
        (List.Subset.refl _) fun s x hx => .inr (.inl ⟨ptrMsg, hx, .inr ⟨_, hmem, rfl⟩⟩)
    · cases hstep
  | unreadMsgRequest i conn ptrRequest nowtime =>
    simp only [Exchange.step] at hstep
    split at hstep
    · obtain rfl := Option.some.inj hstep
      have hmem : w.arrival i conn ptrRequest ∈ w.requests ++ [w.arrival i conn ptrRequest] :=
        List.mem_append_right _ (List.mem_singleton_self _)
      refine h.update Emits.onUnreadMsgRequest rfl (List.Subset.refl _) (List.Subset.refl _)
        (List.subset_append_left ..) fun s x hx => .inl ?_
      exact ⟨_, hmem, he, rfl, hx.1.symm, hx.2⟩
    · cases hstep
  | subscribePeerMsg i value =>
    obtain ⟨sv, hsv, rfl⟩ := Option.map_eq_some_iff.1 hstep
    refine h.update (Emits.subscribePeerMsg hsv) rfl (List.Subset.refl _) (List.subset_append_left ..)
      (List.Subset.refl _) fun s x hx => ?_
    obtain ⟨m, hm, heq⟩ := hx
    exact .inr (.inl ⟨m, heq, .inl (List.mem_append_right _ hm)⟩)
  | subscribeGroupMsg i value =>
    obtain ⟨sv, hsv, rfl⟩ := Option.map_eq_some_iff.1 hstep
    refine h.update (Emits.subscribeGroupMsg hsv) rfl (List.Subset.refl _) (List.subset_append_left ..)
      (List.Subset.refl _) fun s x hx => ?_
    obtain ⟨m, hm, heq⟩ := hx
    exact .inr (.inl ⟨m, heq, .inl (List.mem_append_right _ hm)⟩)
  | other k v =>
    simp only [Exchange.step] at hstep
    split at hstep
    · cases hstep
    · obtain rfl := Option.some.inj hstep
      exact h

/-- Requests that came in are kept. -/
theorem asked_of_requests {e : Event ι} (hstep : w.step L order e = some w')
    (h : ∀ q ∈ w'.requests, p q) : w.Asked p e ∧ ∀ q ∈ w.requests, p q := by
  cases e with
  | server i e =>
    obtain ⟨out, hout, rfl⟩ := Option.map_eq_some_iff.1 hstep
    exact ⟨trivial, h⟩
  | msgData i conn ptrMsg =>
    simp only [step] at hstep
    split at hstep
    · obtain rfl := Option.some.inj hstep
      exact ⟨trivial, h⟩
    · cases hstep
  | unreadMsgRequest i conn ptrRequest nowtime =>
    simp only [step] at hstep
    split at hstep
    · obtain rfl := Option.some.inj hstep
      exact ⟨h _ (List.mem_append_right _ (List.mem_singleton_self _)),
        fun q hq => h q (List.mem_append_left _ hq)⟩
    · cases hstep
  | subscribePeerMsg i value =>
    obtain ⟨sv, hsv, rfl⟩ := Option.map_eq_some_iff.1 hstep
    exact ⟨trivial, h⟩
  | subscribeGroupMsg i value =>
    obtain ⟨sv, hsv, rfl⟩ := Option.map_eq_some_iff.1 hstep
    exact ⟨trivial, h⟩
  | other k v =>
    simp only [step] at hstep
    split at hstep
    · cases hstep
    · obtain rfl := Option.some.inj hstep
      exact ⟨trivial, h⟩

/-- What the requests of a run have in common guards what is stored. -/
theorem guarded_of_requests {sockets : ι → Bytes} {r : Redis} {es : List (Event ι)}
    (hrun : Run (step L order) (fun _ _ => True) (start sockets r) es w)
    (hp : ∀ q ∈ w.requests, p q) :
    w.Private order p ∧ Run (step L order) (fun w e => w.Guarded L order p e) (start sockets r) es w := by
  have hasked : Run (step L order) (fun w e => w.Asked p e) (start sockets r) es w :=
    (hrun.backward (I := fun w => ∀ q ∈ w.requests, p q)
      (fun _ _ _ hstep h => asked_of_requests hstep h) hp).1
  refine ⟨?_, hasked.mono fun w e h => guarded_of_asked h⟩
  have hstart : (start sockets r : Exchange ι).Private order p := by
    intro i s x hx
    cases hx
  exact hasked.invariant (I := fun w => w.Private order p)
    (fun _ _ _ h he hstep => h.step he hstep) hstart

/-- **Whose messages are taken**: in every run, what is stored is sent, deleted and set back only for a
request that names the user; if every request that came in names the user of its connection, then it
is for the connection's user only. -/
theorem private_of_run {sockets : ι → Bytes} {r : Redis} {es : List (Event ι)}
    (hrun : Run (step L order) (fun _ _ => True) (start sockets r) es w) :
    (w.Private order (fun _ => True) ∧
      Run (step L order) (fun w e => w.Guarded L order (fun _ => True) e) (start sockets r) es w) ∧
    ((∀ q ∈ w.requests, OwnUser q) → w.Private order OwnUser ∧
      Run (step L order) (fun w e => w.Guarded L order OwnUser e) (start sockets r) es w) :=
  ⟨guarded_of_requests hrun fun _ _ => trivial, guarded_of_requests hrun⟩

/-! ## A request from anyone -/

instance (q : Arrival ι UnreadMsgRequest) : Decidable (OwnUser q) :=
  inferInstanceAs (Decidable (_ = _))

/-- `u` sends a message to `v`, and `v` comes online and asks for it. -/
def boundReader : List (Event Unit) :=
  [.server () .accept, .msgData () 0 fromU, .server () .accept,
    .server () (.handshake 1 ⟨0, ascii "v"⟩ 0), .unreadMsgRequest () 1 ⟨ascii "v", 0⟩ 0]

/-- A connection without a handshake asks for the message. -/
def unboundReader : List (Event Unit) :=
  [.server () .accept, .msgData () 0 fromU, .server () .accept,
    .unreadMsgRequest () 1 ⟨ascii "v", 0⟩ 0]

/-- The answer with the message. -/
def forV : ChatMsg :=
  .unreadMsgResponse ⟨1, 0, ascii "v", [(ChatMsg.msgData fromU).serialize]⟩

theorem private_boundReader : ∃ w : Exchange Unit,
    Run (step eightBuckets GroupLog.decimalOrder) (fun _ _ => True)
      (start (fun _ => ascii "h:1") (loggedIn [ascii "v"])) boundReader w ∧
    forV ∈ ((w.servers ()).manager.sessions 1).sent ∧
    w.Private GroupLog.decimalOrder OwnUser := by
  have hany : (exec (step eightBuckets GroupLog.decimalOrder) (fun _ _ => True)
      (start (fun _ : Unit => ascii "h:1") (loggedIn [ascii "v"])) boundReader).any
        (fun w => forV ∈ ((w.servers ()).manager.sessions 1).sent ∧
          ∀ q ∈ w.requests, OwnUser q) = true := by decide +kernel
  obtain ⟨w, hrun, hsent, hall⟩ := Run.exists_of_exec hany
  exact ⟨w, hrun, hsent, ((private_of_run hrun).2 hall).1⟩

/-- **Disclosure**: a connection that is bound to nobody gets the message stored for `v`, and the list
is deleted. -/
theorem disclosed : ∃ w : Exchange Unit,
    Run (step eightBuckets GroupLog.decimalOrder) (fun _ _ => True)
      (start (fun _ => ascii "h:1") ⟨fun _ => none, []⟩) unboundReader w ∧
    forV ∈ ((w.servers ()).manager.sessions 1).sent ∧ w.bound () 1 = none ∧
    w.redis.keys (ascii "unreadMsg:v") = none ∧ ¬w.Private GroupLog.decimalOrder OwnUser := by
  have hany : (exec (step eightBuckets GroupLog.decimalOrder) (fun _ _ => True)
      (start (fun _ : Unit => ascii "h:1") ⟨fun _ => none, []⟩) unboundReader).any
        (fun w => forV ∈ ((w.servers ()).manager.sessions 1).sent ∧ w.bound () 1 = none ∧
          (w.redis.keys (ascii "unreadMsg:v")).isNone ∧ ∀ q ∈ w.requests, q.bound = none) = true := by
    decide +kernel
  obtain ⟨w, hrun, hsent, hbound, hnone, hall⟩ := Run.exists_of_exec hany
  refine ⟨w, hrun, hsent, hbound, Option.isNone_iff_eq_none.1 hnone, fun h => ?_⟩
  rcases h () 1 _ hsent with ⟨q, hq, hown, -⟩ | ⟨m, hm, -⟩ | ⟨m, hm⟩
  · rw [OwnUser, hall q hq] at hown
    cases hown
  · cases hm
  · cases hm

end Exchange

end MutexIM.Routing
