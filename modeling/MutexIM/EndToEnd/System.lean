import Mathlib.Algebra.BigOperators.Fin
import MutexIM.Client.Dialogs
import MutexIM.EndToEnd.Order
import MutexIM.Routing.GroupMailbox
import MutexIM.Session.Wire

/-!
# Clients and servers together

Clients, each with the dialog of a user who has logged in, are connected to message servers over TCP; the
servers share one Redis server. Everything between what one user types and what another sees is modelled:
the dialogs, the bytes on the connections, the handlers of the servers command by command, the subscribers.

* `system` are the parties; `Net.step` with `tcp` makes the system of them.
* `Whole` are the invariants of the parties, and that what was received was sent; `whole_of_run`.
* `received_forUser_of_run`: a client receives what is for its user.
* `chat_shown_of_run`, `group_shown_of_run`: what a window shows was written by whom it names, and for those
  who see it.
* `chat_order_of_run`: between two servers, in the order in which it was written.
-/

namespace MutexIM.EndToEnd

open Bytes Codec MessageServer Routing Session Client

variable {ι : Type} {n : ℕ}

/-! ## Messages and packets -/

/-- Messages for the network; `none` where one of them cannot be serialised. -/
def pack (ms : List (Option (Fin n) × IMMsg)) : Option (List (Option (Fin n) × imPool.Msg)) :=
  ms.mapM fun p => p.2.packet.map (p.1, ·)

/-- Messages from the network. -/
def unpack (ps : List (Option (Fin n) × imPool.Msg)) : List (Option (Fin n) × IMMsg) :=
  ps.map fun p => (p.1, IMMsg.ofPacket p.2)

/-- A state with messages for the network. -/
def withPacked {σ : Type} (out : σ × List (Option (Fin n) × IMMsg)) :
    Option (σ × List (Option (Fin n) × imPool.Msg)) :=
  (pack out.2).map (out.1, ·)

/-- What a client sends goes to its server. -/
def toServer (out : CClientDlg × List IMMsg) : CClientDlg × List (Option (Fin n) × IMMsg) :=
  (out.1, out.2.map (none, ·))

theorem unpack_append (ps qs : List (Option (Fin n) × imPool.Msg)) :
    unpack (ps ++ qs) = unpack ps ++ unpack qs := List.map_append

theorem unpack_of_pack {ms : List (Option (Fin n) × IMMsg)} {ps : List (Option (Fin n) × imPool.Msg)}
    (h : pack ms = some ps) : unpack ps = ms := by
  induction ms generalizing ps with
  | nil =>
    obtain rfl := Option.some.inj h
    rfl
  | cons p ms ih =>
    rw [pack, List.mapM_cons] at h
    obtain ⟨q, hq, hrest⟩ := Option.bind_eq_some_iff.1 h
    obtain ⟨qs, hqs, heq⟩ := Option.bind_eq_some_iff.1 hrest
    obtain rfl := Option.some.inj heq
    obtain ⟨q, hpacket, rfl⟩ := Option.map_eq_some_iff.1 hq
    rw [unpack, List.map_cons, ← unpack, ih hqs, IMMsg.ofPacket_of_packet hpacket]

theorem of_withPacked {σ : Type} {out : σ × List (Option (Fin n) × IMMsg)}
    {packed : σ × List (Option (Fin n) × imPool.Msg)} (h : withPacked out = some packed) :
    packed.1 = out.1 ∧ unpack packed.2 = out.2 := by
  obtain ⟨ps, hps, rfl⟩ := Option.map_eq_some_iff.1 h
  exact ⟨rfl, unpack_of_pack hps⟩

theorem ofPeer_unpack (j : Option (Fin n)) (ps : List (Option (Fin n) × imPool.Msg)) :
    ofPeer j (unpack ps) = (ofPeer j ps).map IMMsg.ofPacket := by
  rw [ofPeer, ofPeer, unpack, List.filter_map, List.map_map, List.map_map]
  rfl

/-- A chat message that has come over the network can be serialised again. -/
theorem fits_ofPacket {p : imPool.Msg} : ∀ m ∈ (IMMsg.ofPacket p).msgData?, (ChatMsg.msgData m).Fits := by
  obtain ⟨d, m, hfits⟩ := p
  intro x hx
  cases d with
  | chat d =>
    cases d with
    | msgData =>
      obtain rfl := Option.some.inj hx
      have hserialize : (ChatMsg.msgData m).serialize = MsgData.generated.serialize m :=
        ChatType.serialize_toChatMsg .msgData m
      rw [ChatMsg.Fits, hserialize]
      exact hfits
    | _ => cases hx
  | _ => cases hx

/-! ## The parties -/

variable [DecidableEq ι]

/-- The servers, as the party `none`, and the clients. -/
def system (S : Setting ι n) : Parties (Option (Fin n)) imPool.Msg where
  State
    | none => Backend ι
    | some _ => CClientDlg
  Input
    | none => Backend.Input ι
    | some _ => CClientDlg.Input
  input
    | none, b, x => (b.input S x).bind withPacked
    | some _, c, x => (c.input x).bind fun out => withPacked (toServer out)
  receive
    | none, b, some k, p => (b.receive S k (IMMsg.ofPacket p)).bind withPacked
    | some _, c, none, p => (c.receive (IMMsg.ofPacket p)).bind fun out => withPacked (toServer out)
    | _, _, _, _ => none

/-- Servers that have just started, and clients whose users have logged in. -/
def initial (S : Setting ι n) (sockets : ι → Bytes) (r : Redis) (me : Fin n → MessageServer.UserData) :
    (i : Option (Fin n)) → (system S).State i
  | none => (Backend.start sockets r : Backend ι)
  | some k => CClientDlg.new (me k)

/-! ## What the parties keep -/

variable {S : Setting ι n} {me : Fin n → MessageServer.UserData}

/-- What holds of a client and of the servers, whatever the others do. -/
def Keeps [Fintype ι] (S : Setting ι n) (me : Fin n → MessageServer.UserData) :
    (i : Option (Fin n)) → (system S).logged.State i → Prop
  | none, (s : Logged (Backend ι) (Option (Fin n)) imPool.Msg) =>
    (∀ p ∈ unpack s.received, p.1 ≠ none) ∧ Sound S s.state (unpack s.received) (unpack s.sent) ∧
      (∀ k m, PeerMsg m → m ∉ s.state.foreign → Bounded S s.state (unpack s.received) (unpack s.sent) k m) ∧
        OrderKept S s.state (unpack s.received) (unpack s.sent)
  | some k, (s : Logged CClientDlg (Option (Fin n)) imPool.Msg) =>
    CClientDlg.Sound (me k) s.state (ofPeer none (unpack s.received)) (ofPeer none (unpack s.sent))

/-- What a client sends goes to its server. -/
theorem ofPeer_toServer {out : CClientDlg × List IMMsg}
    {packed : CClientDlg × List (Option (Fin n) × imPool.Msg)} (h : withPacked (toServer out) = some packed) :
    packed.1 = out.1 ∧ ofPeer none (unpack packed.2) = out.2 := by
  obtain ⟨hstate, hsent⟩ := of_withPacked h
  refine ⟨hstate, ?_⟩
  rw [hsent]
  exact ofPeer_map_self none out.2

variable [Fintype ι]

theorem keeps_initial (sockets : ι → Bytes) (r : Redis) :
    ∀ i, Keeps S me i ((system S).unlogged (initial S sockets r me) i)
  | none => ⟨List.forall_mem_nil _, sound_start S sockets r, fun k m _ _ => bounded_start S sockets r k m,
      orderKept_start S sockets r⟩
  | some k => CClientDlg.sound_new (me k)

/-- An input. -/
theorem keeps_input (i : Option (Fin n)) (s : (system S).logged.State i) (x : (system S).Input i)
    (out : (system S).logged.State i × List (Option (Fin n) × imPool.Msg)) (h : Keeps S me i s)
    (hout : (system S).logged.input i s x = some out) : Keeps S me i out.1 := by
  obtain ⟨packed, hpacked, rfl⟩ := Option.map_eq_some_iff.1 hout
  cases i with
  | none =>
    obtain ⟨⟨b', ms⟩, hstep, hpack⟩ := Option.bind_eq_some_iff.1 hpacked
    obtain ⟨hstate, hsent⟩ := of_withPacked hpack
    obtain ⟨hfrom, hsound, hbounded, horder⟩ := h
    dsimp only [Keeps]
    rw [unpack_append, hsent, hstate]
    refine ⟨hfrom, hsound.input hstep, fun k m hm hforeign => ?_, horder.input hsound hstep⟩
    exact (hbounded k m hm fun hmem => hforeign (Backend.foreign_subset_input hstep hmem)).input hsound hm
      hstep hforeign
  | some k =>
    obtain ⟨out, hstep, hpack⟩ := Option.bind_eq_some_iff.1 hpacked
    obtain ⟨hstate, hsent⟩ := ofPeer_toServer hpack
    dsimp only [Keeps]
    rw [unpack_append, ofPeer_append, hsent, hstate]
    exact CClientDlg.Sound.input h hstep

/-- A message. -/
theorem keeps_receive (i : Option (Fin n)) (s : (system S).logged.State i) (j : Option (Fin n))
    (p : imPool.Msg) (out : (system S).logged.State i × List (Option (Fin n) × imPool.Msg))
    (h : Keeps S me i s) (hout : (system S).logged.receive i s j p = some out) : Keeps S me i out.1 := by
  obtain ⟨packed, hpacked, rfl⟩ := Option.map_eq_some_iff.1 hout
  cases i with
  | none =>
    cases j with
    | none => cases hpacked
    | some k =>
      obtain ⟨⟨b', ms⟩, hstep, hpack⟩ := Option.bind_eq_some_iff.1 hpacked
      obtain ⟨hstate, hsent⟩ := of_withPacked hpack
      obtain ⟨hfrom, hsound, hbounded, horder⟩ := h
      dsimp only [Keeps]
      rw [unpack_append, unpack_append, hsent, hstate]
      have hfrom' : ∀ q ∈ unpack [(some k, p)], q.1 ≠ none := by simp [unpack]
      refine ⟨List.forall_mem_append.2 ⟨hfrom, hfrom'⟩, hsound.receive fits_ofPacket hstep,
        fun l m hm hforeign => ?_, horder.receive hstep⟩
      rw [Backend.foreign_receive hstep] at hforeign
      exact (hbounded l m hm hforeign).receive hstep
  | some k =>
    cases j with
    | none =>
      obtain ⟨out, hstep, hpack⟩ := Option.bind_eq_some_iff.1 hpacked
      obtain ⟨hstate, hsent⟩ := ofPeer_toServer hpack
      dsimp only [Keeps]
      rw [unpack_append, unpack_append, ofPeer_append, ofPeer_append, hsent, hstate]
      exact CClientDlg.Sound.receive h hstep
    | some l => cases hpacked

/-! ## Runs -/

/-- The system over TCP. -/
abbrev OverTcp (S : Setting ι n) := Net (system S).logged (tcp imPool)

namespace OverTcp

variable (N : OverTcp S)

/-- The servers, what has come in from clients and what was sent to them. -/
def servers : Backend ι := (N.party none).state

def got : List (Option (Fin n) × IMMsg) := unpack (N.party none).received

def out : List (Option (Fin n) × IMMsg) := unpack (N.party none).sent

def history : History n := N.servers.history N.got

/-- The dialog of a client, what it has received and what it has sent. -/
def dlg (k : Fin n) : CClientDlg := (N.party (some k)).state

def receivedBy (k : Fin n) : List IMMsg := ofPeer none (unpack (N.party (some k)).received)

def sentBy (k : Fin n) : List IMMsg := ofPeer none (unpack (N.party (some k)).sent)

/-- The parties are sound, and what one has received the other has sent. -/
structure Whole (me : Fin n → MessageServer.UserData) : Prop where
  from_clients : ∀ p ∈ N.got, p.1 ≠ none
  servers : Sound S N.servers N.got N.out
  bounded : ∀ k m, PeerMsg m → m ∉ N.servers.foreign → Bounded S N.servers N.got N.out k m
  order : OrderKept S N.servers N.got N.out
  clients : ∀ k, CClientDlg.Sound (me k) (N.dlg k) (N.receivedBy k) (N.sentBy k)
  arrived : ∀ k, ofPeer (some k) N.got <+: N.sentBy k
  delivered : ∀ k, N.receivedBy k <+: ofPeer (some k) N.out

end OverTcp

/-- **Whatever happens**, if the frames are clean and the writes whole. -/
theorem whole_of_run {sockets : ι → Bytes} {r : Redis} {es : List (Net.Event (system S).logged (tcp imPool))}
    {N : OverTcp S}
    (hrun : Run Net.step Clear (Net.new ((system S).unlogged (initial S sockets r me))) es N) :
    N.Whole me := by
  have hkeeps : ∀ i, Keeps S me i (N.party i) :=
    Net.party_of_run keeps_input keeps_receive hrun (keeps_initial sockets r)
  have hsent : ∀ i j, ofPeer i (N.party j).received <+: ofPeer j (N.party i).sent := by
    intro i j
    obtain ⟨ms, -, heq⟩ := Net.sent_eq_of_run (realizes_tcp imPool) hrun i j
    exact heq ▸ List.prefix_append _ _
  obtain ⟨hfrom, hsound, hbounded, horder⟩ := hkeeps none
  refine ⟨hfrom, hsound, hbounded, horder, fun k => hkeeps (some k), fun k => ?_, fun k => ?_⟩
  · rw [OverTcp.got, OverTcp.sentBy, ofPeer_unpack, ofPeer_unpack]
    exact (hsent (some k) none).map _
  · rw [OverTcp.receivedBy, OverTcp.out, ofPeer_unpack, ofPeer_unpack]
    exact (hsent none (some k)).map _

/-! ## What is shown -/

namespace OverTcp

variable {N : OverTcp S} (h : N.Whole me) {k : Fin n}
include h

theorem Whole.sent_of_got {x : IMMsg} (hx : (some k, x) ∈ N.got) : x ∈ N.sentBy k :=
  (h.arrived k).subset (mem_ofPeer.2 hx)

/-- A client names its user in what it sends. -/
theorem Whole.sends {x : IMMsg} (hx : x ∈ N.sentBy k) : (N.dlg k).Sends x := (h.clients k).sent x hx

theorem Whole.userId_of_shaken {u : Bytes} (hu : Shaken N.history k u) : u = (me k).userId := by
  obtain ⟨t, ht⟩ := hu
  have hsends : u = (N.dlg k).userData.userId := h.sends (h.sent_of_got ht)
  rwa [(h.clients k).userData] at hsends

/-- The chat messages that have come in were sent by clients. -/
theorem Whole.sent_of_chats {m : MsgData} (hm : m ∈ N.history.chats) : ∃ j, m ∈ chats (N.sentBy j) := by
  obtain ⟨x, hx, hmsg⟩ := List.mem_filterMap.1 hm
  obtain ⟨⟨j, x⟩, hp, rfl⟩ := List.mem_map.1 hx
  obtain ⟨j, rfl⟩ := Option.ne_none_iff_exists'.1 (h.from_clients _ hp)
  exact ⟨j, List.mem_filterMap.2 ⟨x, h.sent_of_got hp, hmsg⟩⟩

/-- None more often than it was sent. -/
theorem Whole.count_chats_le (m : MsgData) :
    N.history.chats.count m ≤ ∑ j, (chats (N.sentBy j)).count m := by
  have hperm : (((List.finRange n).map some).flatMap fun j => ofPeer j N.got).Perm (N.got.map Prod.snd) := by
    refine perm_flatMap_ofPeer ((List.nodup_finRange n).map (Option.some_injective _)) fun p hp => ?_
    obtain ⟨j, hj⟩ := Option.ne_none_iff_exists'.1 (h.from_clients p hp)
    exact List.mem_map.2 ⟨j, List.mem_finRange j, hj.symm⟩
  have hcount := (hperm.filterMap IMMsg.msgData?).count_eq m
  rw [List.flatMap_map, List.filterMap_flatMap, List.count_flatMap] at hcount
  rw [History.chats, chats]
  refine hcount.symm.trans_le ?_
  rw [Fin.sum_univ_def]
  exact List.sum_le_sum fun j _ => ((h.arrived j).sublist.filterMap IMMsg.msgData?).count_le m

/-- What the client has received was sent to it. -/
theorem Whole.addressed {x : IMMsg} (hx : x ∈ N.receivedBy k) : Addressed N.history S.order k x :=
  h.servers.out k x (mem_ofPeer.1 ((h.delivered k).subset hx))

/-- What a window shows belongs there, and has come in. -/
theorem Whole.of_shown {w : WindowId} {m : MsgData} (hm : m ∈ (N.dlg k).shown w) :
    w.Takes m ∧ (⟨.chat .msgData, m⟩ : IMMsg) ∈ N.receivedBy k := by
  obtain ⟨entry, hentry, hmsg⟩ := List.mem_filterMap.1 hm
  cases entry with
  | own nickName strMessage => cases hmsg
  | received nickName msg =>
    obtain rfl := Option.some.inj hmsg
    refine ⟨((h.clients k).consistent.log w nickName msg hentry).1, ?_⟩
    obtain ⟨x, hx, hmsg⟩ := List.mem_filterMap.1 (((h.clients k).shown w).subset hm)
    exact IMMsg.eq_of_msgData? hmsg ▸ hx

/-- What a client of the user may receive: chat messages of other programs and those for the user or for a
group in which the user was online, lists made of what Redis has about the user, and other answers. -/
def ForUser (H : History n) (order : Keyspace.NumericOrder) (userId : Bytes) : IMMsg → Prop
  | ⟨.chat .shakeHandleRes, _⟩ => True
  | ⟨.chat .msgData, (m : MsgData)⟩ => m ∈ H.foreign ∨
    m ∈ H.chats ∧ (PeerMsg m ∧ m.toId = userId ∨ GroupMsg m ∧ Online H m.toId userId)
  | ⟨.chat .unreadMsgResponse, (m : UnreadMsgResponse)⟩ => m.userId = userId
  | ⟨.peerAllUserInfoResponse, (m : PeerAllUserInfoResponse)⟩ =>
    m.userId = userId ∧ ∀ d ∈ m.msgData, FriendOf H userId d
  | ⟨.groupAllResponse, (m : GroupAllResponse)⟩ => m.userId = userId ∧ ∀ d ∈ m.msgData, GroupOf H userId d
  | ⟨.groupMemberResponse, (m : GroupMemberResponse)⟩ =>
    m.userId = userId ∧ MembersOf H order m.groupId m.msgData
  | _ => False

/-- All that a client receives is for its user. -/
theorem Whole.forUser {x : IMMsg} (hx : x ∈ N.receivedBy k) :
    ForUser N.history S.order (me k).userId x := by
  have hclient := h.clients k
  have hown : ∀ {u : Bytes}, u = (N.dlg k).userData.userId → u = (me k).userId := fun hu => by
    rwa [hclient.userData] at hu
  have haddressed := h.addressed hx
  unfold Addressed at haddressed
  unfold ForUser
  split at haddressed
  · trivial
  · refine haddressed.imp_right fun ⟨hm, hmay⟩ => ⟨hm, hmay.imp (fun hpeer => ?_) fun hgroup => ?_⟩
    · exact ⟨hpeer.1, h.userId_of_shaken hpeer.2⟩
    · obtain ⟨hgroup, u, hshaken, honline⟩ := hgroup
      exact ⟨hgroup, h.userId_of_shaken hshaken ▸ honline⟩
  · obtain ⟨t, ht⟩ := haddressed
    exact hown (h.sends (h.sent_of_got ht))
  · obtain ⟨⟨t, ht⟩, hfriends⟩ := haddressed
    have huser := hown (h.sends (h.sent_of_got ht))
    exact ⟨huser, huser ▸ hfriends⟩
  · obtain ⟨⟨t, ht⟩, hgroups⟩ := haddressed
    have huser := hown (h.sends (h.sent_of_got ht))
    exact ⟨huser, huser ▸ hgroups⟩
  · obtain ⟨⟨t, ht⟩, hmembers⟩ := haddressed
    exact ⟨hown (h.sends (h.sent_of_got ht)).1, hmembers⟩
  · exact haddressed.elim

/-- The friends that a client has in its list are friends of its user in Redis, its groups are groups of the
user, and the members of a group are those of one reply. -/
structure ListsFromRedis (H : History n) (order : Keyspace.NumericOrder) (userId : Bytes) (c : CClientDlg) :
    Prop where
  listFriends : ∀ d ∈ c.listFriends, FriendOf H userId d
  listGroupInfo : ∀ d ∈ c.listGroupInfo, GroupOf H userId d
  allGroupMember : ∀ g members, c.allGroupMember g = some members → MembersOf H order g members

theorem Whole.lists (k : Fin n) : ListsFromRedis N.history S.order (me k).userId (N.dlg k) where
  listFriends d hd := by
    obtain ⟨ptrRes, hres, hd⟩ := (h.clients k).lists.listFriends d hd
    exact (h.forUser hres).2 d hd
  listGroupInfo d hd := by
    obtain ⟨ptrRes, hres, hd⟩ := (h.clients k).lists.listGroupInfo d hd
    exact (h.forUser hres).2 d hd
  allGroupMember g members hg := by
    obtain ⟨ptrRes, hres, rfl, rfl⟩ := (h.clients k).lists.allGroupMember g members hg
    exact (h.forUser hres).2

end OverTcp

namespace OverTcp

variable {N : OverTcp S} (h : N.Whole me) {k : Fin n}
include h

/-- A client writes in the name of its user, to friends of the user and to groups of the user. -/
theorem Whole.of_sent {m : MsgData} (hm : m ∈ chats (N.sentBy k)) :
    m.fromId = (me k).userId ∧
      (m.type = chatText ∧ (∃ d, FriendOf N.history (me k).userId d ∧ d.userId = m.toId) ∨
        m.type = groupchatText ∧ ∃ d, GroupOf N.history (me k).userId d ∧ d.groupId = m.toId) := by
  obtain ⟨x, hx, hmsg⟩ := List.mem_filterMap.1 hm
  obtain rfl := IMMsg.eq_of_msgData? hmsg
  obtain ⟨hfrom, -, hto⟩ := h.sends hx
  rw [(h.clients k).userData] at hfrom
  have hlists := h.lists k
  refine ⟨hfrom, hto.imp (fun ⟨htype, d, hd, hid⟩ => ?_) fun ⟨htype, d, hd, hid⟩ => ?_⟩
  · exact ⟨htype, d, hlists.listFriends d hd, hid⟩
  · exact ⟨htype, d, hlists.listGroupInfo d hd, hid⟩

/-- What a window shows is no more than what was written. -/
theorem Whole.count_shown_le {w : WindowId} {m : MsgData} (hm : PeerMsg m)
    (hforeign : m ∉ N.servers.foreign) :
    ((N.dlg k).shown w).count m ≤ ∑ j, (chats (N.sentBy j)).count m := by
  have hreceived := ((h.delivered k).sublist.filterMap IMMsg.msgData?).count_le m
  have hbounded := h.bounded k m hm hforeign
  calc ((N.dlg k).shown w).count m ≤ (chats (N.receivedBy k)).count m := ((h.clients k).shown w).count_le m
    _ ≤ (chats (ofPeer (some k) N.out)).count m := hreceived
    _ ≤ N.history.chats.count m := (Nat.le_add_right _ _).trans hbounded
    _ ≤ ∑ j, (chats (N.sentBy j)).count m := h.count_chats_le m

/-- The messages of a user who writes on another server only are shown in the order in which they were
written. -/
theorem Whole.shown_sublist {j : Fin n} (hservers : (S.home j).1 ≠ (S.home k).1)
    (huser : ∀ l, (me l).userId = (me j).userId → l = j) :
    (((N.dlg k).shown (.chat (me j).userId)).filter fun m => m ∉ N.servers.foreign).Sublist
      (chats (N.sentBy j)) := by
  let p : MsgData → Bool := fun m => PeerMsg m ∧ m.fromId = (me j).userId ∧ m ∉ N.servers.foreign
  have hp : ∀ m, p m = true ↔ PeerMsg m ∧ m.fromId = (me j).userId ∧ m ∉ N.servers.foreign :=
    fun m => decide_eq_true_iff
  have hshown : ((N.dlg k).shown (.chat (me j).userId)).filter (fun m => m ∉ N.servers.foreign) =
      ((N.dlg k).shown (.chat (me j).userId)).filter p := by
    refine List.filter_congr fun m hm => ?_
    obtain ⟨⟨hpeer, hfrom⟩, -⟩ : (PeerMsg m ∧ m.fromId = (me j).userId) ∧ _ := h.of_shown hm
    simp only [p, hpeer, hfrom, true_and]
  have hfrom : ∀ l, l ≠ j → ∀ m ∈ chats (ofPeer (some l) N.got), ¬p m := by
    intro l hl m hm hpm
    have hsent := ((h.arrived l).sublist.filterMap IMMsg.msgData?).subset hm
    exact hl (huser l ((h.of_sent hsent).1.symm.trans ((hp m).1 hpm).2.1))
  have horder := (h.order p j k hservers (fun m hm => ((hp m).1 hm).1)
    (fun m hm hpm => ((hp m).1 hpm).2.2 hm) hfrom).order
  have hdlg := ((h.clients k).shown (.chat (me j).userId)).filter p
  have hdelivered := ((h.delivered k).sublist.filterMap IMMsg.msgData?).filter p
  have harrived := (h.arrived j).sublist.filterMap IMMsg.msgData?
  rw [hshown]
  exact (hdlg.trans hdelivered).trans
    (((List.sublist_append_left _ _).trans horder).trans (List.filter_sublist.trans harrived))

end OverTcp

/-! ## A conversation -/

/-- The users `1` and `2` are friends and members of the groups `7` and `8`. -/
def friendsRedis : Redis where
  keys k :=
    if k = ascii "loginMap:2" then some (.hash (.singleton (ascii "sessionid") (ascii "1")))
    else if k = ascii "friendsSet:1" then some (.set (.singleton (ascii "2")))
    else if k = ascii "friendsSet:2" then some (.set (.singleton (ascii "1")))
    else if k = ascii "user:1" then some (userHash (ascii "1"))
    else if k = ascii "user:2" then some (userHash (ascii "2"))
    else if k = ascii "groupSet:1" ∨ k = ascii "groupSet:2" then
      some (.set ((Members.singleton (ascii "8")).insert (ascii "7")))
    else if k = ascii "group:7" then some (.hash (.singleton (ascii "groupId") (ascii "7")))
    else if k = ascii "group:8" then some (.hash (.singleton (ascii "groupId") (ascii "8")))
    else if k = ascii "groupMember:7" then
      some (.set ((Members.singleton (ascii "1")).insert (ascii "2")))
    else none
  published := []
where
  userHash (userId : Bytes) : Value :=
    .hash ((((AList.singleton (ascii "useId") userId).insert (ascii "nickName") []).insert
      (ascii "imageurl") []).insert (ascii "onlineStatus") (ascii "1"))

/-- Each has a server of its own. -/
def twoServers : Setting Bool 2 where
  L := eightBuckets
  order := GroupLog.decimalOrder
  home k := (k = 1, 0)
  home_injective := by decide

def twoSockets (i : Bool) : Bytes := if i then ascii "h:2" else ascii "h:1"

def twoUsers (k : Fin 2) : MessageServer.UserData := { userId := if k = 0 then ascii "1" else ascii "2" }

def chatHi : MsgData := ⟨0, 0, ascii "1", ascii "2", ascii "hi", chatText⟩

def groupHi : MsgData := ⟨0, 0, ascii "1", ascii "7", ascii "hi", groupchatText⟩

/-- A message of so many bytes is written, arrives and is taken. -/
def across (i j : Option (Fin 2)) (len : ℕ) : List (Net.Event (system twoServers).logged (tcp imPool)) :=
  [.inner i j (.handleWrite len), .inner i j (.segment len), .take i j]

/-- The thread of a server makes some steps. -/
def works (i : Bool) (k : ℕ) : List (Net.Event (system twoServers).logged (tcp imPool)) :=
  List.replicate k (.input none (.work i))

/-- Both clients log in and get their lists. `1` writes to `2`, and to the group `7`. -/
def conversation : List (Net.Event (system twoServers).logged (tcp imPool)) :=
  [.input none (.accept false), .input none (.accept true), .input (some 0) .initDialog,
      .input (some 0) .createDlgFriends, .input (some 0) .createDlgGroups] ++
    across (some 0) none 39 ++ works false 2 ++ across none (some 0) 36 ++
    across (some 0) none 47 ++ works false 3 ++ across none (some 0) 57 ++
    across (some 0) none 40 ++ works false 4 ++ across none (some 0) 53 ++
    across (some 0) none 41 ++ works false 9 ++
    [.input (some 1) .initDialog, .input (some 1) .createDlgFriends, .input (some 1) .createDlgGroups] ++
    across (some 1) none 39 ++ works true 9 ++ across none (some 1) 36 ++
    across (some 1) none 47 ++ works true 3 ++ across none (some 1) 57 ++
    across (some 1) none 40 ++ works true 4 ++ across none (some 1) 53 ++
    [.input (some 1) (.lbnDblclkFriends 0), .input (some 1) (.lbnDblclkGroups 0),
      .input (some 0) (.lbnDblclkFriends 0), .input (some 0) (.btnSendChat (ascii "2") (ascii "hi"))] ++
    across (some 0) none 39 ++ works false 3 ++
    [.input none (.deliver true), .input none (.deliver true)] ++ across none (some 1) 39 ++
    [.input (some 0) (.lbnDblclkGroups 0)] ++ across (some 0) none 45 ++ works false 1 ++
    across none (some 0) 72 ++ [.input (some 0) (.btnSendGroupChat (ascii "7") (ascii "hi"))] ++
    across (some 0) none 41 ++ works false 2 ++ [.input none (.deliver true)] ++ across none (some 1) 41

/-- The windows show what was written. -/
theorem exists_conversation : ∃ N : OverTcp twoServers,
    Run Net.step Clear (Net.new ((system twoServers).unlogged (initial twoServers twoSockets friendsRedis twoUsers)))
      conversation N ∧
      N.servers.foreign = [] ∧ (N.dlg 1).shown (.chat (ascii "1")) = [chatHi] ∧
        (N.dlg 1).shown (.group (ascii "7")) = [groupHi] ∧ (N.dlg 1).listFriends.length = 1 := by
  have hexec : (exec Net.step Clear (Net.new ((system twoServers).unlogged
      (initial twoServers twoSockets friendsRedis twoUsers)) : OverTcp twoServers) conversation).any
      (fun N : OverTcp twoServers => decide (N.servers.foreign = [] ∧
        (N.dlg 1).shown (.chat (ascii "1")) = [chatHi] ∧
          (N.dlg 1).shown (.group (ascii "7")) = [groupHi] ∧ (N.dlg 1).listFriends.length = 1)) = true := by
    decide +kernel
  exact Run.exists_of_exec hexec

/-! ## What is shown, in every run -/

/-- **A client receives what is for its user only.** In every run of clients and servers over TCP with clean
frames and whole writes: all that a client receives is for its user, and all that it has in its lists was in
Redis for the user. -/
theorem received_forUser_of_run (S : Setting ι n) (sockets : ι → Bytes) (r : Redis)
    (me : Fin n → MessageServer.UserData) {es : List (Net.Event (system S).logged (tcp imPool))} {N : OverTcp S}
    (hrun : Run Net.step Clear (Net.new ((system S).unlogged (initial S sockets r me))) es N) (k : Fin n) :
    (∀ x ∈ N.receivedBy k, OverTcp.ForUser N.history S.order (me k).userId x) ∧
      OverTcp.ListsFromRedis N.history S.order (me k).userId (N.dlg k) :=
  ⟨fun _ hx => (whole_of_run hrun).forUser hx, (whole_of_run hrun).lists k⟩

theorem received_forUser_conversation : ∃ N : OverTcp twoServers,
    Run Net.step Clear (Net.new ((system twoServers).unlogged
      (initial twoServers twoSockets friendsRedis twoUsers))) conversation N ∧
      (∀ x ∈ N.receivedBy 1, OverTcp.ForUser N.history twoServers.order (ascii "2") x) ∧
        OverTcp.ListsFromRedis N.history twoServers.order (ascii "2") (N.dlg 1) ∧
          (N.dlg 1).listFriends.length = 1 := by
  obtain ⟨N, hrun, -, -, -, hfriends⟩ := exists_conversation
  obtain ⟨hreceived, hlists⟩ := received_forUser_of_run twoServers twoSockets friendsRedis twoUsers hrun 1
  exact ⟨N, hrun, hreceived, hlists, hfriends⟩

/-- **Who has written what a friend's window shows.** In every run of clients and servers over TCP with
clean frames and whole writes: a message in the window for the user `u`, unless another program has published
it, was written by a client of `u` for the user of the window, who was in Redis a friend of `u`; no client of
another user has written it; and it is shown no more often than it was written. -/
theorem chat_shown_of_run (S : Setting ι n) (sockets : ι → Bytes) (r : Redis)
    (me : Fin n → MessageServer.UserData) {es : List (Net.Event (system S).logged (tcp imPool))} {N : OverTcp S}
    (hrun : Run Net.step Clear (Net.new ((system S).unlogged (initial S sockets r me))) es N) (k : Fin n)
    (u : Bytes) (m : MsgData) (hm : m ∈ (N.dlg k).shown (.chat u)) (hforeign : m ∉ N.servers.foreign) :
    m.fromId = u ∧ m.toId = (me k).userId ∧
      (∃ j d, m ∈ chats (N.sentBy j) ∧ FriendOf N.history u d ∧ d.userId = (me k).userId) ∧
      (∀ j, m ∈ chats (N.sentBy j) → (me j).userId = u) ∧
        ((N.dlg k).shown (.chat u)).count m ≤ ∑ j, (chats (N.sentBy j)).count m := by
  have h := whole_of_run hrun
  obtain ⟨⟨hpeer, rfl⟩, hreceived⟩ := h.of_shown hm
  obtain ⟨hchats, hmay⟩ := (h.addressed hreceived).resolve_left hforeign
  have hto : m.toId = (me k).userId := by
    rcases hmay with ⟨-, hshaken⟩ | ⟨hgroup, -⟩
    · exact h.userId_of_shaken hshaken
    · exact absurd hpeer (not_peerMsg_of_groupMsg hgroup)
  obtain ⟨j, hj⟩ := h.sent_of_chats hchats
  refine ⟨rfl, hto, ⟨j, ?_⟩, fun i hi => ((h.of_sent hi).1).symm, h.count_shown_le hpeer hforeign⟩
  obtain ⟨hfrom, ⟨-, d, hd, hid⟩ | ⟨htype, -⟩⟩ := h.of_sent hj
  · exact ⟨d, hj, hfrom ▸ hd, hid.trans hto⟩
  · exact absurd hpeer (not_peerMsg_of_groupMsg (.inl htype))

theorem chat_shown_conversation : ∃ N : OverTcp twoServers,
    Run Net.step Clear (Net.new ((system twoServers).unlogged
      (initial twoServers twoSockets friendsRedis twoUsers))) conversation N ∧
      (N.dlg 1).shown (.chat (ascii "1")) = [chatHi] ∧
        (∃ j d, chatHi ∈ chats (N.sentBy j) ∧ FriendOf N.history (ascii "1") d ∧ d.userId = ascii "2") ∧
          (∀ j, chatHi ∈ chats (N.sentBy j) → (twoUsers j).userId = ascii "1") ∧
            1 ≤ ∑ j, (chats (N.sentBy j)).count chatHi := by
  obtain ⟨N, hrun, hforeign, hshown, -, -⟩ := exists_conversation
  obtain ⟨-, -, hwritten, honly, hcount⟩ := chat_shown_of_run twoServers twoSockets friendsRedis twoUsers
    hrun 1 (ascii "1") chatHi (by simp [hshown]) (by simp [hforeign])
  rw [hshown, List.count_singleton_self] at hcount
  exact ⟨N, hrun, hshown, hwritten, honly, hcount⟩

/-- **Who has written what a group's window shows, and who sees it.** In the same runs: a message in the
window for the group `g`, unless another program has published it, was written for the group by a client of
the user it names, whose group it was in Redis; and the user of the window was in Redis among the members
online. -/
theorem group_shown_of_run (S : Setting ι n) (sockets : ι → Bytes) (r : Redis)
    (me : Fin n → MessageServer.UserData) {es : List (Net.Event (system S).logged (tcp imPool))} {N : OverTcp S}
    (hrun : Run Net.step Clear (Net.new ((system S).unlogged (initial S sockets r me))) es N) (k : Fin n)
    (g : Bytes) (m : MsgData) (hm : m ∈ (N.dlg k).shown (.group g)) (hforeign : m ∉ N.servers.foreign) :
    m.toId = g ∧
      (∃ j d, m ∈ chats (N.sentBy j) ∧ (me j).userId = m.fromId ∧ GroupOf N.history m.fromId d ∧ d.groupId = g) ∧
        Online N.history g (me k).userId := by
  have h := whole_of_run hrun
  obtain ⟨⟨hgroup, rfl⟩, hreceived⟩ := h.of_shown hm
  obtain ⟨hchats, hmay⟩ := (h.addressed hreceived).resolve_left hforeign
  obtain ⟨j, hj⟩ := h.sent_of_chats hchats
  refine ⟨rfl, ⟨j, ?_⟩, ?_⟩
  · obtain ⟨hfrom, ⟨htype, -⟩ | ⟨-, d, hd, hid⟩⟩ := h.of_sent hj
    · exact absurd (.inl htype) (not_peerMsg_of_groupMsg hgroup)
    · exact ⟨d, hj, hfrom.symm, hfrom ▸ hd, hid⟩
  · rcases hmay with ⟨hpeer, -⟩ | ⟨-, u, hshaken, honline⟩
    · exact absurd hpeer (not_peerMsg_of_groupMsg hgroup)
    · exact h.userId_of_shaken hshaken ▸ honline

theorem group_shown_conversation : ∃ N : OverTcp twoServers,
    Run Net.step Clear (Net.new ((system twoServers).unlogged
      (initial twoServers twoSockets friendsRedis twoUsers))) conversation N ∧
      (N.dlg 1).shown (.group (ascii "7")) = [groupHi] ∧
        (∃ j d, groupHi ∈ chats (N.sentBy j) ∧ (twoUsers j).userId = ascii "1" ∧
          GroupOf N.history (ascii "1") d ∧ d.groupId = ascii "7") ∧
          Online N.history (ascii "7") (ascii "2") := by
  obtain ⟨N, hrun, hforeign, -, hshown, -⟩ := exists_conversation
  obtain ⟨-, hwritten, honline⟩ := group_shown_of_run twoServers twoSockets friendsRedis twoUsers
    hrun 1 (ascii "7") groupHi (by simp [hshown]) (by simp [hforeign])
  exact ⟨N, hrun, hshown, hwritten, honline⟩

/-- **In which order messages are shown.** In the same runs: what a window shows of a user who has one client,
on another server, unless another program has published it, was written by that client in this order, and is
shown no more often. -/
theorem chat_order_of_run (S : Setting ι n) (sockets : ι → Bytes) (r : Redis)
    (me : Fin n → MessageServer.UserData) {es : List (Net.Event (system S).logged (tcp imPool))} {N : OverTcp S}
    (hrun : Run Net.step Clear (Net.new ((system S).unlogged (initial S sockets r me))) es N) {j k : Fin n}
    (hservers : (S.home j).1 ≠ (S.home k).1) (huser : ∀ l, (me l).userId = (me j).userId → l = j) :
    (((N.dlg k).shown (.chat (me j).userId)).filter fun m => m ∉ N.servers.foreign).Sublist
      (chats (N.sentBy j)) :=
  (whole_of_run hrun).shown_sublist hservers huser

theorem chat_order_conversation : ∃ N : OverTcp twoServers,
    Run Net.step Clear (Net.new ((system twoServers).unlogged
      (initial twoServers twoSockets friendsRedis twoUsers))) conversation N ∧
      ((N.dlg 1).shown (.chat (ascii "1"))).Sublist (chats (N.sentBy 0)) ∧
        (N.dlg 1).shown (.chat (ascii "1")) = [chatHi] := by
  obtain ⟨N, hrun, hforeign, hshown, -, -⟩ := exists_conversation
  have horder := chat_order_of_run twoServers twoSockets friendsRedis twoUsers hrun (j := 0) (k := 1)
    (by decide) (by decide)
  rw [hforeign] at horder
  exact ⟨N, hrun, by simpa [twoUsers] using horder, hshown⟩

end MutexIM.EndToEnd
