import MutexIM.Foundations.Countdown
import MutexIM.Foundations.JsNumber
import MutexIM.MessageServer.Unread
import MutexIM.Routing.Counters
import MutexIM.Web.GroupCommands

/-!
# Unread messages on the web

`UnreadPeerMsg` reads the list of a user's messages, hands it on and deletes it. `UnreadGroupMsg` asks for
the counters of the user's groups, then for the messages of each group with a counter of one or more, and
hands all of them on when the last answer has come. A counter is a text; the comparison takes it as a number.

* `UnreadPeerMsg` decodes the first message again and again and hands on one object:
  `not_returnsAll`.
* `answersOnce_iff`: the continuation of `UnreadGroupMsg` is called once exactly if no answer fails.
* `deliveredOnce_iff`: the counters are set to zero under other keys, and so groups with unread messages
  are read again (`counterReply_again`).
-/

namespace MutexIM.Web

open Bytes Codec JsNumber MessageServer Routing

/-- What a continuation of `server.js` is called with. -/
inductive Passed (Obj : Type)
  | undefined
  | object (o : Obj)
  | array (l : List Obj)
  deriving DecidableEq

/-- The commands that the two functions issue, with the texts of their arguments. -/
inductive UnreadCommand
  | lrange (key start stop : Bytes)
  | set (key value : Bytes)
  | del (key : Bytes)
  deriving DecidableEq

section

variable {Obj : Type} (decode : Bytes → Option Obj)

/-! ## Messages of users -/

/-- What the callback of `LRANGE` in `UnreadPeerMsg` comes to: the array it has made, the commands it has
issued and what it passes on. `decode` is `MsgData.parse` followed by the decoding of the text; where the
library throws, nothing comes of the callback. -/
structure PeerResult (Obj : Type) where
  outData : List Obj
  commands : List UnreadCommand
  passed : Passed Obj
  deriving DecidableEq

/-- The loop of the callback: each round decodes `reply[0]`. -/
def peerLoop (reply : List Bytes) : Option (List Obj × Passed Obj) :=
  reply.foldlM (fun s _ => (reply.head?.bind decode).map fun outObj => (s.1 ++ [outObj], .object outObj))
    ([], .undefined)

/-- The callback of `LRANGE`. -/
def peerCallback (userId : Bytes) : Reply → Option (PeerResult Obj)
  | .array reply => (peerLoop decode (reply.map Reply.bytes)).map fun s =>
      ⟨s.1, [.del (ascii "unreadMsg:" ++ userId)], s.2⟩
  | _ => some ⟨[], [], .array []⟩

/-- `UnreadPeerMsg`, with the keys as they are when `LRANGE` is executed. -/
def UnreadPeerMsg (ks : Keyspace) (userId : Bytes) : Option (PeerResult Obj) :=
  peerCallback decode userId (ks.lrange (ascii "unreadMsg:" ++ userId) 0 (-1))

/-- The decoded message of every entry, in the order of the list, is passed on as an array, and what is
deleted was decoded into it. -/
def ReturnsAll (ks : Keyspace) (userId : Bytes) : Prop :=
  ∃ r msgs, UnreadPeerMsg decode ks userId = some r ∧
    (ks.listAt (ascii "unreadMsg:" ++ userId)).mapM decode = some msgs ∧ r.passed = .array msgs ∧
    (.del (ascii "unreadMsg:" ++ userId) ∈ r.commands → r.outData = msgs)

variable {decode}

/-- All rounds of the loop do the same. -/
theorem foldlM_peer (o : Obj) (l : List Bytes) (s : List Obj × Passed Obj) :
    l.foldlM (fun s _ => (some o).map fun outObj => (s.1 ++ [outObj], Passed.object outObj)) s =
      some (s.1 ++ List.replicate l.length o, if l = [] then s.2 else .object o) := by
  induction l generalizing s with
  | nil => simp
  | cons m l ih =>
    rw [List.foldlM_cons, Option.map_some, Option.bind_eq_bind, Option.bind_some, ih]
    simp [List.replicate_succ]

/-- **What the loop makes** of a list that is not empty: the first message, as often as there are
messages. -/
theorem peerLoop_cons (m : Bytes) (l : List Bytes) : peerLoop decode (m :: l) =
    (decode m).map fun o => (List.replicate (l.length + 1) o, .object o) := by
  rw [peerLoop, List.head?_cons, Option.bind_some]
  cases decode m with
  | none => rfl
  | some o =>
    rw [foldlM_peer, if_neg (List.cons_ne_nil _ _)]
    rfl

theorem lrange_all {ks : Keyspace} {k : Bytes} (h : ks.ListOrNone k) :
    ks.lrange k 0 (-1) = .array ((ks.listAt k).map .str) := by
  unfold Keyspace.lrange Keyspace.listAt
  rcases hv : ks k with _ | v
  · rfl
  · obtain ⟨l, rfl⟩ := h v hv
    simp only [Keyspace.slice_all]

theorem UnreadPeerMsg_eq {ks : Keyspace} {userId : Bytes}
    (h : ks.ListOrNone (ascii "unreadMsg:" ++ userId)) :
    UnreadPeerMsg decode ks userId =
      (peerLoop decode (ks.listAt (ascii "unreadMsg:" ++ userId))).map fun s =>
        ⟨s.1, [.del (ascii "unreadMsg:" ++ userId)], s.2⟩ := by
  have hbytes : ∀ l : List Bytes, (l.map Reply.str).map Reply.bytes = l := fun l => by
    rw [List.map_map]
    exact List.map_id l
  rw [UnreadPeerMsg, lrange_all h, peerCallback, hbytes]

/-- **The messages are never returned**: whatever the list holds, no array is passed on. -/
theorem not_returnsAll {ks : Keyspace} {userId : Bytes}
    (h : ks.ListOrNone (ascii "unreadMsg:" ++ userId)) : ¬ReturnsAll decode ks userId := by
  rintro ⟨r, msgs, hr, -, hpassed, -⟩
  rw [UnreadPeerMsg_eq h] at hr
  obtain ⟨s, hs, rfl⟩ := Option.map_eq_some_iff.1 hr
  have hloop : s.2 = .array msgs := hpassed
  cases hlist : ks.listAt (ascii "unreadMsg:" ++ userId) with
  | nil =>
    rw [hlist] at hs
    obtain rfl := Option.some.inj hs
    cases hloop
  | cons m l =>
    rw [hlist, peerLoop_cons] at hs
    obtain ⟨o, -, rfl⟩ := Option.map_eq_some_iff.1 hs
    cases hloop

/-! ## Messages of groups -/

variable (decode)

/-- What the callback of an `LRANGE` gets. -/
inductive RangeOutcome
  | success (msgArr : List Bytes)
  | error
  | null

/-- The loop over `msgArr`: what it pushes, and whether it comes to the end, which it does if the library
does not throw. -/
def decodeLoop : List Bytes → List Obj × Bool
  | [] => ([], true)
  | m :: msgArr =>
    match decode m with
    | some outObj => let (outData, done) := decodeLoop msgArr; (outObj :: outData, done)
    | none => ([], false)

/-- The callback of an `LRANGE`. Its closure is a countdown: `queryNum` is `left`, `outData` is
`collected`, and `calls` are those of `func`. -/
def rangeCallback (s : Countdown Obj) : RangeOutcome → Countdown Obj
  | .success msgArr => let (outData, done) := decodeLoop decode msgArr; s.arrive outData done
  | .error => s
  | .null => s

/-- A counter where a number is expected; `null` is zero. -/
def counterValue : Option Bytes → Number
  | none => .finite 0
  | some s => toNumber s

/-- `reply[2 * i + 1] >= 1`. -/
def Counts (e : Bytes × Option Bytes) : Prop := (counterValue e.2).Ge (.finite 1)

instance : DecidablePred Counts := fun e => inferInstanceAs (Decidable ((counterValue e.2).Ge _))

/-- What is done for an entry of the reply: the messages are asked for, up to the place before the counter,
and the counter is set to zero. -/
def entryCommands (userId : Bytes) (e : Bytes × Option Bytes) : List UnreadCommand :=
  if Counts e then
    [.lrange (ascii "groupMsg:" ++ e.1) (ascii "0") ((counterValue e.2).sub (.finite 1)).text,
      .set (ascii "unreadNumber:" ++ userId ++ e.1) (ascii "0")]
  else []

/-- The callback of `SORT`: the closure that it makes, and the commands issued. -/
def sortCallback (Obj : Type) (userId : Bytes) : Reply → Countdown Obj × List UnreadCommand
  | .array l =>
    let reply := sortPairs (.array l)
    let queryNum := reply.foldl (fun queryNum e => if Counts e then queryNum + 1 else queryNum) (0 : ℤ)
    (⟨queryNum, [], if queryNum ≤ 0 then [[]] else []⟩, reply.flatMap (entryCommands userId))
  | _ => (⟨0, [], [[]]⟩, [])

/-- The entries of a reply that count. -/
def counting (reply : Reply) : List (Bytes × Option Bytes) := (sortPairs reply).filter (Counts ·)

/-- How often the messages of a group are asked for. -/
def UnreadCommand.IsRange : UnreadCommand → Bool
  | .lrange .. => true
  | _ => false

/-! ### One answer -/

/-- The decoded messages of a successful range. -/
def messages : RangeOutcome → List Obj
  | .success msgArr => msgArr.filterMap decode
  | .error => []
  | .null => []

/-- The continuation is called once: after the last callback, with the messages of all ranges. -/
structure AnswersOnce (s : Countdown Obj) (outcomes : List RangeOutcome) : Prop where
  last : (outcomes.foldl (rangeCallback decode) s).calls = [outcomes.flatMap (messages decode)]
  before : ∀ init, init <+: outcomes → init ≠ outcomes →
    (init.foldl (rangeCallback decode) s).calls = []

/-- The callback gets a list, and all messages in it are well formed. -/
def Succeeds (o : RangeOutcome) : Prop := ∃ msgArr, o = .success msgArr ∧ ∀ m ∈ msgArr, (decode m).isSome

/-- What an outcome brings to the countdown. -/
def brings : RangeOutcome → List Obj × Bool
  | .success msgArr => decodeLoop decode msgArr
  | .error => ([], false)
  | .null => ([], false)

variable {decode}

theorem rangeCallback_eq (s : Countdown Obj) (o : RangeOutcome) :
    rangeCallback decode s o = s.arrive (brings decode o).1 (brings decode o).2 := by
  cases o with
  | success msgArr => rfl
  | error => rw [rangeCallback, brings, Countdown.arrive, List.append_nil]; rfl
  | null => rw [rangeCallback, brings, Countdown.arrive, List.append_nil]; rfl

theorem foldl_rangeCallback (s : Countdown Obj) (outcomes : List RangeOutcome) :
    outcomes.foldl (rangeCallback decode) s = s.arriveAll (outcomes.map (brings decode)) := by
  rw [Countdown.arriveAll, List.foldl_map]
  exact congrArg (fun f => outcomes.foldl f s) (funext₂ rangeCallback_eq)

theorem decodeLoop_snd (msgArr : List Bytes) :
    (decodeLoop decode msgArr).2 = true ↔ ∀ m ∈ msgArr, (decode m).isSome := by
  induction msgArr with
  | nil => exact iff_of_true rfl (List.forall_mem_nil _)
  | cons m msgArr ih =>
    rw [List.forall_mem_cons, decodeLoop]
    cases decode m with
    | none => exact iff_of_false Bool.false_ne_true fun h => Bool.false_ne_true h.1
    | some o => exact ih.trans (and_iff_right rfl).symm

theorem decodeLoop_fst {msgArr : List Bytes} (h : ∀ m ∈ msgArr, (decode m).isSome) :
    (decodeLoop decode msgArr).1 = msgArr.filterMap decode := by
  induction msgArr with
  | nil => rfl
  | cons m msgArr ih =>
    obtain ⟨hm, hrest⟩ := List.forall_mem_cons.1 h
    obtain ⟨o, ho⟩ := Option.isSome_iff_exists.1 hm
    rw [List.filterMap_cons_some ho, ← ih hrest, decodeLoop, ho]

theorem brings_snd (o : RangeOutcome) : (brings decode o).2 = true ↔ Succeeds decode o := by
  cases o with
  | success msgArr =>
    refine (decodeLoop_snd msgArr).trans ⟨fun h => ⟨msgArr, rfl, h⟩, ?_⟩
    rintro ⟨_, ho, h⟩
    obtain rfl := RangeOutcome.success.inj ho
    exact h
  | error => exact iff_of_false Bool.false_ne_true fun ⟨_, ho, _⟩ => by cases ho
  | null => exact iff_of_false Bool.false_ne_true fun ⟨_, ho, _⟩ => by cases ho

theorem brings_fst {o : RangeOutcome} (h : Succeeds decode o) :
    (brings decode o).1 = messages decode o := by
  obtain ⟨msgArr, rfl, h⟩ := h
  exact decodeLoop_fst h

theorem foldl_queryNum (l : List (Bytes × Option Bytes)) (n : ℤ) :
    l.foldl (fun queryNum e => if Counts e then queryNum + 1 else queryNum) n =
      n + (l.countP (Counts ·) : ℕ) := by
  induction l generalizing n with
  | nil => exact (Int.add_zero _).symm
  | cons e l ih =>
    rw [List.foldl_cons, ih, List.countP_cons]
    simp only [decide_eq_true_eq]
    split
    · rw [Int.natCast_add]
      omega
    · rfl

theorem length_filter_entryCommands (userId : Bytes) (l : List (Bytes × Option Bytes)) :
    ((l.flatMap (entryCommands userId)).filter UnreadCommand.IsRange).length = l.countP (Counts ·) := by
  induction l with
  | nil => rfl
  | cons e l ih =>
    rw [List.flatMap_cons, List.filter_append, List.length_append, ih, List.countP_cons, entryCommands]
    simp only [decide_eq_true_eq]
    split
    · exact Nat.add_comm 1 _
    · exact Nat.zero_add _

/-- **The countdown begins** at the number of `LRANGE` commands; if there is none, the continuation is
called at once. -/
theorem sortCallback_fst {userId : Bytes} {reply : Reply} {n : ℕ}
    (h : n = ((sortCallback Obj userId reply).2.filter UnreadCommand.IsRange).length) :
    (sortCallback Obj userId reply).1 = ⟨n, [], if n = 0 then [[]] else []⟩ := by
  subst h
  cases reply with
  | array l =>
    have hnum : ∀ n : ℕ, (n : ℤ) ≤ 0 ↔ n = 0 := by omega
    simp only [sortCallback, length_filter_entryCommands, foldl_queryNum, Int.zero_add, hnum]
  | _ => rfl

/-- Before the last callback nothing is answered. -/
theorem calls_of_lt {outcomes : List RangeOutcome} {n : ℕ} (h : outcomes.length < n) :
    (outcomes.foldl (rangeCallback decode) ⟨n, [], []⟩).calls = [] := by
  rw [foldl_rangeCallback, Countdown.arriveAll_calls_of_lt]
  rw [List.length_map]
  exact Int.ofNat_lt.2 h

theorem forall_brings_iff {outcomes : List RangeOutcome} :
    (∀ a ∈ outcomes.map (brings decode), a.2 = true) ↔ ∀ o ∈ outcomes, Succeeds decode o := by
  rw [List.forall_mem_map]
  exact forall₂_congr fun o _ => brings_snd o

/-- After the last one there is an answer if all have succeeded. -/
theorem calls_of_length (decode : Bytes → Option Obj) {outcomes : List RangeOutcome}
    (hne : outcomes ≠ []) :
    (outcomes.foldl (rangeCallback decode) ⟨outcomes.length, [], []⟩).calls =
      if ∀ a ∈ outcomes.map (brings decode), a.2 = true then
        [(outcomes.map (brings decode)).flatMap Prod.fst]
      else [] := by
  have hlen : ((outcomes.map (brings decode)).length : ℤ) = outcomes.length := by rw [List.length_map]
  have hmap : outcomes.map (brings decode) ≠ [] := hne ∘ List.map_eq_nil_iff.1
  rw [foldl_rangeCallback, Countdown.arriveAll_calls hlen hmap, List.nil_append, List.nil_append]

/-- **When a request is answered once**: for every reply to `SORT`, and all outcomes of the ranges in the
order in which their callbacks run, exactly if each range succeeds. -/
theorem answersOnce_iff {userId : Bytes} {reply : Reply} {outcomes : List RangeOutcome}
    (hlen : outcomes.length =
      ((sortCallback Obj userId reply).2.filter UnreadCommand.IsRange).length) :
    AnswersOnce decode (sortCallback Obj userId reply).1 outcomes ↔
      ∀ o ∈ outcomes, Succeeds decode o := by
  rw [sortCallback_fst hlen]
  by_cases hne : outcomes = []
  · subst hne
    refine iff_of_true ⟨rfl, fun init hinit hinit_ne => ?_⟩ (List.forall_mem_nil _)
    exact absurd (List.prefix_nil.1 hinit) hinit_ne
  rw [if_neg fun h => hne (List.eq_nil_of_length_eq_zero h)]
  have hcalls := calls_of_length decode hne
  by_cases hsucceeds : ∀ o ∈ outcomes, Succeeds decode o
  · refine iff_of_true ⟨?_, fun init hinit hinit_ne => ?_⟩ hsucceeds
    · rw [hcalls, if_pos (forall_brings_iff.2 hsucceeds), List.flatMap_map]
      exact congrArg (fun l => [l]) (List.flatMap_congr fun o ho => brings_fst (hsucceeds o ho))
    · refine calls_of_lt (Nat.lt_of_le_of_ne hinit.length_le fun h => ?_)
      exact hinit_ne (hinit.eq_of_length h)
  · refine iff_of_false (fun h => ?_) hsucceeds
    have hlast := h.last
    rw [hcalls, if_neg (hsucceeds ∘ forall_brings_iff.1)] at hlast
    cases hlast

/-! ### Two requests -/

variable (decode) (order : Keyspace.NumericOrder) (ks : Keyspace) (userId : Bytes)

/-- The reply to `SORT`: the groups of the user, each with the text of its counter. -/
def counterReply : Reply :=
  ks.sortGets (ascii "groupSet:" ++ userId) order [ascii "#", unreadNumber userId (ascii "*")]

/-- What the callback of an `LRANGE` gets of its reply. -/
def RangeOutcome.ofReply : Reply → RangeOutcome
  | .array l => .success (l.map Reply.bytes)
  | .nil => .null
  | _ => .error

/-- What the Redis server does with a command. -/
def UnreadCommand.exec : UnreadCommand → Keyspace × Option RangeOutcome
  | .lrange key start stop =>
    match Keyspace.integer start, Keyspace.integer stop with
    | some start, some stop => (ks, some (.ofReply (ks.lrange key start stop)))
    -- value is not an integer or out of range
    | _, _ => (ks, some .error)
  | .set key value => ((ks.set key value).2, none)
  | .del key => ((ks.del key).2, none)

/-- A command is executed and, if it has a callback, its callback runs. -/
def execThen (x : Countdown Obj × Keyspace) (c : UnreadCommand) : Countdown Obj × Keyspace :=
  ((c.exec x.2).2.elim x.1 (rangeCallback decode x.1), (c.exec x.2).1)

/-- `UnreadGroupMsg`, and the keys when its commands are executed. -/
def UnreadGroupMsg : Countdown Obj × Keyspace :=
  let (s, commands) := sortCallback Obj userId (counterReply order ks userId)
  commands.foldl (execThen decode) (s, ks)

/-- The counter that is read for a group. -/
def counterOf (g : Bytes) : Number :=
  counterValue (jsString (ks.fetch (unreadNumber userId (ascii "*")) g))

/-- A request sets the counters of the groups whose messages it returns to zero, and writes nothing else;
so the next request returns nothing. -/
structure DeliveredOnce : Prop where
  zero : ∀ e ∈ counting (counterReply order ks userId),
    (UnreadGroupMsg decode order ks userId).2 (unreadNumber userId e.1) = some (.str (ascii "0"))
  again : (UnreadGroupMsg decode order (UnreadGroupMsg decode order ks userId).2 userId).1.calls = [[]]
  others : ∀ key value,
    .set key value ∈ (sortCallback Obj userId (counterReply order ks userId)).2 →
      ∃ e ∈ counting (counterReply order ks userId), key = unreadNumber userId e.1

variable {decode order ks userId}

theorem UnreadGroupMsg_eq : UnreadGroupMsg decode order ks userId =
    (sortCallback Obj userId (counterReply order ks userId)).2.foldl (execThen decode)
      ((sortCallback Obj userId (counterReply order ks userId)).1, ks) := rfl

theorem sortPairs_counterReply {l : List Bytes}
    (h : (ks.sortable (ascii "groupSet:" ++ userId)).bind order.sort = some l) :
    sortPairs (counterReply order ks userId) =
      l.map fun g => (g, jsString (ks.fetch (unreadNumber userId (ascii "*")) g)) := by
  have helements : (Reply.array (l.flatMap fun m =>
      [ascii "#", unreadNumber userId (ascii "*")].map fun pattern => ks.fetch pattern m)).elements =
        l.flatMap fun m => [.str m, ks.fetch (unreadNumber userId (ascii "*")) m] := rfl
  rw [counterReply, Keyspace.sortGets, h, sortPairs, helements, Reply.pairs_flatMap, List.map_map]
  rfl

/-- The groups that `SORT` lists are those of the user. -/
theorem exists_sorted (horder : SortsDecimals order)
    (hset : ks.SetOrNone (ascii "groupSet:" ++ userId))
    (hdecimal : ∀ g ∈ ks.members (ascii "groupSet:" ++ userId), Decimal g) :
    ∃ l : List Bytes, l.Perm (ks.members (ascii "groupSet:" ++ userId)) ∧
      sortPairs (counterReply order ks userId) =
        l.map fun g => (g, jsString (ks.fetch (unreadNumber userId (ascii "*")) g)) := by
  obtain ⟨l, hl⟩ := Option.isSome_iff_exists.1 (horder _ hdecimal)
  refine ⟨l, order.perm hl, sortPairs_counterReply ?_⟩
  rw [Keyspace.sortable_eq hset, Option.bind_some, hl]

theorem sortCallback_snd (reply : Reply) :
    (sortCallback Obj userId reply).2 = (sortPairs reply).flatMap (entryCommands userId) := by
  cases reply <;> rfl

theorem sortCallback_snd_eq_nil {reply : Reply} (h : ∀ e ∈ sortPairs reply, ¬Counts e) :
    (sortCallback Obj userId reply).2 = [] := by
  rw [sortCallback_snd]
  exact List.flatMap_eq_nil_iff.2 fun e he => if_neg (h e he)

theorem set_mem_sortCallback {reply : Reply} {e : Bytes × Option Bytes} (he : e ∈ sortPairs reply)
    (hcounts : Counts e) : .set (ascii "unreadNumber:" ++ userId ++ e.1) (ascii "0") ∈
      (sortCallback Obj userId reply).2 := by
  rw [sortCallback_snd]
  refine List.mem_flatMap.2 ⟨e, he, ?_⟩
  rw [entryCommands, if_pos hcounts]
  exact List.mem_cons_of_mem _ List.mem_cons_self

/-- The key that is set to zero for a group is no counter: a group's id does not begin with a colon. -/
theorem writtenKey_ne {g g' : Bytes} (hg : Decimal g) :
    ascii "unreadNumber:" ++ userId ++ g ≠ unreadNumber userId g' := by
  intro h
  rw [unreadNumber, List.append_assoc, List.append_assoc, List.append_assoc, List.append_right_inj,
    List.append_right_inj] at h
  have hcolon : 58 ∈ g := h ▸ List.mem_append_left _ (by decide)
  exact absurd (hg.2 58 hcolon).2 (by decide)

/-- A counter as `INCR` leaves it counts from one on. -/
theorem counts_itoa {g : Bytes} {n : ℕ} (h : n < 2 ^ 53) : Counts (g, some (itoa n)) ↔ 1 ≤ n := by
  rw [Counts, counterValue, toNumber_itoa h]
  exact Nat.one_le_cast

/-- **When unread messages are delivered once**: exactly if there are none. -/
theorem deliveredOnce_iff (horder : SortsDecimals order)
    (hset : ks.SetOrNone (ascii "groupSet:" ++ userId))
    (hdecimal : ∀ g ∈ ks.members (ascii "groupSet:" ++ userId), Decimal g) :
    DeliveredOnce decode order ks userId ↔
      ∀ g ∈ ks.members (ascii "groupSet:" ++ userId), ¬(counterOf ks userId g).Ge (.finite 1) := by
  obtain ⟨l, hperm, hpairs⟩ := exists_sorted horder hset hdecimal
  constructor
  · intro h g hg hcount
    have hentry : (g, jsString (ks.fetch (unreadNumber userId (ascii "*")) g)) ∈
        sortPairs (counterReply order ks userId) := by
      rw [hpairs]
      exact List.mem_map_of_mem (hperm.mem_iff.2 hg)
    have hcounts : Counts (g, jsString (ks.fetch (unreadNumber userId (ascii "*")) g)) := hcount
    obtain ⟨e, -, hkey⟩ := h.others _ _ (set_mem_sortCallback hentry hcounts)
    exact writtenKey_ne (hdecimal g hg) hkey
  · intro h
    have hnone : ∀ e ∈ sortPairs (counterReply order ks userId), ¬Counts e := by
      rw [hpairs]
      exact List.forall_mem_map.2 fun g hg => h g (hperm.mem_iff.1 hg)
    have hcommands : (sortCallback Obj userId (counterReply order ks userId)).2 = [] :=
      sortCallback_snd_eq_nil hnone
    have hcounting : counting (counterReply order ks userId) = [] :=
      List.filter_eq_nil_iff.2 fun e he => by simpa using hnone e he
    have hstart : (sortCallback Obj userId (counterReply order ks userId)).1 = ⟨0, [], [[]]⟩ :=
      sortCallback_fst (by rw [hcommands]; rfl)
    have hrequest : UnreadGroupMsg decode order ks userId =
        ((sortCallback Obj userId (counterReply order ks userId)).1, ks) := by
      rw [UnreadGroupMsg_eq, hcommands, List.foldl_nil]
    constructor
    case zero =>
      rw [hcounting]
      exact List.forall_mem_nil _
    case again =>
      rw [hrequest, hrequest, hstart]
    case others =>
      intro key value hmem
      rw [hcommands] at hmem
      cases hmem

/-- A key that no command writes. -/
theorem foldl_execThen_of_ne {k : Bytes} {commands : List UnreadCommand}
    (h : ∀ c ∈ commands, ∀ ks : Keyspace, (c.exec ks).1 k = ks k) (x : Countdown Obj × Keyspace) :
    (commands.foldl (execThen decode) x).2 k = x.2 k := by
  induction commands generalizing x with
  | nil => rfl
  | cons c commands ih =>
    obtain ⟨hc, hrest⟩ := List.forall_mem_cons.1 h
    exact (ih hrest _).trans (hc x.2)

theorem lrange_exec_fst (key start stop : Bytes) (ks : Keyspace) :
    ((UnreadCommand.lrange key start stop).exec ks).1 = ks := by
  rw [UnreadCommand.exec]
  split <;> rfl

theorem UnreadGroupMsg_of_ne {k : Bytes}
    (h : ∀ e ∈ sortPairs (counterReply order ks userId),
      k ≠ ascii "unreadNumber:" ++ userId ++ e.1) :
    (UnreadGroupMsg decode order ks userId).2 k = ks k := by
  rw [UnreadGroupMsg_eq, foldl_execThen_of_ne fun c hc ks => ?_]
  rw [sortCallback_snd] at hc
  obtain ⟨e, he, hc⟩ := List.mem_flatMap.1 hc
  unfold entryCommands at hc
  split at hc
  · rcases List.mem_cons.1 hc with rfl | hc
    · exact congrFun (lrange_exec_fst _ _ _ ks) k
    · rw [List.mem_singleton.1 hc]
      exact Keyspace.set_of_ne (h e he)
  · cases hc

/-- **What is returned is returned again**: the next request of the user is answered with the same groups
and the same counters. -/
theorem counterReply_again (horder : SortsDecimals order)
    (hset : ks.SetOrNone (ascii "groupSet:" ++ userId))
    (hdecimal : ∀ g ∈ ks.members (ascii "groupSet:" ++ userId), Decimal g) (hstar : 42 ∉ userId) :
    counterReply order (UnreadGroupMsg decode order ks userId).2 userId = counterReply order ks userId := by
  obtain ⟨l, hperm, hpairs⟩ := exists_sorted horder hset hdecimal
  have hentry : ∀ e ∈ sortPairs (counterReply order ks userId), Decimal e.1 := by
    rw [hpairs]
    exact List.forall_mem_map.2 fun g hg => hdecimal g (hperm.mem_iff.1 hg)
  have hcounter : ∀ g, (UnreadGroupMsg decode order ks userId).2 (unreadNumber userId g) =
      ks (unreadNumber userId g) :=
    fun g => UnreadGroupMsg_of_ne fun e he => (writtenKey_ne (hentry e he)).symm
  have hgroups : (UnreadGroupMsg decode order ks userId).2 (ascii "groupSet:" ++ userId) =
      ks (ascii "groupSet:" ++ userId) := by
    refine UnreadGroupMsg_of_ne fun e _ h => ?_
    have hhead : some (103 : UInt8) = some 117 := congrArg List.head? h
    exact absurd hhead (by decide)
  have hfree : 42 ∉ ascii "unreadNumber:" ++ userId ++ ascii ":" := by
    rw [List.mem_append, List.mem_append]
    exact not_or.2 ⟨not_or.2 ⟨by decide, hstar⟩, by decide⟩
  have hfetch : ∀ m, ∀ pattern ∈ [ascii "#", unreadNumber userId (ascii "*")],
      (UnreadGroupMsg decode order ks userId).2.fetch pattern m = ks.fetch pattern m := by
    intro m pattern hpattern
    rcases List.mem_cons.1 hpattern with rfl | hpattern
    · rfl
    · rw [List.mem_singleton.1 hpattern, unreadNumber, Keyspace.fetch_star hfree,
        Keyspace.fetch_star hfree]
      have hkey := hcounter m
      rw [unreadNumber] at hkey
      rw [hkey]
  have hsortable : (UnreadGroupMsg decode order ks userId).2.sortable (ascii "groupSet:" ++ userId) =
      ks.sortable (ascii "groupSet:" ++ userId) := by
    unfold Keyspace.sortable
    rw [hgroups]
  rw [counterReply, counterReply, Keyspace.sortGets, Keyspace.sortGets, hsortable]
  cases (ks.sortable (ascii "groupSet:" ++ userId)).bind order.sort with
  | none => rfl
  | some l' =>
    refine congrArg Reply.array (List.flatMap_congr fun m _ => ?_)
    exact List.map_congr_left fun pattern hpattern => hfetch m pattern hpattern

end

/-! ## Two messages and two groups -/

/-- Two messages wait for `u`. -/
def twoUnread : Keyspace := fun k =>
  if k = ascii "unreadMsg:u" then some (.list [ascii "b", ascii "a"]) else none

/-- The first is passed on, and both are deleted; an empty list is `undefined`. -/
theorem UnreadPeerMsg_two :
    UnreadPeerMsg some twoUnread (ascii "u") =
        some ⟨[ascii "b", ascii "b"], [.del (ascii "unreadMsg:u")], .object (ascii "b")⟩ ∧
      UnreadPeerMsg some twoUnread (ascii "v") =
        some ⟨[], [.del (ascii "unreadMsg:v")], .undefined⟩ ∧
      ¬ReturnsAll some twoUnread (ascii "u") ∧ ¬ReturnsAll some twoUnread (ascii "v") := by
  have hu : UnreadPeerMsg some twoUnread (ascii "u") =
      some ⟨[ascii "b", ascii "b"], [.del (ascii "unreadMsg:u")], .object (ascii "b")⟩ := by decide
  have hv : UnreadPeerMsg some twoUnread (ascii "v") =
      some ⟨[], [.del (ascii "unreadMsg:v")], .undefined⟩ := by decide
  refine ⟨hu, hv, ?_, ?_⟩
  · rintro ⟨r, msgs, hr, -, hpassed, -⟩
    obtain rfl := Option.some.inj (hu.symm.trans hr)
    cases hpassed
  · rintro ⟨r, msgs, hr, -, hpassed, -⟩
    obtain rfl := Option.some.inj (hv.symm.trans hr)
    cases hpassed

theorem not_returnsAll_two : ¬ReturnsAll some twoUnread (ascii "u") :=
  not_returnsAll (by
    intro v hv
    obtain rfl : Value.list [ascii "b", ascii "a"] = v := Option.some.inj hv
    exact ⟨_, rfl⟩)

/-- The reply to `SORT` for a user who has missed a message in each of two groups. -/
def twoGroups : Reply :=
  .array [.str (ascii "7"), .str (ascii "1"), .str (ascii "8"), .str (ascii "1")]

/-- One of the two ranges fails, and the request is never answered. -/
theorem not_answersOnce_twoGroups :
    ([RangeOutcome.success [ascii "a"], .error].foldl (rangeCallback some)
        (sortCallback Bytes (ascii "u") twoGroups).1).calls = [] ∧
      ¬AnswersOnce some (sortCallback Bytes (ascii "u") twoGroups).1 [.success [ascii "a"], .error] := by
  have hcalls : ([RangeOutcome.success [ascii "a"], .error].foldl (rangeCallback some)
      (sortCallback Bytes (ascii "u") twoGroups).1).calls = [] := by decide +kernel
  refine ⟨hcalls, fun h => ?_⟩
  have hlast := h.last
  rw [hcalls] at hlast
  cases hlast

theorem answersOnce_twoGroups :
    AnswersOnce some (sortCallback Bytes (ascii "u") twoGroups).1
      [.success [ascii "b"], .success [ascii "a"]] := by
  refine (answersOnce_iff (by decide +kernel)).2 fun o ho => ?_
  rcases List.mem_cons.1 ho with rfl | ho
  · exact ⟨_, rfl, fun _ _ => rfl⟩
  · rw [List.mem_singleton.1 ho]
    exact ⟨_, rfl, fun _ _ => rfl⟩

/-- `u` is a member of the group `7`; its counter is `n`, and the group's list has one message. -/
def oneGroup (n : String) : Keyspace := fun k =>
  if k = ascii "groupSet:u" then some (.set (.singleton (ascii "7")))
  else if k = ascii "unreadNumber:u:7" then some (.str (ascii n))
  else if k = ascii "groupMsg:7" then some (.list [ascii "a"])
  else none

theorem setOrNone_oneGroup (n : String) : (oneGroup n).SetOrNone (ascii "groupSet:" ++ ascii "u") := by
  intro v hv
  obtain rfl : Value.set (.singleton (ascii "7")) = v := Option.some.inj hv
  exact ⟨_, rfl⟩

/-- One message was missed. It is returned, another key is set to zero, and it is returned again. -/
theorem not_deliveredOnce_oneGroup :
    (UnreadGroupMsg some GroupLog.decimalOrder (oneGroup "1") (ascii "u")).1.calls = [[ascii "a"]] ∧
      (UnreadGroupMsg some GroupLog.decimalOrder (oneGroup "1") (ascii "u")).2 (ascii "unreadNumber:u7") =
        some (.str (ascii "0")) ∧
      (UnreadGroupMsg some GroupLog.decimalOrder
        (UnreadGroupMsg some GroupLog.decimalOrder (oneGroup "1") (ascii "u")).2 (ascii "u")).1.calls =
          [[ascii "a"]] ∧
      ¬DeliveredOnce some GroupLog.decimalOrder (oneGroup "1") (ascii "u") := by
  have hagain : (UnreadGroupMsg some GroupLog.decimalOrder
      (UnreadGroupMsg some GroupLog.decimalOrder (oneGroup "1") (ascii "u")).2 (ascii "u")).1.calls =
        [[ascii "a"]] := by decide +kernel
  refine ⟨by decide +kernel, by decide +kernel, hagain, fun h => ?_⟩
  have hnone := h.again
  rw [hagain] at hnone
  revert hnone
  decide

theorem deliveredOnce_oneGroup : DeliveredOnce some GroupLog.decimalOrder (oneGroup "0") (ascii "u") :=
  (deliveredOnce_iff Tally.sortsDecimals_decimalOrder (setOrNone_oneGroup "0") (by decide +kernel)).2
    (by decide +kernel)

end MutexIM.Web
