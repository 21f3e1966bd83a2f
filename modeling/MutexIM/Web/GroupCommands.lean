import MutexIM.Web.GroupMessage

/-!
# The commands of a group message

The handler of a group message issues its commands at once, and the callbacks issue more.

* `GroupCommand.exec` is the Redis server, `groupCallback` what the callbacks issue.
* `sortPairs` is the reply of `SORT` as the callback takes it: an id, and a string or `null`.
* `groupLookup` is what the callback of `SORT` finds: the members that are online in the group, each with
  what its `online:` key holds, or nobody if Redis does not sort the ids.
-/

namespace MutexIM.Web

open Bytes Codec

/-- The answers that a callback of the handler waits for. -/
inductive GroupReply
  | sort (data : JsMessage) (reply : Reply)
  | lpush (toId : Bytes) (reply : Reply)
  | sdiff (toId : Bytes) (reply : Reply)

/-- An element of a reply: a string, or `null`. -/
def jsString : Reply → Option Bytes
  | .str s => some s
  | _ => none

/-- The patterns of `SORT`. -/
def onlinePatterns : List Bytes := [ascii "#", ascii "online:*"]

/-- What the Redis server does with a command; `serialize` and `serializeGroup` write the messages. -/
def GroupCommand.exec (order : Keyspace.NumericOrder) (serialize : MsgData → Bytes)
    (serializeGroup : ServerGroupMsg → Bytes) (r : Redis) : GroupCommand → Redis × Option GroupReply
  | .sort data =>
    (r, some (.sort data (r.keys.sortGets (ascii "onlineGroup:" ++ data.toId) order onlinePatterns)))
  | .lpush toId m =>
    let (reply, keys) := r.keys.lpush (ascii "groupMsg:" ++ toId) (serialize m)
    ({ r with keys := keys }, some (.lpush toId reply))
  | .ltrim toId => ({ r with keys := (r.keys.ltrim (ascii "groupMsg:" ++ toId) 0 99).2 }, none)
  | .sdiff toId =>
    (r, some (.sdiff toId (r.keys.sdiff (ascii "groupMember:" ++ toId) (ascii "onlineGroup:" ++ toId))))
  | .incr key => ({ r with keys := (r.keys.incr key).2 }, none)
  | .publish channel m =>
    ({ r with published := r.published ++ [(channel, serializeGroup m)] }, none)

/-- The pairs that the callback of `SORT` goes through; an error has none. -/
def sortPairs (reply : Reply) : List (Bytes × Option Bytes) :=
  (Reply.pairs reply.elements).map fun e => (e.1.bytes, jsString e.2)

/-- What the callbacks issue. -/
def SocketServer.groupCallback (sv : SocketServer) (lib : Libraries) : GroupReply → List GroupCommand
  | .sort data reply => (sv.sortCallback lib data (sortPairs reply)).commands
  | .lpush toId (.integer n) => lpushCallback toId n
  | .lpush _ _ => []
  | .sdiff toId reply => sdiffCallback toId (reply.elements.map Reply.bytes)

/-- The loop over the map issues `PUBLISH` only. -/
theorem SocketServer.mem_publishAll {lib : Libraries} {data : JsMessage}
    {dataMap : List (Bytes × List (Option Bytes))} {c : GroupCommand}
    (h : c ∈ (publishAll lib data dataMap).1) : ∃ channel m, c = .publish channel m := by
  induction dataMap generalizing data with
  | nil => cases h
  | cons e dataMap ih =>
    rw [publishAll] at h
    split at h
    · rcases List.mem_cons.1 h with rfl | h
      · exact ⟨_, _, rfl⟩
      · exact ih h
    · cases h

/-! ## The members that are online -/

/-- The pairs that the handler finds for a group. -/
def groupLookup (order : Keyspace.NumericOrder) (r : Redis) (toId : Bytes) :
    List (Bytes × Option Bytes) :=
  sortPairs (r.keys.sortGets (ascii "onlineGroup:" ++ toId) order onlinePatterns)

/-- The string at a key. -/
def stringAt (r : Redis) (key : Bytes) : Option Bytes :=
  match r.keys key with
  | some (.str s) => some s
  | _ => none

section Lookup

variable {order : Keyspace.NumericOrder} {r : Redis} {toId : Bytes}

theorem groupLookup_eq : groupLookup order r toId =
    (((r.keys.sortable (ascii "onlineGroup:" ++ toId)).bind order.sort).getD []).map fun userId =>
      (userId, stringAt r (ascii "online:" ++ userId)) := by
  unfold groupLookup Keyspace.sortGets
  cases (r.keys.sortable (ascii "onlineGroup:" ++ toId)).bind order.sort with
  | none => rfl
  | some l =>
    have helements : (Reply.array (l.flatMap fun m => onlinePatterns.map fun pattern =>
        r.keys.fetch pattern m)).elements =
          l.flatMap fun m => [.str m, r.keys.fetch (ascii "online:" ++ ascii "*") m] := rfl
    rw [sortPairs, helements, Reply.pairs_flatMap, List.map_map, Option.getD_some]
    refine List.map_congr_left fun userId _ => Prod.ext rfl ?_
    simp only [Function.comp, Keyspace.fetch_star (by decide : 42 ∉ ascii "online:"), stringAt]
    rcases r.keys (ascii "online:" ++ userId) with _ | (_ | _ | _ | _ | _) <;> rfl

/-- The callback goes through what is found when the command is executed. -/
theorem groupCallback_sort (sv : SocketServer) (lib : Libraries) (serialize : MsgData → Bytes)
    (serializeGroup : ServerGroupMsg → Bytes) (data : JsMessage) :
    ((GroupCommand.sort data).exec order serialize serializeGroup r).2.map (sv.groupCallback lib) =
      some (sv.sortCallback lib data (groupLookup order r data.toId)).commands := rfl

end Lookup

end MutexIM.Web
