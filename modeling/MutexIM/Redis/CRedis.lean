import MutexIM.Foundations.HashTable
import MutexIM.Foundations.Keyspace

/-!
# The Redis client

`CRedis` wraps the commands of a Redis connection. An argument for `%s` is passed as a C string, so
that it ends at its first zero byte; one for `%b` is passed with its length. Results no caller uses
are left out.

* `formatCommand` is what `redisCommand` makes of a format without arguments, which `HMSET` is sent
  as. `mem_hashAt_of_hmset` and `prefix_of_hmsetText` say which fields of which hash it can set.
* `PUBLISH` puts the message at the end of `published`.
-/

namespace MutexIM

open Bytes

/-- The Redis server as its clients see it: the database and the messages published so far, with
their channels. -/
structure Redis where
  keys : Keyspace
  published : List (Bytes × Bytes)

namespace Reply

/-- The bytes at `str`. -/
def bytes : Reply → Bytes
  | .str s => s
  | .status s => s
  | _ => []

/-- The elements of an array reply. -/
def elements : Reply → List Reply
  | .array l => l
  | _ => []

/-- The number at `integer`, zero for other replies. -/
def number : Reply → ℤ
  | .integer n => n
  | _ => 0

/-- Consecutive elements in pairs. -/
def pairs : List Reply → List (Reply × Reply)
  | a :: b :: l => (a, b) :: pairs l
  | _ => []

/-- Consecutive elements in rows of five. -/
def rows : List Reply → List (Reply × Reply × Reply × Reply × Reply)
  | a :: b :: c :: d :: e :: l => (a, b, c, d, e) :: rows l
  | _ => []

/-- What a setter is given that takes `str` as a C string; for nil it is null. -/
def text : Reply → Option Bytes
  | .str s => some (cstr s)
  | .status s => some (cstr s)
  | _ => none

theorem length_rows (l : List Reply) : (rows l).length = l.length / 5 := by
  fun_induction rows l with
  | case1 a b c d e l ih =>
    simp only [List.length_cons, ih]
    omega
  | case2 l hshort =>
    have hlen : l.length < 5 := by
      match l, hshort with
      | [], _ | [_], _ | [_, _], _ | [_, _, _], _ | [_, _, _, _], _ => simp
      | a :: b :: c :: d :: e :: l, hshort => exact (hshort a b c d e l rfl).elim
    rw [Nat.div_eq_of_lt hlen, List.length_nil]

theorem pairs_flatMap {α : Type*} (f g : α → Reply) (l : List α) :
    pairs (l.flatMap fun x => [f x, g x]) = l.map fun x => (f x, g x) := by
  induction l with
  | nil => rfl
  | cons x l ih => exact congrArg (List.cons (f x, g x)) ih

end Reply

namespace CRedis

variable (r : Redis)

/-! ## Strings and keys -/

def get (key : Bytes) : Bytes :=
  match r.keys.get (cstr key) with
  | .str s => s
  | _ => []

def set (key value : Bytes) : Redis := { r with keys := (r.keys.set (cstr key) (cstr value)).2 }

def del (key : Bytes) : Redis := { r with keys := (r.keys.del (cstr key)).2 }

def existsKey (key : Bytes) : Bool :=
  match r.keys.existsKey (cstr key) with
  | .integer n => 1 = n
  | _ => false

/-- `INCR %s`. -/
def incr (key : Bytes) : Redis := { r with keys := (r.keys.incr (cstr key)).2 }

/-! ## Hashes -/

/-- `CRedis::HGetAll`, into an empty `dataMap`; the fields are taken as C strings. -/
def hgetAll (hashMapName : Bytes) : AList fun _ : Bytes => Bytes :=
  (Reply.pairs (r.keys.hgetall (cstr hashMapName)).elements).foldl
    (fun dataMap e => dataMap.insert (cstr e.1.bytes) e.2.bytes) ∅

/-- The reply to `HGETALL %s`. -/
def hgetallReply (hashMapName : Bytes) : Reply := r.keys.hgetall (cstr hashMapName)

def hset (hashMapName key value : Bytes) : Redis :=
  { r with keys := (r.keys.hset (cstr hashMapName) (cstr key) (cstr value)).2 }

/-- The words `redisCommand` sees in a format without arguments, with `cur` read of the current one.
Blanks separate the words, `%%` is a percent sign, and so is a `%` at the end. Any other conversion
takes an argument that was not passed: `none`. -/
def formatWords (cur : Bytes) (touched : Bool) : Bytes → Option (List Bytes)
  | [] => some (if touched then [cur] else [])
  | [c] => some (if c = 32 then (if touched then [cur] else []) else [cur ++ [c]])
  | c :: d :: s =>
    if c = 37 then
      if d = 37 then formatWords (cur ++ [37]) true s else none
    else if c = 32 then
      (formatWords [] false (d :: s)).map fun ws => if touched then cur :: ws else ws
    else formatWords (cur ++ [c]) true (d :: s)

/-- The arguments of the command sent for a format without arguments. -/
def formatCommand (format : Bytes) : Option (List Bytes) := formatWords [] false (cstr format)

/-- Fields with their values; a command with an odd number of arguments is refused. -/
def fieldValues : List Bytes → Option (List (Bytes × Bytes))
  | [f, v] => some [(f, v)]
  | f :: v :: l => (fieldValues l).map ((f, v) :: ·)
  | _ => none

/-- The text of an `HMSET` command, with the map in the order of its keys. -/
def hmsetText (hashMapName : Bytes) (mapValue : List (Bytes × Bytes)) : Bytes :=
  ascii "HMSET " ++ hashMapName ++ ascii " " ++
    mapValue.flatMap fun e => e.1 ++ ascii " " ++ e.2 ++ ascii " "

/-- `CRedis::HMSet`. The command is built as text, and the server splits it again. -/
def hmset (hashMapName : Bytes) (mapValue : List (Bytes × Bytes)) : Option Redis :=
  if mapValue = [] then some r
  else (formatCommand (hmsetText hashMapName mapValue)).map fun args =>
    match args with
    | _ :: key :: rest =>
      match fieldValues rest with
      | some fvs => { r with keys := (r.keys.hmset key fvs).2 }
      | none => r
    | _ => r

/-! ## Lists -/

def lrangeBinary (listName : Bytes) (start stop : ℤ) : List Bytes :=
  (r.keys.lrange (cstr listName) start stop).elements.map Reply.bytes

/-- `LRANGE %s 0 %s`, with the last index as a text. -/
def lrangeNumber (listName stop : Bytes) : Reply :=
  match Keyspace.integer (cstr stop) with
  | some n => r.keys.lrange (cstr listName) 0 n
  | none => .error

/-- `LPUSH %s %b`: the length of the list, zero if the command fails. -/
def lpush (listName value : Bytes) : ℤ × Redis :=
  let (reply, keys) := r.keys.lpush (cstr listName) value
  (match reply with | .integer n => n | _ => 0, { r with keys := keys })

/-- `LTRIM %s %d %d`. -/
def ltrim (listName : Bytes) (start stop : ℤ) : Redis :=
  { r with keys := (r.keys.ltrim (cstr listName) start stop).2 }

/-! ## Sets -/

def smembers (setsName : Bytes) : List Bytes :=
  (r.keys.smembers (cstr setsName)).elements.map Reply.bytes

def sadd (setName memberName : Bytes) : Redis :=
  { r with keys := (r.keys.sadd (cstr setName) (cstr memberName)).2 }

def srem (setName memberName : Bytes) : Redis :=
  { r with keys := (r.keys.srem (cstr setName) (cstr memberName)).2 }

/-- `SDIFF %s %s`, the members as C strings. -/
def sdiff (setName setName' : Bytes) : List Bytes :=
  (r.keys.sdiff (cstr setName) (cstr setName')).elements.map fun e => cstr e.bytes

/-- `SORT %s GET # GET %s`. -/
def sortNumbers (order : Keyspace.NumericOrder) (setName pattern : Bytes) : List (Bytes × Bytes) :=
  (Reply.pairs (r.keys.sortNumbers (cstr setName) order (cstr pattern)).elements).map fun e =>
    (e.1.bytes, e.2.bytes)

/-- The reply to `SORT %s` with `GET` patterns. -/
def sortGets (order : Keyspace.NumericOrder) (setName : Bytes) (patterns : List Bytes) : Reply :=
  r.keys.sortGets (cstr setName) order patterns

/-- `CRedis::SortMultiSocket`: the members of the group that have an `online:` key with a non-empty
string, each with that string, both as C strings. The vector's alternating entries are pairs here. -/
def sortMultiSocket (groupName : Bytes) : List (Bytes × Bytes) :=
  ((Reply.pairs (r.keys.sortGet (cstr groupName) (ascii "online:" ++ ·)).elements).filter
    fun e => e.2.bytes ≠ []).map fun e => (cstr e.1.bytes, cstr e.2.bytes)

/-! ## Sorted sets -/

def zadd (zsetName : Bytes) (score : ℤ) (memberName : Bytes) : Redis :=
  { r with keys := (r.keys.zadd (cstr zsetName) score (cstr memberName)).2 }

def zrem (zsetName memberName : Bytes) : Redis :=
  { r with keys := (r.keys.zrem (cstr zsetName) (cstr memberName)).2 }

def zincrby (zsetName : Bytes) (changeScore : ℤ) (memberName : Bytes) : Redis :=
  { r with keys := (r.keys.zincrby (cstr zsetName) changeScore (cstr memberName)).2 }

def zrevrange (zsetName : Bytes) (start stop : ℤ) : List Bytes :=
  (r.keys.zrevrange (cstr zsetName) start stop).elements.map fun e => cstr e.bytes

/-! ## Channels -/

def publish (channel content : Bytes) : Redis :=
  { r with published := r.published ++ [(cstr channel, content)] }

/-! ## The keys that stay -/

variable {r} {k x : Bytes}

@[simp] theorem keys_publish (channel content : Bytes) :
    (publish r channel content).keys = r.keys := rfl

theorem keys_set_of_ne {key : Bytes} (h : k ≠ cstr key) (value : Bytes) :
    (set r key value).keys k = r.keys k := Function.update_of_ne h ..

theorem keys_set_self (key value : Bytes) :
    (set r key value).keys (cstr key) = some (.str (cstr value)) := Function.update_self ..

theorem keys_del_of_ne {key : Bytes} (h : k ≠ cstr key) : (del r key).keys k = r.keys k :=
  Function.update_of_ne h ..

theorem existsKey_eq_false_iff {key : Bytes} : existsKey r key = false ↔ r.keys (cstr key) = none := by
  unfold existsKey Keyspace.existsKey
  cases r.keys (cstr key) <;> simp

theorem keys_zincrby_of_ne {zsetName : Bytes} (h : k ≠ cstr zsetName) (changeScore : ℤ)
    (memberName : Bytes) : (zincrby r zsetName changeScore memberName).keys k = r.keys k :=
  Keyspace.zincrby_of_ne h

theorem keys_lpush_of_ne {listName : Bytes} (h : k ≠ cstr listName) (value : Bytes) :
    (lpush r listName value).2.keys k = r.keys k := Keyspace.lpush_of_ne h

theorem keys_ltrim_of_ne {listName : Bytes} (h : k ≠ cstr listName) (start stop : ℤ) :
    (ltrim r listName start stop).keys k = r.keys k := Keyspace.ltrim_of_ne h

theorem keys_sadd_of_ne {setName : Bytes} (h : k ≠ cstr setName) (memberName : Bytes) :
    (sadd r setName memberName).keys k = r.keys k := Keyspace.sadd_of_ne h

theorem keys_srem_of_ne {setName : Bytes} (h : k ≠ cstr setName) (memberName : Bytes) :
    (srem r setName memberName).keys k = r.keys k := Keyspace.srem_of_ne h

theorem keys_del_self (key : Bytes) : (del r key).keys (cstr key) = none :=
  Function.update_self ..

theorem listAt_lpush {listName : Bytes} (h : r.keys.ListOrNone (cstr listName)) (value : Bytes) :
    (lpush r listName value).2.keys.listAt (cstr listName) =
      value :: r.keys.listAt (cstr listName) := by
  have hself : (lpush r listName value).2.keys (cstr listName) = _ := Keyspace.lpush_self h value
  rw [Keyspace.listAt, hself]

theorem lpush_length {listName : Bytes} (h : r.keys.ListOrNone (cstr listName)) (value : Bytes) :
    (lpush r listName value).1 = (r.keys.listAt (cstr listName)).length + 1 := by
  simp only [lpush, Keyspace.lpush_fst h value]

theorem listAt_ltrim (listName : Bytes) (n : ℕ) :
    (ltrim r listName 0 n).keys.listAt (cstr listName) =
      (r.keys.listAt (cstr listName)).take (n + 1) := Keyspace.ltrim_self n

theorem listAt_del (key : Bytes) : (del r key).keys.listAt (cstr key) = [] := by
  rw [Keyspace.listAt, keys_del_self]

/-! ## A list that keeps a hundred -/

/-- `LPUSH`, and `LTRIM` if there are more than 99 now, as the handlers of messages do it. -/
def lpushKeep (r : Redis) (listName value : Bytes) : Redis :=
  let (nListLen, r) := lpush r listName value
  if nListLen > 99 then ltrim r listName 0 99 else r

section LpushKeep

variable {listName value : Bytes}

theorem lpushKeep_eq : lpushKeep r listName value =
    if (lpush r listName value).1 > 99 then ltrim (lpush r listName value).2 listName 0 99
    else (lpush r listName value).2 := rfl

theorem keys_lpushKeep_of_ne (h : k ≠ cstr listName) :
    (lpushKeep r listName value).keys k = r.keys k := by
  rw [lpushKeep_eq]
  split
  · exact (keys_ltrim_of_ne h _ _).trans (keys_lpush_of_ne h _)
  · exact keys_lpush_of_ne h _

@[simp] theorem published_lpushKeep : (lpushKeep r listName value).published = r.published := by
  rw [lpushKeep_eq]
  split <;> rfl

theorem listOrNone_lpushKeep (h : r.keys.ListOrNone k) :
    (lpushKeep r listName value).keys.ListOrNone k := by
  rw [lpushKeep_eq]
  split
  · exact (h.lpush _).ltrim _ _
  · exact h.lpush _

/-- **The newest hundred** are kept. -/
theorem listAt_lpushKeep (h : r.keys.ListOrNone (cstr listName)) :
    (lpushKeep r listName value).keys.listAt (cstr listName) =
      (value :: r.keys.listAt (cstr listName)).take 100 := by
  rw [lpushKeep_eq]
  split
  · exact (listAt_ltrim _ 99).trans (congrArg (List.take 100) (listAt_lpush h _))
  · next hlen =>
    rw [listAt_lpush h, List.take_of_length_le]
    rw [lpush_length h] at hlen
    rw [List.length_cons]
    omega

theorem mem_listAt_lpushKeep (h : x ∈ (lpushKeep r listName value).keys.listAt k) :
    x ∈ r.keys.listAt k ∨ x = value := by
  rw [lpushKeep_eq] at h
  split at h
  · exact Keyspace.mem_listAt_lpush (Keyspace.mem_listAt_ltrim h)
  · exact Keyspace.mem_listAt_lpush h

/-- A key that is there stays. -/
theorem isSome_lpushKeep (hk : (r.keys k).isSome) : ((lpushKeep r listName value).keys k).isSome := by
  by_cases hkey : k = cstr listName
  · subst hkey
    obtain ⟨v, hv⟩ := Option.isSome_iff_exists.1 hk
    rw [lpushKeep_eq]
    by_cases hlist : ∃ l, v = .list l
    · obtain ⟨l, rfl⟩ := hlist
      have hpushed : (lpush r listName value).2.keys (cstr listName) = some (.list (value :: l)) := by
        simp only [lpush, Keyspace.lpush, hv, Function.update_self]
      split
      · simp only [ltrim, Keyspace.ltrim, hpushed, Function.update_self]
        rfl
      · rw [hpushed]
        rfl
    · have hsame : lpush r listName value = (0, r) := by
        cases v with
        | list l => exact absurd ⟨l, rfl⟩ hlist
        | _ => simp only [lpush, Keyspace.lpush, hv]
      rwa [hsame]
  · rwa [keys_lpushKeep_of_ne hkey]

end LpushKeep

/-- The members of a range are members of the sorted set. -/
theorem mem_ranks_of_mem_zrevrange {zsetName : Bytes} {start stop : ℤ}
    (h : x ∈ zrevrange r zsetName start stop) :
    ∃ m ∈ r.keys.ranks (cstr zsetName), x = cstr m := by
  unfold zrevrange Keyspace.zrevrange at h
  unfold Keyspace.ranks
  rcases hv : r.keys (cstr zsetName) with _ | (_ | _ | _ | _ | s) <;>
    simp only [hv, Reply.elements, List.map_map] at h ⊢
  · cases h
  · cases h
  · cases h
  · cases h
  · cases h
  · obtain ⟨m, hm, rfl⟩ := List.mem_map.1 h
    have hkeys := List.mem_of_mem_take (List.mem_of_mem_drop hm)
    refine ⟨m, AList.mem_keys.2 ?_, rfl⟩
    exact ((List.perm_insertionSort Keyspace.RankLe s.entries).map Sigma.fst).mem_iff.1 hkeys

theorem elements_hgetallReply_eq_nil {hashMapName : Bytes} :
    (hgetallReply r hashMapName).elements = [] ↔
      (r.keys.hashAt (cstr hashMapName)).entries = [] := by
  unfold hgetallReply
  rcases Keyspace.hgetall_elements with h | ⟨h, hnone⟩
  · rw [h, Reply.elements]
    cases (r.keys.hashAt (cstr hashMapName)).entries with
    | nil => exact iff_of_true rfl rfl
    | cons e l => exact iff_of_false (List.cons_ne_nil _ _) (List.cons_ne_nil _ _)
  · rw [h, hnone]
    exact iff_of_true rfl rfl

/-- A field that is read is one of the hash, where these have no zero bytes. -/
theorem lookup_hgetAll {hashMapName : Bytes}
    (h : ∀ f ∈ r.keys.hashAt (cstr hashMapName), NulFree f) (f : Bytes) :
    (hgetAll r hashMapName).lookup f = (r.keys.hashAt (cstr hashMapName)).lookup f := by
  unfold hgetAll Keyspace.hgetall
  unfold Keyspace.hashAt at h ⊢
  rcases hv : r.keys (cstr hashMapName) with _ | (_ | _ | _ | a | _) <;> simp only [hv] at h ⊢
  case some.hash =>
    have hfields : ∀ e ∈ a.entries, cstr e.1 = e.1 := fun e he =>
      cstr_eq_self (h e.1 (List.mem_map_of_mem he))
    have hfold : a.entries.foldl (fun (m : AList fun _ : Bytes => Bytes) e => m.insert (cstr e.1) e.2) ∅ =
        a.entries.foldl (fun m e => m.insert e.1 e.2) ∅ :=
      List.foldl_ext _ _ _ fun m e he => by rw [hfields e he]
    rw [Reply.elements, Reply.pairs_flatMap, List.foldl_map]
    refine (congrArg (AList.lookup f) hfold).trans ?_
    rw [Keyspace.lookup_foldl_insert, AList.lookup_empty, Option.or_none]
  all_goals rfl

/-- The map is filled entry by entry. -/
theorem hgetAll_eq_insertAll (r : Redis) (hashMapName : Bytes) :
    hgetAll r hashMapName = insertAll ∅ ((Reply.pairs (r.keys.hgetall (cstr hashMapName)).elements).map
      fun e => (cstr e.1.bytes, e.2.bytes)) := by
  rw [hgetAll, insertAll, List.foldl_map]

/-- A field of the hash is read, or another one for it. -/
theorem mem_hgetAll {hashMapName f : Bytes} (hf : NulFree f)
    (h : f ∈ r.keys.hashAt (cstr hashMapName)) : f ∈ hgetAll r hashMapName := by
  rw [← AList.lookup_isSome, hgetAll_eq_insertAll]
  refine Option.isSome_iff_exists.2 (lookup_insertAll_isSome (.inl ?_))
  unfold Keyspace.hgetall
  unfold Keyspace.hashAt at h
  rcases hv : r.keys (cstr hashMapName) with _ | (_ | _ | _ | a | _) <;> simp only [hv] at h ⊢
  case some.hash =>
    obtain ⟨e, he, rfl⟩ := List.mem_map.1 (AList.mem_keys.1 h)
    rw [Reply.elements, Reply.pairs_flatMap, List.map_map, List.map_map]
    exact List.mem_map.2 ⟨e, he, cstr_eq_self hf⟩
  all_goals cases h

theorem lrangeBinary_all (listName : Bytes) :
    lrangeBinary r listName 0 (-1) = r.keys.listAt (cstr listName) := by
  unfold lrangeBinary Keyspace.lrange Keyspace.listAt
  rcases r.keys (cstr listName) with _ | (_ | l | _ | _ | _)
  · rfl
  · rfl
  · simp only [Keyspace.slice_all, Reply.elements, List.map_map]
    exact List.map_id l
  all_goals rfl

theorem sdiff_eq {setName setName' : Bytes} (h : r.keys.SetOrNone (cstr setName))
    (h' : r.keys.SetOrNone (cstr setName')) :
    sdiff r setName setName' = ((r.keys.members (cstr setName)).filter
      (· ∉ r.keys.members (cstr setName'))).map cstr := by
  simp only [sdiff, Keyspace.sdiff, Keyspace.setMembers_eq h, Keyspace.setMembers_eq h',
    Reply.elements, List.map_map]
  rfl

/-- The text at a key. -/
def textOf : Option Value → Bytes
  | some (.str s) => s
  | _ => []

theorem bytes_fetch_star (ks : Keyspace) {p : Bytes} (hp : 42 ∉ p) (m : Bytes) :
    (ks.fetch (p ++ ascii "*") m).bytes = textOf (ks (p ++ m)) := by
  rw [Keyspace.fetch_star hp]
  rcases ks (p ++ m) with _ | (_ | _ | _ | _ | _) <;> rfl

theorem sortNumbers_eq (order : Keyspace.NumericOrder) (setName pattern : Bytes) :
    sortNumbers r order setName pattern =
      (((r.keys.sortable (cstr setName)).bind order.sort).getD []).map fun m =>
        (m, (r.keys.fetch (cstr pattern) m).bytes) := by
  unfold sortNumbers Keyspace.sortNumbers
  cases (r.keys.sortable (cstr setName)).bind order.sort with
  | none => rfl
  | some l =>
    simp only [Reply.elements, Reply.pairs_flatMap, List.map_map, Option.getD_some]
    rfl

/-! ## Adding to sets and removing from them in a loop -/

theorem smembers_eq (setsName : Bytes) :
    smembers r setsName = r.keys.members (cstr setsName) := by
  unfold smembers
  rcases Keyspace.smembers_elements r.keys (cstr setsName) with h | ⟨h, hnil⟩
  · rw [h, Reply.elements, List.map_map]
    exact List.map_id _
  · rw [h, hnil]
    rfl

variable (setName : Bytes → Bytes) (memberName : Bytes) (gs : List Bytes)

theorem foldl_sadd_of_ne (h : ∀ g ∈ gs, k ≠ cstr (setName g)) :
    (gs.foldl (fun r g => sadd r (setName g) memberName) r).keys k = r.keys k := by
  induction gs generalizing r with
  | nil => rfl
  | cons g gs ih =>
    rw [List.foldl_cons, ih fun g hg => h g (List.mem_cons_of_mem _ hg)]
    exact keys_sadd_of_ne (h g List.mem_cons_self) _

theorem mem_members_foldl_sadd
    (h : x ∈ (gs.foldl (fun r g => sadd r (setName g) memberName) r).keys.members k) :
    x ∈ r.keys.members k ∨ x = cstr memberName ∧ ∃ g ∈ gs, k = cstr (setName g) := by
  induction gs generalizing r with
  | nil => exact .inl h
  | cons g gs ih =>
    rcases ih h with h | ⟨hx, g', hg', hk⟩
    · rcases Keyspace.mem_members_sadd h with h | ⟨hk, hx⟩
      · exact .inl h
      · exact .inr ⟨hx, g, List.mem_cons_self, hk⟩
    · exact .inr ⟨hx, g', List.mem_cons_of_mem _ hg', hk⟩

theorem foldl_srem_of_ne (h : ∀ g ∈ gs, k ≠ cstr (setName g)) :
    (gs.foldl (fun r g => srem r (setName g) memberName) r).keys k = r.keys k := by
  induction gs generalizing r with
  | nil => rfl
  | cons g gs ih =>
    rw [List.foldl_cons, ih fun g hg => h g (List.mem_cons_of_mem _ hg)]
    exact keys_srem_of_ne (h g List.mem_cons_self) _

/-- **The members after the loop.** -/
theorem members_foldl_srem :
    (gs.foldl (fun r g => srem r (setName g) memberName) r).keys.members k =
      (r.keys.members k).filter fun x => ¬(x = cstr memberName ∧ ∃ g ∈ gs, k = cstr (setName g)) := by
  induction gs generalizing r with
  | nil => exact (List.filter_eq_self.2 fun x _ => by simp).symm
  | cons g gs ih =>
    rw [List.foldl_cons, ih, srem, Keyspace.members_srem, List.filter_filter]
    refine List.filter_congr fun x _ => ?_
    simp only [List.exists_mem_cons_iff, ← Bool.decide_and, decide_eq_decide]
    constructor
    · rintro ⟨hgs, hg⟩ ⟨hx, hk | hk⟩
      · exact hg ⟨hk, hx⟩
      · exact hgs ⟨hx, hk⟩
    · exact fun h => ⟨fun ⟨hx, hk⟩ => h ⟨hx, .inr hk⟩, fun ⟨hk, hx⟩ => h ⟨hx, .inl hk⟩⟩

theorem mem_members_foldl_srem :
    x ∈ (gs.foldl (fun r g => srem r (setName g) memberName) r).keys.members k ↔
      x ∈ r.keys.members k ∧ ¬(x = cstr memberName ∧ ∃ g ∈ gs, k = cstr (setName g)) := by
  rw [members_foldl_srem, List.mem_filter, decide_eq_true_iff]

/-- A key that holds no set stays. -/
theorem foldl_srem_of_not_set (h : ∀ s, r.keys k ≠ some (.set s)) :
    (gs.foldl (fun r g => srem r (setName g) memberName) r).keys k = r.keys k := by
  induction gs generalizing r with
  | nil => rfl
  | cons g gs ih =>
    have hstep : (srem r (setName g) memberName).keys k = r.keys k := by
      by_cases hk : k = cstr (setName g)
      · rw [srem, Keyspace.srem_of_not_set (hk ▸ h)]
      · exact keys_srem_of_ne hk _
    rw [List.foldl_cons, ih (by rwa [hstep]), hstep]

/-! ## The words of a command sent as text -/

section Words

variable {cur s w : Bytes} {touched : Bool} {ws : List Bytes}

theorem formatWords_blank (cur : Bytes) (touched : Bool) (s : Bytes) :
    formatWords cur touched (32 :: s) =
      (formatWords [] false s).map fun ws => if touched then cur :: ws else ws := by
  cases s with
  | nil => cases touched <;> rfl
  | cons d s =>
    rw [formatWords, if_neg (by decide), if_pos rfl]

/-- No byte of the string means anything in a format, and none ends it. -/
def Plain (s : Bytes) : Prop := ∀ c ∈ s, c ≠ 0 ∧ c ≠ 37 ∧ c ≠ 32

instance (s : Bytes) : Decidable (Plain s) :=
  List.decidableBAll (fun c => c ≠ 0 ∧ c ≠ 37 ∧ c ≠ 32) s

theorem formatWords_cons {c : UInt8} (hpercent : c ≠ 37) (hblank : c ≠ 32) (cur : Bytes)
    (touched : Bool) (s : Bytes) :
    formatWords cur touched (c :: s) = formatWords (cur ++ [c]) true s := by
  cases s with
  | nil => simp [formatWords, hblank]
  | cons d s => rw [formatWords, if_neg hpercent, if_neg hblank]

/-- A word is read on to the end. -/
theorem formatWords_append (hw : w ≠ []) (hplain : Plain w) (cur : Bytes)
    (touched : Bool) (s : Bytes) :
    formatWords cur touched (w ++ s) = formatWords (cur ++ w) true s := by
  induction w generalizing cur touched with
  | nil => exact absurd rfl hw
  | cons c w ih =>
    obtain ⟨-, hpercent, hblank⟩ := hplain c List.mem_cons_self
    rw [List.cons_append, formatWords_cons hpercent hblank]
    by_cases hnil : w = []
    · rw [hnil, List.nil_append]
    · rw [ih hnil (fun c hc => hplain c (List.mem_cons_of_mem _ hc)), List.append_assoc,
        List.singleton_append]

/-- The word that has been started is the first one. -/
theorem prefix_of_formatWords (ht : touched = true) (h : formatWords cur touched s = some ws) :
    ∃ w ws', ws = w :: ws' ∧ cur <+: w := by
  induction cur, touched, s using formatWords.induct generalizing ws with
  | case1 cur touched =>
    subst ht
    exact ⟨cur, [], (Option.some.inj h).symm, List.prefix_rfl⟩
  | case2 cur touched c =>
    subst ht
    obtain rfl := Option.some.inj h
    split
    · exact ⟨cur, [], rfl, List.prefix_rfl⟩
    · exact ⟨cur ++ [c], [], rfl, List.prefix_append _ _⟩
  | case3 cur touched s ih =>
    rw [formatWords, if_pos rfl, if_pos rfl] at h
    obtain ⟨w, ws', rfl, hw⟩ := ih rfl h
    exact ⟨w, ws', rfl, (List.prefix_append _ _).trans hw⟩
  | case4 cur touched d s hd =>
    rw [formatWords, if_pos rfl, if_neg hd] at h
    cases h
  | case5 cur touched d s hne ih =>
    subst ht
    rw [formatWords_blank] at h
    obtain ⟨ws', -, rfl⟩ := Option.map_eq_some_iff.1 h
    exact ⟨cur, ws', rfl, List.prefix_rfl⟩
  | case6 cur touched c d s hc hblank ih =>
    rw [formatWords_cons hc hblank] at h
    obtain ⟨w, ws', rfl, hw⟩ := ih rfl h
    exact ⟨w, ws', rfl, (List.prefix_append _ _).trans hw⟩

/-- A word without a percent sign stands between blanks of the text. -/
theorem mem_splitOn_of_formatWords (h : formatWords cur touched s = some ws) (hw : w ∈ ws)
    (hpercent : 37 ∉ w) : w ∈ (s.splitOn 32).modifyHead (cur ++ ·) := by
  induction cur, touched, s using formatWords.induct generalizing ws with
  | case1 cur touched =>
    obtain rfl := Option.some.inj h
    cases touched with
    | false => cases hw
    | true => simpa using hw
  | case2 cur touched c =>
    obtain rfl := Option.some.inj h
    by_cases hc : c = 32
    · subst hc
      cases touched <;> simp_all [List.splitOn_cons_eq_if_modifyHead]
    · rw [if_neg hc] at hw
      rw [List.splitOn_eq_singleton (by simpa using Ne.symm hc)]
      exact hw
  | case3 cur touched s ih =>
    rw [formatWords, if_pos rfl, if_pos rfl] at h
    have hmem := ih h hw
    obtain ⟨a, t, hat⟩ := List.exists_cons_of_ne_nil (List.splitOn_ne_nil 32 s)
    simp only [List.splitOn_cons_eq_if_modifyHead, hat] at hmem ⊢
    rcases List.mem_cons.1 hmem with rfl | hmem
    · simp at hpercent
    · exact List.mem_cons_of_mem _ hmem
  | case4 cur touched d s hd =>
    rw [formatWords, if_pos rfl, if_neg hd] at h
    cases h
  | case5 cur touched d s hne ih =>
    rw [formatWords_blank] at h
    obtain ⟨ws', hws', rfl⟩ := Option.map_eq_some_iff.1 h
    have hsplit : (32 :: d :: s).splitOn 32 = [] :: (d :: s).splitOn 32 :=
      List.splitOn_append_cons_self [] _
    rw [hsplit, List.modifyHead_cons, List.append_nil]
    have hrest : w ∈ ws' → w ∈ cur :: (d :: s).splitOn 32 := by
      intro hw
      have hmem := ih hws' hw
      rw [show (([] : Bytes) ++ ·) = id from rfl, List.modifyHead_id] at hmem
      exact List.mem_cons_of_mem _ hmem
    cases touched with
    | false => exact hrest hw
    | true =>
      rcases List.mem_cons.1 hw with rfl | hw
      · exact List.mem_cons_self
      · exact hrest hw
  | case6 cur touched c d s hc hblank ih =>
    rw [formatWords_cons hc hblank] at h
    rw [List.splitOn_cons_eq_if_modifyHead, if_neg (by simpa using hblank), List.modifyHead_modifyHead]
    simpa [Function.comp_def] using ih h hw

theorem mem_splitOn_of_formatCommand {format : Bytes} (h : formatCommand format = some ws)
    (hw : w ∈ ws) (hpercent : 37 ∉ w) : w ∈ (cstr format).splitOn 32 := by
  have hmem := mem_splitOn_of_formatWords h hw hpercent
  rwa [show (([] : Bytes) ++ ·) = id from rfl, List.modifyHead_id] at hmem

/-- **The words of a text** in which each is followed by a blank: those that are not empty. -/
theorem formatCommand_flatMap {l : List Bytes} (hplain : ∀ w ∈ l, Plain w) :
    formatCommand (l.flatMap (· ++ [32])) = some (l.filter (· ≠ [])) := by
  have hnul : NulFree (l.flatMap (· ++ [32])) := by
    intro c hc
    obtain ⟨w, hw, hc⟩ := List.mem_flatMap.1 hc
    rcases List.mem_append.1 hc with hc | hc
    · exact (hplain w hw c hc).1
    · rw [List.mem_singleton.1 hc]
      decide
  rw [formatCommand, cstr_eq_self hnul]
  clear hnul
  induction l with
  | nil => rfl
  | cons w l ih =>
    have ih := ih fun w hw => hplain w (List.mem_cons_of_mem _ hw)
    rw [List.flatMap_cons, List.append_assoc, List.singleton_append]
    by_cases hw : w = []
    · subst hw
      rw [List.nil_append, formatWords_blank, ih]
      rfl
    · rw [formatWords_append hw (hplain w List.mem_cons_self), formatWords_blank, ih, Option.map_some,
        if_pos rfl, List.filter_cons_of_pos (by simpa using hw)]
      rfl

theorem fieldValues_subset {l : List Bytes} {fvs : List (Bytes × Bytes)}
    (h : fieldValues l = some fvs) : fvs.map Prod.fst ⊆ l := by
  fun_induction fieldValues l generalizing fvs with
  | case1 f v =>
    obtain rfl := Option.some.inj h
    simp
  | case2 f v l hl ih =>
    obtain ⟨fvs, hfvs, rfl⟩ := Option.map_eq_some_iff.1 h
    rw [List.map_cons]
    exact List.cons_subset_cons _ (List.subset_cons_of_subset _ (ih hfvs))
  | case3 => cases h

/-- The values of the fields are words, too. -/
theorem fieldValues_subset_snd {l : List Bytes} {fvs : List (Bytes × Bytes)}
    (h : fieldValues l = some fvs) : fvs.map Prod.snd ⊆ l := by
  fun_induction fieldValues l generalizing fvs with
  | case1 f v =>
    obtain rfl := Option.some.inj h
    simp
  | case2 f v l hl ih =>
    obtain ⟨fvs, hfvs, rfl⟩ := Option.map_eq_some_iff.1 h
    rw [List.map_cons]
    exact List.subset_cons_of_subset _ (List.cons_subset_cons _ (ih hfvs))
  | case3 => cases h

/-- **What `HMSet` does to a key**: nothing, or it is the one in the command. -/
theorem keys_hmset_cases {r r' : Redis} {hashMapName : Bytes} {mapValue : List (Bytes × Bytes)}
    (h : hmset r hashMapName mapValue = some r') (k : Bytes) :
    r'.keys k = r.keys k ∨ ∃ c rest fvs,
      formatCommand (hmsetText hashMapName mapValue) = some (c :: k :: rest) ∧
        fieldValues rest = some fvs ∧ r'.keys = (r.keys.hmset k fvs).2 := by
  unfold hmset at h
  split at h
  · rw [Option.some.inj h]
    exact .inl rfl
  · obtain ⟨args, hargs, rfl⟩ := Option.map_eq_some_iff.1 h
    match args with
    | c :: key :: rest =>
      cases hfvs : fieldValues rest with
      | none =>
        simp only [hfvs]
        exact .inl trivial
      | some fvs =>
        simp only [hfvs]
        by_cases hk : k = key
        · subst hk
          exact .inr ⟨c, rest, fvs, hargs, hfvs, rfl⟩
        · exact .inl (Keyspace.hmset_of_ne hk)
    | [] => exact .inl rfl
    | [_] => exact .inl rfl

/-- A field of a hash after `HMSet` was there before, or is a word of the command that sets it. -/
theorem mem_hashAt_of_hmset {r r' : Redis} {k f hashMapName : Bytes}
    {mapValue : List (Bytes × Bytes)} (h : hmset r hashMapName mapValue = some r')
    (hf : f ∈ r'.keys.hashAt k) :
    f ∈ r.keys.hashAt k ∨
      ∃ c rest, formatCommand (hmsetText hashMapName mapValue) = some (c :: k :: rest) ∧
        f ∈ rest := by
  rcases keys_hmset_cases h k with hkey | ⟨c, rest, fvs, hargs, hfvs, hkeys⟩
  · exact .inl (Keyspace.hashAt_congr hkey ▸ hf)
  · rw [hkeys] at hf
    rcases Keyspace.mem_hashAt_hmset hf with hold | ⟨-, hnew⟩
    · exact .inl hold
    · exact .inr ⟨c, rest, hargs, fieldValues_subset hfvs hnew⟩

/-- The key in the command starts as the name of the hash does. -/
theorem prefix_of_hmsetText {pre hashMapName c k : Bytes} {rest : List Bytes}
    {mapValue : List (Bytes × Bytes)} (hpre : pre ≠ []) (hplain : Plain pre)
    (h : formatCommand (hmsetText (pre ++ hashMapName) mapValue) = some (c :: k :: rest)) :
    pre <+: k := by
  have hnul : NulFree (ascii "HMSET" ++ 32 :: pre) :=
    NulFree.append (by decide) fun c hc => by
      rcases List.mem_cons.1 hc with rfl | hc
      · decide
      · exact (hplain c hc).1
  obtain ⟨s, hs⟩ : ∃ s, hmsetText (pre ++ hashMapName) mapValue =
      (ascii "HMSET" ++ 32 :: pre) ++ s :=
    ⟨hashMapName ++ (ascii " " ++ mapValue.flatMap fun e => e.1 ++ ascii " " ++ e.2 ++ ascii " "),
      by simp [hmsetText, ascii]⟩
  rw [formatCommand, hs, cstr_append hnul, List.append_assoc,
    formatWords_append (by decide) (by decide), List.cons_append, formatWords_blank,
    formatWords_append hpre hplain] at h
  obtain ⟨ws, hws, heq⟩ := Option.map_eq_some_iff.1 h
  obtain ⟨w, ws', rfl, hw⟩ := prefix_of_formatWords rfl hws
  simp only [if_true, List.cons.injEq] at heq
  rwa [← heq.2.1]

/-- `HMSet` leaves the keys that do not start as the name of its hash does. -/
theorem keys_hmset_of_not_prefix {r r' : Redis} {pre hashMapName k : Bytes}
    {mapValue : List (Bytes × Bytes)} (hpre : pre ≠ []) (hplain : Plain pre)
    (h : hmset r (pre ++ hashMapName) mapValue = some r') (hk : ¬pre <+: k) :
    r'.keys k = r.keys k := by
  rcases keys_hmset_cases h k with hkey | ⟨c, rest, fvs, hargs, -⟩
  · exact hkey
  · exact absurd (prefix_of_hmsetText hpre hplain hargs) hk

/-- Without a percent sign, every text is a command. -/
theorem exists_formatWords (h : 37 ∉ s) (cur : Bytes) (touched : Bool) :
    ∃ ws, formatWords cur touched s = some ws := by
  induction s generalizing cur touched with
  | nil => exact ⟨_, rfl⟩
  | cons c s ih =>
    obtain ⟨hc, hs⟩ := not_or.1 (mt List.mem_cons.2 h)
    by_cases hblank : c = 32
    · obtain ⟨ws, hws⟩ := ih hs [] false
      exact ⟨_, by rw [hblank, formatWords_blank, hws, Option.map_some]⟩
    · rw [formatWords_cons (Ne.symm hc) hblank]
      exact ih hs _ _

theorem exists_hmset {r : Redis} {hashMapName : Bytes} {mapValue : List (Bytes × Bytes)}
    (h : 37 ∉ hmsetText hashMapName mapValue) : ∃ r', hmset r hashMapName mapValue = some r' := by
  unfold hmset
  split
  · exact ⟨r, rfl⟩
  · obtain ⟨ws, hws⟩ := exists_formatWords
      (fun hmem => h (List.takeWhile_subset _ hmem) : 37 ∉ cstr (hmsetText hashMapName mapValue)) [] false
    exact ⟨_, by rw [formatCommand, hws, Option.map_some]⟩

/-- The bytes of a word are bytes of the text that are no blanks. -/
theorem mem_of_formatWords {c : UInt8} (h : formatWords cur touched s = some ws) (hw : w ∈ ws)
    (hc : c ∈ w) : c ∈ cur ∨ c ∈ s ∧ c ≠ 32 := by
  induction cur, touched, s using formatWords.induct generalizing ws with
  | case1 cur touched =>
    obtain rfl := Option.some.inj h
    cases touched with
    | false => cases hw
    | true => exact .inl (List.mem_singleton.1 hw ▸ hc)
  | case2 cur touched d =>
    obtain rfl := Option.some.inj h
    by_cases hd : d = 32
    · rw [if_pos hd] at hw
      cases touched with
      | false => cases hw
      | true => exact .inl (List.mem_singleton.1 hw ▸ hc)
    · rw [if_neg hd] at hw
      rw [List.mem_singleton.1 hw] at hc
      rcases List.mem_append.1 hc with hc | hc
      · exact .inl hc
      · exact .inr ⟨hc, List.mem_singleton.1 hc ▸ hd⟩
  | case3 cur touched s ih =>
    rw [formatWords, if_pos rfl, if_pos rfl] at h
    rcases ih h hw with hc | ⟨hc, hne⟩
    · rcases List.mem_append.1 hc with hc | hc
      · exact .inl hc
      · exact .inr ⟨List.mem_singleton.1 hc ▸ List.mem_cons_self, List.mem_singleton.1 hc ▸ by decide⟩
    · exact .inr ⟨List.mem_cons_of_mem _ (List.mem_cons_of_mem _ hc), hne⟩
  | case4 cur touched d s hd =>
    rw [formatWords, if_pos rfl, if_neg hd] at h
    cases h
  | case5 cur touched d s hne ih =>
    rw [formatWords_blank] at h
    obtain ⟨ws', hws', rfl⟩ := Option.map_eq_some_iff.1 h
    have hrest : w ∈ ws' → c ∈ cur ∨ c ∈ 32 :: d :: s ∧ c ≠ 32 := by
      intro hw
      rcases ih hws' hw with hc | ⟨hc, hne⟩
      · cases hc
      · exact .inr ⟨List.mem_cons_of_mem _ hc, hne⟩
    cases touched with
    | false => exact hrest hw
    | true =>
      rcases List.mem_cons.1 hw with rfl | hw
      · exact .inl hc
      · exact hrest hw
  | case6 cur touched d e s hd hblank ih =>
    rw [formatWords_cons hd hblank] at h
    rcases ih h hw with hc | ⟨hc, hne⟩
    · rcases List.mem_append.1 hc with hc | hc
      · exact .inl hc
      · exact .inr ⟨List.mem_singleton.1 hc ▸ List.mem_cons_self, List.mem_singleton.1 hc ▸ hblank⟩
    · exact .inr ⟨List.mem_cons_of_mem _ hc, hne⟩

/-- A text without blanks is one word at most. -/
theorem length_le_of_formatWords (h : formatWords cur touched s = some ws) (hblank : 32 ∉ s) :
    ws.length ≤ 1 := by
  induction cur, touched, s using formatWords.induct generalizing ws with
  | case1 cur touched =>
    obtain rfl := Option.some.inj h
    cases touched <;> simp
  | case2 cur touched d =>
    obtain rfl := Option.some.inj h
    rw [if_neg fun hd : d = 32 => hblank (hd ▸ List.mem_cons_self)]
    rfl
  | case3 cur touched s ih =>
    rw [formatWords, if_pos rfl, if_pos rfl] at h
    exact ih h fun hmem => hblank (List.mem_cons_of_mem _ (List.mem_cons_of_mem _ hmem))
  | case4 cur touched d s hd =>
    rw [formatWords, if_pos rfl, if_neg hd] at h
    cases h
  | case5 cur touched d s hne ih => exact absurd List.mem_cons_self hblank
  | case6 cur touched d e s hd hne ih =>
    rw [formatWords_cons hd hne] at h
    exact ih h fun hmem => hblank (List.mem_cons_of_mem _ hmem)

/-- What a conversion makes of a word: `%%` is a percent sign, and any other one takes an argument. -/
def unescape : Bytes → Option Bytes
  | [] => some []
  | [c] => if c = 37 then none else some [c]
  | c :: d :: w =>
    if c = 37 then if d = 37 then (unescape w).map (37 :: ·) else none
    else (unescape (d :: w)).map (c :: ·)

/-- A conversion makes a word shorter. -/
theorem length_of_unescape {w' : Bytes} (h : unescape w = some w') :
    w'.length ≤ w.length ∧ (w'.length = w.length → w' = w ∧ 37 ∉ w) := by
  induction w using unescape.induct generalizing w' with
  | case1 =>
    obtain rfl := Option.some.inj h
    simp
  | case2 => cases h
  | case3 c hc =>
    rw [unescape, if_neg hc] at h
    obtain rfl := Option.some.inj h
    simpa using Ne.symm hc
  | case4 w ih =>
    rw [unescape, if_pos rfl, if_pos rfl] at h
    obtain ⟨v, hv, rfl⟩ := Option.map_eq_some_iff.1 h
    have hle := (ih hv).1
    simp only [List.length_cons]
    exact ⟨by omega, fun _ => by omega⟩
  | case5 d w hd =>
    rw [unescape, if_pos rfl, if_neg hd] at h
    cases h
  | case6 c d w hc ih =>
    rw [unescape, if_neg hc] at h
    obtain ⟨v, hv, rfl⟩ := Option.map_eq_some_iff.1 h
    obtain ⟨hle, heq⟩ := ih hv
    simp only [List.length_cons] at hle heq ⊢
    refine ⟨by omega, fun hlen => ?_⟩
    obtain ⟨rfl, hpercent⟩ := heq (by omega)
    exact ⟨rfl, fun hmem => (List.mem_cons.1 hmem).elim (fun h => hc h.symm) hpercent⟩

/-- **A word and what follows it.** -/
theorem formatWords_word (hblank : 32 ∉ w) (cur : Bytes) (touched : Bool) (s : Bytes) :
    formatWords cur touched (w ++ 32 :: s) = (unescape w).bind fun w' =>
      (formatWords [] false s).map fun ws =>
        if touched = true ∨ w ≠ [] then (cur ++ w') :: ws else ws := by
  induction w using unescape.induct generalizing cur touched with
  | case1 =>
    rw [List.nil_append, formatWords_blank, unescape, Option.bind_some]
    simp
  | case2 => rfl
  | case3 c hpercent =>
    have hc : c ≠ 32 := fun h => hblank (h ▸ List.mem_cons_self)
    rw [List.singleton_append, formatWords_cons hpercent hc, formatWords_blank, unescape,
      if_neg hpercent, Option.bind_some]
    simp
  | case4 w ih =>
    have hw : 32 ∉ w := fun h => hblank (List.mem_cons_of_mem _ (List.mem_cons_of_mem _ h))
    rw [List.cons_append, List.cons_append, formatWords, if_pos rfl, if_pos rfl, ih hw, unescape,
      if_pos rfl, if_pos rfl]
    cases unescape w <;> simp
  | case5 d w hd =>
    rw [List.cons_append, List.cons_append, formatWords, if_pos rfl, if_neg hd, unescape, if_pos rfl,
      if_neg hd]
    rfl
  | case6 c d w hc ih =>
    have hw : 32 ∉ d :: w := fun h => hblank (List.mem_cons_of_mem _ h)
    have hne : c ≠ 32 := fun h => hblank (h ▸ List.mem_cons_self)
    rw [List.cons_append, formatWords_cons hc hne, ih hw, unescape, if_neg hc]
    cases unescape (d :: w) <;> simp

end Words

end CRedis

end MutexIM
