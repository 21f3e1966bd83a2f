import Mathlib.Algebra.Group.Int.Defs
import Mathlib.Data.List.AList
import Mathlib.Data.List.Sort
import Mathlib.Logic.Function.Basic
import MutexIM.Foundations.Bytes

/-!
# A typed key-value store

The part of Redis a client sees: keys with a string, a list, a set, a hash or a sorted set, and
commands that answer with a `Reply`. A command on a key of another type is answered by an error and
changes nothing; a list, set or hash that would become empty is removed with its key.

* One definition a command: `get`, `set`, `del`, `hgetall`, `hset`, `hmset`, `lpush`, `lrange`,
  `ltrim`, `smembers`, `sadd`, `srem`, `sdiff`, `sortGet`, `sortNumbers`, `sortGets`, `incr`, `zadd`,
  `zrem`, `zincrby`, `zrevrange`.
* `members`, `listAt`, `hashAt`, `ranks`: what a key holds, empty when it is of another type.
* The lemmas say what a command does to these views, at its own key and at the others.
-/

namespace MutexIM

open Bytes

/-- The members of a set, in the order the server keeps them. -/
structure Members where
  toList : List Bytes
  nodup : toList.Nodup
  deriving DecidableEq

namespace Members

def insert (s : Members) (m : Bytes) : Members := ⟨s.toList.insert m, s.nodup.insert⟩

def erase (s : Members) (m : Bytes) : Members := ⟨s.toList.erase m, s.nodup.erase m⟩

def singleton (m : Bytes) : Members := ⟨[m], List.nodup_singleton m⟩

end Members

/-- What a key holds. -/
inductive Value
  | str (s : Bytes)
  | list (l : List Bytes)
  | set (s : Members)
  | hash (h : AList fun _ : Bytes => Bytes)
  | zset (z : AList fun _ : Bytes => ℤ)
  deriving DecidableEq

/-- The keys and what they hold. -/
abbrev Keyspace := Bytes → Option Value

/-- The answer to a command. -/
inductive Reply
  | status (s : Bytes)
  | integer (n : ℤ)
  | str (s : Bytes)
  | nil
  | array (l : List Reply)
  | error

namespace Keyspace

variable (ks : Keyspace) (k : Bytes)

/-! ## Views -/

/-- The members of a set. -/
def members : List Bytes :=
  match ks k with
  | some (.set s) => s.toList
  | _ => []

/-- The elements of a list. -/
def listAt : List Bytes :=
  match ks k with
  | some (.list l) => l
  | _ => []

/-- The fields of a hash. -/
def hashAt : AList fun _ : Bytes => Bytes :=
  match ks k with
  | some (.hash h) => h
  | _ => ∅

/-- The scores of a sorted set. -/
def ranks : AList fun _ : Bytes => ℤ :=
  match ks k with
  | some (.zset z) => z
  | _ => ∅

/-! ## Keys and strings -/

def get : Reply :=
  match ks k with
  | none => .nil
  | some (.str s) => .str s
  | some _ => .error

def set (v : Bytes) : Reply × Keyspace :=
  (.status (ascii "OK"), Function.update ks k (some (.str v)))

def del : Reply × Keyspace :=
  (.integer (if (ks k).isSome then 1 else 0), Function.update ks k none)

def existsKey : Reply := .integer (if (ks k).isSome then 1 else 0)

/-- A text that is taken for an integer of 64 bits: its decimal, with nothing before or after. -/
def integer (s : Bytes) : Option ℤ :=
  if itoa (atoi s) = s ∧ -2 ^ 63 ≤ atoi s ∧ atoi s < 2 ^ 63 then some (atoi s) else none

/-- `INCR`: a key that is not there starts at zero. -/
def incr : Reply × Keyspace :=
  let next (n : ℤ) : Reply × Keyspace :=
    if n + 1 < 2 ^ 63 then (.integer (n + 1), Function.update ks k (some (.str (itoa (n + 1)))))
    else (.error, ks)
  match ks k with
  | none => next 0
  | some (.str s) =>
    match integer s with
    | some n => next n
    | none => (.error, ks)
  | some _ => (.error, ks)

/-! ## Hashes -/

def hgetall : Reply :=
  match ks k with
  | none => .array []
  | some (.hash h) => .array (h.entries.flatMap fun e => [.str e.1, .str e.2])
  | some _ => .error

def hset (f v : Bytes) : Reply × Keyspace :=
  match ks k with
  | none => (.integer 1, Function.update ks k (some (.hash (AList.singleton f v))))
  | some (.hash h) =>
    (.integer (if f ∈ h then 0 else 1), Function.update ks k (some (.hash (h.insert f v))))
  | some _ => (.error, ks)

/-- `HMSET`, with at least one field. -/
def hmset (fvs : List (Bytes × Bytes)) : Reply × Keyspace :=
  match ks k with
  | none => (.status (ascii "OK"),
      Function.update ks k (some (.hash (fvs.foldl (fun h e => h.insert e.1 e.2) ∅))))
  | some (.hash h) => (.status (ascii "OK"),
      Function.update ks k (some (.hash (fvs.foldl (fun h e => h.insert e.1 e.2) h))))
  | some _ => (.error, ks)

/-! ## Lists -/

/-- The elements from the index `start` to the index `stop`, both included; a negative index counts
from the end. -/
def slice (l : List Bytes) (start stop : ℤ) : List Bytes :=
  let index (i : ℤ) : ℤ := if i < 0 then l.length + i else i
  (l.take (index stop + 1).toNat).drop (index start).toNat

def lrange (start stop : ℤ) : Reply :=
  match ks k with
  | none => .array []
  | some (.list l) => .array ((slice l start stop).map .str)
  | some _ => .error

def lpush (v : Bytes) : Reply × Keyspace :=
  match ks k with
  | none => (.integer 1, Function.update ks k (some (.list [v])))
  | some (.list l) => (.integer (l.length + 1), Function.update ks k (some (.list (v :: l))))
  | some _ => (.error, ks)

def ltrim (start stop : ℤ) : Reply × Keyspace :=
  match ks k with
  | none => (.status (ascii "OK"), ks)
  | some (.list l) =>
    (.status (ascii "OK"), Function.update ks k
      (if slice l start stop = [] then none else some (.list (slice l start stop))))
  | some _ => (.error, ks)

/-! ## Sets -/

def smembers : Reply :=
  match ks k with
  | none => .array []
  | some (.set s) => .array (s.toList.map .str)
  | some _ => .error

def sadd (m : Bytes) : Reply × Keyspace :=
  match ks k with
  | none => (.integer 1, Function.update ks k (some (.set (.singleton m))))
  | some (.set s) =>
    (.integer (if m ∈ s.toList then 0 else 1), Function.update ks k (some (.set (s.insert m))))
  | some _ => (.error, ks)

def srem (m : Bytes) : Reply × Keyspace :=
  match ks k with
  | none => (.integer 0, ks)
  | some (.set s) =>
    (.integer (if m ∈ s.toList then 1 else 0), Function.update ks k
      (if (s.erase m).toList = [] then none else some (.set (s.erase m))))
  | some _ => (.error, ks)

/-- What a command that reads a set finds. -/
def setMembers : Option (List Bytes) :=
  match ks k with
  | none => some []
  | some (.set s) => some s.toList
  | some _ => none

/-- `SDIFF`: the members of the first set that are not in the second. -/
def sdiff (k' : Bytes) : Reply :=
  match ks.setMembers k, ks.setMembers k' with
  | some l, some l' => .array ((l.filter (· ∉ l')).map .str)
  | _, _ => .error

/-- `SORT k BY nosort GET # GET p*`: each element, followed by the string at the key made from it. -/
def sortGet (pattern : Bytes → Bytes) : Reply :=
  let fetch (m : Bytes) : List Reply :=
    [.str m, match ks (pattern m) with | some (.str v) => .str v | _ => .nil]
  match ks k with
  | none => .array []
  | some (.list l) => .array (l.flatMap fetch)
  | some (.set s) => .array (s.toList.flatMap fetch)
  | some (.zset z) => .array (z.keys.flatMap fetch)
  | some _ => .error

/-- The order in which `SORT` puts numbers; `none` if an element is not one. -/
structure NumericOrder where
  sort : List Bytes → Option (List Bytes)
  perm : ∀ {l l' : List Bytes}, sort l = some l' → l'.Perm l

/-- The elements that `SORT` sorts. -/
def sortable : Option (List Bytes) :=
  match ks k with
  | none => some []
  | some (.list l) => some l
  | some (.set s) => some s.toList
  | some (.zset z) => some z.keys
  | some _ => none

/-- The text before the first arrow, and the text behind it. -/
def arrow : Bytes → Option (Bytes × Bytes)
  | 45 :: 62 :: s => some ([], s)
  | c :: s => (arrow s).map fun e => (c :: e.1, e.2)
  | [] => none

/-- What a `GET` pattern makes of an element: for `#` the element itself; with an arrow and a field
behind the star, the field of the hash; else the string. -/
def fetch (pattern m : Bytes) : Reply :=
  let text (key : Bytes) : Reply := match ks key with | some (.str v) => .str v | _ => .nil
  if pattern = ascii "#" then .str m
  else match pattern.dropWhile (· ≠ 42) with
  | [] => .nil
  | _ :: rest =>
    let key := pattern.takeWhile (· ≠ 42) ++ m
    match arrow rest with
    | some (rest', f) =>
      if f = [] then text (key ++ rest)
      else match ks (key ++ rest') with
      | some (.hash h) => match h.lookup f with | some v => .str v | none => .nil
      | _ => .nil
    | none => text (key ++ rest)

/-- `SORT k GET # GET pattern`: each element, in the order of the numbers, followed by what the pattern makes
of it. -/
def sortNumbers (order : NumericOrder) (pattern : Bytes) : Reply :=
  match (ks.sortable k).bind order.sort with
  | some l => .array (l.flatMap fun m => [.str m, ks.fetch pattern m])
  | none => .error

/-- `SORT k GET p GET p' ..`: for each element, in the order of the numbers, what the patterns make of
it. -/
def sortGets (order : NumericOrder) (patterns : List Bytes) : Reply :=
  match (ks.sortable k).bind order.sort with
  | some l => .array (l.flatMap fun m => patterns.map fun pattern => ks.fetch pattern m)
  | none => .error

/-! ## Sorted sets -/

def zadd (score : ℤ) (m : Bytes) : Reply × Keyspace :=
  match ks k with
  | none => (.integer 1, Function.update ks k (some (.zset (AList.singleton m score))))
  | some (.zset z) =>
    (.integer (if m ∈ z then 0 else 1), Function.update ks k (some (.zset (z.insert m score))))
  | some _ => (.error, ks)

def zrem (m : Bytes) : Reply × Keyspace :=
  match ks k with
  | none => (.integer 0, ks)
  | some (.zset z) =>
    (.integer (if m ∈ z then 1 else 0), Function.update ks k
      (if (z.erase m).entries = [] then none else some (.zset (z.erase m))))
  | some _ => (.error, ks)

/-- `ZINCRBY`: a member that is not there starts at zero. -/
def zincrby (d : ℤ) (m : Bytes) : Reply × Keyspace :=
  match ks k with
  | none => (.str (ascii (toString d)), Function.update ks k (some (.zset (AList.singleton m d))))
  | some (.zset z) =>
    let score := (z.lookup m).getD 0 + d
    (.str (ascii (toString score)), Function.update ks k (some (.zset (z.insert m score))))
  | some _ => (.error, ks)

/-- The order of a sorted set read backwards: by score and, where these are equal, by the bytes of
the member. -/
def RankLe (e e' : Σ _ : Bytes, ℤ) : Prop := e'.2 < e.2 ∨ e'.2 = e.2 ∧ ¬e.1 < e'.1

instance : DecidableRel RankLe := fun e e' =>
  inferInstanceAs (Decidable (e'.2 < e.2 ∨ e'.2 = e.2 ∧ ¬e.1 < e'.1))

def zrevrange (start stop : ℤ) : Reply :=
  match ks k with
  | none => .array []
  | some (.zset z) =>
    .array ((slice ((z.entries.insertionSort RankLe).map Sigma.fst) start stop).map .str)
  | some _ => .error

/-! ## What a hash is read as -/

variable {ks k}

/-- **A hash without fields is read as nothing**, and so is what is no hash. -/
theorem hgetall_elements : ks.hgetall k =
    .array ((ks.hashAt k).entries.flatMap fun e => [.str e.1, .str e.2]) ∨
      ks.hgetall k = .error ∧ ks.hashAt k = ∅ := by
  unfold hgetall hashAt
  rcases h : ks k with _ | (_ | _ | _ | _ | _) <;> simp

/-! ## What the patterns fetch -/

section Patterns

variable {p f : Bytes}

/-- A pattern is cut at its first star. -/
theorem takeWhile_star (hp : 42 ∉ p) (s : Bytes) : (p ++ 42 :: s).takeWhile (· ≠ 42) = p ∧
    (p ++ 42 :: s).dropWhile (· ≠ 42) = 42 :: s := by
  have hall : ∀ c ∈ p, decide (c ≠ 42) = true := fun c hc => decide_eq_true fun h => hp (h ▸ hc)
  constructor
  · rw [List.takeWhile_append_of_pos hall, List.takeWhile_cons_of_neg (by decide), List.append_nil]
  · rw [List.dropWhile_append_of_pos hall, List.dropWhile_cons_of_neg (by decide)]

theorem ne_hash_of_star (s : Bytes) : p ++ 42 :: s ≠ ascii "#" := by
  intro h
  have hmem : 42 ∈ ascii "#" := h ▸ List.mem_append_right p List.mem_cons_self
  revert hmem
  decide

/-- A pattern for strings. -/
theorem fetch_star (hp : 42 ∉ p) (m : Bytes) : ks.fetch (p ++ ascii "*") m =
    match ks (p ++ m) with | some (.str v) => .str v | _ => .nil := by
  obtain ⟨htake, hdrop⟩ := takeWhile_star hp []
  have hstar : p ++ ascii "*" = p ++ 42 :: [] := rfl
  rw [fetch, hstar, if_neg (ne_hash_of_star [])]
  simp only [htake, hdrop, arrow, List.append_nil]

/-- A pattern without a star. -/
theorem fetch_of_not_mem (hp : 42 ∉ p) (hne : p ≠ ascii "#") (m : Bytes) : ks.fetch p m = .nil := by
  have hdrop : p.dropWhile (· ≠ 42) = [] :=
    List.dropWhile_eq_nil_iff.2 fun c hc => decide_eq_true fun h => hp (h ▸ hc)
  rw [fetch, if_neg hne, hdrop]

/-- A pattern for a field of hashes. -/
theorem fetch_arrow (hp : 42 ∉ p) (hf : f ≠ []) (m : Bytes) : ks.fetch (p ++ ascii "*->" ++ f) m =
    match (ks.hashAt (p ++ m)).lookup f with | some v => .str v | none => .nil := by
  obtain ⟨htake, hdrop⟩ := takeWhile_star hp (45 :: 62 :: f)
  have hpattern : p ++ ascii "*->" ++ f = p ++ 42 :: 45 :: 62 :: f := List.append_assoc ..
  rw [fetch, hpattern, if_neg (ne_hash_of_star _)]
  simp only [htake, hdrop, arrow, if_neg hf, List.append_nil, hashAt]
  rcases ks (p ++ m) with _ | (_ | _ | _ | _ | _) <;> rfl

end Patterns

/-! ## What the commands do to a set -/

variable {k' m x : Bytes}

theorem members_congr {ks' : Keyspace} (h : ks k = ks' k) : ks.members k = ks'.members k := by
  rw [members, members, h]

variable (ks k) in
theorem nodup_members : (ks.members k).Nodup := by
  unfold members
  split
  · next s _ => exact s.nodup
  · exact List.nodup_nil

variable (ks k) in
theorem smembers_elements : ks.smembers k = .array ((ks.members k).map .str) ∨
    ks.smembers k = .error ∧ ks.members k = [] := by
  unfold smembers members
  rcases h : ks k with _ | (_ | _ | _ | _ | _) <;> simp

theorem set_of_ne {v : Bytes} (h : k' ≠ k) : (ks.set k v).2 k' = ks k' := Function.update_of_ne h ..

theorem del_of_ne (h : k' ≠ k) : (ks.del k).2 k' = ks k' := Function.update_of_ne h ..

/-- The key is free, or holds a set. -/
def SetOrNone (ks : Keyspace) (k : Bytes) : Prop := ∀ v, ks k = some v → ∃ s, v = .set s

instance (ks : Keyspace) (k : Bytes) : Decidable (ks.SetOrNone k) :=
  match h : ks k with
  | none => isTrue fun v hv => by rw [h] at hv; cases hv
  | some (.set s) => isTrue fun v hv => ⟨s, by rw [h] at hv; exact (Option.some.inj hv).symm⟩
  | some (.str _) | some (.list _) | some (.hash _) | some (.zset _) =>
    isFalse fun hset => by
      obtain ⟨s, hs⟩ := hset _ h
      cases hs

theorem sortable_eq (h : ks.SetOrNone k) : ks.sortable k = some (ks.members k) := by
  unfold sortable members
  cases hk : ks k with
  | none => rfl
  | some v =>
    obtain ⟨s, rfl⟩ := h v hk
    rfl

theorem setOrNone_of_mem (h : x ∈ ks.members k) : ks.SetOrNone k := by
  intro v hv
  unfold members at h
  rw [hv] at h
  cases v with
  | set s => exact ⟨s, rfl⟩
  | _ => cases h

theorem setMembers_eq (h : ks.SetOrNone k) : ks.setMembers k = some (ks.members k) := by
  rw [setMembers, members]
  rcases hv : ks k with _ | v
  · rfl
  · obtain ⟨s, rfl⟩ := h v hv
    rfl

theorem sadd_of_ne (h : k' ≠ k) : (ks.sadd k m).2 k' = ks k' := by
  unfold sadd
  rcases ks k with _ | (_ | _ | _ | _ | _) <;>
    first | rfl | exact Function.update_of_ne h ..

theorem srem_of_ne (h : k' ≠ k) : (ks.srem k m).2 k' = ks k' := by
  unfold srem
  rcases ks k with _ | (_ | _ | _ | _ | _) <;>
    first | rfl | exact Function.update_of_ne h ..

theorem mem_members_sadd (h : x ∈ (ks.sadd k m).2.members k') :
    x ∈ ks.members k' ∨ k' = k ∧ x = m := by
  by_cases hk : k' = k
  · subst hk
    unfold sadd members at h
    unfold members
    rcases hv : ks k' with _ | (_ | _ | s | _ | _) <;> simp only [hv, Function.update_self, true_and] at h ⊢
    · exact .inr (List.mem_singleton.1 h)
    · cases h
    · cases h
    · rcases List.mem_insert_iff.1 h with rfl | h
      · exact .inr rfl
      · exact .inl h
    · cases h
    · cases h
  · rw [members_congr (sadd_of_ne hk)] at h
    exact .inl h

/-- **The members after one is removed.** -/
theorem members_srem : (ks.srem k m).2.members k' =
    (ks.members k').filter fun x => ¬(k' = k ∧ x = m) := by
  by_cases hk : k' = k
  · subst hk
    simp only [true_and]
    unfold srem members
    rcases hv : ks k' with _ | (_ | _ | s | _ | _) <;> simp only [hv, Function.update_self]
    case some.set =>
      have herase : (s.erase m).toList = s.toList.filter fun x => ¬x = m := by
        refine (s.nodup.erase_eq_filter m).trans (List.filter_congr fun x _ => ?_)
        rw [decide_not, bne, beq_eq_decide]
      rw [← herase]
      by_cases hnil : (s.erase m).toList = []
      · simp [hnil]
      · simp [hnil]
    all_goals rfl
  · rw [members_congr (srem_of_ne hk)]
    exact (List.filter_eq_self.2 fun x _ => by simp [hk]).symm

theorem mem_members_srem : x ∈ (ks.srem k m).2.members k' ↔
    x ∈ ks.members k' ∧ ¬(k' = k ∧ x = m) := by
  rw [members_srem, List.mem_filter, decide_eq_true_iff]

/-- The command is refused, or there is nothing to remove. -/
theorem srem_of_not_set (h : ∀ s, ks k ≠ some (.set s)) : (ks.srem k m).2 = ks := by
  unfold srem
  rcases hv : ks k with _ | (_ | _ | s | _ | _)
  case some.set => exact absurd hv (h s)
  all_goals rfl

theorem SetOrNone.congr {ks' : Keyspace} (h : ks k = ks' k) (hks : ks'.SetOrNone k) :
    ks.SetOrNone k := fun v hv => hks v (h ▸ hv)

theorem SetOrNone.sadd (h : ks.SetOrNone k) : (ks.sadd k' m).2.SetOrNone k := by
  by_cases hk : k = k'
  · subst hk
    intro v hv
    unfold Keyspace.sadd at hv
    rcases hw : ks k with _ | w
    · simp only [hw, Function.update_self, Option.some.injEq] at hv
      exact ⟨_, hv.symm⟩
    · obtain ⟨s, rfl⟩ := h w hw
      simp only [hw, Function.update_self, Option.some.injEq] at hv
      exact ⟨_, hv.symm⟩
  · exact h.congr (sadd_of_ne hk)

theorem SetOrNone.srem (h : ks.SetOrNone k) : (ks.srem k' m).2.SetOrNone k := by
  by_cases hk : k = k'
  · subst hk
    intro v hv
    unfold Keyspace.srem at hv
    rcases hw : ks k with _ | w
    · simp only [hw] at hv
      cases hv
    · obtain ⟨s, rfl⟩ := h w hw
      simp only [hw, Function.update_self] at hv
      split at hv
      · cases hv
      · exact ⟨_, (Option.some.inj hv).symm⟩
  · exact h.congr (srem_of_ne hk)

/-- **Adding to a set.** -/
theorem SetOrNone.mem_sadd (h : ks.SetOrNone k) :
    x ∈ (ks.sadd k' m).2.members k ↔ x ∈ ks.members k ∨ k = k' ∧ x = m := by
  refine ⟨mem_members_sadd, ?_⟩
  by_cases hk : k = k'
  · subst hk
    rw [and_iff_right rfl]
    unfold Keyspace.sadd members
    rcases hw : ks k with _ | w
    · simp [Members.singleton]
    · obtain ⟨s, rfl⟩ := h w hw
      simp only [Function.update_self]
      exact fun hx => List.mem_insert_iff.2 hx.symm
  · rw [members_congr (sadd_of_ne hk)]
    exact fun hx => hx.resolve_right fun he => hk he.1

/-! ## What `INCR` leaves -/

theorem incr_of_ne (h : k' ≠ k) : (ks.incr k).2 k' = ks k' := by
  have hnext : ∀ n : ℤ, (if n + 1 < 2 ^ 63 then
      (Reply.integer (n + 1), Function.update ks k (some (.str (itoa (n + 1))))) else (.error, ks)).2 k' =
        ks k' := by
    intro n
    split
    · exact Function.update_of_ne h ..
    · rfl
  unfold incr
  split
  · exact hnext 0
  · split
    · exact hnext _
    · rfl
  · rfl

/-! ## What the commands do to a list -/

theorem listAt_congr {ks' : Keyspace} (h : ks k = ks' k) : ks.listAt k = ks'.listAt k := by
  rw [listAt, listAt, h]

theorem lpush_of_ne {v : Bytes} (h : k' ≠ k) : (ks.lpush k v).2 k' = ks k' := by
  unfold lpush
  rcases ks k with _ | (_ | _ | _ | _ | _) <;>
    first | rfl | exact Function.update_of_ne h ..

theorem ltrim_of_ne {start stop : ℤ} (h : k' ≠ k) : (ks.ltrim k start stop).2 k' = ks k' := by
  unfold ltrim
  rcases ks k with _ | (_ | _ | _ | _ | _) <;>
    first | rfl | exact Function.update_of_ne h ..

theorem integer_itoa {n : ℕ} (h : n < 2 ^ 63) : integer (itoa n) = some (n : ℤ) := by
  have hpow : (2 : ℤ) ^ 63 = 9223372036854775808 := by decide
  rw [integer, atoi_itoa, if_pos ⟨rfl, by omega, by omega⟩]

theorem slice_zero (l : List Bytes) (n : ℕ) : slice l 0 n = l.take (n + 1) := by
  simp only [slice, lt_self_iff_false, if_false, Int.toNat_zero, List.drop_zero,
    if_neg (Int.not_lt.2 (Int.natCast_nonneg n))]
  rw [← Int.natCast_succ, Int.toNat_natCast]

theorem slice_all (l : List Bytes) : slice l 0 (-1) = l := by
  have hstop : ((l.length : ℤ) + -1 + 1).toNat = l.length := by omega
  simp only [slice, Int.reduceNeg, Int.neg_lt_zero_iff, zero_lt_one, if_true, lt_self_iff_false,
    if_false, hstop, List.take_length, Int.toNat_zero, List.drop_zero]

/-- The key is free, or holds a list. -/
def ListOrNone (ks : Keyspace) (k : Bytes) : Prop := ∀ v, ks k = some v → ∃ l, v = .list l

/-- **Pushing to a list.** -/
theorem lpush_self (h : ks.ListOrNone k) (v : Bytes) :
    (ks.lpush k v).2 k = some (.list (v :: ks.listAt k)) := by
  unfold lpush listAt
  rcases hv : ks k with _ | w
  · exact Function.update_self ..
  · obtain ⟨l, rfl⟩ := h w hv
    exact Function.update_self ..

theorem lpush_fst (h : ks.ListOrNone k) (v : Bytes) :
    (ks.lpush k v).1 = .integer ((ks.listAt k).length + 1) := by
  unfold lpush listAt
  rcases hv : ks k with _ | w
  · rfl
  · obtain ⟨l, rfl⟩ := h w hv
    rfl

/-- **Trimming a list to its first elements.** -/
theorem ltrim_self (n : ℕ) : (ks.ltrim k 0 n).2.listAt k = (ks.listAt k).take (n + 1) := by
  unfold ltrim listAt
  rcases hv : ks k with _ | (_ | l | _ | _ | _) <;> simp only [hv, Function.update_self, slice_zero]
  · rfl
  · rfl
  · split
    · next heq =>
      split at heq
      · cases heq
      · cases heq
        rfl
    · next hne =>
      split at hne
      · next hnil => exact hnil.symm
      · exact absurd rfl (hne _)
  · rfl
  · rfl
  · rfl

theorem mem_listAt_lpush {v : Bytes} (h : x ∈ (ks.lpush k v).2.listAt k') :
    x ∈ ks.listAt k' ∨ x = v := by
  by_cases hk : k' = k
  · subst hk
    unfold lpush listAt at h
    unfold listAt
    rcases hv : ks k' with _ | (_ | l | _ | _ | _) <;> simp only [hv, Function.update_self] at h ⊢
    · exact .inr (List.mem_singleton.1 h)
    · cases h
    · exact (List.mem_cons.1 h).symm
    · cases h
    · cases h
    · cases h
  · rw [listAt_congr (lpush_of_ne hk)] at h
    exact .inl h

theorem mem_listAt_ltrim {start stop : ℤ} (h : x ∈ (ks.ltrim k start stop).2.listAt k') :
    x ∈ ks.listAt k' := by
  by_cases hk : k' = k
  · subst hk
    unfold ltrim listAt at h
    unfold listAt
    rcases hv : ks k' with _ | (_ | l | _ | _ | _) <;> simp only [hv, Function.update_self] at h ⊢
    · cases h
    · cases h
    · have hslice : x ∈ slice l start stop := by
        split at h
        · next heq =>
          split at heq
          · cases heq
          · cases heq
            exact h
        · cases h
      exact List.mem_of_mem_take (List.mem_of_mem_drop hslice)
    · cases h
    · cases h
    · cases h
  · rwa [listAt_congr (ltrim_of_ne hk)] at h

theorem ListOrNone.lpush (h : ks.ListOrNone k) (v : Bytes) : (ks.lpush k' v).2.ListOrNone k := by
  intro w hw
  by_cases hk : k = k'
  · subst hk
    rw [lpush_self h] at hw
    exact ⟨_, (Option.some.inj hw).symm⟩
  · rw [lpush_of_ne hk] at hw
    exact h w hw

theorem ListOrNone.ltrim (h : ks.ListOrNone k) (start stop : ℤ) :
    (ks.ltrim k' start stop).2.ListOrNone k := by
  intro w hw
  by_cases hk : k = k'
  · subst hk
    unfold Keyspace.ltrim at hw
    rcases hv : ks k with _ | v
    · simp only [hv] at hw
      cases hw
    · obtain ⟨l, rfl⟩ := h v hv
      simp only [hv, Function.update_self] at hw
      split at hw
      · cases hw
      · exact ⟨_, (Option.some.inj hw).symm⟩
  · rw [ltrim_of_ne hk] at hw
    exact h w hw

/-! ## What the commands do to a hash -/

variable {f f' v : Bytes} {fvs : List (Bytes × Bytes)}

theorem hashAt_congr {ks' : Keyspace} (h : ks k = ks' k) : ks.hashAt k = ks'.hashAt k := by
  rw [hashAt, hashAt, h]

theorem hset_of_ne (h : k' ≠ k) : (ks.hset k f v).2 k' = ks k' := by
  unfold hset
  rcases ks k with _ | (_ | _ | _ | _ | _) <;>
    first | rfl | exact Function.update_of_ne h ..

theorem hmset_of_ne (h : k' ≠ k) : (ks.hmset k fvs).2 k' = ks k' := by
  unfold hmset
  rcases ks k with _ | (_ | _ | _ | _ | _) <;>
    first | rfl | exact Function.update_of_ne h ..

theorem zincrby_of_ne {d : ℤ} (h : k' ≠ k) : (ks.zincrby k d m).2 k' = ks k' := by
  unfold zincrby
  rcases ks k with _ | (_ | _ | _ | _ | _) <;>
    first | rfl | exact Function.update_of_ne h ..

theorem mem_hashAt_hset (h : f' ∈ (ks.hset k f v).2.hashAt k') :
    f' ∈ ks.hashAt k' ∨ k' = k ∧ f' = f := by
  by_cases hk : k' = k
  · subst hk
    unfold hset hashAt at h
    unfold hashAt
    rcases hv : ks k' with _ | (_ | _ | _ | _ | _) <;>
      simp only [hv, Function.update_self, true_and] at h ⊢
    · rw [AList.mem_keys, AList.keys_singleton, List.mem_singleton] at h
      exact .inr h
    · exact .inl h
    · exact .inl h
    · exact .inl h
    · exact (AList.mem_insert _ |>.1 h).symm
    · exact .inl h
  · rw [hashAt_congr (hset_of_ne hk)] at h
    exact .inl h

theorem mem_foldl_insert {h : AList fun _ : Bytes => Bytes}
    (hf : f' ∈ fvs.foldl (fun h e => h.insert e.1 e.2) h) : f' ∈ h ∨ f' ∈ fvs.map Prod.fst := by
  induction fvs generalizing h with
  | nil => exact .inl hf
  | cons e fvs ih =>
    rcases ih hf with hf | hf
    · rcases (AList.mem_insert _).1 hf with rfl | hf
      · exact .inr List.mem_cons_self
      · exact .inl hf
    · exact .inr (List.mem_cons_of_mem _ hf)

theorem mem_hashAt_hmset (h : f' ∈ (ks.hmset k fvs).2.hashAt k') :
    f' ∈ ks.hashAt k' ∨ k' = k ∧ f' ∈ fvs.map Prod.fst := by
  by_cases hk : k' = k
  · subst hk
    unfold hmset hashAt at h
    unfold hashAt
    rcases hv : ks k' with _ | (_ | _ | _ | _ | _) <;>
      simp only [hv, Function.update_self, true_and] at h ⊢
    · exact mem_foldl_insert h
    · exact .inl h
    · exact .inl h
    · exact .inl h
    · exact mem_foldl_insert h
    · exact .inl h
  · rw [hashAt_congr (hmset_of_ne hk)] at h
    exact .inl h

/-- A field that is not set stays. -/
theorem lookup_hmset_of_notMem (h : f ∉ fvs.map Prod.fst) :
    ((ks.hmset k fvs).2.hashAt k).lookup f = (ks.hashAt k).lookup f := by
  have hfold : ∀ m : AList fun _ : Bytes => Bytes,
      (fvs.foldl (fun m e => m.insert e.1 e.2) m).lookup f = m.lookup f := by
    induction fvs with
    | nil => exact fun m => rfl
    | cons e fvs ih =>
      obtain ⟨hf, hfvs⟩ := not_or.1 (mt List.mem_cons.2 h)
      exact fun m => (ih hfvs _).trans (AList.lookup_insert_ne hf)
  unfold hmset hashAt
  rcases hv : ks k with _ | (_ | _ | _ | _ | _) <;> simp only [hv, Function.update_self]
  · exact hfold ∅
  · exact hfold _

/-- The key is free, or holds a hash. -/
def HashOrNone (ks : Keyspace) (k : Bytes) : Prop := ∀ v, ks k = some v → ∃ h, v = .hash h

theorem HashOrNone.congr {ks' : Keyspace} (h : ks k = ks' k) (hks : ks'.HashOrNone k) :
    ks.HashOrNone k := fun v hv => hks v (h ▸ hv)

/-- **Setting a field.** -/
theorem hset_self (h : ks.HashOrNone k) (f v : Bytes) :
    (ks.hset k f v).2 k = some (.hash ((ks.hashAt k).insert f v)) := by
  unfold hset hashAt
  rcases hv : ks k with _ | w
  · exact Function.update_self ..
  · obtain ⟨h, rfl⟩ := h w hv
    exact Function.update_self ..

theorem exists_of_not_hashOrNone (h : ¬ks.HashOrNone k) : ∃ w, ks k = some w ∧ ¬∃ h, w = .hash h := by
  simpa [HashOrNone] using h

/-- The command is refused. -/
theorem hset_of_not (h : ¬ks.HashOrNone k) : (ks.hset k f v).2 = ks := by
  obtain ⟨w, hw, hno⟩ := exists_of_not_hashOrNone h
  unfold hset
  rw [hw]
  cases w with
  | hash a => exact absurd ⟨a, rfl⟩ hno
  | _ => rfl

theorem hmset_of_not (h : ¬ks.HashOrNone k) : (ks.hmset k fvs).2 = ks := by
  obtain ⟨w, hw, hno⟩ := exists_of_not_hashOrNone h
  unfold hmset
  rw [hw]
  cases w with
  | hash a => exact absurd ⟨a, rfl⟩ hno
  | _ => rfl

/-- Only a hash has fields. -/
theorem hashOrNone_of_mem (h : f ∈ ks.hashAt k) : ks.HashOrNone k := by
  by_contra hno
  obtain ⟨w, hw, hno⟩ := exists_of_not_hashOrNone hno
  unfold hashAt at h
  rw [hw] at h
  cases w with
  | hash a => exact hno ⟨a, rfl⟩
  | _ => cases h

/-- **Setting several fields.** -/
theorem hmset_self (h : ks.HashOrNone k) (fvs : List (Bytes × Bytes)) :
    (ks.hmset k fvs).2 k =
      some (.hash (fvs.foldl (fun h e => h.insert e.1 e.2) (ks.hashAt k))) := by
  unfold hmset hashAt
  rcases hv : ks k with _ | w
  · exact Function.update_self ..
  · obtain ⟨h, rfl⟩ := h w hv
    exact Function.update_self ..

/-- Entries put one by one into a map are those of the map. -/
theorem lookup_foldl_insert (h h' : AList fun _ : Bytes => Bytes) :
    (h.entries.foldl (fun m e => m.insert e.1 e.2) h').lookup f =
      (h.lookup f).or (h'.lookup f) := by
  obtain ⟨l, hl⟩ := h
  induction l generalizing h' with
  | nil => rfl
  | cons e l ih =>
    obtain ⟨hnotMem, hl'⟩ := List.nodupKeys_cons.1 hl
    refine (ih _ hl').trans ?_
    by_cases hf : f = e.1
    · subst hf
      have hnone : AList.lookup e.1 ⟨l, hl'⟩ = none := AList.lookup_eq_none.2 hnotMem
      rw [hnone, AList.lookup_insert]
      exact (congrArg (Option.or · _) (List.dlookup_cons_eq l e.1 e.2)).symm
    · rw [AList.lookup_insert_ne hf]
      exact (congrArg (Option.or · _) (List.dlookup_cons_ne l e hf)).symm

/-! ## What the commands do to a sorted set -/

variable {d z : ℤ} {y : Bytes}

theorem zincrby_congr {ks' : Keyspace} (h : ks k = ks' k) :
    (ks.zincrby k d m).2 k = (ks'.zincrby k d m).2 k := by
  unfold zincrby
  rw [h]
  rcases ks' k with _ | (_ | _ | _ | _ | _) <;> simp only [Function.update_self, h]

theorem mem_ranks_zincrby (h : x ∈ (ks.zincrby k d m).2.ranks k) : x ∈ ks.ranks k ∨ x = m := by
  unfold zincrby ranks at h
  unfold ranks
  rcases hv : ks k with _ | (_ | _ | _ | _ | _) <;> simp only [hv, Function.update_self] at h ⊢
  · exact .inr (List.mem_singleton.1 h)
  · cases h
  · cases h
  · cases h
  · cases h
  · exact (AList.mem_insert _ |>.1 h).symm

theorem ranks_of_zset {s : AList fun _ : Bytes => ℤ} (h : ks k = some (.zset s)) : ks.ranks k = s := by
  rw [ranks, h]

/-- Only a sorted set has members. -/
theorem zset_of_mem_ranks (h : x ∈ ks.ranks k) : ks k = some (.zset (ks.ranks k)) := by
  unfold ranks at h ⊢
  split at h
  · next z hz => exact hz
  · exact absurd h (AList.notMem_empty x)

theorem zincrby_zset {s : AList fun _ : Bytes => ℤ} (h : ks k = some (.zset s)) (d : ℤ) (m : Bytes) :
    (ks.zincrby k d m).2 k = some (.zset (s.insert m ((s.lookup m).getD 0 + d))) := by
  simp only [zincrby, h, Function.update_self]

/-- `ZINCRBY` changes the score of its member only. -/
theorem lookup_zincrby_of_mem (hy : y ∈ ks.ranks k) :
    ((ks.zincrby k d m).2.ranks k).lookup x =
      if x = m then some (((ks.ranks k).lookup m).getD 0 + d) else (ks.ranks k).lookup x := by
  rw [ranks_of_zset (zincrby_zset (zset_of_mem_ranks hy) d m)]
  split
  · next he => rw [he, AList.lookup_insert]
  · next hne => rw [AList.lookup_insert_ne hne]

/-- **Changing a score.** -/
theorem lookup_zincrby (h : (ks.ranks k).lookup x = some z) :
    ((ks.zincrby k d m).2.ranks k).lookup x = some (if x = m then z + d else z) := by
  have hx : x ∈ ks.ranks k := AList.lookup_isSome.1 (Option.isSome_iff_exists.2 ⟨z, h⟩)
  rw [lookup_zincrby_of_mem hx, apply_ite some]
  by_cases he : x = m
  · rw [if_pos he, if_pos he, ← he, h, Option.getD_some]
  · rw [if_neg he, if_neg he, h]

theorem mem_ranks_zadd (h : x ∈ (ks.zadd k d m).2.ranks k) : x ∈ ks.ranks k ∨ x = m := by
  unfold zadd ranks at h
  unfold ranks
  rcases hv : ks k with _ | (_ | _ | _ | _ | _) <;> simp only [hv, Function.update_self] at h ⊢
  · exact .inr (List.mem_singleton.1 h)
  · cases h
  · cases h
  · cases h
  · cases h
  · exact (AList.mem_insert _ |>.1 h).symm

theorem mem_ranks_zrem (h : x ∈ (ks.zrem k m).2.ranks k) : x ∈ ks.ranks k ∧ x ≠ m := by
  unfold zrem ranks at h
  unfold ranks
  rcases hv : ks k with _ | (_ | _ | _ | _ | s) <;> simp only [hv, Function.update_self] at h ⊢
  · cases h
  · cases h
  · cases h
  · cases h
  · cases h
  · split at h
    · next heq =>
      split at heq
      · cases heq
      · cases heq
        exact (AList.mem_erase.1 h).symm
    · cases h

instance : Std.Total RankLe where
  total e e' := by
    unfold RankLe
    rcases lt_trichotomy e'.2 e.2 with h | h | h
    · exact .inl (.inl h)
    · by_cases hlt : e.1 < e'.1
      · exact .inr (.inr ⟨h.symm, List.lt_asymm hlt⟩)
      · exact .inl (.inr ⟨h, hlt⟩)
    · exact .inr (.inl h)

instance : IsTrans _ RankLe where
  trans a b c hab hbc := by
    unfold RankLe at *
    rcases hab with hab | ⟨hab, hab'⟩
    · rcases hbc with hbc | ⟨hbc, -⟩
      · exact .inl (hbc.trans hab)
      · exact .inl (hbc ▸ hab)
    · rcases hbc with hbc | ⟨hbc, hbc'⟩
      · exact .inl (hab ▸ hbc)
      · rw [List.not_lt] at hab' hbc'
        exact .inr ⟨hbc.trans hab, List.not_lt.2 (List.le_trans hbc' hab')⟩

/-- The first member of a sorted set read backwards has the highest score. -/
theorem zrevrange_first {s : AList fun _ : Bytes => ℤ} (h : ks k = some (.zset s))
    (hx : x ∈ s) : ∃ m score, ks.zrevrange k 0 0 = .array [.str m] ∧ s.lookup m = some score ∧
      ∀ m' score', s.lookup m' = some score' → score' ≤ score := by
  have hsorted := List.pairwise_insertionSort RankLe s.entries
  have hperm := List.perm_insertionSort RankLe s.entries
  obtain ⟨e, l, hl⟩ : ∃ e l, s.entries.insertionSort RankLe = e :: l := by
    refine List.exists_cons_of_ne_nil fun hnil => ?_
    obtain ⟨a, ha⟩ := List.mem_map.1 (AList.mem_keys.1 hx)
    rw [← hperm.mem_iff, hnil] at ha
    exact List.not_mem_nil ha.1
  rw [hl] at hsorted hperm
  have hlookup : ∀ e' : Σ _ : Bytes, ℤ, s.lookup e'.1 = some e'.2 ↔ e' ∈ s.entries := fun e' =>
    AList.mem_lookup_iff
  refine ⟨e.1, e.2, ?_, (hlookup e).2 (hperm.mem_iff.1 List.mem_cons_self), fun m' score' hm' => ?_⟩
  · have hslice : slice ((e :: l).map Sigma.fst) 0 0 = [e.1] := slice_zero _ 0
    simp only [zrevrange, h, hl, hslice, List.map_singleton]
  · have hmem := hperm.mem_iff.2 ((hlookup ⟨m', score'⟩).1 hm')
    rcases List.mem_cons.1 hmem with rfl | hmem
    · exact le_rfl
    · rcases (List.pairwise_cons.1 hsorted).1 _ hmem with hlt | ⟨heq, -⟩
      · exact hlt.le
      · exact heq.le

end Keyspace

end MutexIM
