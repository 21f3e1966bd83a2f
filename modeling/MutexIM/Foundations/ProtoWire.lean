import MutexIM.Foundations.Bytes
import Mathlib.Tactic.NormNum

/-!
# The protobuf wire format

A serialised message is a sequence of fields, each a tag (field number and wire type, as a varint)
and a value. This module is the format alone; a message type is a way to turn a message into fields
(`putVarint`, `putBytes`, …) and to look fields up (`lastOf`, `occurrences`).

* `encodeVarint`, `readVarint`: base-128 numbers of at most ten bytes, read modulo `2 ^ 64`
  (`readVarint_encodeVarint`).
* `encodeFields`, `decodeFields`: sequences of fields. Groups are skipped with their contents, a zero
  tag or an unmatched end of group makes the message unreadable, as does a truncated value.
* `decodeFields_encodeFields`: reading undoes writing.
* A singular field has the value of its last occurrence, a repeated one those of all of them, in
  order; occurrences of another wire type are ignored.
-/

namespace MutexIM.ProtoWire

/-! ## Numbers -/

/-- The base-128 digits of `n`, at most `k` of them, the least significant first; all but the last
have bit `0x80` set. -/
def varintDigits : ℕ → ℕ → Bytes
  | 0, _ => []
  | k + 1, n =>
    if n < 128 then [UInt8.ofNat n] else UInt8.ofNat (n % 128 + 128) :: varintDigits k (n / 128)

/-- A number below `2 ^ 64` as a varint. -/
def encodeVarint (n : ℕ) : Bytes := varintDigits 10 n

/-- Read at most `k` base-128 digits. -/
def readDigits : ℕ → Bytes → Option (ℕ × Bytes)
  | 0, _ => none
  | _ + 1, [] => none
  | k + 1, c :: s =>
    if c.toNat < 128 then some (c.toNat, s)
    else (readDigits k s).map fun r => (c.toNat - 128 + 128 * r.1, r.2)

/-- Read a varint; what does not fit into 64 bits is dropped. -/
def readVarint (s : Bytes) : Option (ℕ × Bytes) :=
  (readDigits 10 s).map fun r => (r.1 % 2 ^ 64, r.2)

theorem varintDigits_ne_nil (k n : ℕ) : varintDigits (k + 1) n ≠ [] := by
  unfold varintDigits
  split <;> simp

theorem readDigits_varintDigits {k n : ℕ} (h : n < 128 ^ k) (hk : 0 < k) (s : Bytes) :
    readDigits k (varintDigits k n ++ s) = some (n, s) := by
  induction k generalizing n with
  | zero => omega
  | succ k ih =>
    unfold varintDigits
    split
    · next hn =>
      rw [List.singleton_append, readDigits, UInt8.toNat_ofNat', Nat.mod_eq_of_lt (by omega),
        if_pos hn]
    · next hn =>
      have hk : 0 < k := by
        rcases Nat.eq_zero_or_pos k with rfl | hk
        · simp at h; omega
        · exact hk
      have hdiv : n / 128 < 128 ^ k := by
        rw [Nat.div_lt_iff_lt_mul (by norm_num)]
        rwa [Nat.pow_succ] at h
      rw [List.cons_append, readDigits, UInt8.toNat_ofNat', Nat.mod_eq_of_lt (by omega),
        if_neg (by omega), ih hdiv hk]
      simp only [Option.map_some, Option.some.injEq, Prod.mk.injEq, and_true]
      omega

theorem readVarint_encodeVarint {n : ℕ} (h : n < 2 ^ 64) (s : Bytes) :
    readVarint (encodeVarint n ++ s) = some (n, s) := by
  have h' : n < 128 ^ 10 := h.trans (by norm_num)
  simp only [readVarint, encodeVarint, readDigits_varintDigits h' (by norm_num), Option.map_some,
    Nat.mod_eq_of_lt h]

/-- The `k` low bytes of `n`, the least significant first. -/
def littleEndian : ℕ → ℕ → Bytes
  | 0, _ => []
  | k + 1, n => UInt8.ofNat n :: littleEndian k (n / 256)

/-- Read `k` bytes, the least significant first. -/
def readLittleEndian : ℕ → Bytes → Option (ℕ × Bytes)
  | 0, s => some (0, s)
  | _ + 1, [] => none
  | k + 1, c :: s => (readLittleEndian k s).map fun r => (c.toNat + 256 * r.1, r.2)

theorem readLittleEndian_littleEndian {k n : ℕ} (h : n < 256 ^ k) (s : Bytes) :
    readLittleEndian k (littleEndian k n ++ s) = some (n, s) := by
  induction k generalizing n with
  | zero => simp at h; simp [h, readLittleEndian, littleEndian]
  | succ k ih =>
    have hdiv : n / 256 < 256 ^ k := by
      rw [Nat.div_lt_iff_lt_mul (by norm_num)]
      rwa [Nat.pow_succ] at h
    rw [littleEndian, List.cons_append, readLittleEndian, ih hdiv]
    simp only [Option.map_some, UInt8.toNat_ofNat', Option.some.injEq, Prod.mk.injEq, and_true]
    omega

/-! ## Fields -/

/-- The value of a field, one constructor per wire type. -/
inductive Value
  | varint (n : ℕ)
  | fixed64 (n : ℕ)
  | bytes (s : Bytes)
  | fixed32 (n : ℕ)
  deriving DecidableEq

namespace Value

/-- The number of the wire type. -/
def wireType : Value → ℕ
  | varint _ => 0
  | fixed64 _ => 1
  | bytes _ => 2
  | fixed32 _ => 5

/-- A number fits its wire type. -/
def InRange : Value → Prop
  | varint n => n < 2 ^ 64
  | fixed64 n => n < 2 ^ 64
  | bytes _ => True
  | fixed32 n => n < 2 ^ 32

/-- The value fits its wire type, the length of a string included. -/
def Valid : Value → Prop
  | varint n => n < 2 ^ 64
  | fixed64 n => n < 2 ^ 64
  | bytes s => s.length < 2 ^ 31
  | fixed32 n => n < 2 ^ 32

def encode : Value → Bytes
  | varint n => encodeVarint n
  | fixed64 n => littleEndian 8 n
  | bytes s => encodeVarint s.length ++ s
  | fixed32 n => littleEndian 4 n

/-- The number of a varint. -/
def varint? : Value → Option ℕ
  | varint n => some n
  | _ => none

/-- The number of a 32-bit value. -/
def fixed32? : Value → Option ℕ
  | fixed32 n => some n
  | _ => none

/-- The bytes of a length-delimited value. -/
def bytes? : Value → Option Bytes
  | bytes s => some s
  | _ => none

end Value

/-- A field of a message. -/
structure Field where
  num : ℕ
  value : Value
  deriving DecidableEq

namespace Field

/-- A field number in the range protobuf allows, with a value whose number fits. -/
structure InRange (f : Field) : Prop where
  num_pos : 0 < f.num
  num_lt : f.num < 2 ^ 29
  value : f.value.InRange

/-- A field number in the range protobuf allows, with a value that fits. -/
structure Valid (f : Field) : Prop where
  num_pos : 0 < f.num
  num_lt : f.num < 2 ^ 29
  value : f.value.Valid

/-- Field number and wire type in one number. -/
def tag (f : Field) : ℕ := f.num * 8 + f.value.wireType

def encode (f : Field) : Bytes := encodeVarint f.tag ++ f.value.encode

end Field

/-- A sequence of fields, back to back. -/
def encodeFields (fs : List Field) : Bytes := fs.flatMap Field.encode

/-- Read the value of a field of the given wire type. -/
def readValue (wireType : ℕ) (s : Bytes) : Option (Value × Bytes) :=
  match wireType with
  | 0 => (readVarint s).map fun r => (.varint r.1, r.2)
  | 1 => (readLittleEndian 8 s).map fun r => (.fixed64 r.1, r.2)
  | 2 =>
    match readVarint s with
    | none => none
    | some (n, rest) =>
      -- the length is read as an `int`
      let len := n % 2 ^ 32
      if len < 2 ^ 31 ∧ len ≤ rest.length then some (.bytes (rest.take len), rest.drop len) else none
  | 5 => (readLittleEndian 4 s).map fun r => (.fixed32 r.1, r.2)
  | _ => none

/-- Read fields to the end of the input, inside the groups `groups`; the fuel bounds their number. -/
def readFields : ℕ → List ℕ → Bytes → Option (List Field)
  | 0, _, _ => none
  | _ + 1, groups, [] => if groups = [] then some [] else none
  | k + 1, groups, s =>
    match readVarint s with
    | none => none
    | some (n, rest) =>
      let tag := n % 2 ^ 32
      if tag = 0 then none
      else if tag % 8 = 3 then
        -- a group: its fields are skipped, at most a hundred levels deep
        if groups.length < 100 then readFields k (tag / 8 :: groups) rest else none
      else if tag % 8 = 4 then
        match groups with
        | [] => none
        | g :: groups => if g = tag / 8 then readFields k groups rest else none
      else
        match readValue (tag % 8) rest with
        | none => none
        | some (v, rest) =>
          (readFields k groups rest).map fun fs => if groups = [] then ⟨tag / 8, v⟩ :: fs else fs

/-- The fields of a serialised message. -/
def decodeFields (s : Bytes) : Option (List Field) := readFields (s.length + 1) [] s

theorem readValue_encode {v : Value} (h : v.Valid) (s : Bytes) :
    readValue v.wireType (v.encode ++ s) = some (v, s) := by
  cases v with
  | varint n => simp only [readValue, Value.wireType, Value.encode, readVarint_encodeVarint h,
      Option.map_some]
  | fixed64 n => simp only [readValue, Value.wireType, Value.encode,
      readLittleEndian_littleEndian (k := 8) (h.trans_eq (by norm_num)), Option.map_some]
  | fixed32 n => simp only [readValue, Value.wireType, Value.encode,
      readLittleEndian_littleEndian (k := 4) (h.trans_eq (by norm_num)), Option.map_some]
  | bytes t =>
    have h' : t.length < 2 ^ 31 := h
    have hmod : t.length % 2 ^ 32 = t.length := Nat.mod_eq_of_lt (h'.trans (by norm_num))
    have hlen : t.length < 2 ^ 64 := h'.trans (by norm_num)
    simp only [readValue, Value.wireType, Value.encode, List.append_assoc,
      readVarint_encodeVarint hlen, hmod]
    rw [if_pos ⟨h', by simp⟩, List.take_left, List.drop_left]

theorem Field.encode_length_pos (f : Field) : 0 < f.encode.length := by
  have : 0 < (encodeVarint f.tag).length := List.length_pos_iff.2 (varintDigits_ne_nil 9 f.tag)
  rw [Field.encode, List.length_append]
  omega

theorem readFields_encode_append {f : Field} (h : f.Valid) (k : ℕ) (s : Bytes) :
    readFields (k + 1) [] (f.encode ++ s) = (readFields k [] s).map (f :: ·) := by
  have hwt : f.value.wireType < 8 ∧ f.value.wireType ≠ 3 ∧ f.value.wireType ≠ 4 := by
    cases f.value <;> simp [Value.wireType]
  have hpos := h.num_pos
  have hlt := h.num_lt
  have htag : f.tag < 2 ^ 32 := by unfold Field.tag; omega
  have hmod : f.tag % 8 = f.value.wireType := by unfold Field.tag; omega
  have hdiv : f.tag / 8 = f.num := by unfold Field.tag; omega
  obtain ⟨c, t, hct⟩ := List.exists_cons_of_length_pos
    (l := f.encode ++ s) (by have := f.encode_length_pos; rw [List.length_append]; omega)
  rw [hct, readFields, ← hct, Field.encode, List.append_assoc,
    readVarint_encodeVarint (htag.trans (by norm_num))]
  · simp only [Nat.mod_eq_of_lt htag, hmod, hdiv, hwt.2.1, hwt.2.2, if_false,
      readValue_encode h.value, if_true]
    rw [if_neg (by unfold Field.tag; omega)]
  · simp

theorem length_encode_le {f : Field} {fs : List Field} (h : f ∈ fs) :
    f.encode.length ≤ (encodeFields fs).length := by
  induction fs with
  | nil => cases h
  | cons g fs ih =>
    have hcons : encodeFields (g :: fs) = g.encode ++ encodeFields fs := rfl
    rw [hcons, List.length_append]
    rcases List.mem_cons.1 h with rfl | h
    · omega
    · have := ih h
      omega

/-- In a message of less than `2 ^ 31` bytes every string fits. -/
theorem valid_of_inRange {fs : List Field} (hlen : (encodeFields fs).length < 2 ^ 31)
    (h : ∀ f ∈ fs, f.InRange) : ∀ f ∈ fs, f.Valid := by
  intro f hf
  have hrange := h f hf
  refine ⟨hrange.num_pos, hrange.num_lt, ?_⟩
  have hle := (length_encode_le hf).trans_lt hlen
  have hvalue := hrange.value
  rw [Field.encode, List.length_append] at hle
  cases hv : f.value with
  | bytes s =>
    rw [hv, Value.encode, List.length_append] at hle
    change s.length < 2 ^ 31
    omega
  | varint n => rw [hv] at hvalue; exact hvalue
  | fixed64 n => rw [hv] at hvalue; exact hvalue
  | fixed32 n => rw [hv] at hvalue; exact hvalue

/-- **Reading undoes writing.** -/
theorem decodeFields_encodeFields {fs : List Field} (h : ∀ f ∈ fs, f.Valid) :
    decodeFields (encodeFields fs) = some fs := by
  have key : ∀ (fs : List Field) (k : ℕ), (∀ f ∈ fs, f.Valid) → (encodeFields fs).length < k →
      readFields k [] (encodeFields fs) = some fs := by
    intro fs
    induction fs with
    | nil =>
      intro k _ hk
      obtain ⟨k, rfl⟩ : ∃ l, k = l + 1 := ⟨k - 1, by omega⟩
      simp [encodeFields, readFields]
    | cons f fs ih =>
      intro k hfs hk
      obtain ⟨k, rfl⟩ : ∃ l, k = l + 1 := ⟨k - 1, by omega⟩
      have hpos := f.encode_length_pos
      simp only [encodeFields, List.flatMap_cons, List.length_append] at hk ⊢
      have := ih k (fun g hg => hfs g (by simp [hg])) (by simp only [encodeFields]; omega)
      rw [encodeFields] at this
      rw [readFields_encode_append (hfs f (by simp)), this]
      rfl
  exact key fs _ h (by omega)

/-! ## Writing and looking up the fields of a message -/

/-- A singular numeric field; zero is not written. -/
def putVarint (num n : ℕ) : List Field := if n = 0 then [] else [⟨num, .varint n⟩]

/-- A singular 32-bit field; zero is not written. -/
def putFixed32 (num n : ℕ) : List Field := if n = 0 then [] else [⟨num, .fixed32 n⟩]

/-- A singular string field; the empty string is not written. -/
def putBytes (num : ℕ) (s : Bytes) : List Field := if s = [] then [] else [⟨num, .bytes s⟩]

/-- A repeated string field. -/
def putRepeated (num : ℕ) (ss : List Bytes) : List Field := ss.map fun s => ⟨num, .bytes s⟩

variable {β : Type*}

/-- The values of a field, in order; occurrences of another wire type are ignored. -/
def occurrences (num : ℕ) (get? : Value → Option β) (fs : List Field) : List β :=
  fs.filterMap fun f => if f.num = num then get? f.value else none

/-- The last value of a field, or its default. -/
def lastOf (num : ℕ) (get? : Value → Option β) (default : β) (fs : List Field) : β :=
  ((occurrences num get? fs).getLast?).getD default

section Lookup

variable (num : ℕ) (get? : Value → Option β)

@[simp] theorem occurrences_append (fs gs : List Field) :
    occurrences num get? (fs ++ gs) = occurrences num get? fs ++ occurrences num get? gs :=
  List.filterMap_append

theorem occurrences_eq_nil {fs : List Field} (h : ∀ f ∈ fs, f.num ≠ num) :
    occurrences num get? fs = [] :=
  List.filterMap_eq_nil_iff.2 fun f hf => if_neg (h f hf)

variable {num} {num' : ℕ}

theorem num_of_mem_putVarint {n : ℕ} {f : Field} (h : f ∈ putVarint num n) : f.num = num := by
  unfold putVarint at h
  split at h <;> simp_all

theorem num_of_mem_putFixed32 {n : ℕ} {f : Field} (h : f ∈ putFixed32 num n) : f.num = num := by
  unfold putFixed32 at h
  split at h <;> simp_all

theorem num_of_mem_putBytes {s : Bytes} {f : Field} (h : f ∈ putBytes num s) : f.num = num := by
  unfold putBytes at h
  split at h <;> simp_all

theorem num_of_mem_putRepeated {ss : List Bytes} {f : Field} (h : f ∈ putRepeated num ss) :
    f.num = num := by
  obtain ⟨s, -, rfl⟩ := List.mem_map.1 h
  rfl

@[simp] theorem occurrences_putVarint_ne (h : num' ≠ num) (n : ℕ) :
    occurrences num get? (putVarint num' n) = [] :=
  occurrences_eq_nil num get? fun _ hf => by rwa [num_of_mem_putVarint hf]

@[simp] theorem occurrences_putFixed32_ne (h : num' ≠ num) (n : ℕ) :
    occurrences num get? (putFixed32 num' n) = [] :=
  occurrences_eq_nil num get? fun _ hf => by rwa [num_of_mem_putFixed32 hf]

@[simp] theorem occurrences_putBytes_ne (h : num' ≠ num) (s : Bytes) :
    occurrences num get? (putBytes num' s) = [] :=
  occurrences_eq_nil num get? fun _ hf => by rwa [num_of_mem_putBytes hf]

@[simp] theorem occurrences_putRepeated_ne (h : num' ≠ num) (ss : List Bytes) :
    occurrences num get? (putRepeated num' ss) = [] :=
  occurrences_eq_nil num get? fun _ hf => by rwa [num_of_mem_putRepeated hf]

@[simp] theorem occurrences_putRepeated (num : ℕ) (ss : List Bytes) :
    occurrences num Value.bytes? (putRepeated num ss) = ss := by
  induction ss with
  | nil => rfl
  | cons s ss ih =>
    rw [occurrences, putRepeated, List.map_cons, List.filterMap_cons, if_pos rfl]
    exact congrArg (s :: ·) ih

@[simp] theorem getLast?_occurrences_putVarint (num n : ℕ) :
    ((occurrences num Value.varint? (putVarint num n)).getLast?).getD 0 = n := by
  unfold putVarint
  split <;> simp_all [occurrences, Value.varint?]

@[simp] theorem getLast?_occurrences_putFixed32 (num n : ℕ) :
    ((occurrences num Value.fixed32? (putFixed32 num n)).getLast?).getD 0 = n := by
  unfold putFixed32
  split <;> simp_all [occurrences, Value.fixed32?]

@[simp] theorem getLast?_occurrences_putBytes (num : ℕ) (s : Bytes) :
    ((occurrences num Value.bytes? (putBytes num s)).getLast?).getD [] = s := by
  unfold putBytes
  split <;> simp_all [occurrences, Value.bytes?]

end Lookup

section InRange

variable {num : ℕ} {f : Field} (hnum : 0 < num ∧ num < 2 ^ 29)
include hnum

theorem inRange_of_mem_putVarint {n : ℕ} (hn : n < 2 ^ 64) (h : f ∈ putVarint num n) :
    f.InRange := by
  unfold putVarint at h
  split at h
  · cases h
  · obtain rfl := List.mem_singleton.1 h
    exact ⟨hnum.1, hnum.2, hn⟩

theorem inRange_of_mem_putFixed32 {n : ℕ} (hn : n < 2 ^ 32) (h : f ∈ putFixed32 num n) :
    f.InRange := by
  unfold putFixed32 at h
  split at h
  · cases h
  · obtain rfl := List.mem_singleton.1 h
    exact ⟨hnum.1, hnum.2, hn⟩

theorem inRange_of_mem_putBytes {s : Bytes} (h : f ∈ putBytes num s) : f.InRange := by
  unfold putBytes at h
  split at h
  · cases h
  · obtain rfl := List.mem_singleton.1 h
    exact ⟨hnum.1, hnum.2, trivial⟩

theorem inRange_of_mem_putRepeated {ss : List Bytes} (h : f ∈ putRepeated num ss) :
    f.InRange := by
  obtain ⟨s, -, rfl⟩ := List.mem_map.1 h
  exact ⟨hnum.1, hnum.2, trivial⟩

end InRange

end MutexIM.ProtoWire
