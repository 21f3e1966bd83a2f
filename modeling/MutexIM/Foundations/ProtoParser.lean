import MutexIM.Foundations.ProtoWire
import Mathlib.Data.List.Nodup

/-!
# Generated parsers

The parser that is generated for a message type reads tag after tag and switches on the field number. After
a field it first looks whether the tag of the next field follows, and then goes there directly; after the
last field it looks whether the input is at its end. Fields that the type does not have are skipped. An
embedded message ends where the message around it ends, if its length says more.

* `FieldDescriptor` is what is generated for a field, `mergePartial` the parser, with a label for each
  place it can go to.
* `readAll` reads all fields, in turns (`Turns`); without embedded messages this is `decodeFields`
  (`decodeFields_eq`).
* `mergePartial_eq`: the parser stores what reading all fields gives, without the fields it does not have.
-/

namespace MutexIM.ProtoWire

/-! ## One field -/

/-- Read an embedded message. `PushLimit` keeps to the end of the message around it, and takes a length that
is no `int` for no limit. -/
def readMessage (s : Bytes) : Option (Value × Bytes) :=
  (readVarint s).map fun (n, rest) =>
    let len := if n % 2 ^ 32 < 2 ^ 31 then n % 2 ^ 32 else rest.length
    (.bytes (rest.take len), rest.drop len)

/-- Read what belongs to a tag. The fields with the numbers `embeds` are embedded messages. -/
def readTagged (embeds : List ℕ) (tag : ℕ) (s : Bytes) : Option (Value × Bytes) :=
  if tag % 8 = 2 ∧ tag / 8 ∈ embeds then readMessage s else readValue (tag % 8) s

/-- One tag and what belongs to it, inside the groups `groups`: a field of the message, if it is one, the
groups it is inside afterwards, and the rest. -/
def turn (limit : ℕ) (embeds groups : List ℕ) (s : Bytes) : Option (Option Field × List ℕ × Bytes) :=
  match readVarint s with
  | none => none
  | some (n, rest) =>
    let tag := n % 2 ^ 32
    if tag = 0 then none
    else if tag % 8 = 3 then
      if groups.length < limit then some (none, tag / 8 :: groups, rest) else none
    else if tag % 8 = 4 then
      match groups with
      | [] => none
      | g :: groups => if g = tag / 8 then some (none, groups, rest) else none
    else
      match readTagged (if groups = [] then embeds else []) tag rest with
      | none => none
      | some (v, rest) => some (if groups = [] then some ⟨tag / 8, v⟩ else none, groups, rest)

/-- Read fields to the end of the input; groups may be `limit` levels deep. -/
def readFieldsUpTo (limit : ℕ) (embeds : List ℕ) : ℕ → List ℕ → Bytes → Option (List Field)
  | 0, _, _ => none
  | k + 1, groups, s =>
    if s = [] then if groups = [] then some [] else none
    else (turn limit embeds groups s).bind fun (f, groups, rest) =>
      (readFieldsUpTo limit embeds k groups rest).map (f.toList ++ ·)

/-- Read to the end of the groups; what is behind them. -/
def skipGroups (limit : ℕ) : ℕ → List ℕ → Bytes → Option Bytes
  | 0, _, _ => none
  | k + 1, groups, s =>
    if groups = [] then some s
    else if s = [] then none
    else (turn limit [] groups s).bind fun (_, groups, rest) => skipGroups limit k groups rest

/-- `SkipField`: what is behind the value of a field with the tag. -/
def skipField (limit tag : ℕ) (s : Bytes) : Option Bytes :=
  if tag % 8 = 3 then if 0 < limit then skipGroups limit (s.length + 1) [tag / 8] s else none
  else (readValue (tag % 8) s).map Prod.snd

/-- All fields of the input. -/
def readAll (limit : ℕ) (embeds : List ℕ) (s : Bytes) : Option (List Field) :=
  readFieldsUpTo limit embeds (s.length + 1) [] s

section Length

variable {n : ℕ} {s rest : Bytes}

theorem length_readDigits {k : ℕ} (h : readDigits k s = some (n, rest)) : rest.length < s.length := by
  induction k generalizing s n with
  | zero => cases h
  | succ k ih =>
    cases s with
    | nil => cases h
    | cons c s =>
      rw [readDigits] at h
      split at h
      · cases h
        exact Nat.lt_succ_self _
      · obtain ⟨r, hr, h⟩ := Option.map_eq_some_iff.1 h
        cases h
        exact (ih hr).trans (Nat.lt_succ_self _)

theorem length_readVarint (h : readVarint s = some (n, rest)) : rest.length < s.length := by
  obtain ⟨r, hr, h⟩ := Option.map_eq_some_iff.1 h
  cases h
  exact length_readDigits hr

theorem length_readLittleEndian {k : ℕ} (h : readLittleEndian k s = some (n, rest)) :
    rest.length + k = s.length := by
  induction k generalizing s n with
  | zero =>
    cases h
    rfl
  | succ k ih =>
    cases s with
    | nil => cases h
    | cons c s =>
      obtain ⟨r, hr, h⟩ := Option.map_eq_some_iff.1 h
      cases h
      have := ih hr
      rw [List.length_cons]
      omega

/-- A value is of the wire type it was read with, and takes at least a byte. -/
theorem wireType_readValue {w : ℕ} {v : Value} (h : readValue w s = some (v, rest)) :
    v.wireType = w ∧ rest.length < s.length := by
  unfold readValue at h
  split at h
  · obtain ⟨r, hr, h⟩ := Option.map_eq_some_iff.1 h
    cases h
    exact ⟨rfl, length_readVarint hr⟩
  · obtain ⟨r, hr, h⟩ := Option.map_eq_some_iff.1 h
    cases h
    exact ⟨rfl, by have := length_readLittleEndian hr; omega⟩
  · split at h
    · cases h
    · next hr =>
      dsimp only at h
      split at h
      · cases h
        have := length_readVarint hr
        exact ⟨rfl, by rw [List.length_drop]; omega⟩
      · cases h
  · obtain ⟨r, hr, h⟩ := Option.map_eq_some_iff.1 h
    cases h
    exact ⟨rfl, by have := length_readLittleEndian hr; omega⟩
  · cases h

theorem length_readMessage {v : Value} (h : readMessage s = some (v, rest)) : rest.length < s.length := by
  obtain ⟨r, hr, h⟩ := Option.map_eq_some_iff.1 h
  cases h
  have hlt := length_readVarint hr
  rw [List.length_drop]
  omega

@[simp] theorem readTagged_nil (t : ℕ) (s : Bytes) : readTagged [] t s = readValue (t % 8) s :=
  if_neg fun h => List.not_mem_nil h.2

/-- So is what is read with a tag. -/
theorem wireType_readTagged {embeds : List ℕ} {t : ℕ} {v : Value}
    (h : readTagged embeds t s = some (v, rest)) : v.wireType = t % 8 ∧ rest.length < s.length := by
  unfold readTagged at h
  split at h
  · next ht =>
    refine ⟨?_, length_readMessage h⟩
    obtain ⟨r, -, h⟩ := Option.map_eq_some_iff.1 h
    cases h
    exact ht.1.symm
  · exact wireType_readValue h

/-- What a turn does: a group begins, or the innermost one ends, or a value is read. -/
inductive Turns (limit : ℕ) (embeds : List ℕ) :
    List ℕ → Bytes → Option Field → List ℕ → Bytes → Prop
  | startGroup {groups : List ℕ} {s body : Bytes} {n : ℕ} (hr : readVarint s = some (n, body))
      (h3 : n % 2 ^ 32 % 8 = 3) (hlt : groups.length < limit) :
      Turns limit embeds groups s none (n % 2 ^ 32 / 8 :: groups) body
  | endGroup {groups : List ℕ} {s body : Bytes} {n : ℕ} (hr : readVarint s = some (n, body))
      (h4 : n % 2 ^ 32 % 8 = 4) : Turns limit embeds (n % 2 ^ 32 / 8 :: groups) s none groups body
  | value {groups : List ℕ} {s body rest : Bytes} {n : ℕ} {v : Value}
      (hr : readVarint s = some (n, body)) (h0 : n % 2 ^ 32 ≠ 0) (h3 : n % 2 ^ 32 % 8 ≠ 3)
      (h4 : n % 2 ^ 32 % 8 ≠ 4)
      (hv : readTagged (if groups = [] then embeds else []) (n % 2 ^ 32) body = some (v, rest)) :
      Turns limit embeds groups s (if groups = [] then some ⟨n % 2 ^ 32 / 8, v⟩ else none) groups rest

variable {limit : ℕ} {embeds groups groups' : List ℕ} {f : Option Field}

theorem turn_eq_some_iff :
    turn limit embeds groups s = some (f, groups', rest) ↔ Turns limit embeds groups s f groups' rest := by
  constructor
  · intro h
    unfold turn at h
    split at h
    · cases h
    next n body hr =>
    dsimp only at h
    split at h
    · cases h
    next h0 =>
    split at h
    · next h3 =>
      split at h
      · next hlt =>
        cases h
        exact .startGroup hr h3 hlt
      · cases h
    next h3 =>
    split at h
    · next h4 =>
      split at h
      · cases h
      split at h
      · next hg =>
        cases h
        rw [hg]
        exact .endGroup hr h4
      · cases h
    next h4 =>
    split at h
    · cases h
    · next hv =>
      cases h
      exact .value hr h0 h3 h4 hv
  · intro h
    unfold turn
    cases h with
    | startGroup hr h3 hlt =>
      rw [hr]
      dsimp only
      rw [if_neg (by omega), if_pos h3, if_pos hlt]
    | endGroup hr h4 =>
      rw [hr]
      dsimp only
      rw [if_neg (by omega), if_neg (by omega), if_pos h4, if_pos rfl]
    | value hr h0 h3 h4 hv =>
      rw [hr]
      dsimp only
      rw [if_neg h0, if_neg h3, if_neg h4, hv]

theorem length_turn (h : turn limit embeds groups s = some (f, groups', rest)) :
    rest.length < s.length := by
  cases turn_eq_some_iff.1 h with
  | startGroup hr | endGroup hr => exact length_readVarint hr
  | value hr _ _ _ hv => exact (wireType_readTagged hv).2.trans (length_readVarint hr)

/-- Inside a group nothing is embedded. -/
theorem turn_cons_eq (limit : ℕ) (embeds : List ℕ) (g : ℕ) (groups : List ℕ) (s : Bytes) :
    turn limit embeds (g :: groups) s = turn limit [] (g :: groups) s := rfl

/-- Inside a group no field belongs to the message. -/
theorem turn_cons {g : ℕ} (h : turn limit embeds (g :: groups) s = some (f, groups', rest)) : f = none := by
  cases turn_eq_some_iff.1 h with
  | startGroup | endGroup => rfl
  | value => exact if_neg (List.cons_ne_nil g groups)

end Length

/-! ## Reading on -/

@[simp] theorem map_toList_none (o : Option (List Field)) :
    o.map ((none : Option Field).toList ++ ·) = o := by
  cases o <;> rfl

/-- `readFields` takes turns. -/
theorem readFields_eq (k : ℕ) (groups : List ℕ) (s : Bytes) :
    readFields k groups s = readFieldsUpTo 100 [] k groups s := by
  induction k generalizing groups s with
  | zero => rfl
  | succ k ih =>
    cases s with
    | nil => rw [readFields, readFieldsUpTo, if_pos rfl]
    | cons c s =>
      rw [readFields, readFieldsUpTo, if_neg (List.cons_ne_nil c s), turn]
      · cases hr : readVarint (c :: s) with
        | none => rfl
        | some r =>
          obtain ⟨n, rest⟩ := r
          dsimp only
          split
          · rfl
          split
          · split
            · rw [Option.bind_some, ih, map_toList_none]
            · rfl
          split
          · cases groups with
            | nil => rfl
            | cons g groups =>
              dsimp only
              split
              · rw [Option.bind_some, ih, map_toList_none]
              · rfl
          · rw [ite_self, readTagged_nil]
            cases hv : readValue (n % 2 ^ 32 % 8) rest with
            | none => rfl
            | some v =>
              dsimp only
              rw [Option.bind_some, ih]
              dsimp only
              split <;> rfl
      · exact List.cons_ne_nil c s

theorem decodeFields_eq (s : Bytes) : decodeFields s = readAll 100 [] s := readFields_eq _ _ _

variable {limit : ℕ} {embeds : List ℕ}

/-- More fuel than bytes is enough. -/
theorem readFieldsUpTo_fuel {k l : ℕ} {s : Bytes} (groups : List ℕ) (hk : s.length < k)
    (hl : s.length < l) :
    readFieldsUpTo limit embeds k groups s = readFieldsUpTo limit embeds l groups s := by
  induction k generalizing l groups s with
  | zero => omega
  | succ k ih =>
    obtain ⟨l, rfl⟩ : ∃ m, l = m + 1 := ⟨l - 1, by omega⟩
    rw [readFieldsUpTo, readFieldsUpTo]
    split
    · rfl
    · refine Option.bind_congr fun ⟨f, groups', rest⟩ h => ?_
      have hlt := length_turn h
      dsimp only
      rw [ih groups' (by omega : rest.length < k) (by omega : rest.length < l)]

theorem readFieldsUpTo_eq {k : ℕ} {s : Bytes} (hk : s.length < k) :
    readFieldsUpTo limit embeds k [] s = readAll limit embeds s :=
  readFieldsUpTo_fuel [] hk (Nat.lt_succ_self _)

/-- Inside groups: to their end, and on from there. -/
theorem readFieldsUpTo_groups {k : ℕ} {s : Bytes} (groups : List ℕ) (hk : s.length < k) :
    readFieldsUpTo limit embeds k groups s = (skipGroups limit k groups s).bind (readAll limit embeds) := by
  induction k generalizing groups s with
  | zero => omega
  | succ k ih =>
    rw [skipGroups]
    cases groups with
    | nil => rw [if_pos rfl, Option.bind_some, readFieldsUpTo_eq hk]
    | cons g groups =>
      rw [readFieldsUpTo, if_neg (List.cons_ne_nil g groups)]
      split
      · rfl
      · rw [if_neg (List.cons_ne_nil g groups), Option.bind_assoc, turn_cons_eq]
        refine Option.bind_congr fun ⟨f, groups', rest⟩ h => ?_
        have hlt := length_turn h
        obtain rfl := turn_cons h
        dsimp only
        rw [map_toList_none, ih groups' (by omega : rest.length < k)]

theorem readAll_of_readVarint_eq_none {s : Bytes} (hs : s ≠ []) (hr : readVarint s = none) :
    readAll limit embeds s = none := by
  rw [readAll, readFieldsUpTo, if_neg hs, turn, hr]
  rfl

theorem length_skipGroups {k : ℕ} {groups : List ℕ} {s rest : Bytes}
    (h : skipGroups limit k groups s = some rest) : rest.length ≤ s.length := by
  induction k generalizing groups s with
  | zero => cases h
  | succ k ih =>
    rw [skipGroups] at h
    split at h
    · cases h
      exact Nat.le_refl _
    split at h
    · cases h
    · obtain ⟨⟨f, groups', rest'⟩, hturn, h⟩ := Option.bind_eq_some_iff.1 h
      exact (ih h).trans (length_turn hturn).le

theorem length_skipField {t : ℕ} {s rest : Bytes} (h : skipField limit t s = some rest) :
    rest.length ≤ s.length := by
  unfold skipField at h
  split at h
  · split at h
    · exact length_skipGroups h
    · cases h
  · obtain ⟨⟨v, rest'⟩, hv, h⟩ := Option.map_eq_some_iff.1 h
    cases h
    exact (wireType_readValue hv).2.le

/-- What a tag says that is read in front of `rest`. -/
theorem readAll_of_tag {n : ℕ} {s rest : Bytes} (hr : readVarint s = some (n, rest)) :
    readAll limit embeds s =
      let tag := n % 2 ^ 32
      if tag = 0 ∨ tag % 8 = 4 then none
      else if tag % 8 = 3 then (skipField limit tag rest).bind (readAll limit embeds)
      else (readTagged embeds tag rest).bind fun (v, rest) =>
        (readAll limit embeds rest).map (⟨tag / 8, v⟩ :: ·) := by
  have hlt := length_readVarint hr
  have hs : s ≠ [] := by
    rintro rfl
    exact Nat.not_lt_zero _ hlt
  rw [readAll, readFieldsUpTo, if_neg hs, turn, hr]
  dsimp only
  by_cases h0 : n % 2 ^ 32 = 0
  · rw [if_pos h0, if_pos (Or.inl h0)]
    rfl
  by_cases h3 : n % 2 ^ 32 % 8 = 3
  · have hne : ¬(n % 2 ^ 32 = 0 ∨ n % 2 ^ 32 % 8 = 4) := by omega
    rw [if_neg h0, if_pos h3, if_neg hne, if_pos h3, skipField, if_pos h3, List.length_nil]
    split
    · rw [Option.bind_some, ← readFieldsUpTo_groups _ (Nat.lt_succ_self _),
        readFieldsUpTo_fuel (k := s.length) (l := rest.length + 1) _ hlt (Nat.lt_succ_self _)]
      exact map_toList_none _
    · rfl
  by_cases h4 : n % 2 ^ 32 % 8 = 4
  · rw [if_neg h0, if_neg h3, if_pos h4, if_pos (Or.inr h4)]
    rfl
  have hne : ¬(n % 2 ^ 32 = 0 ∨ n % 2 ^ 32 % 8 = 4) := by omega
  rw [if_neg h0, if_neg h3, if_neg h4, if_neg hne, if_neg h3]
  rw [if_pos rfl]
  cases hv : readTagged embeds (n % 2 ^ 32) rest with
  | none => rfl
  | some r =>
    have := (wireType_readTagged hv).2
    rw [Option.bind_some]
    dsimp only
    rw [Option.bind_some, if_pos rfl, readFieldsUpTo_eq (by omega)]
    rfl

/-! ## The parser -/

/-- What is generated for a field: its number and wire type, whether it is repeated, whether it is a message
itself, and which values are accepted then. -/
structure FieldDescriptor where
  num : ℕ
  wireType : ℕ
  repeated : Bool := false
  embedded : Bool := false
  accepts : Value → Bool := fun _ => true

namespace FieldDescriptor

variable (d : FieldDescriptor)

def tag : ℕ := d.num * 8 + d.wireType

/-- Read the value of the field. -/
def read (s : Bytes) : Option (Value × Bytes) :=
  if d.embedded then readMessage s else readValue d.wireType s

/-- The field has the number and the wire type. -/
def Matches (f : Field) : Prop := d.num = f.num ∧ d.wireType = f.value.wireType

instance (f : Field) : Decidable (d.Matches f) := inferInstanceAs (Decidable (_ ∧ _))

variable {d} in
theorem length_read {v : Value} {s rest : Bytes} (h : d.read s = some (v, rest)) :
    rest.length < s.length := by
  unfold read at h
  split at h
  · exact length_readMessage h
  · exact (wireType_readValue h).2

end FieldDescriptor

/-- The numbers of the fields that are messages. -/
def embeddedIn (D : List FieldDescriptor) : List ℕ :=
  (D.filter FieldDescriptor.embedded).map FieldDescriptor.num

/-- `ExpectTag`, for a tag of one byte. -/
def expectTag (tag : ℕ) : Bytes → Option Bytes
  | c :: s => if c.toNat = tag then some s else none
  | [] => none

/-- The places in the parser: the beginning of the loop, and the `parse_` labels. -/
inductive Label
  | loop
  | parse (i : ℕ)

/-- Where the parser goes after a field, with what is left to read; `none` where it returns. -/
def afterField (D : List FieldDescriptor) (i : ℕ) (d : FieldDescriptor) (s : Bytes) :
    Option (Label × Bytes) :=
  match if d.repeated then expectTag d.tag s else none with
  | some rest => some (.parse i, rest)
  | none =>
    match D[i + 1]? with
    | some next =>
      match expectTag next.tag s with
      | some rest => some (.parse (i + 1), rest)
      | none => some (.loop, s)
    -- `ExpectAtEnd`
    | none => if s = [] then none else some (.loop, s)

/-- `MergePartialFromCodedStream` of a type with the fields `D`, up to the end of the message: the fields it
stores, in order. -/
def mergePartial (limit : ℕ) (D : List FieldDescriptor) : ℕ → Label → Bytes → Option (List Field)
  | 0, _, _ => none
  | k + 1, .loop, s =>
    if s = [] then some []
    else match readVarint s with
      | none => none
      | some (n, rest) =>
        let tag := n % 2 ^ 32
        match if tag ≤ 127 then D.findIdx? fun d => d.tag = tag else none with
        | some i => mergePartial limit D k (.parse i) rest
        | none =>
          -- `handle_unusual`: the parser returns, but it is not at the end of the message
          if tag = 0 ∨ tag % 8 = 4 then none
          else (skipField limit tag rest).bind fun rest => mergePartial limit D k .loop rest
  | k + 1, .parse i, s =>
    match D[i]? with
    | none => none
    | some d =>
      match d.read s with
      | none => none
      | some (v, rest) =>
        if d.accepts v then
          match afterField D i d rest with
          | none => some [⟨d.num, v⟩]
          | some (label, rest) => (mergePartial limit D k label rest).map (⟨d.num, v⟩ :: ·)
        else none

/-- What a type with the fields `D` stores of some fields. -/
def stored (D : List FieldDescriptor) : List Field → Option (List Field)
  | [] => some []
  | f :: fs =>
    match D.find? fun d => d.Matches f with
    | some d => if d.accepts f.value then (stored D fs).map (f :: ·) else none
    | none => stored D fs

/-- Distinct fields, with tags of one byte and a wire type that has values. -/
structure WellFormed (D : List FieldDescriptor) : Prop where
  num_inj : (D.map FieldDescriptor.num).Nodup
  num_pos : ∀ d ∈ D, 0 < d.num
  tag_le : ∀ d ∈ D, d.tag ≤ 127
  wireType : ∀ d ∈ D, d.wireType ∈ [0, 1, 2, 5]
  embedded : ∀ d ∈ D, d.embedded = true → d.wireType = 2

instance (D : List FieldDescriptor) : Decidable (WellFormed D) :=
  decidable_of_iff ((D.map FieldDescriptor.num).Nodup ∧ (∀ d ∈ D, 0 < d.num) ∧
    (∀ d ∈ D, d.tag ≤ 127) ∧ (∀ d ∈ D, d.wireType ∈ [0, 1, 2, 5]) ∧
      ∀ d ∈ D, d.embedded = true → d.wireType = 2)
    ⟨fun h => ⟨h.1, h.2.1, h.2.2.1, h.2.2.2.1, h.2.2.2.2⟩, fun h => ⟨h.1, h.2, h.3, h.4, h.5⟩⟩

/-! ## The parser against reading all fields -/

namespace WellFormed

variable {D : List FieldDescriptor} (hD : WellFormed D) {d : FieldDescriptor} {f : Field}
include hD

/-- The tag alone says whether a field is the descriptor's. -/
theorem tag_iff (hd : d ∈ D) {t : ℕ} (hv : f.value.wireType = t % 8) (hnum : f.num = t / 8) :
    d.Matches f ↔ d.tag = t := by
  have hw : d.wireType < 8 := by
    have := hD.wireType d hd
    simp only [List.mem_cons, List.not_mem_nil, or_false] at this
    omega
  simp only [FieldDescriptor.Matches, FieldDescriptor.tag, hv, hnum]
  omega

theorem find_matches (hd : d ∈ D) (h : d.Matches f) : D.find? (fun d => d.Matches f) = some d := by
  obtain ⟨e, he⟩ : ∃ e, D.find? (fun d => d.Matches f) = some e :=
    Option.isSome_iff_exists.1 (List.find?_isSome.2 ⟨d, hd, decide_eq_true h⟩)
  have hmatch : d.Matches f ∧ e.Matches f := ⟨h, by simpa using List.find?_some he⟩
  have hnum : e.num = d.num := hmatch.2.1.trans h.1.symm
  rw [he, List.inj_on_of_nodup_map hD.num_inj (List.mem_of_find?_eq_some he) hd hnum]

theorem mem_embeddedIn (hd : d ∈ D) : d.num ∈ embeddedIn D ↔ d.embedded = true := by
  constructor
  · intro h
    obtain ⟨e, he, hnum⟩ := List.mem_map.1 h
    obtain ⟨he, hemb⟩ := List.mem_filter.1 he
    rwa [← List.inj_on_of_nodup_map hD.num_inj he hd hnum]
  · intro h
    exact List.mem_map_of_mem (List.mem_filter.2 ⟨hd, h⟩)

/-- With the tag of a field, its value is read. -/
theorem readTagged_of_tag (hd : d ∈ D) {t : ℕ} (hmod : t % 8 = d.wireType) (hdiv : t / 8 = d.num)
    (s : Bytes) : readTagged (embeddedIn D) t s = d.read s := by
  unfold readTagged FieldDescriptor.read
  rw [hmod, hdiv]
  by_cases hemb : d.embedded = true
  · rw [if_pos ⟨hD.embedded d hd hemb, (hD.mem_embeddedIn hd).2 hemb⟩, if_pos hemb]
  · rw [if_neg fun h => hemb ((hD.mem_embeddedIn hd).1 h.2), if_neg hemb]

/-- With another tag nothing is embedded. -/
theorem readTagged_of_not_tag {t : ℕ} (htag : ∀ d ∈ D, d.tag ≠ t) (s : Bytes) :
    readTagged (embeddedIn D) t s = readValue (t % 8) s := by
  refine if_neg fun h => ?_
  obtain ⟨e, he, hnum⟩ := List.mem_map.1 h.2
  obtain ⟨he, hemb⟩ := List.mem_filter.1 he
  refine htag e he ?_
  rw [FieldDescriptor.tag, hnum, hD.embedded e he hemb]
  omega

/-- Behind the tag of a field it has, the parser stores the value. -/
theorem stored_of_tag (hd : d ∈ D) {n : ℕ} {s rest : Bytes} (hr : readVarint s = some (n, rest))
    (htag : n % 2 ^ 32 = d.tag) :
    (readAll limit (embeddedIn D) s).bind (stored D) = (d.read rest).bind fun (v, rest) =>
      if d.accepts v then ((readAll limit (embeddedIn D) rest).bind (stored D)).map (⟨d.num, v⟩ :: ·)
      else none := by
  have hw := hD.wireType d hd
  simp only [List.mem_cons, List.not_mem_nil, or_false] at hw
  have hpos := hD.num_pos d hd
  have hmod : n % 2 ^ 32 % 8 = d.wireType := by
    rw [htag, FieldDescriptor.tag]
    omega
  have hdiv : n % 2 ^ 32 / 8 = d.num := by
    rw [htag, FieldDescriptor.tag]
    omega
  rw [readAll_of_tag hr]
  dsimp only
  rw [if_neg (by omega), if_neg (by omega), Option.bind_assoc, hdiv]
  have hread := hD.readTagged_of_tag hd hmod hdiv rest
  rw [hread]
  refine Option.bind_congr fun ⟨v, rest'⟩ hv => ?_
  have hw := (wireType_readTagged (hread.trans hv)).1
  have hfind := hD.find_matches (f := ⟨d.num, v⟩) hd ⟨rfl, hmod.symm.trans hw.symm⟩
  dsimp only
  cases readAll limit (embeddedIn D) rest' with
  | none => split <;> rfl
  | some fs =>
    rw [Option.map_some, Option.bind_some, stored, hfind]
    rfl

/-- Behind the tag of a field it does not have, it stores nothing. -/
theorem stored_of_not_tag {n : ℕ} {s rest : Bytes} (hr : readVarint s = some (n, rest))
    (htag : ∀ d ∈ D, d.tag ≠ n % 2 ^ 32) :
    (readAll limit (embeddedIn D) s).bind (stored D) =
      if n % 2 ^ 32 = 0 ∨ n % 2 ^ 32 % 8 = 4 then none
      else (skipField limit (n % 2 ^ 32) rest).bind fun rest =>
        (readAll limit (embeddedIn D) rest).bind (stored D) := by
  rw [readAll_of_tag hr]
  dsimp only
  split
  · rfl
  split
  · rw [Option.bind_assoc]
  · next h3 =>
    rw [skipField, if_neg h3, hD.readTagged_of_not_tag htag, Option.bind_assoc, Option.bind_map]
    refine Option.bind_congr fun ⟨v, rest'⟩ hv => ?_
    have hfind : D.find? (fun d => d.Matches ⟨n % 2 ^ 32 / 8, v⟩) = none := by
      refine List.find?_eq_none.2 fun d hd h => htag d hd ?_
      exact (hD.tag_iff hd (wireType_readValue hv).1 rfl).1 (of_decide_eq_true h)
    dsimp only [Function.comp]
    cases readAll limit (embeddedIn D) rest' with
    | none => rfl
    | some fs => rw [Option.map_some, Option.bind_some, stored, hfind, Option.bind_some]

end WellFormed

theorem expectTag_eq_some {t : ℕ} {s rest : Bytes} (ht : t ≤ 127) (h : expectTag t s = some rest) :
    readVarint s = some (t, rest) := by
  cases s with
  | nil => cases h
  | cons c s =>
    rw [expectTag] at h
    split at h
    · next hc =>
      cases h
      rw [readVarint, readDigits, if_pos (by omega), Option.map_some, hc, Nat.mod_eq_of_lt (by omega)]
    · cases h

/-- What the parser has to do at a label, of a message with the fields `D`. -/
def atLabel (limit : ℕ) (D : List FieldDescriptor) : Label → Bytes → Option (List Field)
  | .loop, s => (readAll limit (embeddedIn D) s).bind (stored D)
  | .parse i, s => D[i]?.bind fun d => (d.read s).bind fun (v, rest) =>
    if d.accepts v then ((readAll limit (embeddedIn D) rest).bind (stored D)).map (⟨d.num, v⟩ :: ·) else none

variable {D : List FieldDescriptor}

/-- Having seen the tag of the next field is as good as going around the loop. -/
theorem atLabel_parse (hD : WellFormed D) {i : ℕ} {d : FieldDescriptor} (hi : D[i]? = some d) {n : ℕ}
    {s rest : Bytes} (hr : readVarint s = some (n, rest)) (htag : n % 2 ^ 32 = d.tag) :
    atLabel limit D (.parse i) rest = atLabel limit D .loop s := by
  rw [atLabel, atLabel, hi, Option.bind_some, hD.stored_of_tag (List.mem_of_getElem? hi) hr htag]

variable (limit) in
/-- After a field it does not matter where the parser goes. -/
theorem atLabel_afterField (hD : WellFormed D) {i : ℕ} {d : FieldDescriptor} (hi : D[i]? = some d)
    (s : Bytes) :
    match afterField D i d s with
    | none => s = []
    | some (label, rest) =>
      atLabel limit D label rest = atLabel limit D .loop s ∧ rest.length ≤ s.length := by
  have expect : ∀ {j : ℕ} {e : FieldDescriptor} {rest : Bytes}, D[j]? = some e →
      expectTag e.tag s = some rest →
      atLabel limit D (.parse j) rest = atLabel limit D .loop s ∧ rest.length ≤ s.length := by
    intro j e rest hj h
    have hle := hD.tag_le e (List.mem_of_getElem? hj)
    have hr := expectTag_eq_some hle h
    exact ⟨atLabel_parse hD hj hr (Nat.mod_eq_of_lt (by omega)), (length_readVarint hr).le⟩
  unfold afterField
  cases hrep : (if d.repeated then expectTag d.tag s else none) with
  | some rest =>
    split at hrep
    · exact expect hi hrep
    · cases hrep
  | none =>
    dsimp only
    cases hnext : D[i + 1]? with
    | none =>
      dsimp only
      by_cases hs : s = []
      · rw [if_pos hs]
        exact hs
      · rw [if_neg hs]
        exact ⟨rfl, Nat.le_refl _⟩
    | some next =>
      dsimp only
      cases htag : expectTag next.tag s with
      | none => exact ⟨rfl, Nat.le_refl _⟩
      | some rest => exact expect hnext htag

theorem eq_of_findTag {t i : ℕ}
    (h : (if t ≤ 127 then D.findIdx? fun d => d.tag = t else none) = some i) :
    ∃ d, D[i]? = some d ∧ t = d.tag := by
  split at h
  · obtain ⟨hi, htag, -⟩ := List.findIdx?_eq_some_iff_getElem.1 h
    exact ⟨D[i], List.getElem?_eq_getElem hi, (of_decide_eq_true htag).symm⟩
  · cases h

/-- A tag above the cutoff is none of the message's. -/
theorem ne_of_findTag (hD : WellFormed D) {t : ℕ}
    (h : (if t ≤ 127 then D.findIdx? fun d => d.tag = t else none) = none) :
    ∀ d ∈ D, d.tag ≠ t := by
  intro d hd htag
  have hle := hD.tag_le d hd
  rw [if_pos (by omega)] at h
  have := List.findIdx?_eq_none_iff.1 h d hd
  rw [decide_eq_false_iff_not] at this
  exact this htag

/-- One step of the parser, given the steps behind it. -/
theorem mergePartial_eq_atLabel (hD : WellFormed D) {k : ℕ} (label : Label) {s : Bytes}
    (hk : s.length < k) : mergePartial limit D k label s = atLabel limit D label s := by
  induction k generalizing label s with
  | zero => omega
  | succ k ih =>
    cases label with
    | loop =>
      rw [mergePartial]
      split
      · next hs =>
        subst hs
        rfl
      next hs =>
        cases hr : readVarint s with
        | none =>
          rw [atLabel, readAll_of_readVarint_eq_none hs hr]
          rfl
        | some r =>
          obtain ⟨n, rest⟩ := r
          have hlt := length_readVarint hr
          dsimp only
          cases hfind : (if n % 2 ^ 32 ≤ 127 then D.findIdx? fun d => d.tag = n % 2 ^ 32 else none) with
          | some i =>
            obtain ⟨d, hi, htag⟩ := eq_of_findTag hfind
            dsimp only
            rw [ih (.parse i) (by omega : rest.length < k), atLabel_parse hD hi hr htag]
          | none =>
            have htag := ne_of_findTag hD hfind
            rw [atLabel, hD.stored_of_not_tag hr htag]
            dsimp only
            split
            · rfl
            · refine Option.bind_congr fun rest' hskip => ?_
              have := length_skipField hskip
              rw [ih .loop (by omega : rest'.length < k), atLabel]
    | parse i =>
      rw [mergePartial, atLabel]
      cases hi : D[i]? with
      | none => rfl
      | some d =>
        dsimp only
        rw [Option.bind_some]
        cases hv : d.read s with
        | none => rfl
        | some r =>
          obtain ⟨v, rest⟩ := r
          have hlt := FieldDescriptor.length_read hv
          rw [Option.bind_some]
          dsimp only
          split
          · have hafter := atLabel_afterField limit hD hi rest
            cases hnext : afterField D i d rest with
            | none =>
              rw [hnext] at hafter
              obtain rfl := hafter
              rfl
            | some p =>
              obtain ⟨label, rest'⟩ := p
              rw [hnext] at hafter
              obtain ⟨heq, hle⟩ := hafter
              dsimp only
              rw [ih label (by omega : rest'.length < k), heq, atLabel]
          · rfl

/-- **The generated parser stores what reading all fields gives**, without the fields it does not have. -/
theorem mergePartial_eq (hD : WellFormed D) (s : Bytes) :
    mergePartial limit D (s.length + 1) .loop s = (readAll limit (embeddedIn D) s).bind (stored D) :=
  mergePartial_eq_atLabel hD .loop (Nat.lt_succ_self _)

end MutexIM.ProtoWire
