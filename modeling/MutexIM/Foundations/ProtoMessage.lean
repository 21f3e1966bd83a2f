import MutexIM.Foundations.ProtoParser

/-!
# Message types

What is generated for a message type: the fields it has, which of them are written and how they are looked
up, the size of what is written, and merging. Embedded messages are values of fields that a parser accepts.

* `readAll_eq_some_iff`: with embedded messages, what is read is fields, of which the last may be cut off.
* `varintSize` and the sizes of the fields: `length_encodeFields_putVarint` and the like.
* `stored` is transparent for looking up the fields that there are (`lastOf_varint_stored` and the like).
* `MessageType.Lawful` is what is proved for each type. From it: `parse_serialize`, and `parse_append`,
  that reading what is behind each other is merging.
-/

namespace MutexIM.ProtoWire

/-! ## Reading with more behind -/

/-- The reader takes a part of its input, whatever is behind. -/
def Consumes {β : Type*} (read : Bytes → Option (β × Bytes)) : Prop :=
  ∀ s b rest, read s = some (b, rest) → ∃ taken, s = taken ++ rest ∧ ∀ t, read (taken ++ t) = some (b, t)

theorem Consumes.map {β γ : Type*} {read : Bytes → Option (β × Bytes)} (h : Consumes read) (f : β → γ) :
    Consumes fun s => (read s).map fun r => (f r.1, r.2) := by
  intro s c rest hc
  obtain ⟨⟨b, rest'⟩, hb, heq⟩ := Option.map_eq_some_iff.1 hc
  cases heq
  obtain ⟨taken, hs, htaken⟩ := h s b rest' hb
  refine ⟨taken, hs, fun t => ?_⟩
  dsimp only
  rw [htaken, Option.map_some]

theorem consumes_readDigits (k : ℕ) : Consumes (readDigits k) := by
  intro s n rest h
  induction k generalizing s n with
  | zero => cases h
  | succ k ih =>
    cases s with
    | nil => cases h
    | cons c s =>
      rw [readDigits] at h
      split at h
      · next hc =>
        cases h
        exact ⟨[c], rfl, fun t => if_pos hc⟩
      · next hc =>
        obtain ⟨r, hr, h⟩ := Option.map_eq_some_iff.1 h
        cases h
        obtain ⟨taken, hs, htaken⟩ := ih s r.1 hr
        refine ⟨c :: taken, congrArg (c :: ·) hs, fun t => ?_⟩
        rw [List.cons_append, readDigits, if_neg hc, htaken, Option.map_some]

theorem consumes_readVarint : Consumes readVarint := (consumes_readDigits 10).map (· % 2 ^ 64)

theorem consumes_readLittleEndian (k : ℕ) : Consumes (readLittleEndian k) := by
  intro s n rest h
  induction k generalizing s n with
  | zero =>
    cases h
    exact ⟨[], rfl, fun _ => rfl⟩
  | succ k ih =>
    cases s with
    | nil => cases h
    | cons c s =>
      obtain ⟨r, hr, h⟩ := Option.map_eq_some_iff.1 h
      cases h
      obtain ⟨taken, hs, htaken⟩ := ih s r.1 hr
      refine ⟨c :: taken, congrArg (c :: ·) hs, fun t => ?_⟩
      rw [List.cons_append, readLittleEndian, htaken, Option.map_some]

theorem consumes_readBytes : Consumes (readValue 2) := by
  intro s v rest h
  rw [readValue] at h
  split at h
  · cases h
  next n body hr =>
  dsimp only at h
  split at h
  · next hlen =>
    cases h
    obtain ⟨taken, hs, htaken⟩ := consumes_readVarint s n body hr
    refine ⟨taken ++ body.take (n % 2 ^ 32), ?_, fun t => ?_⟩
    · rw [List.append_assoc, List.take_append_drop, hs]
    · have hlength : (body.take (n % 2 ^ 32)).length = n % 2 ^ 32 := List.length_take_of_le hlen.2
      rw [List.append_assoc, readValue, htaken]
      dsimp only
      rw [if_pos ⟨hlen.1, by rw [List.length_append, hlength]; omega⟩, List.take_left' hlength,
        List.drop_left' hlength]
  · cases h

theorem consumes_readValue (w : ℕ) : Consumes (readValue w) := by
  by_cases hbytes : w = 2
  · rw [hbytes]
    exact consumes_readBytes
  intro s v rest h
  unfold readValue at h
  split at h
  · exact consumes_readVarint.map Value.varint s v rest h
  · exact (consumes_readLittleEndian 8).map Value.fixed64 s v rest h
  · exact absurd rfl hbytes
  · exact (consumes_readLittleEndian 4).map Value.fixed32 s v rest h
  · cases h

section Append

variable {s rest : Bytes} {limit : ℕ} {embeds : List ℕ}

theorem consumes_turn {groups groups' : List ℕ} {f : Option Field}
    (h : turn limit [] groups s = some (f, groups', rest)) :
    ∃ taken, s = taken ++ rest ∧ ∀ t, turn limit [] groups (taken ++ t) = some (f, groups', t) := by
  cases turn_eq_some_iff.1 h with
  | startGroup hr h3 hlt =>
    obtain ⟨taken, hs, htaken⟩ := consumes_readVarint _ _ _ hr
    exact ⟨taken, hs, fun t => turn_eq_some_iff.2 (.startGroup (htaken t) h3 hlt)⟩
  | endGroup hr h4 =>
    obtain ⟨taken, hs, htaken⟩ := consumes_readVarint _ _ _ hr
    exact ⟨taken, hs, fun t => turn_eq_some_iff.2 (.endGroup (htaken t) h4)⟩
  | value hr h0 h3 h4 hv =>
    obtain ⟨taken, hs, htaken⟩ := consumes_readVarint _ _ _ hr
    rw [ite_self, readTagged_nil] at hv
    obtain ⟨value, hbody, hvalue⟩ := consumes_readValue _ _ _ _ hv
    refine ⟨taken ++ value, by rw [hs, hbody, List.append_assoc], fun t => turn_eq_some_iff.2 ?_⟩
    rw [List.append_assoc]
    refine .value (htaken _) h0 h3 h4 ?_
    rw [ite_self, readTagged_nil, hvalue]

/-! ### Embedded messages -/

/-- A message whose length says more than there is. -/
theorem readMessage_of_cut {len : ℕ} (hr : readVarint s = some (len, rest))
    (hcut : ¬(len % 2 ^ 32 < 2 ^ 31 ∧ len % 2 ^ 32 ≤ rest.length)) :
    readMessage s = some (.bytes rest, []) := by
  rw [readMessage, hr, Option.map_some]
  dsimp only
  rw [List.take_of_length_le (by split <;> omega), List.drop_of_length_le (by split <;> omega)]

/-- What is read at any length is read where a message is embedded. -/
theorem readTagged_of_readValue {t : ℕ} {r : Value × Bytes} (h : readValue (t % 8) s = some r) :
    readTagged embeds t s = some r := by
  unfold readTagged
  split
  · next ht =>
    rw [ht.1, readValue] at h
    split at h
    · cases h
    next n body hr =>
    dsimp only at h
    split at h
    · next hlen =>
      rw [readMessage, hr, Option.map_some, ← h]
      dsimp only
      rw [if_pos hlen.1]
    · cases h
  · exact h

/-- What is read is a value as any other, or a message that is cut off. -/
theorem readTagged_cases {t : ℕ} {v : Value} (h : readTagged embeds t s = some (v, rest)) :
    readValue (t % 8) s = some (v, rest) ∨ t % 8 = 2 ∧ t / 8 ∈ embeds ∧ rest = [] ∧ ∃ len body,
      readVarint s = some (len, body) ∧ ¬(len % 2 ^ 32 < 2 ^ 31 ∧ len % 2 ^ 32 ≤ body.length) ∧
        v = .bytes body := by
  unfold readTagged at h
  split at h
  · next htag =>
    obtain ⟨⟨len, body⟩, hlen, heq⟩ := Option.map_eq_some_iff.1 h
    by_cases hfits : len % 2 ^ 32 < 2 ^ 31 ∧ len % 2 ^ 32 ≤ body.length
    · left
      rw [htag.1, readValue, hlen, ← heq]
      dsimp only
      rw [if_pos hfits, if_pos hfits.1]
    · right
      rw [readMessage_of_cut hlen hfits] at h
      cases h
      exact ⟨htag.1, htag.2, rfl, len, body, hlen, hfits, rfl⟩
  · exact .inl h

theorem turn_of_plain {groups groups' : List ℕ} {f : Option Field}
    (h : turn limit [] groups s = some (f, groups', rest)) :
    turn limit embeds groups s = some (f, groups', rest) := by
  refine turn_eq_some_iff.2 ?_
  cases turn_eq_some_iff.1 h with
  | startGroup hr h3 hlt => exact .startGroup hr h3 hlt
  | endGroup hr h4 => exact .endGroup hr h4
  | value hr h0 h3 h4 hv =>
    rw [ite_self, readTagged_nil] at hv
    exact .value hr h0 h3 h4 (readTagged_of_readValue hv)

theorem readFieldsUpTo_append {k l : ℕ} {groups : List ℕ} {fs : List Field} (t : Bytes)
    (h : readFieldsUpTo limit [] k groups s = some fs) (hl : s.length + t.length < l) :
    readFieldsUpTo limit embeds l groups (s ++ t) = (readAll limit embeds t).map (fs ++ ·) := by
  induction k generalizing l groups s fs with
  | zero => cases h
  | succ k ih =>
    obtain ⟨l, rfl⟩ : ∃ m, l = m + 1 := ⟨l - 1, by omega⟩
    rw [readFieldsUpTo] at h
    split at h
    · next hs =>
      subst hs
      split at h
      · next hg =>
        cases h
        subst hg
        rw [List.nil_append, readFieldsUpTo_eq (by rw [List.length_nil] at hl; omega)]
        cases readAll limit embeds t <;> rfl
      · cases h
    · next hs =>
      obtain ⟨⟨f, groups', rest⟩, hturn, h⟩ := Option.bind_eq_some_iff.1 h
      obtain ⟨gs, hgs, rfl⟩ := Option.map_eq_some_iff.1 h
      have hlt := length_turn hturn
      have hne : s ++ t ≠ [] := fun h => hs (List.append_eq_nil_iff.1 h).1
      obtain ⟨taken, hs', htaken⟩ := consumes_turn hturn
      have hturn' : turn limit embeds groups (s ++ t) = some (f, groups', rest ++ t) := by
        rw [hs', List.append_assoc]
        exact turn_of_plain (htaken _)
      rw [readFieldsUpTo, if_neg hne, hturn', Option.bind_some]
      dsimp only
      rw [ih hgs (by omega), Option.map_map]
      exact Option.map_congr fun gs' _ => (List.append_assoc _ _ _).symm

theorem readAll_nil : readAll limit embeds [] = some [] := rfl

/-- Fields behind fields. -/
theorem readAll_append {fs : List Field} (h : readAll limit [] s = some fs) (t : Bytes) :
    readAll limit embeds (s ++ t) = (readAll limit embeds t).map (fs ++ ·) :=
  readFieldsUpTo_append t h (by rw [List.length_append]; omega)

theorem readAll_of_plain {fs : List Field} (h : readAll limit [] s = some fs) :
    readAll limit embeds s = some fs := by
  have happ : readAll limit embeds (s ++ []) = _ := readAll_append h []
  rwa [List.append_nil, readAll_nil, Option.map_some, List.append_nil] at happ

/-- An embedded message that the end of the input cuts off, with what there is of it. -/
def CutOff (embeds : List ℕ) (s : Bytes) (f : Field) : Prop :=
  ∃ n len rest body, readVarint s = some (n, rest) ∧ n % 2 ^ 32 % 8 = 2 ∧ n % 2 ^ 32 / 8 ∈ embeds ∧
    readVarint rest = some (len, body) ∧ ¬(len % 2 ^ 32 < 2 ^ 31 ∧ len % 2 ^ 32 ≤ body.length) ∧
      f = ⟨n % 2 ^ 32 / 8, .bytes body⟩

theorem turn_of_cutOff {f : Field} (h : CutOff embeds s f) :
    turn limit embeds [] s = some (some f, [], []) := by
  obtain ⟨n, len, rest, body, hr, hwire, hnum, hlen, hcut, rfl⟩ := h
  refine turn_eq_some_iff.2 (.value hr (by omega) (by omega) (by omega) ?_)
  rw [if_pos rfl, readTagged, if_pos ⟨hwire, hnum⟩, readMessage_of_cut hlen hcut]

/-- A turn is one without embedded messages, or takes one that is cut off. -/
theorem turn_cases {groups groups' : List ℕ} {f : Option Field}
    (h : turn limit embeds groups s = some (f, groups', rest)) :
    turn limit [] groups s = some (f, groups', rest) ∨
      groups = [] ∧ groups' = [] ∧ rest = [] ∧ ∃ g, f = some g ∧ CutOff embeds s g := by
  rw [turn_eq_some_iff]
  cases turn_eq_some_iff.1 h with
  | startGroup hr h3 hlt => exact .inl (.startGroup hr h3 hlt)
  | endGroup hr h4 => exact .inl (.endGroup hr h4)
  | value hr h0 h3 h4 hv =>
    rcases readTagged_cases hv with hvalue | ⟨hwire, hnum, rfl, len, body, hlen, hcut, rfl⟩
    · refine .inl (.value hr h0 h3 h4 ?_)
      rw [ite_self, readTagged_nil, hvalue]
    · by_cases hgroups : groups = []
      · rw [if_pos hgroups] at hnum
        exact .inr ⟨hgroups, hgroups, rfl, _, if_pos hgroups, _, len, _, body, hr, hwire, hnum, hlen, hcut, rfl⟩
      · rw [if_neg hgroups] at hnum
        cases hnum

theorem readFieldsUpTo_cases {k : ℕ} {groups : List ℕ} {fs : List Field}
    (h : readFieldsUpTo limit embeds k groups s = some fs) :
    readFieldsUpTo limit [] k groups s = some fs ∨ ∃ s₁ s₂ fs₁ f, s = s₁ ++ s₂ ∧
      readFieldsUpTo limit [] k groups s₁ = some fs₁ ∧ CutOff embeds s₂ f ∧ fs = fs₁ ++ [f] := by
  induction k generalizing groups s fs with
  | zero => cases h
  | succ k ih =>
    rw [readFieldsUpTo] at h
    split at h
    · next hs =>
      subst hs
      exact .inl h
    next hs =>
    obtain ⟨⟨f, groups', rest⟩, hturn, h⟩ := Option.bind_eq_some_iff.1 h
    obtain ⟨gs, hgs, rfl⟩ := Option.map_eq_some_iff.1 h
    rcases turn_cases hturn with hplain | ⟨rfl, rfl, rfl, g, rfl, hcut⟩
    · rcases ih hgs with hgs | ⟨s₁, s₂, fs₁, f', rfl, hfs₁, hcut, rfl⟩
      · left
        rw [readFieldsUpTo, if_neg hs, hplain, Option.bind_some]
        dsimp only
        rw [hgs, Option.map_some]
      · right
        have hlt := length_turn hplain
        obtain ⟨taken, hs', htaken⟩ := consumes_turn hplain
        refine ⟨taken ++ s₁, s₂, f.toList ++ fs₁, f', ?_, ?_, hcut, ?_⟩
        · rw [hs', List.append_assoc]
        · have hne : taken ++ s₁ ≠ [] := by
            intro hnil
            obtain ⟨rfl, rfl⟩ := List.append_eq_nil_iff.1 hnil
            rw [hs'] at hlt
            exact lt_irrefl _ hlt
          rw [readFieldsUpTo, if_neg hne, htaken, Option.bind_some]
          dsimp only
          rw [hfs₁, Option.map_some]
        · rw [List.append_assoc]
    · right
      cases k with
      | zero => cases hgs
      | succ k =>
        rw [readFieldsUpTo, if_pos rfl, if_pos rfl] at hgs
        cases hgs
        exact ⟨[], s, [], g, rfl, by rw [readFieldsUpTo, if_pos rfl, if_pos rfl], hcut, rfl⟩

/-- **What is read with embedded messages**: fields, of which the last may be a message that is cut off. -/
theorem readAll_eq_some_iff {fs : List Field} :
    readAll limit embeds s = some fs ↔ readAll limit [] s = some fs ∨ ∃ s₁ s₂ fs₁ f, s = s₁ ++ s₂ ∧
      readAll limit [] s₁ = some fs₁ ∧ CutOff embeds s₂ f ∧ fs = fs₁ ++ [f] := by
  constructor
  · intro h
    rcases readFieldsUpTo_cases h with h | ⟨s₁, s₂, fs₁, f, rfl, hfs₁, hrest⟩
    · exact .inl h
    · refine .inr ⟨s₁, s₂, fs₁, f, rfl, ?_, hrest⟩
      rwa [readFieldsUpTo_eq (by rw [List.length_append]; omega)] at hfs₁
  · rintro (h | ⟨s₁, s₂, fs₁, f, rfl, hfs₁, hcut, rfl⟩)
    · exact readAll_of_plain h
    · have hs₂ : readAll limit embeds s₂ = some [f] := by
        have hne : s₂ ≠ [] := by
          rintro rfl
          obtain ⟨n, len, rest, body, hr, -⟩ := hcut
          cases hr
        obtain ⟨k, hk⟩ : ∃ k, s₂.length = k + 1 :=
          Nat.exists_eq_succ_of_ne_zero (List.length_pos_iff.2 hne).ne'
        rw [readAll, readFieldsUpTo, if_neg hne, turn_of_cutOff hcut, Option.bind_some, hk]
        dsimp only
        rw [readFieldsUpTo, if_pos rfl, if_pos rfl]
        rfl
      rw [readAll_append hfs₁, hs₂, Option.map_some]

/-- The input splits into the fields. If the last is an embedded message, it may be cut off. -/
def Splits (embeds : List ℕ) (s : Bytes) (fs : List Field) : Prop :=
  decodeFields s = some fs ∨ ∃ s₁ s₂ fs₁ f, s = s₁ ++ s₂ ∧
    decodeFields s₁ = some fs₁ ∧ CutOff embeds s₂ f ∧ fs = fs₁ ++ [f]

theorem readAll_iff_splits {fs : List Field} : readAll 100 embeds s = some fs ↔ Splits embeds s fs := by
  rw [readAll_eq_some_iff, Splits]
  simp only [decodeFields_eq]

end Append

/-! ## Sizes -/

/-- `VarintSize64`. -/
def varintSize (n : ℕ) : ℕ :=
  if n < 2 ^ 7 then 1
  else if n < 2 ^ 14 then 2
  else if n < 2 ^ 21 then 3
  else if n < 2 ^ 28 then 4
  else if n < 2 ^ 35 then 5
  else if n < 2 ^ 42 then 6
  else if n < 2 ^ 49 then 7
  else if n < 2 ^ 56 then 8
  else if n < 2 ^ 63 then 9
  else 10

/-- `StringSize`. -/
def stringSize (s : Bytes) : ℕ := varintSize s.length + s.length

/-- The size of a repeated field, from that of an element with its length. -/
def repeatedSize {β : Type*} (size : β → ℕ) (xs : List β) : ℕ :=
  xs.foldl (fun total x => total + size x) (1 * xs.length)

theorem length_varintDigits {k n : ℕ} (hk : 128 ^ k ≤ n) (j : ℕ) (hn : n < 128 ^ (k + 1)) :
    (varintDigits (k + 1 + j) n).length = k + 1 := by
  induction k generalizing n with
  | zero =>
    rw [show 0 + 1 + j = j + 1 by omega, varintDigits, if_pos (by omega), List.length_singleton]
  | succ k ih =>
    have hpos : 0 < 128 ^ k := by positivity
    have hlow : 128 ^ k ≤ n / 128 := by
      rw [Nat.le_div_iff_mul_le (by norm_num)]
      rwa [Nat.pow_succ] at hk
    have hhigh : n / 128 < 128 ^ (k + 1) := by
      rw [Nat.div_lt_iff_lt_mul (by norm_num)]
      rwa [Nat.pow_succ] at hn
    rw [show k + 1 + 1 + j = (k + 1 + j) + 1 by omega, varintDigits, if_neg (by omega),
      List.length_cons, ih hlow hhigh]

theorem length_varintDigits_le {k n : ℕ} (hk : 128 ^ k ≤ n) :
    (varintDigits (k + 1) n).length = k + 1 := by
  induction k generalizing n with
  | zero =>
    rw [varintDigits]
    split <;> rfl
  | succ k ih =>
    have hpos : 0 < 128 ^ k := by positivity
    have hlow : 128 ^ k ≤ n / 128 := by
      rw [Nat.le_div_iff_mul_le (by norm_num)]
      rwa [Nat.pow_succ] at hk
    rw [varintDigits, if_neg (by omega), List.length_cons, ih hlow]

/-- The size that is computed is the length. -/
theorem length_encodeVarint (n : ℕ) : (encodeVarint n).length = varintSize n := by
  have h (k j : ℕ) (hkj : k + 1 + j = 10) (hk : 128 ^ k ≤ n) (hn : n < 128 ^ (k + 1)) :
      (encodeVarint n).length = k + 1 := by
    rw [encodeVarint, ← hkj, length_varintDigits hk j hn]
  unfold varintSize
  by_cases h0 : n < 2 ^ 7
  · rw [if_pos h0, encodeVarint, varintDigits, if_pos (by omega), List.length_singleton]
  rw [if_neg h0]
  repeat' split
  · exact h 1 8 rfl (by omega) (by omega)
  · exact h 2 7 rfl (by omega) (by omega)
  · exact h 3 6 rfl (by omega) (by omega)
  · exact h 4 5 rfl (by omega) (by omega)
  · exact h 5 4 rfl (by omega) (by omega)
  · exact h 6 3 rfl (by omega) (by omega)
  · exact h 7 2 rfl (by omega) (by omega)
  · exact h 8 1 rfl (by omega) (by omega)
  · exact length_varintDigits_le (k := 9) (by omega)

theorem length_littleEndian (k n : ℕ) : (littleEndian k n).length = k := by
  induction k generalizing n with
  | zero => rfl
  | succ k ih => rw [littleEndian, List.length_cons, ih]

@[simp] theorem encodeFields_nil : encodeFields [] = [] := rfl

@[simp] theorem encodeFields_append (fs gs : List Field) :
    encodeFields (fs ++ gs) = encodeFields fs ++ encodeFields gs :=
  List.flatMap_append

section Sizes

variable {num : ℕ} (hnum : num < 16)
include hnum

/-- A field whose tag is one byte. -/
theorem length_encode {v : Value} :
    (Field.encode ⟨num, v⟩).length = 1 + v.encode.length := by
  have htag : num * 8 + v.wireType < 2 ^ 7 := by cases v <;> simp only [Value.wireType] <;> omega
  rw [Field.encode, List.length_append, length_encodeVarint, Field.tag, varintSize, if_pos htag]

theorem length_encodeFields_putVarint (n : ℕ) :
    (encodeFields (putVarint num n)).length = if n = 0 then 0 else 1 + varintSize n := by
  unfold putVarint
  split
  · rfl
  · rw [encodeFields, List.flatMap_singleton, length_encode hnum, Value.encode, length_encodeVarint]

theorem length_encodeFields_putFixed32 (n : ℕ) :
    (encodeFields (putFixed32 num n)).length = if n = 0 then 0 else 1 + 4 := by
  unfold putFixed32
  split
  · rfl
  · rw [encodeFields, List.flatMap_singleton, length_encode hnum, Value.encode, length_littleEndian]

theorem length_encodeFields_putBytes (s : Bytes) :
    (encodeFields (putBytes num s)).length = if 0 < s.length then 1 + stringSize s else 0 := by
  unfold putBytes
  split
  · next h =>
    subst h
    rfl
  · next h =>
    rw [if_pos (List.length_pos_iff.2 h), encodeFields, List.flatMap_singleton, length_encode hnum,
      Value.encode, List.length_append, length_encodeVarint, stringSize]

theorem length_encodeFields_putRepeated (ss : List Bytes) :
    (encodeFields (putRepeated num ss)).length = repeatedSize stringSize ss := by
  have key : ∀ size, ss.foldl (fun size s => size + stringSize s) (size + 1 * ss.length) =
      size + (encodeFields (putRepeated num ss)).length := by
    induction ss with
    | nil => exact fun _ => rfl
    | cons s ss ih =>
      intro size
      have hcons : encodeFields (putRepeated num (s :: ss)) =
        Field.encode ⟨num, .bytes s⟩ ++ encodeFields (putRepeated num ss) := rfl
      rw [hcons, List.length_append, length_encode hnum, Value.encode, List.length_append,
        length_encodeVarint, List.foldl_cons, List.length_cons,
        show size + 1 * (ss.length + 1) + stringSize s = (size + 1 + stringSize s) + 1 * ss.length by
          omega, ih, stringSize]
      omega
  simpa [repeatedSize] using (key 0).symm

end Sizes

/-! ## Fields of a type -/

/-- The message that a length-delimited value is, as a parser reads it. -/
def Value.message? {β : Type*} (parse : Bytes → Option β) (v : Value) : Option β := v.bytes?.bind parse

/-- A repeated field of embedded messages. -/
def putMessages {β : Type*} (num : ℕ) (serialize : β → Bytes) (ms : List β) : List Field :=
  putRepeated num (ms.map serialize)

namespace FieldDescriptor

/-- Whole numbers and enumerations. -/
def varint (num : ℕ) : FieldDescriptor := { num := num, wireType := 0 }

def fixed32 (num : ℕ) : FieldDescriptor := { num := num, wireType := 5 }

/-- `string` and `bytes`. -/
def bytes (num : ℕ) : FieldDescriptor := { num := num, wireType := 2 }

def repeatedBytes (num : ℕ) : FieldDescriptor := { num := num, wireType := 2, repeated := true }

/-- A repeated embedded message, which its own parser has to accept. -/
def messages {β : Type*} (num : ℕ) (parse : Bytes → Option β) : FieldDescriptor :=
  { num := num, wireType := 2, repeated := true, embedded := true
    accepts := fun v => (v.message? parse).isSome }

variable (num : ℕ) (v : Value)

@[simp] theorem accepts_varint : (varint num).accepts v = true := rfl

@[simp] theorem accepts_fixed32 : (fixed32 num).accepts v = true := rfl

@[simp] theorem accepts_bytes : (bytes num).accepts v = true := rfl

@[simp] theorem accepts_repeatedBytes : (repeatedBytes num).accepts v = true := rfl

end FieldDescriptor

variable {D : List FieldDescriptor} {d : FieldDescriptor}

/-- A field that the parser of the type stores. -/
def Own (D : List FieldDescriptor) (f : Field) : Prop :=
  f.InRange ∧ ∃ d, D.find? (fun d => d.Matches f) = some d ∧ d.accepts f.value = true

theorem stored_of_own {fs : List Field} (h : ∀ f ∈ fs, Own D f) : stored D fs = some fs := by
  induction fs with
  | nil => rfl
  | cons f fs ih =>
    obtain ⟨-, d, hd, hacc⟩ := h f List.mem_cons_self
    rw [stored, hd]
    dsimp only
    rw [if_pos hacc, ih fun g hg => h g (List.mem_cons_of_mem f hg), Option.map_some]

theorem isSome_stored_iff (hD : WellFormed D) {fs : List Field} :
    (stored D fs).isSome ↔ ∀ f ∈ fs, ∀ d ∈ D, d.Matches f → d.accepts f.value = true := by
  induction fs with
  | nil => exact iff_of_true rfl (List.forall_mem_nil _)
  | cons f fs ih =>
    rw [List.forall_mem_cons, ← ih, stored]
    split
    · next d hd =>
      have hmem := List.mem_of_find?_eq_some hd
      have hmatch : d.Matches f := by simpa using List.find?_some hd
      have hiff : (∀ e ∈ D, e.Matches f → e.accepts f.value = true) ↔ d.accepts f.value = true := by
        constructor
        · intro h
          exact h d hmem hmatch
        · intro h e he hmatch'
          obtain rfl := Option.some.inj (hd.symm.trans (hD.find_matches he hmatch'))
          exact h
      rw [hiff]
      split
      · next hacc => rw [Option.isSome_map, and_iff_right hacc]
      · next hacc => exact iff_of_false Bool.false_ne_true fun h => hacc h.1
    · next hd =>
      refine (and_iff_right fun e he hmatch => ?_).symm
      have := List.find?_eq_none.1 hd e he
      exact absurd (decide_eq_true hmatch) this

/-- Looking up a field that the type has, among the fields that are stored. -/
theorem occurrences_stored {β : Type*} {i : ℕ} (hd : D[i]? = some d) {num : ℕ} (hnum : d.num = num)
    {get? : Value → Option β} (hget : ∀ v, get? v ≠ none → v.wireType = d.wireType)
    {fs gs : List Field} (h : stored D fs = some gs) :
    occurrences num get? gs = occurrences num get? fs := by
  subst hnum
  induction fs generalizing gs with
  | nil =>
    cases h
    rfl
  | cons f fs ih =>
    rw [stored] at h
    split at h
    · split at h
      · obtain ⟨gs', hgs', rfl⟩ := Option.map_eq_some_iff.1 h
        rw [occurrences, List.filterMap_cons, occurrences, List.filterMap_cons]
        have := ih hgs'
        rw [occurrences, occurrences] at this
        rw [this]
      · cases h
    · next hfind =>
      have hnone : (if f.num = d.num then get? f.value else none) = none := by
        split
        · next hnum =>
          by_contra hne
          have := List.find?_eq_none.1 hfind d (List.mem_of_getElem? hd)
          exact this (decide_eq_true ⟨hnum.symm, (hget _ hne).symm⟩)
        · rfl
      rw [ih h, occurrences, occurrences, List.filterMap_cons, hnone]

section Stored

variable {num i : ℕ} {fs gs : List Field} (h : stored D fs = some gs)
include h

theorem lastOf_varint_stored (hd : D[i]? = some (.varint num)) (n : ℕ) :
    lastOf num Value.varint? n gs = lastOf num Value.varint? n fs := by
  have heq : occurrences num Value.varint? gs = occurrences num Value.varint? fs := by
    refine occurrences_stored (d := .varint num) hd rfl ?_ h
    intro v hv
    cases v <;> first | rfl | exact absurd rfl hv
  rw [lastOf, lastOf, heq]

theorem lastOf_fixed32_stored (hd : D[i]? = some (.fixed32 num)) (n : ℕ) :
    lastOf num Value.fixed32? n gs = lastOf num Value.fixed32? n fs := by
  have heq : occurrences num Value.fixed32? gs = occurrences num Value.fixed32? fs := by
    refine occurrences_stored (d := .fixed32 num) hd rfl ?_ h
    intro v hv
    cases v <;> first | rfl | exact absurd rfl hv
  rw [lastOf, lastOf, heq]

theorem lastOf_bytes_stored (hd : D[i]? = some (.bytes num)) (s : Bytes) :
    lastOf num Value.bytes? s gs = lastOf num Value.bytes? s fs := by
  have heq : occurrences num Value.bytes? gs = occurrences num Value.bytes? fs := by
    refine occurrences_stored (d := .bytes num) hd rfl ?_ h
    intro v hv
    cases v <;> first | rfl | exact absurd rfl hv
  rw [lastOf, lastOf, heq]

theorem occurrences_bytes_stored (hd : D[i]? = some (.repeatedBytes num)) :
    occurrences num Value.bytes? gs = occurrences num Value.bytes? fs := by
  refine occurrences_stored (d := .repeatedBytes num) hd rfl ?_ h
  intro v hv
  cases v <;> first | rfl | exact absurd rfl hv

theorem occurrences_message_stored {β : Type*} {parse : Bytes → Option β}
    (hd : D[i]? = some (.messages num parse)) :
    occurrences num (Value.message? parse) gs = occurrences num (Value.message? parse) fs := by
  refine occurrences_stored (d := .messages num parse) hd rfl ?_ h
  intro v hv
  cases v <;> first | rfl | exact absurd rfl hv

end Stored

section Own

variable {num i : ℕ} (hD : WellFormed D)
include hD

theorem own_of_getElem (hd : D[i]? = some d) {v : Value} (hv : d.wireType = v.wireType)
    (hr : v.InRange) (hacc : d.accepts v = true) : Own D ⟨d.num, v⟩ := by
  have hd := List.mem_of_getElem? hd
  have hle := hD.tag_le d hd
  rw [FieldDescriptor.tag] at hle
  have hnum : d.num < 2 ^ 29 := by omega
  exact ⟨⟨hD.num_pos d hd, hnum, hr⟩, d, hD.find_matches (f := ⟨d.num, v⟩) hd ⟨rfl, hv⟩, hacc⟩

theorem own_putVarint (hd : D[i]? = some (.varint num)) {n : ℕ} (hn : n < 2 ^ 64) :
    ∀ f ∈ putVarint num n, Own D f := by
  unfold putVarint
  split
  · exact List.forall_mem_nil _
  · exact List.forall_mem_singleton.2 (own_of_getElem hD (d := .varint num) hd rfl hn rfl)

theorem own_putFixed32 (hd : D[i]? = some (.fixed32 num)) {n : ℕ} (hn : n < 2 ^ 32) :
    ∀ f ∈ putFixed32 num n, Own D f := by
  unfold putFixed32
  split
  · exact List.forall_mem_nil _
  · exact List.forall_mem_singleton.2 (own_of_getElem hD (d := .fixed32 num) hd rfl hn rfl)

theorem own_putBytes (hd : D[i]? = some (.bytes num)) (s : Bytes) : ∀ f ∈ putBytes num s, Own D f := by
  unfold putBytes
  split
  · exact List.forall_mem_nil _
  · exact List.forall_mem_singleton.2 (own_of_getElem hD (d := .bytes num) hd rfl trivial rfl)

theorem own_putRepeated (hd : D[i]? = some (.repeatedBytes num)) (ss : List Bytes) :
    ∀ f ∈ putRepeated num ss, Own D f := by
  intro f hf
  obtain ⟨s, -, rfl⟩ := List.mem_map.1 hf
  exact own_of_getElem hD (d := .repeatedBytes num) hd rfl trivial rfl

theorem own_putMessages {β : Type*} {parse : Bytes → Option β} (hd : D[i]? = some (.messages num parse))
    {serialize : β → Bytes} {ms : List β} (h : ∀ m ∈ ms, parse (serialize m) = some m) :
    ∀ f ∈ putMessages num serialize ms, Own D f := by
  intro f hf
  obtain ⟨s, hs, rfl⟩ := List.mem_map.1 hf
  obtain ⟨m, hm, rfl⟩ := List.mem_map.1 hs
  refine own_of_getElem hD (d := .messages num parse) hd rfl trivial ?_
  exact Option.isSome_iff_exists.2 ⟨m, h m hm⟩

end Own

/-! ## Writing and looking up -/

theorem lastOf_append {β : Type*} (num : ℕ) (get? : Value → Option β) (b : β) (fs gs : List Field) :
    lastOf num get? b (fs ++ gs) = lastOf num get? (lastOf num get? b fs) gs := by
  rw [lastOf, occurrences_append, List.getLast?_append, lastOf, lastOf]
  cases (occurrences num get? gs).getLast? <;> rfl

section LastOf

variable {num num' : ℕ}

theorem lastOf_of_ne {β : Type*} {get? : Value → Option β} {fs : List Field}
    (h : ∀ f ∈ fs, f.num ≠ num) (b : β) : lastOf num get? b fs = b := by
  rw [lastOf, occurrences_eq_nil num get? h]
  rfl

@[simp] theorem lastOf_putVarint (n m : ℕ) :
    lastOf num Value.varint? m (putVarint num n) = if n = 0 then m else n := by
  unfold putVarint
  split <;> simp [lastOf, occurrences, Value.varint?]

@[simp] theorem lastOf_putFixed32 (n m : ℕ) :
    lastOf num Value.fixed32? m (putFixed32 num n) = if n = 0 then m else n := by
  unfold putFixed32
  split <;> simp [lastOf, occurrences, Value.fixed32?]

@[simp] theorem lastOf_putBytes (s t : Bytes) :
    lastOf num Value.bytes? t (putBytes num s) = if s = [] then t else s := by
  unfold putBytes
  split <;> simp [lastOf, occurrences, Value.bytes?]

variable {β : Type*} {get? : Value → Option β}

@[simp] theorem lastOf_putVarint_ne (h : num' ≠ num) (b : β) (n : ℕ) :
    lastOf num get? b (putVarint num' n) = b :=
  lastOf_of_ne (fun _ hf => by rwa [num_of_mem_putVarint hf]) b

@[simp] theorem lastOf_putFixed32_ne (h : num' ≠ num) (b : β) (n : ℕ) :
    lastOf num get? b (putFixed32 num' n) = b :=
  lastOf_of_ne (fun _ hf => by rwa [num_of_mem_putFixed32 hf]) b

@[simp] theorem lastOf_putBytes_ne (h : num' ≠ num) (b : β) (s : Bytes) :
    lastOf num get? b (putBytes num' s) = b :=
  lastOf_of_ne (fun _ hf => by rwa [num_of_mem_putBytes hf]) b

@[simp] theorem lastOf_putRepeated_ne (h : num' ≠ num) (b : β) (ss : List Bytes) :
    lastOf num get? b (putRepeated num' ss) = b :=
  lastOf_of_ne (fun _ hf => by rwa [num_of_mem_putRepeated hf]) b

@[simp] theorem lastOf_putMessages_ne {γ : Type*} (h : num' ≠ num) (b : β) (serialize : γ → Bytes)
    (ms : List γ) : lastOf num get? b (putMessages num' serialize ms) = b :=
  lastOf_putRepeated_ne h b _

theorem occurrences_putMessages {γ : Type*} {parse : Bytes → Option γ} {serialize : γ → Bytes}
    {ms : List γ} (h : ∀ m ∈ ms, parse (serialize m) = some m) :
    occurrences num (Value.message? parse) (putMessages num serialize ms) = ms := by
  induction ms with
  | nil => rfl
  | cons m ms ih =>
    have hm : (Value.bytes (serialize m)).message? parse = some m := h m List.mem_cons_self
    rw [occurrences, putMessages, List.map_cons, putRepeated, List.map_cons, List.filterMap_cons,
      if_pos rfl, hm]
    exact congrArg (m :: ·) (ih fun m' hm' => h m' (List.mem_cons_of_mem m hm'))

end LastOf

/-! ## Types -/

/-- What is generated for a message type. -/
structure MessageType (M : Type*) where
  /-- The cases of `MergePartialFromCodedStream`. -/
  descriptors : List FieldDescriptor
  /-- The fields that `SerializeWithCachedSizes` writes. -/
  fields : M → List Field
  /-- The message in which the fields have been stored. -/
  ofFields : List Field → M
  /-- `ByteSize`. -/
  byteSize : M → ℕ
  /-- `MergeFrom`. -/
  mergeFrom : M → M → M

namespace MessageType

variable {M : Type*} (T : MessageType M)

/-- `New`. -/
def new : M := T.ofFields []

def serialize (m : M) : Bytes := encodeFields (T.fields m)

/-- A message protobuf can serialise. -/
def Fits (m : M) : Prop := (T.serialize m).length < 2 ^ 31

instance (m : M) : Decidable (T.Fits m) := inferInstanceAs (Decidable (_ < _))

/-- `MessageSizeNoVirtual`. -/
def messageSize (m : M) : ℕ := varintSize (T.byteSize m) + T.byteSize m

/-- `ParseFromArray`; groups and messages in the input may be `limit` levels deep. -/
def parse (limit : ℕ) (s : Bytes) : Option M :=
  (mergePartial limit T.descriptors (s.length + 1) .loop s).map T.ofFields

/-- What is proved for each type. -/
structure Lawful : Prop where
  wellFormed : WellFormed T.descriptors
  own : ∀ m, T.Fits m → ∀ f ∈ T.fields m, Own T.descriptors f
  ofFields_stored : ∀ fs gs, stored T.descriptors fs = some gs → T.ofFields gs = T.ofFields fs
  ofFields_append : ∀ fs m, T.Fits m → T.ofFields (fs ++ T.fields m) = T.mergeFrom (T.ofFields fs) m
  mergeFrom_new : ∀ m, T.mergeFrom T.new m = m
  byteSize_eq : ∀ m, T.byteSize m = (T.serialize m).length

end MessageType

section Serialized

variable {limit : ℕ}

theorem readAll_encode_append {f : Field} (h : f.Valid) (s : Bytes) :
    readAll limit [] (f.encode ++ s) = (readAll limit [] s).map (f :: ·) := by
  have hpos := h.num_pos
  have hlt := h.num_lt
  have hwt : f.value.wireType < 8 ∧ f.value.wireType ≠ 3 ∧ f.value.wireType ≠ 4 := by
    cases f.value <;> simp [Value.wireType]
  have htag : f.tag < 2 ^ 32 := by unfold Field.tag; omega
  have hmod : f.tag % 8 = f.value.wireType := by unfold Field.tag; omega
  have hdiv : f.tag / 8 = f.num := by unfold Field.tag; omega
  have hne : ¬(f.tag = 0 ∨ f.value.wireType = 4) := by unfold Field.tag; omega
  have hr : readVarint (f.encode ++ s) = some (f.tag, f.value.encode ++ s) := by
    rw [Field.encode, List.append_assoc, readVarint_encodeVarint (by omega)]
  rw [readAll_of_tag hr]
  dsimp only
  rw [Nat.mod_eq_of_lt htag, readTagged_nil, hmod, hdiv, if_neg hne, if_neg hwt.2.1,
    readValue_encode h.value, Option.bind_some]

theorem readAll_encodeFields {fs : List Field} (h : ∀ f ∈ fs, f.Valid) :
    readAll limit [] (encodeFields fs) = some fs := by
  induction fs with
  | nil => rfl
  | cons f fs ih =>
    have hcons : encodeFields (f :: fs) = f.encode ++ encodeFields fs := rfl
    rw [hcons, readAll_encode_append (h f List.mem_cons_self),
      ih fun g hg => h g (List.mem_cons_of_mem f hg), Option.map_some]

/-- An embedded message is no longer than the field it is in. -/
theorem length_serialize_le {β : Type*} {num : ℕ} {serialize : β → Bytes} {ms : List β} {m : β}
    (h : m ∈ ms) : (serialize m).length ≤ (encodeFields (putMessages num serialize ms)).length := by
  have hmem : (⟨num, .bytes (serialize m)⟩ : Field) ∈ putMessages num serialize ms :=
    List.mem_map_of_mem (List.mem_map_of_mem h)
  refine le_trans ?_ (length_encode_le hmem)
  rw [Field.encode, Value.encode, List.length_append, List.length_append]
  omega

end Serialized

namespace MessageType.Lawful

variable {M : Type*} {T : MessageType M} (hT : T.Lawful) {limit : ℕ}
include hT

theorem parse_eq (s : Bytes) :
    T.parse limit s = (readAll limit (embeddedIn T.descriptors) s).bind fun fs =>
      (stored T.descriptors fs).map T.ofFields := by
  rw [parse, mergePartial_eq hT.wellFormed, Option.map_bind]
  rfl

/-- **What the generated parser accepts, and what it makes of it.** -/
theorem parse_eq_some_iff {s : Bytes} {m : M} :
    T.parse limit s = some m ↔ ∃ fs, readAll limit (embeddedIn T.descriptors) s = some fs ∧
      (∀ f ∈ fs, ∀ d ∈ T.descriptors, d.Matches f → d.accepts f.value = true) ∧
        T.ofFields fs = m := by
  rw [hT.parse_eq, Option.bind_eq_some_iff]
  refine exists_congr fun fs => and_congr_right fun _ => ?_
  rw [← isSome_stored_iff hT.wellFormed, Option.map_eq_some_iff, Option.isSome_iff_exists]
  constructor
  · rintro ⟨gs, hgs, rfl⟩
    exact ⟨⟨gs, hgs⟩, (hT.ofFields_stored fs gs hgs).symm⟩
  · rintro ⟨⟨gs, hgs⟩, rfl⟩
    exact ⟨gs, hgs, hT.ofFields_stored fs gs hgs⟩

/-- **Reading a message behind what was read is merging it**, if nothing was cut off. -/
theorem parse_append {s : Bytes} {m m' : M} (hs : (readAll limit [] s).isSome)
    (h : T.parse limit s = some m) (hfit : T.Fits m') :
    T.parse limit (s ++ T.serialize m') = some (T.mergeFrom m m') := by
  obtain ⟨fs, hplain⟩ := Option.isSome_iff_exists.1 hs
  obtain ⟨fs', hfs, haccepts, rfl⟩ := hT.parse_eq_some_iff.1 h
  obtain rfl := Option.some.inj ((readAll_of_plain hplain).symm.trans hfs)
  have hown := hT.own m' hfit
  have hvalid := valid_of_inRange hfit fun f hf => (hown f hf).1
  refine hT.parse_eq_some_iff.2 ⟨fs ++ T.fields m', ?_, ?_, hT.ofFields_append fs m' hfit⟩
  · rw [readAll_append hplain, serialize, readAll_of_plain (readAll_encodeFields hvalid), Option.map_some]
  · refine List.forall_mem_append.2 ⟨haccepts, ?_⟩
    rw [← isSome_stored_iff hT.wellFormed, stored_of_own hown]
    rfl

theorem parse_nil : T.parse limit [] = some T.new := by
  rw [hT.parse_eq_some_iff]
  exact ⟨[], rfl, List.forall_mem_nil _, rfl⟩

/-- **Parsing undoes serialising.** -/
theorem parse_serialize {m : M} (h : T.Fits m) : T.parse limit (T.serialize m) = some m := by
  have := hT.parse_append rfl (hT.parse_nil : T.parse limit [] = _) h
  rwa [List.nil_append, hT.mergeFrom_new] at this

/-! ### Embedded messages -/

/-- In a message that can be serialised so can those in it. -/
theorem parse_embedded {num : ℕ} {fs : List Field} {ms : List M}
    (h : (encodeFields (fs ++ putMessages num T.serialize ms)).length < 2 ^ 31) :
    ∀ m ∈ ms, T.parse limit (T.serialize m) = some m := by
  intro m hm
  have hle : _ ≤ (encodeFields (putMessages num T.serialize ms)).length := length_serialize_le hm
  rw [encodeFields_append, List.length_append] at h
  have hfits : (T.serialize m).length < 2 ^ 31 := by omega
  exact hT.parse_serialize hfits

theorem length_encodeFields_putMessages {num : ℕ} (hnum : num < 16) (ms : List M) :
    (encodeFields (putMessages num T.serialize ms)).length = repeatedSize T.messageSize ms := by
  have hsize : ∀ m, stringSize (T.serialize m) = T.messageSize m := fun m => by
    rw [stringSize, messageSize, hT.byteSize_eq]
  rw [putMessages, length_encodeFields_putRepeated hnum, repeatedSize, List.length_map,
    List.foldl_map]
  simp only [hsize]
  rfl

end MessageType.Lawful

end MutexIM.ProtoWire
