import Mathlib.Algebra.Group.Nat.Defs
import Mathlib.Data.Int.Notation
import Mathlib.Data.List.TakeWhile
import Mathlib.Data.Nat.Notation

/-!
# Byte strings

A byte string is a `List UInt8`; it stands for a `std::string`, a `char` range or the contents of a
network message.

* `ascii` is the byte string of a string literal.
* `cstr s` is what a C string function sees of `s`: the bytes before the first zero byte.
* `itoa` and `atoi` write and read decimal numbers (`atoi_itoa`).
* `be32 n` and `peek32 s` write and read a 32-bit number in network byte order
  (`peek32_be32_append`, `be32_peek32`).
-/

namespace MutexIM

/-- Byte strings. -/
abbrev Bytes := List UInt8

namespace Bytes

instance (s : Bytes) (l : List Bytes) : Decidable (s ∈ l) := List.instDecidableMemOfLawfulBEq s l

/-- The bytes of an ASCII literal. -/
def ascii (s : String) : Bytes := s.toList.map fun c => UInt8.ofNat c.toNat

/-! ## C strings -/

/-- The bytes a C string function reads from `s.c_str()`. -/
def cstr (s : Bytes) : Bytes := s.takeWhile (· ≠ 0)

/-- No byte of the string is zero. -/
def NulFree (s : Bytes) : Prop := ∀ c ∈ s, c ≠ 0

instance (s : Bytes) : Decidable s.NulFree := List.decidableBAll (fun c => c ≠ 0) s

theorem nulFree_cstr (s : Bytes) : NulFree (cstr s) := fun c hc => by
  simpa using List.mem_takeWhile_imp hc

theorem cstr_eq_self {s : Bytes} (h : NulFree s) : cstr s = s :=
  List.takeWhile_eq_self_iff.2 fun c hc => by simpa using h c hc

@[simp] theorem cstr_cstr (s : Bytes) : cstr (cstr s) = cstr s := cstr_eq_self (nulFree_cstr s)

theorem cstr_eq_self_iff {s : Bytes} : cstr s = s ↔ NulFree s :=
  ⟨fun h => h ▸ nulFree_cstr s, cstr_eq_self⟩

theorem NulFree.append {s t : Bytes} (hs : NulFree s) (ht : NulFree t) : NulFree (s ++ t) :=
  fun c hc => (List.mem_append.1 hc).elim (hs c) (ht c)

/-- A prefix without a zero byte is kept by `cstr`. -/
theorem cstr_append {s : Bytes} (hs : NulFree s) (t : Bytes) : cstr (s ++ t) = s ++ cstr t :=
  List.takeWhile_append_of_pos fun c hc => by simpa using hs c hc

/-- What stands behind a zero byte is cut off. -/
theorem cstr_append_of_not_nulFree {s : Bytes} (hs : ¬NulFree s) (t : Bytes) :
    cstr (s ++ t) = cstr s := by
  rw [← cstr_eq_self_iff] at hs
  unfold cstr at hs ⊢
  rw [List.takeWhile_append, if_neg]
  exact fun hlen => hs ((List.takeWhile_prefix _).eq_of_length hlen)

/-! ## Decimal numbers -/

/-- `_itoa_s` with base ten. -/
def itoa (n : ℤ) : Bytes := ascii (toString n)

/-- `atoi`: blanks, a sign, and digits up to the first other byte. -/
def atoi (s : Bytes) : ℤ :=
  let digits (ds : Bytes) : ℤ :=
    (ds.takeWhile fun c => 48 ≤ c ∧ c ≤ 57).foldl (fun n c => n * 10 + (c.toNat - 48)) 0
  match s.dropWhile fun c => c = 32 ∨ 9 ≤ c ∧ c ≤ 13 with
  | 45 :: ds => -digits ds
  | 43 :: ds => digits ds
  | ds => digits ds

theorem isDigit_iff {c : Char} : c.isDigit = true ↔ 48 ≤ c.toNat ∧ c.toNat ≤ 57 := by
  rw [Char.isDigit, Bool.and_eq_true, decide_eq_true_iff, decide_eq_true_iff]
  exact Iff.rfl

theorem toNat_ofNat_of_isDigit {c : Char} (h : c.isDigit = true) :
    (UInt8.ofNat c.toNat).toNat = c.toNat := by
  have := isDigit_iff.1 h
  rw [UInt8.toNat_ofNat']
  omega

/-- The digits of a number, read again. -/
theorem foldl_digits {cs : List Char} (h : ∀ c ∈ cs, c.isDigit = true) (k : ℕ) :
    (cs.map fun c => UInt8.ofNat c.toNat).foldl (fun n c => n * 10 + ((c.toNat : ℤ) - 48)) (k : ℤ) =
      Nat.ofDigitChars 10 cs k := by
  induction cs generalizing k with
  | nil => simp
  | cons c cs ih =>
    have hc := h c List.mem_cons_self
    have hrange := isDigit_iff.1 hc
    have hstep : (k : ℤ) * 10 + ((c.toNat : ℤ) - 48) = (10 * k + (c.toNat - '0'.toNat) : ℕ) := by
      have hzero : '0'.toNat = 48 := rfl
      omega
    rw [List.map_cons, List.foldl_cons, toNat_ofNat_of_isDigit hc, hstep,
      ih fun c hc => h c (List.mem_cons_of_mem _ hc), Nat.ofDigitChars_cons]

theorem itoa_natCast (n : ℕ) : itoa n = (Nat.toDigits 10 n).map fun c => UInt8.ofNat c.toNat := by
  change ascii n.repr = _
  rw [ascii, Nat.toList_repr]

theorem isDigit_of_mem_toDigits {n : ℕ} {c : Char} (h : c ∈ Nat.toDigits 10 n) : c.isDigit = true :=
  Nat.isDigit_of_mem_toDigits (by omega) (by omega) h

theorem mem_itoa {n : ℕ} {b : UInt8} (h : b ∈ itoa n) : 48 ≤ b.toNat ∧ b.toNat ≤ 57 := by
  rw [itoa_natCast] at h
  obtain ⟨c, hc, rfl⟩ := List.mem_map.1 h
  rw [toNat_ofNat_of_isDigit (isDigit_of_mem_toDigits hc)]
  exact isDigit_iff.1 (isDigit_of_mem_toDigits hc)

theorem itoa_ne_nil (n : ℕ) : itoa n ≠ [] := by
  rw [itoa_natCast, Ne, List.map_eq_nil_iff]
  exact Nat.toDigits_ne_nil

theorem nulFree_itoa (n : ℕ) : NulFree (itoa n) := by
  rintro b hb rfl
  have h := (mem_itoa hb).1
  rw [UInt8.toNat_zero] at h
  omega

/-- **A number is read as it was written.** -/
theorem atoi_itoa (n : ℕ) : atoi (itoa n) = n := by
  have htake : (itoa n).takeWhile (fun c => 48 ≤ c ∧ c ≤ 57) = itoa n :=
    List.takeWhile_eq_self_iff.2 fun b hb => decide_eq_true (mem_itoa hb)
  have hvalue : ((itoa n).takeWhile (fun c => 48 ≤ c ∧ c ≤ 57)).foldl
      (fun n c => n * 10 + ((c.toNat : ℤ) - 48)) 0 = n := by
    rw [htake, itoa_natCast]
    have h := foldl_digits (fun c hc => isDigit_of_mem_toDigits (n := n) hc) 0
    rw [Nat.ofDigitChars_ten_toDigits] at h
    exact h
  obtain ⟨b, s, hs⟩ := List.exists_cons_of_ne_nil (itoa_ne_nil n)
  -- the first byte is neither a blank nor a sign
  obtain ⟨hlo, hhi⟩ := mem_itoa (hs ▸ List.mem_cons_self : b ∈ itoa n)
  have hdrop : (itoa n).dropWhile (fun c => c = 32 ∨ 9 ≤ c ∧ c ≤ 13) = itoa n := by
    rw [hs]
    refine List.dropWhile_cons_of_neg fun hblank => ?_
    simp only [decide_eq_true_iff, ← UInt8.toNat_inj, UInt8.le_iff_toNat_le, UInt8.reduceToNat] at hblank
    omega
  have hne : ∀ c t, itoa n = c :: t → c.toNat = b.toNat := by
    rintro c t h
    rw [(List.cons.inj (hs.symm.trans h)).1]
  unfold atoi
  rw [hdrop]
  split
  · next h =>
    have hminus : (45 : UInt8).toNat = b.toNat := hne _ _ h
    simp only [UInt8.reduceToNat] at hminus
    omega
  · next h =>
    have hplus : (43 : UInt8).toNat = b.toNat := hne _ _ h
    simp only [UInt8.reduceToNat] at hplus
    omega
  · exact hvalue

/-! ## Numbers in network byte order -/

/-- The four bytes of `n mod 2 ^ 32`, the most significant first. -/
def be32 (n : ℕ) : Bytes :=
  [UInt8.ofNat (n / 2 ^ 24), UInt8.ofNat (n / 2 ^ 16), UInt8.ofNat (n / 2 ^ 8), UInt8.ofNat n]

/-- The two bytes of `n mod 2 ^ 16`, the most significant first. -/
def be16 (n : ℕ) : Bytes := [UInt8.ofNat (n / 2 ^ 8), UInt8.ofNat n]

/-- The number in the first four bytes; bytes past the end read as zero. -/
def peek32 (s : Bytes) : ℕ :=
  (s.getD 0 0).toNat * 2 ^ 24 + (s.getD 1 0).toNat * 2 ^ 16 + (s.getD 2 0).toNat * 2 ^ 8 +
    (s.getD 3 0).toNat

@[simp] theorem length_be32 (n : ℕ) : (be32 n).length = 4 := rfl

theorem peek32_lt (s : Bytes) : peek32 s < 2 ^ 32 := by
  have h (i : ℕ) : (s.getD i 0).toNat < 256 := UInt8.toNat_lt _
  have h0 := h 0
  have h1 := h 1
  have h2 := h 2
  have h3 := h 3
  unfold peek32
  omega

theorem peek32_be32_append (n : ℕ) (s : Bytes) : peek32 (be32 n ++ s) = n % 2 ^ 32 := by
  simp only [peek32, be32, List.cons_append, List.getD_cons_zero, List.getD_cons_succ,
    UInt8.toNat_ofNat']
  omega

/-- Four bytes are those of the number read from them. -/
theorem be32_peek32 (a b c d : UInt8) (s : Bytes) :
    be32 (peek32 (a :: b :: c :: d :: s)) = [a, b, c, d] := by
  have ha := a.toNat_lt
  have hb := b.toNat_lt
  have hc := c.toNat_lt
  have hd := d.toNat_lt
  simp only [peek32, be32, List.getD_cons_zero, List.getD_cons_succ, List.cons.injEq,
    ← UInt8.toNat_inj, UInt8.toNat_ofNat', and_true]
  omega

theorem be32_peek32_eq_take {s : Bytes} (h : 4 ≤ s.length) : be32 (peek32 s) = s.take 4 := by
  match s, h with
  | a :: b :: c :: d :: s, _ => rw [be32_peek32]; rfl

/-- A string of at least four bytes starts with the bytes of its number. -/
theorem eq_be32_append {s : Bytes} (h : 4 ≤ s.length) : s = be32 (peek32 s) ++ s.drop 4 := by
  rw [be32_peek32_eq_take h, List.take_append_drop]

end Bytes

end MutexIM
