import Mathlib.Data.Int.Log
import Mathlib.Data.Rat.Floor
import MutexIM.Foundations.Bytes

/-!
# Numbers of JavaScript

A comparison and a subtraction turn a text into a number, and where a text is expected a number becomes a
text. The numbers are doubles; a text is given by its bytes in UTF-8.

* `round` is the nearest double, `toNumber` the number of a text, `Number.text` the text of a number.
* `toNumber_itoa`: the decimal text of a number below `2 ^ 53` is read exactly.
-/

namespace MutexIM.JsNumber

open Bytes

/-- A number. The two zeros are one: no comparison and no text tells them apart. -/
inductive Number
  | nan
  | infinity (negative : Bool)
  | finite (value : ℚ)
  deriving DecidableEq

/-! ## Rounding -/

/-- The nearest integer, the even one in the middle between two. -/
def roundEven (x : ℚ) : ℤ :=
  let k := ⌊x⌋
  if x - k < 1 / 2 then k else if 1 / 2 < x - k then k + 1 else k + k % 2

/-- The nearest double: 53 binary places, of which none is below that of `2 ^ (-1074)`. -/
def round (x : ℚ) : Number :=
  let e : ℤ := max (Int.log 2 |x| - 52) (-1074)
  let y : ℚ := roundEven (x / 2 ^ e) * 2 ^ e
  if |y| < 2 ^ 1024 then .finite y else .infinity (y < 0)

@[simp] theorem roundEven_intCast (k : ℤ) : roundEven k = k := by
  rw [roundEven, Int.floor_intCast, sub_self]
  exact if_pos (by norm_num)

/-- **Integers of 53 binary places are doubles.** -/
theorem round_natCast {n : ℕ} (h : n < 2 ^ 53) : round n = .finite n := by
  have hlog : Int.log 2 |(n : ℚ)| ≤ 52 := by
    rw [Nat.abs_cast, Int.log_natCast]
    exact_mod_cast Nat.lt_succ_iff.1 (Nat.log_lt_of_lt_pow' (by omega) h)
  obtain ⟨j, hj⟩ : ∃ j : ℕ, max (Int.log 2 |(n : ℚ)| - 52) (-1074) = -(j : ℤ) :=
    ⟨(-max (Int.log 2 |(n : ℚ)| - 52) (-1074)).toNat, by omega⟩
  have hscaled : (n : ℚ) / 2 ^ (-(j : ℤ)) = ((n * 2 ^ j : ℤ) : ℚ) := by
    rw [zpow_neg, div_inv_eq_mul, zpow_natCast]
    push_cast
    rfl
  have hvalue : ((n * 2 ^ j : ℤ) : ℚ) * 2 ^ (-(j : ℤ)) = n := by
    rw [← hscaled]
    exact div_mul_cancel₀ _ (zpow_ne_zero _ two_ne_zero)
  have hsmall : |(n : ℚ)| < 2 ^ 1024 := by
    rw [Nat.abs_cast]
    exact_mod_cast h.trans (Nat.pow_lt_pow_right (by omega) (by omega))
  simp only [round, hj, hscaled, roundEven_intCast, hvalue, if_pos hsmall]

/-! ## The number of a text -/

/-- The white space and the line ends, which are left out at both ends of a text. -/
def whitespace : List Bytes :=
  [[9], [10], [11], [12], [13], [32], [194, 160], [225, 154, 128], [226, 128, 128], [226, 128, 129],
    [226, 128, 130], [226, 128, 131], [226, 128, 132], [226, 128, 133], [226, 128, 134],
    [226, 128, 135], [226, 128, 136], [226, 128, 137], [226, 128, 138], [226, 128, 168],
    [226, 128, 169], [226, 128, 175], [226, 129, 159], [227, 128, 128], [239, 187, 191]]

/-- Leave out the given characters at the beginning. -/
def dropChars (chars : List Bytes) : ℕ → Bytes → Bytes
  | 0, s => s
  | fuel + 1, s =>
    match chars.find? (·.isPrefixOf s) with
    | some c => dropChars chars fuel (s.drop c.length)
    | none => s

def trim (s : Bytes) : Bytes :=
  let rest := dropChars whitespace s.length s
  (dropChars (whitespace.map List.reverse) rest.length rest.reverse).reverse

/-- The value of a digit. -/
def digit (base : ℕ) (c : UInt8) : Option ℕ :=
  let n :=
    if 48 ≤ c ∧ c ≤ 57 then c.toNat - 48
    else if 97 ≤ c ∧ c ≤ 122 then c.toNat - 87
    else if 65 ≤ c ∧ c ≤ 90 then c.toNat - 55
    else base
  if n < base then some n else none

/-- The value of one or more digits. -/
def digits (base : ℕ) (s : Bytes) : Option ℕ :=
  if s = [] then none else s.foldlM (fun n c => (digit base c).map (n * base + ·)) 0

/-- An integer in base 16, 8 or 2, with its prefix. -/
def nonDecimal : Bytes → Option ℕ
  | 48 :: c :: s =>
    if c = 120 ∨ c = 88 then digits 16 s
    else if c = 111 ∨ c = 79 then digits 8 s
    else if c = 98 ∨ c = 66 then digits 2 s
    else none
  | _ => none

/-- The exponent part, which may be left out. -/
def exponent : Bytes → Option ℤ
  | [] => some 0
  | c :: s =>
    if c = 101 ∨ c = 69 then
      match s with
      | 43 :: ds => (digits 10 ds).map Int.ofNat
      | 45 :: ds => (digits 10 ds).map fun n => -(n : ℤ)
      | ds => (digits 10 ds).map Int.ofNat
    else none

def isDigit (c : UInt8) : Bool := 48 ≤ c ∧ c ≤ 57

/-- A decimal without a sign: digits with a point before, behind or between them, and an exponent. -/
def unsignedDecimal (s : Bytes) : Option ℚ :=
  let whole := s.takeWhile isDigit
  let (fraction, rest) :=
    match s.dropWhile isDigit with
    | 46 :: rest => (rest.takeWhile isDigit, rest.dropWhile isDigit)
    | rest => ([], rest)
  (digits 10 (whole ++ fraction)).bind fun n =>
    (exponent rest).map fun (e : ℤ) => (n : ℚ) * 10 ^ (e - fraction.length)

/-- What comes behind a sign. -/
def unsignedNumber (negative : Bool) (s : Bytes) : Number :=
  if s = ascii "Infinity" then .infinity negative
  else
    match unsignedDecimal s with
    | some x => round (if negative then -x else x)
    | none => .nan

def decimal : Bytes → Number
  | 43 :: s => unsignedNumber false s
  | 45 :: s => unsignedNumber true s
  | s => unsignedNumber false s

/-- The number of a text: zero if there is nothing but white space, and not a number if it is no literal. -/
def toNumber (s : Bytes) : Number :=
  let s := trim s
  if s = [] then .finite 0
  else
    match nonDecimal s with
    | some n => round n
    | none => decimal s

/-! ## Decimal integers -/

theorem isDigit_of_mem_itoa {n : ℕ} {b : UInt8} (h : b ∈ itoa n) : isDigit b = true := by
  rw [isDigit, decide_eq_true_iff, UInt8.le_iff_toNat_le, UInt8.le_iff_toNat_le]
  exact mem_itoa h

theorem dropChars_of_isDigit {chars : List Bytes}
    (hchars : ∀ c ∈ chars, c.head?.any (fun d => !isDigit d) = true) {b : UInt8} (hb : isDigit b = true)
    (s : Bytes) (fuel : ℕ) : dropChars chars fuel (b :: s) = b :: s := by
  cases fuel with
  | zero => rfl
  | succ fuel =>
    have hnone : chars.find? (·.isPrefixOf (b :: s)) = none := by
      refine List.find?_eq_none.2 fun c hc => ?_
      have hhead := hchars c hc
      cases c with
      | nil => cases hhead
      | cons d c =>
        have hne : d ≠ b := by
          rintro rfl
          rw [List.head?_cons, Option.any_some, hb] at hhead
          cases hhead
        rw [List.isPrefixOf_cons_cons, beq_false_of_ne hne, Bool.false_and]
        exact Bool.false_ne_true
    rw [dropChars, hnone]

/-- Nothing is left out where a text begins and ends in a digit. -/
theorem trim_of_isDigit {s : Bytes} (hs : ∀ b ∈ s, isDigit b = true) (hne : s ≠ []) : trim s = s := by
  obtain ⟨b, rest, rfl⟩ := List.exists_cons_of_ne_nil hne
  obtain ⟨b', rest', hrev⟩ := List.exists_cons_of_ne_nil (List.reverse_ne_nil_iff.2 hne)
  have hb' : b' ∈ (b :: rest).reverse := hrev ▸ List.mem_cons_self
  rw [trim, dropChars_of_isDigit (by decide) (hs b List.mem_cons_self), hrev,
    dropChars_of_isDigit (by decide) (hs b' (List.mem_reverse.1 hb')), ← hrev, List.reverse_reverse]

theorem digit_of_isDigit {c : Char} (h : c.isDigit = true) :
    digit 10 (UInt8.ofNat c.toNat) = some (c.toNat - 48) := by
  have hrange := isDigit_iff.1 h
  have hbyte := toNat_ofNat_of_isDigit h
  have hlow : 48 ≤ UInt8.ofNat c.toNat ∧ UInt8.ofNat c.toNat ≤ 57 := by
    rw [UInt8.le_iff_toNat_le, UInt8.le_iff_toNat_le, hbyte]
    exact hrange
  simp only [digit, if_pos hlow, hbyte]
  exact if_pos (by omega)

theorem foldlM_digits {cs : List Char} (h : ∀ c ∈ cs, c.isDigit = true) (k : ℕ) :
    (cs.map fun c => UInt8.ofNat c.toNat).foldlM (fun n c => (digit 10 c).map (n * 10 + ·)) k =
      some (Nat.ofDigitChars 10 cs k) := by
  induction cs generalizing k with
  | nil => rfl
  | cons c cs ih =>
    obtain ⟨hc, hcs⟩ := List.forall_mem_cons.1 h
    rw [List.map_cons, List.foldlM_cons, digit_of_isDigit hc, Option.map_some, Option.bind_eq_bind,
      Option.bind_some, ih hcs, Nat.ofDigitChars_cons, Nat.mul_comm k 10]
    rfl

theorem digits_itoa (n : ℕ) : digits 10 (itoa n) = some n := by
  rw [digits, if_neg (itoa_ne_nil n), itoa_natCast,
    foldlM_digits (fun c hc => isDigit_of_mem_toDigits (n := n) hc), Nat.ofDigitChars_ten_toDigits]

theorem unsignedDecimal_itoa (n : ℕ) : unsignedDecimal (itoa n) = some (n : ℚ) := by
  have hdigits : ∀ b ∈ itoa n, isDigit b = true := fun b hb => isDigit_of_mem_itoa hb
  rw [unsignedDecimal, List.takeWhile_eq_self_iff.2 hdigits, List.dropWhile_eq_nil_iff.2 hdigits]
  simp only [List.append_nil, digits_itoa, exponent, Option.bind_some, Option.map_some, List.length_nil,
    Nat.cast_zero, sub_zero, zpow_zero, mul_one]

/-- **A decimal integer is read exactly.** -/
theorem toNumber_itoa {n : ℕ} (h : n < 2 ^ 53) : toNumber (itoa n) = .finite n := by
  have hdigits : ∀ b ∈ itoa n, isDigit b = true := fun b hb => isDigit_of_mem_itoa hb
  have hdecimal := unsignedDecimal_itoa n
  rw [toNumber, trim_of_isDigit hdigits (itoa_ne_nil n), if_neg (itoa_ne_nil n)]
  obtain ⟨b, s, hs⟩ := List.exists_cons_of_ne_nil (itoa_ne_nil n)
  rw [hs] at hdigits hdecimal ⊢
  have hne : ∀ c, isDigit c = false → b ≠ c := by
    rintro c hc rfl
    rw [hdigits b List.mem_cons_self] at hc
    cases hc
  have hliteral : nonDecimal (b :: s) = none := by
    unfold nonDecimal
    split
    · next c rest heq =>
      have hc := hdigits c (by rw [heq]; exact List.mem_cons_of_mem _ List.mem_cons_self)
      have hletter : ∀ d, isDigit d = false → c ≠ d := by
        rintro d hd rfl
        rw [hc] at hd
        cases hd
      rw [if_neg, if_neg, if_neg]
      · exact not_or.2 ⟨hletter _ rfl, hletter _ rfl⟩
      · exact not_or.2 ⟨hletter _ rfl, hletter _ rfl⟩
      · exact not_or.2 ⟨hletter _ rfl, hletter _ rfl⟩
    · rfl
  have hunsigned : decimal (b :: s) = unsignedNumber false (b :: s) := by
    unfold decimal
    split
    · next heq => exact absurd (List.cons.inj heq).1 (hne 43 rfl)
    · next heq => exact absurd (List.cons.inj heq).1 (hne 45 rfl)
    · rfl
  have hinfinity : b :: s ≠ ascii "Infinity" := fun heq => hne 73 rfl (List.cons.inj heq).1
  rw [hliteral]
  dsimp only
  rw [hunsigned, unsignedNumber, if_neg hinfinity, hdecimal]
  exact round_natCast h

namespace Number

/-! ## Operators -/

/-- `x >= y`. -/
def Ge : Number → Number → Prop
  | .nan, _ => False
  | _, .nan => False
  | .finite x, .finite y => y ≤ x
  | .infinity negative, .finite _ => negative = false
  | .finite _, .infinity negative => negative = true
  | .infinity negative, .infinity negative' => negative = false ∨ negative' = true

instance : DecidableRel Ge
  | .nan, _ => inferInstanceAs (Decidable False)
  | .infinity _, .nan => inferInstanceAs (Decidable False)
  | .finite _, .nan => inferInstanceAs (Decidable False)
  | .finite x, .finite y => inferInstanceAs (Decidable (y ≤ x))
  | .infinity _, .finite _ => inferInstanceAs (Decidable (_ = _))
  | .finite _, .infinity _ => inferInstanceAs (Decidable (_ = _))
  | .infinity _, .infinity _ => inferInstanceAs (Decidable (_ ∨ _))

/-- `x - y`. -/
def sub : Number → Number → Number
  | .nan, _ => .nan
  | _, .nan => .nan
  | .finite x, .finite y => round (x - y)
  | .infinity negative, .finite _ => .infinity negative
  | .finite _, .infinity negative => .infinity !negative
  | .infinity negative, .infinity negative' =>
    if negative = negative' then .nan else .infinity negative

/-! ## The text of a number -/

/-- A multiple of `10 ^ t` that is rounded to `x`, the nearest one if there are two. -/
def multiple? (x : ℚ) (t : ℤ) : Option ℤ :=
  let y := x / 10 ^ t
  [roundEven y, ⌊y⌋, ⌊y⌋ + 1].find? fun s => round ((s : ℚ) * 10 ^ t) = .finite x

/-- The decimal with the fewest digits that is rounded to `x`. Seventeen digits are always enough. -/
def shortest (x : ℚ) : Option (ℤ × ℤ) :=
  (List.range 17).findSome? fun k =>
    let t := Int.log 10 x - k
    (multiple? x t).map (·, t)

/-- The text of `s * 10 ^ t`. -/
def decimalText (s : ℕ) (t : ℤ) : Bytes :=
  let n := t + (itoa s).length
  let ds := ((itoa s).reverse.dropWhile (· = 48)).reverse
  if ds.length ≤ n ∧ n ≤ 21 then ds ++ List.replicate (n - ds.length).toNat 48
  else if 0 < n ∧ n ≤ 21 then ds.take n.toNat ++ 46 :: ds.drop n.toNat
  else if -6 < n ∧ n ≤ 0 then ascii "0." ++ List.replicate (-n).toNat 48 ++ ds
  else
    ds.take 1 ++ (if ds.length = 1 then [] else 46 :: ds.drop 1) ++
      (if 0 ≤ n - 1 then ascii "e+" else ascii "e-") ++ itoa (n - 1).natAbs

def text : Number → Bytes
  | .nan => ascii "NaN"
  | .infinity negative => if negative then ascii "-Infinity" else ascii "Infinity"
  | .finite x =>
    if x = 0 then ascii "0"
    else (if x < 0 then ascii "-" else []) ++
      ((shortest |x|).map fun (s, t) => decimalText s.toNat t).getD []

end Number

end MutexIM.JsNumber
