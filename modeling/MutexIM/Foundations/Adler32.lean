import MutexIM.Foundations.Bytes
import Mathlib.Tactic.NormNum

/-!
# Adler-32

The checksum of zlib: two sums modulo `65521`, of the bytes and of the partial sums, packed in one
32-bit number. `adler32 adler s` continues from the checksum `adler`; a fresh one starts from `1`.
-/

namespace MutexIM.Adler32

/-- The largest prime below `2 ^ 16`. -/
def base : ℕ := 65521

/-- One byte: the sum of the bytes, then the sum of the sums. -/
def step (sums : ℕ × ℕ) (c : UInt8) : ℕ × ℕ :=
  ((sums.1 + c.toNat) % base, (sums.2 + (sums.1 + c.toNat) % base) % base)

/-- The checksum of `s`, continued from `adler`. -/
def adler32 (adler : ℕ) (s : Bytes) : ℕ :=
  let sums := s.foldl step (adler % 2 ^ 16, adler / 2 ^ 16 % 2 ^ 16)
  sums.2 * 2 ^ 16 + sums.1

/-- Both sums stay below `2 ^ 16`. -/
theorem foldl_step_lt {a b : ℕ} (ha : a < 2 ^ 16) (hb : b < 2 ^ 16) (s : Bytes) :
    (s.foldl step (a, b)).1 < 2 ^ 16 ∧ (s.foldl step (a, b)).2 < 2 ^ 16 := by
  induction s generalizing a b with
  | nil => exact ⟨ha, hb⟩
  | cons c s ih =>
    have hmod : ∀ n, n % base < 2 ^ 16 := fun n =>
      (Nat.mod_lt n (by norm_num [base])).trans (by norm_num [base])
    exact ih (hmod _) (hmod _)

theorem adler32_lt (adler : ℕ) (s : Bytes) : adler32 adler s < 2 ^ 32 := by
  obtain ⟨h₁, h₂⟩ := foldl_step_lt (a := adler % 2 ^ 16) (b := adler / 2 ^ 16 % 2 ^ 16)
    (by omega) (by omega) s
  simp only [adler32]
  omega

/-- The first sum is that of the bytes. -/
theorem foldl_step_fst (s : Bytes) (a b : ℕ) :
    (s.foldl step (a, b)).1 % base = (a + (s.map UInt8.toNat).sum) % base := by
  induction s generalizing a b with
  | nil => rfl
  | cons c s ih =>
    rw [List.foldl_cons, step, ih, List.map_cons, List.sum_cons, Nat.mod_add_mod, Nat.add_assoc]

/-- **A changed byte changes the checksum**: the sum of the bytes changes by less than the modulus. -/
theorem adler32_ne {x y : Bytes} {c d : UInt8} (h : c ≠ d) (adler : ℕ) :
    adler32 adler (x ++ c :: y) ≠ adler32 adler (x ++ d :: y) := by
  intro heq
  have ha : adler % 2 ^ 16 < 2 ^ 16 := Nat.mod_lt _ (by norm_num)
  have hb : adler / 2 ^ 16 % 2 ^ 16 < 2 ^ 16 := Nat.mod_lt _ (by norm_num)
  have hc := (foldl_step_lt ha hb (x ++ c :: y)).1
  have hd := (foldl_step_lt ha hb (x ++ d :: y)).1
  have hsum := foldl_step_fst (x ++ c :: y) (adler % 2 ^ 16) (adler / 2 ^ 16 % 2 ^ 16)
  have hsum' := foldl_step_fst (x ++ d :: y) (adler % 2 ^ 16) (adler / 2 ^ 16 % 2 ^ 16)
  simp only [adler32] at heq
  generalize (x ++ c :: y).foldl step _ = sums at heq hc hsum
  generalize (x ++ d :: y).foldl step _ = sums' at heq hd hsum'
  have hfst : sums.1 = sums'.1 := by omega
  rw [hfst, hsum', List.map_append, List.map_append, List.sum_append, List.sum_append, List.map_cons,
    List.map_cons, List.sum_cons, List.sum_cons] at hsum
  have hc' := c.toNat_lt
  have hd' := d.toNat_lt
  have hmod : base = 65521 := rfl
  rw [hmod] at hsum
  exact h (UInt8.toNat_inj.1 (by omega))

end MutexIM.Adler32
