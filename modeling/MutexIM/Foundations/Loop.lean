import Mathlib.Data.Nat.Notation

/-!
# While loops

A turn of a loop goes on in a new state or leaves with a result. `loop` makes a number of turns, and
`Ends` says that the loop leaves after some of them.

* `ends_iff_of_inr`: a first turn that leaves gives the result.
* `not_ends_of_stuck`: a turn that goes on in the same state goes on forever.
-/

namespace MutexIM

variable {σ α : Type*} {turn : σ → σ ⊕ α} {s s' : σ} {a b : α}

/-- The result of the loop if it leaves within `fuel` turns. -/
def loop (turn : σ → σ ⊕ α) : ℕ → σ → Option α
  | 0, _ => none
  | fuel + 1, s =>
    match turn s with
    | .inl s' => loop turn fuel s'
    | .inr a => some a

theorem loop_succ_of_inl (h : turn s = .inl s') (fuel : ℕ) :
    loop turn (fuel + 1) s = loop turn fuel s' := by
  rw [loop, h]

theorem loop_succ_of_inr (h : turn s = .inr a) (fuel : ℕ) : loop turn (fuel + 1) s = some a := by
  rw [loop, h]

/-- The loop leaves with the result `a`. -/
def Ends (turn : σ → σ ⊕ α) (s : σ) (a : α) : Prop := ∃ fuel, loop turn fuel s = some a

theorem ends_iff_of_inr (h : turn s = .inr b) : Ends turn s a ↔ b = a := by
  constructor
  · rintro ⟨fuel, hfuel⟩
    cases fuel with
    | zero => cases hfuel
    | succ fuel => rwa [loop_succ_of_inr h, Option.some.injEq] at hfuel
  · rintro rfl
    exact ⟨1, loop_succ_of_inr h 0⟩

/-- **A turn that changes nothing** is made again and again. -/
theorem loop_of_stuck (h : turn s = .inl s) (fuel : ℕ) : loop turn fuel s = none := by
  induction fuel with
  | zero => rfl
  | succ fuel ih => rw [loop_succ_of_inl h, ih]

theorem not_ends_of_stuck (h : turn s = .inl s) : ¬Ends turn s a := by
  rintro ⟨fuel, hfuel⟩
  rw [loop_of_stuck h] at hfuel
  cases hfuel

end MutexIM
