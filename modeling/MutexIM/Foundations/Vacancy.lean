import Mathlib.Data.Multiset.AddSub
import MutexIM.Foundations.Runs

/-!
# Taking a place that was free

A place is free until it is taken. Who wants it checks that it is free, becomes a claimant, and takes it
later without another check, whether or not it is free by then.

* `Vacancy.next` is a check, or a claimant takes the place.
* `Vacancy.total_next`: only a check of the free place adds to those who claim it or have taken it.
* `Vacancy.run_iff`: in a run, the place is claimed and taken by one at most exactly if nobody finds it
  free while there is a claimant.
-/

namespace MutexIM

/-- Those who found the place free and have not taken it, and those who have taken it, in order. -/
@[ext] structure Vacancy (α : Type*) where
  claimants : Multiset α
  taken : List α

namespace Vacancy

variable {α : Type*} [DecidableEq α]

inductive Op (α : Type*)
  | check (a : α)
  | take (a : α)

def next (v : Vacancy α) : Op α → Option (Vacancy α)
  | .check a => some (if v.taken = [] then { v with claimants := a ::ₘ v.claimants } else v)
  | .take a =>
    if a ∈ v.claimants then some ⟨v.claimants.erase a, v.taken ++ [a]⟩ else none

/-- Nobody finds the place free while there is a claimant. -/
def Exclusive (v : Vacancy α) : Op α → Prop
  | .check _ => v.taken = [] → v.claimants = 0
  | .take _ => True

/-- The number of those who join the claimants. -/
def joining (v : Vacancy α) : Op α → ℕ
  | .check _ => if v.taken = [] then 1 else 0
  | .take _ => 0

/-- The number of those who claim the place or have taken it. -/
def total (v : Vacancy α) : ℕ := v.claimants.card + v.taken.length

variable {v v' : Vacancy α} {o : Op α} {os : List (Op α)}

/-- **Who is added by a step.** -/
theorem total_next (h : v.next o = some v') :
    v'.total = v.total + v.joining o := by
  cases o with
  | check a =>
    rw [joining]
    obtain rfl := Option.some.inj h
    by_cases hfree : v.taken = []
    · simp only [if_pos hfree, total, Multiset.card_cons]
      omega
    · simp only [if_neg hfree, Nat.add_zero]
  | take a =>
    rw [next] at h
    split at h
    · next hmem =>
      obtain rfl := Option.some.inj h
      have hcard := Multiset.card_erase_add_one hmem
      simp only [joining, total, List.length_append, List.length_singleton]
      omega
    · cases h

theorem total_le_next (h : v.next o = some v') : v.total ≤ v'.total := by
  rw [total_next h]
  exact Nat.le_add_right _ _

/-- A step is exclusive exactly if there is one at most after it. -/
theorem exclusive_iff (hv : v.total ≤ 1) (h : v.next o = some v') : v.Exclusive o ↔ v'.total ≤ 1 := by
  rw [total_next h]
  cases o with
  | check a =>
    rw [Exclusive, joining]
    by_cases hfree : v.taken = []
    · have htotal : v.total = v.claimants.card := by rw [total, hfree, List.length_nil, Nat.add_zero]
      rw [if_pos hfree, htotal, ← Multiset.card_eq_zero]
      exact ⟨fun h => by rw [h hfree], fun h _ => by omega⟩
    · rw [if_neg hfree]
      exact iff_of_true (fun h => absurd h hfree) hv
  | take a => exact iff_of_true trivial hv

/-- **Checks without claimants**: there is one who claims or has taken the place at most. -/
theorem run_iff (hv : v.total ≤ 1) (h : Run next (fun _ _ => True) v os v') :
    Run next Exclusive v os v' ↔ v'.total ≤ 1 := by
  rw [h.invariant_iff (fun _ _ _ hs hstep => exclusive_iff hs hstep) hv]
  refine ⟨And.right, fun hv' => ⟨?_, hv'⟩⟩
  refine (h.backward (I := fun v => v.total ≤ 1) (fun s e s' hstep hs' => ?_) hv').1
  have hle := (total_le_next hstep).trans hs'
  exact ⟨hle, hle⟩

end Vacancy

end MutexIM
