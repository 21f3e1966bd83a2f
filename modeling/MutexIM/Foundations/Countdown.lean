import Mathlib.Algebra.Group.Int.Defs
import Mathlib.Data.List.Basic
import Mathlib.Data.Nat.Notation

/-!
# A countdown of answers

A request asks several questions at once. What the answers bring is collected, each answer that is complete
is counted, and when none is left a continuation is called with the collection.

* `arriveAll_left`, `arriveAll_collected`: what has been counted and collected.
* `arriveAll_calls_of_lt`: before the last answer there is no call.
* `arriveAll_calls`: after the last one there is a call exactly if all answers were complete.
-/

namespace MutexIM

/-- How many answers are left, what they have brought, and the calls of the continuation. -/
structure Countdown (α : Type*) where
  left : ℤ
  collected : List α
  calls : List (List α)

namespace Countdown

variable {α : Type*} {s : Countdown α} {as : List (List α × Bool)}

/-- An answer arrives, with some values; only a complete one is counted. -/
def arrive (s : Countdown α) (got : List α) (complete : Bool) : Countdown α :=
  let s := { s with collected := s.collected ++ got }
  if complete then
    let s := { s with left := s.left - 1 }
    if s.left ≤ 0 then { s with calls := s.calls ++ [s.collected] } else s
  else s

def arriveAll (s : Countdown α) (as : List (List α × Bool)) : Countdown α :=
  as.foldl (fun s a => s.arrive a.1 a.2) s

theorem arrive_left (got : List α) (complete : Bool) :
    (s.arrive got complete).left = if complete then s.left - 1 else s.left := by
  cases complete with
  | false => rfl
  | true => by_cases h : s.left - 1 ≤ 0 <;> simp [arrive, h]

theorem arrive_collected (got : List α) (complete : Bool) :
    (s.arrive got complete).collected = s.collected ++ got := by
  cases complete with
  | false => rfl
  | true => by_cases h : s.left - 1 ≤ 0 <;> simp [arrive, h]

theorem arrive_calls (got : List α) (complete : Bool) :
    (s.arrive got complete).calls =
      if complete ∧ s.left - 1 ≤ 0 then s.calls ++ [s.collected ++ got] else s.calls := by
  cases complete with
  | false => rfl
  | true => by_cases h : s.left - 1 ≤ 0 <;> simp [arrive, h]

theorem arriveAll_left : (s.arriveAll as).left = s.left - (as.countP fun a => a.2 : ℕ) := by
  induction as generalizing s with
  | nil => exact (Int.sub_zero _).symm
  | cons a as ih =>
    rw [arriveAll, List.foldl_cons, ← arriveAll, ih, arrive_left, List.countP_cons]
    cases a.2 with
    | false => exact congrArg _ rfl
    | true =>
      simp only [if_true, Int.natCast_add, Int.natCast_one]
      omega

theorem arriveAll_collected :
    (s.arriveAll as).collected = s.collected ++ as.flatMap Prod.fst := by
  induction as generalizing s with
  | nil => exact (List.append_nil _).symm
  | cons a as ih =>
    rw [arriveAll, List.foldl_cons, ← arriveAll, ih, arrive_collected, List.flatMap_cons,
      List.append_assoc]

/-- Before the last answer. -/
theorem arriveAll_calls_of_lt (h : (as.length : ℤ) < s.left) : (s.arriveAll as).calls = s.calls := by
  induction as generalizing s with
  | nil => rfl
  | cons a as ih =>
    rw [List.length_cons] at h
    have hleft : (as.length : ℤ) < (s.arrive a.1 a.2).left := by
      rw [arrive_left]
      split <;> omega
    rw [arriveAll, List.foldl_cons, ← arriveAll, ih hleft, arrive_calls, if_neg]
    exact fun h' => by omega

/-- **After the last answer** the continuation was called, with everything, exactly if all answers were
complete; otherwise it never is. -/
theorem arriveAll_calls (h : (as.length : ℤ) = s.left) (hne : as ≠ []) :
    (s.arriveAll as).calls =
      if ∀ a ∈ as, a.2 = true then s.calls ++ [s.collected ++ as.flatMap Prod.fst] else s.calls := by
  obtain ⟨init, a, rfl⟩ := as.eq_nil_or_concat'.resolve_left hne
  rw [List.length_append, List.length_singleton] at h
  have hcalls : (s.arriveAll init).calls = s.calls := arriveAll_calls_of_lt (by omega)
  have hleft : (s.arriveAll init).left - 1 ≤ 0 ↔ ∀ b ∈ init, b.2 = true := by
    rw [arriveAll_left, ← h]
    have hle : init.countP (fun a => a.2) ≤ init.length := List.countP_le_length
    have hall : init.countP (fun a => a.2) = init.length ↔ ∀ b ∈ init, b.2 = true :=
      List.countP_eq_length
    rw [← hall]
    omega
  have hlast : s.arriveAll (init ++ [a]) = (s.arriveAll init).arrive a.1 a.2 := by
    rw [arriveAll, List.foldl_append, List.foldl_cons, List.foldl_nil, ← arriveAll]
  rw [hlast, arrive_calls, hcalls, arriveAll_collected, List.flatMap_append, List.flatMap_singleton,
    List.append_assoc]
  simp only [hleft, List.forall_mem_append, List.forall_mem_singleton, and_comm]

end Countdown

end MutexIM
