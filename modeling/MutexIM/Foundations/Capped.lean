import Mathlib.Data.List.Basic

/-!
# A list that is trimmed after a push

Several writers push values to the front of a list, and a writer that finds the list too long then owes a
trim, which cuts it at `cap`. Between a push and its trim there are pushes and trims of others.

* `Kept` is what holds all along; `Kept.push`, `Kept.trim` and `Kept.mono` are what the writers do.
* `Kept.eq_take`: while no trim is owed, the list has the newest `cap` values.
* `take_eq_take_iff_length_le`: a smaller number of values is the same list only if there are not more.
-/

namespace MutexIM

variable {α : Type*}

/-- What a list has of the values pushed to it, both with the newest first: the newest ones, all that there
is room for, and no others unless a trim is owed. -/
structure Kept (cap : ℕ) (pushed l : List α) (owed : Prop) : Prop where
  newest : l <+: pushed
  enough : min pushed.length cap ≤ l.length
  fits : l.length ≤ cap ∨ owed

namespace Kept

variable {cap : ℕ} {pushed l : List α} {owed owed' : Prop}

theorem nil : Kept cap ([] : List α) [] owed := ⟨List.prefix_rfl, Nat.min_le_left .., .inl (Nat.zero_le _)⟩

theorem mono (h : Kept cap pushed l owed) (howed : owed → owed') : Kept cap pushed l owed' :=
  ⟨h.newest, h.enough, h.fits.imp_right howed⟩

/-- A writer pushes, and owes a trim if the list is too long now. -/
theorem push (h : Kept cap pushed l owed) {a : α} (howed : cap < l.length + 1 → owed') :
    Kept cap (a :: pushed) (a :: l) owed' := by
  have henough := h.enough
  refine ⟨List.cons_prefix_cons.2 ⟨rfl, h.newest⟩, ?_, ?_⟩
  · rw [List.length_cons, List.length_cons]
    omega
  · rw [List.length_cons]
    exact (Nat.lt_or_ge cap (l.length + 1)).symm.imp_right howed

/-- A writer trims the list. -/
theorem trim (h : Kept cap pushed l owed) : Kept cap pushed (l.take cap) owed' := by
  have henough := h.enough
  refine ⟨(List.take_prefix cap l).trans h.newest, ?_, .inl (List.length_take_le ..)⟩
  rw [List.length_take]
  omega

/-- **What is left when no trim is owed.** -/
theorem eq_take (h : Kept cap pushed l owed) (howed : ¬owed) : l = pushed.take cap := by
  have henough := h.enough
  have hfits := h.fits.resolve_right howed
  have hlen := h.newest.length_le
  rw [List.prefix_iff_eq_take.1 h.newest, List.take_eq_take_iff]
  omega

end Kept

/-- Less of a list is the same only if there is not more of it. -/
theorem take_eq_take_iff_length_le {m n : ℕ} (h : m < n) {l : List α} :
    l.take n = l.take m ↔ l.length ≤ m := by
  rw [List.take_eq_take_iff]
  omega

end MutexIM
