import Mathlib.Algebra.BigOperators.Group.Finset.Basic
import Mathlib.Algebra.BigOperators.Ring.Finset
import Mathlib.Data.Fintype.Basic
import Mathlib.Data.List.Count
import Mathlib.Tactic.Ring

/-!
# A log with several readers

Entries are appended to a log, and each reader reads it from where it has got to, in order and at its
own pace. A reader is after the entries equal to its key; the others it passes over.

* `sum_place`: how a sum over all places changes with one of them.
* `unread` is what a reader has before it.
* `inFlight` counts the entries that some reader is after and has not read yet;
  `inFlight_append` and `inFlight_read` say how it changes.
-/

namespace MutexIM

variable {α ι : Type*}

/-- What is before a reader who has read `seen` entries. -/
def unread (log : List α) (seen : ℕ) : List α := log.drop seen

theorem unread_append {log : List α} {seen : ℕ} (h : seen ≤ log.length) (l : List α) :
    unread (log ++ l) seen = unread log seen ++ l := List.drop_append_of_le_length h

theorem unread_eq_cons {log : List α} {seen : ℕ} {e : α} (h : log[seen]? = some e) :
    unread log seen = e :: unread log (seen + 1) := by
  obtain ⟨hlt, rfl⟩ := List.getElem?_eq_some_iff.1 h
  exact List.drop_eq_getElem_cons hlt

/-- A sum over all places, when what is at one of them changes. -/
theorem sum_place [Fintype ι] [DecidableEq ι] {β : Type*} (f : ι → β → ℕ) (g : ι → β) (i : ι)
    (x : β) : ∑ j, f j (Function.update g i x j) + f i (g i) = ∑ j, f j (g j) + f i x := by
  have hrest : ∀ j ∈ ({i} : Finset ι)ᶜ, f j (Function.update g i x j) = f j (g j) := by
    intro j hj
    rw [Function.update_of_ne (by simpa using hj)]
  rw [Fintype.sum_eq_add_sum_compl i, Fintype.sum_eq_add_sum_compl i fun j => f j (g j),
    Function.update_self, Finset.sum_congr rfl hrest]
  ring

variable [Fintype ι] [BEq α]

/-- The number of entries that are before a reader who is after them. -/
def inFlight (log : List α) (seen : ι → ℕ) (key : ι → α) : ℕ :=
  ∑ i, (unread log (seen i)).count (key i)

variable {log : List α} {seen : ι → ℕ} {key : ι → α}

theorem inFlight_append (h : ∀ i, seen i ≤ log.length) (l : List α) :
    inFlight (log ++ l) seen key = inFlight log seen key + ∑ i, l.count (key i) := by
  rw [inFlight, inFlight, ← Finset.sum_add_distrib]
  refine Finset.sum_congr rfl fun i _ => ?_
  rw [unread_append (h i), List.count_append]

/-- **A reader reads an entry.** -/
theorem inFlight_read [DecidableEq ι] {i : ι} {e : α} (h : log[seen i]? = some e) :
    inFlight log (Function.update seen i (seen i + 1)) key + (if e == key i then 1 else 0) =
      inFlight log seen key := by
  have hsum := sum_place (fun j n => (unread log n).count (key j)) seen i (seen i + 1)
  rw [unread_eq_cons h, List.count_cons] at hsum
  unfold inFlight
  omega

/-- With different keys, at most one reader is after an entry. -/
theorem sum_count_singleton [LawfulBEq α] (hkey : Function.Injective key) (e : α)
    [Decidable (∃ i, key i = e)] :
    ∑ i, [e].count (key i) = if ∃ i, key i = e then 1 else 0 := by
  classical
  have hcount : ∀ i, [e].count (key i) = if e = key i then 1 else 0 := by
    intro i
    simp only [List.count_singleton, beq_iff_eq]
  simp only [hcount]
  split
  · next h =>
    obtain ⟨i, rfl⟩ := h
    simp only [hkey.eq_iff, Finset.sum_ite_eq, Finset.mem_univ, if_true]
  · next h =>
    exact Finset.sum_eq_zero fun i _ => if_neg fun he => h ⟨i, he.symm⟩

end MutexIM
