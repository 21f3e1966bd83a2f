import Mathlib.Data.List.Perm.Basic
import MutexIM.Foundations.Runs

/-!
# A list that is read and then deleted

A list to which values are pushed, and which a reader takes in two steps: it reads the whole list, and
then deletes it. The list may be trimmed at any time.

* `step_balance`: a step accounts for every value, but for one pushed between the two steps of the
  reader.
* `accounted_iff`: every value that was pushed is taken once, in the list or trimmed off, if and only if
  nothing is pushed between the two steps of the reader.
-/

namespace MutexIM

/-- The list, what the reader has read and not deleted yet, and as history, what was pushed, what the
reader took each time, and what was trimmed off while the reader had not read it. -/
structure Drain (α : Type*) where
  list : List α
  reading : Option (List α)
  pushed : List α
  taken : List (List α)
  trimmed : List α

namespace Drain

variable {α : Type*}

inductive Op (α : Type*)
  | push (a : α)
  | trim (n : ℕ)
  | read
  | delete

def step (d : Drain α) : Op α → Option (Drain α)
  | .push a => some { d with list := a :: d.list, pushed := a :: d.pushed }
  | .trim n => some { d with
      list := d.list.take n
      trimmed := if d.reading.isNone then d.list.drop n ++ d.trimmed else d.trimmed }
  | .read =>
    match d.reading with
    | none => some { d with reading := some d.list }
    | some _ => none
  | .delete =>
    match d.reading with
    | some l => some { d with list := [], reading := none, taken := d.taken ++ [l] }
    | none => none

/-- Nothing is pushed between the two steps of the reader. -/
def Quiet (d : Drain α) : Op α → Prop
  | .push _ => d.reading = none
  | _ => True

/-- What is accounted for: taken, about to be taken or in the list, or trimmed off. -/
def whole (d : Drain α) : List α := d.taken.flatten ++ d.reading.getD d.list ++ d.trimmed

variable {d d' : Drain α} {o : Op α}

/-- **The balance of a step.** -/
theorem step_balance (h : d.step o = some d') :
    ∃ new missing, d'.pushed = new ++ d.pushed ∧ (new ++ d.whole).Perm (d'.whole ++ missing) ∧
      (missing = [] ↔ d.Quiet o) := by
  cases o with
  | push a =>
    obtain rfl := Option.some.inj h
    cases hreading : d.reading with
    | none =>
      refine ⟨[a], [], rfl, ?_, iff_of_true rfl hreading⟩
      simp only [whole, hreading, Option.getD_none, List.append_nil, List.append_assoc,
        List.cons_append, List.nil_append]
      exact List.perm_middle.symm
    | some l =>
      refine ⟨[a], [a], rfl, ?_, iff_of_false (List.cons_ne_nil _ _) ?_⟩
      · simp only [whole, hreading, Option.getD_some]
        exact List.perm_append_comm
      · intro hquiet
        cases hreading.symm.trans hquiet
  | trim n =>
    obtain rfl := Option.some.inj h
    refine ⟨[], [], rfl, ?_, iff_of_true rfl trivial⟩
    cases hreading : d.reading with
    | none =>
      simp only [whole, hreading, Option.getD_none, Option.isNone_none, if_true, List.nil_append,
        List.append_nil, List.append_assoc]
      rw [← List.append_assoc (d.list.take n), List.take_append_drop]
    | some l =>
      simp [whole, hreading]
  | read =>
    simp only [step] at h
    split at h
    · next hreading =>
      obtain rfl := Option.some.inj h
      refine ⟨[], [], rfl, ?_, iff_of_true rfl trivial⟩
      simp [whole, hreading]
    · cases h
  | delete =>
    simp only [step] at h
    split at h
    · next l hreading =>
      obtain rfl := Option.some.inj h
      refine ⟨[], [], rfl, ?_, iff_of_true rfl trivial⟩
      simp [whole, hreading]
    · cases h

/-- **The balance of a run.** -/
theorem run_balance {os : List (Op α)} (h : Run step (fun _ _ => True) d os d') :
    ∃ new missing, d'.pushed = new ++ d.pushed ∧ (new ++ d.whole).Perm (d'.whole ++ missing) ∧
      (missing = [] ↔ Run step Quiet d os d') := by
  induction h with
  | nil d => exact ⟨[], [], rfl, by simp, iff_of_true rfl (.nil d)⟩
  | @cons d d₁ t o os _ hstep hrest ih =>
    obtain ⟨new, missing, hpushed, hperm, hiff⟩ := step_balance hstep
    obtain ⟨new', missing', hpushed', hperm', hiff'⟩ := ih
    refine ⟨new' ++ new, missing' ++ missing, ?_, ?_, ?_⟩
    · rw [hpushed', hpushed, List.append_assoc]
    · have hfirst : (new' ++ new ++ d.whole).Perm (new' ++ d₁.whole ++ missing) := by
        rw [List.append_assoc, List.append_assoc]
        exact hperm.append_left new'
      have hrest : (new' ++ d₁.whole ++ missing).Perm (t.whole ++ (missing' ++ missing)) := by
        rw [← List.append_assoc t.whole]
        exact hperm'.append_right missing
      exact hfirst.trans hrest
    · rw [List.append_eq_nil_iff, hiff, hiff']
      constructor
      · exact fun ⟨hrun, hquiet⟩ => .cons hquiet hstep hrun
      · intro hrun
        cases hrun with
        | cons hquiet hstep' hrun =>
          obtain rfl := Option.some.inj (hstep.symm.trans hstep')
          exact ⟨hrun, hquiet⟩

/-- **When every value is accounted for.** -/
theorem accounted_iff {os : List (Op α)} (h : Run step (fun _ _ => True) d os d') (hnil : d.pushed = []) :
    (d'.pushed ++ d.whole).Perm d'.whole ↔ Run step Quiet d os d' := by
  obtain ⟨new, missing, hpushed, hperm, hiff⟩ := run_balance h
  rw [hnil, List.append_nil] at hpushed
  rw [hpushed, ← hiff]
  constructor
  · intro hall
    have hlen := (hall.symm.trans hperm).length_eq
    rw [List.length_append] at hlen
    exact List.length_eq_zero_iff.1 (by omega)
  · rintro rfl
    rwa [List.append_nil] at hperm

end Drain

end MutexIM
