import Mathlib.Data.List.Basic
import Mathlib.Logic.Function.Basic

/-!
# Registrations

A map is filled by registrations, one after another. A later registration of a key replaces an earlier
one, so that the map holds the last.

* `lastFor`: the value registered last for a key; `lastFor_eq_none_iff`, `lastFor_map` are about it.
* `registered_apply`: what the map holds after a list of registrations.
-/

namespace MutexIM

variable {K L V : Type*} [DecidableEq K] [DecidableEq L]

/-- The map after the registrations `l`, made from left to right. -/
def registered (f : K → Option V) (l : List (K × V)) : K → Option V :=
  l.foldl (fun f r => Function.update f r.1 (some r.2)) f

/-- The value registered last for a key. -/
def lastFor (l : List (K × V)) (k : K) : Option V := (l.filter fun r => r.1 = k).getLast?.map Prod.snd

theorem lastFor_eq_none_iff {l : List (K × V)} {k : K} : lastFor l k = none ↔ ∀ v, (k, v) ∉ l := by
  rw [lastFor, Option.map_eq_none_iff, List.getLast?_eq_none_iff, List.filter_eq_nil_iff]
  refine ⟨fun h v hv => h (k, v) hv (decide_eq_true rfl), fun h r hr hk => h r.2 ?_⟩
  rwa [← of_decide_eq_true hk]

theorem lastFor_cons (r : K × V) (l : List (K × V)) (k : K) :
    lastFor (r :: l) k = (lastFor l k).or (if r.1 = k then some r.2 else none) := by
  unfold lastFor
  rw [List.filter_cons]
  by_cases hr : r.1 = k
  · simp only [hr, decide_true, if_true, List.getLast?_cons]
    cases (l.filter fun r => r.1 = k).getLast? <;> rfl
  · simp only [hr, decide_false, Bool.false_eq_true, if_false, Option.or_none]

/-- Renaming the keys does not change which registration is the last. -/
theorem lastFor_map {g : K → L} (hg : Function.Injective g) (l : List (K × V)) (k : K) :
    lastFor (l.map (Prod.map g id)) (g k) = lastFor l k := by
  induction l with
  | nil => rfl
  | cons r l ih =>
    rw [List.map_cons, lastFor_cons, lastFor_cons, ih, Prod.map_fst, Prod.map_snd, id]
    simp only [hg.eq_iff]

/-- **What the map holds** is the value registered last, or what was there before. -/
theorem registered_apply (f : K → Option V) (l : List (K × V)) (k : K) :
    registered f l k = (lastFor l k).or (f k) := by
  induction l generalizing f with
  | nil => rfl
  | cons r l ih =>
    have hupdate : Function.update f r.1 (some r.2) k =
        (if r.1 = k then some r.2 else none).or (f k) := by
      rw [Function.update_apply]
      by_cases hk : k = r.1
      · rw [if_pos hk, if_pos hk.symm, Option.some_or]
      · rw [if_neg hk, if_neg (Ne.symm hk), Option.none_or]
    calc registered f (r :: l) k
        = registered (Function.update f r.1 (some r.2)) l k := rfl
      _ = (lastFor l k).or (Function.update f r.1 (some r.2) k) := ih _
      _ = (lastFor (r :: l) k).or (f k) := by rw [hupdate, lastFor_cons, Option.or_assoc]

end MutexIM
