import Mathlib.Data.List.Nodup

/-!
# Elements with keys

A list of elements is changed at a place, or at the first element that has a key. Where no two elements have
the same key, both change the element with this key and no other.

* `modifyKey`, `eraseKey`: the first element with a key is changed or removed; `none` if there is no such.
* `modify_eq_map_key`, `eraseIdx_eq_filter_key`: at a place; `modifyKey_eq`, `eraseKey_eq`: at a key.
-/

namespace MutexIM

variable {α κ : Type*} [DecidableEq κ] (key : α → κ)

/-- The first element with the key is changed. -/
def modifyKey (k : κ) (f : α → α) (l : List α) : Option (List α) :=
  (l.findIdx? fun x => key x = k).map fun i => l.modify i f

/-- The first element with the key is removed. -/
def eraseKey (k : κ) (l : List α) : Option (List α) :=
  (l.findIdx? fun x => key x = k).map fun i => l.eraseIdx i

variable {key} {l : List α} {i : ℕ} {x : α} {k : κ} {f : α → α}

theorem exists_findIdx?_key (hk : k ∈ l.map key) :
    ∃ i x, (l.findIdx? fun x => key x = k) = some i ∧ l[i]? = some x ∧ key x = k := by
  cases hfind : l.findIdx? fun x => key x = k with
  | none =>
    obtain ⟨x, hx, hkx⟩ := List.mem_map.1 hk
    exact absurd hkx (of_decide_eq_false (List.findIdx?_eq_none_iff.1 hfind x hx))
  | some i =>
    obtain ⟨hlt, hi, -⟩ := List.findIdx?_eq_some_iff_getElem.1 hfind
    exact ⟨i, l[i], rfl, List.getElem?_eq_getElem hlt, of_decide_eq_true hi⟩

theorem findIdx?_key_eq_none (hk : k ∉ l.map key) : (l.findIdx? fun x => key x = k) = none :=
  List.findIdx?_eq_none_iff.2 fun _ hx => decide_eq_false fun hkx => hk (hkx ▸ List.mem_map_of_mem hx)

theorem map_key_of_notMem (hk : k ∉ l.map key) : (l.map fun y => if key y = k then f y else y) = l := by
  refine (List.map_congr_left fun y hy => if_neg fun hky => hk ?_).trans (List.map_id l)
  exact hky ▸ List.mem_map_of_mem hy

theorem filter_key_of_notMem (hk : k ∉ l.map key) : (l.filter fun y => key y ≠ k) = l :=
  List.filter_eq_self.2 fun _ hy => decide_eq_true fun hky => hk (hky ▸ List.mem_map_of_mem hy)

/-- The element at a place is the one with its key. -/
theorem modify_eq_map_key (f : α → α) (hnodup : (l.map key).Nodup) (hi : l[i]? = some x) :
    l.modify i f = l.map fun y => if key y = key x then f y else y := by
  induction l generalizing i with
  | nil => cases hi
  | cons y l ih =>
    obtain ⟨hy, hl⟩ := List.nodup_cons.1 hnodup
    cases i with
    | zero =>
      obtain rfl := Option.some.inj hi
      rw [List.modify_zero_cons, List.map_cons, if_pos rfl, map_key_of_notMem hy]
    | succ i =>
      have hx : key x ∈ l.map key := List.mem_map_of_mem (List.mem_of_getElem? hi)
      have hyx : key y ≠ key x := fun hyx => hy (hyx ▸ hx)
      rw [List.modify_succ_cons, List.map_cons, ih hl hi, if_neg hyx]

theorem eraseIdx_eq_filter_key (hnodup : (l.map key).Nodup) (hi : l[i]? = some x) :
    l.eraseIdx i = l.filter fun y => key y ≠ key x := by
  induction l generalizing i with
  | nil => cases hi
  | cons y l ih =>
    obtain ⟨hy, hl⟩ := List.nodup_cons.1 hnodup
    cases i with
    | zero =>
      obtain rfl := Option.some.inj hi
      rw [List.eraseIdx_zero, List.tail_cons, List.filter_cons_of_neg (by simp), filter_key_of_notMem hy]
    | succ i =>
      have hx : key x ∈ l.map key := List.mem_map_of_mem (List.mem_of_getElem? hi)
      have hyx : key y ≠ key x := fun hyx => hy (hyx ▸ hx)
      rw [List.eraseIdx_cons_succ, ih hl hi]
      exact (List.filter_cons_of_pos (p := fun y => decide (key y ≠ key x)) (decide_eq_true hyx)).symm

/-- **Changing by key.** -/
theorem modifyKey_eq (f : α → α) (hnodup : (l.map key).Nodup) (hk : k ∈ l.map key) :
    modifyKey key k f l = some (l.map fun y => if key y = k then f y else y) := by
  obtain ⟨i, x, hfind, hi, rfl⟩ := exists_findIdx?_key hk
  rw [modifyKey, hfind, Option.map_some, modify_eq_map_key f hnodup hi]

theorem modifyKey_eq_none (f : α → α) (hk : k ∉ l.map key) : modifyKey key k f l = none := by
  rw [modifyKey, findIdx?_key_eq_none hk, Option.map_none]

/-- **Removing by key.** -/
theorem eraseKey_eq (hnodup : (l.map key).Nodup) (hk : k ∈ l.map key) :
    eraseKey key k l = some (l.filter fun y => key y ≠ k) := by
  obtain ⟨i, x, hfind, hi, rfl⟩ := exists_findIdx?_key hk
  rw [eraseKey, hfind, Option.map_some, eraseIdx_eq_filter_key hnodup hi]

end MutexIM
