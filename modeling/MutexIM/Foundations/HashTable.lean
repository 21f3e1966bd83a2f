import Mathlib.Data.List.AList

/-!
# Hash tables with their buckets

A program that walks through the buckets of a hash table sees more than the map: which keys share a
bucket, and in which order the elements of a bucket stand. The map itself is an `AList`.

* `Layout.elements` are the elements of a bucket; `mem_elements`, `nodup_elements`.
* `insertAll` enters pairs one after the other, so that a later one replaces an earlier one with the
  same key; `mem_of_lookup_insertAll`, `lookup_insertAll_isSome`, `lookup_insertAll_eq_some`.
* `flatMap_range`: a walk through all buckets of which one counts.
-/

namespace MutexIM

variable {K V : Type*}

/-- A layout of a hash table. -/
structure Layout (K V : Type*) where
  bucketCount : ℕ
  bucket : K → ℕ
  bucket_lt : ∀ k, bucket k < bucketCount
  arrange : List (K × V) → List (K × V)
  arrange_perm : ∀ l, (arrange l).Perm l

/-- The elements of a bucket, in their order. -/
def Layout.elements (L : Layout K V) (m : AList fun _ : K => V) (i : ℕ) : List (K × V) :=
  L.arrange ((m.entries.map fun e => (e.1, e.2)).filter fun e => L.bucket e.1 = i)

variable [DecidableEq K] {L : Layout K V} {m : AList fun _ : K => V} {i : ℕ} {k : K} {v : V}

theorem mem_elements : (k, v) ∈ L.elements m i ↔ m.lookup k = some v ∧ L.bucket k = i := by
  have hentry : (k, v) ∈ m.entries.map (fun e => (e.1, e.2)) ↔ m.lookup k = some v := by
    rw [List.mem_map]
    constructor
    · rintro ⟨⟨k', v'⟩, hmem, heq⟩
      cases heq
      exact AList.mem_lookup_iff.2 hmem
    · intro h
      exact ⟨⟨k, v⟩, AList.mem_lookup_iff.1 h, rfl⟩
  rw [Layout.elements, (L.arrange_perm _).mem_iff, List.mem_filter, hentry, decide_eq_true_iff]

omit [DecidableEq K] in
/-- No key stands twice in a bucket. -/
theorem nodup_elements : ((L.elements m i).map Prod.fst).Nodup := by
  have hkeys : ((m.entries.map fun e => (e.1, e.2)).map Prod.fst).Nodup := by
    rw [List.map_map]
    exact m.nodupKeys
  refine ((L.arrange_perm _).map Prod.fst).nodup_iff.2 (hkeys.sublist ?_)
  exact (List.filter_sublist).map _

omit [DecidableEq K] in
/-- A bucket in which only one key stands. -/
theorem elements_eq_singleton (hmem : (k, v) ∈ L.elements m i)
    (hkey : ∀ e ∈ L.elements m i, e.1 = k) : L.elements m i = [(k, v)] := by
  have hkeys : (L.elements m i).map Prod.fst = List.replicate (L.elements m i).length k := by
    refine List.eq_replicate_iff.2 ⟨List.length_map _, fun k' hk' => ?_⟩
    obtain ⟨e, he, rfl⟩ := List.mem_map.1 hk'
    exact hkey e he
  have hlen : (L.elements m i).length ≤ 1 := List.nodup_replicate.1 (hkeys ▸ nodup_elements)
  obtain ⟨e, he⟩ := List.length_eq_one_iff.1
    (Nat.le_antisymm hlen (List.length_pos_of_mem hmem))
  rw [he, List.mem_singleton] at hmem
  rw [he, hmem]

/-! ## Pairs that are entered one after the other -/

def insertAll (m : AList fun _ : K => V) (l : List (K × V)) : AList fun _ : K => V :=
  l.foldl (fun m e => m.insert e.1 e.2) m

theorem mem_of_lookup_insertAll {l : List (K × V)} (h : (insertAll m l).lookup k = some v) :
    (k, v) ∈ l ∨ m.lookup k = some v := by
  induction l generalizing m with
  | nil => exact .inr h
  | cons e l ih =>
    rcases ih h with hmem | hlookup
    · exact .inl (List.mem_cons_of_mem _ hmem)
    · by_cases hk : k = e.1
      · rw [hk, AList.lookup_insert] at hlookup
        obtain rfl := Option.some.inj hlookup
        exact .inl (hk ▸ List.mem_cons_self)
      · rw [AList.lookup_insert_ne hk] at hlookup
        exact .inr hlookup

theorem lookup_insertAll_isSome {l : List (K × V)} (h : k ∈ l.map Prod.fst ∨ k ∈ m) :
    ∃ v, (insertAll m l).lookup k = some v := by
  induction l generalizing m with
  | nil =>
    have hmem : k ∈ m := h.resolve_left List.not_mem_nil
    exact Option.isSome_iff_exists.1 (AList.lookup_isSome.2 hmem)
  | cons e l ih =>
    apply ih
    rw [List.map_cons, List.mem_cons] at h
    rcases h with (rfl | h) | h
    · exact .inr (AList.mem_insert _ |>.2 (.inl rfl))
    · exact .inl h
    · exact .inr (AList.mem_insert _ |>.2 (.inr h))

/-- Pairs with different keys are all there. -/
theorem lookup_insertAll_eq_some {l : List (K × V)} (hkeys : (l.map Prod.fst).Nodup) :
    (insertAll ∅ l).lookup k = some v ↔ (k, v) ∈ l := by
  have hmem : ∀ {v}, (insertAll ∅ l).lookup k = some v → (k, v) ∈ l := by
    intro v h
    refine (mem_of_lookup_insertAll h).resolve_right fun hempty => ?_
    rw [AList.lookup_empty] at hempty
    cases hempty
  refine ⟨hmem, fun h => ?_⟩
  obtain ⟨v', hv'⟩ := lookup_insertAll_isSome (m := ∅) (.inl (List.mem_map_of_mem h))
  cases List.inj_on_of_nodup_map hkeys (hmem hv') h rfl
  exact hv'

/-! ## A walk through the buckets -/

theorem flatMap_range {α : Type*} {f : ℕ → List α} {n i : ℕ} (hi : i < n)
    (h : ∀ j < n, j ≠ i → f j = []) : (List.range n).flatMap f = f i := by
  induction n with
  | zero => exact absurd hi (Nat.not_lt_zero i)
  | succ n ih =>
    rw [List.range_succ, List.flatMap_append, List.flatMap_singleton]
    by_cases hn : i = n
    · have hnil : (List.range n).flatMap f = [] := by
        refine List.flatMap_eq_nil_iff.2 fun j hj => ?_
        have hlt := List.mem_range.1 hj
        exact h j (by omega) (by omega)
      rw [hnil, hn, List.nil_append]
    · rw [ih (by omega) fun j hj => h j (by omega), h n (by omega) (Ne.symm hn), List.append_nil]

end MutexIM
