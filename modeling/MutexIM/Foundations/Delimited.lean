import Mathlib.Data.List.Infix
import Mathlib.Data.Nat.Notation

/-!
# Streams cut at a two-element delimiter

A reader that waits for the delimiter `a b`, hands on everything up to and including it, and starts
over with the rest. Elements are of any type; `a` and `b` are distinct where the results need it, so
that two occurrences of the delimiter cannot overlap.

* `firstEnd` is the offset just after the first delimiter, `chop` the pieces a reader hands on and
  the rest it keeps.
* A piece is `Single`: it ends in the delimiter and has no earlier one (`single_of_mem_chop`).
* A string that ends in the delimiter is a boundary: what comes before and what comes after are cut
  independently (`chop_append`, `chop_flatten_append`).
* `mem_chop_iff`: the pieces are exactly the `Single` factors that start at a boundary.
  `eq_append_of_chop`: what comes before one of them is cut into the pieces before it.
* `feed_eq_chop`: a reader that gets the stream in segments hands on the same pieces.
-/

namespace MutexIM.Delimited

variable {α : Type*} [DecidableEq α] (a b : α)

/-- The offset just after the first `a b`. -/
def firstEnd : List α → Option ℕ
  | [] => none
  | [_] => none
  | x :: y :: s => if x = a ∧ y = b then some 2 else (firstEnd (y :: s)).map (· + 1)

/-- `chop` with a bound on the number of cuts. -/
def chopFuel : ℕ → List α → List (List α) × List α
  | 0, s => ([], s)
  | k + 1, s =>
    match firstEnd a b s with
    | none => ([], s)
    | some n => (s.take n :: (chopFuel k (s.drop n)).1, (chopFuel k (s.drop n)).2)

/-- The pieces of `s`, each up to and including a delimiter, and what is left. -/
def chop (s : List α) : List (List α) × List α := chopFuel a b s.length s

/-- The string is empty or ends in the delimiter. -/
def Boundary (s : List α) : Prop := s = [] ∨ [a, b] <:+ s

/-- The string ends in the delimiter and contains no earlier one. -/
def Single (s : List α) : Prop := firstEnd a b s = some s.length

instance (s : List α) : Decidable (Single a b s) := inferInstanceAs (Decidable (_ = _))

variable {a b}

/-! ## The first delimiter -/

theorem firstEnd_cons_cons_of_ne {x y : α} (h : ¬(x = a ∧ y = b)) (s : List α) :
    firstEnd a b (x :: y :: s) = (firstEnd a b (y :: s)).map (· + 1) := if_neg h

theorem firstEnd_le {s : List α} {n : ℕ} (h : firstEnd a b s = some n) : 2 ≤ n ∧ n ≤ s.length := by
  induction s using firstEnd.induct a b generalizing n with
  | case1 => simp [firstEnd] at h
  | case2 => simp [firstEnd] at h
  | case3 x y s hxy =>
    obtain rfl : 2 = n := by simpa [firstEnd, hxy] using h
    simp
  | case4 x y s hxy ih =>
    rw [firstEnd_cons_cons_of_ne hxy, Option.map_eq_some_iff] at h
    obtain ⟨m, hm, rfl⟩ := h
    have := ih hm
    simp only [List.length_cons] at this ⊢
    omega

theorem firstEnd_append {s : List α} {n : ℕ} (h : firstEnd a b s = some n) (t : List α) :
    firstEnd a b (s ++ t) = some n := by
  induction s using firstEnd.induct a b generalizing n with
  | case1 => simp [firstEnd] at h
  | case2 => simp [firstEnd] at h
  | case3 x y s hxy => simpa [firstEnd, hxy] using h
  | case4 x y s hxy ih =>
    rw [firstEnd_cons_cons_of_ne hxy, Option.map_eq_some_iff] at h
    obtain ⟨m, hm, rfl⟩ := h
    have := ih hm
    rw [List.cons_append] at this ⊢
    rw [List.cons_append, firstEnd_cons_cons_of_ne hxy, this]
    rfl

theorem firstEnd_take {s : List α} {n : ℕ} (h : firstEnd a b s = some n) :
    firstEnd a b (s.take n) = some n := by
  induction s using firstEnd.induct a b generalizing n with
  | case1 => simp [firstEnd] at h
  | case2 => simp [firstEnd] at h
  | case3 x y s hxy =>
    obtain rfl : 2 = n := by simpa [firstEnd, hxy] using h
    simp [firstEnd, hxy]
  | case4 x y s hxy ih =>
    rw [firstEnd_cons_cons_of_ne hxy, Option.map_eq_some_iff] at h
    obtain ⟨m, hm, rfl⟩ := h
    obtain ⟨k, rfl⟩ : ∃ k, m = k + 1 := ⟨m - 1, by have := (firstEnd_le hm).1; omega⟩
    have := ih hm
    rw [List.take_succ_cons] at this ⊢
    rw [List.take_succ_cons, firstEnd_cons_cons_of_ne hxy, this]
    rfl

/-- A string that ends in the delimiter contains one. -/
theorem exists_firstEnd_of_suffix {s : List α} (h : [a, b] <:+ s) : ∃ n, firstEnd a b s = some n := by
  induction s using firstEnd.induct a b with
  | case1 => simp at h
  | case2 x => exact absurd h.length_le (by simp)
  | case3 x y s hxy => exact ⟨2, by simp [firstEnd, hxy]⟩
  | case4 x y s hxy ih =>
    rcases List.suffix_cons_iff.1 h with h | h
    · obtain ⟨rfl, rfl, -⟩ := by simpa using h
      exact absurd ⟨rfl, rfl⟩ hxy
    · obtain ⟨n, hn⟩ := ih h
      exact ⟨n + 1, by rw [firstEnd_cons_cons_of_ne hxy, hn]; rfl⟩

/-- A piece ends in the delimiter. -/
theorem Single.suffix {s : List α} (h : Single a b s) : [a, b] <:+ s := by
  induction s using firstEnd.induct a b with
  | case1 => simp [Single, firstEnd] at h
  | case2 => simp [Single, firstEnd] at h
  | case3 x y s hxy =>
    obtain ⟨rfl, rfl⟩ := hxy
    obtain rfl : s = [] := by simpa [Single, firstEnd, eq_comm] using h
    exact List.suffix_refl _
  | case4 x y s hxy ih =>
    rw [Single, firstEnd_cons_cons_of_ne hxy, Option.map_eq_some_iff] at h
    obtain ⟨m, hm, he⟩ := h
    have hm' : Single a b (y :: s) := by rw [Single, hm]; congr; simpa using he
    exact (ih hm').trans (List.suffix_cons x _)

theorem Single.ne_nil {s : List α} (h : Single a b s) : s ≠ [] := by
  rintro rfl
  simp [Single, firstEnd] at h

/-- Since `a ≠ b`, what is left after a cut of a boundary is again a boundary: the delimiter at the
end cannot overlap the one that was cut off. -/
theorem Boundary.drop (hab : a ≠ b) {s : List α} {n : ℕ} (hs : Boundary a b s)
    (h : firstEnd a b s = some n) : Boundary a b (s.drop n) := by
  rcases hs with rfl | hs
  · simp [firstEnd] at h
  induction s using firstEnd.induct a b generalizing n with
  | case1 => simp [firstEnd] at h
  | case2 => simp [firstEnd] at h
  | case3 x y s hxy =>
    obtain rfl : 2 = n := by simpa [firstEnd, hxy] using h
    obtain ⟨rfl, rfl⟩ := hxy
    rcases List.suffix_cons_iff.1 hs with hs | hs
    · obtain rfl : s = [] := by simpa [eq_comm] using hs
      exact .inl rfl
    · rcases List.suffix_cons_iff.1 hs with hs | hs
      · exact absurd (List.cons.inj hs).1 hab
      · exact .inr hs
  | case4 x y s hxy ih =>
    rw [firstEnd_cons_cons_of_ne hxy, Option.map_eq_some_iff] at h
    obtain ⟨m, hm, rfl⟩ := h
    rcases List.suffix_cons_iff.1 hs with hs | hs
    · obtain ⟨rfl, rfl, -⟩ := by simpa using hs
      exact absurd ⟨rfl, rfl⟩ hxy
    · exact ih hm hs

/-! ## The pieces -/

theorem chopFuel_eq {k l : ℕ} {s : List α} (hk : s.length ≤ k) (hl : s.length ≤ l) :
    chopFuel a b k s = chopFuel a b l s := by
  induction k generalizing l s with
  | zero =>
    obtain rfl : s = [] := by simpa using hk
    cases l <;> simp [chopFuel, firstEnd]
  | succ k ih =>
    cases l with
    | zero =>
      obtain rfl : s = [] := by simpa using hl
      simp [chopFuel, firstEnd]
    | succ l =>
      unfold chopFuel
      cases h : firstEnd a b s with
      | none => rfl
      | some n =>
        have hn := firstEnd_le h
        simp only [ih (s := s.drop n) (by simp; omega) (show _ ≤ l by simp; omega)]

theorem chop_of_none {s : List α} (h : firstEnd a b s = none) : chop a b s = ([], s) := by
  unfold chop
  cases hl : s.length with
  | zero => rfl
  | succ k => simp [chopFuel, h]

theorem chop_of_some {s : List α} {n : ℕ} (h : firstEnd a b s = some n) :
    chop a b s = (s.take n :: (chop a b (s.drop n)).1, (chop a b (s.drop n)).2) := by
  have hn := firstEnd_le h
  unfold chop
  obtain ⟨k, hk⟩ : ∃ k, s.length = k + 1 := ⟨s.length - 1, by omega⟩
  rw [hk]
  simp only [chopFuel, h]
  rw [chopFuel_eq (l := (s.drop n).length) (by simp; omega) le_rfl]

@[simp] theorem chop_nil : chop a b ([] : List α) = ([], []) := rfl

/-- Induction along the cuts. -/
theorem chop_induction {P : List α → Prop} (none : ∀ s, firstEnd a b s = none → P s)
    (some : ∀ s n, firstEnd a b s = some n → P (s.drop n) → P s) (s : List α) : P s := by
  induction hl : s.length using Nat.strongRecOn generalizing s with
  | ind l ih =>
    cases h : firstEnd a b s with
    | none => exact none s h
    | some n =>
      have hn := firstEnd_le h
      exact some s n h (ih _ (by simp; omega) _ rfl)

theorem single_of_mem_chop {s w : List α} (h : w ∈ (chop a b s).1) : Single a b w := by
  induction s using chop_induction (a := a) (b := b) with
  | none s hs => simp [chop_of_none hs] at h
  | some s n hs ih =>
    rw [chop_of_some hs] at h
    rcases List.mem_cons.1 h with rfl | h
    · have hn := firstEnd_le hs
      rw [Single, firstEnd_take hs, List.length_take, Nat.min_eq_left hn.2]
    · exact ih h

/-- The pieces and the rest are the stream. -/
theorem flatten_chop (s : List α) : (chop a b s).1.flatten ++ (chop a b s).2 = s := by
  induction s using chop_induction (a := a) (b := b) with
  | none s h => rw [chop_of_none h, List.flatten_nil, List.nil_append]
  | some s n h ih =>
    rw [chop_of_some h, List.flatten_cons, List.append_assoc, ih, List.take_append_drop]

/-- A stream that goes on: the pieces already there stay, and the rest is cut with what follows. -/
theorem chop_append_rest (s t : List α) :
    chop a b (s ++ t) = ((chop a b s).1 ++ (chop a b ((chop a b s).2 ++ t)).1,
      (chop a b ((chop a b s).2 ++ t)).2) := by
  induction s using chop_induction (a := a) (b := b) with
  | none s h => simp [chop_of_none h]
  | some s n h ih =>
    have hn := firstEnd_le h
    rw [chop_of_some (firstEnd_append h t), List.take_append_of_le_length hn.2,
      List.drop_append_of_le_length hn.2, ih, chop_of_some h]
    rfl

theorem chop_snd_of_boundary (hab : a ≠ b) {s : List α} (hs : Boundary a b s) :
    (chop a b s).2 = [] := by
  induction s using chop_induction (a := a) (b := b) with
  | none s h =>
    rcases hs with rfl | hs
    · rfl
    · obtain ⟨n, hn⟩ := exists_firstEnd_of_suffix hs
      rw [h] at hn
      cases hn
  | some s n h ih => rw [chop_of_some h]; exact ih (hs.drop hab h)

/-- **A boundary separates**: what comes before it and what comes after are cut independently. -/
theorem chop_append (hab : a ≠ b) {s : List α} (hs : Boundary a b s) (t : List α) :
    chop a b (s ++ t) = ((chop a b s).1 ++ (chop a b t).1, (chop a b t).2) := by
  rw [chop_append_rest, chop_snd_of_boundary hab hs, List.nil_append]

theorem chop_flatten_append (hab : a ≠ b) {ws : List (List α)} (hws : ∀ w ∈ ws, Boundary a b w)
    (t : List α) :
    chop a b (ws.flatten ++ t) =
      (ws.flatMap (fun w => (chop a b w).1) ++ (chop a b t).1, (chop a b t).2) := by
  induction ws with
  | nil => rfl
  | cons w ws ih =>
    rw [List.flatten_cons, List.append_assoc, chop_append hab (hws w (by simp)),
      ih fun v hv => hws v (by simp [hv])]
    simp

theorem chop_flatten (hab : a ≠ b) {ws : List (List α)} (hws : ∀ w ∈ ws, Boundary a b w) :
    chop a b ws.flatten = (ws.flatMap fun w => (chop a b w).1, []) := by
  simpa using chop_flatten_append hab hws []

theorem Single.chop_append {w : List α} (h : Single a b w) (t : List α) :
    chop a b (w ++ t) = (w :: (chop a b t).1, (chop a b t).2) := by
  rw [chop_of_some (firstEnd_append h t), List.take_left, List.drop_left]

theorem Single.chop {w : List α} (h : Single a b w) : chop a b w = ([w], []) := by
  simpa using h.chop_append []

theorem chop_flatten_of_single {ws : List (List α)} (hws : ∀ w ∈ ws, Single a b w) :
    chop a b ws.flatten = (ws, []) := by
  induction ws with
  | nil => rfl
  | cons w ws ih =>
    obtain ⟨hw, hws⟩ := List.forall_mem_cons.1 hws
    rw [List.flatten_cons, hw.chop_append, ih hws]

omit [DecidableEq α] in
theorem boundary_flatten {ws : List (List α)} (hws : ∀ w ∈ ws, Boundary a b w) :
    Boundary a b ws.flatten := by
  induction ws with
  | nil => exact .inl rfl
  | cons w ws ih =>
    obtain ⟨hw, hws⟩ := List.forall_mem_cons.1 hws
    rw [List.flatten_cons]
    rcases ih hws with hnil | hsuf
    · rwa [hnil, List.append_nil]
    · exact .inr (hsuf.trans (List.suffix_append _ _))

/-- The pieces before a piece are those of what stands before it in the stream. -/
theorem eq_append_of_chop {s w : List α} {pre post : List (List α)}
    (h : (chop a b s).1 = pre ++ w :: post) :
    (∃ y, s = pre.flatten ++ (w ++ y)) ∧ Boundary a b pre.flatten ∧ (chop a b pre.flatten).1 = pre := by
  have hpre : ∀ v ∈ pre, Single a b v := fun v hv =>
    single_of_mem_chop (s := s) (by rw [h]; exact List.mem_append_left _ hv)
  have hs := flatten_chop (a := a) (b := b) s
  rw [h, List.flatten_append, List.flatten_cons, List.append_assoc, List.append_assoc] at hs
  refine ⟨⟨post.flatten ++ (chop a b s).2, hs.symm⟩, ?_, ?_⟩
  · exact boundary_flatten fun v hv => .inr (hpre v hv).suffix
  · rw [chop_flatten_of_single hpre]

/-- **The pieces of a stream** are its `Single` factors that start at a boundary. -/
theorem mem_chop_iff (hab : a ≠ b) {s w : List α} :
    w ∈ (chop a b s).1 ↔ ∃ x y, s = x ++ (w ++ y) ∧ Boundary a b x ∧ Single a b w := by
  constructor
  · intro h
    have hw := single_of_mem_chop h
    induction s using chop_induction (a := a) (b := b) with
    | none s hs => simp [chop_of_none hs] at h
    | some s n hs ih =>
      rw [chop_of_some hs] at h
      rcases List.mem_cons.1 h with rfl | h
      · exact ⟨[], s.drop n, by simp, .inl rfl, hw⟩
      · obtain ⟨x, y, hxy, hx, -⟩ := ih h
        have htake : Single a b (s.take n) :=
          single_of_mem_chop (s := s) (by rw [chop_of_some hs]; simp)
        refine ⟨s.take n ++ x, y, ?_, .inr ?_, hw⟩
        · rw [List.append_assoc, ← hxy, List.take_append_drop]
        · rcases hx with rfl | hx
          · rw [List.append_nil]; exact htake.suffix
          · exact hx.trans (List.suffix_append _ _)
  · rintro ⟨x, y, rfl, hx, hw⟩
    rw [chop_append hab hx, hw.chop_append]
    simp

/-- A piece is what ends in the delimiter and has no other. -/
theorem single_iff {s : List α} :
    Single a b s ↔ [a, b] <:+ s ∧ ∀ x y, s = x ++ [a, b] ++ y → y = [] := by
  constructor
  · refine fun h => ⟨h.suffix, fun x y hs => ?_⟩
    obtain ⟨n, hn⟩ := exists_firstEnd_of_suffix (List.suffix_append x [a, b])
    have hs' := firstEnd_append hn y
    rw [← hs, h] at hs'
    obtain rfl := Option.some.inj hs'
    have hle := (firstEnd_le hn).2
    rw [hs, List.length_append] at hle
    exact List.length_eq_zero_iff.1 (by omega)
  · rintro ⟨hsuf, hall⟩
    obtain ⟨n, hn⟩ := exists_firstEnd_of_suffix hsuf
    have htake : Single a b (s.take n) := by
      rw [Single, firstEnd_take hn, List.length_take, Nat.min_eq_left (firstEnd_le hn).2]
    obtain ⟨x, hx⟩ := htake.suffix
    have hdrop : s.drop n = [] := hall x _ (by rw [hx, List.take_append_drop])
    have hle := List.drop_eq_nil_iff.1 hdrop
    rw [Single, hn, Nat.le_antisymm (firstEnd_le hn).2 hle]

/-! ## A stream in segments -/

variable (a b)

/-- The pieces handed on, and the rest kept, when segments arrive one by one behind `buf`. -/
def feed (buf : List α) : List (List α) → List (List α) × List α
  | [] => ([], buf)
  | seg :: segs =>
    ((chop a b (buf ++ seg)).1 ++ (feed (chop a b (buf ++ seg)).2 segs).1,
      (feed (chop a b (buf ++ seg)).2 segs).2)

variable {a b}

theorem chop_chop_snd (s : List α) : chop a b (chop a b s).2 = ([], (chop a b s).2) := by
  induction s using chop_induction (a := a) (b := b) with
  | none s h => rw [chop_of_none h]; exact chop_of_none h
  | some s n h ih => rw [chop_of_some h]; exact ih

/-- **Segmentation does not matter.** -/
theorem feed_eq_chop {buf : List α} (hbuf : chop a b buf = ([], buf)) (segs : List (List α)) :
    feed a b buf segs = chop a b (buf ++ segs.flatten) := by
  induction segs generalizing buf with
  | nil => rw [List.flatten_nil, List.append_nil, hbuf]; rfl
  | cons seg segs ih =>
    rw [feed, ih (chop_chop_snd _), List.flatten_cons, ← List.append_assoc,
      chop_append_rest (buf ++ seg)]

end MutexIM.Delimited
