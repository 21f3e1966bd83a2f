import Mathlib.Data.Fintype.Defs
import Mathlib.Logic.Function.Basic

/-!
# A register that names its holder

Several parties share a register. A party that becomes the holder announces it and then writes its
name; one that stops being the holder then clears the register. Both writes are still to come for a
while.

* `Good`: every holder's name will be in the register once its writes are done, and while a name is to
  be written no other party holds anything or writes its name.
* `Good.announce`, `Good.release`, `Good.execClaim`, `Good.execRelease`, `Good.weaken`: the moves that
  keep this, with the conditions under which they do; `Good.turn` puts them together, and
  `Turn.of_one` is for several registers of which a step concerns one.
* `Good.holder_unique`, `Good.key_eq`: there is one holder, and the register names it when its writes
  are done.
-/

namespace MutexIM

/-- A write to the register: of a party's name, or of nothing. -/
inductive LeaseOp
  | claim | release
  deriving DecidableEq

/-- The register, the parties that hold, and the writes to come of each. -/
structure Lease (σ α : Type*) where
  key : Option α
  holds : σ → Prop
  ops : σ → List LeaseOp

namespace Lease

variable {σ α : Type*}

/-- What a write of a party makes of the register. -/
def apply (a : α) : Option α → LeaseOp → Option α
  | _, .claim => some a
  | _, .release => none

variable (name : σ → α) (l : Lease σ α)

/-- The register once the writes of a party are done, if nobody else writes. -/
def settled (x : σ) : Option α := (l.ops x).foldl (apply (name x)) l.key

/-- The register is free or names the party. -/
def FreeFor (x : σ) : Prop := l.key = none ∨ l.key = some (name x)

/-- No other party is about to write its name. -/
def Unclaimed (x : σ) : Prop := ∀ y, y ≠ x → .claim ∉ l.ops y

instance [DecidableEq α] (x : σ) : Decidable (l.FreeFor name x) := inferInstanceAs (Decidable (_ ∨ _))

instance [Fintype σ] [DecidableEq σ] (x : σ) : Decidable (l.Unclaimed x) :=
  inferInstanceAs (Decidable (∀ _, _))

/-- Every holder's name will be in the register; a party that is about to write its name is alone. -/
structure Good : Prop where
  settled : ∀ x, l.holds x → l.settled name x = some (name x)
  exclusive : ∀ x, .claim ∈ l.ops x → ∀ y, y ≠ x → ¬l.holds y ∧ .claim ∉ l.ops y

variable {name l} {l' : Lease σ α} {x : σ} {op : LeaseOp} {rest : List LeaseOp}

/-- A name that is there in the end is there already, or still to be written. -/
theorem claim_mem_or_of_foldl {a : α} {ops : List LeaseOp} {k : Option α}
    (h : ops.foldl (apply a) k = some a) : .claim ∈ ops ∨ k = some a := by
  induction ops generalizing k with
  | nil => exact .inr h
  | cons op ops ih =>
    cases op with
    | claim => exact .inl List.mem_cons_self
    | release =>
      rcases ih h with hmem | hnone
      · exact .inl (List.mem_cons_of_mem _ hmem)
      · cases hnone

/-- What is in the register first does not matter once a name is written. -/
theorem foldl_eq_of_claim_mem {a : α} {ops : List LeaseOp} (h : .claim ∈ ops) (k k' : Option α) :
    ops.foldl (apply a) k = ops.foldl (apply a) k' := by
  induction ops generalizing k k' with
  | nil => cases h
  | cons op ops ih =>
    cases op with
    | claim => rfl
    | release => rfl

/-- A write that is done leaves fewer to come. -/
theorem ops_subset [DecidableEq σ] (hfirst : l.ops x = op :: rest)
    (hops : l'.ops = Function.update l.ops x rest) (y : σ) : l'.ops y ⊆ l.ops y := by
  rw [hops]
  by_cases hyx : y = x
  · subst hyx
    rw [Function.update_self, hfirst]
    exact List.subset_cons_self ..
  · rw [Function.update_of_ne hyx]
    exact List.Subset.refl _

namespace Good

variable (hl : l.Good name)

include hl

/-- A holder is about to write its name, or has. -/
theorem claim_mem_or (hx : l.holds x) : .claim ∈ l.ops x ∨ l.key = some (name x) :=
  claim_mem_or_of_foldl (hl.settled x hx)

/-- **There is at most one holder.** -/
theorem holder_unique (hname : Function.Injective name) {y : σ} (hx : l.holds x) (hy : l.holds y) :
    x = y := by
  by_contra hne
  rcases hl.claim_mem_or hx with hclaim | hkey
  · exact (hl.exclusive x hclaim y (Ne.symm hne)).1 hy
  rcases hl.claim_mem_or hy with hclaim | hkey'
  · exact (hl.exclusive y hclaim x hne).1 hx
  · exact hne (hname (Option.some.inj (hkey.symm.trans hkey')))

/-- **The register names the holder** when the holder's writes are done. -/
theorem key_eq (hx : l.holds x) (hops : l.ops x = []) : l.key = some (name x) := by
  have h := hl.settled x hx
  rwa [Lease.settled, hops] at h

/-- Where the register is free for a party and nobody else is about to write, nobody else holds. -/
theorem not_holds_of_free (hname : Function.Injective name) (hfree : l.FreeFor name x)
    (hclaim : l.Unclaimed x) {y : σ} (hy : y ≠ x) : ¬l.holds y := by
  intro hholds
  rcases hl.claim_mem_or hholds with hmem | hkey
  · exact hclaim y hy hmem
  · rcases hfree with hnone | hself
    · cases hnone.symm.trans hkey
    · exact hy (hname (Option.some.inj (hkey.symm.trans hself)))

/-- Some parties stop holding. -/
theorem weaken (hholds : ∀ y, l'.holds y → l.holds y) (hops : l'.ops = l.ops)
    (hkey : l'.key = l.key) : l'.Good name where
  settled y hy := by
    rw [Lease.settled, hops, hkey]
    exact hl.settled y (hholds y hy)
  exclusive y hy z hz := by
    rw [hops] at hy ⊢
    exact ⟨fun h => (hl.exclusive y hy z hz).1 (hholds z h), (hl.exclusive y hy z hz).2⟩

variable [DecidableEq σ]

/-- **A party announces that it holds**: the register must be free for it, and nobody else about to
write. -/
theorem announce (hname : Function.Injective name) (hfree : l.FreeFor name x)
    (hclaim : l.Unclaimed x) (hholds : ∀ y, y ≠ x → l'.holds y → l.holds y)
    (hops : l'.ops = Function.update l.ops x (l.ops x ++ [.claim])) : l'.Good name where
  settled y hy := by
    by_cases hyx : y = x
    · subst hyx
      rw [Lease.settled, hops, Function.update_self, List.foldl_append]
      rfl
    · exact absurd (hholds y hyx hy) (hl.not_holds_of_free hname hfree hclaim hyx)
  exclusive y hy z hz := by
    by_cases hyx : y = x
    · subst hyx
      rw [hops, Function.update_of_ne hz]
      exact ⟨fun h => hl.not_holds_of_free hname hfree hclaim hz (hholds z hz h), hclaim z hz⟩
    · rw [hops, Function.update_of_ne hyx] at hy
      exact absurd hy (hclaim y hyx)

/-- A party stops holding and is to clear the register. -/
theorem release (hholds : ∀ y, l'.holds y → l.holds y ∧ y ≠ x)
    (hops : l'.ops = Function.update l.ops x (l.ops x ++ [.release])) (hkey : l'.key = l.key) :
    l'.Good name where
  settled y hy := by
    obtain ⟨hy, hyx⟩ := hholds y hy
    rw [Lease.settled, hops, Function.update_of_ne hyx, hkey]
    exact hl.settled y hy
  exclusive y hy z hz := by
    have hmem : ∀ w, .claim ∈ l'.ops w ↔ .claim ∈ l.ops w := by
      intro w
      rw [hops]
      by_cases hwx : w = x
      · subst hwx
        rw [Function.update_self, List.mem_append]
        exact or_iff_left (by decide)
      · rw [Function.update_of_ne hwx]
    rw [hmem] at hy ⊢
    exact ⟨fun h => (hl.exclusive y hy z hz).1 (hholds z h).1, (hl.exclusive y hy z hz).2⟩

omit [DecidableEq σ] in
/-- Writes that are done leave the parties alone that were. -/
theorem exclusive_of_subset (hholds : ∀ y, l'.holds y → l.holds y)
    (hops : ∀ y, l'.ops y ⊆ l.ops y) :
    ∀ x, .claim ∈ l'.ops x → ∀ y, y ≠ x → ¬l'.holds y ∧ .claim ∉ l'.ops y := by
  intro x hx y hy
  obtain ⟨hnot, hclaim⟩ := hl.exclusive x (hops x hx) y hy
  exact ⟨fun h => hnot (hholds y h), fun h => hclaim (hops y h)⟩

/-- **A name is written.** -/
theorem execClaim (hfirst : l.ops x = .claim :: rest) (hholds : ∀ y, l'.holds y → l.holds y)
    (hops : l'.ops = Function.update l.ops x rest) (hkey : l'.key = some (name x)) :
    l'.Good name where
  settled y hy := by
    by_cases hyx : y = x
    · subst hyx
      have h := hl.settled y (hholds y hy)
      rw [Lease.settled, hfirst] at h
      rw [Lease.settled, hops, Function.update_self, hkey]
      exact h
    · have hother := hl.exclusive x (hfirst ▸ List.mem_cons_self) y hyx
      exact absurd (hholds y hy) hother.1
  exclusive := hl.exclusive_of_subset hholds (ops_subset hfirst hops)

/-- **The register is cleared**: it must be free, or name the party that clears it. -/
theorem execRelease (hname : Function.Injective name) (hfirst : l.ops x = .release :: rest)
    (hfree : l.FreeFor name x) (hholds : ∀ y, l'.holds y → l.holds y)
    (hops : l'.ops = Function.update l.ops x rest) (hkey : l'.key = none) : l'.Good name where
  settled y hy := by
    have hsettled := hl.settled y (hholds y hy)
    by_cases hyx : y = x
    · subst hyx
      rw [Lease.settled, hfirst] at hsettled
      rw [Lease.settled, hops, Function.update_self, hkey]
      exact hsettled
    · rw [Lease.settled, hops, Function.update_of_ne hyx]
      rcases hl.claim_mem_or (hholds y hy) with hclaim | hnames
      · exact (foldl_eq_of_claim_mem hclaim _ _).trans hsettled
      · rcases hfree with hnone | hself
        · cases hnone.symm.trans hnames
        · exact absurd (hname (Option.some.inj (hnames.symm.trans hself))) hyx
  exclusive := hl.exclusive_of_subset hholds (ops_subset hfirst hops)

end Good

variable (name l) in
/-- What one step of a party may do: the register, whether the party holds, and its writes to come are
given as they are afterwards. -/
inductive Turn (x : σ) (key : Option α) (holds : Prop) (ops : List LeaseOp) : Prop
  | quiet (hholds : holds → l.holds x) (hops : ops = l.ops x) (hkey : key = l.key)
  | announce (hfree : l.FreeFor name x) (hclaim : l.Unclaimed x) (hops : ops = l.ops x ++ [.claim])
      (hkey : key = l.key)
  | release (hholds : ¬holds) (hops : ops = l.ops x ++ [.release]) (hkey : key = l.key)
  | execClaim (hfirst : l.ops x = .claim :: ops) (hholds : holds → l.holds x)
      (hkey : key = some (name x))
  | execRelease (hfirst : l.ops x = .release :: ops) (hfree : l.FreeFor name x)
      (hholds : holds → l.holds x) (hkey : key = none)

/-- Of several registers a step concerns one. -/
theorem Turn.of_one {κ : Type*} {l : κ → Lease σ α} {key : κ → Option α} {holds : κ → Prop}
    {ops : κ → List LeaseOp} (k : κ) (hk : (l k).Turn name x (key k) (holds k) (ops k))
    (hholds : ∀ k', k' ≠ k → holds k' → (l k').holds x) (hops : ∀ k', k' ≠ k → ops k' = (l k').ops x)
    (hkey : ∀ k', k' ≠ k → key k' = (l k').key) (k' : κ) :
    (l k').Turn name x (key k') (holds k') (ops k') := by
  by_cases h : k' = k
  · exact h ▸ hk
  · exact .quiet (hholds k' h) (hops k' h) (hkey k' h)

/-- **Every step keeps the lease good.** -/
theorem Good.turn [DecidableEq σ] (hl : l.Good name) (hname : Function.Injective name)
    {key : Option α} {holds : Prop} {ops : List LeaseOp} (h : l.Turn name x key holds ops) :
    Good name ⟨key, Function.update l.holds x holds, Function.update l.ops x ops⟩ := by
  have hself : Function.update l.holds x holds x = holds := Function.update_self ..
  have hother : ∀ y, y ≠ x → Function.update l.holds x holds y = l.holds y :=
    fun y hyx => Function.update_of_ne hyx ..
  have hsame : (holds → l.holds x) → ∀ y, Function.update l.holds x holds y → l.holds y := by
    intro hx y hy
    by_cases hyx : y = x
    · subst hyx
      exact hx (hself ▸ hy)
    · exact hother y hyx ▸ hy
  cases h with
  | quiet hholds hops hkey =>
    refine hl.weaken (hsame hholds) ?_ hkey
    subst hops
    exact Function.update_eq_self ..
  | announce hfree hclaim hops hkey =>
    exact hl.announce hname hfree hclaim (fun y hyx hy => hother y hyx ▸ hy) (by rw [hops])
  | release hholds hops hkey =>
    refine hl.release (fun y hy => ?_) (by rw [hops]) hkey
    by_cases hyx : y = x
    · subst hyx
      exact absurd (hself ▸ hy) hholds
    · exact ⟨hother y hyx ▸ hy, hyx⟩
  | execClaim hfirst hholds hkey => exact hl.execClaim hfirst (hsame hholds) rfl hkey
  | execRelease hfirst hfree hholds hkey =>
    exact hl.execRelease hname hfirst hfree (hsame hholds) rfl hkey

end Lease

end MutexIM
