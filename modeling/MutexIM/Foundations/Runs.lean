import Mathlib.Data.Nat.Notation

/-!
# Runs of a system

A system is a step function `σ → ε → Option σ`: the state after an event, or `none` when the event
cannot happen or has no defined effect. A run is a list of events, each of which happens in the state
the events before it lead to and meets a condition `ok` there.

* `Run.invariant`: what a step under the condition preserves holds at the end of every run;
  `Run.invariant_iff`: what a step preserves exactly under it holds along a run exactly under it;
  `Run.backward`: what holds at the end, and never stopped holding, gives the condition on each step;
  `Run.lasting_iff`: both, for what is never regained.
* `Run.refines`, `Run.simulates`: a run corresponds to one of an abstract machine if every step does.
* `exec` computes where a list of events leads; `Run.of_exec` and `Run.exists_of_exec` make a run of it.
-/

namespace MutexIM

variable {σ ε : Type*}

/-- The events `es` lead from the first state to the second, each step under the condition `ok`. -/
inductive Run (step : σ → ε → Option σ) (ok : σ → ε → Prop) : σ → List ε → σ → Prop
  | nil (s : σ) : Run step ok s [] s
  | cons {s s' t : σ} {e : ε} {es : List ε} (hok : ok s e) (hstep : step s e = some s')
      (hrun : Run step ok s' es t) : Run step ok s (e :: es) t

namespace Run

variable {step : σ → ε → Option σ} {ok : σ → ε → Prop} {s t : σ} {es : List ε}

/-- **The induction rule of runs.** -/
theorem invariant {I : σ → Prop}
    (hstep : ∀ s e s', I s → ok s e → step s e = some s' → I s') (h : Run step ok s es t)
    (hs : I s) : I t := by
  induction h with
  | nil s => exact hs
  | cons hok he _ ih => exact ih (hstep _ _ _ hs hok he)

theorem mono {ok' : σ → ε → Prop} (hok : ∀ s e, ok s e → ok' s e) (h : Run step ok s es t) :
    Run step ok' s es t := by
  induction h with
  | nil s => exact .nil s
  | cons h he _ ih => exact .cons (hok _ _ h) he ih

/-- The same, where the conditions compare in the states that an invariant allows. -/
theorem mono_of_invariant {I : σ → Prop} {ok' : σ → ε → Prop}
    (hstep : ∀ s e s', I s → ok s e → step s e = some s' → I s')
    (hok : ∀ s e, I s → ok s e → ok' s e) (h : Run step ok s es t) (hs : I s) :
    Run step ok' s es t := by
  induction h with
  | nil s => exact .nil s
  | cons h he _ ih => exact .cons (hok _ _ hs h) he (ih (hstep _ _ _ hs h he))

theorem cons_iff {s' : σ} {e : ε} (he : step s e = some s') :
    Run step ok s (e :: es) t ↔ ok s e ∧ Run step ok s' es t := by
  constructor
  · intro h
    cases h with
    | cons hok he' hrest =>
      obtain rfl := Option.some.inj (he.symm.trans he')
      exact ⟨hok, hrest⟩
  · exact fun ⟨hok, hrest⟩ => .cons hok he hrest

theorem append {u : σ} {es' : List ε} (h : Run step ok s es t) (h' : Run step ok t es' u) :
    Run step ok s (es ++ es') u := by
  induction h with
  | nil s => exact h'
  | cons hok he _ ih => exact .cons hok he (ih h')

/-- A run through states of a kind begins in one. -/
theorem first {I : σ → Prop} (h : Run step (fun s _ => I s) s es t) (ht : I t) : I s := by
  cases h with
  | nil => exact ht
  | cons hs => exact hs

/-- **The rule of necessary conditions.** Where a step from a state of a kind leads to one exactly
under the condition, a run goes through such states only exactly if its steps meet the condition. -/
theorem invariant_iff {I : σ → Prop}
    (hstep : ∀ s e s', I s → step s e = some s' → (ok s e ↔ I s'))
    (h : Run step (fun _ _ => True) s es t) (hs : I s) :
    Run step ok s es t ↔ Run step (fun s _ => I s) s es t ∧ I t := by
  induction h with
  | nil s => exact iff_of_true (.nil s) ⟨.nil s, hs⟩
  | @cons s s' t e es _ he _ ih =>
    rw [cons_iff he, cons_iff he, hstep s e s' hs he, and_iff_right hs]
    constructor
    · exact fun ⟨hs', hrun⟩ => (ih hs').1 hrun
    · rintro ⟨hrun, ht⟩
      have hs' := hrun.first ht
      exact ⟨hs', (ih hs').2 ⟨hrun, ht⟩⟩

/-- **The rule of the last state.** Where a property of the state after a step gives the condition, and
the property before the step, a run that ends with it meets the condition. -/
theorem backward {I : σ → Prop}
    (hstep : ∀ s e s', step s e = some s' → I s' → ok s e ∧ I s)
    (h : Run step (fun _ _ => True) s es t) (ht : I t) : Run step ok s es t ∧ I s := by
  induction h with
  | nil s => exact ⟨.nil s, ht⟩
  | cons _ he _ ih =>
    obtain ⟨hrun, hs'⟩ := ih ht
    obtain ⟨hok, hs⟩ := hstep _ _ _ he hs'
    exact ⟨.cons hok he hrun, hs⟩

/-- **The rule of lasting loss.** Where a property holds after a step exactly if it held before and the
step meets the condition, it holds at the end of a run exactly if it held at the beginning and all steps
meet the condition. -/
theorem lasting_iff {I J : σ → Prop} (hJ : ∀ s e s', J s → step s e = some s' → J s')
    (hstep : ∀ s e s', J s → step s e = some s' → (I s' ↔ ok s e ∧ I s))
    (h : Run step (fun _ _ => True) s es t) (hs : J s) : I t ↔ Run step ok s es t ∧ I s := by
  induction h with
  | nil s => exact (and_iff_right (.nil s)).symm
  | @cons s s' t e es _ he _ ih =>
    rw [ih (hJ _ _ _ hs he), hstep _ _ _ hs he, cons_iff he]
    exact ⟨fun ⟨hrun, hok, hs⟩ => ⟨⟨hok, hrun⟩, hs⟩, fun ⟨⟨hok, hrun⟩, hs⟩ => ⟨hrun, hok, hs⟩⟩

/-- **The rule of refinement.** Where every step under the condition corresponds to one of an abstract
machine, so does a run. -/
theorem refines {α : Type*} {R : σ → α → Prop} {next : α → ε → α}
    (hstep : ∀ s a e s', R s a → ok s e → step s e = some s' → R s' (next a e))
    (h : Run step ok s es t) {a : α} (hs : R s a) : R t (es.foldl next a) := by
  induction h generalizing a with
  | nil s => exact hs
  | cons hok he _ ih => exact ih (hstep _ _ _ _ hs hok he)

/-- **The rule of simulation.** Where every step is one of an abstract machine, or none, so is a run;
and it meets a condition on the abstract steps exactly if the abstract run does. -/
theorem simulates {α ω : Type*} {next : α → ω → Option α} {fine : α → ω → Prop} {abs : σ → α}
    {op : σ → ε → Option ω} {I : σ → Prop} (hI : ∀ s e s', I s → step s e = some s' → I s')
    (hskip : ∀ s e s', I s → step s e = some s' → op s e = none → abs s' = abs s)
    (hstep : ∀ s e s' o, I s → step s e = some s' → op s e = some o →
      next (abs s) o = some (abs s'))
    (h : Run step (fun _ _ => True) s es t) (hs : I s) :
    ∃ os, Run next (fun _ _ => True) (abs s) os (abs t) ∧
      (Run step (fun s e => ∀ o, op s e = some o → fine (abs s) o) s es t ↔
        Run next fine (abs s) os (abs t)) := by
  induction h with
  | nil s => exact ⟨[], .nil _, iff_of_true (.nil _) (.nil _)⟩
  | @cons s s' t e es _ he hrest ih =>
    obtain ⟨os, hrun, hiff⟩ := ih (hI _ _ _ hs he)
    have hcons : Run step (fun s e => ∀ o, op s e = some o → fine (abs s) o) s (e :: es) t ↔
        (∀ o, op s e = some o → fine (abs s) o) ∧ Run next fine (abs s') os (abs t) := by
      rw [cons_iff he, hiff]
    cases ho : op s e with
    | none =>
      rw [← hskip s e s' hs he ho]
      refine ⟨os, hrun, hcons.trans (and_iff_right fun o h => ?_)⟩
      cases ho.symm.trans h
    | some o =>
      have hnext := hstep s e s' o hs he ho
      refine ⟨o :: os, .cons trivial hnext hrun, hcons.trans ⟨fun ⟨hok, hrest'⟩ => ?_, fun hall => ?_⟩⟩
      · exact .cons (hok o ho) hnext hrest'
      · cases hall with
        | cons hok hnext' hrest' =>
          obtain rfl := Option.some.inj (hnext.symm.trans hnext')
          exact ⟨fun o' ho' => Option.some.inj (ho.symm.trans ho') ▸ hok, hrest'⟩

end Run

/-- The state after the events, if all of them happen and meet the condition. -/
def exec (step : σ → ε → Option σ) (ok : σ → ε → Prop) [∀ s e, Decidable (ok s e)] (s : σ) :
    List ε → Option σ
  | [] => some s
  | e :: es => if ok s e then (step s e).bind fun s' => exec step ok s' es else none

theorem Run.of_exec {step : σ → ε → Option σ} {ok : σ → ε → Prop} [∀ s e, Decidable (ok s e)]
    {s t : σ} {es : List ε} (h : exec step ok s es = some t) : Run step ok s es t := by
  induction es generalizing s with
  | nil =>
    obtain rfl := Option.some.inj h
    exact .nil s
  | cons e es ih =>
    rw [exec] at h
    split at h
    · next hok =>
      obtain ⟨s', hstep, hrun⟩ := Option.bind_eq_some_iff.1 h
      exact .cons hok hstep (ih hrun)
    · cases h

/-- A run to a state with a property that is computed. -/
theorem Run.exists_of_exec {step : σ → ε → Option σ} {ok : σ → ε → Prop} [∀ s e, Decidable (ok s e)]
    {s : σ} {es : List ε} {p : σ → Prop} [DecidablePred p]
    (h : (exec step ok s es).any (fun t => decide (p t)) = true) : ∃ t, Run step ok s es t ∧ p t := by
  obtain ⟨t, hexec, ht⟩ := (Option.any_eq_true _ _).1 h
  exact ⟨t, .of_exec hexec, of_decide_eq_true ht⟩

end MutexIM
