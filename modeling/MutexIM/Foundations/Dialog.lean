import Mathlib.Data.List.Basic
import MutexIM.Foundations.Pipeline

/-!
# Dialogs over a connection

A program that talks to a server over one connection can send a command and wait for its reply, or
append commands and fetch their replies later. The connection does not know which reply belongs to
which command: whoever fetches one is given the next.

* `Dialog` is such a program, `Dialog.run` what it does on a channel. The log numbers the commands and
  keeps whose replies were fetched.
* On the channel `later` commands are held back until a reply is waited for; on `atOnce` they are
  executed as they are appended. `run_view` with `settled`: a dialog cannot tell the difference.
* `Yields` is what a dialog does to a database and to the replies that are there, the log in step.
  There is a rule for each move, for sequences, and for loops that append and loops that fetch.
* `Yields.inStep`: if no replies are left, each fetch was given the reply to the command in its place.
-/

namespace MutexIM

/-- A program that appends commands, gets replies, and sends commands whose reply it waits for. -/
inductive Dialog (κ ρ α : Type*)
  | done (a : α)
  | append (c : κ) (next : Dialog κ ρ α)
  | getReply (next : ρ → Dialog κ ρ α)
  | command (c : κ) (next : ρ → Dialog κ ρ α)

/-- What commands are put into, and replies are taken from. -/
structure Channel (σ κ ρ : Type*) where
  put : σ → κ → σ
  take : σ → Option (ρ × σ)

/-- The number of commands so far; the numbers of those appended; the numbers of the commands whose
replies were fetched; and for each command that was waited for, its number and that of the command
whose reply came. -/
structure Log where
  issued : ℕ
  asked : List ℕ
  got : List ℕ
  sync : List (ℕ × ℕ)

namespace Log

def empty : Log := ⟨0, [], [], []⟩

/-- Each fetch was given the reply to the command appended in its place, and each command that was
waited for its own. -/
structure InStep (l : Log) : Prop where
  got : l.got = l.asked
  sync : ∀ e ∈ l.sync, e.1 = e.2

/-- The log is in step once the replies to these commands are fetched. -/
structure Awaits (l : Log) (ns : List ℕ) : Prop where
  asked : l.asked = l.got ++ ns
  sync : ∀ e ∈ l.sync, e.1 = e.2

theorem awaits_empty : empty.Awaits [] := ⟨rfl, fun _ h => by cases h⟩

theorem Awaits.inStep {l : Log} (h : l.Awaits []) : l.InStep :=
  ⟨(h.asked.trans (List.append_nil _)).symm, h.sync⟩

end Log

namespace Dialog

universe u

variable {κ σ τ δ : Type*} {ρ α β : Type u}

/-! ## Programs -/

protected def bind (f : α → Dialog κ ρ β) : Dialog κ ρ α → Dialog κ ρ β
  | done a => f a
  | append c next => append c (next.bind f)
  | getReply next => getReply fun r => (next r).bind f
  | command c next => command c fun r => (next r).bind f

instance : Monad (Dialog κ ρ) where
  pure := done
  bind x f := x.bind f

/-- The three moves. -/
def issue (c : κ) : Dialog κ ρ PUnit := append c (pure ⟨⟩)

def fetch : Dialog κ ρ ρ := getReply pure

def ask (c : κ) : Dialog κ ρ ρ := command c pure

/-- What a program does on a channel; `none` if it waits for a reply that does not come. -/
def run (M : Channel σ (ℕ × κ) (ℕ × ρ)) : Dialog κ ρ α → σ × Log → Option (α × σ × Log)
  | done a, s => some (a, s)
  | append c next, (s, l) =>
    next.run M (M.put s (l.issued, c), { l with issued := l.issued + 1, asked := l.asked ++ [l.issued] })
  | getReply next, (s, l) =>
    (M.take s).bind fun out => (next out.1.2).run M (out.2, { l with got := l.got ++ [out.1.1] })
  | command c next, (s, l) =>
    (M.take (M.put s (l.issued, c))).bind fun out => (next out.1.2).run M
      (out.2, { l with issued := l.issued + 1, sync := l.sync ++ [(l.issued, out.1.1)] })

theorem run_bind (M : Channel σ (ℕ × κ) (ℕ × ρ)) (x : Dialog κ ρ α) (f : α → Dialog κ ρ β)
    (s : σ × Log) : (x >>= f).run M s = (x.run M s).bind fun out => (f out.1).run M out.2 := by
  change (x.bind f).run M s = _
  induction x generalizing s with
  | done a => rfl
  | append c next ih => exact ih _
  | getReply next ih =>
    simp only [Dialog.bind, run, Option.bind_assoc]
    exact Option.bind_congr fun out _ => ih _ _
  | command c next ih =>
    simp only [Dialog.bind, run, Option.bind_assoc]
    exact Option.bind_congr fun out _ => ih _ _

/-- **Simulation**: a view of one channel as another carries over to what programs do. -/
theorem run_view {M : Channel σ (ℕ × κ) (ℕ × ρ)} {M' : Channel τ (ℕ × κ) (ℕ × ρ)} (view : σ → τ)
    (hput : ∀ s c, view (M.put s c) = M'.put (view s) c)
    (htake : ∀ s, M'.take (view s) = (M.take s).map fun out => (out.1, view out.2))
    (x : Dialog κ ρ α) (s : σ) (l : Log) :
    x.run M' (view s, l) = (x.run M (s, l)).map fun out => (out.1, view out.2.1, out.2.2) := by
  induction x generalizing s l with
  | done a => rfl
  | append c next ih =>
    rw [run, run, ← hput]
    exact ih _ _
  | getReply next ih =>
    rw [run, run, htake, Option.bind_map, Option.map_bind]
    exact Option.bind_congr fun out _ => ih _ _ _
  | command c next ih =>
    rw [run, run, ← hput, htake, Option.bind_map, Option.map_bind]
    exact Option.bind_congr fun out _ => ih _ _ _

/-! ## Two channels to a server -/

section Server

variable (exec : δ → κ → δ × ρ)

/-- The server executes commands in order. -/
def execAll (d : δ) : List κ → δ × List ρ
  | [] => (d, [])
  | c :: cs => ((execAll (exec d c).1 cs).1, (exec d c).2 :: (execAll (exec d c).1 cs).2)

/-- Commands are held back until a reply is waited for that has not arrived. -/
def later : Channel (δ × Pipeline κ ρ) κ ρ where
  put s c := (s.1, s.2.issue [c])
  take s :=
    match s.2.next? with
    | some (r, p) => some (r, s.1, p)
    | none =>
      let out := execAll exec s.1 s.2.commands
      (Pipeline.next? ⟨[], out.2⟩).map fun (r, p) => (r, out.1, p)

/-- Commands are executed as they are put in. -/
def atOnce : Channel (δ × List ρ) κ ρ where
  put s c := ((exec s.1 c).1, s.2 ++ [(exec s.1 c).2])
  take s :=
    match s.2 with
    | [] => none
    | r :: rs => some (r, s.1, rs)

/-- The database once all commands are executed, and the replies there will be. -/
def settled (s : δ × Pipeline κ ρ) : δ × List ρ :=
  ((execAll exec s.1 s.2.commands).1, s.2.replies ++ (execAll exec s.1 s.2.commands).2)

variable {exec} {d : δ} {cs cs' : List κ}

theorem execAll_append : execAll exec d (cs ++ cs') =
    ((execAll exec (execAll exec d cs).1 cs').1,
      (execAll exec d cs).2 ++ (execAll exec (execAll exec d cs).1 cs').2) := by
  induction cs generalizing d with
  | nil => rfl
  | cons c cs ih => rw [List.cons_append, execAll, ih, execAll, List.cons_append]

theorem length_execAll : (execAll exec d cs).2.length = cs.length := by
  induction cs generalizing d with
  | nil => rfl
  | cons c cs ih => rw [execAll, List.length_cons, List.length_cons, ih]

theorem fst_execAll : (execAll exec d cs).1 = cs.foldl (fun d c => (exec d c).1) d := by
  induction cs generalizing d with
  | nil => rfl
  | cons c cs ih => exact ih

/-- Commands that only read. -/
theorem execAll_of_reads (h : ∀ c ∈ cs, (exec d c).1 = d) :
    execAll exec d cs = (d, cs.map fun c => (exec d c).2) := by
  induction cs with
  | nil => rfl
  | cons c cs ih =>
    rw [execAll, h c List.mem_cons_self, ih fun c hc => h c (List.mem_cons_of_mem _ hc), List.map_cons]

theorem settled_put (s : δ × Pipeline κ ρ) (c : κ) :
    settled exec ((later exec).put s c) = (atOnce exec).put (settled exec s) c := by
  simp only [settled, later, atOnce, Pipeline.issue, execAll_append, execAll, List.append_assoc]

theorem settled_take (s : δ × Pipeline κ ρ) : (atOnce exec).take (settled exec s) =
    ((later exec).take s).map fun out => (out.1, settled exec out.2) := by
  obtain ⟨d, commands, replies⟩ := s
  cases replies with
  | cons r rs => rfl
  | nil =>
    simp only [settled, later, atOnce, Pipeline.next?, List.nil_append]
    cases (execAll exec d commands).2 with
    | nil => rfl
    | cons r rs => simp only [Option.map_some, execAll, List.append_nil]

end Server

/-! ## What a dialog does, in step -/

/-- The server as it executes numbered commands. -/
def numbered (exec : δ → κ → δ × ρ) (d : δ) (e : ℕ × κ) : δ × (ℕ × ρ) :=
  ((exec d e.2).1, e.1, (exec d e.2).2)

/-- From a database and the replies that wait to be fetched the dialog ends with the value, another
database and other replies, and the log awaits those. -/
def Yields (exec : δ → κ → δ × ρ) (x : Dialog κ ρ α) (s : δ × List ρ) (a : α) (s' : δ × List ρ) : Prop :=
  ∀ (rs : List (ℕ × ρ)) (l : Log), rs.map Prod.snd = s.2 → l.Awaits (rs.map Prod.fst) →
    ∃ (rs' : List (ℕ × ρ)) (l' : Log), rs'.map Prod.snd = s'.2 ∧ l'.Awaits (rs'.map Prod.fst) ∧
      x.run (atOnce (numbered exec)) ((s.1, rs), l) = some (a, (s'.1, rs'), l')

section Rules

variable {exec : δ → κ → δ × ρ} {x : Dialog κ ρ α} {f : α → Dialog κ ρ β} {a : α} {b : β} {c : κ}
  {d d' : δ} {r : ρ} {rs : List ρ} {s s' s'' : δ × List ρ}

namespace Yields

protected theorem pure (a : α) : Yields exec (pure a) s a s :=
  fun rs l hrs hl => ⟨rs, l, hrs, hl, rfl⟩

protected theorem bind (h : Yields exec x s a s') (hf : Yields exec (f a) s' b s'') :
    Yields exec (x >>= f) s b s'' := by
  intro rs l hrs hl
  obtain ⟨rs', l', hrs', hl', hrun⟩ := h rs l hrs hl
  obtain ⟨rs'', l'', hrs'', hl'', hrun'⟩ := hf rs' l' hrs' hl'
  refine ⟨rs'', l'', hrs'', hl'', ?_⟩
  rw [run_bind, hrun, Option.bind_some, hrun']

protected theorem ite {p : Prop} [Decidable p] {y : Dialog κ ρ α} {a' : α}
    (hx : p → Yields exec x s a s') (hy : ¬p → Yields exec y s a' s') :
    Yields exec (if p then x else y) s (if p then a else a') s' := by
  by_cases hp : p
  · rw [if_pos hp, if_pos hp]
    exact hx hp
  · rw [if_neg hp, if_neg hp]
    exact hy hp

/-- The reply to the command will be the last one. -/
protected theorem issue : Yields exec (issue c) (d, rs) ⟨⟩ ((exec d c).1, rs ++ [(exec d c).2]) := by
  intro ns l hrs hl
  refine ⟨ns ++ [(l.issued, (exec d c).2)],
    { l with issued := l.issued + 1, asked := l.asked ++ [l.issued] }, ?_, ⟨?_, hl.sync⟩, rfl⟩
  · rw [List.map_append, hrs]
    rfl
  · rw [hl.asked, List.map_append, List.append_assoc]
    rfl

/-- The first reply is the one to the command in its place. -/
protected theorem fetch : Yields exec fetch (d, r :: rs) r (d, rs) := by
  intro ns l hrs hl
  obtain ⟨e, ns, rfl, rfl, rfl⟩ := List.map_eq_cons_iff.1 hrs
  refine ⟨ns, { l with got := l.got ++ [e.1] }, rfl, ⟨?_, hl.sync⟩, rfl⟩
  rw [hl.asked, List.append_assoc]
  rfl

/-- A command gets its own reply if there are no others. -/
protected theorem ask : Yields exec (ask c) (d, []) (exec d c).2 ((exec d c).1, []) := by
  intro ns l hrs hl
  obtain rfl := List.map_eq_nil_iff.1 hrs
  refine ⟨[], { l with issued := l.issued + 1, sync := l.sync ++ [(l.issued, l.issued)] }, rfl,
    ⟨hl.asked, fun e he => ?_⟩, rfl⟩
  rcases List.mem_append.1 he with he | he
  · exact hl.sync e he
  · rw [List.mem_singleton.1 he]

/-! ### Loops -/

theorem foldl_zip_snd {γ : Type*} {ys : List γ} (h : rs.length ≤ ys.length) (g : α → ρ → α) (a : α) :
    (ys.zip rs).foldl (fun a e => g a e.2) a = rs.foldl g a := by
  conv_rhs => rw [← List.map_snd_zip h, List.foldl_map]

section Loops

variable {γ : Type*} (p : γ → Prop) [DecidablePred p]

/-- A loop that appends a command for each element selected. -/
theorem forM_issue (g : γ → κ) (xs : List γ) :
    Yields exec (forM xs fun x => if p x then issue (g x) else pure ⟨⟩) (d, rs) ⟨⟩
      ((execAll exec d ((xs.filter p).map g)).1, rs ++ (execAll exec d ((xs.filter p).map g)).2) := by
  induction xs generalizing d rs with
  | nil => exact (List.append_nil rs).symm ▸ .pure _
  | cons x xs ih =>
    rw [List.forM_cons]
    by_cases hx : p x
    · rw [if_pos hx, List.filter_cons_of_pos (by simpa using hx), List.map_cons, execAll]
      refine .bind .issue ?_
      have hrest : Yields exec _ ((exec d (g x)).1, rs ++ [(exec d (g x)).2]) _ _ := ih
      rwa [List.append_assoc, List.singleton_append] at hrest
    · rw [if_neg hx, List.filter_cons_of_neg (by simpa using hx)]
      exact .bind (.pure _) ih

theorem forM_issue_all (g : γ → κ) (xs : List γ) : Yields exec (forM xs fun x => issue (g x)) (d, rs) ⟨⟩
    ((execAll exec d (xs.map g)).1, rs ++ (execAll exec d (xs.map g)).2) := by
  simpa using (forM_issue (fun _ => True) g xs : Yields exec _ (d, rs) _ _)

/-- A loop that waits for the reply to a command for each element selected. -/
theorem forM_ask (g : γ → κ) (xs : List γ) :
    Yields exec (forM xs fun x => if p x then ask (g x) >>= fun _ => pure ⟨⟩ else pure ⟨⟩) (d, []) ⟨⟩
      ((execAll exec d ((xs.filter p).map g)).1, []) := by
  induction xs generalizing d with
  | nil => exact .pure _
  | cons x xs ih =>
    rw [List.forM_cons]
    by_cases hx : p x
    · rw [if_pos hx, List.filter_cons_of_pos (by simpa using hx), List.map_cons, execAll]
      exact .bind (.bind .ask (.pure _)) ih
    · rw [if_neg hx, List.filter_cons_of_neg (by simpa using hx)]
      exact .bind (.pure _) ih

/-- **A loop that fetches a reply for each element selected**: it gets the replies in their order, and
none is left if as many elements are selected as there are replies. -/
theorem foldlM_fetch (g : α → γ → ρ → α) (ys : List γ) (h : rs.length = (ys.filter p).length) :
    Yields exec
      (ys.foldlM (fun a y => if p y then fetch >>= fun r => pure (g a y r) else pure a) a)
      (d, rs) (((ys.filter p).zip rs).foldl (fun a e => g a e.1 e.2) a) (d, []) := by
  induction ys generalizing a rs with
  | nil =>
    obtain rfl := List.eq_nil_of_length_eq_zero h
    exact .pure _
  | cons y ys ih =>
    rw [List.foldlM_cons]
    by_cases hy : p y
    · rw [List.filter_cons_of_pos (by simpa using hy)] at h ⊢
      obtain ⟨r, rs, rfl⟩ := List.exists_cons_of_length_eq_add_one h
      rw [if_pos hy]
      exact .bind (.bind .fetch (.pure _)) (ih (Nat.succ.inj h))
    · rw [List.filter_cons_of_neg (by simpa using hy)] at h ⊢
      rw [if_neg hy]
      exact .bind (.pure _) (ih h)

theorem foldlM_fetch_all (g : α → ρ → α) (ys : List γ) (h : rs.length = ys.length) :
    Yields exec (ys.foldlM (fun a _ => fetch >>= fun r => pure (g a r)) a) (d, rs)
      (rs.foldl g a) (d, []) := by
  have hloop : Yields exec
      (ys.foldlM (fun a _ => if True then fetch >>= fun r => pure (g a r) else pure a) a)
      (d, rs) (((ys.filter fun _ => True).zip rs).foldl (fun a e => g a e.2) a) (d, []) :=
    foldlM_fetch (fun _ => True) (fun a _ r => g a r) ys (by simpa using h)
  rw [← foldl_zip_snd (Nat.le_of_eq h)]
  simpa using hloop

/-- A loop that fetches replies and drops them. -/
theorem forM_fetch (ys : List γ) (h : rs.length = ys.length) :
    Yields exec (forM ys fun _ => fetch >>= fun _ => pure ⟨⟩) (d, rs) ⟨⟩ (d, []) := by
  induction ys generalizing rs with
  | nil =>
    obtain rfl := List.eq_nil_of_length_eq_zero h
    exact .pure _
  | cons y ys ih =>
    obtain ⟨r, rs, rfl⟩ := List.exists_cons_of_length_eq_add_one h
    rw [List.forM_cons]
    exact .bind (.bind .fetch (.pure _)) (ih (Nat.succ.inj h))

end Loops

/-- **No reply slips**: if none is left, every fetch was given the reply to the command in its place,
and every command that was waited for its own. -/
theorem inStep (h : Yields exec x (d, []) a (d', [])) : ∃ l : Log, l.InStep ∧
    x.run (later (numbered exec)) ((d, Pipeline.empty), Log.empty) =
      some (a, (d', Pipeline.empty), l) := by
  obtain ⟨ns, l, hns, hl, hrun⟩ := h [] Log.empty rfl Log.awaits_empty
  obtain rfl := List.map_eq_nil_iff.1 hns
  have hview : x.run (atOnce (numbered exec)) ((d, []), Log.empty) =
      (x.run (later (numbered exec)) ((d, Pipeline.empty), Log.empty)).map fun out =>
        (out.1, settled (numbered exec) out.2.1, out.2.2) :=
    run_view (settled (numbered exec)) settled_put settled_take x (d, Pipeline.empty) Log.empty
  rw [hrun] at hview
  obtain ⟨⟨a', ⟨d'', commands, replies⟩, l'⟩, hlater, heq⟩ := Option.map_eq_some_iff.1 hview.symm
  obtain ⟨ha, hl'⟩ := Prod.mk.inj heq
  obtain ⟨hsettled, rfl⟩ := Prod.mk.inj hl'
  obtain ⟨hd, hreplies⟩ := Prod.mk.inj hsettled
  obtain ⟨hnil, hall⟩ := List.append_eq_nil_iff.1 hreplies
  have hcommands : commands = [] := by
    have hlen : (execAll (numbered exec) d'' commands).2.length = commands.length := length_execAll
    rw [hall] at hlen
    exact List.eq_nil_of_length_eq_zero hlen.symm
  subst ha hcommands hnil hd
  exact ⟨l', hl.inStep, hlater⟩

end Yields

end Rules

end Dialog

end MutexIM
