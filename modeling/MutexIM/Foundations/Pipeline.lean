import Mathlib.Data.Nat.Notation

/-!
# Pipelined commands

A client that does not wait for answers: it issues commands, the server executes them in the order
issued, and the answers arrive in that order.

* `issue` and `run` are the two moves, `next?` takes the first answer that has arrived.
* `settle_run`: what the database will be once every issued command is executed does not change when
  one is executed. It can be computed on a view of the database.
* `Finds` is a condition on what each command will find when it is executed, known when it is issued.
* `outlook` lists the effects to come where callbacks issue commands in turn; `foldl_outlook_run` and
  `outlook_callback` say that executing a command and running a callback leave what they lead to.
-/

namespace MutexIM

/-- The commands issued and not executed yet, and the answers not taken yet. -/
structure Pipeline (κ ρ : Type*) where
  commands : List κ
  replies : List ρ

namespace Pipeline

variable {κ ρ δ α : Type*}

def empty : Pipeline κ ρ := ⟨[], []⟩

def issue (p : Pipeline κ ρ) (cs : List κ) : Pipeline κ ρ := { p with commands := p.commands ++ cs }

/-- The server executes the first command; some commands have no answer anyone takes. -/
def run (exec : δ → κ → δ × Option ρ) (d : δ) (p : Pipeline κ ρ) : Option (δ × Pipeline κ ρ) :=
  match p.commands with
  | [] => none
  | c :: cs => some ((exec d c).1, ⟨cs, p.replies ++ (exec d c).2.toList⟩)

/-- The first answer, and the client without it. -/
def next? (p : Pipeline κ ρ) : Option (ρ × Pipeline κ ρ) :=
  match p.replies with
  | [] => none
  | r :: rs => some (r, { p with replies := rs })

/-- The view of the database once the commands are executed. -/
def settle (p : Pipeline κ ρ) (apply : α → κ → α) (a : α) : α := p.commands.foldl apply a

variable {p p' : Pipeline κ ρ} {exec : δ → κ → δ × Option ρ} {d d' : δ} {apply : α → κ → α} {a : α}

theorem run_eq_some (h : p.run exec d = some (d', p')) :
    ∃ c, p.commands = c :: p'.commands ∧ d' = (exec d c).1 ∧
      p'.replies = p.replies ++ (exec d c).2.toList := by
  unfold run at h
  split at h
  · cases h
  · next c cs hcs =>
    obtain ⟨rfl, rfl⟩ := Prod.mk.inj (Option.some.inj h)
    exact ⟨c, hcs, rfl, rfl⟩

theorem next?_eq_some {r : ρ} (h : p.next? = some (r, p')) :
    p.replies = r :: p'.replies ∧ p'.commands = p.commands := by
  unfold next? at h
  split at h
  · cases h
  · next r' rs hrs =>
    obtain ⟨rfl, rfl⟩ := Prod.mk.inj (Option.some.inj h)
    exact ⟨hrs, rfl⟩

@[simp]
theorem issue_nil (p : Pipeline κ ρ) : p.issue [] = p := by rw [issue, List.append_nil]

/-- The commands that were not there before. -/
theorem drop_issue (cs : List κ) : (p.issue cs).commands.drop p.commands.length = cs := List.drop_left ..

theorem settle_issue (cs : List κ) : (p.issue cs).settle apply a = cs.foldl apply (p.settle apply a) :=
  List.foldl_append ..

theorem settle_congr (h : p'.commands = p.commands) : p'.settle apply a = p.settle apply a := by
  rw [settle, settle, h]

/-- **Executing a command** changes nothing once all are executed. -/
theorem settle_run {view : δ → α} (hview : ∀ d c, view (exec d c).1 = apply (view d) c)
    (h : p.run exec d = some (d', p')) : p'.settle apply (view d') = p.settle apply (view d) := by
  obtain ⟨c, hc, rfl, -⟩ := run_eq_some h
  rw [settle, settle, hc, List.foldl_cons, hview]

/-! ## What commands find -/

/-- Each of the commands meets a condition on the view of the database that it will be executed on. -/
def Finds (apply : α → κ → α) (ok : α → κ → Prop) : α → List κ → Prop
  | _, [] => True
  | a, c :: cs => ok a c ∧ Finds apply ok (apply a c) cs

section Finds

variable {ok : α → κ → Prop}

/-- **What a command finds is what those before it leave.** -/
theorem finds_append {cs ds : List κ} :
    Finds apply ok a (cs ++ ds) ↔ Finds apply ok a cs ∧ Finds apply ok (cs.foldl apply a) ds := by
  induction cs generalizing a with
  | nil => exact (and_iff_right trivial).symm
  | cons c cs ih => rw [List.cons_append, Finds, Finds, ih, List.foldl_cons, and_assoc]

theorem finds_of_forall {cs : List κ} (h : ∀ c ∈ cs, ∀ a, ok a c) : Finds apply ok a cs := by
  induction cs generalizing a with
  | nil => trivial
  | cons c cs ih =>
    exact ⟨h c List.mem_cons_self a, ih fun c' hc' => h c' (List.mem_cons_of_mem c hc')⟩

end Finds

/-! ## Commands that callbacks issue -/

section Outlook

variable {ω : Type*} {now later : κ → List ω} {answer : ρ → List ω} {cs : List κ} {r : ρ}

/-- The effects to come, in their order: those of the commands issued; those of the commands that
callbacks will issue at the answers that have arrived, and then at the answers to the commands. -/
def outlook (now later : κ → List ω) (answer : ρ → List ω) (p : Pipeline κ ρ) : List ω :=
  p.commands.flatMap now ++ (p.replies.flatMap answer ++ p.commands.flatMap later)

/-- Commands without an effect of their own put what their callbacks will do at the end. -/
theorem outlook_issue (hnow : cs.flatMap now = []) :
    (p.issue cs).outlook now later answer = p.outlook now later answer ++ cs.flatMap later := by
  simp only [outlook, issue, List.flatMap_append, hnow, List.append_nil, List.append_assoc]

/-- **Executing a command** leaves what the effects lead to, if its answer makes the callback issue what
was expected. -/
theorem foldl_outlook_run {view : δ → α} {apply : α → ω → α}
    (hview : ∀ c, view (exec d c).1 = (now c).foldl apply (view d))
    (hanswer : ∀ c, (exec d c).2.toList.flatMap answer = later c)
    (h : p.run exec d = some (d', p')) :
    (p'.outlook now later answer).foldl apply (view d') =
      (p.outlook now later answer).foldl apply (view d) := by
  obtain ⟨c, hc, rfl, hreplies⟩ := run_eq_some h
  have hlist : p.outlook now later answer = now c ++ p'.outlook now later answer := by
    simp only [outlook, hc, hreplies, List.flatMap_append, List.flatMap_cons, hanswer,
      List.append_assoc]
  rw [hlist, List.foldl_append, hview]

/-- **Running a callback** leaves the effects to come, if it issues what was expected. -/
theorem outlook_callback (hnow : cs.flatMap now = answer r) (hlater : cs.flatMap later = [])
    (h : p.next? = some (r, p')) :
    (p'.issue cs).outlook now later answer = p.outlook now later answer := by
  obtain ⟨hreplies, hcommands⟩ := next?_eq_some h
  simp only [outlook, issue, hreplies, hcommands, List.flatMap_append, List.flatMap_cons, hnow, hlater,
    List.append_nil, List.append_assoc]

end Outlook

end Pipeline

end MutexIM
