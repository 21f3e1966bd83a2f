import Mathlib.Data.List.Basic
import MutexIM.Foundations.Runs

/-!
# Parties and the connections between them

Parties react to inputs and to messages, and send messages to each other. What a direction of a connection
does with them is left to a `Transport`: messages are pushed at one end and taken at the other, and there
may be events in between that neither end sees.

* `Transport.fifo` is the queue of the messages. `Transport.Realizes` says what makes another transport as
  good as it for some messages.
* `Net.step` is the system of the parties over a transport.
* `Net.reachable_iff`: over a transport that realizes the queue, the parties come to the same states as
  over the queue.
* `Parties.logged` adds what each party has sent and received. `Net.sent_eq_of_run`: over such a transport
  what was sent is what was received and what is in the connection, for each two parties.
* `Net.party_of_run`: what a party keeps by itself holds in every run.
-/

namespace MutexIM

/-! ## Transports -/

/-- One direction of a connection. A taken value may be no message, and is then dropped. -/
structure Transport (μ : Type) where
  State : Type
  Event : Type
  new : State
  push : State → μ → State
  inner : State → Event → Option State
  take : State → Option (Option μ × State)

namespace Transport

variable {μ : Type}

/-- The queue of the messages. -/
abbrev fifo (μ : Type) : Transport μ where
  State := List μ
  Event := Unit
  new := []
  push ms m := ms ++ [m]
  inner _ _ := none
  take
    | [] => none
    | m :: ms => some (some m, ms)

/-- The transport does with good messages what the queue does, as long as its events are fine: `R` says
which messages are in it. -/
structure Realizes (T : Transport μ) (good : μ → Prop) (fine : T.State → T.Event → Prop)
    (R : T.State → List μ → Prop) : Prop where
  new : R T.new []
  push : ∀ {s ms m}, R s ms → good m → R (T.push s m) (ms ++ [m])
  inner : ∀ {s ms e t}, R s ms → fine s e → T.inner s e = some t → R t ms
  take : ∀ {s ms r t}, R s ms → T.take s = some (r, t) → ∃ m ms', ms = m :: ms' ∧ r = some m ∧ R t ms'
  deliver : ∀ {s m ms}, R s (m :: ms) →
    ∃ es s' t, Run T.inner fine s es s' ∧ T.take s' = some (some m, t) ∧ R t ms

variable {T : Transport μ} {good : μ → Prop} {fine : T.State → T.Event → Prop}
  {R : T.State → List μ → Prop}

theorem Realizes.foldl_push (hT : T.Realizes good fine R) {s : T.State} {ms l : List μ} (hs : R s ms)
    (hl : ∀ m ∈ l, good m) : R (l.foldl T.push s) (ms ++ l) := by
  induction l generalizing s ms with
  | nil => rwa [List.append_nil]
  | cons m l ih =>
    have hpush := ih (hT.push hs (hl m List.mem_cons_self)) fun x hx => hl x (List.mem_cons_of_mem m hx)
    rwa [List.append_assoc, List.singleton_append] at hpush

end Transport

/-! ## Systems -/

/-- Parties, each with its states, its inputs, and what it does at an input or a message: its next state
and the messages it sends, or `none` where this is undefined. -/
structure Parties (ι μ : Type) where
  State : ι → Type
  Input : ι → Type
  input : (i : ι) → State i → Input i → Option (State i × List (ι × μ))
  receive : (i : ι) → State i → ι → μ → Option (State i × List (ι × μ))

/-- The messages to one party, or from one. -/
def ofPeer {ι μ : Type} [DecidableEq ι] (j : ι) (ms : List (ι × μ)) : List μ :=
  (ms.filter fun p => p.1 = j).map Prod.snd

section OfPeer

variable {ι κ μ : Type} [DecidableEq ι]

theorem ofPeer_append (j : ι) (ms ms' : List (ι × μ)) :
    ofPeer j (ms ++ ms') = ofPeer j ms ++ ofPeer j ms' := by
  rw [ofPeer, List.filter_append, List.map_append]
  rfl

theorem ofPeer_self (j : ι) (m : μ) : ofPeer j [(j, m)] = [m] := by simp [ofPeer]

theorem ofPeer_of_ne {i j : ι} (h : i ≠ j) (m : μ) : ofPeer j [(i, m)] = [] := by simp [ofPeer, h]

theorem mem_ofPeer {j : ι} {m : μ} {ms : List (ι × μ)} : m ∈ ofPeer j ms ↔ (j, m) ∈ ms := by
  simp only [ofPeer, List.mem_map, List.mem_filter, decide_eq_true_eq]
  constructor
  · rintro ⟨⟨i, m⟩, ⟨hmem, rfl⟩, rfl⟩
    exact hmem
  · exact fun h => ⟨(j, m), ⟨h, rfl⟩, rfl⟩

theorem ofPeer_map_self (j : ι) (l : List μ) : ofPeer j (l.map fun m => (j, m)) = l := by
  induction l with
  | nil => rfl
  | cons m l ih =>
    rw [List.map_cons, ← List.singleton_append, ofPeer_append, ofPeer_self, ih]
    rfl

theorem ofPeer_map_of_ne {i j : ι} (h : i ≠ j) (l : List μ) : ofPeer j (l.map fun m => (i, m)) = [] := by
  induction l with
  | nil => rfl
  | cons m l ih =>
    rw [List.map_cons, ← List.singleton_append, ofPeer_append, ofPeer_of_ne h, ih]
    rfl

/-- Of messages to several parties, one party's are those to it. -/
theorem ofPeer_flatMap {g : κ → ι} (hg : Function.Injective g) (f : κ → List μ) {ks : List κ}
    (hks : ks.Nodup) {k : κ} (hk : k ∈ ks) :
    ofPeer (g k) (ks.flatMap fun k => (f k).map fun m => (g k, m)) = f k := by
  have hrest : ∀ {ks : List κ}, k ∉ ks →
      ofPeer (g k) (ks.flatMap fun k => (f k).map fun m => (g k, m)) = [] := by
    intro ks hk
    induction ks with
    | nil => rfl
    | cons j ks ih =>
      obtain ⟨hne, hk⟩ := List.ne_and_not_mem_of_not_mem_cons hk
      rw [List.flatMap_cons, ofPeer_append, ofPeer_map_of_ne fun h => hne (hg h).symm, ih hk]
      rfl
  induction ks with
  | nil => cases hk
  | cons j ks ih =>
    obtain ⟨hj, hks⟩ := List.nodup_cons.1 hks
    rw [List.flatMap_cons, ofPeer_append]
    by_cases hkj : k = j
    · subst hkj
      rw [ofPeer_map_self, hrest hj, List.append_nil]
    · rw [ofPeer_map_of_ne fun h => hkj (hg h).symm,
        ih hks ((List.mem_cons.1 hk).resolve_left hkj), List.nil_append]

/-- Messages from several parties are those from each of them. -/
theorem perm_flatMap_ofPeer {js : List ι} (hjs : js.Nodup) {ms : List (ι × μ)}
    (h : ∀ p ∈ ms, p.1 ∈ js) : (js.flatMap fun j => ofPeer j ms).Perm (ms.map Prod.snd) := by
  induction js generalizing ms with
  | nil =>
    cases ms with
    | nil => exact .nil
    | cons p ms => cases h p List.mem_cons_self
  | cons j js ih =>
    obtain ⟨hj, hjs⟩ := List.nodup_cons.1 hjs
    have hothers : ∀ p ∈ ms.filter fun p => ¬p.1 = j, p.1 ∈ js := by
      intro p hp
      obtain ⟨hp, hne⟩ := List.mem_filter.1 hp
      exact (List.mem_cons.1 (h p hp)).resolve_left (of_decide_eq_true hne)
    have hsame : ∀ i ∈ js, ofPeer i (ms.filter fun p => ¬p.1 = j) = ofPeer i ms := by
      intro i hi
      rw [ofPeer, ofPeer, List.filter_filter]
      congr 2
      funext p
      by_cases hp : p.1 = i
      · have hne : p.1 ≠ j := fun hpj => hj (hpj ▸ hp ▸ hi)
        simp [hp, hp ▸ hne]
      · simp [hp]
    have hrest := ih hjs hothers
    rw [List.flatMap_congr hsame] at hrest
    rw [List.flatMap_cons]
    refine (hrest.append_left (ofPeer j ms)).trans ?_
    have hsplit := (List.filter_append_perm (fun p : ι × μ => decide (p.1 = j)) ms).map Prod.snd
    rw [List.map_append] at hsplit
    refine List.Perm.trans (.of_eq ?_) hsplit
    congr 2
    exact List.filter_congr fun p _ => by simp

end OfPeer

/-- The states of the parties, and for each ordered pair of them the direction of the connection. -/
structure Net {ι μ : Type} (D : Parties ι μ) (T : Transport μ) where
  party : (i : ι) → D.State i
  link : ι × ι → T.State

namespace Net

variable {ι μ : Type} {D : Parties ι μ} {T : Transport μ}

/-- A party gets an input; something happens in a connection; a party takes what has come from another. -/
inductive Event (D : Parties ι μ) (T : Transport μ)
  | input (i : ι) (x : D.Input i)
  | inner (i j : ι) (e : T.Event)
  | take (i j : ι)

/-- Parties that have sent nothing. -/
def new (party : (i : ι) → D.State i) : Net D T := ⟨party, fun _ => T.new⟩

variable [DecidableEq ι] (n : Net D T)

def setLink (i j : ι) (s : T.State) : Net D T := { n with link := Function.update n.link (i, j) s }

/-- Party `i` goes to a state and sends messages. -/
def become (i : ι) (out : D.State i × List (ι × μ)) : Net D T where
  party := Function.update n.party i out.1
  link c := if c.1 = i then (ofPeer c.2 out.2).foldl T.push (n.link c) else n.link c

/-- Party `j` takes a value that has come from `i`. -/
def handle (i j : ι) : Option μ → Option (Net D T)
  | some m => (D.receive j (n.party j) i m).map (n.become j)
  | none => some n

def step : Event D T → Option (Net D T)
  | .input i x => (D.input i (n.party i) x).map (n.become i)
  | .inner i j e => (T.inner (n.link (i, j)) e).map (n.setLink i j)
  | .take i j => (T.take (n.link (i, j))).bind fun r => (n.setLink i j r.2).handle i j r.1

/-- The messages sent are good, and what happens in a connection is fine. -/
def Allowed (good : μ → Prop) (fine : T.State → T.Event → Prop) : Event D T → Prop
  | .input i x => ∀ out, D.input i (n.party i) x = some out → ∀ p ∈ out.2, good p.2
  | .inner i j e => fine (n.link (i, j)) e
  | .take i j => ∀ m s out, T.take (n.link (i, j)) = some (some m, s) →
      D.receive j (n.party j) i m = some out → ∀ p ∈ out.2, good p.2

/-- The messages that are sent at an event. -/
def sentAt : Event D T → List (ι × μ)
  | .input i x => ((D.input i (n.party i) x).map Prod.snd).getD []
  | .inner _ _ _ => []
  | .take i j => ((T.take (n.link (i, j))).bind fun r =>
      r.1.bind fun m => (D.receive j (n.party j) i m).map Prod.snd).getD []

/-- Over the queue, only the messages matter. -/
abbrev AllowedFifo (n : Net D (.fifo μ)) (good : μ → Prop) : Event D (.fifo μ) → Prop :=
  n.Allowed good fun _ _ => True

variable {n}

section Decide

omit [DecidableEq ι]

variable {good : μ → Prop} {fine : T.State → T.Event → Prop}

theorem mem_getD_nil {α : Type} {o : Option (List α)} {a : α} : a ∈ o.getD [] ↔ ∃ l, o = some l ∧ a ∈ l := by
  cases o <;> simp

theorem allowed_input {i : ι} {x : D.Input i} :
    n.Allowed good fine (.input i x) ↔ ∀ p ∈ n.sentAt (.input i x), good p.2 := by
  simp only [Allowed, sentAt, mem_getD_nil, Option.map_eq_some_iff]
  constructor
  · rintro h p ⟨_, ⟨out, hout, rfl⟩, hp⟩
    exact h out hout p hp
  · exact fun h out hout p hp => h p ⟨_, ⟨out, hout, rfl⟩, hp⟩

theorem allowed_take {i j : ι} :
    n.Allowed good fine (.take i j) ↔ ∀ p ∈ n.sentAt (.take i j), good p.2 := by
  simp only [Allowed, sentAt, mem_getD_nil, Option.bind_eq_some_iff, Option.map_eq_some_iff]
  constructor
  · rintro h p ⟨_, ⟨⟨_, s⟩, htake, m, rfl, out, hout, rfl⟩, hp⟩
    exact h m s out htake hout p hp
  · exact fun h m s out htake hout p hp => h p ⟨_, ⟨⟨_, s⟩, htake, m, rfl, out, hout, rfl⟩, hp⟩

instance [DecidablePred good] [∀ s e, Decidable (fine s e)] (e : Event D T) :
    Decidable (n.Allowed good fine e) :=
  match e with
  | .input _ _ => decidable_of_iff _ allowed_input.symm
  | .inner i j e => inferInstanceAs (Decidable (fine (n.link (i, j)) e))
  | .take _ _ => decidable_of_iff _ allowed_take.symm

end Decide

theorem good_ofPeer {good : μ → Prop} {ms : List (ι × μ)} (h : ∀ p ∈ ms, good p.2) (j : ι) :
    ∀ m ∈ ofPeer j ms, good m := by
  intro m hm
  obtain ⟨p, hp, rfl⟩ := List.mem_map.1 hm
  exact h p ((List.mem_filter.1 hp).1)

theorem foldl_push_fifo (ms l : List μ) : l.foldl (Transport.fifo μ).push ms = ms ++ l := by
  induction l generalizing ms with
  | nil => exact (List.append_nil ms).symm
  | cons m l ih =>
    rw [List.foldl_cons, ih]
    exact List.append_assoc ms [m] l

theorem party_become_self (i : ι) (out : D.State i × List (ι × μ)) : (n.become i out).party i = out.1 :=
  Function.update_self ..

theorem party_become_of_ne {i j : ι} (h : j ≠ i) (out : D.State i × List (ι × μ)) :
    (n.become i out).party j = n.party j := Function.update_of_ne h ..

/-- What a party sends is put behind what is in the queues. -/
theorem link_become (q : Net D (.fifo μ)) (i : ι) (out : D.State i × List (ι × μ)) (c : ι × ι) :
    (q.become i out).link c = if c.1 = i then q.link c ++ ofPeer c.2 out.2 else q.link c := by
  change (if c.1 = i then _ else _) = _
  split
  · rw [foldl_push_fifo]
  · rfl

theorem take_fifo {q ms : List μ} {r : Option μ} (h : (Transport.fifo μ).take q = some (r, ms)) :
    ∃ m, q = m :: ms ∧ r = some m := by
  cases q with
  | nil => cases h
  | cons m ms' =>
    obtain ⟨rfl, rfl⟩ := Prod.mk.inj (Option.some.inj h)
    exact ⟨m, rfl, rfl⟩

/-! ## The same parties over a queue -/

/-- The parties are in the same states, and the connections hold the messages in the queues. -/
structure Matches (R : T.State → List μ → Prop) (n : Net D T) (q : Net D (.fifo μ)) : Prop where
  party : n.party = q.party
  link : ∀ c, R (n.link c) (q.link c)

variable {good : μ → Prop} {fine : T.State → T.Event → Prop} {R : T.State → List μ → Prop}
  {n n' : Net D T} {q q' : Net D (.fifo μ)}

theorem Matches.setLink (h : Matches R n q) {i j : ι} {s : T.State} {ms : List μ} (hs : R s ms) :
    Matches R (n.setLink i j s) (q.setLink i j ms) := by
  refine ⟨h.party, fun c => ?_⟩
  change R (Function.update n.link (i, j) s c) (Function.update q.link (i, j) ms c)
  by_cases hc : c = (i, j)
  · rw [hc, Function.update_self, Function.update_self]
    exact hs
  · rw [Function.update_of_ne hc, Function.update_of_ne hc]
    exact h.link c

theorem Matches.become (hT : T.Realizes good fine R) (h : Matches R n q) {i : ι}
    {out : D.State i × List (ι × μ)} (hout : ∀ p ∈ out.2, good p.2) :
    Matches R (n.become i out) (q.become i out) := by
  refine ⟨by rw [Net.become, Net.become, h.party], fun c => ?_⟩
  change R (if c.1 = i then _ else _) (if c.1 = i then _ else _)
  split
  · rw [foldl_push_fifo]
    exact hT.foldl_push (h.link c) (good_ofPeer hout c.2)
  · exact h.link c

/-- Whatever is in the connection from `i` to `j` is replaced. -/
theorem setLink_setLink (i j : ι) (s t : T.State) :
    (n.setLink i j s).setLink i j t = n.setLink i j t := by
  rw [setLink, setLink, setLink, Function.update_idem]

theorem setLink_link (i j : ι) : n.setLink i j (n.link (i, j)) = n := by
  rw [setLink, Function.update_eq_self]

theorem link_setLink_of_ne {i j : ι} {c : ι × ι} (h : c ≠ (i, j)) (s : T.State) :
    (n.setLink i j s).link c = n.link c := Function.update_of_ne h ..

@[simp] theorem link_setLink (i j : ι) (s : T.State) : (n.setLink i j s).link (i, j) = s :=
  Function.update_self ..

/-- What happens in one connection happens in the system. -/
theorem run_inner {i j : ι} {es : List T.Event} {s : T.State}
    (h : Run T.inner fine (n.link (i, j)) es s) :
    Run step (fun n e => n.Allowed good fine e) n (es.map (.inner i j)) (n.setLink i j s) := by
  generalize hs : n.link (i, j) = s₀ at h
  induction h generalizing n with
  | nil s =>
    rw [← hs, setLink_link]
    exact .nil n
  | @cons s s' t e es hok hstep _ ih =>
    subst hs
    have hrest := ih (n := n.setLink i j s') (link_setLink i j s')
    rw [setLink_setLink] at hrest
    exact .cons hok (congrArg (Option.map (n.setLink i j)) hstep) hrest

/-- **A step over the transport** is one over the queue, or none. -/
theorem Matches.exists_run_of_step (hT : T.Realizes good fine R) (h : Matches R n q) {e : Event D T}
    (hok : n.Allowed good fine e) (hstep : n.step e = some n') :
    ∃ es q', Run step (fun q e => q.AllowedFifo good e) q es q' ∧ Matches R n' q' := by
  cases e with
  | input i x =>
    obtain ⟨out, hout, rfl⟩ := Option.map_eq_some_iff.1 hstep
    have hsame : D.input i (q.party i) x = some out := h.party ▸ hout
    refine ⟨[.input i x], q.become i out, .cons ?_ ?_ (.nil _), h.become hT (hok out hout)⟩
    · intro out' hout'
      obtain rfl := Option.some.inj (hsame.symm.trans hout')
      exact hok out hout
    · change (D.input i (q.party i) x).map _ = _
      rw [hsame]
      rfl
  | inner i j e =>
    obtain ⟨s, hs, rfl⟩ := Option.map_eq_some_iff.1 hstep
    have hlink := h.setLink (i := i) (j := j) (hT.inner (h.link (i, j)) hok hs)
    rw [setLink_link] at hlink
    exact ⟨[], q, .nil q, hlink⟩
  | take i j =>
    obtain ⟨⟨r, s⟩, hr, hhandle⟩ := Option.bind_eq_some_iff.1 hstep
    obtain ⟨m, ms, hms, rfl, hs⟩ := hT.take (h.link (i, j)) hr
    obtain ⟨out, hout, rfl⟩ := Option.map_eq_some_iff.1 hhandle
    have hsame : D.receive j (q.party j) i m = some out := h.party ▸ hout
    have htake : (Transport.fifo μ).take (q.link (i, j)) = some (some m, ms) := by
      rw [hms]
    refine ⟨[.take i j], (q.setLink i j ms).become j out, .cons ?_ ?_ (.nil _),
      (h.setLink hs).become hT (hok m s out hr hout)⟩
    · intro m' ms' out' htake' hout'
      obtain ⟨hm, -⟩ := Prod.mk.inj (Option.some.inj (htake.symm.trans htake'))
      obtain rfl := Option.some.inj hm
      obtain rfl := Option.some.inj (hsame.symm.trans hout')
      exact hok m s out hr hout
    · change ((Transport.fifo μ).take (q.link (i, j))).bind _ = _
      rw [htake]
      change (D.receive j (q.party j) i m).map _ = _
      rw [hsame]
      rfl

/-- **A step over the queue** is a run over the transport. -/
theorem Matches.exists_run_of_fifo (hT : T.Realizes good fine R) (h : Matches R n q)
    {e : Event D (.fifo μ)} (hok : q.AllowedFifo good e) (hstep : q.step e = some q') :
    ∃ es n', Run step (fun n e => n.Allowed good fine e) n es n' ∧ Matches R n' q' := by
  cases e with
  | input i x =>
    obtain ⟨out, hout, rfl⟩ := Option.map_eq_some_iff.1 hstep
    have hsame : D.input i (n.party i) x = some out := h.party ▸ hout
    refine ⟨[.input i x], n.become i out, .cons ?_ ?_ (.nil _), h.become hT (hok out hout)⟩
    · intro out' hout'
      obtain rfl := Option.some.inj (hsame.symm.trans hout')
      exact hok out hout
    · change (D.input i (n.party i) x).map _ = _
      rw [hsame]
      rfl
  | inner i j e => cases hstep
  | take i j =>
    obtain ⟨⟨r, ms⟩, hr, hhandle⟩ := Option.bind_eq_some_iff.1 hstep
    obtain ⟨m, hms, rfl⟩ := take_fifo hr
    obtain ⟨out, hout, rfl⟩ := Option.map_eq_some_iff.1 hhandle
    obtain ⟨es, s, t, hrun, htake, ht⟩ := hT.deliver (hms ▸ h.link (i, j))
    have hsame : D.receive j (n.party j) i m = some out := h.party ▸ hout
    have hgood := hok m ms out hr hout
    have hlink := h.setLink (i := i) (j := j) ht
    refine ⟨es.map (.inner i j) ++ [.take i j], (n.setLink i j t).become j out,
      (run_inner hrun).append (.cons ?_ ?_ (.nil _)), hlink.become hT hgood⟩
    · intro m' t' out' htake' hout'
      rw [link_setLink, htake] at htake'
      obtain ⟨hm, -⟩ := Prod.mk.inj (Option.some.inj htake')
      obtain rfl := Option.some.inj hm
      obtain rfl := Option.some.inj (hsame.symm.trans hout')
      exact hgood
    · change (T.take ((n.setLink i j s).link (i, j))).bind _ = _
      rw [link_setLink, htake]
      change (((n.setLink i j s).setLink i j t).handle i j (some m)) = _
      rw [setLink_setLink]
      change (D.receive j (n.party j) i m).map _ = _
      rw [hsame]
      rfl

/-! ## Whole runs -/

theorem Matches.exists_run (hT : T.Realizes good fine R) {es : List (Event D T)}
    (hrun : Run step (fun n e => n.Allowed good fine e) n es n') (h : Matches R n q) :
    ∃ es' q', Run step (fun q e => q.AllowedFifo good e) q es' q' ∧ Matches R n' q' := by
  induction hrun generalizing q with
  | nil n => exact ⟨[], q, .nil q, h⟩
  | cons hok hstep _ ih =>
    obtain ⟨es₁, q₁, hrun₁, h₁⟩ := h.exists_run_of_step hT hok hstep
    obtain ⟨es₂, q₂, hrun₂, h₂⟩ := ih h₁
    exact ⟨es₁ ++ es₂, q₂, hrun₁.append hrun₂, h₂⟩

theorem Matches.exists_run_of_run (hT : T.Realizes good fine R) {es : List (Event D (.fifo μ))}
    (hrun : Run step (fun q e => q.AllowedFifo good e) q es q') (h : Matches R n q) :
    ∃ es' n', Run step (fun n e => n.Allowed good fine e) n es' n' ∧ Matches R n' q' := by
  induction hrun generalizing n with
  | nil q => exact ⟨[], n, .nil n, h⟩
  | cons hok hstep _ ih =>
    obtain ⟨es₁, n₁, hrun₁, h₁⟩ := h.exists_run_of_fifo hT hok hstep
    obtain ⟨es₂, n₂, hrun₂, h₂⟩ := ih h₁
    exact ⟨es₁ ++ es₂, n₂, hrun₁.append hrun₂, h₂⟩

omit [DecidableEq ι] in
theorem matches_new (hT : T.Realizes good fine R) (party : (i : ι) → D.State i) :
    Matches R (new party) (new party) := ⟨rfl, fun _ => hT.new⟩

/-- **The transport cannot be told from the queue**: with good messages the parties come to the same
states. -/
theorem reachable_iff (hT : T.Realizes good fine R) (party₀ party : (i : ι) → D.State i) :
    (∃ es n, Run step (fun n e => n.Allowed good fine e) (new party₀ : Net D T) es n ∧ n.party = party) ↔
      ∃ es q, Run step (fun q e => q.AllowedFifo good e) (new party₀) es q ∧ q.party = party := by
  constructor
  · rintro ⟨es, n, hrun, rfl⟩
    obtain ⟨es', q, hrun', h⟩ := (matches_new hT party₀).exists_run hT hrun
    exact ⟨es', q, hrun', h.party.symm⟩
  · rintro ⟨es, q, hrun, rfl⟩
    obtain ⟨es', n, hrun', h⟩ := (matches_new hT party₀).exists_run_of_run hT hrun
    exact ⟨es', n, hrun', h.party⟩

end Net

/-! ## What a party keeps -/

namespace Net

variable {ι μ : Type} [DecidableEq ι] {D : Parties ι μ} {T : Transport μ}

theorem party_become {I : (i : ι) → D.State i → Prop} {n : Net D T} (h : ∀ i, I i (n.party i)) {i : ι}
    {out : D.State i × List (ι × μ)} (hout : I i out.1) (j : ι) : I j ((n.become i out).party j) := by
  change I j (Function.update n.party i out.1 j)
  by_cases hj : j = i
  · subst hj
    rwa [Function.update_self]
  · rw [Function.update_of_ne hj]
    exact h j

/-- **The rule of local invariants.** What a party keeps at every input and every message, it keeps in the
system, over any transport. -/
theorem party_of_run {I : (i : ι) → D.State i → Prop}
    (hinput : ∀ i s x out, I i s → D.input i s x = some out → I i out.1)
    (hreceive : ∀ i s j m out, I i s → D.receive i s j m = some out → I i out.1)
    {ok : Net D T → Event D T → Prop} {es : List (Event D T)} {n n' : Net D T}
    (hrun : Run step ok n es n') (h : ∀ i, I i (n.party i)) : ∀ i, I i (n'.party i) := by
  refine hrun.invariant (I := fun n => ∀ i, I i (n.party i)) (fun n e n' h _ hstep => ?_) h
  cases e with
  | input i x =>
    obtain ⟨out, hout, rfl⟩ := Option.map_eq_some_iff.1 hstep
    exact party_become h (hinput i _ x out (h i) hout)
  | inner i j e =>
    obtain ⟨s, -, rfl⟩ := Option.map_eq_some_iff.1 hstep
    exact h
  | take i j =>
    obtain ⟨⟨r, s⟩, -, hhandle⟩ := Option.bind_eq_some_iff.1 hstep
    cases r with
    | none =>
      obtain rfl := Option.some.inj hhandle
      exact h
    | some m =>
      obtain ⟨out, hout, rfl⟩ := Option.map_eq_some_iff.1 hhandle
      exact party_become (n := n.setLink i j s) h (hreceive j _ i m out (h j) hout)

end Net

/-! ## What was sent and received -/

/-- A state, the messages sent with their receivers, and the messages received with their senders. -/
structure Logged (σ ι μ : Type) where
  state : σ
  sent : List (ι × μ)
  received : List (ι × μ)

namespace Parties

variable {ι μ : Type} (D : Parties ι μ)

/-- The same parties, with a log. -/
def logged : Parties ι μ where
  State i := Logged (D.State i) ι μ
  Input := D.Input
  input i s x := (D.input i s.state x).map fun out => (⟨out.1, s.sent ++ out.2, s.received⟩, out.2)
  receive i s j m := (D.receive i s.state j m).map fun out =>
    (⟨out.1, s.sent ++ out.2, s.received ++ [(j, m)]⟩, out.2)

/-- Parties that have sent and received nothing. -/
def unlogged (party : (i : ι) → D.State i) (i : ι) : D.logged.State i := ⟨party i, [], []⟩

end Parties

namespace Net

variable {ι μ : Type} [DecidableEq ι] {D : Parties ι μ}

/-- What was sent is what was received and what is in the queue. -/
def Conserved (q : Net D.logged (.fifo μ)) : Prop :=
  ∀ c, ofPeer c.2 (q.party c.1).sent = ofPeer c.1 (q.party c.2).received ++ q.link c

variable {q q' : Net D.logged (.fifo μ)}

/-- A party goes to a state in which it has sent more. -/
theorem conserved_become {i : ι} {s : D.logged.State i} {ms : List (ι × μ)}
    (hsent : s.sent = (q.party i).sent ++ ms)
    (h : ∀ c, ofPeer c.2 (q.party c.1).sent =
      ofPeer c.1 (Function.update (fun k => (q.party k).received) i s.received c.2) ++ q.link c) :
    (q.become i (s, ms)).Conserved := by
  intro c
  have hreceived : ((q.become i (s, ms)).party c.2).received =
      Function.update (fun k => (q.party k).received) i s.received c.2 :=
    Function.apply_update (fun _ => Logged.received) q.party i s c.2
  have hparty : ((q.become i (s, ms)).party c.1).sent =
      Function.update (fun k => (q.party k).sent) i s.sent c.1 :=
    Function.apply_update (fun _ => Logged.sent) q.party i s c.1
  have hlink : (q.become i (s, ms)).link c =
      if c.1 = i then q.link c ++ ofPeer c.2 ms else q.link c := by
    rw [← foldl_push_fifo]
    rfl
  rw [hreceived, hparty, hlink]
  by_cases hc : c.1 = i
  · have hold := h c
    rw [hc] at hold ⊢
    rw [Function.update_self, hsent, ofPeer_append, if_pos rfl, hold, List.append_assoc]
  · rw [Function.update_of_ne hc, if_neg hc]
    exact h c

theorem conserved_step (h : q.Conserved) {e : Event D.logged (.fifo μ)} (hstep : q.step e = some q') :
    q'.Conserved := by
  cases e with
  | input i x =>
    obtain ⟨out, hout, rfl⟩ := Option.map_eq_some_iff.1 hstep
    obtain ⟨out, -, rfl⟩ := Option.map_eq_some_iff.1 hout
    refine conserved_become rfl fun c => ?_
    rw [Function.update_eq_self]
    exact h c
  | inner i j e => cases hstep
  | take i j =>
    obtain ⟨⟨r, ms⟩, hr, hhandle⟩ := Option.bind_eq_some_iff.1 hstep
    cases hq : q.link (i, j) with
    | nil =>
      rw [hq] at hr
      cases hr
    | cons m ms' =>
      rw [hq] at hr
      obtain ⟨rfl, rfl⟩ := Prod.mk.inj (Option.some.inj hr)
      obtain ⟨out, hout, rfl⟩ := Option.map_eq_some_iff.1 hhandle
      obtain ⟨out, -, rfl⟩ := Option.map_eq_some_iff.1 hout
      refine conserved_become rfl fun c => ?_
      change ofPeer c.2 (q.party c.1).sent = ofPeer c.1
        (Function.update (fun k => (q.party k).received) j ((q.party j).received ++ [(i, m)]) c.2) ++
          Function.update q.link (i, j) ms' c
      rw [h c]
      by_cases hj : c.2 = j
      · by_cases hi : c.1 = i
        · obtain rfl : c = (i, j) := Prod.ext hi hj
          rw [hq, Function.update_self, Function.update_self, ofPeer_append, ofPeer_self,
            List.append_assoc, List.singleton_append]
        · have hne : c ≠ (i, j) := fun hc => hi (congrArg Prod.fst hc)
          rw [Function.update_of_ne hne, hj, Function.update_self, ofPeer_append,
            ofPeer_of_ne (Ne.symm hi), List.append_nil]
      · have hne : c ≠ (i, j) := fun hc => hj (congrArg Prod.snd hc)
        rw [Function.update_of_ne hne, Function.update_of_ne hj]

variable {T : Transport μ} {good : μ → Prop} {fine : T.State → T.Event → Prop}
  {R : T.State → List μ → Prop}

/-- **Nothing is lost, doubled or put out of order**: for each two parties, what one has sent to the other
is what the other has received from it, and then what is in the connection. -/
theorem sent_eq_of_run (hT : T.Realizes good fine R) {party₀ : (i : ι) → D.State i}
    {es : List (Event D.logged T)} {n : Net D.logged T}
    (hrun : Run step (fun n e => n.Allowed good fine e) (new (D.unlogged party₀)) es n) (i j : ι) :
    ∃ ms, R (n.link (i, j)) ms ∧
      ofPeer j (n.party i).sent = ofPeer i (n.party j).received ++ ms := by
  obtain ⟨es', q, hrun', h⟩ := (matches_new hT (D.unlogged party₀)).exists_run hT hrun
  have hconserved : q.Conserved :=
    hrun'.invariant (fun _ _ _ hq _ hstep => conserved_step hq hstep) fun _ => rfl
  refine ⟨q.link (i, j), h.link (i, j), ?_⟩
  rw [h.party]
  exact hconserved (i, j)

end Net

end MutexIM
