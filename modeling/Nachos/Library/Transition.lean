import Mathlib.Data.List.Basic

/-!
# Runs of a guarded transition system

A system is a partial step function that answers an action with the events it emits and the
next state. `Run step ok s trace t` says that finitely many steps lead from `s` to `t`, that
every action was allowed by `ok` in the state it was taken in, and that `trace` is the
concatenation of the emitted events. `execute` computes a run from a list of actions.
-/

namespace Nachos.Transition

variable {State Act Event : Type*}

/-- The step functions considered here: an action is refused or answered. -/
abbrev Step (State Act Event : Type*) := State → Act → Option (List Event × State)

/-- No restriction on the actions of a run. -/
def anyAct : State → Act → Prop := fun _ _ => True

/-- Finitely many allowed steps, with the concatenation of their events. -/
inductive Run (step : Step State Act Event) (ok : State → Act → Prop) (start : State) :
    List Event → State → Prop where
  | refl : Run step ok start [] start
  | snoc {trace events : List Event} {middle finish : State} {act : Act} :
      Run step ok start trace middle → ok middle act →
      step middle act = some (events, finish) → Run step ok start (trace ++ events) finish

variable {step : Step State Act Event} {ok : State → Act → Prop} {start finish : State}
  {trace : List Event} {acts : List Act}

/-- A step that a computation has not refused. -/
theorem ok_of_toOption {ε α : Type*} {x : Except ε α} {a : α} (h : x.toOption = some a) :
    x = .ok a := by
  cases x with
  | error e => cases h
  | ok b =>
    cases h
    rfl

/-- A bound operation that returns. -/
theorem ok_of_bind {ε α β : Type} {x : Except ε α} {f : α → Except ε β} {b : β}
    (h : (x >>= f) = .ok b) : ∃ a, x = .ok a ∧ f a = .ok b := by
  cases x with
  | error e => cases h
  | ok a => exact ⟨a, rfl, h⟩

/-- A bound operation that fails. -/
theorem error_of_bind {ε α β : Type} {x : Except ε α} {f : α → Except ε β} {e : ε}
    (h : (x >>= f) = .error e) : x = .error e ∨ ∃ a, x = .ok a ∧ f a = .error e := by
  cases x with
  | error e' =>
    cases h
    exact .inl rfl
  | ok a => exact .inr ⟨a, rfl, h⟩

/-- A state property that allowed steps preserve holds after every run. -/
theorem Run.invariant {Inv : State → Prop} (h : Run step ok start trace finish)
    (hstart : Inv start)
    (hstep : ∀ s act events t, Inv s → ok s act → step s act = some (events, t) → Inv t) :
    Inv finish := by
  induction h with
  | refl => exact hstart
  | snoc _ hok hs ih => exact hstep _ _ _ _ ih hok hs

/-- The same rule for properties of the state and the trace that led to it. -/
theorem Run.traceInvariant {Inv : List Event → State → Prop} (h : Run step ok start trace finish)
    (hstart : Inv [] start)
    (hstep : ∀ tr s act events t, Inv tr s → ok s act → step s act = some (events, t) →
      Inv (tr ++ events) t) : Inv trace finish := by
  induction h with
  | refl => exact hstart
  | snoc _ hok hs ih => exact hstep _ _ _ _ _ ih hok hs

/-- Allowed runs are runs under every weaker restriction. -/
theorem Run.mono {ok' : State → Act → Prop} (h : Run step ok start trace finish)
    (hok : ∀ s act, ok s act → ok' s act) : Run step ok' start trace finish := by
  induction h with
  | refl => exact .refl
  | snoc _ hallowed hs ih => exact .snoc ih (hok _ _ hallowed) hs

/-- Runs compose, and so do their traces. -/
theorem Run.append {middle : State} {first second : List Event}
    (h : Run step ok start first middle) (h' : Run step ok middle second finish) :
    Run step ok start (first ++ second) finish := by
  induction h' with
  | refl => simpa using h
  | snoc _ hallowed hs ih => rw [← List.append_assoc]; exact .snoc ih hallowed hs

/-- Perform the listed actions in order; a refused action refuses the whole list. -/
def execute (step : Step State Act Event) : State → List Act → Option (List Event × State)
  | s, [] => some ([], s)
  | s, act :: rest => do
    let (events, t) ← step s act
    let (later, u) ← execute step t rest
    pure (events ++ later, u)

/-- Every action of the list is allowed in the state it is taken in. -/
def Allowed (step : Step State Act Event) (ok : State → Act → Prop) : State → List Act → Prop
  | _, [] => True
  | s, act :: rest =>
    ok s act ∧ match step s act with
      | none => True
      | some (_, t) => Allowed step ok t rest

/-- `Allowed` is decidable when the restriction on single steps is. -/
instance Allowed.decidable (step : Step State Act Event) (ok : State → Act → Prop)
    [∀ s act, Decidable (ok s act)] : ∀ s acts, Decidable (Allowed step ok s acts)
  | _, [] => isTrue trivial
  | s, act :: rest =>
    match hs : step s act with
    | none => decidable_of_iff (ok s act) (by simp [Allowed, hs])
    | some (_, t) =>
      have := Allowed.decidable step ok t rest
      decidable_of_iff (ok s act ∧ Allowed step ok t rest) (by simp [Allowed, hs])

/-- A computed run whose actions are all allowed is a run. -/
theorem run_of_execute (h : execute step start acts = some (trace, finish))
    (hok : Allowed step ok start acts) : Run step ok start trace finish := by
  induction acts generalizing start trace with
  | nil =>
    cases h
    exact .refl
  | cons act rest ih =>
    simp only [execute, bind, Option.bind_eq_some_iff, pure, Option.some.injEq] at h
    obtain ⟨⟨events, t⟩, hs, ⟨later, u⟩, hrest, h⟩ := h
    cases h
    simp only [Allowed, hs] at hok
    have hone : Run step ok start ([] ++ events) t := .snoc .refl hok.1 hs
    exact hone.append (ih hrest hok.2)

/-- Performing two lists of actions one after the other. -/
theorem execute_append (start : State) (first second : List Act) :
    execute step start (first ++ second) = (execute step start first).bind fun r =>
      (execute step r.2 second).map fun q => (r.1 ++ q.1, q.2) := by
  induction first generalizing start with
  | nil => simp [execute]
  | cons act rest ih =>
    simp only [List.cons_append, execute, ih]
    cases step start act with
    | none => rfl
    | some r =>
      cases hr : execute step r.2 rest with
      | none => simp [hr]
      | some q => cases hq : execute step q.2 second <;> simp [hr, hq]

/-- Every run performs a list of actions. -/
theorem Run.exists_execute (h : Run step ok start trace finish) :
    ∃ acts, execute step start acts = some (trace, finish) := by
  induction h with
  | refl => exact ⟨[], rfl⟩
  | @snoc _ events _ finish act _ _ hs ih =>
    obtain ⟨acts, hacts⟩ := ih
    exact ⟨acts ++ [act], by simp [execute_append, hacts, execute, hs]⟩

/-- The beginning of an allowed list of actions is allowed. -/
theorem Allowed.left {first second : List Act} (h : Allowed step ok start (first ++ second)) :
    Allowed step ok start first := by
  induction first generalizing start with
  | nil => exact True.intro
  | cons act rest ih =>
    refine ⟨h.1, ?_⟩
    have hrest := h.2
    cases hs : step start act with
    | none => exact True.intro
    | some r =>
      rw [hs] at hrest
      exact ih hrest

/-- A list of actions is allowed if each action is, in the state in which its turn comes. -/
theorem allowed_of_turns (h : ∀ done act rest, acts = done ++ act :: rest → ∀ trace s,
      execute step start done = some (trace, s) → ok s act) : Allowed step ok start acts := by
  induction acts generalizing start with
  | nil => exact True.intro
  | cons act rest ih =>
    refine ⟨h [] act rest rfl [] start rfl, ?_⟩
    cases hs : step start act with
    | none => exact True.intro
    | some r =>
      refine ih fun done next rest' hacts trace s hexec => ?_
      refine h (act :: done) next rest' (by rw [hacts, List.cons_append]) (r.1 ++ trace) s ?_
      simp [execute, hs, hexec]

/-- A run can be known through what it shows of its last state. -/
theorem execute_observed {α : Type*} (observe : State → α) {value : α}
    (h : (execute step start acts).map (fun r => (r.1, observe r.2)) = some (trace, value)) :
    ∃ finish, execute step start acts = some (trace, finish) ∧ observe finish = value := by
  obtain ⟨⟨events, finish⟩, hexec, heq⟩ := Option.map_eq_some_iff.mp h
  cases heq
  exact ⟨finish, hexec, rfl⟩

/-- Without a restriction every list of actions is allowed. -/
theorem allowed_anyAct (s : State) (acts : List Act) : Allowed step anyAct s acts := by
  induction acts generalizing s with
  | nil => exact True.intro
  | cons act rest ih =>
    refine ⟨True.intro, ?_⟩
    cases step s act with
    | none => exact True.intro
    | some result => exact ih result.2

/-- A computed run whose actions are allowed and whose last state and trace pass a test. -/
theorem run_reaches_allowed (step : Step State Act Event) (ok : State → Act → Prop) (start : State)
    (test : List Event → State → Prop) [∀ trace s, Decidable (test trace s)] (acts : List Act)
    (h : ((execute step start acts).any fun r => test r.1 r.2) = true)
    (hok : Allowed step ok start acts) :
    ∃ trace finish, Run step ok start trace finish ∧ test trace finish := by
  obtain ⟨⟨trace, finish⟩, hexec, htest⟩ := (Option.any_eq_true _ _).mp h
  exact ⟨trace, finish, run_of_execute hexec hok, of_decide_eq_true htest⟩

/-- The same without a restriction. -/
theorem run_reaches (step : Step State Act Event) (start : State)
    (test : List Event → State → Prop) [∀ trace s, Decidable (test trace s)] (acts : List Act)
    (h : ((execute step start acts).any fun r => test r.1 r.2) = true) :
    ∃ trace finish, Run step anyAct start trace finish ∧ test trace finish :=
  run_reaches_allowed step anyAct start test acts h (allowed_anyAct _ _)

end Nachos.Transition
