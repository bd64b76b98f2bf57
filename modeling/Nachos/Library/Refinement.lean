import Nachos.Library.Transition

/-!
# Refinement of a specification by a transition system

A specification is a relation: it says which events an action may emit in an abstract state and
which abstract state may follow. A transition system refines it when a step from related states
never fails under the conditions on the actions, emits events that the specification allows and
ends in related states (`Refines`). Then every list of allowed actions runs to its end as the
specification says (`Refines.execute`).

`Implements` is the same with conditions that the specification itself puts on its clients. Where
the specification leaves a choice, they have to be met for every choice (`Permitted`).
-/

namespace Nachos.Refinement

open Transition

variable {State Abstract Act Event : Type*}

/-- What a specification allows an action to emit, and the state after it. -/
abbrev Spec (Abstract Act Event : Type*) := Abstract → Act → List Event → Abstract → Prop

/-- The events a specification allows for the listed actions. -/
inductive Conforms (next : Spec Abstract Act Event) :
    Abstract → List Act → List Event → Abstract → Prop where
  | nil (a : Abstract) : Conforms next a [] [] a
  | cons {a b c : Abstract} {act : Act} {rest : List Act} {events later : List Event} :
      next a act events b → Conforms next b rest later c →
      Conforms next a (act :: rest) (events ++ later) c

/-- Related states answer an allowed action as the specification says and end related. -/
structure Refines (step : Step State Act Event) (ok : State → Act → Prop)
    (next : Spec Abstract Act Event) (related : State → Abstract → Prop) : Prop where
  step : ∀ s a act, related s a → ok s act →
    ∃ events t b, step s act = some (events, t) ∧ next a act events b ∧ related t b

variable {step : Step State Act Event} {ok : State → Act → Prop}
  {next : Spec Abstract Act Event} {related : State → Abstract → Prop} {s : State} {acts : List Act}

/-- A list of allowed actions runs to its end, as the specification says. -/
theorem Refines.execute (h : Refines step ok next related) {a : Abstract} (hrel : related s a)
    (hok : Allowed step ok s acts) :
    ∃ trace t b, Transition.execute step s acts = some (trace, t) ∧
      Conforms next a acts trace b ∧ related t b := by
  induction acts generalizing s a with
  | nil => exact ⟨[], s, a, rfl, .nil a, hrel⟩
  | cons act rest ih =>
    obtain ⟨events, t, b, hstep, hnext, hrel'⟩ := h.step s a act hrel hok.1
    have hrest : Allowed step ok t rest := by
      have htail := hok.2
      rwa [hstep] at htail
    obtain ⟨later, u, c, hexec, hconf, hrel''⟩ := ih hrel' hrest
    refine ⟨events ++ later, u, c, ?_, .cons hnext hconf, hrel''⟩
    simp [Transition.execute, hstep, hexec]

/-- A restriction that does not look at the state allows a list when it allows each action. -/
theorem allowed_of_forall {okAct : Act → Prop} (h : ∀ act ∈ acts, okAct act) :
    Allowed step (fun _ act => okAct act) s acts := by
  refine allowed_of_turns fun done act rest hacts _ _ _ => h act ?_
  rw [hacts]
  exact List.mem_append_right done List.mem_cons_self

/-! ## Preconditions -/

/-- The listed actions meet their preconditions, whatever the specification allows to happen. -/
def Permitted (next : Spec Abstract Act Event) (pre : Abstract → Act → Prop) :
    Abstract → List Act → Prop
  | _, [] => True
  | a, act :: rest => pre a act ∧ ∀ events b, next a act events b → Permitted next pre b rest

/-- Related states answer an action whose precondition is met as the specification says and end
related. -/
structure Implements (step : Step State Act Event) (pre : Abstract → Act → Prop)
    (next : Spec Abstract Act Event) (related : State → Abstract → Prop) : Prop where
  step : ∀ s a act, related s a → pre a act →
    ∃ events t b, step s act = some (events, t) ∧ next a act events b ∧ related t b

/-- A list of permitted actions runs to its end, as the specification says. -/
theorem Implements.execute {pre : Abstract → Act → Prop} (h : Implements step pre next related)
    {a : Abstract} (hrel : related s a) (hpre : Permitted next pre a acts) :
    ∃ trace t b, Transition.execute step s acts = some (trace, t) ∧
      Conforms next a acts trace b ∧ related t b := by
  induction acts generalizing s a with
  | nil => exact ⟨[], s, a, rfl, .nil a, hrel⟩
  | cons act rest ih =>
    obtain ⟨events, t, b, hstep, hnext, hrel'⟩ := h.step s a act hrel hpre.1
    obtain ⟨later, u, c, hexec, hconf, hrel''⟩ := ih hrel' (hpre.2 events b hnext)
    refine ⟨events ++ later, u, c, ?_, .cons hnext hconf, hrel''⟩
    simp [Transition.execute, hstep, hexec]

/-! ## Specifications without a choice -/

section Deterministic

variable {f : Abstract → Act → List Event × Abstract} {pre : Abstract → Act → Prop} {a : Abstract}
  {acts : List Act}

/-- The specification that a function is. -/
def Spec.ofFun (f : Abstract → Act → List Event × Abstract) : Spec Abstract Act Event :=
  fun a act events b => f a act = (events, b)

/-- The events and the last state of the listed actions. -/
def follow (f : Abstract → Act → List Event × Abstract) :
    Abstract → List Act → List Event × Abstract
  | a, [] => ([], a)
  | a, act :: rest =>
    ((f a act).1 ++ (follow f (f a act).2 rest).1, (follow f (f a act).2 rest).2)

theorem follow_of_conforms {b : Abstract} {trace : List Event}
    (h : Conforms (Spec.ofFun f) a acts trace b) : follow f a acts = (trace, b) := by
  induction h with
  | nil a => rfl
  | cons hnext _ ih =>
    have hstep : f _ _ = (_, _) := hnext
    rw [follow, hstep, ih]

/-- A system that implements a function answers with its events and ends in its state. -/
theorem Implements.follow {step : Step State Act Event}
    (h : Implements step pre (Spec.ofFun f) related) {s : State} (hrel : related s a)
    (hpre : Permitted (Spec.ofFun f) pre a acts) :
    ∃ t, Transition.execute step s acts = some ((Refinement.follow f a acts).1, t) ∧
      related t (Refinement.follow f a acts).2 := by
  obtain ⟨trace, t, b, hexec, hconf, hrel'⟩ := h.execute hrel hpre
  rw [follow_of_conforms hconf]
  exact ⟨t, hexec, hrel'⟩

theorem permitted_cons {act : Act} {rest : List Act} (h : pre a act)
    (hrest : Permitted (Spec.ofFun f) pre (f a act).2 rest) :
    Permitted (Spec.ofFun f) pre a (act :: rest) := by
  refine ⟨h, fun events b hnext => ?_⟩
  have hstep : f a act = (events, b) := hnext
  rw [hstep] at hrest
  exact hrest

end Deterministic

end Nachos.Refinement
