import Mathlib.Data.List.Induction

/-! # Labelled transition systems

A system is a relation `State → Label → State → Prop`.  `Run` is a finite run
together with the labels it took, oldest first.  The rules below are the ones
safety proofs need: an invariant, an invariant that also sees the labels taken so
far, a guard on every step, and the transport of runs along a view of the state.
-/

namespace Library.Transition

variable {State Label : Type}

inductive Run (step : State → Label → State → Prop) : State → List Label → State → Prop where
  | start {state : State} : Run step state [] state
  | next {first middle last : State} {labels : List Label} {label : Label} :
      Run step first labels middle → step middle label last →
      Run step first (labels ++ [label]) last

/-- The system restricted to the steps a guard allows.  The guard sees the state
before the step. -/
def Guarded (step : State → Label → State → Prop) (guard : State → Label → Prop) :
    State → Label → State → Prop :=
  fun before label after => guard before label ∧ step before label after

namespace Run

variable {step : State → Label → State → Prop} {first last : State} {labels : List Label}

theorem single {label : Label} (taken : step first label last) : Run step first [label] last := by
  have run : Run step first ([] ++ [label]) last := .next .start taken
  exact run

theorem trans {middle : State} {more : List Label} (left : Run step first labels middle)
    (right : Run step middle more last) : Run step first (labels ++ more) last := by
  induction right with
  | start => simpa using left
  | next _ taken ih =>
    rw [← List.append_assoc]
    exact .next ih taken

theorem cons {middle : State} {label : Label} (taken : step first label middle)
    (rest : Run step middle labels last) : Run step first (label :: labels) last :=
  (single taken).trans rest

theorem last_step {label : Label} (run : Run step first (labels ++ [label]) last) :
    ∃ middle, Run step first labels middle ∧ step middle label last := by
  generalize whole : labels ++ [label] = taken at run
  cases run with
  | start => simp at whole
  | next earlier step =>
    obtain ⟨rfl, same⟩ := List.append_inj' whole rfl
    cases same
    exact ⟨_, earlier, step⟩

theorem split {earlier later : List Label} (run : Run step first (earlier ++ later) last) :
    ∃ middle, Run step first earlier middle ∧ Run step middle later last := by
  induction later using List.reverseRecOn generalizing last with
  | nil => exact ⟨last, by simpa using run, .start⟩
  | append_singleton later label ih =>
    rw [← List.append_assoc] at run
    obtain ⟨before, earlier, taken⟩ := run.last_step
    obtain ⟨middle, first, rest⟩ := ih earlier
    exact ⟨middle, first, .next rest taken⟩

/-- A run comes to each of its steps. -/
theorem split_at {earlier later : List Label} {label : Label} (run : Run step first (earlier ++ label :: later) last) :
    ∃ middle next, Run step first earlier middle ∧ step middle label next ∧ Run step next later last := by
  rw [List.append_cons] at run
  obtain ⟨next, upTo, rest⟩ := run.split
  obtain ⟨middle, before, taken⟩ := upTo.last_step
  exact ⟨middle, next, before, taken, rest⟩

/-- What one step preserves, a run preserves. -/
theorem invariant (run : Run step first labels last) (holds : State → Prop) (initially : holds first)
    (preserved : ∀ before label after, holds before → step before label after → holds after) :
    holds last := by
  induction run with
  | start => exact initially
  | next _ taken ih => exact preserved _ _ _ ih taken

/-- The same for an invariant that may speak of the labels taken so far. -/
theorem invariantAlong (run : Run step first labels last) (holds : List Label → State → Prop)
    (initially : holds [] first)
    (preserved : ∀ sofar before label after, holds sofar before → step before label after →
      holds (sofar ++ [label]) after) :
    holds labels last := by
  induction run with
  | start => exact initially
  | next _ taken ih => exact preserved _ _ _ _ ih taken

theorem map {other : State → Label → State → Prop} (run : Run step first labels last)
    (weaker : ∀ before label after, step before label after → other before label after) :
    Run other first labels last := by
  induction run with
  | start => exact .start
  | next _ taken ih => exact .next ih (weaker _ _ _ taken)

theorem unguarded {guard : State → Label → Prop} (run : Run (Guarded step guard) first labels last) :
    Run step first labels last :=
  run.map fun _ _ _ taken => taken.2

end Run

/-! ## Simulation

`view` forgets part of the state.  A step of the concrete system is seen as one
step of the abstract system (`event label = some _`) or not at all. -/

section Simulation

variable {Abstract Event : Type} {concrete : State → Label → State → Prop}
  {abstract : Abstract → Event → Abstract → Prop} {view : State → Abstract}
  {event : Label → Option Event}

/-- The abstract system makes the step the concrete one is seen to make. -/
def Matches (abstract : Abstract → Event → Abstract → Prop) (before : Abstract)
    (seen : Option Event) (after : Abstract) : Prop :=
  match seen with
  | none => after = before
  | some taken => abstract before taken after

/-- Every run of the concrete system is seen as a run of the abstract one. -/
theorem Run.simulate {first last : State} {labels : List Label} (run : Run concrete first labels last)
    (invariant : State → Prop) (initially : invariant first)
    (preserved : ∀ before label after, invariant before → concrete before label after → invariant after)
    (matched : ∀ before label after, invariant before → concrete before label after →
      Matches abstract (view before) (event label) (view after)) :
    Run abstract (view first) (labels.filterMap event) (view last) := by
  induction run with
  | start => exact .start
  | @next middle last labels label earlier taken ih =>
    -- the step is taken from a state the invariant holds of
    have seen := matched _ _ _ (earlier.invariant invariant initially preserved) taken
    rw [List.filterMap_append]
    cases shown : event label with
    | none =>
      rw [shown] at seen
      simp only [Matches] at seen
      simpa [shown, seen] using ih
    | some taken =>
      rw [shown] at seen
      simpa [shown] using Run.next ih seen

end Simulation

end Library.Transition
