import Mathlib.Data.Set.Lattice
import Mathlib.Logic.Function.Basic
import Mathlib.Order.Bounds.Basic
import Mathlib.Order.SupClosed
import LeoCoin.Library.Transition

/-! # Gossip

Participants hold values of a join semilattice and send copies of them.  A call of a
participant receives one of the copies sent so far, and later the participant joins it to
its own value or forgets it.  Nothing says which copies arrive, how often or in which order.

Who has been heard of, along sends, receipts and joins, is what the same system comes to
over sets of participants.  A value never falls behind those it has heard of, and where
none is raised from outside, participants that have heard of all others agree.
-/

namespace Library.Gossip

open Library.Transition

inductive Event (ι : Type) where
  | raise (participant : ι) : Event ι
  | send (participant : ι) : Event ι
  | receive (participant : ι) (call copy : Nat) : Event ι
  | join (participant : ι) (call : Nat) : Event ι
  | forget (participant : ι) (call : Nat) : Event ι

@[ext]
structure State (ι V : Type) where
  value : ι → V
  /-- the copies sent so far, oldest first -/
  sent : List V
  /-- the copy that a call has received and not yet joined -/
  pending : ι × Nat → Option V

variable {ι V : Type}

/-- Nothing has been sent. -/
structure Silent (state : State ι V) : Prop where
  sent : state.sent = []
  pending : ∀ call, state.pending call = none

/-- Everybody has heard of themselves. -/
def introduced : State ι (Set ι) where
  value participant := {participant}
  sent := []
  pending _ := none

section Covers

variable [SemilatticeSup V] {first : State ι V}

/-- The value is at least what these participants had at first. -/
def Covers (first : State ι V) (participants : Set ι) (value : V) : Prop :=
  ∀ participant ∈ participants, first.value participant ≤ value

theorem Covers.mono {participants : Set ι} {value larger : V} (covers : Covers first participants value)
    (grows : value ≤ larger) : Covers first participants larger :=
  fun participant member => (covers participant member).trans grows

theorem Covers.sup {left right : Set ι} {value other : V} (covers : Covers first left value)
    (others : Covers first right other) : Covers first (left ⊔ right) (value ⊔ other) := by
  rintro participant (member | member)
  · exact (covers participant member).trans le_sup_left
  · exact (others participant member).trans le_sup_right

structure Tracks (first : State ι V) (known : State ι (Set ι)) (state : State ι V) : Prop where
  value : ∀ participant, Covers first (known.value participant) (state.value participant)
  sent : List.Forall₂ (Covers first) known.sent state.sent
  pending : ∀ call, Option.Rel (Covers first) (known.pending call) (state.pending call)

theorem Silent.tracks (silent : Silent first) : Tracks first introduced first where
  value participant other member := by
    obtain rfl := member
    exact le_rfl
  sent := by
    rw [silent.sent]
    exact .nil
  pending call := by
    rw [silent.pending]
    exact .none

end Covers

section System

variable [DecidableEq ι]

/-- What an event comes to where no value is raised. -/
def State.after [SemilatticeSup V] (state : State ι V) : Event ι → State ι V
  | .raise _ => state
  | .send participant => { state with sent := state.sent ++ [state.value participant] }
  | .receive participant call copy =>
    { state with pending := Function.update state.pending (participant, call) state.sent[copy]? }
  | .join participant call =>
    match state.pending (participant, call) with
    | none => state
    | some received =>
      { state with
        value := Function.update state.value participant (state.value participant ⊔ received)
        pending := Function.update state.pending (participant, call) none }
  | .forget participant call => { state with pending := Function.update state.pending (participant, call) none }

inductive Step [SemilatticeSup V] : State ι V → Event ι → State ι V → Prop where
  | raise {state : State ι V} {participant : ι} {value : V} :
      state.value participant ≤ value →
      Step state (.raise participant) { state with value := Function.update state.value participant value }
  | send {state : State ι V} {participant : ι} :
      Step state (.send participant) (state.after (.send participant))
  | receive {state : State ι V} {participant : ι} {call copy : Nat} :
      copy < state.sent.length →
      Step state (.receive participant call copy) (state.after (.receive participant call copy))
  | join {state : State ι V} {participant : ι} {call : Nat} {received : V} :
      state.pending (participant, call) = some received →
      Step state (.join participant call) (state.after (.join participant call))
  | forget {state : State ι V} {participant : ι} {call : Nat} :
      Step state (.forget participant call) (state.after (.forget participant call))

/-- Who has been heard of after these events: by a participant, in a copy and by a call. -/
def heard (events : List (Event ι)) : State ι (Set ι) := events.foldl State.after introduced

/-! ## What has been heard of is not fallen behind -/

section Heard

variable [SemilatticeSup V] {first before after last : State ι V} {event : Event ι} {events : List (Event ι)}

theorem Tracks.step {known : State ι (Set ι)} (tracks : Tracks first known before)
    (step : Step before event after) : Tracks first (known.after event) after := by
  cases step with
  | @raise participant value grows =>
    refine ⟨fun other => ?_, tracks.sent, tracks.pending⟩
    by_cases same : other = participant
    · subst same
      simp only [State.after, Function.update_self]
      exact (tracks.value other).mono grows
    · simp only [State.after, Function.update_of_ne same]
      exact tracks.value other
  | @send participant =>
    exact ⟨tracks.value, List.rel_append tracks.sent (.cons (tracks.value participant) .nil), tracks.pending⟩
  | @receive participant call copy there =>
    refine ⟨tracks.value, tracks.sent, fun other => ?_⟩
    by_cases same : other = (participant, call)
    · subst same
      simp only [State.after, Function.update_self]
      have sameLength := tracks.sent.length_eq
      rw [List.getElem?_eq_getElem there, List.getElem?_eq_getElem (by omega)]
      exact .some (tracks.sent.get (by omega) there)
    · simp only [State.after, Function.update_of_ne same]
      exact tracks.pending other
  | @join participant call received waits =>
    have related := tracks.pending (participant, call)
    rw [waits] at related
    cases knows : known.pending (participant, call) with
    | none =>
      rw [knows] at related
      cases related
    | some participants =>
      rw [knows] at related
      cases related with
      | some covers =>
        simp only [State.after, waits, knows]
        refine ⟨fun other => ?_, tracks.sent, fun other => ?_⟩
        · by_cases same : other = participant
          · subst same
            simp only [Function.update_self]
            exact (tracks.value other).sup covers
          · simp only [Function.update_of_ne same]
            exact tracks.value other
        · by_cases same : other = (participant, call)
          · subst same
            simp only [Function.update_self]
            exact .none
          · simp only [Function.update_of_ne same]
            exact tracks.pending other
  | @forget participant call =>
    refine ⟨tracks.value, tracks.sent, fun other => ?_⟩
    by_cases same : other = (participant, call)
    · subst same
      simp only [State.after, Function.update_self]
      exact .none
    · simp only [State.after, Function.update_of_ne same]
      exact tracks.pending other

/-- Nobody falls behind the first value of a participant that they have heard of. -/
theorem heard_le (silent : Silent first) (run : Run Step first events last) {participant other : ι}
    (hears : other ∈ (heard events).value participant) : first.value other ≤ last.value participant := by
  have tracks : Tracks first (heard events) last := by
    apply run.invariantAlong (fun events state => Tracks first (heard events) state) silent.tracks
    intro sofar before event after tracks step
    rw [heard, List.foldl_append]
    exact tracks.step step
  exact tracks.value participant other hears

end Heard

/-! ## Values that nobody raises -/

section Among

variable [SemilatticeSup V] {first before after last : State ι V} {event : Event ι} {events : List (Event ι)}
  {values : Set V}

structure Among (values : Set V) (state : State ι V) : Prop where
  value : ∀ participant, state.value participant ∈ values
  sent : ∀ copy ∈ state.sent, copy ∈ values
  pending : ∀ call, ∀ received ∈ state.pending call, received ∈ values

theorem Among.step (closed : SupClosed values) (among : Among values before) (step : Step before event after)
    (quiet : ∀ participant, event ≠ .raise participant) : Among values after := by
  cases step with
  | raise grows => exact absurd rfl (quiet _)
  | @send participant =>
    refine ⟨among.value, fun copy member => ?_, among.pending⟩
    simp only [State.after, List.mem_append, List.mem_singleton] at member
    rcases member with earlier | rfl
    · exact among.sent copy earlier
    · exact among.value participant
  | @receive participant call copy there =>
    refine ⟨among.value, among.sent, fun other received waits => ?_⟩
    by_cases same : other = (participant, call)
    · subst same
      simp only [State.after, Function.update_self] at waits
      exact among.sent received (List.mem_of_getElem? waits)
    · simp only [State.after, Function.update_of_ne same] at waits
      exact among.pending other received waits
  | @join participant call received waits =>
    simp only [State.after, waits]
    refine ⟨fun other => ?_, among.sent, fun other taken later => ?_⟩
    · by_cases same : other = participant
      · subst same
        simp only [Function.update_self]
        exact closed (among.value other) (among.pending _ received waits)
      · simp only [Function.update_of_ne same]
        exact among.value other
    · by_cases same : other = (participant, call)
      · subst same
        simp [Function.update_self] at later
      · simp only [Function.update_of_ne same] at later
        exact among.pending other taken later
  | @forget participant call =>
    refine ⟨among.value, among.sent, fun other taken later => ?_⟩
    by_cases same : other = (participant, call)
    · subst same
      simp [State.after] at later
    · simp only [State.after, Function.update_of_ne same] at later
      exact among.pending other taken later

/-- Where nobody raises a value, all values are among those that there were. -/
theorem among_of_run (closed : SupClosed values) (among : Among values first) (run : Run Step first events last)
    (quiet : ∀ participant, .raise participant ∉ events) : Among values last := by
  apply run.invariantAlong (fun events state => (∀ participant, Event.raise participant ∉ events) →
    Among values state) (fun _ => among) ?_ quiet
  intro sofar before event after earlier step quiet
  refine (earlier fun participant member => ?_).step closed step fun participant same => ?_
  · exact quiet participant (List.mem_append_left _ member)
  · exact quiet participant (List.mem_append_right _ (by simp [same]))

end Among

/-- Where nobody raises a value, whoever has heard of all has the greatest value there was. -/
theorem greatest_of_heard [LinearOrder V] {first last : State ι V} {events : List (Event ι)} (silent : Silent first)
    (run : Run Step first events last) (quiet : ∀ participant, .raise participant ∉ events) {participant : ι}
    (hears : ∀ other, other ∈ (heard events).value participant) :
    IsGreatest (Set.range first.value) (last.value participant) := by
  have start : Among (Set.range first.value) first := by
    refine ⟨Set.mem_range_self, fun copy member => ?_, fun call received waits => ?_⟩
    · rw [silent.sent] at member
      cases member
    · rw [silent.pending] at waits
      cases waits
  have among := among_of_run (LinearOrder.supClosed _) start run quiet
  refine ⟨among.value participant, ?_⟩
  rintro value ⟨other, rfl⟩
  exact heard_le silent run (hears other)

end System

end Library.Gossip
