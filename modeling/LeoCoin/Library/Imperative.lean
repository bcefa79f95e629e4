import LeoCoin.Library.Course

/-! # Programs with a state

A program works on a state; it may fail, with the state as it is then, and its loops need not
end.  `Yields program state result after` says that from some number of rounds on it comes
from `state` to `result` and `after`.
-/

namespace Library.Programs

open Library.Programs

def Imperative (State ε β : Type) : Type := State → Course (Except ε β × State)

section Programs

variable {State ε β γ : Type}

namespace Imperative

/-- What is behind a program that has come to its end, with its result. -/
def further (rest : β → Imperative State ε γ) : Except ε β × State → Course (Except ε γ × State)
  | (.ok result, state) => rest result state
  | (.error failure, state) => .done (.error failure, state)

def bind (program : Imperative State ε β) (rest : β → Imperative State ε γ) : Imperative State ε γ :=
  fun state => program state >>= further rest

instance : Monad (Imperative State ε) where
  pure result := fun state => .done (.ok result, state)
  bind := bind

theorem bind_apply (program : Imperative State ε β) (rest : β → Imperative State ε γ) (state : State) :
    (program >>= rest) state = program state >>= further rest := rfl

theorem pure_apply (result : β) (state : State) :
    (pure result : Imperative State ε β) state = .done (.ok result, state) := rfl

/-- `return failure;` -/
def fail (failure : ε) : Imperative State ε β := fun state => .done (.error failure, state)

def require (condition : Bool) (failure : ε) : Imperative State ε Unit :=
  if condition then pure () else fail failure

/-- What is read from the state, which has to be there. -/
def fetch (read : State → Option β) : Imperative State ε β :=
  fun state => Course.ofOption (read state) >>= fun value => .done (.ok value, state)

/-- What is written has to be there, too. -/
def update (write : State → Option State) : Imperative State ε Unit :=
  fun state => Course.ofOption (write state) >>= fun after => .done (.ok (), after)

/-- What is asked for is granted or not. -/
def request (grant : State → Option (β × State)) (failure : ε) : Imperative State ε β := fun state =>
  match grant state with
  | some (value, after) => .done (.ok value, after)
  | none => .done (.error failure, state)

/-- The rounds are used up. -/
def running : Imperative State ε β := fun _ => .running

/-- The program, whatever it returns. -/
def attempt (program : Imperative State ε β) : Imperative State ε Unit :=
  fun state => program state >>= fun ended => .done (.ok (), ended.2)

/-- The program, with its return code. -/
def outcome (program : Imperative State ε β) : Imperative State ε (Except ε β) :=
  fun state => program state >>= fun ended => .done (.ok ended.1, ended.2)

/-- `if (SUCCESS != return_code) { cleanup; goto end; }` behind a program. -/
def otherwise (program : Imperative State ε β) (cleanup : Imperative State ε Unit) : Imperative State ε β :=
  fun state => program state >>= fun
    | (.ok result, after) => .done (.ok result, after)
    | (.error failure, after) => cleanup after >>= fun ended => .done (.error failure, ended.2)

/-- What is done last is done however the program has ended. -/
def ensuring (program : Imperative State ε β) (last : Imperative State ε Unit) : Imperative State ε β :=
  fun state => program state >>= fun ended => last ended.2 >>= fun final => .done (ended.1, final.2)

end Imperative

open Imperative

def Yields (program : Nat → Imperative State ε β) (state : State) (result : Except ε β) (after : State) : Prop :=
  ComesTo (fun rounds => program rounds state) (.done (result, after))

section Rules

variable {state middle after : State} {result : Except ε γ} {value : β}

theorem yields_pure (value : β) : Yields (fun _ => (pure value : Imperative State ε β)) state (.ok value) state :=
  .of_eq fun _ => rfl

theorem yields_fail (failure : ε) :
    Yields (fun _ => (fail failure : Imperative State ε β)) state (.error failure) state :=
  .of_eq fun _ => rfl

theorem yields_fetch {read : State → Option β} (there : read state = some value) :
    Yields (fun _ => (fetch read : Imperative State ε β)) state (.ok value) state :=
  .of_eq fun _ => by simp [fetch, there]

theorem yields_update {write : State → Option State} (there : write state = some after) :
    Yields (fun _ => (update write : Imperative State ε Unit)) state (.ok ()) after :=
  .of_eq fun _ => by simp [update, there]

theorem yields_granted {grant : State → Option (β × State)} {failure : ε}
    (granted : grant state = some (value, after)) :
    Yields (fun _ => request grant failure) state (.ok value) after :=
  .of_eq fun _ => by simp [request, granted]

theorem yields_refused {grant : State → Option (β × State)} {failure : ε} (refused : grant state = none) :
    Yields (fun _ => request grant failure) state (.error failure) state :=
  .of_eq fun _ => by simp [request, refused]

variable {program : Nat → Imperative State ε β} {rest : Nat → β → Imperative State ε γ}

theorem Yields.bind (first : Yields program state (.ok value) middle)
    (later : Yields (fun rounds => rest rounds value) middle result after) :
    Yields (fun rounds => program rounds >>= rest rounds) state result after :=
  ComesTo.bind first later

/-- What comes later does not end. -/
theorem Yields.bind_stops {stopped : Course (Except ε γ × State)} (first : Yields program state (.ok value) middle)
    (stops : ComesTo (fun rounds => rest rounds value middle) stopped) :
    ComesTo (fun rounds => (program rounds >>= rest rounds) state) stopped :=
  ComesTo.bind first stops

theorem Yields.bind_fail {failure : ε} (first : Yields program state (.error failure) middle) :
    Yields (fun rounds => program rounds >>= rest rounds) state (.error failure) middle :=
  ComesTo.bind first (.of_eq fun _ => rfl)

theorem Yields.attempt {result : Except ε β} (yields : Yields program state result after) :
    Yields (fun rounds => attempt (program rounds)) state (.ok ()) after :=
  ComesTo.bind yields (.of_eq fun _ => rfl)

theorem Yields.outcome {result : Except ε β} (yields : Yields program state result after) :
    Yields (fun rounds => outcome (program rounds)) state (.ok result) after :=
  ComesTo.bind yields (.of_eq fun _ => rfl)

theorem Yields.otherwise {cleanup : Nat → Imperative State ε Unit} (yields : Yields program state (.ok value) after) :
    Yields (fun rounds => otherwise (program rounds) (cleanup rounds)) state (.ok value) after :=
  ComesTo.bind yields (.of_eq fun _ => rfl)

theorem Yields.otherwise_fail {cleanup : Nat → Imperative State ε Unit} {failure : ε} {ended : Except ε Unit}
    (yields : Yields program state (.error failure) middle) (cleans : Yields cleanup middle ended after) :
    Yields (fun rounds => Imperative.otherwise (program rounds) (cleanup rounds)) state (.error failure) after :=
  ComesTo.bind yields (ComesTo.bind cleans (.of_eq fun _ => rfl))

theorem Yields.ensuring {last : Nat → Imperative State ε Unit} {result : Except ε β} {ended : Except ε Unit}
    (yields : Yields program state result middle) (lasts : Yields last middle ended after) :
    Yields (fun rounds => ensuring (program rounds) (last rounds)) state result after :=
  ComesTo.bind yields (ComesTo.bind lasts (.of_eq fun _ => rfl))

theorem Yields.succ {result : Except ε β} (yields : Yields (fun rounds => program (rounds + 1)) state result after) :
    Yields program state result after :=
  ComesTo.of_succ (fun _ => rfl) yields

theorem Yields.unique {result other : Except ε β} {after another : State} (yields : Yields program state result after)
    (also : Yields program state other another) : result = other ∧ after = another := by
  have same := ComesTo.unique yields also
  simpa using same

end Rules

end Programs

end Library.Programs
