/-! # Locks

What is done to locks, as a list of actions.  `Disciplined held actions` says that nobody
who holds the locks `held` goes wrong with these actions: what is acquired is free, and what
is released is held.  For each lock the two then alternate.
-/

namespace Library.Locking

inductive LockAction (Lock : Type) where
  | acquire (lock : Lock) : LockAction Lock
  | release (lock : Lock) : LockAction Lock
deriving DecidableEq

section Locks

variable {Lock : Type} [DecidableEq Lock]

/-- The locks that are held after one more action. -/
def hold (held : List Lock) : LockAction Lock → List Lock
  | .acquire lock => lock :: held
  | .release lock => held.erase lock

def heldAfter (held : List Lock) (actions : List (LockAction Lock)) : List Lock := actions.foldl hold held

/-- A lock that is held is not acquired, and one that is not held is not released. -/
def Allowed (held : List Lock) : LockAction Lock → Prop
  | .acquire lock => lock ∉ held
  | .release lock => lock ∈ held

def Disciplined : List Lock → List (LockAction Lock) → Prop
  | _, [] => True
  | held, action :: rest => Allowed held action ∧ Disciplined (hold held action) rest

/-- What is done to one lock: whether it is acquired, or released. -/
def turns (lock : Lock) (actions : List (LockAction Lock)) : List Bool :=
  actions.filterMap fun
    | .acquire other => if other = lock then some true else none
    | .release other => if other = lock then some false else none

/-- A lock that is held or not is released and acquired in turn. -/
def Alternating : Bool → List Bool → Prop
  | _, [] => True
  | held, acquires :: rest => acquires = !held ∧ Alternating acquires rest

variable {held : List Lock} {earlier later actions : List (LockAction Lock)} {lock : Lock}

@[simp] theorem heldAfter_nil (held : List Lock) : heldAfter held [] = held := rfl

@[simp] theorem heldAfter_cons (held : List Lock) (action : LockAction Lock) (rest : List (LockAction Lock)) :
    heldAfter held (action :: rest) = heldAfter (hold held action) rest := rfl

@[simp] theorem heldAfter_append (held : List Lock) (earlier later : List (LockAction Lock)) :
    heldAfter held (earlier ++ later) = heldAfter (heldAfter held earlier) later := by
  simp [heldAfter]

@[simp] theorem disciplined_append :
    Disciplined held (earlier ++ later) ↔
      Disciplined held earlier ∧ Disciplined (heldAfter held earlier) later := by
  induction earlier generalizing held with
  | nil => simp [Disciplined]
  | cons action rest ih => simp [Disciplined, ih, and_assoc]

/-- Whoever holds nothing afterwards can do the same again, or anything else. -/
theorem Disciplined.append (first : Disciplined held earlier) (released : heldAfter held earlier = [])
    (second : Disciplined [] later) : Disciplined held (earlier ++ later) := by
  rw [disciplined_append, released]
  exact ⟨first, second⟩

theorem Disciplined.alternating (disciplined : Disciplined held actions) (once : held.Nodup) (lock : Lock) :
    Alternating (decide (lock ∈ held)) (turns lock actions) := by
  induction actions generalizing held with
  | nil => trivial
  | cons action rest ih =>
    obtain ⟨allowed, later⟩ := disciplined
    cases action with
    | acquire other =>
      have further := ih later (List.nodup_cons.mpr ⟨allowed, once⟩)
      by_cases same : other = lock
      · subst same
        have free : other ∉ held := allowed
        simpa [turns, Alternating, hold, free] using further
      · simpa [turns, hold, same, Ne.symm same] using further
    | release other =>
      have further := ih later (once.erase other)
      by_cases same : other = lock
      · subst same
        have taken : other ∈ held := allowed
        simpa [turns, Alternating, hold, taken, once.mem_erase_iff] using further
      · simpa [turns, hold, same, once.mem_erase_iff, Ne.symm same] using further

end Locks

end Library.Locking
