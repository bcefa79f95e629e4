/-! # Computations that log what they touch

A logged computation is a value together with the accesses made on the way to it,
oldest first.  `Stays` says that every access is an allowed one; it goes through a
sequence of computations piece by piece, so a bound on what a program touches is
proved along its text.
-/

namespace Library.Logging

structure Logged (ε α : Type) where
  value : α
  accesses : List ε

namespace Logged

variable {ε α β : Type}

def bind (first : Logged ε α) (next : α → Logged ε β) : Logged ε β :=
  ⟨(next first.value).value, first.accesses ++ (next first.value).accesses⟩

instance : Monad (Logged ε) where
  pure value := ⟨value, []⟩
  bind := bind

def touch (access : ε) : Logged ε Unit := ⟨(), [access]⟩

/-- Every access is allowed. -/
def Stays (allowed : ε → Prop) (computation : Logged ε α) : Prop :=
  ∀ access ∈ computation.accesses, allowed access

@[simp] theorem value_pure (value : α) : (pure value : Logged ε α).value = value := rfl

@[simp] theorem value_bind (first : Logged ε α) (next : α → Logged ε β) :
    (first >>= next).value = (next first.value).value := rfl

@[simp] theorem accesses_bind (first : Logged ε α) (next : α → Logged ε β) :
    (first >>= next).accesses = first.accesses ++ (next first.value).accesses := rfl

@[simp] theorem accesses_touch (access : ε) : (touch access).accesses = [access] := rfl

variable {allowed : ε → Prop}

@[simp] theorem stays_pure (value : α) : (pure value : Logged ε α).Stays allowed := by
  intro access member
  cases member

@[simp] theorem stays_touch {access : ε} : (touch access).Stays allowed ↔ allowed access := by
  simp [Stays]

@[simp] theorem stays_bind {first : Logged ε α} {next : α → Logged ε β} :
    (first >>= next).Stays allowed ↔ first.Stays allowed ∧ (next first.value).Stays allowed := by
  simp only [Stays, accesses_bind, List.mem_append]
  constructor
  · intro all
    exact ⟨fun access member => all access (.inl member), fun access member => all access (.inr member)⟩
  · intro both access member
    cases member with
    | inl member => exact both.1 access member
    | inr member => exact both.2 access member

theorem Stays.mono {computation : Logged ε α} {wider : ε → Prop} (stays : computation.Stays allowed)
    (weaker : ∀ access, allowed access → wider access) : computation.Stays wider := fun access member =>
  weaker access (stays access member)

end Logged

end Library.Logging
