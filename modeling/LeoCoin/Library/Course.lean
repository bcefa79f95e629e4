/-! # Programs with loops

A loop that need not end is given a number of rounds.  `Course` is what a program has come
to with them: it is still running, or it has used what is not there, or it is done.  What
`ComesTo` says of a program holds from some number of rounds on, so no rule below counts them.
-/

namespace Library.Programs

inductive Course (β : Type) where
  | running : Course β
  | undefined : Course β
  | done (result : β) : Course β
deriving DecidableEq

namespace Course

variable {β γ : Type}

def bind (course : Course β) (rest : β → Course γ) : Course γ :=
  match course with
  | .running => .running
  | .undefined => .undefined
  | .done result => rest result

instance : Monad Course where
  pure := .done
  bind := bind

/-- A use of memory, which has no result where nothing is there. -/
def ofOption : Option β → Course β
  | none => .undefined
  | some value => .done value

@[simp] theorem done_bind (result : β) (rest : β → Course γ) : (Course.done result >>= rest) = rest result := rfl

@[simp] theorem running_bind (rest : β → Course γ) : (Course.running >>= rest) = .running := rfl

@[simp] theorem undefined_bind (rest : β → Course γ) : (Course.undefined >>= rest) = .undefined := rfl

@[simp] theorem pure_eq (result : β) : (pure result : Course β) = .done result := rfl

@[simp] theorem ofOption_some (value : β) : ofOption (some value) = .done value := rfl

@[simp] theorem ofOption_none : ofOption (none : Option β) = .undefined := rfl

end Course

/-- The program comes to this, from some number of rounds on. -/
def ComesTo {β : Type} (program : Nat → Course β) (result : Course β) : Prop :=
  ∃ enough, ∀ rounds, enough ≤ rounds → program rounds = result

namespace ComesTo

variable {β γ : Type} {program first : Nat → Course β} {rest : Nat → β → Course γ}

theorem of_eq {result : Course β} (always : ∀ rounds, program rounds = result) : ComesTo program result :=
  ⟨0, fun rounds _ => always rounds⟩

theorem unique {left right : Course β} (one : ComesTo program left) (other : ComesTo program right) : left = right := by
  obtain ⟨enough, settled⟩ := one
  obtain ⟨more, alsoSettled⟩ := other
  rw [← settled (max enough more) (Nat.le_max_left _ _), alsoSettled (max enough more) (Nat.le_max_right _ _)]

theorem eq_iff {left right : Course β} (one : ComesTo program left) : ComesTo program right ↔ left = right :=
  ⟨one.unique, fun same => same ▸ one⟩

theorem of_succ {later : Nat → Course β} {result : Course β} (round : ∀ rounds, program (rounds + 1) = later rounds)
    (comes : ComesTo later result) : ComesTo program result := by
  obtain ⟨enough, settled⟩ := comes
  refine ⟨enough + 1, fun rounds given => ?_⟩
  cases rounds with
  | zero => omega
  | succ rounds =>
    rw [round]
    exact settled rounds (by omega)

theorem bind {middle : β} {result : Course γ} (comes : ComesTo first (.done middle))
    (later : ComesTo (fun rounds => rest rounds middle) result) :
    ComesTo (fun rounds => first rounds >>= rest rounds) result := by
  obtain ⟨enough, settled⟩ := comes
  obtain ⟨more, laterSettled⟩ := later
  refine ⟨max enough more, fun rounds given => ?_⟩
  have settled := settled rounds (by omega)
  have laterSettled := laterSettled rounds (by omega)
  simp only [settled, Course.done_bind]
  exact laterSettled

theorem bind_running (comes : ComesTo first .running) :
    ComesTo (fun rounds => first rounds >>= rest rounds) .running := by
  obtain ⟨enough, settled⟩ := comes
  refine ⟨enough, fun rounds given => ?_⟩
  simp only [settled rounds given, Course.running_bind]

theorem bind_undefined (comes : ComesTo first .undefined) :
    ComesTo (fun rounds => first rounds >>= rest rounds) .undefined := by
  obtain ⟨enough, settled⟩ := comes
  refine ⟨enough, fun rounds given => ?_⟩
  simp only [settled rounds given, Course.undefined_bind]

end ComesTo

end Library.Programs
