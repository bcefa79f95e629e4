/-! # Searching for the first candidate

A search tries numbered candidates in order and ends with the first that has an
answer.  The two rules say what the search found, and that it found nothing, without
mentioning how it went about it.
-/

namespace Library.Search

variable {α : Type}

/-- The first of `remaining` candidates from `first` on that has an answer, and its answer. -/
def findFirst (answer : Nat → Option α) : (first remaining : Nat) → Option (Nat × α)
  | _, 0 => none
  | first, remaining + 1 =>
    match answer first with
    | some found => some (first, found)
    | none => findFirst answer (first + 1) remaining

variable {answer : Nat → Option α} {first remaining : Nat}

theorem findFirst_eq_some_iff {index : Nat} {found : α} :
    findFirst answer first remaining = some (index, found) ↔
      first ≤ index ∧ index < first + remaining ∧ answer index = some found ∧
        ∀ earlier, first ≤ earlier → earlier < index → answer earlier = none := by
  induction remaining generalizing first with
  | zero =>
    simp only [findFirst, reduceCtorEq, false_iff]
    omega
  | succ remaining ih =>
    rw [findFirst]
    cases here : answer first with
    | some other =>
      simp only [Option.some.injEq, Prod.mk.injEq]
      constructor
      · rintro ⟨rfl, rfl⟩
        exact ⟨Nat.le_refl first, by omega, here, by omega⟩
      · rintro ⟨lower, -, answered, unanswered⟩
        -- a later index would have an unanswered one at `first`
        rcases Nat.eq_or_lt_of_le lower with rfl | later
        · rw [here] at answered
          cases answered
          exact ⟨rfl, rfl⟩
        · rw [unanswered first (Nat.le_refl first) later] at here
          cases here
    | none =>
      rw [ih]
      constructor
      · rintro ⟨lower, upper, answered, unanswered⟩
        refine ⟨by omega, by omega, answered, fun earlier reached before => ?_⟩
        by_cases at_first : earlier = first
        · rw [at_first, here]
        · exact unanswered earlier (by omega) before
      · rintro ⟨lower, upper, answered, unanswered⟩
        have later : first ≠ index := by
          rintro rfl
          rw [here] at answered
          cases answered
        exact ⟨by omega, by omega, answered, fun earlier reached => unanswered earlier (by omega)⟩

theorem findFirst_eq_none_iff :
    findFirst answer first remaining = none ↔
      ∀ index, first ≤ index → index < first + remaining → answer index = none := by
  induction remaining generalizing first with
  | zero =>
    simp only [findFirst, true_iff]
    omega
  | succ remaining ih =>
    rw [findFirst]
    cases here : answer first with
    | some found =>
      simp only [reduceCtorEq, false_iff]
      intro unanswered
      rw [unanswered first (Nat.le_refl first) (by omega)] at here
      cases here
    | none =>
      rw [ih]
      constructor
      · intro unanswered index lower upper
        by_cases at_first : index = first
        · rw [at_first, here]
        · exact unanswered index (by omega) (by omega)
      · intro unanswered index lower upper
        exact unanswered index (by omega) (by omega)

end Library.Search
