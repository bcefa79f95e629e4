import Mathlib.Data.List.Induction
import Mathlib.Logic.Function.Basic
import Mathlib.Order.Defs.PartialOrder

/-! # Leases

A table of keys, each with the time of its last renewal.  A visit renews one key and then
removes every key whose lease has lapsed by now.  Though the table forgets, it is at any
time what the whole history of visits comes to: who was renewed last, and not too long ago.
-/

namespace Library.Leases

variable {Key Time : Type}

/-- A key is renewed at `time`, and the leases that have lapsed at `now` end. -/
structure Visit (Key Time : Type) where
  key : Key
  time : Time
  now : Time

section Renewals

variable [DecidableEq Key]

/-- When the key was renewed last. -/
def renewal (visits : List (Visit Key Time)) (key : Key) : Option Time :=
  (visits.reverse.find? fun visit => visit.key = key).map Visit.time

@[simp] theorem renewal_nil (key : Key) : renewal ([] : List (Visit Key Time)) key = none := rfl

theorem renewal_snoc (visits : List (Visit Key Time)) (visit : Visit Key Time) (key : Key) :
    renewal (visits ++ [visit]) key = if visit.key = key then some visit.time else renewal visits key := by
  by_cases same : visit.key = key <;> simp [renewal, same]

/-- The table after a visit. -/
def visited (lapsed : Time → Time → Prop) [DecidableRel lapsed] (table : Key → Option Time)
    (visit : Visit Key Time) : Key → Option Time :=
  fun key => (Function.update table visit.key (some visit.time) key).filter fun time => ¬ lapsed visit.now time

/-- The table that a history of visits leaves behind. -/
def tableAfter (lapsed : Time → Time → Prop) [DecidableRel lapsed] (visits : List (Visit Key Time)) :
    Key → Option Time :=
  visits.foldl (visited lapsed) fun _ => none

variable {lapsed : Time → Time → Prop} [DecidableRel lapsed]

theorem tableAfter_snoc (visits : List (Visit Key Time)) (visit : Visit Key Time) :
    tableAfter lapsed (visits ++ [visit]) = visited lapsed (tableAfter lapsed visits) visit := by
  simp [tableAfter]

/-- What is in the table some visit has put there. -/
theorem mem_of_tableAfter {visits : List (Visit Key Time)} {key : Key} {time : Time}
    (held : tableAfter lapsed visits key = some time) : ∃ visit ∈ visits, visit.key = key ∧ visit.time = time := by
  induction visits using List.reverseRecOn with
  | nil => cases held
  | append_singleton visits visit ih =>
    rw [tableAfter_snoc, visited, Option.filter_eq_some_iff] at held
    by_cases same : key = visit.key
    · subst same
      rw [Function.update_self, Option.some_inj] at held
      exact ⟨visit, by simp, rfl, held.1⟩
    · rw [Function.update_of_ne same] at held
      obtain ⟨other, member, found⟩ := ih held.1
      exact ⟨other, List.mem_append_left _ member, found⟩

/-- What is in a table after a visit has not lapsed. -/
theorem visited_filter (table : Key → Option Time) (visit : Visit Key Time) (key : Key) :
    (visited lapsed table visit key).filter (fun time => ¬ lapsed visit.now time) = visited lapsed table visit key := by
  simp [visited]

section Histories

variable [Preorder Time] (lasting : ∀ earlier later time, earlier ≤ later → lapsed earlier time → lapsed later time)

include lasting

theorem filter_visited (table : Key → Option Time) (visit : Visit Key Time) {now : Time} (later : visit.now ≤ now)
    (key : Key) : (visited lapsed table visit key).filter (fun time => ¬ lapsed now time) =
      (Function.update table visit.key (some visit.time) key).filter fun time => ¬ lapsed now time := by
  rw [visited, Option.filter_filter]
  congr 1
  funext time
  by_cases gone : lapsed visit.now time
  · simp [gone, lasting _ _ _ later gone]
  · simp [gone]

/-- At any later time the table and the history agree on who holds a lease. -/
theorem filter_tableAfter (visits : List (Visit Key Time)) (now : Time) (later : ∀ visit ∈ visits, visit.now ≤ now)
    (key : Key) : (tableAfter lapsed visits key).filter (fun time => ¬ lapsed now time) =
      (renewal visits key).filter fun time => ¬ lapsed now time := by
  induction visits using List.reverseRecOn with
  | nil => rfl
  | append_singleton visits visit ih =>
    have earlier := ih fun other member => later other (List.mem_append_left _ member)
    rw [tableAfter_snoc, filter_visited lasting _ _ (later visit (by simp)), renewal_snoc]
    by_cases same : visit.key = key
    · simp [same]
    · rw [Function.update_of_ne (Ne.symm same), if_neg same]
      exact earlier

/-- The table holds a key exactly when its last renewal has not lapsed at the last visit. -/
theorem tableAfter_eq (visits : List (Visit Key Time)) (visit : Visit Key Time)
    (later : ∀ other ∈ visits, other.now ≤ visit.now) (key : Key) :
    tableAfter lapsed (visits ++ [visit]) key =
      (renewal (visits ++ [visit]) key).filter fun time => ¬ lapsed visit.now time := by
  rw [← filter_tableAfter lasting, tableAfter_snoc, visited_filter]
  intro other member
  rw [List.mem_append, List.mem_singleton] at member
  rcases member with earlier | rfl
  · exact later other earlier
  · exact le_refl _

end Histories

end Renewals

end Library.Leases
