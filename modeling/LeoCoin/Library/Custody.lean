import LeoCoin.Library.Publication

/-! # Pointers that nobody has any more

A pointer is superseded when another one is published while the follower has not come to it:
nobody will take it up, so nobody will retire it either.  `Live.unused_iff` says which step makes
a pointer unused, and `Live.behind_of_step` counts: how many are superseded depends on how many
are published, how often the follower takes one up, and on whether it is behind at the end.
-/

namespace Library.Publication

variable {α V : Type}

/-- 1 where the follower has not got what is published. -/
def Cell.behind [DecidableEq α] (cell : Cell α V) : Nat :=
  if cell.followed = some cell.published then 0 else 1

/-- How many pointers an event publishes. -/
def Event.publishes : Event α → Nat
  | .publish _ => 1
  | _ => 0

/-- How many pointers an event makes the follower take up. -/
def Event.follows : Event α → Nat
  | .adopt => 1
  | .take => 1
  | _ => 0

section Steps

variable {bump : V → V} {before after : Cell α V} {event : Event α}

theorem Step.published (step : Step bump before event after) :
    after.published = match event with | .publish pointer => pointer | _ => before.published := by
  cases step <;> rfl

theorem Live.published_ne_taken (live : Live before) : before.phase ≠ .taken before.published :=
  fun taken => (live.coherent.retires_replaced taken).1 rfl

/-- A step makes only one pointer unused: the published one, when it is replaced and the follower
has something else. -/
theorem Live.unused_iff (live : Live before) (step : Step bump before event after) (pointer : α) :
    Unused after pointer ↔
      (Unused before pointer ∧ event ≠ .publish pointer ∧ event ≠ .discard pointer) ∨
        (∃ other, event = .publish other) ∧ pointer = before.published ∧ before.followed ≠ some pointer := by
  have coherent := live.coherent
  constructor
  · rintro ⟨notPublished, notFollowed, notTaken, notRetired⟩
    cases step with
    | @publish other _ _ =>
      by_cases same : pointer = before.published
      · exact .inr ⟨⟨other, rfl⟩, same, notFollowed⟩
      · refine .inl ⟨⟨same, notFollowed, notTaken, notRetired⟩, ?_, by simp⟩
        rintro ⟨⟩
        exact notPublished rfl
    | @discard other _ =>
      simp only [List.mem_cons, not_or] at notRetired
      refine .inl ⟨⟨notPublished, notFollowed, notTaken, notRetired.2⟩, by simp, ?_⟩
      rintro ⟨⟩
      exact notRetired.1 rfl
    | prime phase => exact .inl ⟨⟨notPublished, notFollowed, by simp [phase], notRetired⟩, by simp, by simp⟩
    | adopt phase _ =>
      simp only [Coherent, phase] at coherent
      exact .inl ⟨⟨notPublished, by simp [coherent.1], by simp [phase], notRetired⟩, by simp, by simp⟩
    | notice phase _ => exact .inl ⟨⟨notPublished, notFollowed, by simp [phase], notRetired⟩, by simp, by simp⟩
    | take phase _ followed =>
      refine .inl ⟨⟨notPublished, ?_, by simp [phase], notRetired⟩, by simp, by simp⟩
      rw [followed]
      rintro ⟨⟩
      exact notTaken rfl
    | @retire old phase =>
      simp only [List.mem_cons, not_or] at notRetired
      refine .inl ⟨⟨notPublished, notFollowed, ?_, notRetired.2⟩, by simp, by simp⟩
      rw [phase]
      rintro ⟨⟩
      exact notRetired.1 rfl
    | load phase | record phase =>
      exact .inl ⟨⟨notPublished, notFollowed, by simp [phase], notRetired⟩, by simp, by simp⟩
    | announce _ => exact .inl ⟨⟨notPublished, notFollowed, notTaken, notRetired⟩, by simp, by simp⟩
  · rintro (⟨unused, notPublished, notDiscarded⟩ | ⟨⟨other, rfl⟩, rfl, notFollowed⟩)
    · exact unused.step notPublished notDiscarded step
    · cases step with
      | publish _ fresh =>
        exact ⟨fun same => fresh.notPublished same.symm, notFollowed, live.published_ne_taken, live.publishedKept⟩

/-- What a step supersedes, and what it does to the follower's being behind. -/
theorem Live.behind_of_step [DecidableEq α] (live : Live before) (step : Step bump before event after) :
    after.behind + event.follows + event.publishes * before.behind = before.behind + event.publishes := by
  have coherent := live.coherent
  cases step with
  | publish _ fresh => simp [Cell.behind, Event.follows, Event.publishes, fresh.notFollowed]; omega
  | adopt phase _ =>
    simp only [Coherent, phase] at coherent
    simp [Cell.behind, Event.follows, Event.publishes, coherent.1]
  | take phase _ _ =>
    simp only [Coherent, phase] at coherent
    simp [Cell.behind, Event.follows, Event.publishes, coherent]
  | announce _ | discard _ | prime _ | notice _ _ | retire _ | load _ | record _ =>
    simp [Cell.behind, Event.follows, Event.publishes]

end Steps

end Library.Publication
