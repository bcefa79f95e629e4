import Mathlib.Algebra.Group.Defs
import LeoCoin.Library.Imperative

/-! # Programs that own what they allocate

A description says what a program computes and does not know of memory.  `Realizes` relates
the two: what the program owns at the start, what it owns with its result, and what is left
where it fails; where the description does not end or is undefined, so does and is the program.
All of that is said beside a `frame`, which no program touches, so parts that hold for
themselves hold together.
-/

namespace Library.Owning

open Library.Programs

def Description (View ε α : Type) : Type := View → Course (Except ε α × View)

namespace Description

variable {View ε α β : Type}

def bind (described : Description View ε α) (further : α → Description View ε β) : Description View ε β := fun view =>
  match described view with
  | .done (.ok value, after) => further value after
  | .done (.error failure, after) => .done (.error failure, after)
  | .running => .running
  | .undefined => .undefined

def done (value : α) : Description View ε α := fun view => .done (.ok value, view)

def fail (failure : ε) : Description View ε α := fun view => .done (.error failure, view)

/-- What is computed has no meaning. -/
def undefined : Description View ε α := fun _ => .undefined

theorem bind_done (described : Description View ε α) : described.bind done = described := by
  funext view
  simp only [bind]
  rcases described view with _ | _ | ⟨failure | value, after⟩ <;> rfl

@[simp] theorem done_bind (value : α) (further : α → Description View ε β) :
    (done value).bind further = further value := rfl

@[simp] theorem fail_bind (failure : ε) (further : α → Description View ε β) :
    (fail failure).bind further = fail failure := rfl

@[simp] theorem undefined_bind (further : α → Description View ε β) :
    (undefined : Description View ε α).bind further = undefined := rfl

theorem bind_assoc (described : Description View ε α) (further : α → Description View ε β) {γ : Type}
    (last : β → Description View ε γ) :
    (described.bind further).bind last = described.bind fun value => (further value).bind last := by
  funext view
  simp only [bind]
  rcases described view with _ | _ | ⟨failure | value, after⟩ <;> rfl

/-- A counted loop. -/
def times (round : α → Description View ε α) : Nat → α → Description View ε α
  | 0, value => done value
  | count + 1, value => (round value).bind (times round count)

end Description

/-- How the state of a program is looked at, and what always holds of it. -/
structure Outlook (State Part View : Type) where
  parts : State → Part
  view : State → View
  sound : View → Part → Prop

/-- The state is as it always is. -/
def Outlook.Fine {State Part View : Type} (outlook : Outlook State Part View) (state : State) : Prop :=
  outlook.sound (outlook.view state) (outlook.parts state)

section Following

variable {State Part View ε α β γ δ : Type} [AddCommMonoid Part]

/-- What the description comes to is what the program comes to. -/
def Ends (outlook : Outlook State Part View) (program : Nat → Imperative State ε β) (state : State) (frame : Part)
    (left : α → β → Part → Prop) (spilled : Part → Prop) : Course (Except ε α × View) → Prop
  | .done (.ok value, view) => ∃ result after owned, Yields program state (.ok result) after ∧
      outlook.view after = view ∧ outlook.Fine after ∧ left value result owned ∧ outlook.parts after = owned + frame
  | .done (.error failure, view) => ∃ after lost, Yields program state (.error failure) after ∧
      outlook.view after = view ∧ spilled lost ∧ outlook.parts after = lost + frame
  | .running => ComesTo (fun rounds => program rounds state) .running
  | .undefined => ComesTo (fun rounds => program rounds state) .undefined

def Realizes (outlook : Outlook State Part View) (described : Description View ε α)
    (program : Nat → Imperative State ε β) (own : Part) (left : α → β → Part → Prop) (spilled : Part → Prop) : Prop :=
  ∀ state frame, outlook.Fine state → outlook.parts state = own + frame →
    Ends outlook program state frame left spilled (described (outlook.view state))

/-- The program succeeds and turns what it owns into what is kept, and it asks for nothing. -/
def Turns (outlook : Outlook State Part View) (program : Nat → Imperative State ε β) (own : Part) (result : β)
    (kept : Part) : Prop :=
  ∀ state frame, outlook.parts state = own + frame →
    ∃ after, Yields program state (.ok result) after ∧ outlook.view after = outlook.view state ∧
      outlook.parts after = kept + frame

variable {outlook : Outlook State Part View} {described : Description View ε α} {program : Nat → Imperative State ε β}
  {own owned others kept middle : Part} {result : β} {left : α → β → Part → Prop}
  {spilled : Part → Prop}

theorem realizes_pure (value : α) (result : β) (spilled : Part → Prop) (holds : left value result own) :
    Realizes outlook (Description.done value) (fun _ => (pure result : Imperative State ε β)) own left spilled :=
  fun state _ sound parts => ⟨result, state, own, yields_pure result, rfl, sound, holds, parts⟩

theorem realizes_fail (failure : ε) (left : α → β → Part → Prop) (spills : spilled own) :
    Realizes outlook (Description.fail failure) (fun _ => (Imperative.fail failure : Imperative State ε β)) own left
      spilled :=
  fun state _ _ parts => ⟨state, own, yields_fail failure, rfl, spills, parts⟩

theorem realizes_undefined {undefined : Nat → Imperative State ε β}
    (never : ∀ rounds state, undefined rounds state = .undefined)
    (left : α → β → Part → Prop) (spilled : Part → Prop) :
    Realizes outlook Description.undefined undefined own left spilled :=
  fun state _ _ _ => .of_eq fun rounds => never rounds state

theorem Realizes.bind {further : α → Description View ε γ} {later : Nat → β → Imperative State ε δ}
    {last : γ → δ → Part → Prop} (realizes : Realizes outlook described program own left spilled)
    (rest : ∀ value result owned, left value result owned →
      Realizes outlook (further value) (fun rounds => later rounds result) owned last spilled) :
    Realizes outlook (described.bind further) (fun rounds => program rounds >>= later rounds) own last spilled := by
  intro state frame sound parts
  have first := realizes state frame sound parts
  rw [Description.bind]
  generalize described (outlook.view state) = ended at first ⊢
  obtain _ | _ | ⟨value | value, view⟩ := ended
  · exact first.bind_running
  · exact first.bind_undefined
  · obtain ⟨after, lost, yields, same, spills, parts⟩ := first
    exact ⟨after, lost, yields.bind_fail, same, spills, parts⟩
  · obtain ⟨result, middle, owned, yields, rfl, sound, holds, parts⟩ := first
    have second := rest value result owned holds middle frame sound parts
    dsimp only
    generalize further value (outlook.view middle) = ended at second ⊢
    obtain _ | _ | ⟨last | last, view⟩ := ended
    · exact yields.bind_stops second
    · exact yields.bind_stops second
    · obtain ⟨after, lost, later, same, spills, parts⟩ := second
      exact ⟨after, lost, yields.bind later, same, spills, parts⟩
    · obtain ⟨other, after, ownedLast, later, same, sound, holds, parts⟩ := second
      exact ⟨other, after, ownedLast, yields.bind later, same, sound, holds, parts⟩

theorem Realizes.weaken {weaker : α → β → Part → Prop} (realizes : Realizes outlook described program own left spilled)
    (implies : ∀ value result owned, left value result owned → weaker value result owned) :
    Realizes outlook described program own weaker spilled := by
  intro state frame sound parts
  have ends := realizes state frame sound parts
  generalize described (outlook.view state) = ended at ends ⊢
  obtain _ | _ | ⟨value | value, view⟩ := ended
  · exact ends
  · exact ends
  · exact ends
  · obtain ⟨result, after, owned, yields, same, sound, holds, parts⟩ := ends
    exact ⟨result, after, owned, yields, same, sound, implies value result owned holds, parts⟩

theorem Realizes.loosen {looser : Part → Prop} (realizes : Realizes outlook described program own left spilled)
    (implies : ∀ lost, spilled lost → looser lost) : Realizes outlook described program own left looser := by
  intro state frame sound parts
  have ends := realizes state frame sound parts
  generalize described (outlook.view state) = ended at ends ⊢
  obtain _ | _ | ⟨value | value, view⟩ := ended
  · exact ends
  · exact ends
  · obtain ⟨after, lost, yields, same, spills, parts⟩ := ends
    exact ⟨after, lost, yields, same, implies lost spills, parts⟩
  · exact ends

/-- The rest of a description only says what there is. -/
theorem Realizes.conclude {further : α → Description View ε γ} {last : γ → β → Part → Prop}
    (realizes : Realizes outlook described program own left spilled)
    (knows : ∀ value result owned view frame, left value result owned → outlook.sound view (owned + frame) →
      ∃ final, further value = Description.done final ∧ last final result owned) :
    Realizes outlook (described.bind further) program own last spilled := by
  intro state frame fine parts
  have ends := realizes state frame fine parts
  rw [Description.bind]
  generalize described (outlook.view state) = ended at ends ⊢
  obtain _ | _ | ⟨value | value, view⟩ := ended
  · exact ends
  · exact ends
  · exact ends
  · obtain ⟨result, after, owned, yields, same, fine, holds, parts⟩ := ends
    have there := fine
    rw [Outlook.Fine, parts] at there
    obtain ⟨final, known, holds⟩ := knows value result owned _ frame holds there
    dsimp only
    rw [known]
    exact ⟨result, after, owned, yields, same, fine, holds, parts⟩

/-- What is said of what a program owns holds beside what it does not touch. -/
theorem Realizes.beside (realizes : Realizes outlook described program own left spilled) (others : Part) :
    Realizes outlook described program (own + others)
      (fun value result whole => ∃ owned, left value result owned ∧ whole = owned + others)
      (fun whole => ∃ lost, spilled lost ∧ whole = lost + others) := by
  intro state frame sound parts
  have ends := realizes state (others + frame) sound (by rw [parts, add_assoc])
  generalize described (outlook.view state) = ended at ends ⊢
  obtain _ | _ | ⟨value | value, view⟩ := ended
  · exact ends
  · exact ends
  · obtain ⟨after, lost, yields, same, spills, parts⟩ := ends
    exact ⟨after, _, yields, same, ⟨lost, spills, rfl⟩, by rw [parts, add_assoc]⟩
  · obtain ⟨result, after, owned, yields, same, sound, holds, parts⟩ := ends
    exact ⟨result, after, _, yields, same, sound, ⟨owned, holds, rfl⟩, by rw [parts, add_assoc]⟩

theorem Realizes.otherwise {cleanup : Nat → Imperative State ε Unit} {remains : Part → Prop}
    (realizes : Realizes outlook described program own left spilled)
    (cleans : ∀ lost, spilled lost → ∃ kept, remains kept ∧ Turns outlook cleanup lost () kept) :
    Realizes outlook described (fun rounds => (program rounds).otherwise (cleanup rounds)) own left remains := by
  intro state frame sound parts
  have ends := realizes state frame sound parts
  generalize described (outlook.view state) = ended at ends ⊢
  obtain _ | _ | ⟨value | value, view⟩ := ended
  · exact ends.bind_running
  · exact ends.bind_undefined
  · obtain ⟨middle, lost, yields, rfl, spills, parts⟩ := ends
    obtain ⟨kept, remain, turns⟩ := cleans lost spills
    obtain ⟨after, cleaned, same, parts⟩ := turns middle frame parts
    exact ⟨after, kept, yields.otherwise_fail cleaned, same, remain, parts⟩
  · obtain ⟨result, after, owned, yields, same, sound, holds, parts⟩ := ends
    exact ⟨result, after, owned, yields.otherwise, same, sound, holds, parts⟩

section Known

variable {known remaining whole : Part}

/-- `Realizes.beside`, where it is known what is left after a failure. -/
theorem Realizes.within (realizes : Realizes outlook described program own left (· = known)) (others : Part)
    (split : whole = own + others) (remains : remaining = known + others) :
    Realizes outlook described program whole
      (fun value result now => ∃ owned, left value result owned ∧ now = owned + others) (· = remaining) := by
  rw [split, remains]
  have beside := realizes.beside others
  simpa only [exists_eq_left] using beside

/-- `Realizes.otherwise`, where it is. -/
theorem Realizes.cleared {cleanup : Nat → Imperative State ε Unit}
    (realizes : Realizes outlook described program own left (· = known))
    (cleans : Turns outlook cleanup known () kept) :
    Realizes outlook described (fun rounds => (program rounds).otherwise (cleanup rounds)) own left (· = kept) :=
  realizes.otherwise fun _ same => ⟨kept, rfl, same ▸ cleans⟩

end Known

/-- A loop whose rounds keep what they own in a form that the value describes. -/
theorem Realizes.times {round : α → Description View ε α} {body : Nat → Imperative State ε Unit}
    {holds : α → Part → Prop}
    (rounds : ∀ value owned, holds value owned →
      Realizes outlook (round value) body owned (fun next _ owned => holds next owned) spilled)
    {loop : Nat → Nat → Imperative State ε Unit} (ends : ∀ fuel, loop fuel 0 = pure ())
    (again : ∀ fuel count, loop fuel (count + 1) = body fuel >>= fun _ => loop fuel count)
    (count : Nat) (value : α) (start : holds value own) :
    Realizes outlook (Description.times round count value) (fun fuel => loop fuel count) own
      (fun next _ owned => holds next owned) spilled := by
  induction count generalizing value own with
  | zero =>
    simp only [ends]
    exact realizes_pure value () spilled start
  | succ count ih =>
    simp only [again]
    exact (rounds value own start).bind fun next _ owned kept => ih next kept

theorem turns_pure (result : β) (own : Part) :
    Turns outlook (fun _ => (pure result : Imperative State ε β)) own result own :=
  fun state _ parts => ⟨state, yields_pure result, rfl, parts⟩

theorem Turns.beside (turns : Turns outlook program own result kept) (others : Part) :
    Turns outlook program (own + others) result (kept + others) := by
  intro state frame parts
  obtain ⟨after, yields, same, parts⟩ := turns state (others + frame) (by rw [parts, add_assoc])
  exact ⟨after, yields, same, by rw [parts, add_assoc]⟩

theorem Turns.within {whole remaining : Part} (turns : Turns outlook program own result kept) (others : Part)
    (split : whole = own + others) (remains : remaining = kept + others) :
    Turns outlook program whole result remaining := by
  rw [split, remains]
  exact turns.beside others

theorem Turns.bind {later : Nat → β → Imperative State ε δ} {last : δ} (turns : Turns outlook program own result middle)
    (rest : Turns outlook (fun rounds => later rounds result) middle last kept) :
    Turns outlook (fun rounds => program rounds >>= later rounds) own last kept := by
  intro state frame parts
  obtain ⟨between, yields, same, parts⟩ := turns state frame parts
  obtain ⟨after, further, sameLast, parts⟩ := rest between frame parts
  exact ⟨after, yields.bind further, sameLast.trans same, parts⟩

theorem Turns.attempt (turns : Turns outlook program own result kept) :
    Turns outlook (fun rounds => (program rounds).attempt) own () kept := by
  intro state frame parts
  obtain ⟨after, yields, same, parts⟩ := turns state frame parts
  exact ⟨after, yields.attempt, same, parts⟩

/-- What succeeds is not cleaned up. -/
theorem Turns.otherwise {cleanup : Nat → Imperative State ε Unit} (turns : Turns outlook program own result kept) :
    Turns outlook (fun rounds => (program rounds).otherwise (cleanup rounds)) own result kept := by
  intro state frame parts
  obtain ⟨after, yields, same, parts⟩ := turns state frame parts
  exact ⟨after, yields.otherwise, same, parts⟩

theorem Turns.ensuring {last : Nat → Imperative State ε Unit} (turns : Turns outlook program own result middle)
    (rest : Turns outlook last middle () kept) :
    Turns outlook (fun rounds => (program rounds).ensuring (last rounds)) own result kept := by
  intro state frame parts
  obtain ⟨between, yields, same, parts⟩ := turns state frame parts
  obtain ⟨after, further, sameLast, parts⟩ := rest between frame parts
  exact ⟨after, yields.ensuring further, sameLast.trans same, parts⟩

/-- The same program with more rounds. -/
theorem Turns.later (turns : Turns outlook program own result kept) :
    Turns outlook (fun rounds => program (rounds + 1)) own result kept := by
  intro state frame parts
  obtain ⟨after, ⟨enough, settled⟩, same, parts⟩ := turns state frame parts
  exact ⟨after, ⟨enough, fun rounds given => settled (rounds + 1) (by omega)⟩, same, parts⟩

theorem Turns.succ (turns : Turns outlook (fun rounds => program (rounds + 1)) own result kept) :
    Turns outlook program own result kept := by
  intro state frame parts
  obtain ⟨after, yields, same, parts⟩ := turns state frame parts
  exact ⟨after, yields.succ, same, parts⟩

/-- What a description does not know of is done in between. -/
theorem Realizes.step {first : Nat → Imperative State ε γ} {later : Nat → γ → Imperative State ε β} {found : γ}
    (turns : Turns outlook first own found kept)
    (cheap : ∀ view frame, outlook.sound view (own + frame) → outlook.sound view (kept + frame))
    (rest : Realizes outlook described (fun rounds => later rounds found) kept left spilled) :
    Realizes outlook described (fun rounds => first rounds >>= later rounds) own left spilled := by
  intro state frame fine parts
  obtain ⟨middle, yields, same, partsNow⟩ := turns state frame parts
  have fineNow : outlook.Fine middle := by
    rw [Outlook.Fine, same, partsNow]
    rw [Outlook.Fine, parts] at fine
    exact cheap _ _ fine
  have ends := rest middle frame fineNow partsNow
  rw [same] at ends
  generalize described (outlook.view state) = ended at ends ⊢
  obtain _ | _ | ⟨value | value, view⟩ := ended
  · exact yields.bind_stops ends
  · exact yields.bind_stops ends
  · obtain ⟨after, lost, later, seen, spills, parts⟩ := ends
    exact ⟨after, lost, yields.bind later, seen, spills, parts⟩
  · obtain ⟨result, after, owned, later, seen, fine, holds, parts⟩ := ends
    exact ⟨result, after, owned, yields.bind later, seen, fine, holds, parts⟩

end Following

end Library.Owning
