import LeoCoin.Library.Owning

/-! # What a program does with what it owns

`Accounts own program left` says that the program ends, and that `left` holds of its result and
of what it has then in place of what it owned.  Here `left` says what is left after each failure, and
there is no description of the result apart from it.  What else there is must be as `besides` says.
-/

namespace Library.Owning

open Library.Programs

section Triples

variable {State Part View ε β γ : Type} [AddCommMonoid Part] {outlook : Outlook State Part View}

/-- From what is owned the program leads to a result and what is left with it. -/
def Accounts (outlook : Outlook State Part View) (besides : Part → Prop) (own : Part)
    (program : Nat → Imperative State ε β) (left : Except ε β → Part → Prop) : Prop :=
  ∀ state frame, besides frame → outlook.parts state = own + frame →
    ∃ result after owned, Yields program state result after ∧ left result owned ∧ outlook.parts after = owned + frame

variable {besides : Part → Prop} {own kept : Part} {program : Nat → Imperative State ε β}
  {left : Except ε β → Part → Prop}

theorem accounts_pure (value : β) (holds : left (.ok value) own) :
    Accounts outlook besides own (fun _ => (pure value : Imperative State ε β)) left :=
  fun state _ _ parts => ⟨.ok value, state, own, yields_pure value, holds, parts⟩

theorem accounts_fail (failure : ε) (holds : left (.error failure) own) :
    Accounts outlook besides own (fun _ => (Imperative.fail failure : Imperative State ε β)) left :=
  fun state _ _ parts => ⟨.error failure, state, own, yields_fail failure, holds, parts⟩

theorem Accounts.bind {rest : Nat → β → Imperative State ε γ} {last : Except ε γ → Part → Prop}
    (accounts : Accounts outlook besides own program left)
    (further : ∀ value owned, left (.ok value) owned →
      Accounts outlook besides owned (fun rounds => rest rounds value) last)
    (fails : ∀ failure owned, left (.error failure) owned → last (.error failure) owned) :
    Accounts outlook besides own (fun rounds => program rounds >>= rest rounds) last := by
  intro state frame fine parts
  obtain ⟨result, middle, owned, yields, holds, parts⟩ := accounts state frame fine parts
  cases result with
  | error failure => exact ⟨.error failure, middle, owned, yields.bind_fail, fails failure owned holds, parts⟩
  | ok value =>
    obtain ⟨result, after, ownedLast, later, holds, parts⟩ := further value owned holds middle frame fine parts
    exact ⟨result, after, ownedLast, yields.bind later, holds, parts⟩

theorem Accounts.mono {weaker : Except ε β → Part → Prop} (accounts : Accounts outlook besides own program left)
    (implies : ∀ result owned, left result owned → weaker result owned) :
    Accounts outlook besides own program weaker := by
  intro state frame fine parts
  obtain ⟨result, after, owned, yields, holds, parts⟩ := accounts state frame fine parts
  exact ⟨result, after, owned, yields, implies result owned holds, parts⟩

theorem Accounts.restrict {allowed : Part → Prop} (accounts : Accounts outlook allowed own program left)
    (allows : ∀ frame, besides frame → allowed frame) : Accounts outlook besides own program left :=
  fun state frame fine parts => accounts state frame (allows frame fine) parts

theorem Accounts.anyway (accounts : Accounts outlook (fun _ => True) own program left) :
    Accounts outlook besides own program left :=
  accounts.restrict fun _ _ => trivial

/-- What a program does not touch stays beside what it owns. -/
theorem Accounts.beside {allowed : Part → Prop} (accounts : Accounts outlook allowed own program left) (others : Part)
    (allows : ∀ frame, besides frame → allowed (others + frame)) :
    Accounts outlook besides (own + others) program fun result now =>
      ∃ owned, left result owned ∧ now = owned + others := by
  intro state frame fine parts
  obtain ⟨result, after, owned, yields, holds, parts⟩ :=
    accounts state (others + frame) (allows frame fine) (by rw [parts, add_assoc])
  exact ⟨result, after, _, yields, ⟨owned, holds, rfl⟩, by rw [parts, add_assoc]⟩

/-- A program that cleans up after its failures. -/
theorem Accounts.otherwise {cleanup : Nat → Imperative State ε Unit} {last : Except ε β → Part → Prop}
    (accounts : Accounts outlook besides own program left)
    (cleans : ∀ failure owned, left (.error failure) owned →
      ∃ kept, Turns outlook cleanup owned () kept ∧ last (.error failure) kept)
    (keeps : ∀ value owned, left (.ok value) owned → last (.ok value) owned) :
    Accounts outlook besides own (fun rounds => (program rounds).otherwise (cleanup rounds)) last := by
  intro state frame fine parts
  obtain ⟨result, middle, owned, yields, holds, parts⟩ := accounts state frame fine parts
  cases result with
  | error failure =>
    obtain ⟨kept, turns, holds⟩ := cleans failure owned holds
    obtain ⟨after, cleaned, -, parts⟩ := turns middle frame parts
    exact ⟨.error failure, after, kept, yields.otherwise_fail cleaned, holds, parts⟩
  | ok value => exact ⟨.ok value, middle, owned, yields.otherwise, keeps value owned holds, parts⟩

/-- The return code is a result. -/
theorem Accounts.outcome (accounts : Accounts outlook besides own program left) :
    Accounts outlook besides own (fun rounds => (program rounds).outcome) fun result now =>
      ∃ ended, result = .ok ended ∧ left ended now := by
  intro state frame fine parts
  obtain ⟨result, after, owned, yields, holds, parts⟩ := accounts state frame fine parts
  exact ⟨.ok result, after, owned, yields.outcome, ⟨result, rfl, holds⟩, parts⟩

theorem Turns.accounts {result : β} (turns : Turns outlook program own result kept) :
    Accounts outlook besides own program fun ended owned => ended = .ok result ∧ owned = kept := by
  intro state frame _ parts
  obtain ⟨after, yields, -, parts⟩ := turns state frame parts
  exact ⟨.ok result, after, kept, yields, ⟨rfl, rfl⟩, parts⟩

/-- A program that always succeeds, before another one. -/
theorem Accounts.after {result : β} {rest : Nat → β → Imperative State ε γ} {last : Except ε γ → Part → Prop}
    (turns : Turns outlook program own result kept)
    (further : Accounts outlook besides kept (fun rounds => rest rounds result) last) :
    Accounts outlook besides own (fun rounds => program rounds >>= rest rounds) last := by
  refine turns.accounts.bind ?_ ?_
  · rintro _ _ ⟨same, rfl⟩
    cases same
    exact further
  · rintro _ _ ⟨wrong, -⟩
    cases wrong

/-- The same program with more rounds. -/
theorem Accounts.later (accounts : Accounts outlook besides own program left) :
    Accounts outlook besides own (fun rounds => program (rounds + 1)) left := by
  intro state frame fine parts
  obtain ⟨result, after, owned, ⟨enough, settled⟩, holds, parts⟩ := accounts state frame fine parts
  exact ⟨result, after, owned, ⟨enough, fun rounds given => settled (rounds + 1) (by omega)⟩, holds, parts⟩

theorem Accounts.succ (accounts : Accounts outlook besides own (fun rounds => program (rounds + 1)) left) :
    Accounts outlook besides own program left := by
  intro state frame fine parts
  obtain ⟨result, after, owned, yields, holds, parts⟩ := accounts state frame fine parts
  exact ⟨result, after, owned, yields.succ, holds, parts⟩

/-- The program may also use what is not there, where `fault` says why. -/
def AccountsUnless (outlook : Outlook State Part View) (besides : Part → Prop) (own : Part) (fault : Prop)
    (program : Nat → Imperative State ε β) (left : Except ε β → Part → Prop) : Prop :=
  ∀ state frame, besides frame → outlook.parts state = own + frame →
    (∃ result after owned, Yields program state result after ∧ left result owned ∧
        outlook.parts after = owned + frame) ∨
      fault ∧ ComesTo (fun rounds => program rounds state) .undefined

variable {fault : Prop}

theorem Accounts.unless (accounts : Accounts outlook besides own program left) :
    AccountsUnless outlook besides own fault program left :=
  fun state frame fine parts => .inl (accounts state frame fine parts)

theorem AccountsUnless.bind {rest : Nat → β → Imperative State ε γ} {last : Except ε γ → Part → Prop}
    (accounts : AccountsUnless outlook besides own fault program left)
    (further : ∀ value owned, left (.ok value) owned →
      AccountsUnless outlook besides owned fault (fun rounds => rest rounds value) last)
    (fails : ∀ failure owned, left (.error failure) owned → last (.error failure) owned) :
    AccountsUnless outlook besides own fault (fun rounds => program rounds >>= rest rounds) last := by
  intro state frame fine parts
  obtain ⟨result, middle, owned, yields, holds, parts⟩ | ⟨why, undefined⟩ := accounts state frame fine parts
  · cases result with
    | error failure => exact .inl ⟨.error failure, middle, owned, yields.bind_fail, fails failure owned holds, parts⟩
    | ok value =>
      obtain ⟨result, after, ownedLast, later, holds, parts⟩ | ⟨why, undefined⟩ :=
        further value owned holds middle frame fine parts
      · exact .inl ⟨result, after, ownedLast, yields.bind later, holds, parts⟩
      · exact .inr ⟨why, yields.bind_stops undefined⟩
  · exact .inr ⟨why, undefined.bind_undefined⟩

theorem AccountsUnless.mono {weaker : Except ε β → Part → Prop}
    (accounts : AccountsUnless outlook besides own fault program left)
    (implies : ∀ result owned, left result owned → weaker result owned) :
    AccountsUnless outlook besides own fault program weaker := by
  intro state frame fine parts
  obtain ⟨result, after, owned, yields, holds, parts⟩ | broken := accounts state frame fine parts
  · exact .inl ⟨result, after, owned, yields, implies result owned holds, parts⟩
  · exact .inr broken

end Triples

/-! ## Programs whose results are known -/

section Known

variable {State Part View ε α β γ δ : Type} [AddCommMonoid Part] {outlook : Outlook State Part View}

/-- With the value that is expected there is what `left` says, after the failure that is expected
what `spilled` says. -/
def Expected (expected : Except ε α) (left : α → β → Part → Prop) (spilled : Part → Prop)
    (result : Except ε β) (owned : Part) : Prop :=
  match expected with
  | .ok value => ∃ found, result = .ok found ∧ left value found owned
  | .error failure => result = .error failure ∧ spilled owned

/-- The program comes to what is expected, which may be that it does not end or that it uses what is
not there. -/
def Meets (outlook : Outlook State Part View) (besides : Part → Prop) (own : Part)
    (program : Nat → Imperative State ε β) (expected : Course (Except ε α)) (left : α → β → Part → Prop)
    (spilled : Part → Prop) : Prop :=
  match expected with
  | .done result => Accounts outlook besides own program (Expected result left spilled)
  | .running => ∀ state frame, besides frame → outlook.parts state = own + frame →
      ComesTo (fun rounds => program rounds state) .running
  | .undefined => ∀ state frame, besides frame → outlook.parts state = own + frame →
      ComesTo (fun rounds => program rounds state) .undefined

/-- What is behind a value that may not be there. -/
def andThen (expected : Course (Except ε α)) (further : α → Course (Except ε γ)) : Course (Except ε γ) :=
  match expected with
  | .done (.ok value) => further value
  | .done (.error failure) => .done (.error failure)
  | .running => .running
  | .undefined => .undefined

theorem andThen_ok (expected : Course (Except ε α)) : andThen expected (fun value => .done (.ok value)) = expected := by
  rcases expected with _ | _ | ⟨failure | value⟩ <;> rfl

theorem andThen_done (expected : Except ε α) (further : α → Except ε γ) :
    andThen (.done expected) (fun value => .done (further value)) = .done (expected >>= further) := by
  cases expected <;> rfl

variable {besides : Part → Prop} {own kept : Part} {program : Nat → Imperative State ε β}
  {expected : Course (Except ε α)} {left : α → β → Part → Prop} {spilled : Part → Prop}

theorem Accounts.meets {result : Except ε α}
    (accounts : Accounts outlook besides own program (Expected result left spilled)) :
    Meets outlook besides own program (.done result) left spilled := accounts

theorem meets_pure (value : α) (found : β) (spilled : Part → Prop) (holds : left value found own) :
    Meets outlook besides own (fun _ => (pure found : Imperative State ε β)) (.done (.ok value)) left spilled :=
  (accounts_pure found ⟨found, rfl, holds⟩).meets

theorem Meets.bind {further : α → Course (Except ε γ)} {later : Nat → β → Imperative State ε δ}
    {last : γ → δ → Part → Prop} (meets : Meets outlook besides own program expected left spilled)
    (rest : ∀ value found owned, expected = .done (.ok value) → left value found owned →
      Meets outlook besides owned (fun rounds => later rounds found) (further value) last spilled) :
    Meets outlook besides own (fun rounds => program rounds >>= later rounds) (andThen expected further) last
      spilled := by
  cases expected with
  | running => exact fun state frame fine parts => (meets state frame fine parts).bind_running
  | undefined => exact fun state frame fine parts => (meets state frame fine parts).bind_undefined
  | done result =>
    cases result with
    | error failure =>
      refine (show Accounts _ _ _ _ _ from meets).bind (fun _ _ ⟨wrong, _⟩ => nomatch wrong) ?_
      rintro _ _ ⟨⟨⟩, spills⟩
      exact ⟨rfl, spills⟩
    | ok value =>
      simp only [andThen]
      cases ends : further value with
      | done result =>
        refine (show Accounts _ _ _ _ _ from meets).bind ?_ ?_
        · intro found owned ⟨_, same, holds⟩
          cases same
          have later := rest value found owned rfl holds
          rw [ends] at later
          exact later
        · rintro _ _ ⟨_, wrong, -⟩
          cases wrong
      | running =>
        intro state frame fine parts
        obtain ⟨_, middle, owned, yields, ⟨found, rfl, holds⟩, parts⟩ := meets state frame fine parts
        have later := rest value found owned rfl holds
        rw [ends] at later
        exact yields.bind_stops (later middle frame fine parts)
      | undefined =>
        intro state frame fine parts
        obtain ⟨_, middle, owned, yields, ⟨found, rfl, holds⟩, parts⟩ := meets state frame fine parts
        have later := rest value found owned rfl holds
        rw [ends] at later
        exact yields.bind_stops (later middle frame fine parts)

/-- A program that always succeeds, before another one. -/
theorem Meets.after {found : γ} {first : Nat → Imperative State ε γ} {later : Nat → γ → Imperative State ε β}
    (turns : Turns outlook first own found kept)
    (meets : Meets outlook besides kept (fun rounds => later rounds found) expected left spilled) :
    Meets outlook besides own (fun rounds => first rounds >>= later rounds) expected left spilled := by
  have started : Meets outlook besides own first (.done (.ok found))
      (fun _ result owned => result = found ∧ owned = kept) spilled :=
    (turns.accounts.mono fun _ _ ⟨same, left⟩ => ⟨found, same, rfl, left⟩).meets
  change Meets outlook besides own _ (andThen (.done (.ok found)) fun _ => expected) left spilled
  refine started.bind ?_
  rintro value _ _ - ⟨rfl, rfl⟩
  exact meets

theorem Meets.restrict {allowed : Part → Prop} (meets : Meets outlook allowed own program expected left spilled)
    (allows : ∀ frame, besides frame → allowed frame) : Meets outlook besides own program expected left spilled := by
  cases expected with
  | done result => exact Accounts.restrict meets allows
  | running => exact fun state frame fine parts => meets state frame (allows frame fine) parts
  | undefined => exact fun state frame fine parts => meets state frame (allows frame fine) parts

/-- A program that cleans up after its failures. -/
theorem Meets.cleared {known : Part} {result : Except ε α} {cleanup : Nat → Imperative State ε Unit}
    (meets : Meets outlook besides own program (.done result) left (· = known))
    (cleans : Turns outlook cleanup known () kept) :
    Meets outlook besides own (fun rounds => (program rounds).otherwise (cleanup rounds)) (.done result) left
      (· = kept) := by
  refine Accounts.meets (Accounts.otherwise (show Accounts _ _ _ _ _ from meets) ?_ ?_)
  · intro failure owned holds
    cases result with
    | ok value => exact absurd holds.choose_spec.1 (by simp)
    | error expected =>
      obtain ⟨⟨⟩, rfl⟩ := holds
      exact ⟨kept, cleans, rfl, rfl⟩
  · intro found owned holds
    cases result with
    | ok value => exact holds
    | error expected => exact absurd holds.1 (by simp)

/-- What a program does not touch stays beside what it owns. -/
theorem Meets.beside {allowed : Part → Prop} (meets : Meets outlook allowed own program expected left spilled)
    (others : Part) (allows : ∀ frame, besides frame → allowed (others + frame)) :
    Meets outlook besides (own + others) program expected
      (fun value found now => ∃ owned, left value found owned ∧ now = owned + others)
      (fun now => ∃ lost, spilled lost ∧ now = lost + others) := by
  cases expected with
  | done result =>
    refine ((show Accounts _ _ _ _ _ from meets).beside others allows).mono ?_
    rintro _ _ ⟨owned, holds, rfl⟩
    cases result with
    | ok value =>
      obtain ⟨found, rfl, holds⟩ := holds
      exact ⟨found, rfl, owned, holds, rfl⟩
    | error failure => exact ⟨holds.1, owned, holds.2, rfl⟩
  | running =>
    exact fun state frame fine parts =>
      meets state (others + frame) (allows frame fine) (by rw [parts, add_assoc])
  | undefined =>
    exact fun state frame fine parts =>
      meets state (others + frame) (allows frame fine) (by rw [parts, add_assoc])

theorem Meets.weaken {weaker : α → β → Part → Prop} {looser : Part → Prop}
    (meets : Meets outlook besides own program expected left spilled)
    (implies : ∀ value found owned, left value found owned → weaker value found owned)
    (spills : ∀ lost, spilled lost → looser lost) :
    Meets outlook besides own program expected weaker looser := by
  cases expected with
  | done result =>
    refine (show Accounts _ _ _ _ _ from meets).mono ?_
    intro found owned holds
    cases result with
    | ok value =>
      obtain ⟨found, rfl, holds⟩ := holds
      exact ⟨found, rfl, implies value found owned holds⟩
    | error failure => exact ⟨holds.1, spills owned holds.2⟩
  | running => exact meets
  | undefined => exact meets

end Known

end Library.Owning
