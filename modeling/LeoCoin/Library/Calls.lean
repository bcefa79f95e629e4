/-! # Programs that make calls

A program makes calls and goes on with what they answer, whatever it is.  It is done with a
result, or it leaves for its last label with a code; a loop whose rounds are used up is still
running, and using what is not there is undefined.  A run is the calls that were made with
their answers.  `Ensures` is computed along the program and says what holds of every run of
it; `Leads` is its form with one condition on the calls made before and one for each ending,
and its rules go through a program part by part.  The calls of a program may be programs
themselves, which make calls of another kind.
-/

namespace Library.Calls

inductive Program (Call : Type) (Answer : Call → Type) (ε β : Type) where
  | done (result : β)
  | leave (code : ε)
  | running
  | undefined
  | ask (call : Call) (rest : Answer call → Program Call Answer ε β)

/-- How a run of a program ends, as far as it is taken. -/
inductive Ending (ε β : Type) where
  | done (result : β) : Ending ε β
  | left (code : ε) : Ending ε β
  | running : Ending ε β
  | undefined : Ending ε β
deriving DecidableEq

/-- A call that was made, and what it answered. -/
structure Event {Call : Type} (Answer : Call → Type) where
  call : Call
  answer : Answer call

section Programs

variable {Call : Type} {Answer : Call → Type} {ε ε' β γ State : Type}

def perform (call : Call) : Program Call Answer ε (Answer call) := .ask call .done

/-- A call whose answer decides whether the program leaves, and with which code. -/
def check (call : Call) (verdict : Answer call → Option ε) : Program Call Answer ε Unit :=
  .ask call fun answer =>
    match verdict answer with
    | none => .done ()
    | some code => .leave code

namespace Program

def bind (program : Program Call Answer ε β) (rest : β → Program Call Answer ε γ) : Program Call Answer ε γ :=
  match program with
  | .done result => rest result
  | .leave code => .leave code
  | .running => .running
  | .undefined => .undefined
  | .ask call later => .ask call fun answer => (later answer).bind rest

instance : Monad (Program Call Answer ε) where
  pure := .done
  bind := bind

/-- What stands behind the last label of a function, for those who left and for those who came to it. -/
def atLabel (program : Program Call Answer ε β) (label : Except ε β → Program Call Answer ε' γ) :
    Program Call Answer ε' γ :=
  match program with
  | .done result => label (.ok result)
  | .leave code => label (.error code)
  | .running => .running
  | .undefined => .undefined
  | .ask call later => .ask call fun answer => (later answer).atLabel label

end Program

/-! ## Runs -/

/-- The program can make these calls, get these answers and end so. -/
inductive Runs : Program Call Answer ε β → List (Event Answer) → Ending ε β → Prop where
  | done {result : β} : Runs (.done result) [] (.done result)
  | left {code : ε} : Runs (.leave code) [] (.left code)
  | running : Runs .running [] .running
  | undefined : Runs .undefined [] .undefined
  | ask {call : Call} {rest : Answer call → Program Call Answer ε β} {trace : List (Event Answer)}
      {ending : Ending ε β} (answer : Answer call) (later : Runs (rest answer) trace ending) :
      Runs (.ask call rest) (⟨call, answer⟩ :: trace) ending

/-! ## What holds of every run -/

/-- Whatever the calls answer, the program ends so behind the calls of `trace`. -/
def Program.Ensures (after : Ending ε β → List (Event Answer) → Prop) :
    Program Call Answer ε β → List (Event Answer) → Prop
  | .done result, trace => after (.done result) trace
  | .leave code, trace => after (.left code) trace
  | .running, trace => after .running trace
  | .undefined, trace => after .undefined trace
  | .ask call rest, trace => ∀ answer, (rest answer).Ensures after (trace ++ [⟨call, answer⟩])

section Ensures

variable {program : Program Call Answer ε β} {trace : List (Event Answer)}
  {after weaker : Ending ε β → List (Event Answer) → Prop}

theorem Program.Ensures.runs (ensures : program.Ensures after trace) {more : List (Event Answer)}
    {ending : Ending ε β} (runs : Runs program more ending) : after ending (trace ++ more) := by
  induction runs generalizing trace with
  | done => rwa [List.append_nil]
  | left => rwa [List.append_nil]
  | running => rwa [List.append_nil]
  | undefined => rwa [List.append_nil]
  | ask answer later ih =>
    rw [List.append_cons]
    exact ih (ensures answer)

theorem Program.Ensures.mono (ensures : program.Ensures after trace)
    (implies : ∀ ending trace, after ending trace → weaker ending trace) : program.Ensures weaker trace := by
  induction program generalizing trace with
  | done result => exact implies _ _ ensures
  | leave code => exact implies _ _ ensures
  | running => exact implies _ _ ensures
  | undefined => exact implies _ _ ensures
  | ask call rest ih => exact fun answer => ih answer (ensures answer)

theorem Program.Ensures.and (one : program.Ensures after trace) (other : program.Ensures weaker trace) :
    program.Ensures (fun ending trace => after ending trace ∧ weaker ending trace) trace := by
  induction program generalizing trace with
  | done result => exact ⟨one, other⟩
  | leave code => exact ⟨one, other⟩
  | running => exact ⟨one, other⟩
  | undefined => exact ⟨one, other⟩
  | ask call rest ih => exact fun answer => ih answer (one answer) (other answer)

theorem Program.Ensures.of_forall (all : ∀ ending trace, after ending trace) : program.Ensures after trace := by
  induction program generalizing trace with
  | done result => exact all _ _
  | leave code => exact all _ _
  | running => exact all _ _
  | undefined => exact all _ _
  | ask call rest ih => exact fun answer => ih answer

/-- What has to hold between a program and the one behind it. -/
def between (rest : β → Program Call Answer ε γ) (after : Ending ε γ → List (Event Answer) → Prop) :
    Ending ε β → List (Event Answer) → Prop
  | .done result, trace => (rest result).Ensures after trace
  | .left code, trace => after (.left code) trace
  | .running, trace => after .running trace
  | .undefined, trace => after .undefined trace

theorem ensures_bind {rest : β → Program Call Answer ε γ} {after : Ending ε γ → List (Event Answer) → Prop} :
    (program >>= rest).Ensures after trace ↔ program.Ensures (between rest after) trace := by
  induction program generalizing trace with
  | done result => exact Iff.rfl
  | leave code => exact Iff.rfl
  | running => exact Iff.rfl
  | undefined => exact Iff.rfl
  | ask call later ih => exact forall_congr' fun answer => ih answer

/-- What has to hold at a label. -/
def behind (label : Except ε β → Program Call Answer ε' γ) (after : Ending ε' γ → List (Event Answer) → Prop) :
    Ending ε β → List (Event Answer) → Prop
  | .done result, trace => (label (.ok result)).Ensures after trace
  | .left code, trace => (label (.error code)).Ensures after trace
  | .running, trace => after .running trace
  | .undefined, trace => after .undefined trace

theorem ensures_atLabel {label : Except ε β → Program Call Answer ε' γ}
    {after : Ending ε' γ → List (Event Answer) → Prop} :
    (program.atLabel label).Ensures after trace ↔ program.Ensures (behind label after) trace := by
  induction program generalizing trace with
  | done result => exact Iff.rfl
  | leave code => exact Iff.rfl
  | running => exact Iff.rfl
  | undefined => exact Iff.rfl
  | ask call later ih => exact forall_congr' fun answer => ih answer

end Ensures

/-! ## Conditions before and after -/

/-- One condition for each ending: done, left or neither. -/
def Outcome (after gone cut : List (Event Answer) → Prop) : Ending ε β → List (Event Answer) → Prop
  | .done _, trace => after trace
  | .left _, trace => gone trace
  | .running, trace => cut trace
  | .undefined, trace => cut trace

def Leads (before after gone cut : List (Event Answer) → Prop) (program : Program Call Answer ε β) : Prop :=
  ∀ trace, before trace → program.Ensures (Outcome after gone cut) trace

section Leads

variable {before middle after gone cut : List (Event Answer) → Prop} {program : Program Call Answer ε β}

theorem leads_pure (result : β) : Leads after after gone cut (pure result : Program Call Answer ε β) :=
  fun _ held => held

theorem leads_running (held : ∀ trace, before trace → cut trace) :
    Leads before after gone cut (.running : Program Call Answer ε β) := held

theorem leads_undefined (held : ∀ trace, before trace → cut trace) :
    Leads before after gone cut (.undefined : Program Call Answer ε β) := held

theorem Leads.bind {rest : β → Program Call Answer ε γ} (first : Leads before middle gone cut program)
    (second : ∀ result, Leads middle after gone cut (rest result)) :
    Leads before after gone cut (program >>= rest) := by
  intro trace held
  refine ensures_bind.mpr ((first trace held).mono fun ending trace outcome => ?_)
  cases ending with
  | done result => exact second result trace outcome
  | left code => exact outcome
  | running => exact outcome
  | undefined => exact outcome

theorem leads_perform {call : Call} (kept : ∀ trace answer, before trace → after (trace ++ [⟨call, answer⟩])) :
    Leads before after gone cut (perform call : Program Call Answer ε (Answer call)) :=
  fun trace held answer => kept trace answer held

theorem leads_check {call : Call} {verdict : Answer call → Option ε}
    (kept : ∀ trace answer, before trace → verdict answer = none → after (trace ++ [⟨call, answer⟩]))
    (left : ∀ trace answer code, before trace → verdict answer = some code → gone (trace ++ [⟨call, answer⟩])) :
    Leads before after gone cut (check call verdict) := by
  intro trace held answer
  cases judged : verdict answer with
  | none =>
    simp only [judged]
    exact kept trace answer held judged
  | some code =>
    simp only [judged]
    exact left trace answer code held judged

/-- A function with what stands behind its last label. -/
theorem Leads.atLabel {later gone' : List (Event Answer) → Prop} {label : Except ε β → Program Call Answer ε' γ}
    (body : Leads before after gone cut program) (came : ∀ result, Leads after later gone' cut (label (.ok result)))
    (left : ∀ code, Leads gone later gone' cut (label (.error code))) :
    Leads before later gone' cut (program.atLabel label) := by
  intro trace held
  refine ensures_atLabel.mpr ((body trace held).mono fun ending trace outcome => ?_)
  cases ending with
  | done result => exact came result trace outcome
  | left code => exact left code trace outcome
  | running => exact outcome
  | undefined => exact outcome

theorem Leads.mono {stronger weaker weakerGone weakerCut : List (Event Answer) → Prop}
    (leads : Leads before after gone cut program) (asks : ∀ trace, stronger trace → before trace)
    (gives : ∀ trace, after trace → weaker trace) (leaves : ∀ trace, gone trace → weakerGone trace)
    (cuts : ∀ trace, cut trace → weakerCut trace) : Leads stronger weaker weakerGone weakerCut program := by
  intro trace held
  refine (leads trace (asks trace held)).mono fun ending trace outcome => ?_
  cases ending with
  | done result => exact gives trace outcome
  | left code => exact leaves trace outcome
  | running => exact cuts trace outcome
  | undefined => exact cuts trace outcome

/-- What has no code to leave with does not leave. -/
theorem Leads.returning {gone' : List (Event Answer) → Prop} {program : Program Call Answer Empty β}
    (leads : Leads before after gone cut program) : Leads before after gone' cut program := by
  intro trace held
  refine (leads trace held).mono fun ending trace outcome => ?_
  cases ending with
  | done result => exact outcome
  | left code => exact code.elim
  | running => exact outcome
  | undefined => exact outcome

/-- What no call can undo is kept by every program. -/
theorem leads_persistent (persists : ∀ trace event, after trace → after (trace ++ [event])) :
    Leads after after after after program := by
  intro trace held
  induction program generalizing trace with
  | done result => exact held
  | leave code => exact held
  | running => exact held
  | undefined => exact held
  | ask call rest ih => exact fun answer => ih answer _ (persists trace _ held)

theorem Leads.or {before' after' gone' cut' : List (Event Answer) → Prop} (one : Leads before after gone cut program)
    (other : Leads before' after' gone' cut' program) :
    Leads (fun trace => before trace ∨ before' trace) (fun trace => after trace ∨ after' trace)
      (fun trace => gone trace ∨ gone' trace) (fun trace => cut trace ∨ cut' trace) program := by
  rintro trace (held | held)
  · exact one.mono (fun _ held => held) (fun _ => .inl) (fun _ => .inl) (fun _ => .inl) trace held
  · exact other.mono (fun _ held => held) (fun _ => .inr) (fun _ => .inr) (fun _ => .inr) trace held

theorem Leads.and {before' after' gone' cut' : List (Event Answer) → Prop} (one : Leads before after gone cut program)
    (other : Leads before' after' gone' cut' program) :
    Leads (fun trace => before trace ∧ before' trace) (fun trace => after trace ∧ after' trace)
      (fun trace => gone trace ∧ gone' trace) (fun trace => cut trace ∧ cut' trace) program := by
  have both (ending : Ending ε β) (trace : List (Event Answer)) (left : Outcome after gone cut ending trace)
      (right : Outcome after' gone' cut' ending trace) :
      Outcome (fun trace => after trace ∧ after' trace) (fun trace => gone trace ∧ gone' trace)
        (fun trace => cut trace ∧ cut' trace) ending trace := by
    cases ending with
    | done result => exact ⟨left, right⟩
    | left code => exact ⟨left, right⟩
    | running => exact ⟨left, right⟩
    | undefined => exact ⟨left, right⟩
  exact fun trace held => ((one trace held.1).and (other trace held.2)).mono fun ending trace outcome =>
    both ending trace outcome.1 outcome.2

theorem Leads.runs (leads : Leads before after gone cut program) (initially : before [])
    {trace : List (Event Answer)} {ending : Ending ε β} (runs : Runs program trace ending) :
    Outcome after gone cut ending trace :=
  (leads [] initially).runs runs

/-- What a run ends with, whichever way it ends, or comes to if it goes on. -/
theorem Leads.always {always : List (Event Answer) → Prop} (leads : Leads before always always always program)
    (initially : before []) {trace : List (Event Answer)} {ending : Ending ε β} (runs : Runs program trace ending) :
    always trace := by
  have outcome := leads.runs initially runs
  cases ending with
  | done result => exact outcome
  | left code => exact outcome
  | running => exact outcome
  | undefined => exact outcome

end Leads

/-! ## Calls that are programs -/

section Expand

variable {Inner : Type} {InnerAnswer : Inner → Type}
  {handler : (call : Call) → Program Inner InnerAnswer Empty (Answer call)}

/-- The caller goes on with the answer of a function, which comes back with one or does not come back. -/
def answered (rest : β → Program Call Answer ε γ) : Except Empty β → Program Call Answer ε γ
  | .ok answer => rest answer
  | .error impossible => impossible.elim

/-- The program with what `handler` has for each of its calls in place of the call. -/
def Program.expand (handler : (call : Call) → Program Inner InnerAnswer Empty (Answer call)) :
    Program Call Answer ε β → Program Inner InnerAnswer ε β
  | .done result => .done result
  | .leave code => .leave code
  | .running => .running
  | .undefined => .undefined
  | .ask call rest => (handler call).atLabel (answered fun answer => (rest answer).expand handler)

theorem atLabel_bind {program : Program Call Answer ε β} {label : Except ε β → Program Call Answer ε' γ}
    {rest : γ → Program Call Answer ε' State} :
    (program.atLabel label >>= rest) = program.atLabel fun result => label result >>= rest := by
  induction program with
  | done result => rfl
  | leave code => rfl
  | running => rfl
  | undefined => rfl
  | ask call later ih => exact congrArg (Program.ask call) (funext ih)

theorem atLabel_atLabel {ε'' : Type} {program : Program Call Answer ε β}
    {label : Except ε β → Program Call Answer ε' γ} {outer : Except ε' γ → Program Call Answer ε'' State} :
    (program.atLabel label).atLabel outer = program.atLabel fun result => (label result).atLabel outer := by
  induction program with
  | done result => rfl
  | leave code => rfl
  | running => rfl
  | undefined => rfl
  | ask call later ih => exact congrArg (Program.ask call) (funext ih)

theorem expand_bind {program : Program Call Answer ε β} {rest : β → Program Call Answer ε γ} :
    (program >>= rest).expand handler = program.expand handler >>= fun result => (rest result).expand handler := by
  induction program with
  | done result => rfl
  | leave code => rfl
  | running => rfl
  | undefined => rfl
  | ask call later ih =>
    refine Eq.trans (congrArg (handler call).atLabel (funext fun answer => ?_)) atLabel_bind.symm
    cases answer with
    | ok answer => exact ih answer
    | error impossible => exact impossible.elim

theorem expand_atLabel {program : Program Call Answer ε β} {label : Except ε β → Program Call Answer ε' γ} :
    (program.atLabel label).expand handler =
      (program.expand handler).atLabel fun result => (label result).expand handler := by
  induction program with
  | done result => rfl
  | leave code => rfl
  | running => rfl
  | undefined => rfl
  | ask call later ih =>
    refine Eq.trans (congrArg (handler call).atLabel (funext fun answer => ?_)) atLabel_atLabel.symm
    cases answer with
    | ok answer => exact ih answer
    | error impossible => exact impossible.elim

section Leads

variable {before middle after gone gone' cut : List (Event InnerAnswer) → Prop}

theorem leads_expand_bind {program : Program Call Answer ε β} {rest : β → Program Call Answer ε γ}
    (first : Leads before middle gone cut (program.expand handler))
    (second : ∀ result, Leads middle after gone cut ((rest result).expand handler)) :
    Leads before after gone cut ((program >>= rest).expand handler) := by
  rw [expand_bind]
  exact first.bind second

theorem leads_expand_atLabel {program : Program Call Answer ε β}
    {label : Except ε β → Program Call Answer ε' γ} (body : Leads before middle gone cut (program.expand handler))
    (came : ∀ result, Leads middle after gone' cut ((label (.ok result)).expand handler))
    (left : ∀ code, Leads gone after gone' cut ((label (.error code)).expand handler)) :
    Leads before after gone' cut ((program.atLabel label).expand handler) := by
  rw [expand_atLabel]
  exact body.atLabel came left

theorem leads_expand_perform {call : Call} (handled : Leads before after gone cut (handler call)) :
    Leads before after gone cut ((perform call : Program Call Answer ε (Answer call)).expand handler) :=
  handled.atLabel (fun _ => leads_pure _) fun impossible => impossible.elim

theorem leads_expand_check {call : Call} {verdict : Answer call → Option ε}
    (handled : Leads before middle gone cut (handler call)) (kept : ∀ trace, middle trace → after trace)
    (left : ∀ trace, middle trace → gone trace) :
    Leads before after gone cut ((check call verdict).expand handler) := by
  refine handled.atLabel (fun answer trace held => ?_) fun impossible => impossible.elim
  simp only [answered]
  cases verdict answer with
  | none => exact kept trace held
  | some code => exact left trace held

end Leads

end Expand

end Programs

end Library.Calls
