import Mathlib.Algebra.GroupWithZero.Nat

/-! # Sequential decoders over a sized memory

A decoder walks a memory with one moving cursor.  It may ask where the cursor
stands, compare a total against the declared size, read the bytes at the cursor
(which moves past them), and request allocations that the environment may
refuse.  Reading is not tied to a comparison: a decoder can read past the
declared size, and then it sees whatever the memory holds there.

`Decoder` is the syntax of such programs and `Decoder.run` their meaning, so a
fact about all decoders is one induction:

* `run_position_le` — the cursor never moves back, and the bytes a run examines
  are exactly those between the two cursors;
* `run_resize` — a smaller declared size changes nothing or truncates;
* `overruns_bind`, `overruns_repeatTimes` — where a run leaves the declared
  size, some step of it does.
-/

namespace Library.Decoding

/-- Why a decoder gave up: a comparison against the declared size failed, an
allocation was refused, or the decoder rejected what it read. -/
inductive Fault (ε : Type) where
  | truncated : Fault ε
  | refused : Fault ε
  | rejected (reason : ε) : Fault ε
deriving DecidableEq, Repr

/-- The memory a decoder reads.  `byteAt` is total: the bytes from `size` on are
whatever lies behind the buffer.  `grants ordinal size` says whether the
allocation request with that ordinal succeeds. -/
structure Input where
  byteAt : Nat → UInt8
  size : Nat
  grants : Nat → Nat → Bool

structure Cursor where
  position : Nat
  requests : List Nat
deriving DecidableEq, Repr

inductive Decoder (ε α : Type) where
  | done (value : α) : Decoder ε α
  | reject (reason : ε) : Decoder ε α
  | here (next : Nat → Decoder ε α) : Decoder ε α
  | require (total : Nat) (next : Decoder ε α) : Decoder ε α
  | take (count : Nat) (next : Vector UInt8 count → Decoder ε α) : Decoder ε α
  | request (size : Nat) (next : Decoder ε α) : Decoder ε α

/-- The `count` bytes from `position` on. -/
def Input.window (input : Input) (position count : Nat) : Vector UInt8 count :=
  Vector.ofFn fun index => input.byteAt (position + index)

def Cursor.advance (cursor : Cursor) (count : Nat) : Cursor :=
  { cursor with position := cursor.position + count }

def Cursor.record (cursor : Cursor) (size : Nat) : Cursor :=
  { cursor with requests := size :: cursor.requests }

@[simp] theorem Cursor.advance_position (cursor : Cursor) (count : Nat) :
    (cursor.advance count).position = cursor.position + count := rfl

@[simp] theorem Cursor.record_position (cursor : Cursor) (size : Nat) :
    (cursor.record size).position = cursor.position := rfl

namespace Decoder

variable {ε α β : Type}

def run : Decoder ε α → Input → Cursor → Except (Fault ε) α × Cursor
  | .done value, _, cursor => (.ok value, cursor)
  | .reject reason, _, cursor => (.error (.rejected reason), cursor)
  | .here next, input, cursor => (next cursor.position).run input cursor
  | .require total next, input, cursor =>
    if total > input.size then (.error .truncated, cursor) else next.run input cursor
  | .take count next, input, cursor =>
    (next (input.window cursor.position count)).run input (cursor.advance count)
  | .request size next, input, cursor =>
    if input.grants cursor.requests.length size then next.run input (cursor.record size)
    else (.error .refused, cursor.record size)

def bind : Decoder ε α → (α → Decoder ε β) → Decoder ε β
  | .done value, rest => rest value
  | .reject reason, _ => .reject reason
  | .here next, rest => .here fun position => (next position).bind rest
  | .require total next, rest => .require total (next.bind rest)
  | .take count next, rest => .take count fun bytes => (next bytes).bind rest
  | .request size next, rest => .request size (next.bind rest)

instance : Monad (Decoder ε) where
  pure := .done
  bind := .bind

/-- `total_read_size = cursor + count`, compared against the declared size. -/
def requireSpace (count : Nat) : Decoder ε Unit :=
  .here fun position => .require (position + count) (.done ())

def takeBytes (count : Nat) : Decoder ε (Vector UInt8 count) :=
  .take count .done

def allocate (size : Nat) : Decoder ε Unit :=
  .request size (.done ())

/-- The comparison a careful decoder makes before it reads `count` bytes. -/
def checkedTake (count : Nat) : Decoder ε (Vector UInt8 count) := do
  requireSpace count
  takeBytes count

/-- A counted loop carrying an accumulator. -/
def repeatTimes : Nat → (α → Decoder ε α) → α → Decoder ε α
  | 0, _, accumulator => .done accumulator
  | count + 1, body, accumulator => do
    let next ← body accumulator
    repeatTimes count body next

/-! ## Running the operations -/

@[simp] theorem run_pure (value : α) (input : Input) (cursor : Cursor) :
    (pure value : Decoder ε α).run input cursor = (.ok value, cursor) := rfl

@[simp] theorem run_done (value : α) (input : Input) (cursor : Cursor) :
    (Decoder.done value : Decoder ε α).run input cursor = (.ok value, cursor) := rfl

@[simp] theorem run_reject (reason : ε) (input : Input) (cursor : Cursor) :
    (Decoder.reject reason : Decoder ε α).run input cursor = (.error (.rejected reason), cursor) := rfl

@[simp] theorem run_requireSpace (count : Nat) (input : Input) (cursor : Cursor) :
    (requireSpace count : Decoder ε Unit).run input cursor =
      (if cursor.position + count > input.size then .error .truncated else .ok (), cursor) := by
  simp only [requireSpace, run]
  split <;> rfl

@[simp] theorem run_takeBytes (count : Nat) (input : Input) (cursor : Cursor) :
    (takeBytes count : Decoder ε _).run input cursor =
      (.ok (input.window cursor.position count), cursor.advance count) := rfl

@[simp] theorem run_allocate (size : Nat) (input : Input) (cursor : Cursor) :
    (allocate size : Decoder ε Unit).run input cursor =
      (if input.grants cursor.requests.length size then .ok () else .error .refused,
        cursor.record size) := by
  simp only [allocate, run]
  split <;> rfl

theorem run_bind (decoder : Decoder ε α) (rest : α → Decoder ε β) (input : Input) (cursor : Cursor) :
    (decoder >>= rest).run input cursor =
      match decoder.run input cursor with
      | (.ok value, reached) => (rest value).run input reached
      | (.error fault, reached) => (.error fault, reached) := by
  change (decoder.bind rest).run input cursor = _
  induction decoder generalizing cursor with
  | done value => rfl
  | reject reason => rfl
  | here next ih => exact ih cursor.position cursor
  | require total next ih =>
    simp only [bind, run]
    split
    · rfl
    · exact ih cursor
  | take count next ih => exact ih _ _
  | request size next ih =>
    simp only [bind, run]
    split
    · exact ih _
    · rfl

theorem run_bind_ok {decoder : Decoder ε α} {rest : α → Decoder ε β} {input : Input}
    {cursor reached : Cursor} {value : α} (first : decoder.run input cursor = (.ok value, reached)) :
    (decoder >>= rest).run input cursor = (rest value).run input reached := by
  rw [run_bind, first]

theorem run_bind_error {decoder : Decoder ε α} {rest : α → Decoder ε β} {input : Input} {cursor : Cursor}
    {fault : Fault ε} (first : (decoder.run input cursor).1 = .error fault) :
    ((decoder >>= rest).run input cursor).1 = .error fault := by
  rw [run_bind]
  cases ran : decoder.run input cursor with
  | mk outcome reached =>
    rw [ran] at first
    dsimp only at first
    rw [first]

theorem run_bind_eq_ok {decoder : Decoder ε α} {rest : α → Decoder ε β} {input : Input}
    {cursor final : Cursor} {result : β} :
    (decoder >>= rest).run input cursor = (.ok result, final) ↔
      ∃ value reached, decoder.run input cursor = (.ok value, reached) ∧
        (rest value).run input reached = (.ok result, final) := by
  rw [run_bind]
  cases first : decoder.run input cursor with
  | mk outcome reached =>
    cases outcome with
    | ok value =>
      constructor
      · intro rest
        exact ⟨value, reached, rfl, rest⟩
      · intro ⟨_, _, same, rest⟩
        cases same
        exact rest
    | error fault => simp

/-! ## What every decoder satisfies -/

theorem run_position_le (decoder : Decoder ε α) (input : Input) (cursor : Cursor) :
    cursor.position ≤ (decoder.run input cursor).2.position := by
  induction decoder generalizing cursor with
  | done value => exact Nat.le_refl _
  | reject reason => exact Nat.le_refl _
  | here next ih => exact ih _ _
  | require total next ih =>
    simp only [run]
    split
    · exact Nat.le_refl _
    · exact ih _
  | take count next ih =>
    exact Nat.le_trans (Nat.le_add_right _ _) (ih _ (cursor.advance count))
  | request size next ih =>
    simp only [run]
    split
    · exact ih (cursor.record size)
    · exact Nat.le_refl _

/-- Declaring a smaller size either changes nothing or truncates the run. -/
theorem run_resize (decoder : Decoder ε α) (input : Input) (cursor : Cursor) {size : Nat}
    (smaller : size ≤ input.size) :
    decoder.run { input with size := size } cursor = decoder.run input cursor ∨
      (decoder.run { input with size := size } cursor).1 = .error .truncated := by
  induction decoder generalizing cursor with
  | done value => exact .inl rfl
  | reject reason => exact .inl rfl
  | here next ih => exact ih _ cursor
  | require total next ih =>
    simp only [run]
    by_cases short : total > size
    · exact .inr (by simp [short])
    · have enough : ¬ total > input.size := by omega
      simp only [short, enough, if_false]
      exact ih cursor
  | take count next ih => exact ih _ (cursor.advance count)
  | request size next ih =>
    simp only [run]
    split
    · exact ih (cursor.record size)
    · exact .inl rfl

/-! ## Decoders without requests -/

/-- The decoder asks for no memory, so it does not matter which requests succeed. -/
def Frugal (decoder : Decoder ε α) : Prop :=
  ∀ input cursor, (decoder.run input cursor).2.requests = cursor.requests ∧
    ∀ grants, decoder.run { input with grants := grants } cursor = decoder.run input cursor

theorem Frugal.bind {decoder : Decoder ε α} {rest : α → Decoder ε β} (first : decoder.Frugal)
    (later : ∀ value, (rest value).Frugal) : (decoder >>= rest).Frugal := by
  intro input cursor
  obtain ⟨kept, same⟩ := first input cursor
  simp only [run_bind]
  cases ran : decoder.run input cursor with
  | mk outcome reached =>
    rw [ran] at kept same
    cases outcome with
    | error fault =>
      refine ⟨kept, fun grants => ?_⟩
      rw [same grants]
    | ok value =>
      obtain ⟨keptRest, sameRest⟩ := later value input reached
      refine ⟨keptRest.trans kept, fun grants => ?_⟩
      rw [same grants]
      exact sameRest grants

theorem frugal_pure (value : α) : (pure value : Decoder ε α).Frugal := fun _ _ => ⟨rfl, fun _ => rfl⟩

theorem frugal_reject (reason : ε) : (Decoder.reject reason : Decoder ε α).Frugal := fun _ _ =>
  ⟨rfl, fun _ => rfl⟩

theorem frugal_requireSpace (count : Nat) : (requireSpace count : Decoder ε Unit).Frugal := by
  intro input cursor
  rw [run_requireSpace]
  exact ⟨rfl, fun _ => run_requireSpace _ _ _⟩

theorem frugal_takeBytes (count : Nat) : (takeBytes count : Decoder ε _).Frugal := fun _ _ =>
  ⟨rfl, fun _ => rfl⟩

theorem frugal_checkedTake (count : Nat) : (checkedTake count : Decoder ε _).Frugal :=
  (frugal_requireSpace count).bind fun _ => frugal_takeBytes count

/-! ## Loops -/

/-- The invariant rule for a loop that succeeded. -/
theorem repeatTimes_invariant {body : α → Decoder ε α} {input : Input}
    (invariant : Nat → α → Cursor → Prop) {start : α} {cursor : Cursor}
    (initially : invariant 0 start cursor) (count : Nat)
    (preserved : ∀ index accumulator at_ next reached, index < count →
      invariant index accumulator at_ → (body accumulator).run input at_ = (.ok next, reached) →
      invariant (index + 1) next reached)
    {result : α} {final : Cursor}
    (succeeded : (repeatTimes count body start).run input cursor = (.ok result, final)) :
    invariant count result final := by
  induction count generalizing invariant start cursor with
  | zero =>
    cases succeeded
    exact initially
  | succ count ih =>
    obtain ⟨next, reached, first, rest⟩ := run_bind_eq_ok.mp succeeded
    have head := preserved 0 start cursor next reached (by omega) initially first
    exact ih (fun index => invariant (index + 1)) head
      (fun index accumulator at_ next reached bound holds =>
        preserved (index + 1) accumulator at_ next reached (by omega) holds) rest

theorem repeatTimes_add (first rest : Nat) (body : α → Decoder ε α) (start : α) (input : Input)
    (cursor : Cursor) :
    (repeatTimes (first + rest) body start).run input cursor =
      (repeatTimes first body start >>= repeatTimes rest body).run input cursor := by
  induction first generalizing start cursor with
  | zero => rw [Nat.zero_add]; rfl
  | succ first ih =>
    rw [Nat.succ_add]
    simp only [repeatTimes]
    -- both sides start with the same round
    rw [run_bind, run_bind, run_bind]
    cases round : (body start).run input cursor with
    | mk outcome reached =>
      cases outcome with
      | error fault => rfl
      | ok next =>
        simp only
        rw [ih, run_bind]

theorem run_position_bind_le (decoder : Decoder ε α) (rest : α → Decoder ε β) (input : Input)
    (cursor : Cursor) :
    (decoder.run input cursor).2.position ≤ ((decoder >>= rest).run input cursor).2.position := by
  rw [run_bind]
  cases first : decoder.run input cursor with
  | mk outcome reached =>
    cases outcome with
    | ok value => exact run_position_le (rest value) input reached
    | error fault => exact Nat.le_refl _

theorem repeatTimes_reaches {body : α → Decoder ε α} {start accumulator : α} {input : Input}
    {cursor reached : Cursor} {rounds count : Nat}
    (first : (repeatTimes rounds body start).run input cursor = (.ok accumulator, reached))
    (more : rounds < count) :
    ((body accumulator).run input reached).2.position ≤
      ((repeatTimes count body start).run input cursor).2.position := by
  have split : count = rounds + (count - rounds - 1 + 1) := by omega
  rw [split, repeatTimes_add, run_bind_ok first]
  -- what is left of the loop starts with the round in question
  exact run_position_bind_le (body accumulator) _ input reached

/-! ## Leaving the declared size -/

/-- The run starts inside the declared size and ends outside it. -/
def Overruns (decoder : Decoder ε α) (input : Input) (cursor : Cursor) : Prop :=
  cursor.position ≤ input.size ∧ input.size < (decoder.run input cursor).2.position

instance (decoder : Decoder ε α) (input : Input) (cursor : Cursor) : Decidable (decoder.Overruns input cursor) :=
  inferInstanceAs (Decidable (_ ∧ _))

/-- No run of the decoder leaves the declared size. -/
def Guarded (decoder : Decoder ε α) : Prop :=
  ∀ input cursor, ¬ decoder.Overruns input cursor

theorem overruns_bind {decoder : Decoder ε α} {rest : α → Decoder ε β} {input : Input}
    {cursor : Cursor} (leaves : (decoder >>= rest).Overruns input cursor) :
    decoder.Overruns input cursor ∨
      ∃ value reached, decoder.run input cursor = (.ok value, reached) ∧
        (rest value).Overruns input reached := by
  obtain ⟨inside, outside⟩ := leaves
  rw [run_bind] at outside
  cases first : decoder.run input cursor with
  | mk outcome reached =>
    rw [first] at outside
    -- the cursor between the two parts says which of them left
    by_cases within : reached.position ≤ input.size
    · cases outcome with
      | error fault => simp only at outside; omega
      | ok value => exact .inr ⟨value, reached, rfl, within, outside⟩
    · exact .inl ⟨inside, by rw [first]; simpa using within⟩

theorem overruns_repeatTimes {body : α → Decoder ε α} {input : Input} {start : α} {cursor : Cursor}
    {count : Nat} (leaves : (repeatTimes count body start).Overruns input cursor) :
    ∃ rounds, rounds < count ∧ ∃ accumulator reached,
      (repeatTimes rounds body start).run input cursor = (.ok accumulator, reached) ∧
        (body accumulator).Overruns input reached := by
  induction count generalizing start cursor with
  | zero => exact absurd leaves.2 (Nat.not_lt.mpr leaves.1)
  | succ count ih =>
    cases overruns_bind leaves with
    | inl inBody => exact ⟨0, by omega, start, cursor, rfl, inBody⟩
    | inr inRest =>
      obtain ⟨next, reached, first, inRest⟩ := inRest
      obtain ⟨rounds, bound, accumulator, later, rest, inBody⟩ := ih inRest
      exact ⟨rounds + 1, by omega, accumulator, later,
        run_bind_eq_ok.mpr ⟨next, reached, first, rest⟩, inBody⟩

/-- A guarded first part succeeds inside, and the rest leaves. -/
theorem Guarded.overruns_rest {decoder : Decoder ε α} {rest : α → Decoder ε β} {input : Input}
    {cursor : Cursor} (guarded : decoder.Guarded) (leaves : (decoder >>= rest).Overruns input cursor) :
    ∃ value reached, decoder.run input cursor = (.ok value, reached) ∧
      (rest value).Overruns input reached := by
  cases overruns_bind leaves with
  | inl inFirst => exact absurd inFirst (guarded input cursor)
  | inr inRest => exact inRest

theorem overruns_first {decoder : Decoder ε α} {rest : α → Decoder ε β} {input : Input} {cursor : Cursor}
    (guarded : ∀ value, (rest value).Guarded) (leaves : (decoder >>= rest).Overruns input cursor) :
    decoder.Overruns input cursor := by
  cases overruns_bind leaves with
  | inl inFirst => exact inFirst
  | inr inRest =>
    obtain ⟨value, reached, -, later⟩ := inRest
    exact absurd later (guarded value input reached)

theorem Guarded.bind {decoder : Decoder ε α} {rest : α → Decoder ε β} (first : decoder.Guarded)
    (later : ∀ value, (rest value).Guarded) : (decoder >>= rest).Guarded := by
  intro input cursor leaves
  exact first input cursor (overruns_first later leaves)

theorem guarded_done (value : α) : (Decoder.done value : Decoder ε α).Guarded := by
  intro input cursor leaves
  exact absurd leaves.2 (Nat.not_lt.mpr leaves.1)

theorem guarded_reject (reason : ε) : (Decoder.reject reason : Decoder ε α).Guarded := by
  intro input cursor leaves
  exact absurd leaves.2 (Nat.not_lt.mpr leaves.1)

theorem guarded_requireSpace (count : Nat) : (requireSpace count : Decoder ε Unit).Guarded := by
  intro input cursor leaves
  rw [Overruns, run_requireSpace] at leaves
  exact absurd leaves.2 (Nat.not_lt.mpr leaves.1)

theorem guarded_allocate (size : Nat) : (allocate size : Decoder ε Unit).Guarded := by
  intro input cursor leaves
  rw [Overruns, run_allocate] at leaves
  exact absurd leaves.2 (Nat.not_lt.mpr leaves.1)

theorem guarded_allocate_pure (size : Nat) (value : α) :
    (allocate size >>= fun _ => pure value : Decoder ε α).Guarded :=
  (guarded_allocate size).bind fun _ => guarded_done value

theorem guarded_checkedTake (count : Nat) : (checkedTake count : Decoder ε _).Guarded := by
  intro input cursor leaves
  obtain ⟨inside, outside⟩ := leaves
  rw [checkedTake, run_bind, run_requireSpace] at outside
  by_cases short : cursor.position + count > input.size
  · simp only [short, if_true] at outside
    omega
  · simp only [short, if_false, run_takeBytes, Cursor.advance_position] at outside

/-! ## Not looking behind the declared size -/

/-- Two memories of one size that agree inside it, and refuse the same requests. -/
structure Agree (left right : Input) : Prop where
  size : left.size = right.size
  grants : left.grants = right.grants
  bytes : ∀ offset, offset < left.size → left.byteAt offset = right.byteAt offset

/-- The same course: both succeed with related values or both stop at the same fault,
and the cursors are the same. -/
def SameCourse (related : α → α → Prop) :
    Except (Fault ε) α × Cursor → Except (Fault ε) α × Cursor → Prop
  | (.ok left, cursor), (.ok right, cursor') => related left right ∧ cursor = cursor'
  | (.error left, cursor), (.error right, cursor') => left = right ∧ cursor = cursor'
  | _, _ => False

/-- What lies behind the declared size does not steer the two decoders apart. -/
def Blind (related : α → α → Prop) (left right : Decoder ε α) : Prop :=
  ∀ inputLeft inputRight, Agree inputLeft inputRight → ∀ cursor,
    SameCourse related (left.run inputLeft cursor) (right.run inputRight cursor)

/-- First parts of the same course, and rests that stay together behind it. -/
theorem SameCourse.bind {related : α → α → Prop} {relatedRest : β → β → Prop}
    {left right : Decoder ε α} {restLeft restRight : α → Decoder ε β} {inputLeft inputRight : Input}
    {cursor : Cursor} (agree : Agree inputLeft inputRight)
    (course : SameCourse related (left.run inputLeft cursor) (right.run inputRight cursor))
    (later : ∀ a b, related a b → Blind relatedRest (restLeft a) (restRight b)) :
    SameCourse relatedRest ((left >>= restLeft).run inputLeft cursor)
      ((right >>= restRight).run inputRight cursor) := by
  rw [run_bind, run_bind]
  cases ranLeft : left.run inputLeft cursor with
  | mk outcomeLeft reachedLeft =>
    cases ranRight : right.run inputRight cursor with
    | mk outcomeRight reachedRight =>
      rw [ranLeft, ranRight] at course
      cases outcomeLeft with
      | ok a =>
        cases outcomeRight with
        | ok b =>
          obtain ⟨values, rfl⟩ := course
          exact later a b values inputLeft inputRight agree reachedLeft
        | error fault => exact course.elim
      | error fault =>
        cases outcomeRight with
        | ok b => exact course.elim
        | error other => exact course

theorem Blind.bind {related : α → α → Prop} {relatedRest : β → β → Prop}
    {left right : Decoder ε α} {restLeft restRight : α → Decoder ε β} (first : Blind related left right)
    (later : ∀ a b, related a b → Blind relatedRest (restLeft a) (restRight b)) :
    Blind relatedRest (left >>= restLeft) (right >>= restRight) :=
  fun inputLeft inputRight agree cursor => (first inputLeft inputRight agree cursor).bind agree later

theorem Blind.repeatTimes {related : α → α → Prop} {left right : α → Decoder ε α}
    (body : ∀ a b, related a b → Blind related (left a) (right b)) (count : Nat) {a b : α}
    (values : related a b) :
    Blind related (Decoder.repeatTimes count left a) (Decoder.repeatTimes count right b) := by
  induction count generalizing a b with
  | zero =>
    intro inputLeft inputRight _ cursor
    exact ⟨values, rfl⟩
  | succ count ih => exact (body a b values).bind fun next next' later => ih later

theorem blind_pure {related : α → α → Prop} {a b : α} (values : related a b) :
    Blind related (pure a : Decoder ε α) (pure b) := by
  intro inputLeft inputRight _ cursor
  exact ⟨values, rfl⟩

theorem blind_reject {related : α → α → Prop} (reason : ε) :
    Blind related (Decoder.reject reason : Decoder ε α) (.reject reason) := by
  intro inputLeft inputRight _ cursor
  exact ⟨rfl, rfl⟩

theorem blind_allocate (size : Nat) : Blind Eq (allocate size : Decoder ε Unit) (allocate size) := by
  intro inputLeft inputRight agree cursor
  rw [run_allocate, run_allocate, agree.grants]
  split
  · exact ⟨rfl, rfl⟩
  · exact ⟨rfl, rfl⟩

theorem blind_requireSpace (count : Nat) :
    Blind Eq (requireSpace count : Decoder ε Unit) (requireSpace count) := by
  intro inputLeft inputRight agree cursor
  rw [run_requireSpace, run_requireSpace, agree.size]
  split
  · exact ⟨rfl, rfl⟩
  · exact ⟨rfl, rfl⟩

/-- Unchecked bytes may differ, but only in value. -/
theorem blind_takeBytes (count : Nat) :
    Blind (fun _ _ => True) (takeBytes count : Decoder ε _) (takeBytes count) := by
  intro inputLeft inputRight _ cursor
  exact ⟨trivial, rfl⟩

theorem blind_checkedTake (count : Nat) :
    Blind Eq (checkedTake count : Decoder ε _) (checkedTake count) := by
  intro inputLeft inputRight agree cursor
  rw [checkedTake, run_bind, run_bind, run_requireSpace, run_requireSpace, ← agree.size]
  by_cases short : cursor.position + count > inputLeft.size
  · simp only [short, if_true]
    exact ⟨rfl, rfl⟩
  · simp only [short, if_false, run_takeBytes]
    have sameBytes : inputLeft.window cursor.position count = inputRight.window cursor.position count := by
      apply Vector.ext
      intro index bound
      simp only [Input.window, Vector.getElem_ofFn]
      exact agree.bytes _ (by omega)
    exact ⟨sameBytes, rfl⟩

end Decoder

/-! ## Bytes laid out in memory -/

/-- The memory holds `bytes` from `position` on. -/
def Input.Holds (input : Input) (position : Nat) (bytes : List UInt8) : Prop :=
  ∀ index, (bound : index < bytes.length) → input.byteAt (position + index) = bytes[index]

theorem Input.holds_nil (input : Input) (position : Nat) : input.Holds position [] := by
  intro index bound
  simp at bound

theorem Input.holds_append {input : Input} {position : Nat} {left right : List UInt8} :
    input.Holds position (left ++ right) ↔
      input.Holds position left ∧ input.Holds (position + left.length) right := by
  constructor
  · intro holds
    have first : input.Holds position left := by
      intro index bound
      rw [holds index (by simp; omega), List.getElem_append_left bound]
    have second : input.Holds (position + left.length) right := by
      intro index bound
      rw [Nat.add_assoc, holds (left.length + index) (by simp; omega),
        List.getElem_append_right (by omega)]
      simp
    exact ⟨first, second⟩
  · intro ⟨first, second⟩ index bound
    by_cases inLeft : index < left.length
    · rw [first index inLeft, List.getElem_append_left inLeft]
    · have offset : position + index = position + left.length + (index - left.length) := by omega
      rw [offset, second (index - left.length) (by simp at bound; omega),
        List.getElem_append_right (by omega)]

theorem Input.holds_window (input : Input) (position count : Nat) :
    input.Holds position (input.window position count).toList := by
  intro index bound
  simp [Input.window]

theorem Input.holds_toList {input : Input} {position count : Nat} {bytes : Vector UInt8 count} :
    input.Holds position bytes.toList ↔ input.window position count = bytes := by
  constructor
  · intro holds
    apply Vector.ext
    intro index bound
    have held := holds index (by simpa using bound)
    rw [Vector.getElem_toList] at held
    simpa [Input.window] using held
  · intro window
    rw [← window]
    exact input.holds_window position count

theorem Input.Holds.unique {input : Input} {position : Nat} {left right : List UInt8}
    (first : input.Holds position left) (second : input.Holds position right)
    (sameLength : left.length = right.length) : left = right := by
  apply List.ext_getElem sameLength
  intro index leftBound rightBound
  rw [← first index leftBound, ← second index rightBound]

/-- A buffer of known bytes, with arbitrary memory behind it. -/
def Input.ofBuffer (buffer : List UInt8) (behind : Nat → UInt8) (grants : Nat → Nat → Bool) : Input where
  byteAt offset := if bound : offset < buffer.length then buffer[offset] else behind offset
  size := buffer.length
  grants := grants

@[simp] theorem Input.ofBuffer_size (buffer : List UInt8) (behind : Nat → UInt8)
    (grants : Nat → Nat → Bool) : (Input.ofBuffer buffer behind grants).size = buffer.length := rfl

theorem Input.ofBuffer_holds (buffer : List UInt8) (behind : Nat → UInt8)
    (grants : Nat → Nat → Bool) : (Input.ofBuffer buffer behind grants).Holds 0 buffer := by
  intro index bound
  simp [Input.ofBuffer, bound]

theorem Input.ofBuffer_holds_take {buffer bytes : List UInt8} {behind : Nat → UInt8}
    {grants : Nat → Nat → Bool} (holds : (Input.ofBuffer buffer behind grants).Holds 0 bytes)
    (inside : bytes.length ≤ buffer.length) : buffer.take bytes.length = bytes := by
  have first : (Input.ofBuffer buffer behind grants).Holds 0 (buffer.take bytes.length) := by
    intro index bound
    rw [List.getElem_take]
    exact Input.ofBuffer_holds buffer behind grants index (by simp at bound; omega)
  exact first.unique holds (by simp [inside])

theorem Input.ofBuffer_holds_begins {buffer bytes : List UInt8} {behind : Nat → UInt8}
    {grants : Nat → Nat → Bool} (holds : (Input.ofBuffer buffer behind grants).Holds 0 bytes)
    (inside : bytes.length ≤ buffer.length) : bytes <+: buffer := by
  rw [← Input.ofBuffer_holds_take holds inside]
  exact List.take_prefix _ _

theorem Input.ofBuffer_window {buffer : List UInt8} {behind : Nat → UInt8} {grants : Nat → Nat → Bool}
    {position count : Nat} (inside : position + count ≤ (Input.ofBuffer buffer behind grants).size) :
    ((Input.ofBuffer buffer behind grants).window position count).toList = (buffer.drop position).take count := by
  rw [Input.ofBuffer_size] at inside
  have held : (Input.ofBuffer buffer behind grants).Holds position ((buffer.drop position).take count) := by
    intro index bound
    rw [List.getElem_take, List.getElem_drop]
    have within : position + index < buffer.length := by
      simp at bound
      omega
    simp [Input.ofBuffer, within]
  exact (Input.holds_window _ position count).unique held (by simp; omega)

/-- As far as the buffer goes it alone says what its memory holds, and behind it anything
may follow. -/
theorem Input.ofBuffer_holds_iff {buffer bytes : List UInt8} {grants : Nat → Nat → Bool} :
    (∃ behind, (Input.ofBuffer buffer behind grants).Holds 0 bytes) ↔
      bytes <+: buffer ∨ buffer <+: bytes := by
  constructor
  · rintro ⟨behind, holds⟩
    cases Nat.le_total bytes.length buffer.length with
    | inl inside =>
      left
      exact Input.ofBuffer_holds_begins holds inside
    | inr beyond =>
      right
      -- the bytes begin with all of the buffer
      have split : bytes.take buffer.length ++ bytes.drop buffer.length = bytes := List.take_append_drop _ _
      rw [← split, Input.holds_append] at holds
      have same := holds.1.unique (Input.ofBuffer_holds buffer behind grants) (by simp [beyond])
      rw [← same]
      exact List.take_prefix _ _
  · rintro (begins | begins)
    · obtain ⟨rest, split⟩ := begins
      subst split
      exact ⟨fun _ => 0, (Input.holds_append.mp (Input.ofBuffer_holds (bytes ++ rest) _ _)).1⟩
    · refine ⟨fun offset => bytes.getD offset 0, ?_⟩
      intro index bound
      simp only [Input.ofBuffer, Nat.zero_add]
      split
      next inside => exact List.IsPrefix.getElem begins inside
      next => simp [bound]

/-! ## What has been allocated -/

/-- All these requests have succeeded, the newest first. -/
def Granted (grants : Nat → Nat → Bool) : List Nat → Prop
  | [] => True
  | size :: earlier => grants earlier.length size = true ∧ Granted grants earlier

instance Granted.decidable (grants : Nat → Nat → Bool) : (requests : List Nat) → Decidable (Granted grants requests)
  | [] => .isTrue trivial
  | size :: earlier =>
    have := Granted.decidable grants earlier
    inferInstanceAs (Decidable (grants earlier.length size = true ∧ Granted grants earlier))

/-- What has been asked for before is still recorded. -/
theorem Decoder.requests_suffix {ε α : Type} (decoder : Decoder ε α) (input : Input) (cursor : Cursor) :
    cursor.requests <:+ (decoder.run input cursor).2.requests := by
  induction decoder generalizing cursor with
  | done value => exact List.suffix_rfl
  | reject reason => exact List.suffix_rfl
  | here next ih => exact ih _ _
  | require total next ih =>
    simp only [run]
    split
    · exact List.suffix_rfl
    · exact ih _
  | take count next ih => exact ih _ (cursor.advance count)
  | request size next ih =>
    simp only [run]
    split
    · exact (List.suffix_cons size _).trans (ih (cursor.record size))
    · exact List.suffix_cons size _

theorem Granted.suffix {grants : Nat → Nat → Bool} {requests earlier : List Nat} (granted : Granted grants requests)
    (suffix : earlier <:+ requests) : Granted grants earlier := by
  obtain ⟨later, rfl⟩ := suffix
  induction later with
  | nil => exact granted
  | cons size later ih => exact ih granted.2

/-- A decoder that has a result has the same one wherever the same requests succeed. -/
theorem Decoder.run_of_granted {ε α : Type} {decoder : Decoder ε α} {input : Input} {cursor reached : Cursor}
    {value : α} {grants : Nat → Nat → Bool} (ran : decoder.run input cursor = (.ok value, reached))
    (granted : Granted grants reached.requests) :
    decoder.run { input with grants := grants } cursor = (.ok value, reached) := by
  induction decoder generalizing cursor with
  | done result => exact ran
  | reject reason => cases ran
  | here next ih => exact ih _ ran
  | require total next ih =>
    rw [run] at ran ⊢
    split at ran
    · cases ran
    next inside => rw [if_neg inside, ih ran]
  | take count next ih => exact ih _ ran
  | request size next ih =>
    rw [run] at ran ⊢
    split at ran
    next there =>
      have suffix := next.requests_suffix input (cursor.record size)
      rw [ran] at suffix
      rw [if_pos (granted.suffix suffix).1]
      exact ih ran
    · cases ran

/-- A decoder that has a result has been granted what it asked for. -/
theorem Decoder.granted_of_run {ε α : Type} {decoder : Decoder ε α} {input : Input} {cursor reached : Cursor}
    {value : α} (ran : decoder.run input cursor = (.ok value, reached))
    (granted : Granted input.grants cursor.requests) :
    Granted input.grants reached.requests ∧ cursor.requests.sum ≤ reached.requests.sum := by
  induction decoder generalizing cursor with
  | done result =>
    cases ran
    exact ⟨granted, Nat.le_refl _⟩
  | reject reason => cases ran
  | here next ih => exact ih _ ran granted
  | require total next ih =>
    rw [run] at ran
    split at ran
    · cases ran
    · exact ih ran granted
  | take count next ih =>
    rw [run] at ran
    have later := ih _ ran granted
    exact later
  | request size next ih =>
    rw [run] at ran
    split at ran
    next there =>
      have recorded : Granted input.grants (cursor.record size).requests := ⟨there, granted⟩
      obtain ⟨granted, more⟩ := ih ran recorded
      exact ⟨granted, Nat.le_trans (by simp [Cursor.record]) more⟩
    next => cases ran

end Library.Decoding
