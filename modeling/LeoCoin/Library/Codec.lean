import LeoCoin.Library.Decoding

/-! # Formats

`Reads decoder encode needs accepts` relates a decoder to the byte strings it is
meant to read: a successful run has found `encode value` at the cursor and moved
past it, and where the memory holds the encoding of an accepted value the run
succeeds with that value.  `needs value` is how far the declared size must reach
for that; it can be less than the length of the encoding when a decoder reads
more than it checks.

`Appends` is the same for one round of a loop that collects values in a state, and
`Appends.repeatTimes_sound`, `Appends.repeatTimes_complete` lift it to the loop.
-/

namespace Library.Decoding

variable {ε α σ : Type}

/-- The allocator never refuses. -/
def Input.Generous (input : Input) : Prop := ∀ ordinal size, input.grants ordinal size = true

/-- The allocator of a machine with memory to spare. -/
def grantAll : Nat → Nat → Bool := fun _ _ => true

theorem generous_ofBuffer (buffer : List UInt8) (behind : Nat → UInt8) :
    (Input.ofBuffer buffer behind grantAll).Generous := fun _ _ => rfl

structure Reads (decoder : Decoder ε α) (encode : α → List UInt8) (needs : α → Nat)
    (accepts : α → Prop) : Prop where
  sound : ∀ {input : Input} {cursor reached : Cursor} {value : α},
    decoder.run input cursor = (.ok value, reached) →
    input.Holds cursor.position (encode value) ∧
      reached.position = cursor.position + (encode value).length ∧
      cursor.position + needs value ≤ input.size ∧ accepts value
  complete : ∀ {input : Input} {cursor : Cursor} {value : α}, input.Generous →
    input.Holds cursor.position (encode value) → cursor.position + needs value ≤ input.size →
    accepts value → ∃ reached, decoder.run input cursor = (.ok value, reached)

namespace Reads

variable {decoder : Decoder ε α} {encode : α → List UInt8} {needs : α → Nat} {accepts : α → Prop}

/-- A format that a decoder reads is prefix free: read both encodings from one memory
whose declared size satisfies either. -/
theorem prefix_unique (reads : Reads decoder encode needs accepts) {left right : α}
    (acceptsLeft : accepts left) (acceptsRight : accepts right)
    (begins : encode left <+: encode right) : left = right := by
  let input : Input :=
    { Input.ofBuffer (encode right) (fun _ => 0) grantAll with size := needs left + needs right }
  have heldRight : input.Holds 0 (encode right) :=
    Input.ofBuffer_holds (encode right) (fun _ => 0) grantAll
  have heldLeft : input.Holds 0 (encode left) := by
    obtain ⟨rest, split⟩ := begins
    rw [← split, Input.holds_append] at heldRight
    exact heldRight.1
  have roomLeft : (⟨0, []⟩ : Cursor).position + needs left ≤ input.size := by
    simp only [input]
    omega
  have roomRight : (⟨0, []⟩ : Cursor).position + needs right ≤ input.size := by
    simp only [input]
    omega
  obtain ⟨first, ranLeft⟩ := reads.complete (fun _ _ => rfl) heldLeft roomLeft acceptsLeft
  obtain ⟨second, ranRight⟩ := reads.complete (fun _ _ => rfl) heldRight roomRight acceptsRight
  rw [ranLeft] at ranRight
  cases ranRight
  rfl

end Reads

/-- One round of a loop over a state whose `items` grow by the value read.  `stores` says
which lists of values the state can hold. -/
structure Appends (body : σ → Decoder ε σ) (items : σ → List α) (stores : List α → Prop)
    (encode : α → List UInt8) (needs : α → Nat) (accepts : α → Prop) : Prop where
  sound : ∀ {input : Input} {cursor reached : Cursor} {before after : σ},
    (body before).run input cursor = (.ok after, reached) →
    ∃ value, items after = items before ++ [value] ∧
      input.Holds cursor.position (encode value) ∧
      reached.position = cursor.position + (encode value).length ∧
      cursor.position + needs value ≤ input.size ∧ accepts value
  complete : ∀ {input : Input} {cursor : Cursor} {before : σ} {value : α}, input.Generous →
    input.Holds cursor.position (encode value) → cursor.position + needs value ≤ input.size →
    accepts value → stores (items before ++ [value]) →
    ∃ after reached, (body before).run input cursor = (.ok after, reached) ∧
      items after = items before ++ [value]

/-! ## Records of one width -/

/-- A sequence of records of one positive width can be taken apart again. -/
theorem flatMap_injective {encode : α → List UInt8} {width : Nat} (positive : 0 < width)
    (fixed : ∀ value, (encode value).length = width) (injective : Function.Injective encode) :
    Function.Injective fun values : List α => values.flatMap encode := by
  intro left right same
  simp only at same
  induction left generalizing right with
  | nil =>
    cases right with
    | nil => rfl
    | cons value rest =>
      have length := congrArg List.length same
      simp only [List.flatMap_nil, List.flatMap_cons, List.length_append, List.length_nil, fixed] at length
      omega
  | cons first others ih =>
    cases right with
    | nil =>
      have length := congrArg List.length same
      simp only [List.flatMap_nil, List.flatMap_cons, List.length_append, List.length_nil, fixed] at length
      omega
    | cons value rest =>
      rw [List.flatMap_cons, List.flatMap_cons] at same
      obtain ⟨sameFirst, sameRest⟩ := List.append_inj same (by rw [fixed, fixed])
      rw [injective sameFirst, ih sameRest]

/-! ## Formats that determine their value -/

/-- No memory holds the encodings of two of the values at one place. -/
def Unambiguous (encode : α → List UInt8) (valid : α → Prop) : Prop :=
  ∀ {input : Input} {position : Nat} {left right : α}, valid left → valid right →
    input.Holds position (encode left) → input.Holds position (encode right) → left = right

theorem unambiguous_of_length {encode : α → List UInt8} {width : Nat}
    (fixed : ∀ value, (encode value).length = width) (injective : Function.Injective encode) :
    Unambiguous encode fun _ => True := by
  intro input position left right _ _ holdsLeft holdsRight
  exact injective (holdsLeft.unique holdsRight (by rw [fixed, fixed]))

theorem Unambiguous.flatMap {encode : α → List UInt8} {valid : α → Prop}
    (unambiguous : Unambiguous encode valid) {input : Input} {position : Nat} {left right : List α}
    (counted : left.length = right.length) (validLeft : ∀ value ∈ left, valid value)
    (validRight : ∀ value ∈ right, valid value) (holdsLeft : input.Holds position (left.flatMap encode))
    (holdsRight : input.Holds position (right.flatMap encode)) : left = right := by
  induction left generalizing position right with
  | nil => exact (List.length_eq_zero_iff.mp counted.symm).symm
  | cons first others ih =>
    cases right with
    | nil => cases counted
    | cons value rest =>
      rw [List.flatMap_cons, Input.holds_append] at holdsLeft holdsRight
      obtain ⟨validFirst, validOthers⟩ := List.forall_mem_cons.mp validLeft
      obtain ⟨validValue, validRest⟩ := List.forall_mem_cons.mp validRight
      obtain rfl : first = value := unambiguous validFirst validValue holdsLeft.1 holdsRight.1
      have sameRest := ih (Nat.succ.inj counted) validOthers validRest holdsLeft.2 holdsRight.2
      rw [sameRest]

/-! ## Reading in sequence -/

namespace Reads

variable {β : Type} {decoder : Decoder ε α} {encode : α → List UInt8} {needs : α → Nat}
  {accepts : α → Prop} {rest : α → Decoder ε β} {input : Input} {cursor : Cursor}

theorem sound_bind (reads : Reads decoder encode needs accepts) {final : Cursor} {result : β}
    (succeeded : (decoder >>= rest).run input cursor = (.ok result, final)) :
    ∃ value reached, input.Holds cursor.position (encode value) ∧
      reached.position = cursor.position + (encode value).length ∧
      cursor.position + needs value ≤ input.size ∧ accepts value ∧
      (rest value).run input reached = (.ok result, final) := by
  obtain ⟨value, reached, first, later⟩ := Decoder.run_bind_eq_ok.mp succeeded
  obtain ⟨held, moved, inside, accepted⟩ := reads.sound first
  exact ⟨value, reached, held, moved, inside, accepted, later⟩

theorem complete_bind (reads : Reads decoder encode needs accepts) {value : α}
    (generous : input.Generous) (held : input.Holds cursor.position (encode value))
    (inside : cursor.position + needs value ≤ input.size) (accepted : accepts value) :
    ∃ reached, reached.position = cursor.position + (encode value).length ∧
      (decoder >>= rest).run input cursor = (rest value).run input reached := by
  obtain ⟨reached, first⟩ := reads.complete generous held inside accepted
  obtain ⟨-, moved, -, -⟩ := reads.sound first
  exact ⟨reached, moved, Decoder.run_bind_ok first⟩

theorem complete_frugal (reads : Reads decoder encode needs accepts) (frugal : decoder.Frugal) {value : α}
    (held : input.Holds cursor.position (encode value)) (inside : cursor.position + needs value ≤ input.size)
    (accepted : accepts value) :
    decoder.run input cursor = (.ok value, cursor.advance (encode value).length) := by
  have generous : ({ input with grants := grantAll } : Input).Generous := fun _ _ => rfl
  obtain ⟨reached, ran⟩ := reads.complete generous held inside accepted
  obtain ⟨kept, same⟩ := frugal input cursor
  rw [same grantAll] at ran
  obtain ⟨-, moved, -, -⟩ := reads.sound ran
  rw [ran] at kept
  have arrived : reached = cursor.advance (encode value).length := by
    cases reached
    cases moved
    cases kept
    rfl
  rw [ran, arrived]

end Reads

theorem run_allocate_bind {β : Type} {size : Nat} {rest : Unit → Decoder ε β} {input : Input}
    {cursor : Cursor} (generous : input.Generous) :
    (Decoder.allocate size >>= rest).run input cursor = (rest ()).run input (cursor.record size) := by
  apply Decoder.run_bind_ok
  rw [Decoder.run_allocate, generous]
  rfl

theorem allocate_bind_sound {β : Type} {size : Nat} {rest : Unit → Decoder ε β} {input : Input}
    {cursor final : Cursor} {result : β}
    (succeeded : (Decoder.allocate size >>= rest).run input cursor = (.ok result, final)) :
    (rest ()).run input (cursor.record size) = (.ok result, final) := by
  obtain ⟨_, reached, first, later⟩ := Decoder.run_bind_eq_ok.mp succeeded
  rw [Decoder.run_allocate] at first
  cases granted : input.grants cursor.requests.length size with
  | false => simp [granted] at first
  | true =>
    simp only [granted, if_true, Prod.mk.injEq, true_and] at first
    rw [first]
    exact later

/-! ## Records -/

namespace Reads

variable {γ : Type} {decoder : Decoder ε α} {encode : α → List UInt8} {needs : α → Nat} {accepts : α → Prop}

/-- A record whose first field is read by `decoder` and whose rest depends on it. -/
theorem firstField (reads : Reads decoder encode needs accepts) (field : γ → α) {rest : α → Decoder ε γ}
    {encodeRest : γ → List UInt8} {needsRest : γ → Nat} {acceptsRest : α → γ → Prop}
    (readsRest : ∀ value, Reads (rest value) encodeRest needsRest (acceptsRest value))
    (kept : ∀ value record, acceptsRest value record → field record = value) :
    Reads (decoder >>= rest) (fun record => encode (field record) ++ encodeRest record)
      (fun record => max (needs (field record)) ((encode (field record)).length + needsRest record))
      fun record => accepts (field record) ∧ acceptsRest (field record) record := by
  constructor
  · intro input cursor reached record succeeded
    obtain ⟨value, middle, held, moved, inside, accepted, later⟩ := reads.sound_bind succeeded
    obtain ⟨heldRest, movedRest, insideRest, acceptedRest⟩ := (readsRest value).sound later
    obtain rfl := kept value record acceptedRest
    rw [moved] at heldRest movedRest insideRest
    refine ⟨Input.holds_append.mpr ⟨held, heldRest⟩, ?_, ?_, accepted, acceptedRest⟩
    · rw [movedRest, List.length_append, Nat.add_assoc]
    · omega
  · intro input cursor record generous held inside accepted
    obtain ⟨heldFirst, heldRest⟩ := Input.holds_append.mp held
    obtain ⟨middle, moved, first⟩ := reads.complete_bind generous heldFirst (by omega) accepted.1
    rw [← moved] at heldRest
    obtain ⟨reached, ran⟩ := (readsRest (field record)).complete generous heldRest (by omega) accepted.2
    exact ⟨reached, first.trans ran⟩

theorem lastField (reads : Reads decoder encode needs accepts) (field : γ → α) (build : α → γ)
    (built : ∀ value, field (build value) = value) :
    Reads (decoder >>= fun value => pure (build value)) (fun record => encode (field record))
      (fun record => needs (field record)) fun record => accepts (field record) ∧ build (field record) = record := by
  constructor
  · intro input cursor reached record succeeded
    obtain ⟨value, middle, held, moved, inside, accepted, later⟩ := reads.sound_bind succeeded
    rw [Decoder.run_pure] at later
    cases later
    rw [built]
    exact ⟨held, moved, inside, accepted, rfl⟩
  · intro input cursor record generous held inside accepted
    obtain ⟨middle, -, first⟩ := reads.complete_bind generous held inside accepted.1
    exact ⟨middle, by rw [first, Decoder.run_pure, accepted.2]⟩

theorem allocated (reads : Reads decoder encode needs accepts) (size : Nat) :
    Reads (Decoder.allocate size >>= fun _ => decoder) encode needs accepts := by
  constructor
  · intro input cursor reached value succeeded
    have found := reads.sound (allocate_bind_sound succeeded)
    rw [Cursor.record_position] at found
    exact found
  · intro input cursor value generous held inside accepted
    rw [run_allocate_bind generous]
    rw [← Cursor.record_position cursor size] at held inside
    exact reads.complete generous held inside accepted

theorem checked (reads : Reads decoder encode needs accepts) (refused : Prop) [Decidable refused] (code : ε) :
    Reads (if refused then .reject code else decoder) encode needs fun value => ¬ refused ∧ accepts value := by
  constructor
  · intro input cursor reached value succeeded
    split at succeeded
    · cases succeeded
    next passes =>
      obtain ⟨held, moved, inside, accepted⟩ := reads.sound succeeded
      exact ⟨held, moved, inside, passes, accepted⟩
  · intro input cursor value generous held inside accepted
    rw [if_neg accepted.1]
    exact reads.complete generous held inside accepted.2

theorem congr {otherEncode : α → List UInt8} {otherNeeds : α → Nat} {otherAccepts : α → Prop}
    (reads : Reads decoder encode needs accepts) (sameEncode : ∀ value, encode value = otherEncode value)
    (sameNeeds : ∀ value, needs value = otherNeeds value) (sameAccepts : ∀ value, accepts value ↔ otherAccepts value) :
    Reads decoder otherEncode otherNeeds otherAccepts := by
  obtain rfl := funext sameEncode
  obtain rfl := funext sameNeeds
  obtain rfl := funext fun value => propext (sameAccepts value)
  exact reads

end Reads

theorem reads_checkedTake (count : Nat) :
    Reads (Decoder.checkedTake count : Decoder ε _) Vector.toList (fun _ => count) fun _ => True := by
  constructor
  · intro input cursor reached value succeeded
    rw [Decoder.checkedTake, Decoder.run_bind, Decoder.run_requireSpace] at succeeded
    by_cases short : cursor.position + count > input.size
    · simp [short] at succeeded
    · simp only [short, if_false, Decoder.run_takeBytes, Prod.mk.injEq, Except.ok.injEq] at succeeded
      obtain ⟨rfl, rfl⟩ := succeeded
      exact ⟨input.holds_window _ _, by simp, by omega, trivial⟩
  · intro input cursor value generous held inside _
    rw [Input.holds_toList] at held
    have enough : ¬ cursor.position + count > input.size := by omega
    have ran : (Decoder.checkedTake count : Decoder ε _).run input cursor = (.ok value, cursor.advance count) := by
      rw [Decoder.checkedTake, Decoder.run_bind, Decoder.run_requireSpace]
      simp [enough, held]
    exact ⟨cursor.advance count, ran⟩

/-! ## Demand -/

/-- How far the declared size must reach for a sequence of values.  What the last one
reads beyond its need is not counted. -/
def demand (encode : α → List UInt8) (needs : α → Nat) : List α → Nat
  | [] => 0
  | [last] => needs last
  | value :: next :: rest =>
    max (needs value) ((encode value).length + demand encode needs (next :: rest))

section Demand

variable {encode : α → List UInt8} {needs : α → Nat}

theorem needs_le_demand (value : α) (rest : List α) : needs value ≤ demand encode needs (value :: rest) := by
  cases rest with
  | nil => exact Nat.le_refl _
  | cons next rest => exact Nat.le_max_left _ _

theorem demand_cons_le {value : α} {rest : List α} {room : Nat} (first : needs value ≤ room)
    (later : rest = [] ∨ (encode value).length + demand encode needs rest ≤ room) :
    demand encode needs (value :: rest) ≤ room := by
  cases rest with
  | nil => exact first
  | cons next rest =>
    cases later with
    | inl empty => cases empty
    | inr later => exact Nat.max_le.mpr ⟨first, later⟩

theorem demand_reaches {values : List α} {position size : Nat} (inside : position ≤ size)
    (reaches : values = [] ∨ position + demand encode needs values ≤ size) :
    position + demand encode needs values ≤ size := by
  cases reaches with
  | inl empty =>
    subst empty
    exact inside
  | inr reaches => exact reaches

theorem demand_le {values : List α} (own : ∀ value ∈ values, needs value ≤ (encode value).length) :
    demand encode needs values ≤ (values.flatMap encode).length := by
  induction values with
  | nil => exact Nat.le_refl _
  | cons value rest ih =>
    have first := own value (by simp)
    have later := ih fun other member => own other (by simp [member])
    rw [List.flatMap_cons, List.length_append]
    exact demand_cons_le (by omega) (.inr (by omega))

theorem demand_cons (value : α) {rest : List α} (more : rest ≠ []) :
    demand encode needs (value :: rest) =
      max (needs value) ((encode value).length + demand encode needs rest) := by
  cases rest with
  | nil => exact absurd rfl more
  | cons next rest => rfl

theorem demand_eq {values : List α} (own : ∀ value ∈ values, needs value = (encode value).length) :
    demand encode needs values = (values.flatMap encode).length := by
  induction values with
  | nil => rfl
  | cons value rest ih =>
    have first := own value (by simp)
    have later := ih fun other member => own other (by simp [member])
    by_cases more : rest = []
    · subst more
      simpa [demand] using first
    · rw [demand_cons value more, later, first, List.flatMap_cons, List.length_append]
      omega

/-- The last value's need, on top of everything before it. -/
theorem demand_concat {before : List α} {last : α}
    (own : ∀ value ∈ before, needs value ≤ (encode value).length) :
    demand encode needs (before ++ [last]) = (before.flatMap encode).length + needs last := by
  induction before with
  | nil => simp [demand]
  | cons value rest ih =>
    have first := own value (by simp)
    have later := ih fun other member => own other (by simp [member])
    rw [List.cons_append, demand_cons value (by simp), later, List.flatMap_cons, List.length_append]
    omega

/-- Whatever the others need, the last one needs its own behind all of them. -/
theorem le_demand_concat (encode : α → List UInt8) (needs : α → Nat) (before : List α) (last : α) :
    (before.flatMap encode).length + needs last ≤ demand encode needs (before ++ [last]) := by
  induction before with
  | nil => simp [demand]
  | cons value rest ih =>
    rw [List.cons_append, demand_cons value (by simp), List.flatMap_cons, List.length_append]
    omega

end Demand

/-! ## Loops that collect -/

namespace Appends

variable {body : σ → Decoder ε σ} {items : σ → List α} {stores : List α → Prop}
  {encode : α → List UInt8} {needs : α → Nat} {accepts : α → Prop}

/-- A loop that ran to its end has read `count` encodings one after the other. -/
theorem repeatTimes_sound (appends : Appends body items stores encode needs accepts)
    {input : Input} {cursor final : Cursor} {count : Nat} {start result : σ}
    (succeeded : (Decoder.repeatTimes count body start).run input cursor = (.ok result, final)) :
    ∃ values, items result = items start ++ values ∧ values.length = count ∧
      input.Holds cursor.position (values.flatMap encode) ∧
      final.position = cursor.position + (values.flatMap encode).length ∧
      (values = [] ∨ cursor.position + demand encode needs values ≤ input.size) ∧
      ∀ value ∈ values, accepts value := by
  induction count generalizing start cursor with
  | zero =>
    cases succeeded
    exact ⟨[], by simp, rfl, input.holds_nil _, by simp, .inl rfl, by simp⟩
  | succ count ih =>
    obtain ⟨next, reached, first, rest⟩ := Decoder.run_bind_eq_ok.mp succeeded
    obtain ⟨value, grown, held, moved, inside, accepted⟩ := appends.sound first
    obtain ⟨values, collected, counted, heldRest, movedRest, insideRest, acceptedRest⟩ := ih rest
    have items_ : items result = items start ++ value :: values := by
      rw [collected, grown, List.append_assoc, List.singleton_append]
    have heldAll : input.Holds cursor.position ((value :: values).flatMap encode) := by
      rw [List.flatMap_cons, Input.holds_append, ← moved]
      exact ⟨held, heldRest⟩
    have movedAll : final.position = cursor.position + ((value :: values).flatMap encode).length := by
      rw [movedRest, moved, List.flatMap_cons, List.length_append, Nat.add_assoc]
    -- the rounds that follow may need less than this one has already passed
    have room : demand encode needs (value :: values) ≤ input.size - cursor.position := by
      apply demand_cons_le (by omega)
      cases insideRest with
      | inl empty => exact .inl empty
      | inr insideRest => exact .inr (by omega)
    have acceptedAll : ∀ other ∈ value :: values, accepts other :=
      List.forall_mem_cons.mpr ⟨accepted, acceptedRest⟩
    exact ⟨value :: values, items_, by rw [List.length_cons, counted], heldAll, movedAll,
      .inr (by omega), acceptedAll⟩

/-- A loop succeeds where the memory holds the encodings of accepted values and the
declared size meets their demand.  Induction on the values, oldest first. -/
theorem repeatTimes_complete (appends : Appends body items stores encode needs accepts)
    {input : Input} {cursor : Cursor} {values : List α} (start : σ) (generous : input.Generous)
    (held : input.Holds cursor.position (values.flatMap encode))
    (inside : values = [] ∨ cursor.position + demand encode needs values ≤ input.size)
    (accepted : ∀ value ∈ values, accepts value)
    (room : ∀ before after, values = before ++ after → stores (items start ++ before)) :
    ∃ result final, (Decoder.repeatTimes values.length body start).run input cursor =
        (.ok result, final) ∧ items result = items start ++ values := by
  induction values generalizing cursor start with
  | nil => exact ⟨start, cursor, rfl, by simp⟩
  | cons value rest ih =>
    rw [List.flatMap_cons, Input.holds_append] at held
    have inside : cursor.position + demand encode needs (value :: rest) ≤ input.size := by
      cases inside with
      | inl empty => cases empty
      | inr inside => exact inside
    have reaches : needs value ≤ demand encode needs (value :: rest) := needs_le_demand value rest
    obtain ⟨next, reached, first, grown⟩ := appends.complete generous held.1 (by omega)
      (accepted value (by simp)) (room [value] rest (by simp))
    -- soundness says how far the round moved, and that it read this value
    obtain ⟨other, grownAgain, -, moved, -, -⟩ := appends.sound first
    have same : other = value := by simpa [grown] using grownAgain.symm
    rw [same] at moved
    have insideRest : rest = [] ∨ reached.position + demand encode needs rest ≤ input.size := by
      by_cases more : rest = []
      · exact .inl more
      · rw [demand_cons value more] at inside
        exact .inr (by omega)
    have roomRest : ∀ before after, rest = before ++ after → stores (items next ++ before) := by
      intro before after split
      rw [grown, List.append_assoc]
      exact room ([value] ++ before) after (by simp [split])
    rw [← moved] at held
    obtain ⟨result, final, later, collected⟩ := ih next held.2 insideRest
      (fun other member => accepted other (by simp [member])) roomRest
    have items_ : items result = items start ++ value :: rest := by
      rw [collected, grown, List.append_assoc, List.singleton_append]
    exact ⟨result, final, Decoder.run_bind_eq_ok.mpr ⟨next, reached, first, later⟩, items_⟩

theorem repeatTimes_reads (appends : Appends body items stores encode needs accepts)
    {input : Input} {cursor : Cursor} {values : List α} (start : σ) (generous : input.Generous)
    (held : input.Holds cursor.position (values.flatMap encode))
    (inside : values = [] ∨ cursor.position + demand encode needs values ≤ input.size)
    (accepted : ∀ value ∈ values, accepts value)
    (room : ∀ before after, values = before ++ after → stores (items start ++ before)) :
    ∃ result final, (Decoder.repeatTimes values.length body start).run input cursor = (.ok result, final) ∧
      items result = items start ++ values ∧
      final.position = cursor.position + (values.flatMap encode).length := by
  obtain ⟨result, final, ran, collected⟩ :=
    appends.repeatTimes_complete start generous held inside accepted room
  obtain ⟨others, grown, -, -, moved, -, -⟩ := appends.repeatTimes_sound ran
  have same := collected
  rw [grown, List.append_cancel_left_eq] at same
  exact ⟨result, final, ran, collected, same ▸ moved⟩

end Appends

/-! ## Truncated encodings -/

/-- A buffer with the first part of some bytes looks like all of them declared as short as it. -/
theorem agree_of_begins {short whole : List UInt8} (begins : short <+: whole) (behind : Nat → UInt8)
    (grants : Nat → Nat → Bool) :
    Decoder.Agree { Input.ofBuffer whole (fun _ => 0) grants with size := short.length }
      (Input.ofBuffer short behind grants) := by
  refine ⟨rfl, rfl, ?_⟩
  intro offset inside
  have inShort : offset < short.length := inside
  have inWhole : offset < whole.length := Nat.lt_of_lt_of_le inShort begins.length_le
  simp only [Input.ofBuffer, inShort, inWhole, dite_true]
  exact (begins.getElem inShort).symm

section Prefixes

variable {decoder : Decoder ε α} {encode : α → List UInt8} {needs : α → Nat} {accepts : α → Prop}
  {related : α → α → Prop} {value : α} {short : List UInt8} {grants : Nat → Nat → Bool}

/-- A buffer that holds the first part of an encoding, as much of it as the decoder checks for, is
accepted: what is read beyond may be anything. -/
theorem Reads.prefix_accepted (reads : Reads decoder encode needs accepts)
    (blind : Decoder.Blind related decoder decoder) (accepted : accepts value) (begins : short <+: encode value)
    (enough : needs value ≤ short.length) (behind : Nat → UInt8)
    (generous : ∀ ordinal size, grants ordinal size = true) :
    ∃ result, (decoder.run (Input.ofBuffer short behind grants) ⟨0, []⟩).1 = .ok result := by
  let declared : Input := { Input.ofBuffer (encode value) (fun _ => 0) grants with size := short.length }
  have held : declared.Holds (⟨0, []⟩ : Cursor).position (encode value) :=
    Input.ofBuffer_holds (encode value) (fun _ => 0) grants
  have room : (⟨0, []⟩ : Cursor).position + needs value ≤ declared.size := by
    rw [Nat.zero_add]
    exact enough
  have granted : declared.Generous := generous
  obtain ⟨reached, succeeds⟩ := reads.complete granted held room accepted
  have course := blind declared _ (agree_of_begins begins behind grants) ⟨0, []⟩
  rw [succeeds] at course
  cases ran : decoder.run (Input.ofBuffer short behind grants) ⟨0, []⟩ with
  | mk outcome final =>
    rw [ran] at course
    cases outcome with
    | ok result => exact ⟨result, rfl⟩
    | error fault => exact course.elim

/-- A buffer that holds the first part of an encoding, less of it than the decoder checks for, is
refused as truncated.  The whole encoding is laid behind the declared size, where it does not show. -/
theorem Reads.truncated (reads : Reads decoder encode needs accepts)
    (blind : Decoder.Blind related decoder decoder) (accepted : accepts value) (begins : short <+: encode value)
    (lacks : short.length < needs value) (behind : Nat → UInt8)
    (generous : ∀ ordinal size, grants ordinal size = true) :
    (decoder.run (Input.ofBuffer short behind grants) ⟨0, []⟩).1 = .error .truncated := by
  let whole : Input := { Input.ofBuffer (encode value) (fun _ => 0) grants with size := needs value }
  let declared : Input := { whole with size := short.length }
  have held : whole.Holds (⟨0, []⟩ : Cursor).position (encode value) :=
    Input.ofBuffer_holds (encode value) (fun _ => 0) grants
  have room : (⟨0, []⟩ : Cursor).position + needs value ≤ whole.size := Nat.le_of_eq (Nat.zero_add _)
  have granted : whole.Generous := generous
  obtain ⟨reached, succeeds⟩ := reads.complete granted held room accepted
  have course := blind declared _ (agree_of_begins begins behind grants) ⟨0, []⟩
  have truncated : (decoder.run declared ⟨0, []⟩).1 = .error .truncated := by
    cases Decoder.run_resize decoder whole ⟨0, []⟩ (Nat.le_of_lt lacks) with
    | inl same =>
      -- then the shorter run would have succeeded too, against its own checks
      rw [succeeds] at same
      have needed : 0 + needs value ≤ short.length := (reads.sound same).2.2.1
      omega
    | inr truncated => exact truncated
  cases ranShort : decoder.run declared ⟨0, []⟩ with
  | mk outcomeShort finalShort =>
    cases ran : decoder.run (Input.ofBuffer short behind grants) ⟨0, []⟩ with
    | mk outcome final =>
      rw [ranShort] at truncated course
      rw [ran] at course
      dsimp only at truncated
      subst truncated
      cases outcome with
      | ok value => exact course.elim
      | error fault =>
        obtain ⟨rfl, -⟩ := course
        rfl

end Prefixes

/-! ## Records of a fixed width -/

/-- A decoder that takes `width` bytes whatever they are, or stops as truncated where there are fewer. -/
def Decoder.Fixed (decoder : Decoder ε α) (width : Nat) : Prop :=
  ∀ input cursor, cursor.position ≤ input.size →
    (cursor.position + width ≤ input.size ∧ ∃ value, decoder.run input cursor = (.ok value, cursor.advance width)) ∨
    (input.size < cursor.position + width ∧ (decoder.run input cursor).1 = .error .truncated)

namespace Decoder

theorem fixed_pure (value : α) : (pure value : Decoder ε α).Fixed 0 :=
  fun _ _ inside => .inl ⟨inside, value, rfl⟩

theorem fixed_checkedTake (count : Nat) : (checkedTake count : Decoder ε _).Fixed count := by
  intro input cursor _
  rw [checkedTake, run_bind, run_requireSpace]
  by_cases short : cursor.position + count > input.size
  · exact .inr ⟨short, by simp [short]⟩
  · exact .inl ⟨by omega, input.window cursor.position count, by simp [short]⟩

theorem Fixed.bind {β : Type} {decoder : Decoder ε α} {rest : α → Decoder ε β} {width later : Nat}
    (first : decoder.Fixed width) (next : ∀ value, (rest value).Fixed later) :
    (decoder >>= rest).Fixed (width + later) := by
  intro input cursor inside
  rcases first input cursor inside with ⟨room, value, ran⟩ | ⟨short, truncated⟩
  · rw [run_bind_ok ran]
    rcases next value input (cursor.advance width) room with ⟨roomLater, final, ranLater⟩ | ⟨short, truncated⟩
    · rw [Cursor.advance_position, Nat.add_assoc] at roomLater
      have arrived : (cursor.advance width).advance later = cursor.advance (width + later) := by
        simp [Cursor.advance, Nat.add_assoc]
      exact .inl ⟨roomLater, final, by rw [ranLater, arrived]⟩
    · rw [Cursor.advance_position, Nat.add_assoc] at short
      exact .inr ⟨short, truncated⟩
  · exact .inr ⟨by omega, run_bind_error truncated⟩

end Decoder

end Library.Decoding
