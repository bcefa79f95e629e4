import LeoCoin.Networking

/-! # The calls of `recv_all` and `send_all`

`recvAll` says what a request receives.  Here the two loops are followed call by call: the
offset into the buffer, the count still missing, and the `ssize_t` that comes back, which
both functions keep in an `int`.  They are one loop, around `wrap_recv` and around
`wrap_send`; what it promises whatever the call does comes first, then the two
connections it is used on.
-/

namespace LeoCoin

/-! ## The loop -/

/-- `INT_MAX` -/
def intMax : Nat := 2147483647

/-- `int bytes_recvd = wrap_recv(..)`: the `ssize_t` that was returned, cut down to an `int`. -/
def toInt (returned : Int) : Int := returned.bmod (2 ^ 32)

/-- One call: the offset into the buffer, how much was asked for and what came back. -/
structure Call where
  offset : UInt64
  requested : UInt64
  returned : Int
deriving DecidableEq

/-- The loop after a number of calls.  Without a return code it is still asking for more. -/
structure Transfer (σ : Type) where
  returnCode : Option ReturnCode
  calls : List Call
  state : σ

section Loop

variable {σ : Type} (call : σ → UInt64 → UInt64 → Int × σ) (len : UInt64)

/-- The loop of both functions with `total` of the bytes moved already, for at most `fuel` calls. -/
def transferAll : Nat → UInt64 → σ → Transfer σ
  | 0, total, state => ⟨if total = len then some .success else none, [], state⟩
  | fuel + 1, total, state =>
    if total = len then
      ⟨some .success, [], state⟩
    else
      let (returned, state) := call state total (len - total)
      let made := ⟨total, len - total, returned⟩
      if toInt returned < 0 then
        ⟨some .failureNetworkFunction, [made], state⟩
      else
        -- 0 is no failure either: the loop asks for the same bytes again
        let later := transferAll fuel (total + UInt64.ofInt (toInt returned)) state
        { later with calls := made :: later.calls }

/-- With calls enough the loop ends, and so. -/
def Returns (loop : Nat → Transfer σ) (result : Transfer σ) : Prop :=
  ∃ enough, ∀ fuel, enough ≤ fuel → loop fuel = result

variable {call len}

theorem transferAll_complete (fuel : Nat) (state : σ) :
    transferAll call len fuel len state = ⟨some .success, [], state⟩ := by
  cases fuel with
  | zero => simp [transferAll]
  | succ fuel => simp [transferAll]

theorem transferAll_failed {total : UInt64} {state after : σ} {returned : Int} (missing : total ≠ len)
    (made : call state total (len - total) = (returned, after)) (negative : toInt returned < 0) (fuel : Nat) :
    transferAll call len (fuel + 1) total state =
      ⟨some .failureNetworkFunction, [⟨total, len - total, returned⟩], after⟩ := by
  simp [transferAll, missing, made, negative]

theorem transferAll_moved {total : UInt64} {state after : σ} {returned : Int} (missing : total ≠ len)
    (made : call state total (len - total) = (returned, after)) (moved : 0 ≤ toInt returned) (fuel : Nat) :
    transferAll call len (fuel + 1) total state =
      { transferAll call len fuel (total + UInt64.ofInt (toInt returned)) after with
        calls := ⟨total, len - total, returned⟩ ::
          (transferAll call len fuel (total + UInt64.ofInt (toInt returned)) after).calls } := by
  have continues : ¬ toInt returned < 0 := by omega
  simp [transferAll, missing, made, continues]

/-- A call that fails is the last one, and the function fails then and only then. -/
def Transfer.StopsAtFailure (transfer : Transfer σ) : Prop :=
  (transfer.returnCode = some .failureNetworkFunction ∧
    ∃ earlier last, transfer.calls = earlier ++ [last] ∧ toInt last.returned < 0 ∧
      ∀ made ∈ earlier, 0 ≤ toInt made.returned) ∨
  (transfer.returnCode ≠ some .failureNetworkFunction ∧ ∀ made ∈ transfer.calls, 0 ≤ toInt made.returned)

/-- Induction on the calls. -/
theorem transferAll_stopsAtFailure (fuel : Nat) (total : UInt64) (state : σ) :
    (transferAll call len fuel total state).StopsAtFailure := by
  induction fuel generalizing total state with
  | zero =>
    refine .inr ⟨?_, by simp [transferAll]⟩
    by_cases done : total = len
    · simp [transferAll, done]
    · simp [transferAll, done]
  | succ fuel ih =>
    by_cases done : total = len
    · rw [done, transferAll_complete]
      exact .inr ⟨by simp, by simp⟩
    · cases made : call state total (len - total) with
      | mk returned after =>
        by_cases negative : toInt returned < 0
        · rw [transferAll_failed done made negative]
          exact .inl ⟨rfl, [], _, rfl, negative, by simp⟩
        · have moved : 0 ≤ toInt returned := by omega
          rw [transferAll_moved done made moved]
          rcases ih (total + UInt64.ofInt (toInt returned)) after with
            ⟨failed, earlier, last, calls, negative, positive⟩ | ⟨other, positive⟩
          · refine .inl ⟨failed, ⟨total, len - total, returned⟩ :: earlier, last, by simp [calls], negative, ?_⟩
            simpa [moved] using positive
          · exact .inr ⟨other, by simpa [moved] using positive⟩

theorem Returns.stopsAtFailure {total : UInt64} {state : σ} {result : Transfer σ}
    (returns : Returns (fun fuel => transferAll call len fuel total state) result) : result.StopsAtFailure := by
  obtain ⟨enough, settled⟩ := returns
  rw [← settled enough (Nat.le_refl enough)]
  exact transferAll_stopsAtFailure enough total state

theorem Returns.of_moved {total : UInt64} {state after : σ} {returned : Int} {result : Transfer σ}
    (missing : total ≠ len) (made : call state total (len - total) = (returned, after))
    (moved : 0 ≤ toInt returned)
    (later : Returns (fun fuel => transferAll call len fuel (total + UInt64.ofInt (toInt returned)) after) result) :
    Returns (fun fuel => transferAll call len fuel total state)
      { result with calls := ⟨total, len - total, returned⟩ :: result.calls } := by
  obtain ⟨enough, settled⟩ := later
  refine ⟨enough + 1, fun fuel given => ?_⟩
  cases fuel with
  | zero => omega
  | succ fuel =>
    have rest : enough ≤ fuel := by omega
    simp only at settled ⊢
    rw [transferAll_moved missing made moved, settled fuel rest]

theorem Returns.of_failed {total : UInt64} {state after : σ} {returned : Int} (missing : total ≠ len)
    (made : call state total (len - total) = (returned, after)) (negative : toInt returned < 0) :
    Returns (fun fuel => transferAll call len fuel total state)
      ⟨some .failureNetworkFunction, [⟨total, len - total, returned⟩], after⟩ := by
  refine ⟨1, fun fuel given => ?_⟩
  cases fuel with
  | zero => omega
  | succ fuel => exact transferAll_failed missing made negative fuel

theorem Returns.of_complete (state : σ) :
    Returns (fun fuel => transferAll call len fuel len state) ⟨some .success, [], state⟩ :=
  ⟨0, fun fuel _ => transferAll_complete fuel state⟩

end Loop

theorem toInt_natCast {count : Nat} (small : count ≤ intMax) : toInt count = count := by
  rw [intMax] at small
  rw [toInt]
  exact Int.bmod_eq_of_le (by omega) (by omega)

theorem toNat_ofInt_natCast {count : Nat} (small : count ≤ intMax) :
    (UInt64.ofInt (toInt count)).toNat = count := by
  rw [toInt_natCast small]
  rw [intMax] at small
  rw [UInt64.ofInt, UInt64.toNat_ofNat', Nat.mod_eq_of_lt]
  · omega
  · omega

theorem toNat_advance {total len : UInt64} {count : Nat} (small : count ≤ intMax) (within : total ≤ len)
    (fits : count ≤ len.toNat - total.toNat) :
    (total + UInt64.ofInt (toInt count)).toNat = total.toNat + count ∧
      total + UInt64.ofInt (toInt count) ≤ len := by
  have bounded := len.toNat_lt
  rw [UInt64.le_iff_toNat_le] at within ⊢
  have plain : (total + UInt64.ofInt (toInt count)).toNat = total.toNat + count := by
    rw [UInt64.toNat_add, toNat_ofInt_natCast small, Nat.mod_eq_of_lt]
    omega
  omega

/-! ## Receiving -/

/-- `recv`: the next bytes of the connection, no more than are asked for and than one
call moves at most.  It returns 0 on a closed connection. -/
def Stream.recv (most : Nat) : Stream → Nat → Int × List UInt8 × Stream
  | .closed, _ => (0, [], .closed)
  | .failed, _ => (-1, [], .failed)
  | .chunk bytes rest, requested =>
    -- a call does not reach beyond the chunk that has arrived
    let count := min bytes.length (min requested most)
    (count, bytes.take count, if count = bytes.length then rest else .chunk (bytes.drop count) rest)

/-- The memory behind `buf`, by offset, and the connection it is filled from. -/
structure Receiving where
  memory : Nat → UInt8
  stream : Stream

/-- The memory with these bytes written to an offset. -/
def writeAt (memory : Nat → UInt8) (offset : Nat) (bytes : List UInt8) : Nat → UInt8 :=
  fun address => if offset ≤ address then bytes.getD (address - offset) (memory address) else memory address

/-- `wrap_recv(sockfd, buf + offset, requested, flags)` -/
def wrapRecv (most : Nat) (state : Receiving) (offset requested : UInt64) : Int × Receiving :=
  match state.stream.recv most requested.toNat with
  | (returned, bytes, stream) => (returned, ⟨writeAt state.memory offset.toNat bytes, stream⟩)

/-- `recv_all`, for at most `fuel` calls of `recv`. -/
def recvAllCalls (most : Nat) (len : UInt64) (state : Receiving) (fuel : Nat) : Transfer Receiving :=
  transferAll (wrapRecv most) len fuel 0 state

@[simp] theorem writeAt_nil (memory : Nat → UInt8) (offset : Nat) : writeAt memory offset [] = memory := by
  funext address
  simp [writeAt]

theorem writeAt_append (memory : Nat → UInt8) (offset : Nat) (bytes more : List UInt8) :
    writeAt (writeAt memory offset bytes) (offset + bytes.length) more = writeAt memory offset (bytes ++ more) := by
  funext address
  simp only [writeAt, List.getD_eq_getElem?_getD, List.getElem?_append]
  by_cases below : offset ≤ address
  · by_cases first : address - offset < bytes.length
    · have outside : ¬ offset + bytes.length ≤ address := by omega
      simp [below, first, outside]
    · have inside : offset + bytes.length ≤ address := by omega
      have shift : address - (offset + bytes.length) = address - offset - bytes.length := by omega
      simp [below, first, inside, shift]
  · have outside : ¬ offset + bytes.length ≤ address := by omega
    simp [below, outside]

theorem writeAt_zero (memory : Nat → UInt8) (bytes : List UInt8) :
    writeAt memory 0 bytes = fun address => bytes.getD address (memory address) := by
  funext address
  simp [writeAt]

/-- What is received, behind bytes received before. -/
def prepend (bytes : List UInt8) (outcome : Except Stop (List UInt8) × Stream) :
    Except Stop (List UInt8) × Stream :=
  (outcome.1.map (bytes ++ ·), outcome.2)

theorem prepend_error {bytes : List UInt8} {outcome : Except Stop (List UInt8) × Stream} {stop : Stop} :
    (prepend bytes outcome).1 = .error stop ↔ outcome.1 = .error stop := by
  rcases outcome with ⟨other | received, remaining⟩
  · simp [prepend, Except.map]
  · simp [prepend, Except.map]

theorem recvAll_chunk {bytes : List UInt8} {rest : Stream} {requested count : Nat} (within : count ≤ requested)
    (part : count < bytes.length) :
    recvAll (.chunk bytes rest) requested =
      prepend (bytes.take count) (recvAll (.chunk (bytes.drop count) rest) (requested - count)) := by
  cases requested with
  | zero =>
    have none : count = 0 := by omega
    simp [none, recvAll, prepend, Except.map]
  | succ len =>
    cases missing : len + 1 - count with
    | zero =>
      -- the call took all that was asked for
      have all : count = len + 1 := by omega
      have partly : ¬ bytes.length ≤ len + 1 := by omega
      simp [recvAll, partly, all, prepend, Except.map]
    | succ fewer =>
      rw [recvAll, recvAll, List.length_drop]
      by_cases whole : bytes.length ≤ len + 1
      · -- both requests use the chunk up, and go on behind it
        have rest : bytes.length - count ≤ fewer + 1 := by omega
        have same : fewer + 1 - (bytes.length - count) = len + 1 - bytes.length := by omega
        simp only [whole, rest, if_true, same]
        rcases recvAll _ (len + 1 - bytes.length) with ⟨stop | received, remaining⟩
        · rfl
        · simp [prepend, Except.map, ← List.append_assoc]
      · -- both stop inside it
        have rest : ¬ bytes.length - count ≤ fewer + 1 := by omega
        have sum : count + (fewer + 1) = len + 1 := by omega
        simp [whole, rest, prepend, Except.map, ← List.take_add, sum, List.drop_drop]

/-- How many calls a connection can at most answer with a byte. -/
def Stream.size : Stream → Nat
  | .closed => 0
  | .failed => 0
  | .chunk bytes rest => bytes.length + 1 + rest.size

theorem recv_cases {most requested : Nat} (nonzero : 0 < most) (asked : 0 < requested) (stream : Stream) :
    (stream = .closed ∧ stream.recv most requested = (0, [], .closed)) ∨
    (stream = .failed ∧ stream.recv most requested = (-1, [], .failed)) ∨
    ∃ bytes after, stream.recv most requested = ((bytes.length : Int), bytes, after) ∧
      bytes.length ≤ requested ∧ bytes.length ≤ most ∧ after.size < stream.size ∧
      recvAll stream requested = prepend bytes (recvAll after (requested - bytes.length)) := by
  cases stream with
  | closed => exact .inl ⟨rfl, rfl⟩
  | failed => exact .inr (.inl ⟨rfl, rfl⟩)
  | chunk bytes rest =>
    refine .inr (.inr ?_)
    by_cases whole : bytes.length ≤ min requested most
    · have fits : bytes.length ≤ requested := by omega
      refine ⟨bytes, rest, ?_, fits, by omega, by simp only [Stream.size]; omega, ?_⟩
      -- the call takes the whole chunk
      · simp [Stream.recv, Nat.min_eq_left whole]
      · cases requested with
        | zero => omega
        | succ len =>
          rw [recvAll]
          simp only [fits, if_true]
          rcases recvAll rest (len + 1 - bytes.length) with ⟨stop | received, remaining⟩
          · rfl
          · rfl
    · have part : min requested most < bytes.length := by omega
      have length : (bytes.take (min requested most)).length = min requested most := by
        rw [List.length_take]
        omega
      -- the call takes a part, and the rest of the chunk comes first the next time
      refine ⟨bytes.take (min requested most), .chunk (bytes.drop (min requested most)) rest, ?_, by omega,
        by omega, ?_, ?_⟩
      · simp [Stream.recv, Nat.min_eq_right (Nat.le_of_lt part), Nat.ne_of_lt part, length]
      · simp only [Stream.size, List.length_drop]
        omega
      · rw [length]
        exact recvAll_chunk (by omega) part

theorem toInt_zero : toInt 0 = 0 := by decide

theorem requested_pos {total len : UInt64} (within : total ≤ len) (missing : total ≠ len) :
    0 < (len - total).toNat ∧ (len - total).toNat = len.toNat - total.toNat := by
  have different : total.toNat ≠ len.toNat := fun same => missing (UInt64.toNat_inj.mp same)
  rw [UInt64.toNat_sub_of_le _ _ within]
  rw [UInt64.le_iff_toNat_le] at within
  omega

section Receive

variable {most : Nat} {len : UInt64}

theorem wrapRecv_eq {memory : Nat → UInt8} {stream after : Stream} {offset requested : UInt64} {returned : Int}
    {bytes : List UInt8} (made : stream.recv most requested.toNat = (returned, bytes, after)) :
    wrapRecv most ⟨memory, stream⟩ offset requested =
      (returned, ⟨writeAt memory offset.toNat bytes, after⟩) := by
  simp [wrapRecv, made]

theorem recvAll_exhausted {requested : Nat} (asked : 0 < requested) :
    recvAll .closed requested = (.error .blocked, .closed) ∧
      recvAll .failed requested = (.error (.failure .networkFunction), .failed) := by
  cases requested with
  | zero => cases asked
  | succ len => exact ⟨rfl, rfl⟩

/-- The offset behind a call that returned this many bytes. -/
def advance (total : UInt64) (bytes : List UInt8) : UInt64 := total + UInt64.ofInt (toInt bytes.length)

/-- One turn of the loop of `recv_all`, next to what it does to the request as a whole. -/
theorem wrapRecv_cases (nonzero : 0 < most) (capped : most ≤ intMax) {total : UInt64} (within : total ≤ len)
    (missing : total ≠ len) (memory : Nat → UInt8) (stream : Stream) :
    (stream = .closed ∧ wrapRecv most ⟨memory, stream⟩ total (len - total) = (0, ⟨memory, .closed⟩) ∧
      recvAll stream (len.toNat - total.toNat) = (.error .blocked, .closed)) ∨
    (stream = .failed ∧ wrapRecv most ⟨memory, stream⟩ total (len - total) = (-1, ⟨memory, .failed⟩) ∧
      recvAll stream (len.toNat - total.toNat) = (.error (.failure .networkFunction), .failed)) ∨
    ∃ bytes after, wrapRecv most ⟨memory, stream⟩ total (len - total) =
        ((bytes.length : Int), ⟨writeAt memory total.toNat bytes, after⟩) ∧ 0 ≤ toInt bytes.length ∧
      advance total bytes ≤ len ∧ (advance total bytes).toNat = total.toNat + bytes.length ∧
      after.size < stream.size ∧
      recvAll stream (len.toNat - total.toNat) =
        prepend bytes (recvAll after (len.toNat - (advance total bytes).toNat)) := by
  obtain ⟨asked, requested⟩ := requested_pos within missing
  rcases recv_cases nonzero asked stream with ⟨rfl, made⟩ | ⟨rfl, made⟩ |
    ⟨bytes, after, made, fits, small, smaller, behind⟩
  · rw [wrapRecv_eq made, writeAt_nil, ← requested]
    exact .inl ⟨rfl, rfl, (recvAll_exhausted asked).1⟩
  · rw [wrapRecv_eq made, writeAt_nil, ← requested]
    exact .inr (.inl ⟨rfl, rfl, (recvAll_exhausted asked).2⟩)
  · obtain ⟨advanced, inside⟩ := toNat_advance (small.trans capped) within (requested ▸ fits)
    have moved : 0 ≤ toInt (bytes.length : Int) := by
      rw [toInt_natCast (small.trans capped)]
      omega
    have left : len.toNat - (advance total bytes).toNat = (len - total).toNat - bytes.length := by
      rw [advance]
      omega
    refine .inr (.inr ⟨bytes, after, wrapRecv_eq made, moved, inside, advanced, smaller, ?_⟩)
    rw [left, ← requested, behind]

/-- What `recv_all` receives is in the buffer, and nothing else is written.  Induction on what the
connection still holds. -/
theorem recvAllCalls_received (nonzero : 0 < most) (capped : most ≤ intMax) {stream remaining : Stream}
    {total : UInt64} (memory : Nat → UInt8) {received : List UInt8} (within : total ≤ len)
    (succeeded : recvAll stream (len.toNat - total.toNat) = (.ok received, remaining)) :
    ∃ calls, Returns (fun fuel => transferAll (wrapRecv most) len fuel total ⟨memory, stream⟩)
      ⟨some .success, calls, ⟨writeAt memory total.toNat received, remaining⟩⟩ := by
  induction size : stream.size using Nat.strong_induction_on generalizing stream total memory received with
  | _ size ih =>
    by_cases missing : total = len
    · subst missing
      rw [Nat.sub_self, recvAll] at succeeded
      cases succeeded
      exact ⟨[], by simpa using Returns.of_complete _⟩
    · rcases wrapRecv_cases nonzero capped within missing memory stream with ⟨-, -, blocked⟩ | ⟨-, -, failed⟩ |
        ⟨bytes, after, made, moved, inside, advanced, smaller, behind⟩
      · simp [blocked] at succeeded
      · simp [failed] at succeeded
      · cases later : recvAll after (len.toNat - (advance total bytes).toNat) with
        | mk outcome last =>
          rw [behind, later] at succeeded
          cases outcome with
          | error stop => simp [prepend, Except.map] at succeeded
          | ok rest =>
            -- the bytes of this call, and behind them those of the later ones
            cases succeeded
            obtain ⟨calls, returns⟩ := ih _ (size ▸ smaller) (writeAt memory total.toNat bytes) inside later rfl
            rw [advanced, writeAt_append] at returns
            exact ⟨_, Returns.of_moved missing made moved returns⟩

/-- Where receiving fails, the loop ends with that failure and has written to its buffer only. -/
theorem recvAllCalls_failed (nonzero : 0 < most) (capped : most ≤ intMax) {stream : Stream}
    {total : UInt64} (memory : Nat → UInt8) {code : Failure} (within : total ≤ len)
    (failed : (recvAll stream (len.toNat - total.toNat)).1 = .error (.failure code)) :
    ∃ result, Returns (fun fuel => transferAll (wrapRecv most) len fuel total ⟨memory, stream⟩) result ∧
      result.returnCode = some code.1 ∧
      ∀ address, len.toNat ≤ address → result.state.memory address = memory address := by
  induction size : stream.size using Nat.strong_induction_on generalizing stream total memory with
  | _ size ih =>
    by_cases missing : total = len
    · subst missing
      rw [Nat.sub_self, recvAll] at failed
      cases failed
    · rcases wrapRecv_cases nonzero capped within missing memory stream with ⟨-, -, blocked⟩ | ⟨-, made, broken⟩ |
        ⟨bytes, after, made, moved, inside, advanced, smaller, behind⟩
      · simp [blocked] at failed
      · rw [broken] at failed
        cases failed
        exact ⟨_, Returns.of_failed missing made (by decide), rfl, fun address _ => rfl⟩
      · rw [behind, prepend_error] at failed
        obtain ⟨result, returns, code, outside⟩ :=
          ih _ (size ▸ smaller) (writeAt memory total.toNat bytes) inside failed rfl
        refine ⟨_, Returns.of_moved missing made moved returns, code, fun address beyond => ?_⟩
        rw [outside address beyond, writeAt]
        -- this call has written before `len` only
        have past : bytes.length ≤ address - total.toNat := by
          rw [UInt64.le_iff_toNat_le] at inside
          omega
        simp [List.getD_eq_getElem?_getD, List.getElem?_eq_none past]

/-- Where receiving blocks, no number of calls ends the loop.  Induction on the calls. -/
theorem recvAllCalls_blocked (nonzero : 0 < most) (capped : most ≤ intMax) {stream : Stream}
    {total : UInt64} (memory : Nat → UInt8) (within : total ≤ len)
    (blocked : (recvAll stream (len.toNat - total.toNat)).1 = .error .blocked) (fuel : Nat) :
    (transferAll (wrapRecv most) len fuel total ⟨memory, stream⟩).returnCode = none := by
  have missing : total ≠ len := by
    rintro rfl
    rw [Nat.sub_self, recvAll] at blocked
    cases blocked
  induction fuel generalizing stream total memory with
  | zero => simp [transferAll, missing]
  | succ fuel ih =>
    rcases wrapRecv_cases nonzero capped within missing memory stream with ⟨rfl, made, -⟩ | ⟨-, -, failed⟩ |
        ⟨bytes, after, made, moved, inside, advanced, -, behind⟩
    · -- the call returned 0, and the loop asks for the same again
      rw [transferAll_moved missing made (by decide)]
      have same : total + UInt64.ofInt (toInt 0) = total := by
        rw [toInt_zero]
        exact UInt64.add_zero total
      simp only [same]
      exact ih memory within blocked missing
    · simp [failed] at blocked
    · rw [transferAll_moved missing made moved]
      rw [behind, prepend_error] at blocked
      refine ih _ inside blocked ?_
      intro complete
      rw [advance] at blocked
      rw [complete, Nat.sub_self, recvAll] at blocked
      cases blocked

end Receive

section Closing

variable {most : Nat}

theorem recvAllCalls_complete (nonzero : 0 < most) (capped : most ≤ intMax) {stream : Stream} {len : UInt64}
    {wanted rest : List UInt8} (sized : wanted.length = len.toNat) (delivers : stream.contents = wanted ++ rest)
    (memory : Nat → UInt8) :
    ∃ calls remaining, Returns (recvAllCalls most len ⟨memory, stream⟩)
        ⟨some .success, calls, ⟨writeAt memory 0 wanted, remaining⟩⟩ ∧ remaining.contents = rest := by
  obtain ⟨remaining, received, left⟩ := recvAll_complete delivers
  have whole : recvAll stream (len.toNat - (0 : UInt64).toNat) = (.ok wanted, remaining) := by
    simpa [← sized] using received
  obtain ⟨calls, returns⟩ := recvAllCalls_received nonzero capped memory (UInt64.zero_le) whole
  exact ⟨calls, remaining, returns, left⟩

/-- The same, read off the buffer: it holds the bytes that were wanted, and what lies behind them is untouched. -/
theorem recvAllCalls_fills (nonzero : 0 < most) (capped : most ≤ intMax) {stream : Stream} {len : UInt64}
    {wanted rest : List UInt8} (memory : Nat → UInt8) (sized : wanted.length = len.toNat)
    (delivers : stream.contents = wanted ++ rest) :
    ∃ calls remaining, Returns (recvAllCalls most len ⟨memory, stream⟩)
        ⟨some .success, calls, ⟨fun address => wanted.getD address (memory address), remaining⟩⟩ ∧
      remaining.contents = rest := by
  have filled := recvAllCalls_complete nonzero capped sized delivers memory
  rwa [writeAt_zero] at filled

/-- A closed connection that delivered too little holds the loop for good. -/
theorem recvAllCalls_held (nonzero : 0 < most) (capped : most ≤ intMax) {stream : Stream} {len : UInt64}
    (closes : stream.Closes) (short : stream.contents.length < len.toNat) (memory : Nat → UInt8) (fuel : Nat) :
    (recvAllCalls most len ⟨memory, stream⟩ fuel).returnCode = none := by
  have blocked : (recvAll stream (len.toNat - (0 : UInt64).toNat)).1 = .error .blocked := by
    rcases recvAll_short short with ⟨-, blocked⟩ | ⟨open_, -⟩
    · simpa using blocked
    · exact absurd closes open_
  exact recvAllCalls_blocked nonzero capped memory UInt64.zero_le blocked fuel

/-- `recv_all` returns from a connection that its peer closes, with `SUCCESS` for bytes enough and
a failure for too few, exactly when there are enough. -/
theorem recv_all_returns_iff (nonzero : 0 < most) (capped : most ≤ intMax) {stream : Stream}
    (closes : stream.Closes) (len : UInt64) (memory : Nat → UInt8) :
    (∃ result code, Returns (recvAllCalls most len ⟨memory, stream⟩) result ∧ result.returnCode = some code ∧
        (code = .success ↔ len.toNat ≤ stream.contents.length)) ↔
      len.toNat ≤ stream.contents.length := by
  refine ⟨?_, fun enough => ?_⟩
  · rintro ⟨result, code, ⟨calls, returns⟩, coded, -⟩
    by_contra short
    -- with the calls that it returns after it would still be asking
    have held := recvAllCalls_held nonzero capped closes (Nat.lt_of_not_le short) memory calls
    rw [returns calls (Nat.le_refl calls), coded] at held
    cases held
  · have sized : (stream.contents.take len.toNat).length = len.toNat := by
      rw [List.length_take, Nat.min_eq_left enough]
    obtain ⟨calls, remaining, returns, -⟩ :=
      recvAllCalls_complete nonzero capped sized (List.take_append_drop len.toNat stream.contents).symm memory
    exact ⟨_, .success, returns, rfl, by simp [enough]⟩

theorem recv_all_returns_iff_split :
    (∃ result code, Returns (recvAllCalls 4096 16 ⟨fun _ => 0, .chunk [76, 69] (.chunk [79, 0] .closed)⟩) result ∧
        result.returnCode = some code ∧
        (code = .success ↔ 16 ≤ (Stream.chunk [76, 69] (.chunk [79, 0] .closed)).contents.length)) ↔
      16 ≤ (Stream.chunk [76, 69] (.chunk [79, 0] .closed)).contents.length :=
  recv_all_returns_iff (by decide) (by decide)
    (show (Stream.chunk [76, 69] (.chunk [79, 0] .closed)).Closes from trivial) 16 fun _ => 0

/-- A peer that connects and closes before its header is complete is waited for without end. -/
theorem recv_all_closed_never_returns :
    ¬ ∃ result code, Returns (recvAllCalls 4096 16 ⟨fun _ => 0, .chunk [76, 69, 79, 0] .closed⟩) result ∧
      result.returnCode = some code := by
  rintro ⟨result, code, ⟨calls, returns⟩, coded⟩
  have closes : (Stream.chunk [76, 69, 79, 0] .closed).Closes := trivial
  have short : (Stream.chunk [76, 69, 79, 0] .closed).contents.length < (16 : UInt64).toNat := by decide
  have held := recvAllCalls_held (by decide) (by decide : 4096 ≤ intMax) closes short (fun _ => 0) calls
  rw [returns calls (Nat.le_refl calls), coded] at held
  cases held

end Closing

/-! ## Sending -/

/-- How many calls were made, and the bytes the socket took. -/
structure Sending where
  made : Nat
  transmitted : List UInt8

/-- `wrap_send(sockfd, buf + offset, requested, flags)`: each call finds room for so many bytes,
or fails. -/
def wrapSend (most : Nat) (accepts : Nat → Option Nat) (buf : List UInt8) (state : Sending)
    (offset requested : UInt64) : Int × Sending :=
  match accepts state.made with
  | none => (-1, { state with made := state.made + 1 })
  | some ready =>
    let count := min ready (min requested.toNat most)
    (count, ⟨state.made + 1, state.transmitted ++ (buf.drop offset.toNat).take count⟩)

/-- `send_all`, for at most `fuel` calls of `send`. -/
def sendAllCalls (most : Nat) (accepts : Nat → Option Nat) (buf : List UInt8) (len : UInt64) (fuel : Nat) :
    Transfer Sending :=
  transferAll (wrapSend most accepts buf) len fuel 0 ⟨0, []⟩

/-- Every call that does not fail takes a byte. -/
def Accepting (accepts : Nat → Option Nat) : Prop := ∀ made ready, accepts made = some ready → 0 < ready

/-- How many of `len` bytes the socket has taken after a number of calls, as long as none of them fails. -/
def sentAfter (most : Nat) (accepts : Nat → Option Nat) (len : Nat) : Nat → Nat
  | 0 => 0
  | made + 1 =>
    sentAfter most accepts len made +
      min ((accepts made).getD 0) (min (len - sentAfter most accepts len made) most)

/-- No call fails before the socket has taken everything. -/
def TakesAll (most : Nat) (accepts : Nat → Option Nat) (len : Nat) : Prop :=
  ∀ made, sentAfter most accepts len made < len → accepts made ≠ none

/-- This call fails, the first one to do so, with bytes still to be sent. -/
structure FailsAt (most : Nat) (accepts : Nat → Option Nat) (len failing : Nat) : Prop where
  fails : accepts failing = none
  missing : sentAfter most accepts len failing < len
  first : ∀ earlier < failing, accepts earlier ≠ none

section Send

variable {most : Nat} {accepts : Nat → Option Nat} {message : List UInt8} {len : UInt64}

theorem sentAfter_le (most : Nat) (accepts : Nat → Option Nat) (len made : Nat) :
    sentAfter most accepts len made ≤ len := by
  induction made with
  | zero => exact Nat.zero_le len
  | succ made ih =>
    rw [sentAfter]
    omega

theorem sentAfter_mono (most : Nat) (accepts : Nat → Option Nat) (len : Nat) {made later : Nat}
    (order : made ≤ later) :
    sentAfter most accepts len made ≤ sentAfter most accepts len later := by
  induction order with
  | refl => exact Nat.le_refl _
  | step _ ih =>
    rw [sentAfter]
    omega

/-- What has been sent stays sent, so that only calls made before the end can fail. -/
theorem TakesAll.of_complete {len made : Nat} (complete : sentAfter most accepts len made = len)
    (unfailing : ∀ earlier < made, accepts earlier ≠ none) : TakesAll most accepts len := by
  intro call missing
  rcases Nat.lt_or_ge call made with earlier | later
  · exact unfailing call earlier
  · have grown := sentAfter_mono most accepts len later
    omega

theorem FailsAt.not_takesAll {len failing : Nat} (failed : FailsAt most accepts len failing) :
    ¬ TakesAll most accepts len :=
  fun takes => takes failing failed.missing failed.fails

theorem FailsAt.unique {len failing other : Nat} (failed : FailsAt most accepts len failing)
    (again : FailsAt most accepts len other) : other = failing := by
  rcases Nat.lt_trichotomy other failing with before | same | behind
  · exact absurd again.fails (failed.first other before)
  · exact same
  · exact absurd failed.fails (again.first failing behind)

/-- The message as a whole with no failure, what earlier calls took and no further call behind one. -/
def SendsExactly (most : Nat) (accepts : Nat → Option Nat) (message : List UInt8)
    (result : Transfer Sending) : Prop :=
  (TakesAll most accepts message.length ∧ result.returnCode = some .success ∧
    result.state.transmitted = message) ∨
  ∃ failing, FailsAt most accepts message.length failing ∧ result.returnCode = some .failureNetworkFunction ∧
    result.state.transmitted = message.take (sentAfter most accepts message.length failing) ∧
    result.state.made = failing + 1

/-- The socket has taken the bytes that its answers add up to, all of them unless a call failed.
Induction on the bytes still missing. -/
theorem sendAllCalls_sent (nonzero : 0 < most) (capped : most ≤ intMax) (accepting : Accepting accepts)
    (measured : message.length = len.toNat) (total : UInt64) (made : Nat)
    (sent : total.toNat = sentAfter most accepts message.length made)
    (unfailing : ∀ earlier < made, accepts earlier ≠ none) :
    ∃ result, Returns (fun fuel => transferAll (wrapSend most accepts message) len fuel total
        ⟨made, message.take total.toNat⟩) result ∧ SendsExactly most accepts message result := by
  have within : total ≤ len := by
    have bounded := sentAfter_le most accepts message.length made
    rw [UInt64.le_iff_toNat_le]
    omega
  induction missing : len.toNat - total.toNat using Nat.strong_induction_on generalizing total made with
  | _ missing ih =>
    by_cases incomplete : total = len
    · subst incomplete
      have complete : sentAfter most accepts message.length made = message.length := by omega
      refine ⟨_, Returns.of_complete _, .inl ⟨.of_complete complete unfailing, rfl, ?_⟩⟩
      rw [← measured, List.take_length]
    · obtain ⟨asked, requested⟩ := requested_pos within incomplete
      cases taken : accepts made with
      | none =>
        have called : wrapSend most accepts message ⟨made, message.take total.toNat⟩ total (len - total) =
            (-1, ⟨made + 1, message.take total.toNat⟩) := by
          simp [wrapSend, taken]
        have failed : FailsAt most accepts message.length made := ⟨taken, by omega, unfailing⟩
        refine ⟨_, Returns.of_failed incomplete called (by decide), .inr ⟨made, failed, rfl, ?_, rfl⟩⟩
        rw [← sent]
      | some ready =>
        -- a call that takes nothing would be made for ever, so progress is needed here
        have positive := accepting made ready taken
        obtain ⟨count, counted⟩ : ∃ count, count = min ready (min (len - total).toNat most) := ⟨_, rfl⟩
        have small : count ≤ intMax := by omega
        obtain ⟨advanced, inside⟩ := toNat_advance small within (by omega)
        have called : wrapSend most accepts message ⟨made, message.take total.toNat⟩ total (len - total) =
            ((count : Int), ⟨made + 1, message.take (total.toNat + count)⟩) := by
          simp [wrapSend, taken, List.take_add, counted]
        have moved : 0 ≤ toInt (count : Int) := by
          rw [toInt_natCast small]
          omega
        rw [← advanced] at called
        have further : (total + UInt64.ofInt (toInt count)).toNat =
            sentAfter most accepts message.length (made + 1) := by
          rw [advanced, sentAfter, ← sent, taken, counted, requested, measured]
          rfl
        have unfailing' : ∀ earlier < made + 1, accepts earlier ≠ none := by
          intro earlier before
          rcases Nat.lt_succ_iff_lt_or_eq.mp before with before | rfl
          · exact unfailing earlier before
          · simp [taken]
        obtain ⟨result, returns, outcome⟩ := ih _ (by omega) _ (made + 1) further unfailing' inside rfl
        exact ⟨_, Returns.of_moved incomplete called moved returns, outcome⟩

theorem sendAllCalls_returns (nonzero : 0 < most) (capped : most ≤ intMax) (accepting : Accepting accepts)
    (measured : message.length = len.toNat) :
    ∃ result, Returns (sendAllCalls most accepts message len) result ∧
      SendsExactly most accepts message result :=
  sendAllCalls_sent nonzero capped accepting measured 0 0 rfl (by simp)

theorem SendsExactly.success_iff {result : Transfer Sending} (sends : SendsExactly most accepts message result) :
    result.returnCode = some .success ↔ TakesAll most accepts message.length := by
  rcases sends with ⟨takes, code, -⟩ | ⟨failing, failed, code, -⟩
  · simp [takes, code]
  · simp [failed.not_takesAll, code]

theorem SendsExactly.transmitted {result : Transfer Sending} (sends : SendsExactly most accepts message result)
    (takes : TakesAll most accepts message.length) : result.state.transmitted = message := by
  rcases sends with ⟨-, -, all⟩ | ⟨failing, failed, -⟩
  · exact all
  · exact absurd takes failed.not_takesAll

theorem SendsExactly.failed {result : Transfer Sending} (sends : SendsExactly most accepts message result)
    {failing : Nat} (failed : FailsAt most accepts message.length failing) :
    result.returnCode = some .failureNetworkFunction ∧
      result.state.transmitted = message.take (sentAfter most accepts message.length failing) ∧
      result.state.made = failing + 1 := by
  rcases sends with ⟨takes, -⟩ | ⟨other, failed', code, part, made⟩
  · exact absurd takes failed.not_takesAll
  · cases failed.unique failed'
    exact ⟨code, part, made⟩

/-- `sendAll` is what the calls come to, broken off where one of them failed. -/
theorem sendAllCalls_sendAll (nonzero : 0 < most) (capped : most ≤ intMax) (accepting : Accepting accepts)
    (measured : message.length = len.toNat) :
    ∃ result breaksAfter, Returns (sendAllCalls most accepts message len) result ∧
      result.state.transmitted = (sendAll breaksAfter message).2 ∧
      (result.returnCode = some .success ↔ (sendAll breaksAfter message).1 = .ok ()) ∧
      (result.returnCode = some .failureNetworkFunction ↔
        (sendAll breaksAfter message).1 = .error (.failure .networkFunction)) := by
  obtain ⟨result, returns, ⟨-, code, all⟩ | ⟨failing, -, code, part, -⟩⟩ :=
    sendAllCalls_returns nonzero capped accepting measured
  · exact ⟨result, none, returns, by simp [sendAll, all], by simp [sendAll, code], by simp [sendAll, code]⟩
  · exact ⟨result, some (sentAfter most accepts message.length failing), returns, by simp [sendAll, part],
      by simp [sendAll, code], by simp [sendAll, code]⟩

end Send

/-- The bytes of a message pass both loops whole and in order, however each side is split. -/
theorem send_all_recv_all_exact {most : Nat} (nonzero : 0 < most) (capped : most ≤ intMax) :
    (∀ (accepts : Nat → Option Nat) (message : List UInt8) (len : UInt64), Accepting accepts →
      message.length = len.toNat →
      ∃ result, Returns (sendAllCalls most accepts message len) result ∧ result.StopsAtFailure ∧
        (result.returnCode = some .success ↔ TakesAll most accepts message.length) ∧
        (TakesAll most accepts message.length → result.state.transmitted = message) ∧
        ∀ failing, FailsAt most accepts message.length failing →
          result.returnCode = some .failureNetworkFunction ∧
          result.state.transmitted = message.take (sentAfter most accepts message.length failing) ∧
          result.state.made = failing + 1) ∧
    (∀ (stream : Stream) (wanted rest : List UInt8) (len : UInt64) (memory : Nat → UInt8),
      wanted.length = len.toNat → stream.contents = wanted ++ rest →
      ∃ calls remaining, Returns (recvAllCalls most len ⟨memory, stream⟩)
          ⟨some .success, calls, ⟨fun address => wanted.getD address (memory address), remaining⟩⟩ ∧
        (∀ made ∈ calls, 0 ≤ toInt made.returned) ∧ remaining.contents = rest) ∧
    (∀ (stream : Stream) (len : UInt64) (memory : Nat → UInt8), ¬ stream.Closes →
      stream.contents.length < len.toNat →
      ∃ result, Returns (recvAllCalls most len ⟨memory, stream⟩) result ∧ result.StopsAtFailure ∧
        result.returnCode = some .failureNetworkFunction ∧
        ∀ address, len.toNat ≤ address → result.state.memory address = memory address) ∧
    ∀ (stream : Stream) (header payload rest : List UInt8) (len later : UInt64) (memory more : Nat → UInt8),
      header.length = len.toNat → payload.length = later.toNat → stream.contents = header ++ (payload ++ rest) →
      ∃ calls between calls' remaining, Returns (recvAllCalls most len ⟨memory, stream⟩)
          ⟨some .success, calls, ⟨fun address => header.getD address (memory address), between⟩⟩ ∧
        Returns (recvAllCalls most later ⟨more, between⟩)
          ⟨some .success, calls', ⟨fun address => payload.getD address (more address), remaining⟩⟩ ∧
        remaining.contents = rest := by
  refine ⟨fun accepts message len accepting measured => ?_, fun stream wanted rest len memory sized delivers => ?_,
    fun stream len memory open_ short => ?_, fun stream header payload rest len later memory more sized payloadSized
      delivers => ?_⟩
  · obtain ⟨result, returns, sends⟩ := sendAllCalls_returns nonzero capped accepting measured
    exact ⟨result, returns, returns.stopsAtFailure, sends.success_iff, sends.transmitted,
      fun failing failed => sends.failed failed⟩
  · obtain ⟨calls, remaining, returns, left⟩ := recvAllCalls_fills nonzero capped memory sized delivers
    refine ⟨calls, remaining, returns, ?_, left⟩
    rcases returns.stopsAtFailure with ⟨failed, -⟩ | ⟨-, moved⟩
    · cases failed
    · exact moved
  · have failed : (recvAll stream (len.toNat - (0 : UInt64).toNat)).1 = .error (.failure .networkFunction) := by
      rcases recvAll_short short with ⟨closes, -⟩ | ⟨-, failed⟩
      · exact absurd closes open_
      · simpa using failed
    obtain ⟨result, returns, code, outside⟩ := recvAllCalls_failed nonzero capped memory UInt64.zero_le failed
    exact ⟨result, returns, returns.stopsAtFailure, code, outside⟩
  · obtain ⟨calls, between, returns, left⟩ := recvAllCalls_fills nonzero capped memory sized delivers
    obtain ⟨calls', remaining, returns', left'⟩ :=
      recvAllCalls_fills nonzero capped more payloadSized left
    exact ⟨calls, between, calls', remaining, returns, returns', left'⟩

/-- A socket that takes a byte, then two, then whatever comes. -/
def takesMore (made : Nat) : Option Nat := some (made + 1)

/-- A socket that breaks after its first byte. -/
def takesOne (made : Nat) : Option Nat := if made = 0 then some 1 else none

theorem send_all_recv_all_exact_split :
    (∃ result, Returns (sendAllCalls 2147479552 takesMore [76, 69, 79, 0, 3] 5) result ∧
      result.returnCode = some .success ∧ result.state.transmitted = [76, 69, 79, 0, 3]) ∧
    (∃ result, Returns (sendAllCalls 2147479552 takesOne [76, 69, 79, 0, 3] 5) result ∧
      result.returnCode = some .failureNetworkFunction ∧ result.state.transmitted = [76] ∧
      result.state.made = 2) ∧
    ∃ calls remaining, Returns
        (recvAllCalls 2147479552 4 ⟨fun _ => 0, .chunk [76] (.chunk [69, 79, 0, 3] .closed)⟩)
        ⟨some .success, calls, ⟨fun address => [76, 69, 79, 0].getD address 0, remaining⟩⟩ ∧
      (∀ made ∈ calls, 0 ≤ toInt made.returned) ∧ remaining.contents = [3] := by
  refine ⟨?_, ?_, (send_all_recv_all_exact (by decide) (by decide)).2.1 _ _ _ _ _ rfl rfl⟩
  · have accepting : Accepting takesMore := by
      rintro made ready ⟨⟩
      exact Nat.succ_pos made
    have takes : TakesAll 2147479552 takesMore 5 := fun made _ => by simp [takesMore]
    obtain ⟨result, returns, -, succeeds, whole, -⟩ :=
      (send_all_recv_all_exact (show 0 < 2147479552 by decide) (by decide)).1 takesMore [76, 69, 79, 0, 3] 5
        accepting rfl
    exact ⟨result, returns, succeeds.mpr takes, whole takes⟩
  · have accepting : Accepting takesOne := by
      intro made ready taken
      by_cases first : made = 0
      · rw [takesOne, if_pos first] at taken
        cases taken
        exact Nat.one_pos
      · simp [takesOne, first] at taken
    have breaks : FailsAt 2147479552 takesOne 5 1 := ⟨rfl, by decide, by decide⟩
    obtain ⟨result, returns, -, -, -, failed⟩ :=
      (send_all_recv_all_exact (show 0 < 2147479552 by decide) (by decide)).1 takesOne [76, 69, 79, 0, 3] 5
        accepting rfl
    exact ⟨result, returns, failed 1 breaks⟩

end LeoCoin
