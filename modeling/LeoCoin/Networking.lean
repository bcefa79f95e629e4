import LeoCoin.Serialization

/-! # Commands and sockets

The command header and the commands that carry a length and a payload, then
`recv_all` over a connection that hands out its bytes in chunks of any size.

The lengths here are `uint64_t` sums of numbers that come from the network, so they
are kept as `UInt64`, and the one comparison that adds a declared length to an
offset is taken modulo `2 ^ 64`, as the code computes it.
-/

namespace LeoCoin

open Library.Decoding

/-! ## Command headers -/

inductive Command where
  | ok : Command
  | error : Command
  | registerPeer : Command
  | sendPeerList : Command
  | sendBlockchain : Command
deriving DecidableEq, Repr

/-- The value of the `command_t` enumerator. -/
def Command.code : Command → UInt32
  | .ok => 0
  | .error => 1
  | .registerPeer => 2
  | .sendPeerList => 3
  | .sendBlockchain => 4

/-- `COMMAND_PREFIX`: the bytes of `"LEO\0"`. -/
def commandPrefix : Vector UInt8 4 := #v[76, 69, 79, 0]

structure CommandHeader where
  commandPrefix : Vector UInt8 4
  command : UInt32
  commandLen : UInt64
deriving DecidableEq

/-- `COMMAND_HEADER_INITIALIZER`, with the command filled in. -/
def CommandHeader.initial (command : Command) : CommandHeader :=
  ⟨LeoCoin.commandPrefix, command.code, 0⟩

/-- `command_header_serialize` -/
def commandHeaderSerialize (order : ByteOrder) (commandHeader : CommandHeader) :
    Except Failure (List UInt8) :=
  if commandHeader.commandPrefix ≠ commandPrefix then
    .error .invalidCommandPrefix
  else
    .ok (commandHeader.commandPrefix.toList ++
      (storeUInt32 order (htonl order commandHeader.command)).toList ++
      writeUInt64 order commandHeader.commandLen)

/-- The prefix loop: one byte is read and compared at a time. -/
def comparePrefix : List UInt8 → Decoder Failure Unit
  | [] => .done ()
  | expected :: rest => do
    let byte ← Decoder.takeBytes 1
    if byte[0] ≠ expected then .reject .invalidCommandPrefix else comparePrefix rest

/-- `ntohl(*(uint32_t *)next_spot_in_buffer)` after its bounds check. -/
def readUInt32 (order : ByteOrder) : Decoder Failure UInt32 := do
  let p ← Decoder.checkedTake 4
  return ntohl order (loadUInt32 order p)

/-- `command_header_deserialize` -/
def commandHeaderDeserialize (order : ByteOrder) : Decoder Failure CommandHeader := do
  Decoder.requireSpace 4
  comparePrefix commandPrefix.toList
  let command ← readUInt32 order
  let commandLen ← readUInt64 order
  return ⟨commandPrefix, command, commandLen⟩

/-! ## Commands with a payload -/

/-- `command_send_blockchain_t`: the payload is as long as the length field says. -/
structure CommandSendBlockchain where
  header : CommandHeader
  blockchainDataLen : UInt64
  blockchainData : List UInt8
  measured : blockchainData.length = blockchainDataLen.toNat

/-- `command_send_blockchain_serialize`: the buffer and `*buffer_size`.  It allocates the
length field, the header and the whole message. -/
def commandSendBlockchainSerialize (grants : Nat → Nat → Bool) (order : ByteOrder)
    (command : CommandSendBlockchain) : Except Failure (List UInt8 × UInt64) :=
  if command.header.command ≠ Command.sendBlockchain.code then
    .error .invalidCommand
  else if !grants 0 8 then
    .error .couldNotMalloc
  else if !grants 1 16 then
    .error .couldNotMalloc
  else do
    let header ← commandHeaderSerialize order
      { command.header with commandLen := 8 + command.blockchainDataLen }
    let totalSize := 16 + 8 + command.blockchainDataLen
    if grants 2 totalSize.toNat then
      return (header ++ writeUInt64 order command.blockchainDataLen ++ command.blockchainData, totalSize)
    else
      .error .couldNotMalloc

/-- `total_read_size += len; if (total_read_size > buffer_size)`: a 64-bit sum. -/
def requireWrappedSpace (count : UInt64) : Decoder Failure Unit :=
  .here fun position => .require ((position + count.toNat) % 2 ^ 64) (.done ())

/-- `command_send_blockchain_deserialize` -/
def commandSendBlockchainDeserialize (order : ByteOrder) : Decoder Failure CommandSendBlockchain := do
  let header ← commandHeaderDeserialize order
  if header.command ≠ Command.sendBlockchain.code then
    .reject .invalidCommand
  else do
    let blockchainDataLen ← readUInt64 order
    requireWrappedSpace blockchainDataLen
    Decoder.allocate blockchainDataLen.toNat
    let blockchainData ← Decoder.takeBytes blockchainDataLen.toNat
    return ⟨header, blockchainDataLen, blockchainData.toList, by simp⟩

/-- The return code of a deserializer on a buffer, or what it filled in. -/
def decodeBuffer {α : Type} (decoder : Decoder Failure α) (input : Input) : Except Failure α :=
  match (decoder.run input ⟨0, []⟩).1 with
  | .ok value => .ok value
  | .error fault => .error (Failure.ofFault fault)

/-! ## Their formats -/

/-- The 16 bytes of a header. -/
def encodeCommandHeader (commandHeader : CommandHeader) : List UInt8 :=
  commandHeader.commandPrefix.toList ++ (splitBytes32 commandHeader.command).toList ++
    (splitBytes commandHeader.commandLen).toList

/-- The header is one of the protocol's. -/
def CommandHeader.Prefixed (commandHeader : CommandHeader) : Prop :=
  commandHeader.commandPrefix = LeoCoin.commandPrefix

@[simp] theorem encodeCommandHeader_length (commandHeader : CommandHeader) :
    (encodeCommandHeader commandHeader).length = 16 := by
  simp [encodeCommandHeader]

theorem encodeCommandHeader_injective : Function.Injective encodeCommandHeader := by
  intro left right same
  simp only [encodeCommandHeader, List.append_assoc] at same
  obtain ⟨samePrefix, same⟩ := List.append_inj same (by simp)
  obtain ⟨sameCommand, sameLen⟩ := List.append_inj same (by simp)
  cases left
  cases right
  obtain rfl := Vector.toList_inj.mp samePrefix
  obtain rfl := splitBytes32_injective (Vector.toList_inj.mp sameCommand)
  obtain rfl := splitBytes_injective (Vector.toList_inj.mp sameLen)
  rfl

theorem command_header_serialize_eq (order : ByteOrder) {commandHeader : CommandHeader}
    (prefixed : commandHeader.Prefixed) :
    commandHeaderSerialize order commandHeader = .ok (encodeCommandHeader commandHeader) := by
  have same : ¬ commandHeader.commandPrefix ≠ commandPrefix := not_not_intro prefixed
  rw [commandHeaderSerialize, if_neg same, storeUInt32_htonl, writeUInt64_eq]
  rfl

/-- The prefix loop succeeds exactly on the expected bytes. -/
theorem comparePrefix_ok {expected : List UInt8} {input : Input} {cursor reached : Cursor} :
    (comparePrefix expected).run input cursor = (.ok (), reached) ↔
      input.Holds cursor.position expected ∧ reached = cursor.advance expected.length := by
  induction expected generalizing cursor with
  | nil =>
    simp [comparePrefix, Input.holds_nil, Cursor.advance, eq_comm]
  | cons first rest ih =>
    have window : input.Holds cursor.position (#v[first] : Vector UInt8 1).toList ↔
        input.window cursor.position 1 = #v[first] := Input.holds_toList
    simp only [Vector.toList_mk] at window
    rw [comparePrefix, Decoder.run_bind, Decoder.run_takeBytes]
    by_cases same : (input.window cursor.position 1)[0] = first
    · have held : input.window cursor.position 1 = #v[first] := by
        apply Vector.ext
        intro index bound
        obtain rfl : index = 0 := by omega
        exact same
      -- the byte compared now, then the rest
      have split : input.Holds cursor.position (first :: rest) ↔
          input.Holds (cursor.position + 1) rest := by
        rw [show first :: rest = [first] ++ rest from rfl, Input.holds_append, window]
        simp [held]
      simp only [same, ne_eq, not_true, if_false]
      rw [ih, split, Cursor.advance_position]
      simp only [Cursor.advance, List.length_cons, Nat.add_assoc, Nat.add_comm rest.length]
    · have differs : ¬ input.Holds cursor.position (first :: rest) := by
        intro held
        rw [show first :: rest = [first] ++ rest from rfl, Input.holds_append, window] at held
        exact same (by rw [held.1]; rfl)
      simp [same, differs]

theorem readUInt32_reads (order : ByteOrder) :
    Reads (readUInt32 order) (fun data => (splitBytes32 data).toList) (fun _ => 4) fun _ => True := by
  have bytes : Reads (Decoder.checkedTake 4 : Decoder Failure _) _ _ _ := reads_checkedTake 4
  have half := bytes.lastField splitBytes32 (fun p => ntohl order (loadUInt32 order p)) fun p => by simp
  exact half.congr (fun _ => rfl) (fun _ => rfl) fun data => by simp

theorem commandHeaderDeserialize_reads (order : ByteOrder) :
    Reads (commandHeaderDeserialize order) encodeCommandHeader (fun _ => 16)
      CommandHeader.Prefixed := by
  have half := readUInt32_reads order
  have word := readUInt64_reads order
  constructor
  · intro input cursor reached value succeeded
    obtain ⟨_, start, room, rest⟩ := Decoder.run_bind_eq_ok.mp succeeded
    obtain ⟨_, behind, compared, rest⟩ := Decoder.run_bind_eq_ok.mp rest
    obtain ⟨command, c1, held1, moved1, -, -, rest⟩ := half.sound_bind rest
    obtain ⟨commandLen, c2, held2, moved2, inside, -, rest⟩ := word.sound_bind rest
    rw [Decoder.run_pure] at rest
    cases rest
    -- the check of the prefix does not move the cursor
    rw [Decoder.run_requireSpace] at room
    obtain ⟨-, rfl⟩ := Prod.mk.inj room
    obtain ⟨held, rfl⟩ := comparePrefix_ok.mp compared
    simp only [Cursor.advance_position, Vector.length_toList] at held held1 held2 moved1 moved2 inside
    rw [moved1] at held2
    have heldHeader : input.Holds cursor.position (encodeCommandHeader ⟨commandPrefix, command, commandLen⟩) := by
      simp only [encodeCommandHeader, List.append_assoc, Input.holds_append, Vector.length_toList]
      exact ⟨held, held1, held2⟩
    exact ⟨heldHeader, by rw [encodeCommandHeader_length]; omega, by omega, rfl⟩
  · intro input cursor value generous held inside prefixed
    simp only [encodeCommandHeader, List.append_assoc, Input.holds_append, Vector.length_toList] at held
    obtain ⟨held, held1, held2⟩ := held
    rw [show value.commandPrefix = commandPrefix from prefixed] at held
    have room : (Decoder.requireSpace 4 : Decoder Failure Unit).run input cursor = (.ok (), cursor) := by
      rw [Decoder.run_requireSpace, if_neg (by omega)]
    have compared := comparePrefix_ok.mpr ⟨held, rfl⟩
    have start : (cursor.advance commandPrefix.toList.length).position = cursor.position + 4 := by
      simp
    rw [← start] at held1 held2
    obtain ⟨c1, moved1, first⟩ := half.complete_bind generous held1 (by omega) trivial
    simp only [Cursor.advance_position, Vector.length_toList] at moved1 held2
    rw [← moved1] at held2
    obtain ⟨c2, -, second⟩ := word.complete_bind generous held2 (by omega) trivial
    refine ⟨c2, ?_⟩
    rw [commandHeaderDeserialize, Decoder.run_bind_ok room, Decoder.run_bind_ok compared, first,
      second, ← show value.commandPrefix = commandPrefix from prefixed]
    rfl

section Buffers

variable {α : Type} {decoder : Decoder Failure α} {encode : α → List UInt8} {needs : α → Nat}
  {accepts : α → Prop} {bytes : List UInt8} {behind : Nat → UInt8} {grants : Nat → Nat → Bool} {value : α}

theorem begins_of_decodeBuffer (reads : Reads decoder encode needs accepts)
    (checked : (encode value).length ≤ needs value)
    (decoded : decodeBuffer decoder (Input.ofBuffer bytes behind grants) = .ok value) :
    encode value <+: bytes ∧ accepts value := by
  rw [decodeBuffer] at decoded
  cases ran : decoder.run (Input.ofBuffer bytes behind grants) ⟨0, []⟩ with
  | mk outcome reached =>
    rw [ran] at decoded
    cases outcome with
    | error fault => cases decoded
    | ok value =>
      cases decoded
      obtain ⟨held, -, inside, accepted⟩ := reads.sound ran
      rw [Nat.zero_add, Input.ofBuffer_size] at inside
      exact ⟨Input.ofBuffer_holds_begins held (by omega), accepted⟩

theorem decodeBuffer_of_begins (reads : Reads decoder encode needs accepts) (behind : Nat → UInt8)
    (generous : ∀ ordinal size, grants ordinal size = true) (inside : needs value ≤ bytes.length)
    (begins : encode value <+: bytes) (accepted : accepts value) :
    decodeBuffer decoder (Input.ofBuffer bytes behind grants) = .ok value := by
  have generous : (Input.ofBuffer bytes behind grants).Generous := generous
  have room : (⟨0, []⟩ : Cursor).position + needs value ≤ (Input.ofBuffer bytes behind grants).size := by
    rw [Nat.zero_add]
    exact inside
  have held : (Input.ofBuffer bytes behind grants).Holds (⟨0, []⟩ : Cursor).position (encode value) := by
    obtain ⟨rest, rfl⟩ := begins
    exact (Input.holds_append.mp (Input.ofBuffer_holds _ _ _)).1
  obtain ⟨reached, ran⟩ := reads.complete generous held room accepted
  rw [decodeBuffer, ran]

end Buffers

/-- The header deserializer accepts 16 bytes exactly when they encode a header of the protocol. -/
theorem decode_command_header (order : ByteOrder) {bytes : List UInt8} (behind : Nat → UInt8)
    {commandHeader : CommandHeader} (whole : bytes.length = 16) :
    decodeBuffer (commandHeaderDeserialize order) (Input.ofBuffer bytes behind grantAll) =
        .ok commandHeader ↔
      bytes = encodeCommandHeader commandHeader ∧ commandHeader.Prefixed := by
  have reads := commandHeaderDeserialize_reads order
  have length := encodeCommandHeader_length commandHeader
  constructor
  · intro decoded
    obtain ⟨begins, prefixed⟩ := begins_of_decodeBuffer reads (Nat.le_of_eq length) decoded
    exact ⟨(begins.eq_of_length (by rw [whole, length])).symm, prefixed⟩
  · intro encoded
    obtain ⟨rfl, prefixed⟩ := encoded
    exact decodeBuffer_of_begins reads behind (fun _ _ => rfl) (Nat.le_of_eq length.symm)
      (List.prefix_refl _) prefixed

/-- The whole message of a `command_send_blockchain_t`. -/
def encodeCommandSendBlockchain (command : CommandSendBlockchain) : List UInt8 :=
  encodeCommandHeader command.header ++
    ((splitBytes command.blockchainDataLen).toList ++ command.blockchainData)

/-- The command as it is sent, with the header's length field filled in. -/
def CommandSendBlockchain.framed (command : CommandSendBlockchain) : CommandSendBlockchain :=
  { command with header := { command.header with commandLen := 8 + command.blockchainDataLen } }

/-! ## Connections -/

/-- What a connection will still deliver: chunks, each as one `recv` with room enough
returns it, and then either nothing more (`recv` returns 0 from then on) or an error. -/
inductive Stream where
  | closed : Stream
  | failed : Stream
  | chunk (bytes : List UInt8) (rest : Stream) : Stream

/-- The bytes still to be delivered, in order. -/
def Stream.contents : Stream → List UInt8
  | .closed => []
  | .failed => []
  | .chunk bytes rest => bytes ++ rest.contents

/-- Why a request ended early: a return code, a receive loop that never ends, or memory
used outside its allocation, after which C promises nothing. -/
inductive Stop where
  | failure (code : Failure) : Stop
  | blocked : Stop
  | undefined : Stop
deriving DecidableEq

/-- `recv_all` for `len` bytes: what it received and what the connection still holds.
A closed connection keeps returning 0, and the loop has no exit for that. -/
def recvAll : Stream → Nat → Except Stop (List UInt8) × Stream
  | stream, 0 => (.ok [], stream)
  | .closed, _ + 1 => (.error .blocked, .closed)
  | .failed, _ + 1 => (.error (.failure .networkFunction), .failed)
  | .chunk bytes rest, len + 1 =>
    if bytes.length ≤ len + 1 then
      match recvAll rest (len + 1 - bytes.length) with
      | (.ok received, remaining) => (.ok (bytes ++ received), remaining)
      | (.error stop, remaining) => (.error stop, remaining)
    else
      (.ok (bytes.take (len + 1)), .chunk (bytes.drop (len + 1)) rest)

/-- `send_all`: what arrives in the socket, and whether it was everything. -/
def sendAll (breaksAfter : Option Nat) (message : List UInt8) : Except Stop Unit × List UInt8 :=
  match breaksAfter with
  | none => (.ok (), message)
  | some count => (.error (.failure .networkFunction), message.take count)

/-- The peer closes the connection behind the bytes it delivers. -/
def Stream.Closes : Stream → Prop
  | .closed => True
  | .failed => False
  | .chunk _ rest => rest.Closes

/-- Received bytes are the next ones of the connection, all that was asked for, and what is left
ends as the connection does.  Induction along the calls of `recv`. -/
theorem recvAll_received {stream remaining : Stream} {len : Nat} {received : List UInt8}
    (succeeded : recvAll stream len = (.ok received, remaining)) :
    received.length = len ∧ stream.contents = received ++ remaining.contents ∧
      (remaining.Closes ↔ stream.Closes) := by
  fun_induction recvAll stream len generalizing received remaining with
  | case1 stream =>
    cases succeeded
    exact ⟨rfl, rfl, Iff.rfl⟩
  | case2 len => cases succeeded
  | case3 len => cases succeeded
  | case4 len bytes rest whole more after later ih =>
    -- the chunk is used up, and the rest comes from later ones
    cases succeeded
    obtain ⟨count, split, closes⟩ := ih later
    rw [Stream.contents, split, List.length_append, List.append_assoc]
    exact ⟨by omega, rfl, closes⟩
  | case5 len bytes rest whole stop after later ih => cases succeeded
  | case6 len bytes rest partly =>
    cases succeeded
    rw [Stream.contents, Stream.contents, List.length_take, ← List.append_assoc, List.take_append_drop]
    exact ⟨by omega, rfl, Iff.rfl⟩

theorem recvAll_sound {stream remaining : Stream} {len : Nat} {received : List UInt8}
    (succeeded : recvAll stream len = (.ok received, remaining)) :
    received.length = len ∧ stream.contents = received ++ remaining.contents := by
  obtain ⟨count, split, -⟩ := recvAll_received succeeded
  exact ⟨count, split⟩

theorem recvAll_closes {stream remaining : Stream} {len : Nat} {received : List UInt8}
    (succeeded : recvAll stream len = (.ok received, remaining)) : remaining.Closes ↔ stream.Closes := by
  obtain ⟨-, -, closes⟩ := recvAll_received succeeded
  exact closes

/-- However the bytes are split into chunks, enough of them are received. -/
theorem recvAll_complete {stream : Stream} {wanted rest : List UInt8}
    (delivers : stream.contents = wanted ++ rest) :
    ∃ remaining, recvAll stream wanted.length = (.ok wanted, remaining) ∧ remaining.contents = rest := by
  induction stream generalizing wanted with
  | closed =>
    obtain ⟨rfl, rfl⟩ := List.append_eq_nil_iff.mp delivers.symm
    exact ⟨.closed, rfl, rfl⟩
  | failed =>
    obtain ⟨rfl, rfl⟩ := List.append_eq_nil_iff.mp delivers.symm
    exact ⟨.failed, rfl, rfl⟩
  | chunk bytes later ih =>
    cases wanted with
    | nil => exact ⟨.chunk bytes later, rfl, delivers⟩
    | cons first others =>
      rw [List.length_cons, recvAll]
      cases List.append_eq_append_iff.mp delivers with
      | inl ends =>
        -- the chunk is used up; the rest of what is wanted comes from later ones
        obtain ⟨more, split, continues⟩ := ends
        have count := congrArg List.length split
        rw [List.length_cons, List.length_append] at count
        have whole : bytes.length ≤ others.length + 1 := by omega
        have missing : others.length + 1 - bytes.length = more.length := by omega
        obtain ⟨remaining, received, left⟩ := ih continues
        simp only [whole, if_true]
        rw [missing, received, split]
        exact ⟨remaining, rfl, left⟩
      | inr goesOn =>
        obtain ⟨extra, split, leaves⟩ := goesOn
        have count := congrArg List.length split
        rw [List.length_append, List.length_cons] at count
        cases extra with
        | nil =>
          -- the chunk ends exactly where the wanted bytes end
          have whole : bytes.length ≤ others.length + 1 := by simp [count]
          have missing : others.length + 1 - bytes.length = 0 := by simp [count]
          have nothing : later.contents = [] ++ rest := leaves.symm
          obtain ⟨remaining, received, left⟩ := ih nothing
          simp only [whole, if_true]
          rw [missing, show (0 : Nat) = ([] : List UInt8).length from rfl, received]
          exact ⟨remaining, by simp [split], left⟩
        | cons next others' =>
          have partly : ¬ bytes.length ≤ others.length + 1 := by
            rw [count]
            simp
          simp only [partly, if_false]
          -- the chunk holds more than is wanted
          rw [split, ← List.length_cons (a := first), List.take_left, List.drop_left]
          exact ⟨_, rfl, leaves.symm⟩

/-- Receiving fails when the connection delivers too little, and never ends when it is closed. -/
theorem recvAll_short {stream : Stream} {len : Nat} (short : stream.contents.length < len) :
    (stream.Closes ∧ (recvAll stream len).1 = .error .blocked) ∨
      (¬ stream.Closes ∧ (recvAll stream len).1 = .error (.failure .networkFunction)) := by
  induction stream generalizing len with
  | closed =>
    cases len with
    | zero => cases short
    | succ len => exact .inl ⟨trivial, rfl⟩
  | failed =>
    cases len with
    | zero => cases short
    | succ len => exact .inr ⟨id, rfl⟩
  | chunk bytes rest ih =>
    rw [Stream.contents, List.length_append] at short
    cases len with
    | zero => cases short
    | succ len =>
      have whole : bytes.length ≤ len + 1 := by omega
      have missing : rest.contents.length < len + 1 - bytes.length := by omega
      have later := ih missing
      rw [recvAll]
      simp only [whole, if_true, Stream.Closes]
      cases received : recvAll rest (len + 1 - bytes.length) with
      | mk outcome remaining =>
        rw [received] at later
        cases outcome with
        | ok received => simp at later
        | error stop => simpa using later

theorem recvAll_defined (stream : Stream) (len : Nat) : (recvAll stream len).1 ≠ .error .undefined := by
  by_cases short : stream.contents.length < len
  · rcases recvAll_short short with ⟨-, blocked⟩ | ⟨-, failed⟩
    · simp [blocked]
    · simp [failed]
  · obtain ⟨remaining, received, -⟩ := recvAll_complete (List.take_append_drop len stream.contents).symm
    rw [List.length_take, Nat.min_eq_left (Nat.le_of_not_lt short)] at received
    simp [received]

theorem sendAll_prefix (breaksAfter : Option Nat) (message : List UInt8) :
    (sendAll breaksAfter message).2 <+: message := by
  cases breaksAfter with
  | none => exact List.prefix_refl message
  | some count => exact List.take_prefix count message

end LeoCoin
