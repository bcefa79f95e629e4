import LeoCoin.Networking

/-! # Receiving a command

Four functions receive a command: the two sides of the consensus exchange and the
two sides of peer discovery.  Each takes 16 bytes into a buffer of that size, reads
the header in them, grows the buffer by the length the header declares and receives
that many more bytes behind the header.

Every use of the receive buffer is recorded with the size the buffer has at that
moment, so that running past it can be told from staying inside it.
-/

namespace LeoCoin

open Library.Decoding

/-- The functions that receive a command. -/
inductive ReceivePath where
  | handleOneConsensusRequest : ReceivePath
  | runConsensusPeerClientOnce : ReceivePath
  | handleOnePeerDiscoveryRequest : ReceivePath
  | discoverPeersOnce : ReceivePath
deriving DecidableEq

/-- The command the function waits for. -/
def ReceivePath.command : ReceivePath → Command
  | .handleOneConsensusRequest => .sendBlockchain
  | .runConsensusPeerClientOnce => .sendBlockchain
  | .handleOnePeerDiscoveryRequest => .registerPeer
  | .discoverPeersOnce => .sendPeerList

/-- Whether the function looks at the result of `realloc` before it goes on. -/
def ReceivePath.checksRealloc : ReceivePath → Bool
  | .handleOneConsensusRequest => false
  | .runConsensusPeerClientOnce => false
  | .handleOnePeerDiscoveryRequest => false
  | .discoverPeersOnce => true

/-- The allocator as a receive path meets it: `calloc` for the header, then `realloc`. -/
structure ReceiveMemory where
  calloc : Bool
  realloc : Nat → Bool

def ReceiveMemory.plenty : ReceiveMemory := ⟨true, fun _ => true⟩

/-- A use of the receive buffer: `recv_all` into it, or a deserializer told its size. -/
inductive BufferUse where
  | recvAll (capacity offset len : Nat) : BufferUse
  | deserialize (size received : Nat) : BufferUse
deriving DecidableEq

/-- What is received fits behind the offset, and a deserializer is told what was received. -/
def BufferUse.Sound : BufferUse → Prop
  | .recvAll capacity offset len => offset + len ≤ capacity
  | .deserialize size received => size = received

structure Received where
  outcome : Except Stop (List UInt8)
  remaining : Stream
  uses : List BufferUse

/-- From the `realloc` to the call of the payload's deserializer.  A pointer 16 bytes into
`NULL`, or into a buffer that the wrapped sum made smaller, is outside every object. -/
def receivePayload (path : ReceivePath) (memory : ReceiveMemory) (recvBuf : List UInt8)
    (commandLen : UInt64) (stream : Stream) : Received :=
  let size := 16 + commandLen
  if memory.realloc size.toNat then
    let use := BufferUse.recvAll size.toNat 16 commandLen.toNat
    if 16 + commandLen.toNat ≤ size.toNat then
      match recvAll stream commandLen.toNat with
      | (.ok payload, remaining) =>
        ⟨.ok (recvBuf ++ payload), remaining,
          [use, .deserialize size.toNat (recvBuf.length + payload.length)]⟩
      | (.error stop, remaining) => ⟨.error stop, remaining, [use]⟩
    else
      ⟨.error .undefined, stream, [use]⟩
  else if path.checksRealloc then
    ⟨.error (.failure .couldNotMalloc), stream, []⟩
  else
    ⟨.error .undefined, stream, [.recvAll 0 16 commandLen.toNat]⟩

/-- The receiving part of the four functions.  `recv_all` fails with
`FAILURE_NETWORK_FUNCTION` only, the code that three of them put in its place. -/
def receiveCommand (path : ReceivePath) (memory : ReceiveMemory) (order : ByteOrder)
    (stream : Stream) : Received :=
  if !memory.calloc then
    ⟨.error (.failure .couldNotMalloc), stream, []⟩
  else
    match recvAll stream 16 with
    | (.error stop, remaining) => ⟨.error stop, remaining, [.recvAll 16 0 16]⟩
    | (.ok recvBuf, remaining) =>
      let uses := [BufferUse.recvAll 16 0 16, .deserialize 16 recvBuf.length]
      match decodeBuffer (commandHeaderDeserialize order)
          (Input.ofBuffer recvBuf (fun _ => 0) grantAll) with
      | .error code => ⟨.error (.failure code), remaining, uses⟩
      | .ok commandHeader =>
        if commandHeader.command ≠ path.command.code then
          ⟨.error (.failure .invalidCommand), remaining, uses⟩
        else
          let payload := receivePayload path memory recvBuf commandHeader.commandLen remaining
          { payload with uses := uses ++ payload.uses }

/-! ## The header -/

/-- The connection begins with a header that the path goes on with. -/
structure Announces (path : ReceivePath) (stream : Stream) (commandHeader : CommandHeader) : Prop where
  prefixed : commandHeader.Prefixed
  command : commandHeader.command = path.command.code
  delivered : encodeCommandHeader commandHeader <+: stream.contents

section Header

variable {path : ReceivePath} {memory : ReceiveMemory} {order : ByteOrder} {stream : Stream}
  {commandHeader : CommandHeader}

theorem receiveCommand_announced (memory : ReceiveMemory) (order : ByteOrder) (granted : memory.calloc = true)
    (announced : Announces path stream commandHeader) :
    ∃ remaining, stream.contents = encodeCommandHeader commandHeader ++ remaining.contents ∧
      (remaining.Closes ↔ stream.Closes) ∧
      receiveCommand path memory order stream =
        let payload := receivePayload path memory (encodeCommandHeader commandHeader)
          commandHeader.commandLen remaining
        { payload with uses := [.recvAll 16 0 16, .deserialize 16 16] ++ payload.uses } := by
  obtain ⟨rest, delivers⟩ := announced.delivered
  obtain ⟨remaining, received, left⟩ := recvAll_complete delivers.symm
  rw [encodeCommandHeader_length] at received
  have decoded := (decode_command_header order (fun _ => 0)
    (encodeCommandHeader_length commandHeader)).mpr ⟨rfl, announced.prefixed⟩
  have wanted : ¬ commandHeader.command ≠ path.command.code := not_not_intro announced.command
  refine ⟨remaining, by rw [left, delivers], recvAll_closes received, ?_⟩
  -- no exit of the header part is taken
  simp only [receiveCommand, granted, Bool.not_true, Bool.false_eq_true, if_false, received, decoded,
    wanted, encodeCommandHeader_length]

theorem receiveCommand_silent (silent : ∀ commandHeader, ¬ Announces path stream commandHeader) :
    ∀ use ∈ (receiveCommand path memory order stream).uses, use.Sound := by
  have header : BufferUse.Sound (.recvAll 16 0 16) := Nat.le_refl 16
  rw [receiveCommand]
  cases memory.calloc with
  | false => simp
  | true =>
    cases received : recvAll stream 16 with
    | mk outcome remaining =>
      cases outcome with
      | error stop => simpa using header
      | ok recvBuf =>
        obtain ⟨count, delivers⟩ := recvAll_sound received
        have told : BufferUse.Sound (.deserialize 16 recvBuf.length) := count.symm
        cases decoded : decodeBuffer (commandHeaderDeserialize order)
            (Input.ofBuffer recvBuf (fun _ => 0) grantAll) with
        | error code => simpa [decoded] using ⟨header, told⟩
        | ok commandHeader =>
          obtain ⟨rfl, prefixed⟩ := (decode_command_header order _ count).mp decoded
          have unwanted : commandHeader.command ≠ path.command.code := fun command =>
            silent commandHeader ⟨prefixed, command, _, delivers.symm⟩
          rw [encodeCommandHeader_length] at told
          simpa [decoded, unwanted] using ⟨header, told⟩

end Header

/-! ## The payload -/

/-- The buffer is grown to the sum of the two lengths, or its absence is noticed. -/
def GrowsBuffer (path : ReceivePath) (memory : ReceiveMemory) (commandLen : UInt64) : Prop :=
  if memory.realloc (16 + commandLen).toNat then 16 + commandLen.toNat < 2 ^ 64
  else path.checksRealloc = true

theorem growsBuffer_plenty_iff (path : ReceivePath) (commandLen : UInt64) :
    GrowsBuffer path .plenty commandLen ↔ 16 + commandLen.toNat < 2 ^ 64 := by
  simp [GrowsBuffer, ReceiveMemory.plenty]

/-- The sum is at least the exact one only if it is the exact one. -/
theorem toNat_le_wrapped_sum (commandLen : UInt64) :
    16 + commandLen.toNat ≤ (16 + commandLen).toNat ↔ 16 + commandLen.toNat < 2 ^ 64 := by
  have bound := (16 + commandLen).toNat_lt
  constructor
  · intro fits
    omega
  · intro small
    have wrapped : (16 + commandLen).toNat = (16 + commandLen.toNat) % 2 ^ 64 := UInt64.toNat_add 16 commandLen
    rw [wrapped, Nat.mod_eq_of_lt small]

/-- Receiving the payload keeps to the buffer exactly when the buffer has grown by enough. -/
theorem receivePayload_sound_iff {path : ReceivePath} {memory : ReceiveMemory} {recvBuf : List UInt8}
    {commandLen : UInt64} (stream : Stream) (whole : recvBuf.length = 16) :
    (∀ use ∈ (receivePayload path memory recvBuf commandLen stream).uses, use.Sound) ↔
      GrowsBuffer path memory commandLen := by
  have sum := toNat_le_wrapped_sum commandLen
  have atMost : (16 + commandLen).toNat ≤ 16 + commandLen.toNat := by
    rw [UInt64.toNat_add]
    exact Nat.mod_le _ _
  rw [receivePayload, GrowsBuffer]
  dsimp only
  -- from here on only the two facts about the sum matter
  generalize (16 + commandLen).toNat = size at sum atMost ⊢
  cases granted : memory.realloc size with
  | false =>
    cases checks : path.checksRealloc with
    | true => simp
    | false => simp [BufferUse.Sound]
  | true =>
    simp only [if_true]
    by_cases fits : 16 + commandLen.toNat ≤ size
    · simp only [fits, if_true, sum.mp fits, iff_true]
      have room : BufferUse.Sound (.recvAll size 16 commandLen.toNat) := fits
      cases received : recvAll stream commandLen.toNat with
      | mk outcome remaining =>
        cases outcome with
        | error stop => simpa using room
        | ok payload =>
          obtain ⟨count, -⟩ := recvAll_sound received
          have told : BufferUse.Sound (.deserialize size (recvBuf.length + payload.length)) := by
            rw [BufferUse.Sound, whole, count]
            omega
          simpa using ⟨room, told⟩
    · have wraps : ¬ 16 + commandLen.toNat < 2 ^ 64 := fun small => fits (sum.mpr small)
      simp only [fits, if_false, List.mem_singleton, forall_eq, BufferUse.Sound, wraps]

/-- A receive path keeps to its buffer exactly when, for the header it goes on with, the
buffer is granted at a size that did not wrap, or its refusal is noticed. -/
theorem receive_within_buffer_iff (path : ReceivePath) (memory : ReceiveMemory) (order : ByteOrder)
    (stream : Stream) :
    (∀ use ∈ (receiveCommand path memory order stream).uses, use.Sound) ↔
      ∀ commandHeader, memory.calloc = true → Announces path stream commandHeader →
        GrowsBuffer path memory commandHeader.commandLen := by
  constructor
  · intro sound commandHeader granted announced
    obtain ⟨remaining, -, -, received⟩ := receiveCommand_announced memory order granted announced
    rw [received] at sound
    apply (receivePayload_sound_iff remaining (encodeCommandHeader_length commandHeader)).mp
    intro use member
    exact sound use (List.mem_append_right _ member)
  · intro grows
    by_cases silent : ∀ commandHeader, ¬ Announces path stream commandHeader
    · exact receiveCommand_silent silent
    · obtain ⟨commandHeader, announced⟩ := not_forall_not.mp silent
      cases granted : memory.calloc with
      | false => simp [receiveCommand, granted]
      | true =>
        obtain ⟨remaining, -, -, received⟩ := receiveCommand_announced memory order granted announced
        have payload := (receivePayload_sound_iff remaining
          (encodeCommandHeader_length commandHeader)).mpr (grows commandHeader granted announced)
        rw [received]
        intro use member
        cases List.mem_append.mp member with
        | inl inHeader =>
          simp only [List.mem_cons, List.not_mem_nil, or_false] at inHeader
          cases inHeader with
          | inl first =>
            subst first
            exact Nat.le_refl 16
          | inr second =>
            subst second
            rfl
        | inr inPayload => exact payload use inPayload

/-! ## Whole messages -/

/-- The connection begins with a message that the path goes on with: an announced header and
as many bytes as it declares. -/
structure Message (path : ReceivePath) (stream : Stream) (commandHeader : CommandHeader)
    (payload : List UInt8) : Prop where
  prefixed : commandHeader.Prefixed
  command : commandHeader.command = path.command.code
  measured : payload.length = commandHeader.commandLen.toNat
  delivered : encodeCommandHeader commandHeader ++ payload <+: stream.contents

section Message

variable {path : ReceivePath} {memory : ReceiveMemory} {order : ByteOrder} {stream : Stream}
  {commandHeader : CommandHeader} {payload : List UInt8}

theorem Message.announces (message : Message path stream commandHeader payload) :
    Announces path stream commandHeader :=
  ⟨message.prefixed, message.command, (List.prefix_append _ _).trans message.delivered⟩

theorem Message.onPath {other : ReceivePath} (message : Message path stream commandHeader payload)
    (same : path.command = other.command) : Message other stream commandHeader payload :=
  ⟨message.prefixed, same ▸ message.command, message.measured, message.delivered⟩

/-- A message that the buffer can grow for is received whole. -/
theorem Message.received (message : Message path stream commandHeader payload) (granted : memory.calloc = true)
    (grows : memory.realloc (16 + commandHeader.commandLen).toNat = true)
    (small : 16 + commandHeader.commandLen.toNat < 2 ^ 64) :
    (receiveCommand path memory order stream).outcome = .ok (encodeCommandHeader commandHeader ++ payload) := by
  obtain ⟨remaining, split, -, received⟩ := receiveCommand_announced memory order granted message.announces
  obtain ⟨rest, delivers⟩ := message.delivered
  rw [← delivers, List.append_assoc] at split
  have fits := (toNat_le_wrapped_sum commandHeader.commandLen).mpr small
  obtain ⟨left, taken, -⟩ := recvAll_complete (List.append_cancel_left split).symm
  rw [message.measured] at taken
  rw [received, receivePayload]
  simp only [grows, if_true, fits, taken]

theorem message_of_received {recvBuf : List UInt8}
    (received : (receiveCommand path memory order stream).outcome = .ok recvBuf) :
    ∃ commandHeader payload, Message path stream commandHeader payload ∧
      recvBuf = encodeCommandHeader commandHeader ++ payload := by
  rw [receiveCommand] at received
  split at received
  · cases received
  · split at received
    · cases received
    next headerBytes remaining first =>
      obtain ⟨count, delivers⟩ := recvAll_sound first
      split at received
      · cases received
      next commandHeader decoded =>
        obtain ⟨rfl, prefixed⟩ := (decode_command_header order _ count).mp decoded
        split at received
        · cases received
        next wanted =>
          simp only [receivePayload] at received
          split at received
          · split at received
            · split at received
              next payload left second =>
                obtain ⟨measured, rest⟩ := recvAll_sound second
                cases received
                refine ⟨commandHeader, payload, ⟨prefixed, not_not.mp wanted, measured, ?_⟩, rfl⟩
                rw [delivers, rest, ← List.append_assoc]
                exact List.prefix_append _ _
              next => cases received
            · cases received
          · split at received <;> cases received

theorem Message.unique {otherHeader : CommandHeader} {otherPayload : List UInt8}
    (message : Message path stream commandHeader payload) (other : Message path stream otherHeader otherPayload) :
    commandHeader = otherHeader ∧ payload = otherPayload := by
  obtain ⟨rest, split⟩ := message.delivered
  obtain ⟨otherRest, otherSplit⟩ := other.delivered
  rw [← otherSplit, List.append_assoc, List.append_assoc] at split
  obtain ⟨sameHeader, tails⟩ := List.append_inj split (by simp)
  obtain rfl := encodeCommandHeader_injective sameHeader
  exact ⟨rfl, (List.append_inj tails (by rw [message.measured, other.measured])).1⟩

end Message

/-! ## Calls that return -/

/-- The call comes back to its caller with a return code. -/
def returns {α : Type} : Except Stop α → Bool
  | .ok _ => true
  | .error (.failure _) => true
  | .error .blocked => false
  | .error .undefined => false

/-- What keeps a receive path from returning: the peer closes the connection in the header,
the buffer does not grow for the header it announces, or the peer closes the connection in
the payload. -/
inductive Stalls (path : ReceivePath) (memory : ReceiveMemory) (stream : Stream) : Prop where
  | header (closes : stream.Closes) (short : stream.contents.length < 16) : Stalls path memory stream
  | buffer (commandHeader : CommandHeader) (announced : Announces path stream commandHeader)
      (wraps : ¬ GrowsBuffer path memory commandHeader.commandLen) : Stalls path memory stream
  | payload (commandHeader : CommandHeader) (announced : Announces path stream commandHeader)
      (granted : memory.realloc (16 + commandHeader.commandLen).toNat = true) (closes : stream.Closes)
      (short : stream.contents.length < 16 + commandHeader.commandLen.toNat) : Stalls path memory stream

theorem Announces.unique {path : ReceivePath} {stream : Stream} {commandHeader other : CommandHeader}
    (announced : Announces path stream commandHeader) (otherAnnounced : Announces path stream other) :
    commandHeader = other := by
  obtain ⟨rest, split⟩ := announced.delivered
  obtain ⟨otherRest, otherSplit⟩ := otherAnnounced.delivered
  rw [← otherSplit] at split
  exact encodeCommandHeader_injective (List.append_inj split (by simp)).1

section Returns

variable {path : ReceivePath} {memory : ReceiveMemory} {order : ByteOrder} {stream : Stream}

theorem receivePayload_returns_iff {recvBuf : List UInt8} {commandLen : UInt64} :
    returns (receivePayload path memory recvBuf commandLen stream).outcome = true ↔
      GrowsBuffer path memory commandLen ∧
        ¬ (memory.realloc (16 + commandLen).toNat = true ∧ stream.Closes ∧
          stream.contents.length < commandLen.toNat) := by
  have sum := toNat_le_wrapped_sum commandLen
  rw [receivePayload, GrowsBuffer]
  dsimp only
  generalize (16 + commandLen).toNat = size at sum ⊢
  cases granted : memory.realloc size with
  | false =>
    cases checks : path.checksRealloc with
    | true => simp [returns]
    | false => simp [returns]
  | true =>
    by_cases fits : 16 + commandLen.toNat ≤ size
    · simp only [if_true, fits, sum.mp fits, true_and]
      by_cases short : stream.contents.length < commandLen.toNat
      · have ends := recvAll_short short
        cases received : recvAll stream commandLen.toNat with
        | mk outcome remaining =>
          rw [received] at ends
          rcases ends with ⟨closes, blocked⟩ | ⟨fails, failed⟩
          · subst blocked
            simp [returns, closes, short]
          · subst failed
            simp [returns, fails]
      · obtain ⟨remaining, received, -⟩ := recvAll_complete
          (List.take_append_drop commandLen.toNat stream.contents).symm
        rw [List.length_take, Nat.min_eq_left (Nat.le_of_not_lt short)] at received
        simp [received, returns, short]
    · have wraps : ¬ 16 + commandLen.toNat < 2 ^ 64 := fun small => fits (sum.mpr small)
      simp only [if_true, fits, if_false, wraps, false_and, returns, Bool.false_eq_true]

/-- Where sixteen bytes arrive and no header is announced, the path gives up. -/
theorem receiveCommand_silent_returns (enough : 16 ≤ stream.contents.length)
    (silent : ∀ commandHeader, ¬ Announces path stream commandHeader) :
    returns (receiveCommand path memory order stream).outcome = true := by
  obtain ⟨remaining, received, -⟩ := recvAll_complete (List.take_append_drop 16 stream.contents).symm
  rw [List.length_take, Nat.min_eq_left enough] at received
  have count : (stream.contents.take 16).length = 16 := by
    rw [List.length_take, Nat.min_eq_left enough]
  rw [receiveCommand, received]
  cases memory.calloc with
  | false => rfl
  | true =>
    dsimp only
    cases decoded : decodeBuffer (commandHeaderDeserialize order)
        (Input.ofBuffer (stream.contents.take 16) (fun _ => 0) grantAll) with
    | error code => rfl
    | ok commandHeader =>
      obtain ⟨encoded, prefixed⟩ := (decode_command_header order _ count).mp decoded
      have unwanted : commandHeader.command ≠ path.command.code := fun command =>
        silent commandHeader ⟨prefixed, command, encoded ▸ List.take_prefix _ _⟩
      simp [unwanted, returns]

theorem receivePayload_undefined_iff {recvBuf : List UInt8} {commandLen : UInt64} :
    (receivePayload path memory recvBuf commandLen stream).outcome = .error .undefined ↔
      ¬ GrowsBuffer path memory commandLen := by
  have sum := toNat_le_wrapped_sum commandLen
  have defined := recvAll_defined stream commandLen.toNat
  rw [receivePayload, GrowsBuffer]
  dsimp only
  generalize (16 + commandLen).toNat = size at sum ⊢
  cases granted : memory.realloc size with
  | false =>
    cases checks : path.checksRealloc with
    | true => simp
    | false => simp
  | true =>
    by_cases fits : 16 + commandLen.toNat ≤ size
    · simp only [if_true, fits, sum.mp fits, not_true, iff_false]
      cases received : recvAll stream commandLen.toNat with
      | mk outcome remaining =>
        rw [received] at defined
        cases outcome with
        | error stop => exact defined
        | ok payload => simp
    · have wraps : ¬ 16 + commandLen.toNat < 2 ^ 64 := fun small => fits (sum.mpr small)
      simp only [if_true, fits, if_false, wraps, not_false_iff]

theorem receiveCommand_overflows {commandHeader : CommandHeader} (order : ByteOrder) (granted : memory.calloc = true)
    (announced : Announces path stream commandHeader)
    (wraps : ¬ GrowsBuffer path memory commandHeader.commandLen) :
    (receiveCommand path memory order stream).outcome = .error .undefined := by
  obtain ⟨remaining, -, -, received⟩ := receiveCommand_announced memory order granted announced
  rw [received]
  exact receivePayload_undefined_iff.mpr wraps

/-- Only a header that the buffer does not grow for leads outside it. -/
theorem receiveCommand_undefined
    (undefined : (receiveCommand path memory order stream).outcome = .error .undefined) :
    memory.calloc = true ∧ ∃ commandHeader, Announces path stream commandHeader ∧
      ¬ GrowsBuffer path memory commandHeader.commandLen := by
  rw [receiveCommand] at undefined
  split at undefined
  · cases undefined
  next granted =>
    refine ⟨by simpa using granted, ?_⟩
    split at undefined
    next stop remaining received =>
      cases undefined
      exact absurd (congrArg Prod.fst received) (recvAll_defined stream 16)
    next recvBuf remaining received =>
      obtain ⟨count, delivers⟩ := recvAll_sound received
      dsimp only at undefined
      split at undefined
      · cases undefined
      next commandHeader decoded =>
        obtain ⟨rfl, prefixed⟩ := (decode_command_header order _ count).mp decoded
        split at undefined
        · cases undefined
        next wanted => exact ⟨commandHeader, ⟨prefixed, not_not.mp wanted, _, delivers.symm⟩,
            receivePayload_undefined_iff.mp undefined⟩

theorem Stalls.grows (runs : ¬ Stalls path memory stream) (commandHeader : CommandHeader)
    (announced : Announces path stream commandHeader) : GrowsBuffer path memory commandHeader.commandLen := by
  by_contra wraps
  exact runs (.buffer commandHeader announced wraps)

/-- A receive path returns unless it stalls. -/
theorem receiveCommand_returns_iff (granted : memory.calloc = true) :
    returns (receiveCommand path memory order stream).outcome = true ↔ ¬ Stalls path memory stream := by
  by_cases short : stream.contents.length < 16
  · have silent (commandHeader : CommandHeader) : ¬ Announces path stream commandHeader := fun announced => by
      have length := announced.delivered.length_le
      rw [encodeCommandHeader_length] at length
      omega
    have ends := recvAll_short short
    cases received : recvAll stream 16 with
    | mk outcome remaining =>
      rw [received] at ends
      rcases ends with ⟨closes, blocked⟩ | ⟨fails, failed⟩
      · subst blocked
        simp [receiveCommand, granted, received, returns, Stalls.header closes short]
      · subst failed
        simp only [receiveCommand, granted, received, returns, Bool.not_true, Bool.false_eq_true, if_false,
          true_iff]
        rintro (⟨closes, -⟩ | ⟨_, announced, -⟩ | ⟨_, announced, -⟩)
        · exact fails closes
        · exact silent _ announced
        · exact silent _ announced
  · by_cases silent : ∀ commandHeader, ¬ Announces path stream commandHeader
    · simp only [receiveCommand_silent_returns (Nat.le_of_not_lt short) silent, true_iff]
      rintro (⟨-, missing⟩ | ⟨_, announced, -⟩ | ⟨_, announced, -⟩)
      · exact short missing
      · exact silent _ announced
      · exact silent _ announced
    · obtain ⟨commandHeader, announced⟩ := not_forall_not.mp silent
      obtain ⟨remaining, split, ends, received⟩ := receiveCommand_announced memory order granted announced
      have count : stream.contents.length = 16 + remaining.contents.length := by
        rw [split, List.length_append, encodeCommandHeader_length]
      rw [received, receivePayload_returns_iff, ends]
      constructor
      · rintro ⟨grows, open_⟩ (⟨-, missing⟩ | ⟨other, otherAnnounced, wraps⟩ |
          ⟨other, otherAnnounced, grown, closes, missing⟩)
        · exact short missing
        · obtain rfl := announced.unique otherAnnounced
          exact wraps grows
        · obtain rfl := announced.unique otherAnnounced
          exact open_ ⟨grown, closes, by omega⟩
      · intro runs
        refine ⟨Stalls.grows runs commandHeader announced, ?_⟩
        rintro ⟨grown, closes, missing⟩
        exact runs (.payload commandHeader announced grown closes (by omega))

/-- Without a buffer for the header nothing is received that could keep the path. -/
theorem receiveCommand_returns (attends : memory.calloc = true → ¬ Stalls path memory stream) :
    returns (receiveCommand path memory order stream).outcome = true := by
  cases granted : memory.calloc with
  | false => simp [receiveCommand, granted, returns]
  | true => exact (receiveCommand_returns_iff granted).mpr (attends granted)

end Returns

/-- A header that declares a payload of `2 ^ 64 - 1` bytes. -/
def wrappingHeader : CommandHeader :=
  { CommandHeader.initial .sendBlockchain with commandLen := 18446744073709551615 }

/-- The sum wraps to 15: the header's own bytes no longer fit, and the rest is received
behind the end of the buffer. -/
theorem receive_leaves_buffer :
    ¬ ∀ use ∈ (receiveCommand .handleOneConsensusRequest .plenty .littleEndian
      (.chunk (encodeCommandHeader wrappingHeader) .closed)).uses, use.Sound := by
  have announced : Announces .handleOneConsensusRequest
      (.chunk (encodeCommandHeader wrappingHeader) .closed) wrappingHeader :=
    ⟨rfl, rfl, List.prefix_append _ _⟩
  obtain ⟨remaining, -, -, received⟩ :=
    receiveCommand_announced .plenty .littleEndian rfl announced
  rw [received]
  intro sound
  have grows := (receivePayload_sound_iff remaining (encodeCommandHeader_length wrappingHeader)).mp
    fun use member => sound use (List.mem_append_right _ member)
  have wraps : ¬ GrowsBuffer .handleOneConsensusRequest .plenty wrappingHeader.commandLen := by
    rw [growsBuffer_plenty_iff]
    decide
  exact wraps grows

end LeoCoin
