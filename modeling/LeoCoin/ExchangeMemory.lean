import LeoCoin.ChainReading
import LeoCoin.Consensus
import LeoCoin.NodeMemory

/-! # The exchange in memory

Both sides of the consensus exchange with the buffers and the chains that they allocate.  A call
frees its buffers where it succeeds and not where it fails, and the chain that it has decoded is lost
where `blockchain_verify` or the serialization of the answer fails.  It is undefined where one of the
two deserializers reads behind the buffer that has come in.
-/

namespace LeoCoin

open Library.Programs Library.Decoding Library.Heap Library.Owning Library.Transition

namespace ChainMemory

open Imperative

section Programs

variable {β : Type}

/-- A part of the exchange that may not return. -/
def ended (result : Except Stop β) : MemoryProgram β :=
  match result with
  | .ok value => pure value
  | .error (.failure code) => fail code
  | .error .blocked => running
  | .error .undefined => fetch fun _ => none

/-- The cursor at the start of another buffer. -/
def restart : MemoryProgram Unit := fun process => .done (.ok (), { process with cursor := ⟨0, []⟩ })

/-! ## Receiving -/

/-- From the `realloc` to the payload: the buffer and what is in it. -/
def receivePayload (path : ReceivePath) (memory : ReceiveMemory) (recvBuf : Nat) (header : List UInt8)
    (commandLen : UInt64) (stream : Stream) : MemoryProgram (Nat × List UInt8) :=
  let size := 16 + commandLen
  if memory.realloc size.toNat then do
    free recvBuf
    let recvBuf ← place (.raw size.toNat)
    if 16 + commandLen.toNat ≤ size.toNat then do
      let payload ← ended (recvAll stream commandLen.toNat).1
      return (recvBuf, header ++ payload)
    else
      -- the sum has wrapped, and `recv_all` writes behind the buffer
      ended (.error .undefined)
  else if path.checksRealloc then
    fail .couldNotMalloc
  else
    -- `recv_all` writes to an address in the first bytes of memory
    ended (.error .undefined)

/-- From the header to the payload. -/
def receiveCommand (path : ReceivePath) (memory : ReceiveMemory) (order : ByteOrder) (stream : Stream) :
    MemoryProgram (Nat × List UInt8) := do
  let recvBuf ← calloc memory.calloc 16
  let header ← ended (recvAll stream 16).1
  let commandHeader ← finish (decodeBuffer (commandHeaderDeserialize order)
    (Input.ofBuffer header (fun _ => 0) grantAll))
  require (commandHeader.command == path.command.code) .invalidCommand
  receivePayload path memory recvBuf header commandHeader.commandLen (recvAll stream 16).2

/-- What a deserializer makes of a buffer that has come in; there is nothing behind it. -/
def decodeInside {α : Type} (decoder : Decoder Failure α) (input : Input) : Except Stop α :=
  if decoder.Overruns input ⟨0, []⟩ then .error .undefined
  else (decodeBuffer decoder input).mapError .failure

/-- `blockchain_deserialize` on a buffer that has come in. -/
def decodeReceived (order : ByteOrder) (input : Input) (now : Int64) (rounds : Nat) : MemoryProgram Nat := do
  restart
  blockchainDeserialize order input now rounds

/-- What a call has when a chain has come in. -/
structure Incoming where
  recvBuf : Nat
  blockchainData : Nat
  header : CommandHeader
  peerBlockchain : Nat
  isValid : Bool

/-- From the first `recv_all` to the verdict. -/
def receiveBlockchain {PKey : Type} (platform : Platform PKey) (path : ReceivePath) (environment : Environment)
    (stream : Stream) (now : Int64) (rounds : Nat) : MemoryProgram Incoming := do
  let received ← receiveCommand path environment.receive platform.order stream
  let command ← ended (decodeInside (commandSendBlockchainDeserialize platform.order)
    (Input.ofBuffer received.2 environment.behindCommand environment.commandGrants))
  let blockchainData ← place (.raw command.blockchainData.length)
  let peerBlockchain ← decodeReceived platform.order
    (Input.ofBuffer command.blockchainData environment.behindBlockchain environment.blockchainGrants) now rounds
  let isValid ← blockchainVerify platform peerBlockchain rounds
  return ⟨received.1, blockchainData, command.header, peerBlockchain, isValid⟩

/-! ## Sending -/

/-- `command_header_serialize` -/
def commandHeaderSerialize (grants : Nat → Nat → Bool) (order : ByteOrder) (header : CommandHeader) :
    MemoryProgram Nat := do
  let serializationBuffer ← calloc (grants 1 16) 16
  let _ ← (finish (LeoCoin.commandHeaderSerialize order header)).otherwise (free serializationBuffer)
  return serializationBuffer

/-- `command_send_blockchain_serialize` -/
def commandSendBlockchainSerialize (grants : Nat → Nat → Bool) (order : ByteOrder) (header : CommandHeader)
    (blockchainDataLen : UInt64) : MemoryProgram Nat := do
  require (header.command == Command.sendBlockchain.code) .invalidCommand
  let sendCommandBuffer ← calloc (grants 0 8) 8
  -- from here on both exits free what has been allocated
  let headerBuffer ← (commandHeaderSerialize grants order { header with commandLen := 8 + blockchainDataLen }).otherwise
    (free sendCommandBuffer)
  let totalSize := 16 + 8 + blockchainDataLen
  let totalBuffer ← (calloc (grants 2 totalSize.toNat) totalSize.toNat).otherwise (do
    free headerBuffer
    free sendCommandBuffer)
  free headerBuffer
  free sendCommandBuffer
  return totalBuffer

/-- What `send_all` returns. -/
def sent (breaksAfter : Option Nat) : Except Failure Unit :=
  match breaksAfter with
  | none => .ok ()
  | some _ => .error .networkFunction

/-- A chain is serialized, framed and sent: the two buffers. -/
def sendBlockchain (environment : Environment) (order : ByteOrder) (header : CommandHeader)
    (blockchainData : Written) : MemoryProgram Nat := do
  let sendBuf ← commandSendBlockchainSerialize environment.frameGrants order header blockchainData.buffer.size
  finish (sent environment.breaksAfter)
  return sendBuf

/-! ## The decision -/

/-- Whether the node switches to the peer's chain. -/
def switches (ours : Nat) (incoming : Incoming) (rounds : Nat) : MemoryProgram Bool := do
  -- the peer's length is taken of an invalid chain as well
  let peerBlockchainLength ← blockListLength incoming.peerBlockchain rounds
  if incoming.isValid then do
    let ourBlockchainLength ← blockListLength ours rounds
    let ourDifficulty ← difficultyOf ours
    let peerDifficulty ← difficultyOf incoming.peerBlockchain
    return peerBlockchainLength > ourBlockchainLength && ourDifficulty == peerDifficulty
  else
    return false

/-- `if (!switched_to_peer_chain)` -/
def destroyUnlessSwitched (switched : Bool) (peerBlockchain rounds : Nat) : MemoryProgram Unit :=
  if switched then pure () else blockchainDestroy peerBlockchain rounds

/-! ## The two sides -/

/-- The return code behind the decision, and `sync->blockchain`. -/
structure Exchanged where
  returnCode : Except Failure Unit
  blockchain : Nat

/-- `end:` with the return code; before the decision `sync->blockchain` is as it was. -/
def atEnd (ours : Nat) : Except Failure Exchanged × Process → Course (Except Failure Exchanged × Process)
  | (.ok exchanged, after) => .done (.ok exchanged, after)
  | (.error failure, after) => .done (.ok ⟨.error failure, ours⟩, after)

def settle (ours : Nat) (program : MemoryProgram Exchanged) : MemoryProgram Exchanged := fun process =>
  program process >>= atEnd ours

variable {PKey : Type} (platform : Platform PKey) (environment : Environment)

/-- What the server does behind its decision. -/
def reply (incoming : Incoming) (switched : Bool) (blockchain rounds : Nat) : MemoryProgram Unit := do
  free incoming.blockchainData
  -- where this fails, a chain that was not switched to is lost
  let blockchainData ← blockchainSerialize environment.serializeGrants platform.order blockchain rounds
  destroyUnlessSwitched switched incoming.peerBlockchain rounds
  let sendBuf ← sendBlockchain environment platform.order incoming.header blockchainData
  free blockchainData.address
  free sendBuf
  free incoming.recvBuf

/-- `handle_one_consensus_request` -/
def handleOneConsensusRequest (stream : Stream) (now : Int64) (ours rounds : Nat) : MemoryProgram Exchanged :=
  settle ours <| do
    let incoming ← receiveBlockchain platform .handleOneConsensusRequest environment stream now rounds
    let switched ← switches ours incoming rounds
    let blockchain := if switched then incoming.peerBlockchain else ours
    let returnCode ← (reply platform environment incoming switched blockchain rounds).outcome
    return ⟨returnCode, blockchain⟩

/-- `run_consensus_peer_client_once` -/
def runConsensusPeerClientOnce (stream : Stream) (now : Int64) (ours rounds : Nat) : MemoryProgram Exchanged :=
  settle ours <| do
    require environment.socket .networkFunction
    require environment.connects .networkFunction
    let blockchainData ← blockchainSerialize environment.serializeGrants platform.order ours rounds
    let sendBuf ← sendBlockchain environment platform.order (.initial .sendBlockchain) blockchainData
    free blockchainData.address
    -- `command_send_blockchain` keeps that address until a chain has come in
    let incoming ← receiveBlockchain platform .runConsensusPeerClientOnce environment stream now rounds
    let switched ← switches ours incoming rounds
    destroyUnlessSwitched switched incoming.peerBlockchain rounds
    free incoming.blockchainData
    free sendBuf
    free incoming.recvBuf
    return ⟨.ok (), if switched then incoming.peerBlockchain else ours⟩

end Programs

/-! ## What is lost -/

/-- Buffers and chains, no more than these, that nobody has the address of. -/
def Lost (buffers chains : Nat) (lost : Pieces) : Prop :=
  ∃ raws held own, raws.length ≤ buffers ∧ held.length ≤ chains ∧ ChainsAt held own ∧ lost = bufferPieces raws + own

section Losses

variable {buffers chains more others : Nat} {lost also : Pieces}

theorem chainsAt_append {held rest : List (Nat × Blockchain)} {own owned : Pieces} (there : ChainsAt held own)
    (alsoThere : ChainsAt rest owned) : ChainsAt (held ++ rest) (own + owned) := by
  induction held generalizing own with
  | nil =>
    obtain rfl : own = 0 := there
    rw [zero_add]
    exact alsoThere
  | cons first held ih =>
    obtain ⟨one, later, building, there, rfl⟩ := there
    exact ⟨one, later + owned, building, ih there, add_assoc _ _ _⟩

theorem lost_nothing (buffers chains : Nat) : Lost buffers chains 0 :=
  ⟨[], [], 0, Nat.zero_le _, Nat.zero_le _, rfl, rfl⟩

theorem lost_buffer (address size : Nat) : Lost 1 0 (objectPiece address (.raw size)) :=
  ⟨[(address, size)], [], 0, Nat.le_refl _, Nat.le_refl _, rfl, by simp [bufferPieces]⟩

theorem lost_chain {placed : PlacedChain} {blockchain : Blockchain} (holds : placed.Holds blockchain) :
    Lost 0 1 placed.pieces :=
  ⟨[], [(placed.address, blockchain)], placed.pieces, Nat.le_refl _, Nat.le_refl _,
    ⟨_, 0, ⟨placed, rfl, holds, rfl⟩, rfl, (add_zero _).symm⟩, by simp [bufferPieces]⟩

theorem Lost.add (loses : Lost buffers chains lost) (losesAlso : Lost more others also) :
    Lost (buffers + more) (chains + others) (lost + also) := by
  obtain ⟨raws, held, own, few, fewHeld, there, rfl⟩ := loses
  obtain ⟨rest, kept, owned, less, lessHeld, alsoThere, rfl⟩ := losesAlso
  refine ⟨raws ++ rest, held ++ kept, own + owned, ?_, ?_, chainsAt_append there alsoThere, ?_⟩
  · rw [List.length_append]
    omega
  · rw [List.length_append]
    omega
  · simp only [bufferPieces, List.map_append, List.sum_append]
    abel

theorem Lost.mono (loses : Lost buffers chains lost) (fewer : buffers ≤ more) (fewerChains : chains ≤ others) :
    Lost more others lost := by
  obtain ⟨raws, held, own, few, fewHeld, there, rfl⟩ := loses
  exact ⟨raws, held, own, few.trans fewer, fewHeld.trans fewerChains, there, rfl⟩

end Losses

/-! ## Parts -/

/-- The result of a part, and whether there is one. -/
def courseOf {α : Type} (result : Except Stop α) : Course (Except Failure α) :=
  match result with
  | .ok value => .done (.ok value)
  | .error (.failure code) => .done (.error code)
  | .error .blocked => .running
  | .error .undefined => .undefined

@[simp] theorem courseOf_bind {α γ : Type} (first : Except Stop α) (rest : α → Except Stop γ) :
    courseOf (first >>= rest) = andThen (courseOf first) fun value => courseOf (rest value) := by
  cases first with
  | ok value => rfl
  | error stop => cases stop <;> rfl

@[simp] theorem courseOf_mapError {α : Type} (result : Except Failure α) :
    courseOf (result.mapError .failure) = .done result := by
  cases result <;> rfl

/-- A condition that a call returns for. -/
def checked (condition : Bool) (failure : Failure) : Except Failure Unit :=
  if condition then .ok () else .error failure

section Parts

variable {β : Type} {besides : Pieces → Prop} {own : Pieces} {spilled : Pieces → Prop}

theorem meets_ended (result : Except Stop β) (spills : spilled own) :
    Meets storage besides own (fun _ => ended result) (courseOf result)
      (fun value found now => found = value ∧ now = own) spilled := by
  cases result with
  | ok value => exact meets_pure value value spilled ⟨rfl, rfl⟩
  | error stop =>
    cases stop with
    | failure code => exact (accounts_fail code ⟨rfl, spills⟩).meets
    | blocked => exact fun _ _ _ _ => .of_eq fun _ => rfl
    | undefined => exact fun _ _ _ _ => .of_eq fun _ => rfl

theorem meets_finish (result : Except Failure β) (spills : spilled own) :
    Meets storage besides own (fun _ => finish result) (.done result) (fun value found now => found = value ∧ now = own)
      spilled := by
  cases result with
  | ok value => exact meets_pure value value spilled ⟨rfl, rfl⟩
  | error failure => exact (accounts_fail failure ⟨rfl, spills⟩).meets

theorem meets_require (condition : Bool) (failure : Failure) (spills : spilled own) :
    Meets storage besides own (fun _ => require condition failure) (.done (checked condition failure))
      (fun _ _ now => now = own) spilled := by
  cases condition with
  | true => exact meets_pure () () spilled rfl
  | false => exact (accounts_fail failure ⟨rfl, spills⟩).meets

theorem meets_place {α : Type} {object : Object} {later : Nat → Nat → MemoryProgram β}
    {expected : Course (Except Failure α)} {left : α → β → Pieces → Prop}
    (rest : ∀ address, Meets storage besides (objectPiece address object + own) (fun rounds => later rounds address)
      expected left spilled) :
    Meets storage besides own (fun rounds => place object >>= later rounds) expected left spilled := by
  have places : Meets storage besides own (fun _ => place object) (.done (.ok ()))
      (fun _ address now => now = objectPiece address object + own) spilled := by
    refine ((accounts_place object own).anyway.mono ?_).meets
    rintro _ _ ⟨address, rfl, rfl⟩
    exact ⟨address, rfl, rfl⟩
  change Meets storage besides own _ (andThen (.done (.ok ())) fun _ => expected) left spilled
  refine places.bind ?_
  rintro _ address _ - rfl
  exact rest address

theorem meets_calloc (granted : Bool) (size : Nat) (spills : spilled own) :
    Meets storage besides own (fun _ => calloc granted size) (.done (checked granted .couldNotMalloc))
      (fun _ address now => now = objectPiece address (.raw size) + own) spilled := by
  cases granted with
  | true =>
    refine ((accounts_place (.raw size) own).anyway.mono ?_).meets
    rintro _ _ ⟨address, rfl, rfl⟩
    exact ⟨address, rfl, rfl⟩
  | false => exact (accounts_fail _ ⟨rfl, spills⟩).meets

end Parts

/-! ## Receiving -/

section Receiving

variable {PKey : Type} {platform : Platform PKey} {path : ReceivePath} {environment : Environment} {stream : Stream}
  {memory : ReceiveMemory} {order : ByteOrder}

theorem courseOf_receiveCommand :
    courseOf (LeoCoin.receiveCommand path memory order stream).outcome =
      andThen (.done (checked memory.calloc .couldNotMalloc)) fun _ =>
      andThen (courseOf (recvAll stream 16).1) fun header =>
      andThen (.done (decodeBuffer (commandHeaderDeserialize order)
        (Input.ofBuffer header (fun _ => 0) grantAll))) fun commandHeader =>
      andThen (.done (checked (commandHeader.command == path.command.code) .invalidCommand)) fun _ =>
      courseOf (LeoCoin.receivePayload path memory header commandHeader.commandLen (recvAll stream 16).2).outcome := by
  rw [LeoCoin.receiveCommand]
  cases memory.calloc with
  | false => rfl
  | true =>
    obtain ⟨received, remaining⟩ := recvAll stream 16
    cases received with
    | error stop => cases stop <;> rfl
    | ok header =>
      cases decoded : decodeBuffer (commandHeaderDeserialize order) (Input.ofBuffer header (fun _ => 0) grantAll) with
      | error code => simp [courseOf, andThen, checked, decoded]
      | ok commandHeader =>
        by_cases same : commandHeader.command = path.command.code
        · simp [courseOf, andThen, checked, decoded, same]
        · simp [courseOf, andThen, checked, decoded, same]

theorem courseOf_receivePayload (header : List UInt8) (commandLen : UInt64) (stream : Stream) :
    courseOf (LeoCoin.receivePayload path memory header commandLen stream).outcome =
      if memory.realloc (16 + commandLen).toNat then
        if 16 + commandLen.toNat ≤ (16 + commandLen).toNat then
          andThen (courseOf (recvAll stream commandLen.toNat).1) fun payload => .done (.ok (header ++ payload))
        else
          .undefined
      else if path.checksRealloc then
        .done (.error .couldNotMalloc)
      else
        .undefined := by
  simp only [LeoCoin.receivePayload]
  split
  next =>
    split
    next =>
      obtain ⟨received, remaining⟩ := recvAll stream commandLen.toNat
      cases received with
      | ok payload => rfl
      | error stop => cases stop <;> rfl
    next => rfl
  next => split <;> rfl

theorem courseOf_eq_ok {α : Type} {result : Except Stop α} {value : α} :
    courseOf result = .done (.ok value) ↔ result = .ok value := by
  cases result with
  | ok other => simp [courseOf]
  | error stop => cases stop <;> simp [courseOf]

theorem courseOf_eq_error {α : Type} {result : Except Stop α} {failure : Failure} :
    courseOf result = .done (.error failure) ↔ result = .error (.failure failure) := by
  cases result with
  | ok other => simp [courseOf]
  | error stop => cases stop <;> simp [courseOf]

theorem courseOf_eq_running {α : Type} {result : Except Stop α} :
    courseOf result = .running ↔ result = .error .blocked := by
  cases result with
  | ok other => simp [courseOf]
  | error stop => cases stop <;> simp [courseOf]

theorem courseOf_eq_undefined {α : Type} {result : Except Stop α} :
    courseOf result = .undefined ↔ result = .error .undefined := by
  cases result with
  | ok other => simp [courseOf]
  | error stop => cases stop <;> simp [courseOf]

theorem recvAll_length {stream : Stream} {len : Nat} {received : List UInt8}
    (ends : courseOf (recvAll stream len).1 = .done (.ok received)) : received.length = len :=
  (recvAll_sound (Prod.ext (courseOf_eq_ok.mp ends) rfl)).1

/-- The buffer is as long as what has been received. -/
def ReceivedAt (received : List UInt8) (found : Nat × List UInt8) (owned : Pieces) : Prop :=
  found.2 = received ∧ owned = objectPiece found.1 (.raw received.length)

theorem meets_receivePayload {besides : Pieces → Prop} (recvBuf : Nat) {header : List UInt8}
    (whole : header.length = 16) (commandLen : UInt64) (stream : Stream) :
    Meets storage besides (objectPiece recvBuf (.raw 16))
      (fun _ => receivePayload path memory recvBuf header commandLen stream)
      (courseOf (LeoCoin.receivePayload path memory header commandLen stream).outcome) ReceivedAt (Lost 1 0) := by
  rw [courseOf_receivePayload]
  unfold receivePayload
  dsimp only
  split
  next =>
    refine Meets.after (turns_free recvBuf (.raw 16)) (meets_place fun recvBuf => ?_)
    rw [add_zero]
    by_cases fits : 16 + commandLen.toNat ≤ (16 + commandLen).toNat
    · simp only [if_pos fits]
      refine (meets_ended _ (lost_buffer _ _)).bind ?_
      rintro _ payload _ received ⟨rfl, rfl⟩
      -- the buffer is as long as what is in it
      have size : (16 + commandLen).toNat = (header ++ payload).length := by
        have sum : (16 + commandLen).toNat = (16 + commandLen.toNat) % 2 ^ 64 := UInt64.toNat_add 16 commandLen
        have count := recvAll_length received
        rw [List.length_append]
        omega
      rw [size]
      exact meets_pure _ _ _ ⟨rfl, rfl⟩
    · simp only [if_neg fits]
      exact fun _ _ _ _ => .of_eq fun _ => rfl
  next =>
    split
    next => exact (accounts_fail _ ⟨rfl, lost_buffer _ _⟩).meets
    next => exact fun _ _ _ _ => .of_eq fun _ => rfl

theorem meets_receiveCommand {besides : Pieces → Prop} :
    Meets storage besides 0 (fun _ => receiveCommand path memory order stream)
      (courseOf (LeoCoin.receiveCommand path memory order stream).outcome) ReceivedAt (Lost 1 0) := by
  rw [courseOf_receiveCommand]
  refine (meets_calloc _ 16 (lost_nothing 1 0)).bind ?_
  rintro _ recvBuf _ - rfl
  rw [add_zero]
  refine (meets_ended _ (lost_buffer recvBuf 16)).bind ?_
  rintro _ header _ received ⟨rfl, rfl⟩
  refine (meets_finish _ (lost_buffer recvBuf 16)).bind ?_
  rintro _ commandHeader _ - ⟨rfl, rfl⟩
  refine (meets_require _ _ (lost_buffer recvBuf 16)).bind ?_
  rintro _ _ _ - rfl
  exact meets_receivePayload recvBuf (recvAll_length received) _ _

theorem decodeInside_eq_ok {α : Type} {decoder : Decoder Failure α} {input : Input} {value : α}
    (decoded : decodeInside decoder input = .ok value) : decodeBuffer decoder input = .ok value := by
  rw [decodeInside] at decoded
  split at decoded
  next => cases decoded
  next =>
    cases result : decodeBuffer decoder input with
    | error code =>
      rw [result] at decoded
      cases decoded
    | ok found =>
      rw [result] at decoded
      cases decoded
      rfl

theorem ends_blockchainDeserialize (order : ByteOrder) {input : Input} (now : Int64) {process : Process}
    {whole : Pieces} (spacious : Spacious input (weight whole)) (begins : process.cursor = ⟨0, []⟩)
    (parts : pieces process = whole) :
    Ends (outlook input (weight whole)) (fun rounds => blockchainDeserialize order input now rounds) process whole
      (fun blockchain address owned => Building address blockchain owned) (· = 0)
      (described input (deserializeBlockchain order) ⟨0, []⟩) := by
  subst parts
  have ends := realizes_blockchainDeserialize order now spacious process (pieces process) (fine_of_begins begins)
    (zero_add _).symm
  rwa [outlook_view, begins] at ends

/-- `blockchain_deserialize`, wherever there is room for what it is granted. -/
theorem meets_decodeReceived (order : ByteOrder) (input : Input) (now : Int64) (own : Pieces) :
    Meets storage (fun frame => Spacious input (weight (own + frame))) own
      (fun rounds => decodeReceived order input now rounds)
      (courseOf (decodeInside (deserializeBlockchain order) input))
      (fun blockchain address now => ∃ chain, Building address blockchain chain ∧ now = chain + own) (· = own) := by
  have begins (process : Process) :
      Yields (fun _ => restart) process (.ok ()) { process with cursor := ⟨0, []⟩ } := .of_eq fun _ => rfl
  rw [decodeInside]
  by_cases leaves : (deserializeBlockchain order).Overruns input ⟨0, []⟩
  · rw [if_pos leaves]
    intro process frame spacious parts
    have ends := ends_blockchainDeserialize order now spacious rfl
      (show pieces { process with cursor := ⟨0, []⟩ } = own + frame from parts)
    rw [described, if_pos leaves] at ends
    exact (begins process).bind_stops ends
  · rw [if_neg leaves, courseOf_mapError, decodeBuffer]
    intro process frame spacious parts
    have ends := ends_blockchainDeserialize order now spacious rfl
      (show pieces { process with cursor := ⟨0, []⟩ } = own + frame from parts)
    rw [described, if_neg leaves] at ends
    rcases ran : (deserializeBlockchain order).run input ⟨0, []⟩ with ⟨fault | blockchain, cursor⟩
    · rw [ran] at ends
      obtain ⟨after, _, yields, -, rfl, parts⟩ := ends
      exact ⟨_, after, own, (begins process).bind yields, ⟨rfl, rfl⟩, parts.trans (zero_add _)⟩
    · rw [ran] at ends
      obtain ⟨address, after, chain, yields, -, -, building, parts⟩ := ends
      exact ⟨_, after, chain + own, (begins process).bind yields, ⟨address, rfl, chain, building, rfl⟩,
        parts.trans (add_assoc _ _ _).symm⟩

/-- The decoder, and what `blockchain_deserialize` returns. -/
theorem decodeBuffer_outcome (order : ByteOrder) (input : Input) :
    (∃ (failure : Failure) (examined : Nat), decodeBuffer (deserializeBlockchain order) input = .error failure ∧
        LeoCoin.blockchainDeserialize order input none = ⟨failure, none, examined⟩) ∨
      ∃ (blockchain : Blockchain) (examined : Nat),
        decodeBuffer (deserializeBlockchain order) input = .ok blockchain ∧
          LeoCoin.blockchainDeserialize order input none = ⟨.success, some blockchain, examined⟩ := by
  rw [decodeBuffer, LeoCoin.blockchainDeserialize]
  rcases (deserializeBlockchain order).run input ⟨0, []⟩ with ⟨fault | blockchain, cursor⟩
  · exact .inl ⟨_, _, rfl, rfl⟩
  · exact .inr ⟨_, _, rfl, rfl⟩

section Inside

variable (platform : Platform PKey) (path : ReceivePath) (environment : Environment) (stream : Stream)

/-- The two buffers, as they are decoded. -/
def receivedInput (recvBuf : List UInt8) : Input :=
  Input.ofBuffer recvBuf environment.behindCommand environment.commandGrants

def carriedInput (command : CommandSendBlockchain) : Input :=
  Input.ofBuffer command.blockchainData environment.behindBlockchain environment.blockchainGrants

/-- `LeoCoin.receiveBlockchain`, with nothing behind the two buffers. -/
def receiveInside : Except Stop (CommandHeader × Blockchain × Bool) := do
  let recvBuf ← (LeoCoin.receiveCommand path environment.receive platform.order stream).outcome
  let command ← decodeInside (commandSendBlockchainDeserialize platform.order) (receivedInput environment recvBuf)
  let peerBlockchain ← decodeInside (deserializeBlockchain platform.order) (carriedInput environment command)
  let isValid ← (verdict platform peerBlockchain).mapError .failure
  return (command.header, peerBlockchain, isValid)

/-- Whether one of the two deserializers reads behind its buffer. -/
def receivesBehind : Bool :=
  match (LeoCoin.receiveCommand path environment.receive platform.order stream).outcome with
  | .error _ => false
  | .ok recvBuf =>
    decide ((commandSendBlockchainDeserialize platform.order).Overruns (receivedInput environment recvBuf) ⟨0, []⟩) ||
      match decodeBuffer (commandSendBlockchainDeserialize platform.order) (receivedInput environment recvBuf) with
      | .error _ => false
      | .ok command =>
        decide ((deserializeBlockchain platform.order).Overruns (carriedInput environment command) ⟨0, []⟩)

variable {platform path environment stream}

theorem receiveInside_of_behind (behind : receivesBehind platform path environment stream = true) :
    receiveInside platform path environment stream = .error .undefined := by
  rw [receivesBehind] at behind
  rw [receiveInside]
  cases received : (LeoCoin.receiveCommand path environment.receive platform.order stream).outcome with
  | error stop =>
    rw [received] at behind
    cases behind
  | ok recvBuf =>
    rw [received] at behind
    dsimp only [Bind.bind, Except.bind] at behind ⊢
    by_cases first : (commandSendBlockchainDeserialize platform.order).Overruns (receivedInput environment recvBuf)
      ⟨0, []⟩
    · rw [decodeInside, if_pos first]
    · rw [decide_eq_false first, Bool.false_or] at behind
      cases decoded : decodeBuffer (commandSendBlockchainDeserialize platform.order)
        (receivedInput environment recvBuf) with
      | error code =>
        rw [decoded] at behind
        cases behind
      | ok command =>
        rw [decoded] at behind
        rw [decodeInside, if_neg first, decoded]
        dsimp only [Except.mapError]
        rw [decodeInside, if_pos (of_decide_eq_true behind)]

/-- Where nothing behind the buffers is read, it does not matter what is there. -/
theorem receiveInside_of_inside (inside : receivesBehind platform path environment stream = false) :
    receiveInside platform path environment stream =
      LeoCoin.receiveBlockchain platform path environment stream := by
  rw [receivesBehind] at inside
  rw [receiveInside, LeoCoin.receiveBlockchain]
  cases received : (LeoCoin.receiveCommand path environment.receive platform.order stream).outcome with
  | error stop => rfl
  | ok recvBuf =>
    rw [received] at inside
    dsimp only [Bind.bind, Except.bind] at inside ⊢
    obtain ⟨first, second⟩ := Bool.or_eq_false_iff.mp inside
    rw [decodeInside, if_neg (of_decide_eq_false first), receivedInput]
    rw [receivedInput] at second
    cases decoded : decodeBuffer (commandSendBlockchainDeserialize platform.order)
      (Input.ofBuffer recvBuf environment.behindCommand environment.commandGrants) with
    | error code => rfl
    | ok command =>
      rw [decoded] at second
      dsimp only [Except.mapError]
      rw [decodeInside, if_neg (of_decide_eq_false second), carriedInput]
      rcases decodeBuffer_outcome platform.order (Input.ofBuffer command.blockchainData environment.behindBlockchain
        environment.blockchainGrants) with ⟨failure, examined, fails, same⟩ | ⟨blockchain, examined, succeeds, same⟩
      · simp [fails, same, failure.property, Except.mapError]
      · by_cases passes : (LeoCoin.blockchainVerify platform blockchain).returnCode = .success
        · simp [succeeds, same, verdict, judged, passes, Except.mapError, pure, Except.pure]
        · simp [succeeds, same, verdict, judged, passes, Except.mapError]

end Inside

/-- What a call has when a chain has come in. -/
def HasReceived (received : CommandHeader × Blockchain × Bool) (incoming : Incoming) (owned : Pieces) : Prop :=
  incoming.header = received.1 ∧ incoming.isValid = received.2.2 ∧ ∃ chain recvBufLen blockchainDataLen,
    Building incoming.peerBlockchain received.2.1 chain ∧
      owned = chain + (objectPiece incoming.blockchainData (.raw blockchainDataLen) +
        objectPiece incoming.recvBuf (.raw recvBufLen))

/-- What is in use, the buffers and what is granted are in one address space. -/
def Roomy (platform : Platform PKey) (path : ReceivePath) (environment : Environment) (stream : Stream) (used : Nat) :
    Prop :=
  ∀ recvBuf command requests,
    (LeoCoin.receiveCommand path environment.receive platform.order stream).outcome = .ok recvBuf →
    decodeBuffer (commandSendBlockchainDeserialize platform.order)
      (Input.ofBuffer recvBuf environment.behindCommand environment.commandGrants) = .ok command →
    Granted environment.blockchainGrants requests →
    used + recvBuf.length + command.blockchainData.length + requests.sum < 2 ^ 64

theorem meets_receiveBlockchain (now : Int64) {used : Nat} (roomy : Roomy platform path environment stream used) :
    Meets storage (fun frame => weight frame ≤ used) 0
      (fun rounds => receiveBlockchain platform path environment stream now rounds)
      (courseOf (receiveInside platform path environment stream)) HasReceived (Lost 2 1) := by
  simp only [receiveInside, courseOf_bind]
  refine (meets_receiveCommand.weaken (fun _ _ _ holds => holds) fun _ loses =>
    loses.mono (by omega) (by omega)).bind ?_
  rintro _ received _ arrived ⟨rfl, rfl⟩
  refine (meets_ended _ ((lost_buffer received.1 _).mono (by omega) (by omega))).bind ?_
  rintro _ command _ decoded ⟨rfl, rfl⟩
  refine meets_place fun blockchainData => ?_
  generalize held : objectPiece blockchainData (.raw command.blockchainData.length) +
    objectPiece received.1 (.raw received.2.length) = buffers
  have loses : Lost 2 0 buffers := held ▸ (lost_buffer _ _).add (lost_buffer _ _)
  have room (frame : Pieces) (light : weight frame ≤ used) : Spacious (Input.ofBuffer command.blockchainData
      environment.behindBlockchain environment.blockchainGrants) (weight (buffers + frame)) := by
    intro requests granted
    have whole := roomy received.2 command requests (courseOf_eq_ok.mp arrived)
      (decodeInside_eq_ok (courseOf_eq_ok.mp decoded)) granted
    simp only [← held, weight_add, weight_objectPiece, Object.size]
    omega
  -- where the decoder fails it has freed its own, and the two buffers are lost
  have decodes : Meets storage (fun frame => weight frame ≤ used) buffers _ _ _ (Lost 2 1) :=
    ((meets_decodeReceived platform.order (Input.ofBuffer command.blockchainData environment.behindBlockchain
      environment.blockchainGrants) now buffers).restrict room).weaken (fun _ _ _ holds => holds) fun _ same =>
        same ▸ loses.mono (by omega) (by omega)
  refine decodes.bind ?_
  rintro peerBlockchain _ _ - ⟨_, ⟨placed, rfl, holds, rfl⟩, rfl⟩
  -- where the verification fails the chain is lost with them
  have verifies : Meets storage (fun frame => weight frame ≤ used) (placed.pieces + buffers) _ _ _ (Lost 2 1) :=
    ((accounts_blockchainVerify platform holds).meets.beside buffers fun _ _ => trivial).weaken
      (fun _ _ _ holds => holds) (by
        rintro _ ⟨_, rfl, rfl⟩
        exact ((lost_chain holds).add loses).mono (by omega) (by omega))
  rw [courseOf_mapError]
  refine verifies.bind ?_
  rintro isValid _ _ - ⟨_, ⟨rfl, rfl⟩, rfl⟩
  exact meets_pure _ _ _ ⟨rfl, rfl, _, _, _, ⟨placed, rfl, holds, rfl⟩, by rw [held]⟩

end Receiving

/-! ## Sending -/

section Sending

variable {grants : Nat → Nat → Bool} {order : ByteOrder} {besides : Pieces → Prop}

/-- Whether a header is serialized. -/
def headerWritten (grants : Nat → Nat → Bool) (order : ByteOrder) (header : CommandHeader) : Except Failure Unit := do
  checked (grants 1 16) .couldNotMalloc
  let _ ← LeoCoin.commandHeaderSerialize order header

theorem meets_commandHeaderSerialize (header : CommandHeader) (own : Pieces) :
    Meets storage besides own (fun _ => commandHeaderSerialize grants order header)
      (.done (headerWritten grants order header))
      (fun _ address now => now = objectPiece address (.raw 16) + own) (· = own) := by
  rw [headerWritten, ← andThen_done]
  have allocates : Meets storage besides own _ _ _ (· = own) := meets_calloc (grants 1 16) 16 rfl
  refine allocates.bind ?_
  rintro _ serializationBuffer _ - rfl
  rw [← andThen_done]
  have frees : Turns storage (fun _ => free serializationBuffer) (objectPiece serializationBuffer (.raw 16) + own) ()
      own := (turns_free serializationBuffer (.raw 16)).within own rfl (zero_add _).symm
  have writes : Meets storage besides (objectPiece serializationBuffer (.raw 16) + own) _ _ _
      (· = objectPiece serializationBuffer (.raw 16) + own) :=
    meets_finish (LeoCoin.commandHeaderSerialize order header) rfl
  refine (writes.cleared frees).bind ?_
  rintro _ _ _ - ⟨rfl, rfl⟩
  exact meets_pure _ _ _ rfl

/-- How long the message is, where it is written. -/
def framedSize (grants : Nat → Nat → Bool) (order : ByteOrder) (header : CommandHeader) (blockchainDataLen : UInt64) :
    Except Failure Nat := do
  checked (header.command == Command.sendBlockchain.code) .invalidCommand
  checked (grants 0 8) .couldNotMalloc
  headerWritten grants order { header with commandLen := 8 + blockchainDataLen }
  checked (grants 2 (16 + 8 + blockchainDataLen).toNat) .couldNotMalloc
  return (16 + 8 + blockchainDataLen).toNat

theorem meets_commandSendBlockchainSerialize (grants : Nat → Nat → Bool) (order : ByteOrder) (header : CommandHeader)
    (blockchainDataLen : UInt64) (own : Pieces) :
    Meets storage besides own (fun _ => commandSendBlockchainSerialize grants order header blockchainDataLen)
      (.done (framedSize grants order header blockchainDataLen))
      (fun size address now => now = objectPiece address (.raw size) + own) (· = own) := by
  rw [framedSize, ← andThen_done]
  have requires : Meets storage besides own _ _ _ (· = own) :=
    meets_require (header.command == Command.sendBlockchain.code) .invalidCommand rfl
  refine requires.bind ?_
  rintro _ _ own - rfl
  rw [← andThen_done]
  have allocates : Meets storage besides own _ _ _ (· = own) := meets_calloc (grants 0 8) 8 rfl
  refine allocates.bind ?_
  rintro _ sendCommandBuffer _ - rfl
  have frees : Turns storage (fun _ => free sendCommandBuffer) (objectPiece sendCommandBuffer (.raw 8) + own) () own :=
    (turns_free sendCommandBuffer (.raw 8)).within own rfl (zero_add _).symm
  rw [← andThen_done]
  refine ((meets_commandHeaderSerialize _ _).cleared frees).bind ?_
  rintro _ headerBuffer _ - rfl
  have freesBoth : Turns storage (fun _ => do free headerBuffer; free sendCommandBuffer)
      (objectPiece headerBuffer (.raw 16) + (objectPiece sendCommandBuffer (.raw 8) + own)) () own :=
    ((turns_free headerBuffer (.raw 16)).within _ rfl (zero_add _).symm).bind frees
  rw [← andThen_done]
  have total : Meets storage besides
      (objectPiece headerBuffer (.raw 16) + (objectPiece sendCommandBuffer (.raw 8) + own)) _ _ _
      (· = objectPiece headerBuffer (.raw 16) + (objectPiece sendCommandBuffer (.raw 8) + own)) :=
    meets_calloc (grants 2 (16 + 8 + blockchainDataLen).toNat) (16 + 8 + blockchainDataLen).toNat rfl
  refine (total.cleared freesBoth).bind ?_
  rintro _ totalBuffer _ - rfl
  refine Meets.after ((turns_free headerBuffer (.raw 16)).within
    (objectPiece totalBuffer (.raw (16 + 8 + blockchainDataLen).toNat) +
      (objectPiece sendCommandBuffer (.raw 8) + own)) (by abel) (zero_add _).symm) ?_
  refine Meets.after ((turns_free sendCommandBuffer (.raw 8)).within
    (objectPiece totalBuffer (.raw (16 + 8 + blockchainDataLen).toNat) + own) (by abel) (zero_add _).symm) ?_
  exact meets_pure _ _ _ rfl

theorem framedSize_eq (grants : Nat → Nat → Bool) (order : ByteOrder) (command : CommandSendBlockchain) :
    framedSize grants order command.header command.blockchainDataLen =
      (LeoCoin.commandSendBlockchainSerialize grants order command).map fun written => written.2.toNat := by
  rw [framedSize, LeoCoin.commandSendBlockchainSerialize, headerWritten]
  dsimp only
  generalize ({ command.header with commandLen := 8 + command.blockchainDataLen } : CommandHeader) = framed
  by_cases sends : command.header.command = Command.sendBlockchain.code
  · simp only [sends, BEq.rfl, ne_eq, not_true_eq_false, if_false]
    generalize 16 + 8 + command.blockchainDataLen = totalSize
    cases grants 0 8 with
    | false => rfl
    | true =>
      cases grants 1 16 with
      | false => rfl
      | true =>
        cases LeoCoin.commandHeaderSerialize order framed with
        | error failure => rfl
        | ok header => cases written : grants 2 totalSize.toNat <;> simp [checked] <;> rfl
  · simp [sends, checked]
    rfl

variable {environment : Environment}

theorem courseOf_sendAll (breaksAfter : Option Nat) (message : List UInt8) :
    courseOf (sendAll breaksAfter message).1 = .done (sent breaksAfter) := by
  cases breaksAfter <;> rfl

/-- The command that is filled in, or the failure of the serializer. -/
theorem blockchainCommand_outcome (grants : Nat → Nat → Bool) (order : ByteOrder) (header : CommandHeader)
    (blockchain : Blockchain) :
    (∃ code, serializeInto grants order blockchain ⟨[], 0, 0⟩ = .error code ∧
        blockchainCommand grants order header blockchain = .error code) ∨
      ∃ buffer command, serializeInto grants order blockchain ⟨[], 0, 0⟩ = .ok buffer ∧
        blockchainCommand grants order header blockchain = .ok command ∧ command.header = header ∧
        command.blockchainDataLen = buffer.size := by
  rw [blockchainCommand]
  cases written : serializeInto grants order blockchain ⟨[], 0, 0⟩ with
  | error code =>
    have refused : LeoCoin.blockchainSerialize grants order blockchain = .error code := by
      rw [LeoCoin.blockchainSerialize, written]
      rfl
    refine .inl ⟨code, rfl, ?_⟩
    split
    next same =>
      rw [refused] at same
      cases same
      rfl
    next same =>
      rw [refused] at same
      cases same
  | ok buffer =>
    have granted : LeoCoin.blockchainSerialize grants order blockchain = .ok (buffer.bytes, buffer.size) := by
      rw [LeoCoin.blockchainSerialize, written]
      rfl
    split
    next same =>
      rw [granted] at same
      cases same
    next same =>
      rw [granted] at same
      cases same
      exact .inr ⟨buffer, _, rfl, rfl, rfl, rfl⟩

/-- The length of the message, where it is sent. -/
def sentSize (environment : Environment) (order : ByteOrder) (header : CommandHeader) (blockchainDataLen : UInt64) :
    Except Failure Nat := do
  let size ← framedSize environment.frameGrants order header blockchainDataLen
  sent environment.breaksAfter
  return size

theorem sentSize_outcome (environment : Environment) (order : ByteOrder) (command : CommandSendBlockchain) :
    (∃ code, LeoCoin.commandSendBlockchainSerialize environment.frameGrants order command = .error code ∧
        sentSize environment order command.header command.blockchainDataLen = .error code) ∨
      ∃ sendBuf size,
        LeoCoin.commandSendBlockchainSerialize environment.frameGrants order command = .ok (sendBuf, size) ∧
        sentSize environment order command.header command.blockchainDataLen =
          (sent environment.breaksAfter).map fun _ => size.toNat := by
  rw [sentSize, framedSize_eq]
  cases LeoCoin.commandSendBlockchainSerialize environment.frameGrants order command with
  | error code => exact .inl ⟨code, rfl, rfl⟩
  | ok message => exact .inr ⟨message.1, message.2, rfl, rfl⟩

theorem meets_sendBlockchain (header : CommandHeader) (blockchainData : Written) :
    Meets storage besides 0 (fun _ => sendBlockchain environment order header blockchainData)
      (.done (sentSize environment order header blockchainData.buffer.size))
      (fun size sendBuf now => now = objectPiece sendBuf (.raw size)) (Lost 1 0) := by
  rw [sentSize, ← andThen_done]
  have frames : Meets storage besides 0 _ _ _ (Lost 1 0) :=
    (meets_commandSendBlockchainSerialize environment.frameGrants order header blockchainData.buffer.size 0).weaken
      (fun _ _ _ same => same) fun _ same => same ▸ lost_nothing 1 0
  refine frames.bind ?_
  rintro size sendBuf _ - rfl
  rw [add_zero, ← andThen_done]
  refine (meets_finish _ (lost_buffer sendBuf size)).bind ?_
  rintro _ _ _ - ⟨rfl, rfl⟩
  exact meets_pure _ _ _ rfl

end Sending

end ChainMemory

end LeoCoin
