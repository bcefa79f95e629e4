import LeoCoin.Declared
import LeoCoin.Receive
import LeoCoin.RoundTrip

/-! # The consensus exchange

A client sends its chain, the server answers with its own after it has looked at the
client's, and each side switches to the other's chain if that is valid, strictly
longer and of the same difficulty.  The functions here are one call each, run while
nothing else touches the node; the allocators, the socket and the connection are
whatever `Environment` says.
-/

namespace LeoCoin

open Library.Decoding

variable {PKey : Type}

/-- `blockchain_synchronization_t` without its mutex. -/
structure Sync where
  blockchain : Blockchain
  version : UInt64

/-- What one call meets: whether a socket is opened and connected, how many bytes are sent
before an error (`none` is no error), the allocators in the order they are used, and the
memory behind the two buffers that are decoded. -/
structure Environment where
  socket : Bool
  connects : Bool
  breaksAfter : Option Nat
  receive : ReceiveMemory
  commandGrants : Nat → Nat → Bool
  blockchainGrants : Nat → Nat → Bool
  serializeGrants : Nat → Nat → Bool
  frameGrants : Nat → Nat → Bool
  behindCommand : Nat → UInt8
  behindBlockchain : Nat → UInt8

/-- Calls that take something that has to be given back. -/
inductive ResourceCall where
  | socket : ResourceCall
  | close : ResourceCall
  | lock : ResourceCall
  | unlock : ResourceCall
deriving DecidableEq

/-- What a call of one side comes to: its return code, the node afterwards, the bytes
it sent and the resources it took and gave back, in order. -/
structure Exchange where
  outcome : Except Stop Unit
  sync : Sync
  sent : List UInt8
  calls : List ResourceCall

/-! ## The parts both sides share -/

/-- From the first `recv_all` to the verdict on the chain that came in: the header of the
command, the chain and `peer_blockchain_is_valid`. -/
def receiveBlockchain (platform : Platform PKey) (path : ReceivePath) (environment : Environment)
    (stream : Stream) : Except Stop (CommandHeader × Blockchain × Bool) :=
  match (receiveCommand path environment.receive platform.order stream).outcome with
  | .error stop => .error stop
  | .ok recvBuf =>
    match decodeBuffer (commandSendBlockchainDeserialize platform.order)
        (Input.ofBuffer recvBuf environment.behindCommand environment.commandGrants) with
    | .error code => .error (.failure code)
    | .ok command =>
      let decoded := blockchainDeserialize platform.order
        (Input.ofBuffer command.blockchainData environment.behindBlockchain environment.blockchainGrants) none
      if failed : decoded.returnCode ≠ .success then
        .error (.failure ⟨decoded.returnCode, failed⟩)
      else
        match decoded.blockchain with
        -- with `SUCCESS` the pointer has been set
        | none => .error .undefined
        | some peerBlockchain =>
          let verification := blockchainVerify platform peerBlockchain
          if failed : verification.returnCode ≠ .success then
            .error (.failure ⟨verification.returnCode, failed⟩)
          else
            .ok (command.header, peerBlockchain, verification.isValidBlockchain.getD false)

/-- The peer's chain is one to switch to: longer than ours and as difficult. -/
def prefersPeer (ourBlockchain peerBlockchain : Blockchain) : Bool :=
  linkedListLength peerBlockchain.blockList > linkedListLength ourBlockchain.blockList &&
    ourBlockchain.numLeadingZeroBytesRequiredInBlockHash ==
      peerBlockchain.numLeadingZeroBytesRequiredInBlockHash

/-- What happens between locking and unlocking the mutex. -/
def considerPeerBlockchain (sync : Sync) (peerBlockchain : Blockchain) (peerBlockchainIsValid : Bool) : Sync :=
  if peerBlockchainIsValid && prefersPeer sync.blockchain peerBlockchain then
    ⟨peerBlockchain, sync.version + 1⟩
  else
    sync

/-- `blockchain_serialize` into a command with this header. -/
def blockchainCommand (grants : Nat → Nat → Bool) (order : ByteOrder) (header : CommandHeader)
    (blockchain : Blockchain) : Except Failure CommandSendBlockchain :=
  match serialized : blockchainSerialize grants order blockchain with
  | .error code => .error code
  | .ok (blockchainData, blockchainDataLen) =>
    .ok
      { header, blockchainDataLen, blockchainData
        measured := by
          obtain ⟨rfl, rfl⟩ := Prod.mk.inj (blockchain_serialize_sound serialized)
          exact (encodeBlockchain_length_toNat blockchain).symm }

/-! ## The two sides -/

def handleOneConsensusRequest (platform : Platform PKey) (environment : Environment) (sync : Sync)
    (stream : Stream) : Exchange :=
  match receiveBlockchain platform .handleOneConsensusRequest environment stream with
  | .error stop => ⟨.error stop, sync, [], []⟩
  | .ok (header, peerBlockchain, peerBlockchainIsValid) =>
    let after := considerPeerBlockchain sync peerBlockchain peerBlockchainIsValid
    match blockchainCommand environment.serializeGrants platform.order header after.blockchain with
    | .error code => ⟨.error (.failure code), after, [], [.lock, .unlock]⟩
    | .ok command =>
      match commandSendBlockchainSerialize environment.frameGrants platform.order command with
      | .error code => ⟨.error (.failure code), after, [], [.lock, .unlock]⟩
      | .ok (sendBuf, _) =>
        let sending := sendAll environment.breaksAfter sendBuf
        ⟨sending.1, after, sending.2, [.lock, .unlock]⟩

def runConsensusPeerClientOnce (platform : Platform PKey) (environment : Environment) (sync : Sync)
    (stream : Stream) : Exchange :=
  if !environment.socket then ⟨.error (.failure .networkFunction), sync, [], []⟩
  else if !environment.connects then ⟨.error (.failure .networkFunction), sync, [], [.socket]⟩
  else
    let calls := [.socket, .lock, .unlock]
    match blockchainCommand environment.serializeGrants platform.order (.initial .sendBlockchain)
        sync.blockchain with
    | .error code => ⟨.error (.failure code), sync, [], calls⟩
    | .ok command =>
      match commandSendBlockchainSerialize environment.frameGrants platform.order command with
      | .error code => ⟨.error (.failure code), sync, [], calls⟩
      | .ok (sendBuf, _) =>
        match sendAll environment.breaksAfter sendBuf with
        | (.error stop, sent) => ⟨.error stop, sync, sent, calls⟩
        | (.ok _, sent) =>
          match receiveBlockchain platform .runConsensusPeerClientOnce environment stream with
          | .error stop => ⟨.error stop, sync, sent, calls⟩
          | .ok (_, peerBlockchain, peerBlockchainIsValid) =>
            -- the client takes the mutex again only for a valid chain
            let switching := if peerBlockchainIsValid then [ResourceCall.lock, .unlock] else []
            ⟨.ok (), considerPeerBlockchain sync peerBlockchain peerBlockchainIsValid, sent,
              calls ++ switching ++ [.close]⟩

/-! ## Messages -/

/-- The socket works and no allocation is refused. -/
structure Environment.Plenty (environment : Environment) : Prop where
  socket : environment.socket = true
  connects : environment.connects = true
  sends : environment.breaksAfter = none
  receive : environment.receive.calloc = true ∧ ∀ size, environment.receive.realloc size = true
  command : ∀ ordinal size, environment.commandGrants ordinal size = true
  blockchain : ∀ ordinal size, environment.blockchainGrants ordinal size = true
  serialize : ∀ ordinal size, environment.serializeGrants ordinal size = true
  frame : ∀ ordinal size, environment.frameGrants ordinal size = true

/-- The command that carries a chain, as it is sent. -/
def chainCommand (blockchain : Blockchain) : CommandSendBlockchain where
  header := ⟨commandPrefix, Command.sendBlockchain.code,
    8 + UInt64.ofNat (encodeBlockchain blockchain).length⟩
  blockchainDataLen := UInt64.ofNat (encodeBlockchain blockchain).length
  blockchainData := encodeBlockchain blockchain
  measured := (encodeBlockchain_length_toNat blockchain).symm

/-- The message with a chain. -/
def chainMessage (blockchain : Blockchain) : List UInt8 := encodeCommandSendBlockchain (chainCommand blockchain)

section Messages

variable {platform : Platform PKey} {path : ReceivePath} {environment : Environment} {stream : Stream}
  {blockchain : Blockchain}

theorem chainMessage_fits (blockchain : Blockchain) :
    24 + (chainCommand blockchain).blockchainDataLen.toNat < 2 ^ 64 := by
  have bound := encodeBlockchain_length_le blockchain
  have inMemory := blockchain.fits
  have length : (chainCommand blockchain).blockchainDataLen.toNat = (encodeBlockchain blockchain).length :=
    encodeBlockchain_length_toNat blockchain
  omega

theorem chainCommand_commandLen (blockchain : Blockchain) :
    (chainCommand blockchain).header.commandLen.toNat =
      8 + (chainCommand blockchain).blockchainDataLen.toNat := by
  have fits := chainMessage_fits blockchain
  have sum : (chainCommand blockchain).header.commandLen.toNat =
      (8 + (chainCommand blockchain).blockchainDataLen.toNat) % 2 ^ 64 :=
    UInt64.toNat_add 8 (chainCommand blockchain).blockchainDataLen
  rw [sum, Nat.mod_eq_of_lt (by omega)]

theorem blockchainCommand_sends {grants frameGrants : Nat → Nat → Bool} (order : ByteOrder)
    (header : CommandHeader) (blockchain : Blockchain) (generous : ∀ ordinal size, grants ordinal size = true)
    (frames : ∀ ordinal size, frameGrants ordinal size = true) (prefixed : header.Prefixed)
    (sends : header.command = Command.sendBlockchain.code) :
    ∃ command size, blockchainCommand grants order header blockchain = .ok command ∧
      commandSendBlockchainSerialize frameGrants order command = .ok (chainMessage blockchain, size) := by
  have serialized := blockchain_serialize_eq generous order blockchain
  let command : CommandSendBlockchain :=
    { header
      blockchainDataLen := UInt64.ofNat (encodeBlockchain blockchain).length
      blockchainData := encodeBlockchain blockchain
      measured := (encodeBlockchain_length_toNat blockchain).symm }
  have filled : blockchainCommand grants order header blockchain = .ok command := by
    rw [blockchainCommand]
    split
    · next code refused =>
      rw [serialized] at refused
      cases refused
    · next blockchainData blockchainDataLen written =>
      rw [serialized] at written
      cases written
      rfl
  have framed : encodeCommandSendBlockchain command.framed = chainMessage blockchain := by
    simp only [chainMessage, encodeCommandSendBlockchain, encodeCommandHeader, chainCommand,
      CommandSendBlockchain.framed, command, sends, show header.commandPrefix = commandPrefix from prefixed]
  refine ⟨command, 16 + 8 + command.blockchainDataLen, filled, ?_⟩
  rw [command_send_blockchain_serialize_eq order frames sends prefixed, framed]

/-- The message with a chain, received in whatever chunks, is taken in whole. -/
theorem receiveCommand_chainMessage (plenty : environment.Plenty) (path_ : path.command = .sendBlockchain)
    (order : ByteOrder) (delivered : stream.contents = chainMessage blockchain) :
    (receiveCommand path environment.receive order stream).outcome = .ok (chainMessage blockchain) := by
  have room := chainMessage_fits blockchain
  have declared := chainCommand_commandLen blockchain
  have message : Message path stream (chainCommand blockchain).header
      ((splitBytes (chainCommand blockchain).blockchainDataLen).toList ++
        (chainCommand blockchain).blockchainData) := by
    refine ⟨rfl, by rw [path_]; rfl, ?_, by rw [delivered]; exact List.prefix_refl _⟩
    rw [List.length_append, Vector.length_toList, (chainCommand blockchain).measured, declared]
  rw [message.received plenty.receive.1 (plenty.receive.2 _) (by omega), chainMessage,
    encodeCommandSendBlockchain]

/-- A chain that is received whole is judged as it is. -/
theorem receiveBlockchain_judges (path : ReceivePath) (plenty : environment.Plenty)
    (path_ : path.command = .sendBlockchain) (fits : blockchain.SignaturesFit)
    (delivered : stream.contents = chainMessage blockchain) :
    receiveBlockchain platform path environment stream =
      if failed : (blockchainVerify platform blockchain).returnCode ≠ .success then
        .error (.failure ⟨(blockchainVerify platform blockchain).returnCode, failed⟩)
      else
        .ok ((chainCommand blockchain).header, blockchain,
          (blockchainVerify platform blockchain).isValidBlockchain.getD false) := by
  have received := receiveCommand_chainMessage plenty path_ platform.order delivered
  have command : decodeBuffer (commandSendBlockchainDeserialize platform.order)
      (Input.ofBuffer (chainMessage blockchain) environment.behindCommand environment.commandGrants) =
      .ok (chainCommand blockchain) :=
    decode_command_send_blockchain plenty.command rfl rfl (chainMessage_fits blockchain)
  have decoded : blockchainDeserialize platform.order
      (Input.ofBuffer (encodeBlockchain blockchain) environment.behindBlockchain
        environment.blockchainGrants) none =
      ⟨.success, some blockchain, (encodeBlockchain blockchain).length⟩ :=
    deserialize_of_holds plenty.blockchain (Input.ofBuffer_holds _ _ _) fits.needs_le fits.acceptable
  have data : (chainCommand blockchain).blockchainData = encodeBlockchain blockchain := rfl
  -- receive, decode the command, decode the chain, verify
  rw [receiveBlockchain, received]
  dsimp only
  rw [command]
  dsimp only
  rw [data, decoded]
  rfl

theorem receiveBlockchain_chainMessage (path : ReceivePath) (plenty : environment.Plenty)
    (path_ : path.command = .sendBlockchain) (fits : blockchain.SignaturesFit)
    (valid : (blockchainVerify platform blockchain).Accepts)
    (delivered : stream.contents = chainMessage blockchain) :
    receiveBlockchain platform path environment stream =
      .ok ((chainCommand blockchain).header, blockchain, true) := by
  rw [receiveBlockchain_judges path plenty path_ fits delivered, dif_neg (not_not.mpr valid.1), valid.2]
  rfl

end Messages

/-! ## The exchange -/

theorem prefersPeer_iff {ourBlockchain peerBlockchain : Blockchain} :
    prefersPeer ourBlockchain peerBlockchain = true ↔
      ourBlockchain.blockList.length < peerBlockchain.blockList.length ∧
        ourBlockchain.numLeadingZeroBytesRequiredInBlockHash =
          peerBlockchain.numLeadingZeroBytesRequiredInBlockHash := by
  rw [prefersPeer, Bool.and_eq_true, decide_eq_true_eq, beq_iff_eq, gt_iff_lt, UInt64.lt_iff_toNat_lt,
    ourBlockchain.length_toNat, peerBlockchain.length_toNat]

/-- Only a longer chain of the same difficulty is taken over. -/
theorem considerPeerBlockchain_valid (sync : Sync) {peerBlockchain : Blockchain}
    (sameDifficulty : sync.blockchain.numLeadingZeroBytesRequiredInBlockHash =
      peerBlockchain.numLeadingZeroBytesRequiredInBlockHash) :
    considerPeerBlockchain sync peerBlockchain true =
      if sync.blockchain.blockList.length < peerBlockchain.blockList.length then
        ⟨peerBlockchain, sync.version + 1⟩
      else
        sync := by
  simp [considerPeerBlockchain, prefersPeer_iff, sameDifficulty]

/-- The local chain and its version once a chain has been received or not. -/
def Sync.considering (sync : Sync) : Except Stop (CommandHeader × Blockchain × Bool) → Sync
  | .error _ => sync
  | .ok (_, peerBlockchain, peerBlockchainIsValid) =>
    considerPeerBlockchain sync peerBlockchain peerBlockchainIsValid

/-- The reply can fail in three places, and the decision stands. -/
theorem handle_one_consensus_request_sync (platform : Platform PKey) (environment : Environment) (sync : Sync)
    (stream : Stream) :
    (handleOneConsensusRequest platform environment sync stream).sync =
      sync.considering (receiveBlockchain platform .handleOneConsensusRequest environment stream) := by
  rw [handleOneConsensusRequest]
  cases receiveBlockchain platform .handleOneConsensusRequest environment stream with
  | error stop => rfl
  | ok received =>
    simp only [Sync.considering]
    split
    · rfl
    · split <;> rfl

section Sides

variable {platform : Platform PKey} {environment : Environment} (sync : Sync) {stream : Stream}
  {blockchain : Blockchain}

/-- A client that gets through sends its chain, whatever it is answered. -/
theorem run_consensus_peer_client_sent (plenty : environment.Plenty) :
    (runConsensusPeerClientOnce platform environment sync stream).sent = chainMessage sync.blockchain := by
  obtain ⟨command, size, filled, framed⟩ := blockchainCommand_sends platform.order
    (.initial .sendBlockchain) sync.blockchain plenty.serialize plenty.frame rfl rfl
  rw [runConsensusPeerClientOnce]
  simp only [plenty.socket, plenty.connects, Bool.not_true, Bool.false_eq_true, if_false, filled, framed,
    plenty.sends, sendAll]
  -- what was sent does not depend on the answer
  split <;> rfl

theorem run_consensus_peer_client_sync (plenty : environment.Plenty) :
    (runConsensusPeerClientOnce platform environment sync stream).sync =
      sync.considering (receiveBlockchain platform .runConsensusPeerClientOnce environment stream) := by
  obtain ⟨command, size, filled, framed⟩ := blockchainCommand_sends platform.order
    (.initial .sendBlockchain) sync.blockchain plenty.serialize plenty.frame rfl rfl
  rw [runConsensusPeerClientOnce]
  simp only [plenty.socket, plenty.connects, Bool.not_true, Bool.false_eq_true, if_false, filled, framed,
    plenty.sends, sendAll]
  cases receiveBlockchain platform .runConsensusPeerClientOnce environment stream with
  | error stop => rfl
  | ok received => rfl

theorem run_consensus_peer_client_answered (plenty : environment.Plenty) {header : CommandHeader} {isValid : Bool}
    (received : receiveBlockchain platform .runConsensusPeerClientOnce environment stream =
      .ok (header, blockchain, isValid)) :
    (runConsensusPeerClientOnce platform environment sync stream).outcome = .ok () ∧
      (runConsensusPeerClientOnce platform environment sync stream).sync =
        considerPeerBlockchain sync blockchain isValid := by
  obtain ⟨command, size, filled, framed⟩ := blockchainCommand_sends platform.order
    (.initial .sendBlockchain) sync.blockchain plenty.serialize plenty.frame rfl rfl
  rw [runConsensusPeerClientOnce]
  simp only [plenty.socket, plenty.connects, Bool.not_true, Bool.false_eq_true, if_false, filled, framed,
    plenty.sends, sendAll, received]
  exact ⟨trivial, trivial⟩

theorem run_consensus_peer_client_failed (plenty : environment.Plenty) {stop : Stop}
    (received : receiveBlockchain platform .runConsensusPeerClientOnce environment stream = .error stop) :
    (runConsensusPeerClientOnce platform environment sync stream).outcome = .error stop := by
  obtain ⟨command, size, filled, framed⟩ := blockchainCommand_sends platform.order
    (.initial .sendBlockchain) sync.blockchain plenty.serialize plenty.frame rfl rfl
  rw [runConsensusPeerClientOnce]
  simp only [plenty.socket, plenty.connects, Bool.not_true, Bool.false_eq_true, if_false, filled, framed,
    plenty.sends, sendAll, received]

/-- A server sent a chain considers it and answers with the chain it then has. -/
theorem handle_one_consensus_request_served (plenty : environment.Plenty) {isValid : Bool}
    (received : receiveBlockchain platform .handleOneConsensusRequest environment stream =
      .ok ((chainCommand blockchain).header, blockchain, isValid)) :
    handleOneConsensusRequest platform environment sync stream =
      ⟨.ok (), considerPeerBlockchain sync blockchain isValid,
        chainMessage (considerPeerBlockchain sync blockchain isValid).blockchain, [.lock, .unlock]⟩ := by
  obtain ⟨command, size, filled, framed⟩ := blockchainCommand_sends platform.order
    (chainCommand blockchain).header (considerPeerBlockchain sync blockchain isValid).blockchain
    plenty.serialize plenty.frame rfl rfl
  rw [handleOneConsensusRequest]
  simp only [received, filled, framed, plenty.sends, sendAll]

theorem handle_one_consensus_request_failed {stop : Stop}
    (received : receiveBlockchain platform .handleOneConsensusRequest environment stream = .error stop) :
    (handleOneConsensusRequest platform environment sync stream).outcome = .error stop := by
  rw [handleOneConsensusRequest, received]

end Sides

/-- A call that nothing goes wrong in. -/
def Environment.ideal : Environment where
  socket := true
  connects := true
  breaksAfter := none
  receive := .plenty
  commandGrants := grantAll
  blockchainGrants := grantAll
  serializeGrants := grantAll
  frameGrants := grantAll
  behindCommand := fun _ => 0
  behindBlockchain := fun _ => 0

theorem Environment.ideal_plenty : Environment.ideal.Plenty where
  socket := rfl
  connects := rfl
  sends := rfl
  receive := ⟨rfl, fun _ => rfl⟩
  command := fun _ _ => rfl
  blockchain := fun _ _ => rfl
  serialize := fun _ _ => rfl
  frame := fun _ _ => rfl

theorem sampleChain_length (mined : UInt8) : (sampleChain mined).blockList.length = mined.toNat + 1 := by
  rw [sampleChain, List.length_cons, List.length_replicate]

theorem sampleChain_accepted (mined : UInt8) : (blockchainVerify Platform.lenient (sampleChain mined)).Accepts := by
  have small : (sampleChain mined).numLeadingZeroBytesRequiredInBlockHash.toNat ≤ 32 := Nat.zero_le 32
  exact (accepts_iff_validChain small).mpr (sampleChain_valid mined)

end LeoCoin
