import LeoCoin.Consensus
import LeoCoin.Portability

/-! # One decision on both sides

`handle_one_consensus_request` and `run_consensus_peer_client_once` spell out the same
decision twice.  What they do to `sync` depends on nothing but what `receiveBlockchain`
makes of the stream, and that is the same on both sides but for memory that nobody has
set: behind the decoded bytes, and behind the hashes that `blockchain_verify` compares.
The decoder reads the former when a chain's last signature array is cut off behind its
declared bytes, and a difficulty above 32 makes `memcmp` read the latter; then the two
sides can decide differently about one stream.
-/

namespace LeoCoin

open Library.Decoding

variable {PKey : Type}

/-! ## What a stream delivers -/

/-- No allocation on the receiving side is refused. -/
structure Environment.Receives (environment : Environment) : Prop where
  receive : environment.receive.calloc = true ∧ ∀ size, environment.receive.realloc size = true
  command : ∀ ordinal size, environment.commandGrants ordinal size = true
  blockchain : ∀ ordinal size, environment.blockchainGrants ordinal size = true

theorem Environment.Plenty.receives {environment : Environment} (plenty : environment.Plenty) :
    environment.Receives :=
  ⟨plenty.receive, plenty.command, plenty.blockchain⟩

/-- The stream begins with a whole `COMMAND_SEND_BLOCKCHAIN` message that declares and has
these bytes of a chain. -/
def Delivers (stream : Stream) (header : CommandHeader) (data : List UInt8) : Prop :=
  ∃ payload dataLen, Message .handleOneConsensusRequest stream header payload ∧ Declares payload dataLen data

theorem Delivers.unique {stream : Stream} {header otherHeader : CommandHeader} {data otherData : List UInt8}
    (delivers : Delivers stream header data) (other : Delivers stream otherHeader otherData) : data = otherData := by
  obtain ⟨payload, dataLen, message, declares⟩ := delivers
  obtain ⟨otherPayload, otherLen, otherMessage, otherDeclares⟩ := other
  obtain ⟨-, rfl⟩ := message.unique otherMessage
  exact (declares.unique otherDeclares).2

/-- The length fields of a message that the stream begins with are below `2 ^ 63`. -/
structure SmallLengths (stream : Stream) : Prop where
  command : ∀ header, encodeCommandHeader header <+: stream.contents → header.commandLen.toNat < 2 ^ 63
  data : ∀ header dataLen, declaredPart header dataLen <+: stream.contents → dataLen.toNat < 2 ^ 63

/-- The verdict on the bytes of a chain. -/
def judge (platform : Platform PKey) (environment : Environment) (header : CommandHeader)
    (data : List UInt8) : Except Stop (CommandHeader × Blockchain × Bool) :=
  let decoded := blockchainDeserialize platform.order
    (Input.ofBuffer data environment.behindBlockchain environment.blockchainGrants) none
  if failed : decoded.returnCode ≠ .success then
    .error (.failure ⟨decoded.returnCode, failed⟩)
  else
    match decoded.blockchain with
    | none => .error .undefined
    | some peerBlockchain =>
      let verification := blockchainVerify platform peerBlockchain
      if failed : verification.returnCode ≠ .success then
        .error (.failure ⟨verification.returnCode, failed⟩)
      else
        .ok (header, peerBlockchain, verification.isValidBlockchain.getD false)

section Received

variable {platform : Platform PKey} {environment : Environment} {path : ReceivePath} {stream : Stream}

theorem receiveBlockchain_delivers (receives : environment.Receives) (path_ : path.command = .sendBlockchain)
    (small : SmallLengths stream) {header : CommandHeader} {data : List UInt8}
    (delivers : Delivers stream header data) :
    receiveBlockchain platform path environment stream = judge platform environment header data := by
  obtain ⟨payload, dataLen, message, declares⟩ := delivers
  have onPath : Message path stream header payload := message.onPath path_.symm
  have few := small.command header ((List.prefix_append _ _).trans message.delivered)
  have fits : 24 + dataLen.toNat < 2 ^ 64 := by
    have begins : declaredPart header dataLen <+: stream.contents := by
      obtain ⟨rest, split⟩ := declares.message header
      refine List.IsPrefix.trans ?_ message.delivered
      rw [split]
      exact List.prefix_append _ _
    have bounded := small.data header dataLen begins
    omega
  have received : (receiveCommand path environment.receive platform.order stream).outcome = _ :=
    onPath.received receives.receive.1 (receives.receive.2 _) (by omega)
  obtain ⟨command, decoded, contents⟩ := command_send_blockchain_declares platform.order message.prefixed
    message.command fits declares receives.command
  obtain ⟨sameHeader, sameRest⟩ := Prod.mk.inj contents
  obtain ⟨-, sameData⟩ := Prod.mk.inj sameRest
  have sameHeader : command.header = header := sameHeader
  have sameData : command.blockchainData = data := sameData
  subst sameHeader sameData
  rw [receiveBlockchain, received]
  dsimp only
  rw [decoded]
  rfl

theorem receiveBlockchain_silent (path_ : path.command = .sendBlockchain) (small : SmallLengths stream)
    (silent : ∀ header data, ¬ Delivers stream header data) :
    ∃ stop, receiveBlockchain platform path environment stream = .error stop := by
  rw [receiveBlockchain]
  cases received : (receiveCommand path environment.receive platform.order stream).outcome with
  | error stop => exact ⟨stop, rfl⟩
  | ok recvBuf =>
    obtain ⟨header, payload, message, rfl⟩ := message_of_received received
    have message : Message .handleOneConsensusRequest stream header payload := message.onPath path_
    dsimp only
    cases decoded : decodeBuffer (commandSendBlockchainDeserialize platform.order)
        (Input.ofBuffer (encodeCommandHeader header ++ payload) environment.behindCommand
          environment.commandGrants) with
    | error code => exact ⟨_, rfl⟩
    | ok command =>
      have fits (len : UInt64) (begins : (splitBytes len).toList <+: payload) : 24 + len.toNat < 2 ^ 64 := by
        have part : declaredPart header len <+: stream.contents :=
          ((List.prefix_append_right_inj _).mpr begins).trans message.delivered
        have bounded := small.data header len part
        omega
      obtain ⟨len, data, declares⟩ := declares_of_command_send_blockchain message.prefixed message.command
        fits decoded
      exact absurd ⟨payload, len, message, declares⟩ (silent header data)

end Received

/-! ## The decision -/

/-- The stream brings a chain to switch to: header and command decode, the chain decodes with
this memory behind its bytes, it is found valid, it is longer than ours and as difficult. -/
structure Adoptable (platform : Platform PKey) (sync : Sync) (stream : Stream) (behind : Nat → UInt8)
    (blockchain : Blockchain) : Prop where
  decodes : ∃ header data examined, Delivers stream header data ∧
    blockchainDeserialize platform.order (Input.ofBuffer data behind grantAll) none =
      ⟨.success, some blockchain, examined⟩
  valid : (blockchainVerify platform blockchain).Accepts
  longer : sync.blockchain.blockList.length < blockchain.blockList.length
  sameDifficulty : sync.blockchain.numLeadingZeroBytesRequiredInBlockHash =
    blockchain.numLeadingZeroBytesRequiredInBlockHash

section Decision

variable {platform : Platform PKey} {environment : Environment} {path : ReceivePath} {sync : Sync}
  {stream : Stream}

theorem Environment.Receives.blockchainGrants (receives : environment.Receives) :
    environment.blockchainGrants = grantAll := by
  funext ordinal size
  exact receives.blockchain ordinal size

theorem Sync.considering_judge_adopts (receives : environment.Receives) {header : CommandHeader}
    {data : List UInt8} {blockchain : Blockchain} {examined : Nat}
    (decoded : blockchainDeserialize platform.order
      (Input.ofBuffer data environment.behindBlockchain grantAll) none = ⟨.success, some blockchain, examined⟩)
    (valid : (blockchainVerify platform blockchain).Accepts)
    (preferred : prefersPeer sync.blockchain blockchain = true) :
    sync.considering (judge platform environment header data) = ⟨blockchain, sync.version + 1⟩ := by
  obtain ⟨succeeded, accepted⟩ := valid
  rw [judge, receives.blockchainGrants, decoded]
  simp [succeeded, accepted, Sync.considering, considerPeerBlockchain, preferred]

theorem Sync.considering_judge_keeps (receives : environment.Receives) {header : CommandHeader}
    {data : List UInt8}
    (unwanted : ∀ blockchain examined, blockchainDeserialize platform.order
        (Input.ofBuffer data environment.behindBlockchain grantAll) none = ⟨.success, some blockchain, examined⟩ →
      (blockchainVerify platform blockchain).Accepts → ¬ prefersPeer sync.blockchain blockchain = true) :
    sync.considering (judge platform environment header data) = sync := by
  rw [judge, receives.blockchainGrants]
  cases decoded : blockchainDeserialize platform.order
      (Input.ofBuffer data environment.behindBlockchain grantAll) none with
  | mk returnCode result examined =>
    dsimp only
    split
    · rfl
    next succeeded =>
      cases result with
      | none => rfl
      | some blockchain =>
        dsimp only
        split
        · rfl
        next verified =>
          rw [Sync.considering, considerPeerBlockchain, if_neg]
          intro adopts
          obtain ⟨accepted, preferred⟩ := Bool.and_eq_true_iff.mp adopts
          have valid : (blockchainVerify platform blockchain).isValidBlockchain = some true := by
            cases verdict : (blockchainVerify platform blockchain).isValidBlockchain with
            | none => simp [verdict] at accepted
            | some isValid => simpa [verdict] using accepted
          rw [not_not.mp succeeded] at decoded
          exact unwanted blockchain examined decoded ⟨not_not.mp verified, valid⟩ preferred

theorem Adoptable.considering (receives : environment.Receives) (path_ : path.command = .sendBlockchain)
    (small : SmallLengths stream) {blockchain : Blockchain}
    (adoptable : Adoptable platform sync stream environment.behindBlockchain blockchain) :
    sync.considering (receiveBlockchain platform path environment stream) = ⟨blockchain, sync.version + 1⟩ := by
  obtain ⟨header, data, examined, delivers, decoded⟩ := adoptable.decodes
  rw [receiveBlockchain_delivers receives path_ small delivers]
  exact Sync.considering_judge_adopts receives decoded adoptable.valid
    (prefersPeer_iff.mpr ⟨adoptable.longer, adoptable.sameDifficulty⟩)

theorem considering_of_not_adoptable (receives : environment.Receives) (path_ : path.command = .sendBlockchain)
    (small : SmallLengths stream)
    (none_ : ∀ blockchain, ¬ Adoptable platform sync stream environment.behindBlockchain blockchain) :
    sync.considering (receiveBlockchain platform path environment stream) = sync := by
  by_cases silent : ∀ header data, ¬ Delivers stream header data
  · obtain ⟨stop, stopped⟩ : ∃ stop, receiveBlockchain platform path environment stream = .error stop :=
      receiveBlockchain_silent path_ small silent
    rw [stopped, Sync.considering]
  · push Not at silent
    obtain ⟨header, data, delivers⟩ := silent
    rw [receiveBlockchain_delivers receives path_ small delivers]
    apply Sync.considering_judge_keeps receives
    intro blockchain examined decoded valid preferred
    obtain ⟨longer, sameDifficulty⟩ := prefersPeer_iff.mp preferred
    exact none_ blockchain ⟨⟨header, data, examined, delivers, decoded⟩, valid, longer, sameDifficulty⟩

/-- A side that ends up with a longer chain has adopted it. -/
theorem adoptable_of_considering (receives : environment.Receives) (path_ : path.command = .sendBlockchain)
    (small : SmallLengths stream) {blockchain : Blockchain}
    (longer : sync.blockchain.blockList.length < blockchain.blockList.length)
    (switched : sync.considering (receiveBlockchain platform path environment stream) =
      ⟨blockchain, sync.version + 1⟩) :
    Adoptable platform sync stream environment.behindBlockchain blockchain := by
  by_cases adopts : ∃ other, Adoptable platform sync stream environment.behindBlockchain other
  · obtain ⟨other, adoptable⟩ := adopts
    rw [adoptable.considering receives path_ small] at switched
    exact (Sync.mk.inj switched).1 ▸ adoptable
  · rw [considering_of_not_adoptable receives path_ small fun other adoptable => adopts ⟨other, adoptable⟩]
      at switched
    rw [(congrArg Sync.blockchain switched : sync.blockchain = blockchain)] at longer
    exact absurd longer (Nat.lt_irrefl _)

/-- A chain that lies in the delivered bytes as a whole decodes with any memory behind them. -/
theorem Adoptable.anywhere {behind : Nat → UInt8} {blockchain : Blockchain}
    (adoptable : Adoptable platform sync stream behind blockchain)
    (whole : ∀ header data, Delivers stream header data → Carries data blockchain →
      (encodeBlockchain blockchain).length ≤ data.length) (other : Nat → UInt8) :
    Adoptable platform sync stream other blockchain := by
  obtain ⟨header, data, examined, delivers, decoded⟩ := adoptable.decodes
  have carries := carries_of_deserialize decoded
  have begins : encodeBlockchain blockchain <+: data := by
    cases carries.agrees with
    | inl begins => exact begins
    | inr cut =>
      have same := cut.eq_of_length_le (whole header data delivers carries)
      exact same ▸ List.prefix_refl _
  obtain ⟨rest, rfl⟩ := begins
  have held : (Input.ofBuffer (encodeBlockchain blockchain ++ rest) other grantAll).Holds 0
      (encodeBlockchain blockchain) := (Input.holds_append.mp (Input.ofBuffer_holds _ _ _)).1
  exact ⟨⟨header, _, _, delivers, deserialize_of_holds (generous_ofBuffer _ _) held carries.inside
    carries.acceptable⟩, adoptable.valid, adoptable.longer, adoptable.sameDifficulty⟩

end Decision

/-! ## The stack -/

section Stack

variable {platform : Platform PKey} {blockchain : Blockchain}

/-- Nothing on the stack decides about the chain: its difficulty asks for no byte behind a
hash, or it has no block whose work is checked. -/
def DecidedByItself (blockchain : Blockchain) : Prop :=
  blockchain.numLeadingZeroBytesRequiredInBlockHash.toNat ≤ 32 ∨ blockchain.blockList.length ≤ 1

theorem DecidedByItself.verify (decided : DecidedByItself blockchain) (stack other : StackBytes) :
    blockchainVerify (platform.onStack stack) blockchain = blockchainVerify (platform.onStack other) blockchain := by
  cases decided with
  | inl small =>
    have oracles : SameOracles (platform.onStack stack) (platform.onStack other) := ⟨rfl, rfl, rfl⟩
    exact oracles.blockchainVerify rfl small
  | inr short =>
    cases items : blockchain.blockList with
    | nil => simp [blockchainVerify, items]
    | cons genesis rest =>
      have none : rest = [] := by
        rw [items, List.length_cons] at short
        exact List.eq_nil_of_length_eq_zero (by omega)
      subst none
      simp [blockchainVerify, items, verifyBlocks]

/-- Two unequal bytes behind the hashes: no work is enough for a difficulty above 32. -/
def unequalStack : StackBytes := ⟨fun _ => 1, fun _ => 0⟩

theorem rejected_onStack (undecided : ¬ DecidedByItself blockchain) :
    ¬ (blockchainVerify (platform.onStack unequalStack) blockchain).Accepts := by
  intro accepts
  obtain ⟨large, long⟩ := not_or.mp undecided
  cases items : blockchain.blockList with
  | nil =>
    rw [items] at long
    exact long (Nat.zero_le 1)
  | cons genesis later =>
    cases later with
    | nil =>
      rw [items] at long
      exact long (Nat.le_refl 1)
    | cons block rest =>
      rw [blockchainVerify_genesis items (validGenesis_of_accepts items accepts), verifyBlocks] at accepts
      cases verdict : verifyBlock (platform.onStack unequalStack)
          blockchain.numLeadingZeroBytesRequiredInBlockHash (blockHash (platform.onStack unequalStack) genesis)
          block with
      | failed code =>
        rw [verdict] at accepts
        exact absurd accepts.2 (by simp)
      | invalid reported =>
        rw [verdict] at accepts
        exact absurd accepts.2 (by simp)
      | valid hash =>
        -- the comparison has come to the first byte behind the hashes
        have work := (verifyBlock_valid verdict).1.work
        rw [compareWithEmptyHash, memcmp_eq_zero] at work
        have behind := work 32 (by omega)
        simp [memoryOf, Platform.onStack, unequalStack] at behind

theorem Adoptable.onStack {sync : Sync} {stream : Stream} {behind : Nat → UInt8} {stack : StackBytes}
    (adoptable : Adoptable (platform.onStack stack) sync stream behind blockchain)
    (decided : DecidedByItself blockchain) (other : StackBytes) :
    Adoptable (platform.onStack other) sync stream behind blockchain :=
  ⟨adoptable.decodes, decided.verify stack other ▸ adoptable.valid, adoptable.longer, adoptable.sameDifficulty⟩

end Stack

/-! ## Both sides -/

/-- Both sides make the same switch, and the right one: they take the received chain over
with one more version when it can be adopted, and change nothing otherwise. -/
def DecideAlike (platform : Platform PKey) (sync : Sync) (stream : Stream) : Prop :=
  ∀ (server client : Environment) (serverStack clientStack : StackBytes), server.Receives → client.Plenty →
    let served := (handleOneConsensusRequest (platform.onStack serverStack) server sync stream).sync
    let answered := (runConsensusPeerClientOnce (platform.onStack clientStack) client sync stream).sync
    served = answered ∧
      (∀ blockchain, Adoptable (platform.onStack serverStack) sync stream server.behindBlockchain blockchain →
        served = ⟨blockchain, sync.version + 1⟩) ∧
      ((∀ blockchain, ¬ Adoptable (platform.onStack serverStack) sync stream server.behindBlockchain blockchain) →
        served = sync)

/-- The chain that the data carries would be switched to in some call. -/
structure Wanted (platform : Platform PKey) (sync : Sync) (stream : Stream) (data : List UInt8)
    (blockchain : Blockchain) : Prop where
  delivered : ∃ header, Delivers stream header data
  carried : Carries data blockchain
  valid : ∃ stack, (blockchainVerify (platform.onStack stack) blockchain).Accepts
  longer : sync.blockchain.blockList.length < blockchain.blockList.length
  sameDifficulty : sync.blockchain.numLeadingZeroBytesRequiredInBlockHash =
    blockchain.numLeadingZeroBytesRequiredInBlockHash

section Sides

variable {platform : Platform PKey} {sync : Sync} {stream : Stream} {data : List UInt8} {blockchain : Blockchain}

theorem Wanted.adoptable (wanted : Wanted platform sync stream data blockchain) : ∃ stack behind,
    Adoptable (platform.onStack stack) sync stream behind blockchain ∧
      (Input.ofBuffer data behind grantAll).Holds 0 (encodeBlockchain blockchain) := by
  obtain ⟨header, delivers⟩ := wanted.delivered
  obtain ⟨stack, valid⟩ := wanted.valid
  obtain ⟨behind, decodes⟩ := wanted.carried.deserialize
  exact ⟨stack, behind, ⟨⟨header, data, _, delivers, decodes platform.order none⟩, valid, wanted.longer,
    wanted.sameDifficulty⟩, (holds_of_deserialize (decodes platform.order none)).1⟩

theorem Adoptable.wanted {stack : StackBytes} {behind : Nat → UInt8}
    (adoptable : Adoptable (platform.onStack stack) sync stream behind blockchain) :
    ∃ data, Wanted platform sync stream data blockchain := by
  obtain ⟨header, data, examined, delivers, decoded⟩ := adoptable.decodes
  exact ⟨data, ⟨header, delivers⟩, carries_of_deserialize decoded, ⟨stack, adoptable.valid⟩, adoptable.longer,
    adoptable.sameDifficulty⟩

/-- A chain to switch to that is cut off lets the two sides differ. -/
theorem not_decideAlike_of_cut (small : SmallLengths stream) (wanted : Wanted platform sync stream data blockchain)
    (cut : data.length < (encodeBlockchain blockchain).length) : ¬ DecideAlike platform sync stream := by
  intro alike
  obtain ⟨stack, behind, adoptable, serverHeld⟩ := wanted.adoptable
  -- one byte behind the data tells the two memories apart
  let server : Environment := { Environment.ideal with behindBlockchain := behind }
  let client : Environment := { Environment.ideal with behindBlockchain := fun offset => behind offset + 1 }
  have serverPlenty : server.Plenty := { Environment.ideal_plenty with }
  have clientPlenty : client.Plenty := { Environment.ideal_plenty with }
  obtain ⟨same, switches, -⟩ := alike server client stack stack serverPlenty.receives clientPlenty
  rw [switches blockchain adoptable, run_consensus_peer_client_sync sync clientPlenty] at same
  obtain ⟨otherHeader, otherData, examined, otherDelivers, otherDecoded⟩ :=
    (adoptable_of_considering clientPlenty.receives rfl small wanted.longer same.symm).decodes
  obtain ⟨header, delivers⟩ := wanted.delivered
  obtain rfl := delivers.unique otherDelivers
  obtain ⟨clientHeld, -⟩ := holds_of_deserialize otherDecoded
  have clash := (serverHeld data.length cut).trans (clientHeld data.length cut).symm
  simp [Input.ofBuffer, client] at clash

/-- A chain that one side accepts for what lies on its stack the other one can reject. -/
theorem not_decideAlike_of_undecided (small : SmallLengths stream)
    (wanted : Wanted platform sync stream data blockchain) (undecided : ¬ DecidedByItself blockchain) :
    ¬ DecideAlike platform sync stream := by
  intro alike
  obtain ⟨stack, behind, adoptable, -⟩ := wanted.adoptable
  let server : Environment := { Environment.ideal with behindBlockchain := behind }
  have plenty : server.Plenty := { Environment.ideal_plenty with }
  obtain ⟨same, switches, -⟩ := alike server server stack unequalStack plenty.receives plenty
  rw [switches blockchain adoptable, run_consensus_peer_client_sync sync plenty] at same
  have other := adoptable_of_considering plenty.receives rfl small wanted.longer same.symm
  exact rejected_onStack undecided other.valid

end Sides

/-- The two sides decide alike exactly when no chain to switch to is cut off in the bytes that
no check of the decoder asks for, and none is so difficult that its verdict depends on the stack. -/
theorem decide_alike_iff (platform : Platform PKey) (sync : Sync) (stream : Stream) (small : SmallLengths stream) :
    DecideAlike platform sync stream ↔
      ∀ data blockchain, Wanted platform sync stream data blockchain →
        (encodeBlockchain blockchain).length ≤ data.length ∧ DecidedByItself blockchain := by
  constructor
  · intro alike data blockchain wanted
    constructor
    · by_contra cut
      exact not_decideAlike_of_cut small wanted (Nat.lt_of_not_le cut) alike
    · by_contra undecided
      exact not_decideAlike_of_undecided small wanted undecided alike
  · intro whole server client serverStack clientStack receives plenty
    -- what one side can adopt the other one can
    have carried {stack other : StackBytes} {behind : Nat → UInt8} {blockchain : Blockchain}
        (adoptable : Adoptable (platform.onStack stack) sync stream behind blockchain) (elsewhere : Nat → UInt8) :
        Adoptable (platform.onStack other) sync stream elsewhere blockchain := by
      obtain ⟨data, wanted⟩ := adoptable.wanted
      obtain ⟨inside, decided⟩ := whole data blockchain wanted
      obtain ⟨header, delivers⟩ := wanted.delivered
      refine (adoptable.onStack decided other).anywhere (fun _ otherData otherDelivers _ => ?_) elsewhere
      rwa [otherDelivers.unique delivers]
    rw [handle_one_consensus_request_sync, run_consensus_peer_client_sync sync plenty]
    by_cases adopts : ∃ blockchain,
        Adoptable (platform.onStack serverStack) sync stream server.behindBlockchain blockchain
    · obtain ⟨blockchain, adoptable⟩ := adopts
      have alsoClient : Adoptable (platform.onStack clientStack) sync stream client.behindBlockchain blockchain :=
        carried adoptable _
      have served : sync.considering
          (receiveBlockchain (platform.onStack serverStack) .handleOneConsensusRequest server stream) = _ :=
        adoptable.considering receives rfl small
      have answered : sync.considering
          (receiveBlockchain (platform.onStack clientStack) .runConsensusPeerClientOnce client stream) = _ :=
        alsoClient.considering plenty.receives rfl small
      refine ⟨served.trans answered.symm, ?_, fun none_ => absurd adoptable (none_ blockchain)⟩
      intro other otherAdoptable
      exact otherAdoptable.considering receives rfl small
    · push Not at adopts
      have clientNone (blockchain : Blockchain) :
          ¬ Adoptable (platform.onStack clientStack) sync stream client.behindBlockchain blockchain :=
        fun adoptable => adopts blockchain (carried adoptable _)
      have served : sync.considering
          (receiveBlockchain (platform.onStack serverStack) .handleOneConsensusRequest server stream) = sync :=
        considering_of_not_adoptable receives rfl small adopts
      have answered : sync.considering
          (receiveBlockchain (platform.onStack clientStack) .runConsensusPeerClientOnce client stream) = sync :=
        considering_of_not_adoptable plenty.receives rfl small clientNone
      exact ⟨served.trans answered.symm, fun blockchain adoptable => absurd adoptable (adopts blockchain),
        fun _ => served⟩

/-! ## Sample streams -/

def dataHeader (data : List UInt8) : CommandHeader :=
  ⟨commandPrefix, Command.sendBlockchain.code, 8 + UInt64.ofNat data.length⟩

/-- A message with these bytes for a chain, and nothing after it. -/
def dataStream (data : List UInt8) : Stream :=
  .chunk (encodeCommandHeader (dataHeader data) ++ ((splitBytes (UInt64.ofNat data.length)).toList ++ data)) .closed

section DataStream

variable {data : List UInt8}

theorem dataStream_contents (data : List UInt8) : (dataStream data).contents =
    encodeCommandHeader (dataHeader data) ++ ((splitBytes (UInt64.ofNat data.length)).toList ++ data) :=
  List.append_nil _

theorem dataStream_lengths (few : data.length < 2 ^ 62) :
    (UInt64.ofNat data.length).toNat = data.length ∧ (dataHeader data).commandLen.toNat = 8 + data.length := by
  have own : (UInt64.ofNat data.length).toNat = data.length := by
    rw [UInt64.toNat_ofNat']
    omega
  have sum : (8 + UInt64.ofNat data.length).toNat = (8 + (UInt64.ofNat data.length).toNat) % 2 ^ 64 :=
    UInt64.toNat_add 8 _
  refine ⟨own, ?_⟩
  rw [dataHeader, sum, own]
  exact Nat.mod_eq_of_lt (by omega)

theorem dataStream_small (few : data.length < 2 ^ 62) : SmallLengths (dataStream data) := by
  obtain ⟨own, sum⟩ := dataStream_lengths few
  constructor
  · rintro header ⟨rest, begins⟩
    rw [dataStream_contents] at begins
    obtain rfl := encodeCommandHeader_injective (List.append_inj begins (by simp)).1
    omega
  · rintro header dataLen ⟨rest, begins⟩
    rw [dataStream_contents, declaredPart, List.append_assoc] at begins
    obtain ⟨-, tails⟩ := List.append_inj begins (by simp)
    obtain rfl := splitBytes_injective (Vector.toList_inj.mp (List.append_inj tails (by simp)).1)
    omega

theorem dataStream_delivers (few : data.length < 2 ^ 62) : Delivers (dataStream data) (dataHeader data) data := by
  obtain ⟨own, sum⟩ := dataStream_lengths few
  have message : Message .handleOneConsensusRequest (dataStream data) (dataHeader data)
      ((splitBytes (UInt64.ofNat data.length)).toList ++ data) := by
    have length : ((splitBytes (UInt64.ofNat data.length)).toList ++ data).length = 8 + data.length := by simp
    exact ⟨rfl, rfl, length.trans sum.symm, dataStream_contents data ▸ List.prefix_refl _⟩
  exact ⟨_, _, message, own.symm, List.prefix_refl _⟩

end DataStream

/-- A chain that is sent whole. -/
theorem decide_alike_iff_sample :
    SmallLengths (dataStream (encodeBlockchain (sampleChain 1))) ∧
      DecideAlike Platform.lenient ⟨sampleChain 0, 0⟩ (dataStream (encodeBlockchain (sampleChain 1))) := by
  have few : (encodeBlockchain (sampleChain 1)).length < 2 ^ 62 := by
    have bound := encodeBlockchain_length_le (sampleChain 1)
    have memory : chainMemory (sampleChain 1).blockList < 2 ^ 60 := by decide
    omega
  have small := dataStream_small few
  refine ⟨small, (decide_alike_iff Platform.lenient ⟨sampleChain 0, 0⟩ _ small).mpr ?_⟩
  intro data blockchain wanted
  have easy : blockchain.numLeadingZeroBytesRequiredInBlockHash.toNat ≤ 32 := by
    rw [← wanted.sameDifficulty]
    exact Nat.zero_le 32
  refine ⟨?_, .inl easy⟩
  obtain ⟨header, delivers⟩ := wanted.delivered
  obtain rfl := delivers.unique (dataStream_delivers few)
  cases wanted.carried.agrees with
  | inl begins => exact begins.length_le
  | inr begins =>
    rw [encodeBlockchain_prefix_unique (sampleChain_signaturesFit 1).acceptable wanted.carried.acceptable begins]

/-- A genesis block and a block whose signature fills half of its array. -/
def halfSignedMinedChain : Blockchain :=
  ⟨[blockCreateGenesisBlock 0, blockCreate 0
    [{ sampleTransaction with senderSignature := ⟨256, Vector.replicate 512 0⟩ }] 0 Sha256.zero], 0, by decide⟩

theorem halfSignedMinedChain_valid : ValidChain Platform.lenient halfSignedMinedChain := by
  refine .inr ⟨_, _, rfl, ⟨rfl, rfl, rfl⟩, .cons_cons ⟨?_, rfl, ⟨_, [], rfl, rfl, rfl⟩, ?_⟩ (.singleton _)⟩
  · intro index bound inside
    exact absurd inside (Nat.not_lt_zero _)
  · intro transaction member
    rfl

theorem halfSignedMinedChain_signaturesFit : halfSignedMinedChain.SignaturesFit := by
  intro block member transaction inBlock
  simp only [halfSignedMinedChain, List.mem_cons, List.not_mem_nil, or_false] at member
  cases member with
  | inl genesis =>
    subst genesis
    cases inBlock
  | inr minted =>
    subst minted
    simp only [blockCreate, List.mem_singleton] at inBlock
    subst inBlock
    exact Nat.le_of_ble_eq_true rfl

theorem halfSignedMinedChain_length : (encodeBlockchain halfSignedMinedChain).length = 8856 := by
  simp [encodeBlockchain, halfSignedMinedChain, encodeBlock_length, blockCreate, blockCreateGenesisBlock]

/-- Without its last byte the chain still decodes, to whatever lies behind it: one side can
take over what the other one does not. -/
theorem cut_chain_decided_differently :
    let stream := dataStream ((encodeBlockchain halfSignedMinedChain).take 8855)
    SmallLengths stream ∧ ¬ DecideAlike Platform.lenient ⟨sampleChain 0, 0⟩ stream := by
  intro stream
  have length : ((encodeBlockchain halfSignedMinedChain).take 8855).length = 8855 := by
    rw [List.length_take, halfSignedMinedChain_length]
    rfl
  have few : ((encodeBlockchain halfSignedMinedChain).take 8855).length < 2 ^ 62 := by
    rw [length]
    decide
  have needs : blockchainNeeds halfSignedMinedChain = 8600 := by decide
  have carries : Carries ((encodeBlockchain halfSignedMinedChain).take 8855) halfSignedMinedChain :=
    ⟨.inr (List.take_prefix _ _), by rw [needs, length]; decide, halfSignedMinedChain_signaturesFit.acceptable⟩
  have small : halfSignedMinedChain.numLeadingZeroBytesRequiredInBlockHash.toNat ≤ 32 := Nat.zero_le 32
  have valid := (accepts_iff_validChain small).mpr halfSignedMinedChain_valid
  have longer : (sampleChain 0).blockList.length < halfSignedMinedChain.blockList.length := Nat.one_lt_two
  refine ⟨dataStream_small few, ?_⟩
  have wanted : Wanted Platform.lenient ⟨sampleChain 0, 0⟩ stream _ halfSignedMinedChain :=
    ⟨⟨_, dataStream_delivers few⟩, carries, ⟨⟨fun _ => 0, fun _ => 0⟩, valid⟩, longer, rfl⟩
  exact not_decideAlike_of_cut (dataStream_small few) wanted (by rw [length, halfSignedMinedChain_length]; decide)

end LeoCoin
