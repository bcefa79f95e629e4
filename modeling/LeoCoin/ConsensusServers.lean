import LeoCoin.ConsensusClient

/-! # A round with servers

The peers of a round run `handle_one_consensus_request` themselves, and each exchange can
change both chains.  A server only ever takes over a chain of the client's, which is no
longer than the one the client ends up with, so the order of the peers does not matter.
-/

namespace LeoCoin

open Library.Decoding

variable {PKey : Type}

/-! ## What is sent -/

theorem chainMessage_of_serialize {grants frameGrants : Nat → Nat → Bool} {order : ByteOrder}
    {header : CommandHeader} {blockchain : Blockchain} {command : CommandSendBlockchain} {sendBuf : List UInt8}
    {size : UInt64} (filled : blockchainCommand grants order header blockchain = .ok command)
    (framed : commandSendBlockchainSerialize frameGrants order command = .ok (sendBuf, size)) :
    sendBuf = chainMessage blockchain := by
  rw [blockchainCommand] at filled
  split at filled
  · cases filled
  next blockchainData blockchainDataLen serialized =>
    cases filled
    obtain ⟨rfl, rfl⟩ := Prod.mk.inj (blockchain_serialize_sound serialized)
    rw [command_send_blockchain_serialize_eq_writeDeclared] at framed
    exact writeDeclared_sound framed

theorem requestBlockchain_prefix (order : ByteOrder) (environment : Environment) (sync : Sync) :
    (requestBlockchain order environment sync).2 <+: chainMessage sync.blockchain := by
  rw [requestBlockchain]
  split
  · exact List.nil_prefix
  · split
    · exact List.nil_prefix
    · split
      · exact List.nil_prefix
      next command filled =>
        split
        · exact List.nil_prefix
        next sendBuf size framed =>
          rw [← chainMessage_of_serialize filled framed]
          exact sendAll_prefix environment.breaksAfter sendBuf

theorem handle_one_consensus_request_prefix (platform : Platform PKey) (environment : Environment) (sync : Sync)
    (stream : Stream) : (handleOneConsensusRequest platform environment sync stream).sent <+:
      chainMessage (handleOneConsensusRequest platform environment sync stream).sync.blockchain := by
  rw [handleOneConsensusRequest]
  split
  · exact List.nil_prefix
  · dsimp only
    split
    · exact List.nil_prefix
    next command filled =>
      split
      · exact List.nil_prefix
      next sendBuf size framed =>
        rw [← chainMessage_of_serialize filled framed]
        exact sendAll_prefix environment.breaksAfter sendBuf

theorem encodeBlockchain_prefix_eq {left right : Blockchain}
    (begins : encodeBlockchain left <+: encodeBlockchain right) : left = right := by
  obtain ⟨rest, split⟩ := begins
  have whole := Input.ofBuffer_holds (encodeBlockchain right) (fun _ => 0) grantAll
  have part := whole
  rw [← split, Input.holds_append, split] at part
  exact encodeBlockchain_unambiguous trivial trivial part.1 whole

/-- A connection that delivers no more than the message with a chain brings no other chain. -/
theorem eq_of_brings {platform : Platform PKey} {path : ReceivePath} {environment : Environment} {stream : Stream}
    {sent blockchain : Blockchain}
    (delivered : stream.contents <+: chainMessage sent)
    (brings : Brings platform path environment stream blockchain) : blockchain = sent := by
  obtain ⟨recvBuf, command, examined, received, decoded, deserialized⟩ := brings
  obtain ⟨header, payload, message, rfl⟩ := message_of_received received
  obtain ⟨rest, split⟩ := message.delivered.trans delivered
  rw [chainMessage, encodeCommandSendBlockchain, List.append_assoc] at split
  obtain ⟨sameHeader, tails⟩ := List.append_inj split (by simp)
  obtain rfl := encodeCommandHeader_injective sameHeader
  -- the header declares the whole payload
  have measured : payload.length = ((splitBytes (chainCommand sent).blockchainDataLen).toList ++
      (chainCommand sent).blockchainData).length := by
    rw [message.measured, chainCommand_commandLen, List.length_append, Vector.length_toList,
      (chainCommand sent).measured]
  have begins : payload <+: (splitBytes (chainCommand sent).blockchainDataLen).toList ++
      (chainCommand sent).blockchainData := ⟨rest, tails⟩
  obtain rfl := begins.eq_of_length measured
  have declares : Declares ((splitBytes (chainCommand sent).blockchainDataLen).toList ++
      (chainCommand sent).blockchainData) (chainCommand sent).blockchainDataLen (encodeBlockchain sent) :=
    ⟨(chainCommand sent).measured, List.prefix_refl _⟩
  have prefixed : (chainCommand sent).header.Prefixed := rfl
  have sends : (chainCommand sent).header.command = Command.sendBlockchain.code := rfl
  have contents := contents_of_command_send_blockchain prefixed sends (chainMessage_fits sent) declares decoded
  rw [show command.blockchainData = encodeBlockchain sent from (Prod.mk.inj (Prod.mk.inj contents).2).2]
    at deserialized
  cases (carries_of_deserialize deserialized).agrees with
  | inl begins => exact encodeBlockchain_prefix_eq begins
  | inr begins => exact (encodeBlockchain_prefix_eq begins).symm

/-! ## Servers -/

/-- A listed peer that serves requests, and how an exchange with it goes: what both ends meet,
what the two directions of the connection deliver, and whether the client gets to the end. -/
structure Contact (PKey : Type) where
  peer : PeerInfo
  platform : Platform PKey
  server : Environment
  client : Environment
  request : List UInt8 → Stream
  reply : List UInt8 → Stream
  requestInOrder : ∀ sent, (request sent).contents <+: sent
  replyInOrder : ∀ sent, (reply sent).contents <+: sent
  completes : Bool

/-- Who is contacted, and whether with success. -/
def Contact.fate (contact : Contact PKey) : PeerInfo × Bool := (contact.peer, contact.completes)

def Contact.serve (contact : Contact PKey) (own : Sync) (sent : List UInt8) : Exchange :=
  handleOneConsensusRequest contact.platform contact.server own (contact.request sent)

/-- Servers with a chain for each address. -/
def servers : Network (SockaddrIn6 → Sync) (Contact PKey) where
  environment _ contact := contact.client
  answer chains contact sent := contact.reply (contact.serve (chains contact.peer.listenAddr) sent).sent
  after chains contact sent := Function.update chains contact.peer.listenAddr
    (contact.serve (chains contact.peer.listenAddr) sent).sync

/-- The server has a chain of this length that a client of this difficulty may take over. -/
structure Offers (platform : Platform PKey) (difficulty : UInt64) (own : Sync) (length : Nat) : Prop where
  valid : (blockchainVerify platform own.blockchain).Accepts
  sameDifficulty : difficulty = own.blockchain.numLeadingZeroBytesRequiredInBlockHash
  measured : own.blockchain.blockList.length = length

/-- The lengths on offer among the peers that are contacted with success. -/
def offeredLengths (platform : Platform PKey) (difficulty : UInt64) (chains : SockaddrIn6 → Sync)
    (fates : List (PeerInfo × Bool)) : Set Nat :=
  {length | ∃ fate ∈ fates, fate.2 = true ∧ Offers platform difficulty (chains fate.1.listenAddr) length}

section Servers

variable {platform : Platform PKey} {chains : SockaddrIn6 → Sync} {sync : Sync} {contact : Contact PKey}

theorem Contact.serve_cases (contact : Contact PKey) (own : Sync) {sent : List UInt8} {blockchain : Blockchain}
    (requested : sent <+: chainMessage blockchain) :
    (contact.serve own sent).sync = own ∨
      (own.blockchain.blockList.length < blockchain.blockList.length ∧
        (contact.serve own sent).sync.blockchain = blockchain) := by
  rw [Contact.serve, handle_one_consensus_request_sync]
  cases received : receiveBlockchain contact.platform .handleOneConsensusRequest contact.server
      (contact.request sent) with
  | error stop => exact .inl rfl
  | ok result =>
    obtain ⟨header, taken, isValid⟩ := result
    obtain ⟨brings, -⟩ := brings_of_receiveBlockchain received
    obtain rfl := eq_of_brings ((contact.requestInOrder sent).trans requested) brings
    rw [Sync.considering, considerPeerBlockchain]
    split
    next adopts => exact .inr ⟨(prefersPeer_iff.mp (Bool.and_eq_true_iff.mp adopts).2).1, rfl⟩
    next => exact .inl rfl

/-- What an exchange with a server does to the chains: only a shorter one than ours changes, to ours. -/
theorem servers_after (platform : Platform PKey) (chains : SockaddrIn6 → Sync) (sync : Sync) (contact : Contact PKey)
    (address : SockaddrIn6) :
    let exchange := (attemptPeer platform servers chains sync contact).exchange platform
    servers.after chains contact exchange.sent address = chains address ∨
      ((chains address).blockchain.blockList.length < sync.blockchain.blockList.length ∧
        (servers.after chains contact exchange.sent address).blockchain = sync.blockchain) := by
  intro exchange
  have requested : exchange.sent <+: chainMessage sync.blockchain := by
    rcases run_consensus_peer_client_once_cases platform contact.client sync
      (attemptPeer platform servers chains sync contact).answer with
      ⟨code, sent, request, -, -, same⟩ | ⟨sent, request, -, -, same⟩
    all_goals
      have begins := requestBlockchain_prefix platform.order contact.client sync
      rw [request] at begins
      exact same ▸ begins
  simp only [servers, Function.update_apply]
  split
  next same =>
    subst same
    exact contact.serve_cases _ requested
  next => exact .inl rfl

theorem eq_of_answer {blockchain : Blockchain}
    (brings : Brings platform .runConsensusPeerClientOnce (attemptPeer platform servers chains sync contact).environment
      (attemptPeer platform servers chains sync contact).answer blockchain) :
    (chains contact.peer.listenAddr).blockchain = blockchain ∨
      ((chains contact.peer.listenAddr).blockchain.blockList.length < sync.blockchain.blockList.length ∧
        blockchain = sync.blockchain) := by
  have requested := requestBlockchain_prefix platform.order contact.client sync
  generalize served : contact.serve (chains contact.peer.listenAddr)
    (requestBlockchain platform.order contact.client sync).2 = exchange
  have answered : (attemptPeer platform servers chains sync contact).answer = contact.reply exchange.sent := by
    rw [← served]
    rfl
  have delivered : exchange.sent <+: chainMessage exchange.sync.blockchain := by
    rw [← served]
    exact handle_one_consensus_request_prefix _ _ _ _
  rw [answered] at brings
  have same := eq_of_brings ((contact.replyInOrder _).trans delivered) brings
  rcases contact.serve_cases (chains contact.peer.listenAddr) requested with kept | ⟨shorter, taken⟩
  · rw [served] at kept
    exact .inl (by rw [same, kept])
  · rw [served] at taken
    exact .inr ⟨shorter, same.trans taken⟩

/-- After one exchange our chain is as long as the longer one of ours and the one on offer, if
the client got to the end. -/
theorem attempt_offered (platform : Platform PKey) (chains : SockaddrIn6 → Sync) (sync : Sync)
    (contact : Contact PKey) :
    let attempt := attemptPeer platform servers chains sync contact
    IsGreatest (insert sync.blockchain.blockList.length
        {length | (attempt.exchange platform).outcome = .ok () ∧
          Offers platform sync.blockchain.numLeadingZeroBytesRequiredInBlockHash
            (chains contact.peer.listenAddr) length})
      (attempt.exchange platform).sync.blockchain.blockList.length := by
  intro attempt
  have greatest := attempt.longest platform
  have notShorter : sync.blockchain.blockList.length ≤
      (attempt.exchange platform).sync.blockchain.blockList.length := greatest.2 (Set.mem_insert _ _)
  constructor
  · rcases greatest.1 with same | ⟨other, member, blockchain, completed, brings, valid, sameDifficulty, measured⟩
    · exact .inl same
    · obtain rfl := List.mem_singleton.mp member
      rcases eq_of_answer brings with own | ⟨-, ours⟩
      · subst own
        exact .inr ⟨completed, valid, sameDifficulty, measured⟩
      · exact .inl (by rw [← measured, ours])
  · rintro length (rfl | ⟨completed, offers⟩)
    · exact notShorter
    · rcases attempt.exchange_cases platform with ⟨stop, failed, -⟩ | ⟨-, blockchain, isValid, brings, -, -⟩
      · rw [failed] at completed
        cases completed
      · rcases eq_of_answer brings with own | ⟨shorter, -⟩
        · subst own
          exact greatest.2 (.inr ⟨attempt, List.mem_singleton_self _, _, completed, brings, offers.valid,
            offers.sameDifficulty, offers.measured⟩)
        · rw [← offers.measured]
          omega

/-- The peers that a round got to the end with. -/
def fates (platform : Platform PKey) (attempts : List (Attempt (Contact PKey))) : List (PeerInfo × Bool) :=
  attempts.map fun attempt => (attempt.peer.peer, (attempt.exchange platform).outcome.isOk)

theorem isOk_iff {outcome : Except Stop Unit} : outcome.isOk = true ↔ outcome = .ok () := by
  cases outcome with
  | error stop => simp [Except.isOk, Except.toBool]
  | ok value => simp [Except.isOk, Except.toBool]

theorem offeredLengths_cons (platform : Platform PKey) (difficulty : UInt64) (chains : SockaddrIn6 → Sync)
    (fate : PeerInfo × Bool) (rest : List (PeerInfo × Bool)) :
    offeredLengths platform difficulty chains (fate :: rest) =
      {length | fate.2 = true ∧ Offers platform difficulty (chains fate.1.listenAddr) length} ∪
        offeredLengths platform difficulty chains rest := by
  ext length
  simp [offeredLengths, or_and_right, exists_or]

/-- Servers of which some have taken over our chain offer no greatest length that they did not
offer before. -/
theorem isGreatest_offered_of_after {after : SockaddrIn6 → Sync} {difficulty : UInt64} {middle last : Nat}
    {fates : List (PeerInfo × Bool)}
    (unchanged : ∀ address, after address = chains address ∨
      ((chains address).blockchain.blockList.length < sync.blockchain.blockList.length ∧
        (after address).blockchain = sync.blockchain))
    (notShorter : sync.blockchain.blockList.length ≤ middle)
    (greatest : IsGreatest (insert middle (offeredLengths platform difficulty after fates)) last) :
    IsGreatest (insert middle (offeredLengths platform difficulty chains fates)) last := by
  have atLeast : middle ≤ last := greatest.2 (Set.mem_insert _ _)
  refine ⟨?_, ?_⟩
  · rcases greatest.1 with same | ⟨fate, member, completed, offers⟩
    · exact .inl same
    · rcases unchanged fate.1.listenAddr with same | ⟨-, ours⟩
      · exact .inr ⟨fate, member, completed, same ▸ offers⟩
      · have measured := offers.measured
        rw [ours] at measured
        exact .inl (by omega)
  · rintro length (rfl | ⟨fate, member, completed, offers⟩)
    · exact atLeast
    · rcases unchanged fate.1.listenAddr with same | ⟨shorter, -⟩
      · exact greatest.2 (.inr ⟨fate, member, completed, same ▸ offers⟩)
      · have measured := offers.measured
        omega

/-- The servers' chains change along the round, and it comes to the same as if they did not. -/
theorem contactPeers_offered {shouldStop : Nat → Bool} (goesOn : ∀ reading, shouldStop reading = false)
    {contacts : List (Contact PKey)} (reading : Nat) (settle : AllSettle platform servers contacts chains sync) :
    let run := contactPeers platform servers shouldStop reading contacts chains sync
    IsGreatest (insert sync.blockchain.blockList.length
        (offeredLengths platform sync.blockchain.numLeadingZeroBytesRequiredInBlockHash chains
          (fates platform run.attempts)))
      run.sync.blockchain.blockList.length := by
  induction contacts generalizing reading chains sync with
  | nil =>
    refine ⟨Set.mem_insert _ _, ?_⟩
    rintro length (rfl | ⟨fate, member, -⟩)
    · exact Nat.le_refl _
    · cases member
  | cons contact rest ih =>
    obtain ⟨first, later⟩ := settle
    have ends := returns_attempt_iff.mpr first
    have own := attempt_offered platform chains sync contact
    have following := ih (reading + 1) later
    simp only [contactPeers, goesOn, Bool.false_eq_true, if_false, ends, if_true]
    have unchanged := servers_after platform chains sync contact
    have sameDifficulty := (attemptPeer platform servers chains sync contact).difficulty platform
    have before : (attemptPeer platform servers chains sync contact).before = sync := rfl
    have peer : (attemptPeer platform servers chains sync contact).peer = contact := rfl
    dsimp only at own following unchanged
    generalize attemptPeer platform servers chains sync contact = attempt
      at own following unchanged sameDifficulty before peer ⊢
    rw [sameDifficulty, before] at following
    -- what is on offer to this exchange is compared with what is on offer behind it
    have behind := isGreatest_offered_of_after unchanged (own.2 (Set.mem_insert _ _)) following
    simp only [fates, List.map_cons, peer, offeredLengths_cons, isOk_iff] at behind ⊢
    exact isGreatest_insert_trans own behind

end Servers

/-! ## The round as a whole -/

/-- Nothing holds a round up: its memory is granted and no connection keeps it waiting. -/
structure Unhindered {σ α : Type} (platform : Platform PKey) (network : Network σ α) (memory : RoundMemory)
    (peers : List α) (state : σ) (sync : Sync) : Prop where
  written : memory.returnCode = true
  copied : Copied memory peers
  settle : AllSettle platform network peers.reverse state sync

theorem Unhindered.run {σ α : Type} {platform : Platform PKey} {network : Network σ α} {memory : RoundMemory}
    {peers : List α} {state : σ} {sync : Sync} (unhindered : Unhindered platform network memory peers state sync)
    (shouldStop : Nat → Bool) :
    let run := runConsensusPeerClient platform network memory shouldStop peers state sync
    let loop := contactPeers platform network shouldStop 0 peers.reverse state sync
    run.sync = loop.sync ∧ run.attempts = loop.attempts := by
  intro run loop
  by_cases granted : memory.list = true ∧ ∀ ordinal < 2 * peers.length, memory.copies ordinal = true
  · have same : run = loop := run_consensus_peer_client_copied unhindered.written granted.1 granted.2
    exact ⟨congrArg _ same, congrArg _ same⟩
  · cases unhindered.copied with
    | inr complete => exact absurd complete granted
    | inl empty =>
      subst empty
      obtain ⟨-, kept, nothing, -⟩ := run_consensus_peer_client_uncopied platform network
        shouldStop state sync granted
      exact ⟨kept, nothing⟩

/-- The exchanges that get to their end are the ones that are to. -/
def Fated (platform : Platform PKey) (attempts : List (Attempt (Contact PKey))) : Prop :=
  ∀ attempt ∈ attempts, (attempt.exchange platform).outcome = .ok () ↔ attempt.peer.completes = true

theorem Fated.fates {platform : Platform PKey} {attempts : List (Attempt (Contact PKey))}
    (fated : Fated platform attempts) :
    LeoCoin.fates platform attempts = (attempts.map Attempt.peer).map Contact.fate := by
  rw [LeoCoin.fates, List.map_map]
  apply List.map_congr_left
  intro attempt member
  have agrees := fated attempt member
  rw [← isOk_iff] at agrees
  exact congrArg _ (Bool.eq_iff_iff.mpr agrees)

section Order

variable {platform : Platform PKey} {chains : SockaddrIn6 → Sync} {sync : Sync} {memory : RoundMemory}
  {shouldStop : Nat → Bool} {contacts : List (Contact PKey)}

/-- A round with servers ends at the longest chain on offer, among those that had it at the
beginning. -/
theorem servers_longest (goesOn : ∀ reading, shouldStop reading = false)
    (unhindered : Unhindered platform servers memory contacts chains sync)
    (fated : Fated platform (runConsensusPeerClient platform servers memory shouldStop contacts chains sync).attempts) :
    let run := runConsensusPeerClient platform servers memory shouldStop contacts chains sync
    run.attempts.map Attempt.peer = contacts.reverse ∧
      IsGreatest (insert sync.blockchain.blockList.length
          (offeredLengths platform sync.blockchain.numLeadingZeroBytesRequiredInBlockHash chains
            (contacts.map Contact.fate)))
        run.sync.blockchain.blockList.length := by
  intro run
  obtain ⟨sameSync, sameAttempts⟩ := unhindered.run shouldStop
  obtain ⟨-, contacted, -⟩ := contactPeers_settled goesOn 0 unhindered.settle
  have greatest := contactPeers_offered goesOn 0 unhindered.settle
  rw [← sameAttempts] at contacted
  refine ⟨contacted, ?_⟩
  rw [show run.sync = _ from sameSync]
  dsimp only at greatest
  rw [← sameAttempts, fated.fates, contacted] at greatest
  have reversed : offeredLengths platform sync.blockchain.numLeadingZeroBytesRequiredInBlockHash chains
      (contacts.reverse.map Contact.fate) = offeredLengths platform
        sync.blockchain.numLeadingZeroBytesRequiredInBlockHash chains (contacts.map Contact.fate) := by
    simp only [offeredLengths, List.map_reverse, List.mem_reverse]
  rwa [reversed] at greatest

theorem offeredLengths_perm {first second : List (PeerInfo × Bool)} (same : first.Perm second)
    (difficulty : UInt64) :
    offeredLengths platform difficulty chains first = offeredLengths platform difficulty chains second := by
  simp only [offeredLengths, same.mem_iff]

end Order

/-- A round gathers the longest chain exactly when nothing holds it up; and for two rounds with
the same servers, listed in any order and failing alike, it comes to the same length. -/
theorem run_consensus_peer_client_gathers_iff (platform : Platform PKey) (memory : RoundMemory)
    (shouldStop : Nat → Bool) (sync : Sync) (goesOn : ∀ reading, shouldStop reading = false) :
    (∀ (σ α : Type) (network : Network σ α) peers state,
      GathersLongest platform peers sync
          (runConsensusPeerClient platform network memory shouldStop peers state sync) ↔
        Unhindered platform network memory peers state sync) ∧
      ∀ (chains : SockaddrIn6 → Sync) (contacts others : List (Contact PKey)),
        (contacts.map Contact.fate).Perm (others.map Contact.fate) →
        let run := runConsensusPeerClient platform servers memory shouldStop contacts chains sync
        let other := runConsensusPeerClient platform servers memory shouldStop others chains sync
        Unhindered platform servers memory contacts chains sync →
        Unhindered platform servers memory others chains sync →
        Fated platform run.attempts → Fated platform other.attempts →
        run.sync.blockchain.blockList.length = other.sync.blockchain.blockList.length ∧
          (run.attempts.map fun attempt => attempt.peer.peer).Perm
            (other.attempts.map fun attempt => attempt.peer.peer) := by
  constructor
  · intro σ α network peers state
    rw [gathersLongest_iff goesOn]
    exact ⟨fun ⟨written, copied, settle⟩ => ⟨written, copied, settle⟩,
      fun ⟨written, copied, settle⟩ => ⟨written, copied, settle⟩⟩
  · intro chains contacts others same run other unhindered otherUnhindered fated otherFated
    obtain ⟨contacted, longest⟩ := servers_longest goesOn unhindered fated
    obtain ⟨otherContacted, otherLongest⟩ := servers_longest goesOn otherUnhindered otherFated
    rw [offeredLengths_perm same] at longest
    refine ⟨longest.unique otherLongest, ?_⟩
    have peers {attempts : List (Attempt (Contact PKey))} {listed : List (Contact PKey)}
        (contacted : attempts.map Attempt.peer = listed.reverse) :
        (attempts.map fun attempt => attempt.peer.peer).Perm ((listed.map Contact.fate).map Prod.fst) := by
      have split : (attempts.map fun attempt => attempt.peer.peer) = (attempts.map Attempt.peer).map Contact.peer := by
        rw [List.map_map]
        rfl
      rw [split, contacted, List.map_map]
      exact (List.reverse_perm listed).map Contact.peer
    exact (peers contacted).trans ((same.map Prod.fst).trans (peers otherContacted).symm)

/-! ## Sample rounds -/

theorem requestBlockchain_plenty (order : ByteOrder) {environment : Environment} (sync : Sync)
    (plenty : environment.Plenty) :
    requestBlockchain order environment sync = (.ok (), chainMessage sync.blockchain) := by
  obtain ⟨command, size, filled, framed⟩ := blockchainCommand_sends order (.initial .sendBlockchain)
    sync.blockchain plenty.serialize plenty.frame rfl rfl
  simp only [requestBlockchain, plenty.socket, plenty.connects, Bool.not_true, Bool.false_eq_true, if_false, filled,
    framed, plenty.sends, sendAll]

/-- Peers that all answer alike. -/
def alike (answer : Stream) : Network Unit Unit where
  environment _ _ := .ideal
  answer _ _ _ := answer
  after _ _ _ := ()

def RoundMemory.plenty : RoundMemory := ⟨true, fun _ => true, true⟩

/-- Two peers, each of which sends a chain and then breaks the connection. -/
theorem run_consensus_peer_client_gathers_iff_sample :
    let network := alike (.chunk (chainMessage (sampleChain 2)) .failed)
    GathersLongest Platform.lenient [(), ()] ⟨sampleChain 1, 0⟩
      (runConsensusPeerClient Platform.lenient network .plenty (fun _ => false) [(), ()] () ⟨sampleChain 1, 0⟩) := by
  intro network
  refine ((run_consensus_peer_client_gathers_iff Platform.lenient .plenty (fun _ => false) ⟨sampleChain 1, 0⟩
    fun _ => rfl).1 Unit Unit network [(), ()] ()).mpr ⟨rfl, .inr ⟨rfl, fun _ _ => rfl⟩, ?_⟩
  have settles (sync : Sync) : Settles Platform.lenient network () sync () := by
    rintro - - (⟨closes, -⟩ | ⟨header, announced, wraps⟩ | ⟨_, -, -, closes, -⟩)
    · exact closes
    · have sent : Announces .runConsensusPeerClientOnce (.chunk (chainMessage (sampleChain 2)) .failed)
          (chainCommand (sampleChain 2)).header := by
        refine ⟨rfl, rfl, ?_⟩
        rw [Stream.contents, chainMessage, encodeCommandSendBlockchain, List.append_assoc]
        exact List.prefix_append _ _
      obtain rfl := announced.unique sent
      apply wraps
      have room := chainMessage_fits (sampleChain 2)
      have declared := chainCommand_commandLen (sampleChain 2)
      have granted : (network.environment () ()).receive.realloc
          (16 + (chainCommand (sampleChain 2)).header.commandLen).toNat = true := rfl
      rw [GrowsBuffer, if_pos granted]
      omega
    · exact closes
  exact ⟨settles _, settles _, trivial⟩

/-- Two peers that close the connection without an answer: the client never gets to the second. -/
theorem closing_peer_ends_round :
    ¬ GathersLongest Platform.lenient [(), ()] ⟨sampleChain 1, 0⟩
      (runConsensusPeerClient Platform.lenient (alike .closed) .plenty (fun _ => false) [(), ()] ()
        ⟨sampleChain 1, 0⟩) := by
  intro gathers
  obtain ⟨-, -, settles, -⟩ := (gathersLongest_iff fun _ => rfl).mp gathers
  have requested := requestBlockchain_plenty Platform.lenient.order ⟨sampleChain 1, 0⟩ Environment.ideal_plenty
  exact settles (by rw [show (alike .closed).environment () () = .ideal from rfl, requested]) rfl
    (.header trivial (by decide))

end LeoCoin
