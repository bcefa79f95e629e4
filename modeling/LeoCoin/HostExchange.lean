import LeoCoin.Consensus
import LeoCoin.Portability

/-! # Two nodes that exchange their chains

Each side runs on a host of its own and judges the other's chain by the integers as its
host stores them.  So both end up with the longer chain when the hosts are alike, or when
the chains that have to be judged find favour on the other host as well; a mined chain
need not.
-/

namespace LeoCoin

variable {PKey : Type}

/-- Both calls succeed, both nodes end up with the longer chain, and only the one with the
shorter chain switches, once. -/
structure Exchanged (client server : Sync) (clientSide serverSide : Exchange) : Prop where
  clientSucceeds : clientSide.outcome = .ok ()
  serverSucceeds : serverSide.outcome = .ok ()
  clientLength : clientSide.sync.blockchain.blockList.length =
    max client.blockchain.blockList.length server.blockchain.blockList.length
  serverLength : serverSide.sync.blockchain.blockList.length =
    max client.blockchain.blockList.length server.blockchain.blockList.length
  clientSwitches : client.blockchain.blockList.length < server.blockchain.blockList.length →
    clientSide.sync = ⟨server.blockchain, client.version + 1⟩ ∧ serverSide.sync = server
  serverSwitches : server.blockchain.blockList.length < client.blockchain.blockList.length →
    clientSide.sync = client ∧ serverSide.sync = ⟨client.blockchain, server.version + 1⟩
  noneSwitches : client.blockchain.blockList.length = server.blockchain.blockList.length →
    clientSide.sync = client ∧ serverSide.sync = server

/-- `blockchain_verify` comes to a verdict on this host, and a chain that is longer than the
host's own is found valid. -/
def FindsFavour (host : Platform PKey) (ours theirs : Blockchain) : Prop :=
  (blockchainVerify host theirs).returnCode = .success ∧
    (ours.blockList.length < theirs.blockList.length → (blockchainVerify host theirs).Accepts)

/-- The client's chain finds favour with the server, and the server's chain with the client
unless the server has given it up. -/
def FindFavour (clientHost serverHost : Platform PKey) (client server : Blockchain) : Prop :=
  FindsFavour serverHost server client ∧
    (¬ server.blockList.length < client.blockList.length → FindsFavour clientHost client server)

theorem FindsFavour.of_accepts {host : Platform PKey} {theirs : Blockchain}
    (accepts : (blockchainVerify host theirs).Accepts) (ours : Blockchain) : FindsFavour host ours theirs :=
  ⟨accepts.1, fun _ => accepts⟩

/-- Hosts of one byte order come to one verdict. -/
theorem findFavour_of_sameOrder {clientHost serverHost : Platform PKey} {client server : Blockchain}
    (oracles : SameOracles clientHost serverHost) (sameOrder : clientHost.order = serverHost.order)
    (clientSmall : client.numLeadingZeroBytesRequiredInBlockHash.toNat ≤ 32)
    (serverSmall : server.numLeadingZeroBytesRequiredInBlockHash.toNat ≤ 32)
    (clientValid : (blockchainVerify clientHost client).Accepts)
    (serverValid : (blockchainVerify serverHost server).Accepts) :
    FindFavour clientHost serverHost client server := by
  rw [oracles.blockchainVerify sameOrder clientSmall] at clientValid
  rw [← oracles.blockchainVerify sameOrder serverSmall] at serverValid
  exact ⟨.of_accepts clientValid server, fun _ => .of_accepts serverValid client⟩

/-! ## One side -/

section Sides

variable {host : Platform PKey} {environment : Environment} {sync : Sync} {stream : Stream} {blockchain : Blockchain}

theorem Verification.getD_eq_false {verification : Verification} (succeeded : verification.returnCode = .success)
    (refused : ¬ verification.Accepts) : verification.isValidBlockchain.getD false = false := by
  cases verdict : verification.isValidBlockchain with
  | none => rfl
  | some isValid =>
    cases isValid with
    | false => rfl
    | true => exact absurd ⟨succeeded, verdict⟩ refused

/-- What a chain of the same difficulty is taken for once it has been judged. -/
theorem considerPeerBlockchain_judged (verdict : (blockchainVerify host blockchain).returnCode = .success)
    (sameDifficulty : sync.blockchain.numLeadingZeroBytesRequiredInBlockHash =
      blockchain.numLeadingZeroBytesRequiredInBlockHash) :
    considerPeerBlockchain sync blockchain ((blockchainVerify host blockchain).isValidBlockchain.getD false) =
      if sync.blockchain.blockList.length < blockchain.blockList.length ∧
          (blockchainVerify host blockchain).Accepts then
        ⟨blockchain, sync.version + 1⟩
      else
        sync := by
  by_cases accepts : (blockchainVerify host blockchain).Accepts
  · rw [accepts.2]
    simp only [accepts, and_true]
    exact considerPeerBlockchain_valid sync sameDifficulty
  · rw [Verification.getD_eq_false verdict accepts, if_neg fun both => accepts both.2]
    rfl

theorem server_judges (sync : Sync) (plenty : environment.Plenty) (fits : blockchain.SignaturesFit)
    (delivered : stream.contents = chainMessage blockchain)
    (verdict : (blockchainVerify host blockchain).returnCode = .success) :
    handleOneConsensusRequest host environment sync stream =
      ⟨.ok (), considerPeerBlockchain sync blockchain
          ((blockchainVerify host blockchain).isValidBlockchain.getD false),
        chainMessage (considerPeerBlockchain sync blockchain
          ((blockchainVerify host blockchain).isValidBlockchain.getD false)).blockchain, [.lock, .unlock]⟩ := by
  have received : receiveBlockchain host .handleOneConsensusRequest environment stream = _ :=
    receiveBlockchain_judges _ plenty rfl fits delivered
  rw [dif_neg (not_not.mpr verdict)] at received
  exact handle_one_consensus_request_served sync plenty received

theorem server_fails (plenty : environment.Plenty) (fits : blockchain.SignaturesFit)
    (delivered : stream.contents = chainMessage blockchain)
    (failed : (blockchainVerify host blockchain).returnCode ≠ .success) :
    (handleOneConsensusRequest host environment sync stream).outcome ≠ .ok () := by
  have received : receiveBlockchain host .handleOneConsensusRequest environment stream = _ :=
    receiveBlockchain_judges _ plenty rfl fits delivered
  rw [dif_pos failed] at received
  rw [handle_one_consensus_request_failed sync received]
  simp

theorem client_judges (sync : Sync) (plenty : environment.Plenty) (fits : blockchain.SignaturesFit)
    (answered : stream.contents = chainMessage blockchain)
    (verdict : (blockchainVerify host blockchain).returnCode = .success) :
    (runConsensusPeerClientOnce host environment sync stream).outcome = .ok () ∧
      (runConsensusPeerClientOnce host environment sync stream).sync = considerPeerBlockchain sync blockchain
        ((blockchainVerify host blockchain).isValidBlockchain.getD false) := by
  have received : receiveBlockchain host .runConsensusPeerClientOnce environment stream = _ :=
    receiveBlockchain_judges _ plenty rfl fits answered
  rw [dif_neg (not_not.mpr verdict)] at received
  exact run_consensus_peer_client_answered sync plenty received

theorem client_fails (plenty : environment.Plenty) (fits : blockchain.SignaturesFit)
    (answered : stream.contents = chainMessage blockchain)
    (failed : (blockchainVerify host blockchain).returnCode ≠ .success) :
    (runConsensusPeerClientOnce host environment sync stream).outcome ≠ .ok () := by
  have received : receiveBlockchain host .runConsensusPeerClientOnce environment stream = _ :=
    receiveBlockchain_judges _ plenty rfl fits answered
  rw [dif_pos failed] at received
  rw [run_consensus_peer_client_failed sync plenty received]
  simp

end Sides

/-! ## The exchange -/

section Exchange

variable {clientHost serverHost : Platform PKey} {clientEnvironment serverEnvironment : Environment}
  {client server : Sync} {request reply : Stream}

/-- The server takes the client's chain over, and the client gets its own chain back. -/
theorem exchanged_serverSwitches (clientPlenty : clientEnvironment.Plenty)
    (clientValid : (blockchainVerify clientHost client.blockchain).Accepts)
    (clientFits : client.blockchain.SignaturesFit)
    (answered : reply.contents = (handleOneConsensusRequest serverHost serverEnvironment server request).sent)
    (served : handleOneConsensusRequest serverHost serverEnvironment server request =
      ⟨.ok (), ⟨client.blockchain, server.version + 1⟩, chainMessage client.blockchain, [.lock, .unlock]⟩)
    (longer : server.blockchain.blockList.length < client.blockchain.blockList.length) :
    Exchanged client server (runConsensusPeerClientOnce clientHost clientEnvironment client reply)
      (handleOneConsensusRequest serverHost serverEnvironment server request) := by
  rw [served] at answered ⊢
  obtain ⟨outcome, kept⟩ := client_judges client clientPlenty clientFits answered clientValid.1
  rw [considerPeerBlockchain_judged clientValid.1 rfl, if_neg fun both => Nat.lt_irrefl _ both.1] at kept
  have most := Nat.max_eq_left (Nat.le_of_lt longer)
  exact ⟨outcome, rfl, by rw [kept, most], most.symm, fun shorter => by omega, fun _ => ⟨kept, rfl⟩,
    fun equal => by omega⟩

/-- The server keeps its chain, and the client decides about it. -/
theorem exchanged_clientDecides (clientPlenty : clientEnvironment.Plenty)
    (serverFits : server.blockchain.SignaturesFit)
    (sameDifficulty : client.blockchain.numLeadingZeroBytesRequiredInBlockHash =
      server.blockchain.numLeadingZeroBytesRequiredInBlockHash)
    (answered : reply.contents = (handleOneConsensusRequest serverHost serverEnvironment server request).sent)
    (served : handleOneConsensusRequest serverHost serverEnvironment server request =
      ⟨.ok (), server, chainMessage server.blockchain, [.lock, .unlock]⟩)
    (notLonger : ¬ server.blockchain.blockList.length < client.blockchain.blockList.length) :
    Exchanged client server (runConsensusPeerClientOnce clientHost clientEnvironment client reply)
        (handleOneConsensusRequest serverHost serverEnvironment server request) ↔
      FindsFavour clientHost client.blockchain server.blockchain := by
  rw [served] at answered ⊢
  have most := Nat.max_eq_right (Nat.le_of_not_lt notLonger)
  by_cases verdict : (blockchainVerify clientHost server.blockchain).returnCode = .success
  · obtain ⟨outcome, considered⟩ := client_judges client clientPlenty serverFits answered verdict
    rw [considerPeerBlockchain_judged verdict sameDifficulty] at considered
    by_cases adopts : client.blockchain.blockList.length < server.blockchain.blockList.length ∧
        (blockchainVerify clientHost server.blockchain).Accepts
    · rw [if_pos adopts] at considered
      refine ⟨fun _ => .of_accepts adopts.2 _, fun _ => ?_⟩
      exact ⟨outcome, rfl, by rw [considered, most], most.symm, fun _ => ⟨considered, rfl⟩,
        fun longer => absurd longer notLonger, fun equal => by omega⟩
    · rw [if_neg adopts] at considered
      constructor
      · intro exchanged
        refine ⟨verdict, fun shorter => ?_⟩
        -- the client should have switched, and has not
        have length := exchanged.clientLength
        rw [considered, most] at length
        omega
      · intro favour
        have notShorter : ¬ client.blockchain.blockList.length < server.blockchain.blockList.length :=
          fun shorter => adopts ⟨shorter, favour.2 shorter⟩
        have equal : client.blockchain.blockList.length = server.blockchain.blockList.length := by omega
        exact ⟨outcome, rfl, by rw [considered, most, equal], most.symm, fun shorter => absurd shorter notShorter,
          fun longer => absurd longer notLonger, fun _ => ⟨considered, rfl⟩⟩
  · constructor
    · intro exchanged
      exact absurd exchanged.clientSucceeds (client_fails clientPlenty serverFits answered verdict)
    · intro favour
      exact absurd favour.1 verdict

theorem exchanged_iff_findFavour (clientPlenty : clientEnvironment.Plenty) (serverPlenty : serverEnvironment.Plenty)
    (clientValid : (blockchainVerify clientHost client.blockchain).Accepts)
    (clientFits : client.blockchain.SignaturesFit) (serverFits : server.blockchain.SignaturesFit)
    (sameDifficulty : client.blockchain.numLeadingZeroBytesRequiredInBlockHash =
      server.blockchain.numLeadingZeroBytesRequiredInBlockHash)
    (delivered : request.contents = chainMessage client.blockchain)
    (answered : reply.contents = (handleOneConsensusRequest serverHost serverEnvironment server request).sent) :
    Exchanged client server (runConsensusPeerClientOnce clientHost clientEnvironment client reply)
        (handleOneConsensusRequest serverHost serverEnvironment server request) ↔
      FindFavour clientHost serverHost client.blockchain server.blockchain := by
  by_cases verdict : (blockchainVerify serverHost client.blockchain).returnCode = .success
  · have served := server_judges server serverPlenty clientFits delivered verdict
    rw [considerPeerBlockchain_judged verdict sameDifficulty.symm] at served
    by_cases adopts : server.blockchain.blockList.length < client.blockchain.blockList.length ∧
        (blockchainVerify serverHost client.blockchain).Accepts
    · rw [if_pos adopts] at served
      refine ⟨fun _ => ⟨.of_accepts adopts.2 _, fun notLonger => absurd adopts.1 notLonger⟩, fun _ => ?_⟩
      exact exchanged_serverSwitches clientPlenty clientValid clientFits answered served adopts.1
    · rw [if_neg adopts] at served
      by_cases longer : server.blockchain.blockList.length < client.blockchain.blockList.length
      · constructor
        · intro exchanged
          -- the server should have switched, and has not
          have length := exchanged.serverLength
          rw [served, Nat.max_eq_left (Nat.le_of_lt longer)] at length
          exact absurd length (Nat.ne_of_lt longer)
        · intro favour
          exact absurd ⟨longer, favour.1.2 longer⟩ adopts
      · rw [exchanged_clientDecides clientPlenty serverFits sameDifficulty answered served longer]
        exact ⟨fun favour => ⟨⟨verdict, fun other => absurd other longer⟩, fun _ => favour⟩,
          fun favour => favour.2 longer⟩
  · constructor
    · intro exchanged
      exact absurd exchanged.serverSucceeds (server_fails serverPlenty clientFits delivered verdict)
    · intro favour
      exact absurd favour.1.1 verdict

end Exchange

/-- Two nodes that exchange their chains over a connection that keeps the order of the bytes
both succeed and end up with the longer one, only the side with the shorter chain switching,
exactly when their hosts store integers the same way or the chains that they judge find
favour on the other host nevertheless. -/
theorem consensus_exchange_iff (clientHost serverHost : Platform PKey)
    (clientEnvironment serverEnvironment : Environment) (client server : Sync) (request reply : Stream)
    (oracles : SameOracles clientHost serverHost)
    (clientPlenty : clientEnvironment.Plenty) (serverPlenty : serverEnvironment.Plenty)
    (clientValid : (blockchainVerify clientHost client.blockchain).Accepts)
    (serverValid : (blockchainVerify serverHost server.blockchain).Accepts)
    (clientFits : client.blockchain.SignaturesFit) (serverFits : server.blockchain.SignaturesFit)
    (sameDifficulty : client.blockchain.numLeadingZeroBytesRequiredInBlockHash =
      server.blockchain.numLeadingZeroBytesRequiredInBlockHash)
    (small : client.blockchain.numLeadingZeroBytesRequiredInBlockHash.toNat ≤ 32)
    (delivered : request.contents =
      (runConsensusPeerClientOnce clientHost clientEnvironment client reply).sent)
    (answered : reply.contents =
      (handleOneConsensusRequest serverHost serverEnvironment server request).sent) :
    Exchanged client server (runConsensusPeerClientOnce clientHost clientEnvironment client reply)
        (handleOneConsensusRequest serverHost serverEnvironment server request) ↔
      clientHost.order = serverHost.order ∨
        FindFavour clientHost serverHost client.blockchain server.blockchain := by
  rw [run_consensus_peer_client_sent client clientPlenty] at delivered
  rw [exchanged_iff_findFavour clientPlenty serverPlenty clientValid clientFits serverFits sameDifficulty delivered
    answered]
  constructor
  · exact .inr
  · rintro (sameOrder | favour)
    · exact findFavour_of_sameOrder oracles sameOrder small (sameDifficulty ▸ small) clientValid serverValid
    · exact favour

section Samples

variable {clientHost serverHost : Platform Unit} {client server : Sync}

/-- Whatever both sides send arrives. -/
theorem exchange_connects : ∃ request reply : Stream,
    request.contents = (runConsensusPeerClientOnce clientHost .ideal client reply).sent ∧
      reply.contents = (handleOneConsensusRequest serverHost .ideal server request).sent := by
  have inOneChunk (bytes : List UInt8) : ∃ stream : Stream, stream.contents = bytes :=
    ⟨.chunk bytes .closed, List.append_nil bytes⟩
  obtain ⟨request, requested⟩ := inOneChunk (chainMessage client.blockchain)
  obtain ⟨reply, replied⟩ := inOneChunk (handleOneConsensusRequest serverHost .ideal server request).sent
  exact ⟨request, reply, requested.trans (run_consensus_peer_client_sent client Environment.ideal_plenty).symm,
    replied⟩

end Samples

/-- A client with two mined blocks and a server with one, on hosts of one byte order. -/
theorem consensus_exchange_iff_sample :
    ∃ request reply, (runConsensusPeerClientOnce Platform.lenient .ideal ⟨sampleChain 2, 7⟩ reply).sync =
        ⟨sampleChain 2, 7⟩ ∧
      (handleOneConsensusRequest Platform.lenient .ideal ⟨sampleChain 1, 3⟩ request).sync =
        ⟨sampleChain 2, 3 + 1⟩ := by
  obtain ⟨request, reply, delivered, answered⟩ : ∃ request reply : Stream,
      request.contents = (runConsensusPeerClientOnce Platform.lenient .ideal ⟨sampleChain 2, 7⟩ reply).sent ∧
        reply.contents = (handleOneConsensusRequest Platform.lenient .ideal ⟨sampleChain 1, 3⟩ request).sent :=
    exchange_connects
  have exchanged := (consensus_exchange_iff Platform.lenient Platform.lenient .ideal .ideal ⟨sampleChain 2, 7⟩
    ⟨sampleChain 1, 3⟩ request reply ⟨rfl, rfl, rfl⟩ Environment.ideal_plenty Environment.ideal_plenty
    (sampleChain_accepted 2) (sampleChain_accepted 1) (sampleChain_signaturesFit 2) (sampleChain_signaturesFit 1) rfl
    (Nat.zero_le 32) delivered answered).mpr (.inl rfl)
  have shorter : (sampleChain 1).blockList.length < (sampleChain 2).blockList.length := by
    rw [sampleChain_length, sampleChain_length]
    exact Nat.lt_succ_self 2
  exact ⟨request, reply, exchanged.serverSwitches shorter⟩

/-- A client sends its mined block to a server whose host stores integers the other way round:
the server finds the block invalid and stays with its genesis block. -/
theorem foreign_server_refuses_mined_block :
    ¬ ∀ (clientHost serverHost : Platform Unit) (client server : Sync) (request reply : Stream),
      SameOracles clientHost serverHost →
      (blockchainVerify clientHost client.blockchain).Accepts →
      (blockchainVerify serverHost server.blockchain).Accepts →
      client.blockchain.SignaturesFit → server.blockchain.SignaturesFit →
      client.blockchain.numLeadingZeroBytesRequiredInBlockHash =
        server.blockchain.numLeadingZeroBytesRequiredInBlockHash →
      client.blockchain.numLeadingZeroBytesRequiredInBlockHash.toNat ≤ 32 →
      request.contents = (runConsensusPeerClientOnce clientHost .ideal client reply).sent →
      reply.contents = (handleOneConsensusRequest serverHost .ideal server request).sent →
      Exchanged client server (runConsensusPeerClientOnce clientHost .ideal client reply)
        (handleOneConsensusRequest serverHost .ideal server request) := by
  intro exchanges
  obtain ⟨request, reply, delivered, answered⟩ : ∃ request reply : Stream,
      request.contents = (runConsensusPeerClientOnce miningHost .ideal ⟨sampleChain 1, 1⟩ reply).sent ∧
        reply.contents = (handleOneConsensusRequest foreignHost .ideal ⟨sampleChain 0, 0⟩ request).sent :=
    exchange_connects
  have exchanged := exchanges miningHost foreignHost ⟨sampleChain 1, 1⟩ ⟨sampleChain 0, 0⟩ request reply
    ⟨rfl, rfl, rfl⟩ miningHost_accepts foreignHost_genesis (sampleChain_signaturesFit 1) (sampleChain_signaturesFit 0)
    rfl (Nat.zero_le 32) delivered answered
  rw [run_consensus_peer_client_sent ⟨sampleChain 1, 1⟩ Environment.ideal_plenty] at delivered
  have sameDifficulty : (sampleChain 1).numLeadingZeroBytesRequiredInBlockHash =
      (sampleChain 0).numLeadingZeroBytesRequiredInBlockHash := rfl
  have favour := (exchanged_iff_findFavour Environment.ideal_plenty Environment.ideal_plenty miningHost_accepts
    (sampleChain_signaturesFit 1) (sampleChain_signaturesFit 0) sameDifficulty delivered answered).mp exchanged
  have longer : (sampleChain 0).blockList.length < (sampleChain 1).blockList.length := by
    rw [sampleChain_length, sampleChain_length]
    exact Nat.lt_succ_self 1
  have accepts := favour.1.2 longer
  have invalid := Verification.isValidBlockchain_of_verdict foreignHost_rejects
  exact absurd (accepts.2.symm.trans invalid) (by decide)

end LeoCoin
