import LeoCoin.ExchangeSides
import LeoCoin.Node

/-! # Runs of exchanges in memory

Exchanges of either side, rounds of the miner and the destruction of chains that have been replaced,
one after another in the memory of one node.
-/

namespace LeoCoin

open Library.Programs Library.Decoding Library.Heap Library.Owning Library.Transition

namespace ChainMemory

/-! ## Either side -/

section Sides

variable {PKey : Type} {platform : Platform PKey} {environment : Environment} {stream : Stream} {sync : Sync}
  {ours : PlacedChain}

/-- A call of either side. -/
def exchangeInMemory (side : Side) (platform : Platform PKey) (environment : Environment) (stream : Stream)
    (now : Int64) (ours rounds : Nat) : MemoryProgram Exchanged :=
  match side with
  | .server => handleOneConsensusRequest platform environment stream now ours rounds
  | .client => runConsensusPeerClientOnce platform environment stream now ours rounds

/-- What it comes to without memory. -/
def exchangeOf (side : Side) (platform : Platform PKey) (environment : Environment) (sync : Sync) (stream : Stream) :
    Exchange :=
  match side with
  | .server => LeoCoin.handleOneConsensusRequest platform environment sync stream
  | .client => LeoCoin.runConsensusPeerClientOnce platform environment sync stream

/-- Whether it reads behind a buffer that has come in. -/
def exchangeBehind (side : Side) (platform : Platform PKey) (environment : Environment) (sync : Sync)
    (stream : Stream) : Bool :=
  match side with
  | .server => receivesBehind platform .handleOneConsensusRequest environment stream
  | .client => clientBehind platform environment sync stream

/-- What it comes to in memory. -/
def exchangeInside (side : Side) (platform : Platform PKey) (environment : Environment) (sync : Sync)
    (stream : Stream) : Exchange :=
  unlessBehind (exchangeBehind side platform environment sync stream) (exchangeOf side platform environment sync stream)

theorem comesOut_exchange (side : Side) (now : Int64) (holds : ours.Holds sync.blockchain) {start : Process}
    {rest : Pieces} (there : pieces start = ours.pieces + rest)
    (roomy : Roomy platform side.path environment stream
      (weight (pieces start) + (chainMessage sync.blockchain).length)) :
    ComesOut (fun rounds => exchangeInMemory side platform environment stream now ours.address rounds) ours sync
      (exchangeInside side platform environment sync stream) start rest := by
  cases side with
  | server => exact comesOut_server now holds there (roomy.mono (Nat.le_add_right _ _))
  | client => exact comesOut_client now holds there roomy

end Sides

/-! ## A longer chain comes in -/

/-- Nothing goes wrong, and little is granted to the decoder. -/
def sparingEnvironment : Environment := { Environment.ideal with blockchainGrants := sparing }

/-- A message with a chain, and the end of the connection. -/
def sampleStream (mined : UInt8) : Stream := .chunk (chainMessage (sampleChain mined)) .closed

section Longer

variable {side : Side} {mined : UInt8}

theorem sampleStream_receiveCommand (side : Side) (mined : UInt8) (order : ByteOrder) :
    (LeoCoin.receiveCommand side.path sparingEnvironment.receive order (sampleStream mined)).outcome =
      .ok (chainMessage (sampleChain mined)) := by
  have sends : side.path.command = .sendBlockchain := by cases side <;> rfl
  exact receiveCommand_chainMessage Environment.ideal_plenty sends order (List.append_nil _)

theorem sampleStream_decodes (mined : UInt8) (order : ByteOrder) :
    decodeBuffer (commandSendBlockchainDeserialize order)
      (receivedInput sparingEnvironment (chainMessage (sampleChain mined))) = .ok (chainCommand (sampleChain mined)) :=
  decode_command_send_blockchain (fun _ _ => rfl) rfl rfl (chainMessage_fits _)

theorem sampleStream_roomy (side : Side) (mined : UInt8) {used : Nat} (small : used ≤ 2 ^ 40) :
    Roomy Platform.lenient side.path sparingEnvironment (sampleStream mined) used := by
  intro recvBuf command requests received decoded granted
  rw [sampleStream_receiveCommand] at received
  cases received
  have same := (sampleStream_decodes mined Platform.lenient.order).symm.trans decoded
  cases same
  have bounds := sparing_bounded requests granted
  have length := encodeBlockchain_length_le (sampleChain mined)
  have light := sampleChain_light mined
  have whole := chainMessage_length (sampleChain mined)
  have data : (chainCommand (sampleChain mined)).blockchainData = encodeBlockchain (sampleChain mined) := rfl
  rw [data]
  omega

/-- The chain is received and found to be valid, and nothing behind the buffers is read. -/
theorem sampleStream_received (side : Side) (granted : Granted sparing (chainRequests (sampleChain mined).blockList)) :
    receivesBehind Platform.lenient side.path sparingEnvironment (sampleStream mined) = false ∧
      LeoCoin.receiveBlockchain Platform.lenient side.path sparingEnvironment (sampleStream mined) =
        .ok ((chainCommand (sampleChain mined)).header, sampleChain mined, true) := by
  have decodes := sampleChain_deserializes Platform.lenient.order mined granted
  have inside : ¬ (deserializeBlockchain Platform.lenient.order).Overruns
      (sparingInput (encodeBlockchain (sampleChain mined))) ⟨0, []⟩ :=
    fun leaves => by
      have outside := (overruns_iff_examined _ _ none).mp leaves
      rw [decodes] at outside
      exact Nat.lt_irrefl _ outside
  have framed : ¬ (commandSendBlockchainDeserialize Platform.lenient.order).Overruns
      (receivedInput sparingEnvironment (chainMessage (sampleChain mined))) ⟨0, []⟩ :=
    command_send_blockchain_inside rfl rfl
  have received := sampleStream_receiveCommand side mined Platform.lenient.order
  have command := sampleStream_decodes mined Platform.lenient.order
  obtain ⟨succeeds, valid⟩ := sampleChain_accepted mined
  constructor
  · rw [receivesBehind, received]
    dsimp only
    rw [command, decide_eq_false framed]
    exact decide_eq_false inside
  · rw [LeoCoin.receiveBlockchain, received]
    dsimp only
    rw [receivedInput] at command
    rw [command]
    dsimp only
    have carried : LeoCoin.blockchainDeserialize Platform.lenient.order
        (Input.ofBuffer (chainCommand (sampleChain mined)).blockchainData sparingEnvironment.behindBlockchain
          sparingEnvironment.blockchainGrants) none = _ := decodes
    simp [carried, succeeds, valid]

/-- The server switches to it, and answers. -/
theorem sampleStream_served {shorter : Blockchain}
    (granted : Granted sparing (chainRequests (sampleChain mined).blockList)) (version : UInt64)
    (prefers : prefersPeer shorter (sampleChain mined) = true) :
    exchangeBehind .server Platform.lenient sparingEnvironment ⟨shorter, version⟩ (sampleStream mined) = false ∧
      (exchangeOf .server Platform.lenient sparingEnvironment ⟨shorter, version⟩ (sampleStream mined)).outcome =
        .ok () ∧
      (exchangeOf .server Platform.lenient sparingEnvironment ⟨shorter, version⟩ (sampleStream mined)).sync =
        ⟨sampleChain mined, version + 1⟩ := by
  obtain ⟨inside, received⟩ := sampleStream_received .server granted
  obtain ⟨command, size, filled, framed⟩ := blockchainCommand_sends Platform.lenient.order
    (chainCommand (sampleChain mined)).header (sampleChain mined) Environment.ideal_plenty.serialize
    Environment.ideal_plenty.frame rfl rfl
  have filled : blockchainCommand sparingEnvironment.serializeGrants _ _ _ = _ := filled
  have framed : LeoCoin.commandSendBlockchainSerialize sparingEnvironment.frameGrants _ _ = _ := framed
  have switched : considerPeerBlockchain ⟨shorter, version⟩ (sampleChain mined) true =
      ⟨sampleChain mined, version + 1⟩ := by
    simp [considerPeerBlockchain, prefers]
  rw [Side.path] at received
  refine ⟨inside, ?_⟩
  simp only [exchangeOf, LeoCoin.handleOneConsensusRequest, received, switched, filled, framed]
  exact ⟨rfl, trivial⟩

end Longer

/-! ## One call -/

/-- The memory of a node, where `sync->blockchain` is, and the chains that it has replaced and not destroyed. -/
structure NodeProcess where
  process : Process
  published : Nat
  sync : Sync
  replaced : List (Nat × Blockchain)

/-- All chains of the node. -/
def NodeProcess.memory (node : NodeProcess) : NodeMemory :=
  ⟨node.process, (node.published, node.sync.blockchain) :: node.replaced⟩

inductive NodeCall where
  | exchange (succeeded : Bool) : NodeCall
  | mine (clean : Bool) : NodeCall
  | destroy : NodeCall
deriving DecidableEq

def NodeCall.memoryAction : NodeCall → Option MemoryAction
  | .exchange _ => none
  | .mine clean => some (.mine clean)
  | .destroy => some .destroy

/-- The node after an exchange.  A chain has been replaced where the version has changed. -/
def NodeProcess.exchanged (node : NodeProcess) (exchanged : Exchanged) (sync : Sync) (after : Process) :
    NodeProcess where
  process := after
  published := exchanged.blockchain
  sync := sync
  replaced :=
    if sync.version = node.sync.version then node.replaced
    else (node.published, node.sync.blockchain) :: node.replaced

/-- One call after another.  The miner works on a chain that is or was published, and destroys only
one that was. -/
inductive NodeProcessStep {PKey : Type} (platform : Platform PKey) : NodeProcess → NodeCall → NodeProcess → Prop where
  | exchanges {before : NodeProcess} {side : Side} {environment : Environment} {stream : Stream} {now : Int64}
      {exchanged : Exchanged} {after : Process} :
      Roomy platform side.path environment stream
        (weight (pieces before.process) + (chainMessage before.sync.blockchain).length) →
      Yields (fun rounds => exchangeInMemory side platform environment stream now before.published rounds)
        before.process (.ok exchanged) after →
      NodeProcessStep platform before (.exchange exchanged.returnCode.isOk)
        (before.exchanged exchanged (exchangeOf side platform environment before.sync stream).sync after)
  | mines {before : NodeProcess} {clean : Bool} {blockchain : Blockchain} {process : Process}
      {replaced : List (Nat × Blockchain)} :
      MemoryStep platform.order before.memory (.mine clean) ⟨process, (before.published, blockchain) :: replaced⟩ →
      NodeProcessStep platform before (.mine clean)
        ⟨process, before.published, { before.sync with blockchain }, replaced⟩
  | destroys {before : NodeProcess} {process : Process} {replaced : List (Nat × Blockchain)} :
      MemoryStep platform.order before.memory .destroy
        ⟨process, (before.published, before.sync.blockchain) :: replaced⟩ →
      NodeProcessStep platform before .destroy ⟨process, before.published, before.sync, replaced⟩

/-- Memory holds the chains of the node, what failed exchanges and rounds have left behind, and what was
there at the start. -/
def Balanced (start : Pieces) (labels : List NodeCall) (node : NodeProcess) : Prop :=
  ∃ lost, Lost (3 * labels.count (.exchange false)) (labels.count (.exchange false)) lost ∧
    Keeps (lost + start) (labels.filterMap NodeCall.memoryAction) node.memory

section Runs

variable {PKey : Type} {platform : Platform PKey} {start : Pieces} {labels : List NodeCall}
  {first before after last : NodeProcess}

/-- The chain that is published, beside everything else. -/
theorem Balanced.published (balanced : Balanced start labels before) :
    ∃ (ours : PlacedChain) (others lost : Pieces) (buffers : List (Nat × Nat)), ours.address = before.published ∧
      ours.Holds before.sync.blockchain ∧ ChainsAt before.replaced others ∧
      buffers.length ≤ (labels.filterMap NodeCall.memoryAction).count (.mine false) ∧
      Lost (3 * labels.count (.exchange false)) (labels.count (.exchange false)) lost ∧
      pieces before.process = ours.pieces + (others + (bufferPieces buffers + (lost + start))) := by
  obtain ⟨lost, loses, _, buffers, ⟨_, others, ⟨ours, there, holds, rfl⟩, chains, rfl⟩, few, parts⟩ := balanced
  exact ⟨ours, others, lost, buffers, there, holds, chains, few, loses, by rw [← add_assoc]; exact parts⟩

theorem Balanced.comesOut (balanced : Balanced start labels before) (side : Side) {environment : Environment}
    {stream : Stream} (now : Int64) (roomy : Roomy platform side.path environment stream
      (weight (pieces before.process) + (chainMessage before.sync.blockchain).length)) :
    ∃ ours rest, ours.address = before.published ∧ ours.Holds before.sync.blockchain ∧
      pieces before.process = ours.pieces + rest ∧
      ComesOut (fun rounds => exchangeInMemory side platform environment stream now before.published rounds) ours
        before.sync (exchangeInside side platform environment before.sync stream) before.process rest := by
  obtain ⟨ours, others, lost, buffers, there, holds, -, -, -, parts⟩ := balanced.published
  refine ⟨ours, _, there, holds, parts, ?_⟩
  rw [← there]
  exact comesOut_exchange side now holds parts roomy

/-- What an exchange that has ended has come to. -/
theorem ComesOut.ends {program : Nat → MemoryProgram Exchanged} {ours : PlacedChain} {sync : Sync}
    {exchange : Exchange} {process : Process} {rest : Pieces} {exchanged : Exchanged} {ended : Process}
    (comes : ComesOut program ours sync exchange process rest)
    (yields : Yields program process (.ok exchanged) ended) :
    ∃ returnCode owned, Handover ours sync exchange.sync returnCode exchanged owned ∧
      pieces ended = owned + rest := by
  unfold ComesOut at comes
  split at comes
  next returnCode _ =>
    obtain ⟨_, _, owned, also, handover, parts⟩ := comes
    obtain ⟨same, rfl⟩ := yields.unique also
    cases same
    exact ⟨returnCode, owned, handover, parts⟩
  next => exact absurd (ComesTo.unique yields comes) (by simp)
  next => exact absurd (ComesTo.unique yields comes) (by simp)

theorem Lost.eq_zero {lost : Pieces} (loses : Lost (3 * 0) 0 lost) : lost = 0 := by
  obtain ⟨raws, held, own, few, fewHeld, there, rfl⟩ := loses
  obtain rfl : raws = [] := List.eq_nil_of_length_eq_zero (Nat.le_zero.mp few)
  obtain rfl : held = [] := List.eq_nil_of_length_eq_zero (Nat.le_zero.mp fewHeld)
  obtain rfl : own = 0 := there
  rfl

theorem Lost.next (labels : List NodeCall) {returnCode : Except Failure Unit} {lost more : Pieces}
    (loses : Lost (3 * labels.count (.exchange false)) (labels.count (.exchange false)) lost)
    (losesMore : Lost 3 1 more) (clean : returnCode = .ok () → more = 0) :
    Lost (3 * (labels ++ [NodeCall.exchange returnCode.isOk]).count (.exchange false))
      ((labels ++ [NodeCall.exchange returnCode.isOk]).count (.exchange false)) (more + lost) := by
  cases returnCode with
  | ok value =>
    obtain rfl : more = 0 := clean rfl
    simpa [Except.isOk, Except.toBool] using loses
  | error failure =>
    simp only [Except.isOk, Except.toBool, List.count_append, List.count_singleton_self]
    exact (losesMore.add loses).mono (by omega) (by omega)

theorem NodeProcessStep.balanced (balanced : Balanced start labels before) {label : NodeCall}
    (step : NodeProcessStep platform before label after) : Balanced start (labels ++ [label]) after := by
  cases step with
  -- the miner and its destruction are steps of the memory that holds the chains
  | mines step =>
    obtain ⟨lost, loses, keeps⟩ := balanced
    refine ⟨lost, by simpa using loses, ?_⟩
    rw [List.filterMap_append]
    exact step.keeps keeps
  | destroys step =>
    obtain ⟨lost, loses, keeps⟩ := balanced
    refine ⟨lost, by simpa using loses, ?_⟩
    rw [List.filterMap_append]
    exact step.keeps keeps
  | @exchanges side environment stream now exchanged ended roomy yields =>
    obtain ⟨ours, others, lost, buffers, there, holds, chains, few, loses, parts⟩ := balanced.published
    have comes : ComesOut _ ours before.sync (exchangeInside side platform environment before.sync stream) _ _ :=
      comesOut_exchange side now holds parts roomy
    rw [there] at comes
    obtain ⟨returnCode, owned, ⟨rfl, published, replaced, more, address, now, either, losesMore, clean, rfl⟩, left⟩ :=
      comes.ends yields
    rw [exchangeInside, unlessBehind_sync] at now either
    refine ⟨more + lost, loses.next labels losesMore clean, ?_⟩
    have quiet : (labels ++ [NodeCall.exchange exchanged.returnCode.isOk]).filterMap NodeCall.memoryAction =
        labels.filterMap NodeCall.memoryAction := by
      rw [List.filterMap_append]
      exact List.append_nil _
    rw [quiet]
    rcases either with ⟨rfl, same, rfl⟩ | ⟨counted, rfl⟩
    -- without a switch the version is the one before, so nothing has been replaced
    · refine ⟨published.pieces + others, buffers, ?_, few, ?_⟩
      · rw [NodeProcess.memory, NodeProcess.exchanged, same, if_pos rfl]
        exact ⟨_, others, ⟨published, address, holds, rfl⟩, chains, rfl⟩
      · rw [NodeProcess.memory, NodeProcess.exchanged, left]
        abel
    · have switched : (exchangeOf side platform environment before.sync stream).sync.version ≠ before.sync.version := by
        rw [counted]
        simp
      refine ⟨published.pieces + (ours.pieces + others), buffers, ?_, few, ?_⟩
      · rw [NodeProcess.memory, NodeProcess.exchanged, if_neg switched]
        exact ⟨_, _, ⟨published, address, now, rfl⟩, ⟨_, others, ⟨ours, there, holds, rfl⟩, chains, rfl⟩, rfl⟩
      · rw [NodeProcess.memory, NodeProcess.exchanged, left]
        abel

/-- Without failures nothing has been left behind. -/
theorem Keeps.clean {memory : NodeMemory} {lost : Pieces}
    (keeps : Keeps (lost + start) (labels.filterMap NodeCall.memoryAction) memory)
    (loses : Lost (3 * labels.count (.exchange false)) (labels.count (.exchange false)) lost)
    (succeeded : NodeCall.exchange false ∉ labels) (clean : NodeCall.mine false ∉ labels) :
    ∃ owned, ChainsAt memory.held owned ∧ pieces memory.process = owned + start := by
  obtain ⟨owned, buffers, chains, few, parts⟩ := keeps
  have noneFailed : labels.count (.exchange false) = 0 := List.count_eq_zero.mpr succeeded
  have noneMined : MemoryAction.mine false ∉ labels.filterMap NodeCall.memoryAction := by
    intro member
    obtain ⟨label, member, action⟩ := List.mem_filterMap.mp member
    cases label with
    | mine _ =>
      cases action
      exact clean member
    | exchange succeeded => cases action
    | destroy => cases action
  rw [List.count_eq_zero.mpr noneMined] at few
  obtain rfl : buffers = [] := List.eq_nil_of_length_eq_zero (Nat.le_zero.mp few)
  rw [noneFailed] at loses
  obtain rfl : lost = 0 := loses.eq_zero
  exact ⟨owned, chains, by simpa [bufferPieces] using parts⟩

theorem balanced_of_run {own : Pieces} (there : ChainsAt first.memory.held own)
    (parts : pieces first.process = own + start) (run : Run (NodeProcessStep platform) first labels last) :
    Balanced start labels last := by
  have initially : Balanced start [] first :=
    ⟨0, lost_nothing _ _, own, [], there, Nat.zero_le _, by simpa [bufferPieces, NodeProcess.memory] using parts⟩
  exact run.invariantAlong (Balanced start) initially fun _ _ _ _ balanced step => step.balanced balanced

end Runs

/-- An exchange that succeeds and switches. -/
theorem Balanced.switches {PKey : Type} {platform : Platform PKey} {start : Pieces} {labels : List NodeCall}
    {before : NodeProcess} (balanced : Balanced start labels before) (side : Side) {environment : Environment}
    {stream : Stream} {longer : Blockchain} (now : Int64) (roomy : Roomy platform side.path environment stream
      (weight (pieces before.process) + (chainMessage before.sync.blockchain).length))
    (inside : exchangeBehind side platform environment before.sync stream = false)
    (succeeds : (exchangeOf side platform environment before.sync stream).outcome = .ok ())
    (switched : (exchangeOf side platform environment before.sync stream).sync = ⟨longer, before.sync.version + 1⟩) :
    ∃ address after, NodeProcessStep platform before (.exchange true)
      ⟨after, address, ⟨longer, before.sync.version + 1⟩,
        (before.published, before.sync.blockchain) :: before.replaced⟩ := by
  obtain ⟨_, _, -, -, -, comes⟩ := balanced.comesOut side now roomy
  rw [exchangeInside, inside, unlessBehind_false, ComesOut, courseOf_eq_ok.mpr succeeds] at comes
  obtain ⟨exchanged, after, _, yields, ⟨code, -⟩, -⟩ := comes
  have exchange : NodeProcessStep platform before (.exchange exchanged.returnCode.isOk) _ := .exchanges roomy yields
  have later : before.sync.version + 1 ≠ before.sync.version := by simp
  rw [code, NodeProcess.exchanged, switched, if_neg later] at exchange
  exact ⟨exchanged.blockchain, after, exchange⟩

section Longer

/-- A longer chain comes in, a block is mined on it and saved, and the chain that was there is destroyed. -/
theorem sampleStream_run {first : NodeProcess} {shorter : Blockchain} {own : Pieces}
    (sync : first.sync = ⟨shorter, 0⟩) (only : first.replaced = []) (there : ChainsAt first.memory.held own)
    (parts : pieces first.process = own + 0) (light : chainMemory shorter.blockList < 2 ^ 32)
    (prefers : prefersPeer shorter (sampleChain 2) = true) :
    ∃ last, Run (NodeProcessStep Platform.lenient) first [.exchange true, .mine true, .destroy] last ∧
      last.replaced = [] ∧ last.sync.blockchain = sampleChain (2 + 1) := by
  have balanced := balanced_of_run there parts (.start : Run (NodeProcessStep Platform.lenient) _ _ _)
  have used := weight_chainsAt there
  have length := encodeBlockchain_length_le shorter
  have roomy : Roomy Platform.lenient Side.server.path sparingEnvironment (sampleStream 2)
      (weight (pieces first.process) + (chainMessage first.sync.blockchain).length) := by
    refine sampleStream_roomy .server 2 ?_
    rw [parts, add_zero, used, chainMessage_length, NodeProcess.memory, sync, only]
    simp only [List.map_cons, List.map_nil, List.sum_cons, List.sum_nil]
    omega
  obtain ⟨inside, served, switched⟩ := sampleStream_served (by decide) 0 prefers
  rw [← sync] at inside served switched
  obtain ⟨address, middle, exchange⟩ := balanced.switches .server 0 roomy inside served (by rw [switched, sync])
  rw [sync, only] at exchange
  -- nothing has failed, so memory holds the two chains
  obtain ⟨lost, loses, keeps⟩ := balanced_of_run there parts (.single exchange)
  obtain ⟨owned, chains, now⟩ := keeps.clean loses (by simp) (by simp)
  have few : weight (pieces middle) ≤ 2 ^ 40 := by
    have longer := sampleChain_light 2
    rw [show pieces middle = owned + 0 from now, add_zero, weight_chainsAt chains]
    simp only [NodeProcess.memory, List.map_cons, List.map_nil, List.sum_cons, List.sum_nil]
    omega
  obtain ⟨mined, mine⟩ := sampleChain_mined keeps few (by decide)
  have both : (NodeMemory.mk mined [(address, sampleChain (2 + 1)), (first.published, shorter)]).held =
      [(address, sampleChain (2 + 1))] ++ (first.published, shorter) :: [] := rfl
  obtain ⟨after, destroys, -⟩ := (mine.keeps keeps).destroys both
  have mine : NodeProcessStep Platform.lenient _ (.mine true)
      ⟨mined, address, ⟨sampleChain (2 + 1), 0 + 1⟩, [(first.published, shorter)]⟩ := .mines mine
  have destroy : NodeProcessStep Platform.lenient
      ⟨mined, address, ⟨sampleChain (2 + 1), 0 + 1⟩, [(first.published, shorter)]⟩ .destroy
      ⟨after, address, ⟨sampleChain (2 + 1), 0 + 1⟩, []⟩ := .destroys (.destroys both destroys)
  exact ⟨_, .cons exchange (.cons mine (.single destroy)), rfl, rfl⟩

end Longer

end ChainMemory

end LeoCoin
