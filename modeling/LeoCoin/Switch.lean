import LeoCoin.Ownership

/-! # A request that nothing interrupts

The steps of one consensus request, taken one after the other, do what the request does as
a function: `undisturbed_switch` for a chain that is adopted, and
`undisturbed_request_refines` for any chain that has been decoded.
-/

namespace LeoCoin

open Library.Publication Library.Transition

variable {PKey : Type}

/-! ## Receiving a chain -/

/-- The node once call `id` has decoded a chain to a new address and locked the mutex. -/
def Node.considering (node : Node) (id : Nat) (peerBlockchain : Blockchain) (isValid : Bool) : Node :=
  { node.setPeer id (.locked .server node.fresh isValid) with
    chains := Function.update node.chains node.fresh peerBlockchain
    fresh := node.fresh + 1
    holder := some (.peer id) }

section Considering

variable {setup : Setup PKey} {node : Node} {id : Nat} {peerBlockchain : Blockchain} {isValid : Bool}

@[simp] theorem Node.considering_peers :
    (node.considering id peerBlockchain isValid).peers id = .locked .server node.fresh isValid :=
  Function.update_self _ _ _

theorem Node.considering_ours (inUse : node.blockchain < node.fresh) :
    (node.considering id peerBlockchain isValid).chains node.blockchain = node.chains node.blockchain :=
  Function.update_of_ne (Nat.ne_of_lt inUse) _ _

theorem Node.considering_theirs :
    (node.considering id peerBlockchain isValid).chains node.fresh = peerBlockchain :=
  Function.update_self _ _ _

theorem considers_chain {guard : Node → Action → Prop} {environment : Environment} {stream : Stream}
    {header : CommandHeader} (allowed : ∀ other, other.miner = node.miner → guard other .other)
    (launched : node.miner.pc.launched = true) (idle : node.peers id = .idle) (free : node.holder = none)
    (received : receiveBlockchain setup.platform .handleOneConsensusRequest environment stream =
      .ok (header, peerBlockchain, isValid)) :
    Run (Guarded (NodeStep setup) guard) node [.other, .other] (node.considering id peerBlockchain isValid) := by
  let decoded : Node :=
    { node.setPeer id (.received .server node.fresh isValid) with
      chains := Function.update node.chains node.fresh peerBlockchain
      fresh := node.fresh + 1 }
  let locked : Node :=
    { decoded.setPeer id (.locked .server node.fresh isValid) with holder := some (.peer id) }
  have same : locked = node.considering id peerBlockchain isValid := by
    simp only [locked, decoded, Node.setPeer, Node.considering, Function.update_idem]
  have waiting : node.peers id = Side.server.waiting := idle
  have receive : PeerStep setup id node .other decoded := PeerStep.receive launched waiting received
  have lock : PeerStep setup id decoded .other locked := .lock (Function.update_self _ _ _) free
  rw [← same]
  exact .cons ⟨allowed node rfl, .peer id receive⟩ (.single ⟨allowed decoded rfl, .peer id lock⟩)

end Considering

/-! ## Adopting a chain -/

/-- The node once `peerBlockchain` has been decoded to a new address and adopted. -/
def Node.switchTo (node : Node) (peerBlockchain : Blockchain) : Node :=
  { node with
    chains := Function.update node.chains node.fresh peerBlockchain
    fresh := node.fresh + 1
    blockchain := node.fresh
    version := node.version + 1 }

def switchActions (peerBlockchain : Nat) : List Action :=
  [.other, .other, .other, .other, .write peerBlockchain, .increment, .other, .other]

/-- A request with a valid chain that is preferred to ours goes through, under any guard that
looks only at the miner. -/
theorem undisturbed_switch {setup : Setup PKey} {guard : Node → Action → Prop} {node : Node}
    {environment : Environment} {stream : Stream} {header : CommandHeader} {peerBlockchain : Blockchain}
    (id : Nat) (allowed : ∀ other action, other.miner = node.miner → guard other action)
    (launched : node.miner.pc.launched = true) (idle : node.peers id = .idle) (free : node.holder = none)
    (inUse : node.blockchain < node.fresh)
    (received : receiveBlockchain setup.platform .handleOneConsensusRequest environment stream =
      .ok (header, peerBlockchain, true))
    (preferred : prefersPeer (node.chains node.blockchain) peerBlockchain = true) :
    Run (Guarded (NodeStep setup) guard) node (switchActions node.fresh) (node.switchTo peerBlockchain) := by
  rw [prefersPeer, Bool.and_eq_true, decide_eq_true_eq, beq_iff_eq] at preferred
  obtain ⟨longer, sameDifficulty⟩ := preferred
  -- the node after each of the six steps that are left
  let n2 := node.considering id peerBlockchain true
  let n3 := n2.setPeer id
    (.measured .server node.fresh (linkedListLength (n2.chains node.blockchain).blockList))
  let n4 := n3.setPeer id (.writing .server node.fresh)
  let n5 : Node := { n4.setPeer id (.incrementing .server) with blockchain := node.fresh }
  let n6 : Node := { n5.setPeer id (.replying none) with version := node.version + 1 }
  let n7 := n6.setPeer id (.unlocking none)
  let n8 : Node := { n7.setPeer id .idle with holder := none }
  have ours : n2.chains node.blockchain = node.chains node.blockchain := Node.considering_ours inUse
  have theirs : n2.chains node.fresh = peerBlockchain := Node.considering_theirs
  have back : n8 = node.switchTo peerBlockchain := by
    have peers : Function.update node.peers id .idle = node.peers := by
      rw [← idle, Function.update_eq_self]
    simp only [n8, n7, n6, n5, n4, n3, n2, Node.considering, Node.setPeer, Node.switchTo,
      Function.update_idem, peers, free]
  have at3 : n3.peers id = .measured .server node.fresh _ := Function.update_self _ _ _
  have at4 : n4.peers id = .writing .server node.fresh := Function.update_self _ _ _
  have at5 : n5.peers id = .incrementing .server := Function.update_self _ _ _
  have at6 : n6.peers id = .replying none := Function.update_self _ _ _
  have at7 : n7.peers id = .unlocking none := Function.update_self _ _ _
  have measure : PeerStep setup id n2 .other n3 := .measure Node.considering_peers
  have decided : PeerStep setup id n3 .other n4 := by
    apply PeerStep.decide at3
    · show linkedListLength (n2.chains node.fresh).blockList > _
      rw [ours, theirs]
      exact longer
    · show (n2.chains node.blockchain).numLeadingZeroBytesRequiredInBlockHash =
        (n2.chains node.fresh).numLeadingZeroBytesRequiredInBlockHash
      rw [ours, theirs]
      exact sameDifficulty
  have write : PeerStep setup id n4 (.write node.fresh) n5 := .write at4
  have increment : PeerStep setup id n5 .increment n6 := .increment at5
  have reply : PeerStep setup id n6 .other n7 := .reply at6
  have unlock : PeerStep setup id n7 .other n8 := .unlock at7
  -- no step of a call touches the miner, so the guard lets all of them through
  have guarded {left right : Node} {action : Action} (sameMiner : left.miner = node.miner)
      (step : PeerStep setup id left action right) : Guarded (NodeStep setup) guard left action right :=
    ⟨allowed left action sameMiner, .peer id step⟩
  have adopts : Run (Guarded (NodeStep setup) guard) n2
      [.other, .other, .write node.fresh, .increment, .other, .other] n8 :=
    .cons (guarded rfl measure) (.cons (guarded rfl decided) (.cons (guarded rfl write)
      (.cons (guarded rfl increment) (.cons (guarded rfl reply) (.single (guarded rfl unlock))))))
  have begun : Run (Guarded (NodeStep setup) guard) node [.other, .other] n2 :=
    considers_chain (fun other sameMiner => allowed other .other sameMiner) launched idle free received
  rw [← back]
  exact begun.trans adopts

/-! ## Any request -/

/-- The part of a node that a request sees when nothing interrupts it. -/
def Node.sync (node : Node) : Sync := ⟨node.chains node.blockchain, node.version⟩

theorem keeps_chain {setup : Setup PKey} {node : Node} {id peerBlockchain : Nat}
    (replying : node.peers id = .replying (some peerBlockchain)) :
    Run (NodeStep setup) node [.other, .other, .destroyPeer peerBlockchain]
      ({ node with peers := Function.update node.peers id .idle, holder := none }.destroyBlockchain
        peerBlockchain) := by
  let n1 := node.setPeer id (.unlocking (some peerBlockchain))
  let n2 : Node := { n1.setPeer id (.destroying peerBlockchain) with holder := none }
  let n3 : Node := (n2.setPeer id .idle).destroyBlockchain peerBlockchain
  have at1 : n1.peers id = .unlocking (some peerBlockchain) := Function.update_self _ _ _
  have at2 : n2.peers id = .destroying peerBlockchain := Function.update_self _ _ _
  have reply : PeerStep setup id node .other n1 := .reply replying
  have unlock : PeerStep setup id n1 .other n2 := .unlock at1
  have destroy : PeerStep setup id n2 (.destroyPeer peerBlockchain) n3 := .destroyPeer at2
  have run : Run (NodeStep setup) node [.other, .other, .destroyPeer peerBlockchain] n3 :=
    .cons (.peer id reply) (.cons (.peer id unlock) (.single (.peer id destroy)))
  simpa only [n3, n2, n1, Node.setPeer, Function.update_idem] using run

theorem declines_chain {setup : Setup PKey} {node : Node} {id : Nat} {peerBlockchain : Blockchain}
    {isValid : Bool} (inUse : node.blockchain < node.fresh)
    (unwanted : ¬ (isValid = true ∧ prefersPeer (node.chains node.blockchain) peerBlockchain = true)) :
    ∃ actions, Run (NodeStep setup) (node.considering id peerBlockchain isValid) actions
      ((node.considering id peerBlockchain isValid).setPeer id (.replying (some node.fresh))) := by
  cases isValid with
  | false =>
    have ignore : PeerStep setup id (node.considering id peerBlockchain false) .other _ :=
      .ignore Node.considering_peers
    exact ⟨_, .single (.peer id ignore)⟩
  | true =>
    let n2 := node.considering id peerBlockchain true
    let n3 := n2.setPeer id
      (.measured .server node.fresh (linkedListLength (n2.chains node.blockchain).blockList))
    have ours : n2.chains node.blockchain = node.chains node.blockchain := Node.considering_ours inUse
    have theirs : n2.chains node.fresh = peerBlockchain := Node.considering_theirs
    have unpreferred : ¬ prefersPeer (node.chains node.blockchain) peerBlockchain = true :=
      fun preferred => unwanted ⟨rfl, preferred⟩
    rw [prefersPeer, Bool.and_eq_true, decide_eq_true_eq, beq_iff_eq, ← ours, ← theirs] at unpreferred
    have at3 : n3.peers id = .measured .server node.fresh _ := Function.update_self _ _ _
    have measure : PeerStep setup id n2 .other n3 := .measure Node.considering_peers
    have decline : PeerStep setup id n3 .other (n3.setPeer id (.replying (some node.fresh))) :=
      .decline at3 unpreferred
    have run : Run (NodeStep setup) n2 [.other, .other] (n3.setPeer id (.replying (some node.fresh))) :=
      .cons (.peer id measure) (.single (.peer id decline))
    exact ⟨[.other, .other], by simpa only [n3, Node.setPeer, Function.update_idem] using run⟩

/-- Run without interruption, the steps of a request come to what the request is as a
function, and leave the miner and the mutex as they were. -/
theorem undisturbed_request_refines {setup : Setup PKey} {node : Node} (id : Nat)
    (environment : Environment) (stream : Stream) (launched : node.miner.pc.launched = true)
    (idle : node.peers id = .idle) (free : node.holder = none) (inUse : node.blockchain < node.fresh) :
    ∃ actions after, Run (NodeStep setup) node actions after ∧
      after.sync = (handleOneConsensusRequest setup.platform environment node.sync stream).sync ∧
      after.miner = node.miner ∧ after.holder = none ∧ after.peers = node.peers := by
  cases received : receiveBlockchain setup.platform .handleOneConsensusRequest environment stream with
  | error stop =>
    refine ⟨[], node, .start, ?_, rfl, free, rfl⟩
    simp [handleOneConsensusRequest, received]
  | ok result =>
    obtain ⟨header, peerBlockchain, isValid⟩ := result
    rw [handle_one_consensus_request_sync, received, Sync.considering]
    by_cases adopts : isValid = true ∧ prefersPeer (node.chains node.blockchain) peerBlockchain = true
    · obtain ⟨rfl, preferred⟩ := adopts
      have run : Run (Guarded (NodeStep setup) fun _ _ => True) node _ _ :=
        undisturbed_switch id (fun _ _ _ => trivial) launched idle free inUse received preferred
      refine ⟨_, _, run.unguarded, ?_, rfl, free, rfl⟩
      simp [Node.sync, Node.switchTo, considerPeerBlockchain, preferred]
    · -- the decoded chain is destroyed again
      have kept : considerPeerBlockchain node.sync peerBlockchain isValid = node.sync := by
        rw [considerPeerBlockchain, if_neg]
        rwa [Bool.and_eq_true]
      let n2 := node.considering id peerBlockchain isValid
      have begun : Run (Guarded (NodeStep setup) fun _ _ => True) node _ n2 :=
        considers_chain (fun _ _ => trivial) launched idle free received
      have declined : ∃ actions, Run (NodeStep setup) n2 actions
          (n2.setPeer id (.replying (some node.fresh))) := declines_chain inUse adopts
      obtain ⟨actions, declined⟩ := declined
      have replying : (n2.setPeer id (.replying (some node.fresh))).peers id = .replying (some node.fresh) :=
        Function.update_self _ _ _
      refine ⟨_, _, (begun.unguarded.trans declined).trans (keeps_chain replying), ?_, rfl, rfl, ?_⟩
      · have ours : n2.chains node.blockchain = node.chains node.blockchain := Node.considering_ours inUse
        rw [kept, Node.sync, Node.sync, ← ours]
        exact congrArg (Sync.mk · node.version) (Node.destroyBlockchain_chains _ (Nat.ne_of_lt inUse))
      · simp only [n2, Node.considering, Node.setPeer, Node.destroyBlockchain_peers, Function.update_idem]
        rw [← idle, Function.update_eq_self]

/-! ## Sample nodes -/

def sampleSetup : Setup Unit := ⟨Platform.lenient, emptyKey, emptyKey⟩

/-- A node with only a genesis block. -/
def sampleNode (miner : Miner) : Node where
  chains := fun _ => sampleChain 0
  fresh := 1
  destroyed := []
  blockchain := 0
  version := 0
  holder := none
  syncVersionCurrentlyMined := 0
  miner := miner
  peers := fun _ => .idle

theorem sampleNode_quiet {miner : Miner} (outside : miner.pc.critical = false)
    (first : miner.blockchain = none ∨ miner.blockchain = some 0)
    (notTaken : ∀ old, miner.pc.phase ≠ .taken old) : Quiet (sampleNode miner) where
  free := rfl
  idle _ := rfl
  outside := outside
  ahead pointer beyond := by
    have beyond : 1 ≤ pointer := beyond
    refine ⟨?_, ?_, notTaken pointer, List.not_mem_nil⟩
    · show pointer ≠ 0
      omega
    · show miner.blockchain ≠ some pointer
      cases first with
      | inl nothing => simp [nothing]
      | inr genesis =>
        rw [genesis]
        intro same
        cases same
        omega

theorem sample_received (mined : UInt8) :
    receiveBlockchain sampleSetup.platform .handleOneConsensusRequest .ideal
        (.chunk (chainMessage (sampleChain mined)) .closed) =
      .ok ((chainCommand (sampleChain mined)).header, sampleChain mined, true) :=
  receiveBlockchain_chainMessage .handleOneConsensusRequest Environment.ideal_plenty rfl
    (sampleChain_signaturesFit mined) (sampleChain_accepted mined) (List.append_nil _)

theorem sample_version_bumped : (0 : UInt64) ≠ 0 + 1 := by decide

theorem sample_switch {guard : Node → Action → Prop} {node : Node} {fewer : UInt8} (more : UInt8)
    (allowed : ∀ other action, other.miner = node.miner → guard other action)
    (launched : node.miner.pc.launched = true) (idle : node.peers 0 = .idle) (free : node.holder = none)
    (inUse : node.blockchain < node.fresh) (ours : node.chains node.blockchain = sampleChain fewer)
    (less : fewer.toNat < more.toNat) :
    Run (Guarded (NodeStep sampleSetup) guard) node (switchActions node.fresh)
      (node.switchTo (sampleChain more)) := by
  have preferred : prefersPeer (node.chains node.blockchain) (sampleChain more) = true := by
    have longer : linkedListLength (sampleChain more).blockList > linkedListLength (sampleChain fewer).blockList := by
      rw [gt_iff_lt, UInt64.lt_iff_toNat_lt, (sampleChain more).length_toNat, (sampleChain fewer).length_toNat,
        sampleChain_length, sampleChain_length]
      omega
    have difficulty : (sampleChain fewer).numLeadingZeroBytesRequiredInBlockHash =
        (sampleChain more).numLeadingZeroBytesRequiredInBlockHash := rfl
    rw [ours, prefersPeer, Bool.and_eq_true, decide_eq_true_eq, beq_iff_eq]
    exact ⟨longer, difficulty⟩
  exact undisturbed_switch 0 allowed launched idle free inUse (sample_received more) preferred

/-- The miner at the head of its loop, on the genesis block. -/
def sampleMining : Node := sampleNode ⟨.loopHead .success, some 0⟩

theorem sampleMining_synchronized : Synchronized sampleMining where
  toQuiet := sampleNode_quiet rfl (.inr rfl) (fun _ => by simp [MinerPc.phase])
  atLoopHead := ⟨.success, rfl⟩
  sameChain := rfl
  sameVersion := rfl

end LeoCoin
