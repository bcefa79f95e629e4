import LeoCoin.Adoption
import LeoCoin.ConsensusServers
import LeoCoin.Longest

/-! # A network of nodes

Any number of nodes, each with its threads interleaved as `NodeStep` says.  A chain that a
consensus call serializes is a message from then on.  A connection delivers a message, or
the first part of one, to a call of any node, at any time, any number of times or never.
-/

namespace LeoCoin

open Library.Publication Library.Transition

variable {PKey ι : Type} [DecidableEq ι]

/-- The chain that `sync->blockchain` points to. -/
def Node.published (node : Node) : Blockchain := node.chains node.blockchain

/-- The chain that a call has received and has not decided about. -/
def PeerPc.undecided : PeerPc → Option Nat
  | .received _ peerBlockchain _ => some peerBlockchain
  | .locked _ peerBlockchain _ => some peerBlockchain
  | .measured _ peerBlockchain _ => some peerBlockchain
  | .writing _ peerBlockchain => some peerBlockchain
  | _ => none

@[simp] theorem Side.onDecided_undecided (side : Side) (leftover : Option Nat) :
    (side.onDecided leftover).undecided = none := by
  cases side <;> rfl

theorem Side.onDecided_ne_idle (side : Side) (leftover : Option Nat) : side.onDecided leftover ≠ .idle := by
  cases side <;> simp [Side.onDecided]

@[simp] theorem PeerPc.afterUnlock_undecided (leftover : Option Nat) :
    (PeerPc.afterUnlock leftover).undecided = none := by
  cases leftover <;> rfl

structure World (ι : Type) where
  nodes : ι → Node
  /-- the chains that were serialized to be sent, oldest first -/
  messages : List Blockchain

def World.setNode (world : World ι) (id : ι) (node : Node) : World ι :=
  { world with nodes := Function.update world.nodes id node }

inductive WorldAction (ι : Type) where
  /-- neither receives a chain nor decides about one nor makes one longer -/
  | inside (id : ι) (action : Action) : WorldAction ι
  | mine (id : ι) (blockchain : Blockchain) : WorldAction ι
  | send (id : ι) (call : Nat) : WorldAction ι
  | receive (id : ι) (call message : Nat) : WorldAction ι
  | settle (id : ι) (call : Nat) (action : Action) : WorldAction ι
  /-- returns without a decision, the mutex could not be locked -/
  | lose (id : ι) (call : Nat) : WorldAction ι

inductive WorldStep (setups : ι → Setup PKey) : World ι → WorldAction ι → World ι → Prop where
  | inside {world : World ι} {id : ι} {action : Action} {after : Node} :
      NodeStep (setups id) (world.nodes id) action after → action ≠ .append →
      after.fresh = (world.nodes id).fresh →
      (∀ call, (after.peers call).undecided = ((world.nodes id).peers call).undecided) →
      WorldStep setups world (.inside id action) (world.setNode id after)
  | mine {world : World ι} {id : ι} {own : Nat} {after : Node} :
      MinerStep (setups id) (world.nodes id) .append after →
      (world.nodes id).miner.blockchain = some own →
      WorldStep setups world (.mine id (after.chains own)) (world.setNode id after)
  | request {world : World ι} {id : ι} {call : Nat} :
      (world.nodes id).peers call = .requesting →
      WorldStep setups world (.send id call)
        { world.setNode id { (world.nodes id).setPeer call .awaitingReply with holder := none } with
          messages := world.messages ++ [(world.nodes id).published] }
  | reply {world : World ι} {id : ι} {call : Nat} {leftover : Option Nat} :
      (world.nodes id).peers call = .replying leftover →
      WorldStep setups world (.send id call)
        { world.setNode id ((world.nodes id).setPeer call (.unlocking leftover)) with
          messages := world.messages ++ [(world.nodes id).published] }
  | receive {world : World ι} {id : ι} {call message : Nat} {sent peerBlockchain : Blockchain} {side : Side}
      {environment : Environment} {stream : Stream} {header : CommandHeader} {isValid : Bool} :
      (world.nodes id).miner.pc.launched = true → (world.nodes id).peers call = side.waiting →
      world.messages[message]? = some sent → stream.contents <+: chainMessage sent →
      receiveBlockchain (setups id).platform side.path environment stream =
        .ok (header, peerBlockchain, isValid) →
      WorldStep setups world (.receive id call message) (world.setNode id
        { (world.nodes id).setPeer call (side.onReceived (world.nodes id).fresh isValid) with
          chains := Function.update (world.nodes id).chains (world.nodes id).fresh peerBlockchain
          fresh := (world.nodes id).fresh + 1 })
  | settle {world : World ι} {id : ι} {call peerBlockchain : Nat} {action : Action} {after : Node} :
      PeerStep (setups id) call (world.nodes id) action after →
      ((world.nodes id).peers call).undecided = some peerBlockchain → (after.peers call).undecided = none →
      after.peers call ≠ .idle →
      WorldStep setups world (.settle id call action) (world.setNode id after)
  | lose {world : World ι} {id : ι} {call peerBlockchain : Nat} {side : Side} {isValid : Bool} :
      (world.nodes id).peers call = .received side peerBlockchain isValid →
      WorldStep setups world (.lose id call) (world.setNode id ((world.nodes id).setPeer call .idle))

@[simp] theorem World.setNode_nodes (world : World ι) (id : ι) (node : Node) :
    (world.setNode id node).nodes id = node := Function.update_self _ _ _

theorem World.setNode_nodes_of_ne (world : World ι) {id other : ι} (different : other ≠ id) (node : Node) :
    (world.setNode id node).nodes other = world.nodes other := Function.update_of_ne different _ _

@[simp] theorem World.setNode_setNode (world : World ι) (id : ι) (node next : Node) :
    (world.setNode id node).setNode id next = world.setNode id next := by
  simp [World.setNode]

@[simp] theorem World.setNode_messages (world : World ι) (id : ι) (node : Node) :
    (world.setNode id node).messages = world.messages := rfl

section Steps

variable {setups : ι → Setup PKey} {before after : World ι} {label : WorldAction ι}

/-- A step of the network is one of a node.  That lengthens a chain only by mining, and uses
a new address only for a chain that it receives. -/
theorem WorldStep.node (step : WorldStep setups before label after) :
    ∃ id action node, NodeStep (setups id) (before.nodes id) action node ∧
      after.nodes = Function.update before.nodes id node ∧
      (action = .append → ∃ blockchain, label = .mine id blockchain) ∧
      ((∀ call message, label ≠ .receive id call message) → node.fresh = (before.nodes id).fresh) := by
  cases step with
  | inside step lengthens same undecided =>
    exact ⟨_, _, _, step, rfl, fun appends => absurd appends lengthens, fun _ => same⟩
  | mine step follows => exact ⟨_, _, _, .miner step, rfl, fun _ => ⟨_, rfl⟩, fun _ => step.frame.2.1⟩
  | request pc => exact ⟨_, _, _, .peer _ (.requested pc), rfl, by simp, fun _ => rfl⟩
  | reply pc => exact ⟨_, _, _, .peer _ (.reply pc), rfl, by simp, fun _ => rfl⟩
  | receive launched waiting sent delivered received =>
    exact ⟨_, _, _, .peer _ (.receive launched waiting received), rfl, by simp,
      fun receives => absurd rfl (receives _ _)⟩
  | lose pc => exact ⟨_, _, _, .peer _ (.lockFails pc), rfl, by simp, fun _ => rfl⟩
  | @settle id call pointer action node step undecided decided =>
    refine ⟨_, _, _, .peer call step, rfl, ?_, fun _ => ?_⟩
    · rintro rfl
      cases step
    · cases step with
      | @receive side environment stream header peerBlockchain isValid launched waiting received =>
        rw [waiting] at undecided
        cases side <;> cases undecided
      | _ => rfl

/-- What every step of a node keeps, a step of the network keeps of all nodes. -/
theorem WorldStep.keeps (step : WorldStep setups before label after) (holds : ι → Node → Prop)
    (held : ∀ id, holds id (before.nodes id))
    (preserved : ∀ id action node, NodeStep (setups id) (before.nodes id) action node →
      (action = .append → ∃ blockchain, label = .mine id blockchain) → holds id node) (id : ι) :
    holds id (after.nodes id) := by
  obtain ⟨acts, action, node, taken, updated, mines, -⟩ := step.node
  rw [updated]
  by_cases same : id = acts
  · subst same
    rw [Function.update_self]
    exact preserved id action node taken mines
  · rw [Function.update_of_ne same]
    exact held id

theorem WorldStep.messages (step : WorldStep setups before label after) :
    after.messages = before.messages ∨ ∃ id call, label = .send id call ∧
      after.messages = before.messages ++ [(before.nodes id).published] := by
  cases step with
  | request pc | reply pc => exact .inr ⟨_, _, rfl, rfl⟩
  | _ => exact .inl rfl

theorem PeerStep.undecided {setup : Setup PKey} {call : Nat} {node next : Node} {action : Action}
    (step : PeerStep setup call node action next) (same : next.fresh = node.fresh) :
    (next.peers call).undecided = (node.peers call).undecided ∨ (next.peers call).undecided = none := by
  cases step with
  | receive launched waiting received =>
    simp only at same
    omega
  | lock pc free | measure pc | decide pc longer sameDifficulty =>
    left
    rw [Node.setPeer_peers, pc]
    rfl
  | ignore pc | decline pc declined | increment pc | unlock pc => simp
  | request launched pc free | requested pc | giveUp pc | requestedFails pc | lockFails pc | unlockFails pc | write pc
  | reply pc | replyFails pc =>
    right
    rw [Node.setPeer_peers]
    rfl
  | destroyPeer pc =>
    right
    rw [Node.destroyBlockchain_peers, Node.setPeer_peers]
    rfl

theorem PeerStep.inside {setups : ι → Setup PKey} {world : World ι} {id : ι} {call : Nat} {action : Action}
    {node : Node}
    (step : PeerStep (setups id) call (world.nodes id) action node) (same : node.fresh = (world.nodes id).fresh)
    (decides : (node.peers call).undecided = ((world.nodes id).peers call).undecided) :
    WorldStep setups world (.inside id action) (world.setNode id node) := by
  refine .inside (.peer call step) ?_ same fun other => ?_
  · rintro rfl
    cases step
  · by_cases sameCall : other = call
    · rw [sameCall, decides]
    · rw [step.frame.2.2.2 other sameCall]

theorem PeerStep.loses {setups : ι → Setup PKey} {world : World ι} {id : ι} {call pointer : Nat} {action : Action}
    {node : Node} (step : PeerStep (setups id) call (world.nodes id) action node)
    (undecided : ((world.nodes id).peers call).undecided = some pointer) (returns : node.peers call = .idle) :
    WorldStep setups world (.lose id call) (world.setNode id node) := by
  cases step with
  | lockFails pc => exact .lose pc
  | requestedFails pc | giveUp pc | unlockFails pc | destroyPeer pc =>
    rw [pc] at undecided
    cases undecided
  | @receive side environment stream header peerBlockchain isValid launched waiting received =>
    rw [waiting] at undecided
    cases side <;> cases undecided
  | @unlock leftover pc =>
    rw [pc] at undecided
    cases undecided
  | ignore pc | decline pc _ | increment pc =>
    rw [Node.setPeer_peers] at returns
    exact absurd returns (Side.onDecided_ne_idle _ _)
  | request | requested | lock | measure | decide | write | reply | replyFails =>
    rw [Node.setPeer_peers] at returns
    cases returns

/-- A step of a node is a step of the network, but that what it receives has to have been sent. -/
theorem NodeStep.inWorld (setups : ι → Setup PKey) {world : World ι} {id : ι} {action : Action} {node : Node}
    (step : NodeStep (setups id) (world.nodes id) action node) (same : node.fresh = (world.nodes id).fresh) :
    ∃ label, WorldStep setups world label (world.setNode id node) := by
  cases step with
  | miner step =>
    by_cases lengthens : action = .append
    · subst lengthens
      cases follows : (world.nodes id).miner.blockchain with
      | none =>
        cases step with
        | append pc follows' added =>
          rw [follows] at follows'
          cases follows'
      | some own => exact ⟨_, .mine step follows⟩
    · exact ⟨_, .inside (.miner step) lengthens same fun call => by rw [step.frame.1]⟩
  | peer call step =>
    by_cases decides : (node.peers call).undecided = ((world.nodes id).peers call).undecided
    · exact ⟨_, step.inside same decides⟩
    · -- the call had a chain to decide about, and has none any more
      have none := (step.undecided same).resolve_left decides
      cases undecided : ((world.nodes id).peers call).undecided with
      | none =>
        rw [undecided] at decides
        exact absurd none decides
      | some peerBlockchain =>
        by_cases returns : node.peers call = .idle
        · exact ⟨_, step.loses undecided returns⟩
        · exact ⟨_, .settle step undecided none returns⟩

theorem NodeStep.fresh_le {setup : Setup PKey} {node next : Node} {action : Action}
    (step : NodeStep setup node action next) : node.fresh ≤ next.fresh := by
  cases step with
  | miner step => exact step.frame.2.1.ge
  | peer id step => exact step.frame.2.2.1

/-- A run of a node in which it receives nothing. -/
theorem inWorld_of_run (setups : ι → Setup PKey) (id : ι) {node next : Node} {actions : List Action}
    (run : Run (NodeStep (setups id)) node actions next) (world : World ι) (there : world.nodes id = node)
    (same : next.fresh = node.fresh) :
    ∃ labels, Run (WorldStep setups) world labels (world.setNode id next) := by
  subst there
  induction run with
  | start => exact ⟨[], by simpa [World.setNode] using Run.start⟩
  | @next middle last actions action earlier step ih =>
    have upTo : (world.nodes id).fresh ≤ middle.fresh :=
      earlier.invariant (fun node => (world.nodes id).fresh ≤ node.fresh) (Nat.le_refl _)
        fun _ _ _ held taken => held.trans taken.fresh_le
    have further := step.fresh_le
    obtain ⟨labels, run⟩ := ih (by omega)
    rw [← World.setNode_nodes world id middle] at step
    obtain ⟨label, taken⟩ := step.inWorld setups (by rw [World.setNode_nodes]; omega)
    rw [World.setNode_setNode] at taken
    exact ⟨_, .next run taken⟩

end Steps

end LeoCoin
