import Mathlib.Order.Lattice.Nat
import LeoCoin.Library.Gossip
import LeoCoin.Provenance

/-! # How far a chain gets

Seen from outside a network of like nodes is gossip about lengths: a node sends how long its
chain is, a call receives that and joins it where it decides.  So a node never falls behind
a chain that it has heard of, however threads, messages and mining are interleaved, and
without mining the nodes that have heard of all others agree.
-/

namespace LeoCoin

open Library.Publication Library.Transition Library.Gossip

variable {PKey ι : Type}

/-- The nodes are of one kind and sign with their own keys. -/
structure Alike (platform : Platform PKey) (setups : ι → Setup PKey) : Prop where
  samePlatform : ∀ id, (setups id).platform = platform
  signs : ∀ id, Signs platform (setups id).minerPublicKey (setups id).minerPrivateKey

/-- All nodes are at the heads of their loops, with valid chains of one difficulty. -/
structure Ready (platform : Platform PKey) (difficulty : UInt64) (world : World ι) : Prop where
  synchronized : ∀ id, Synchronized (world.nodes id)
  valid : ∀ id, ValidAt platform difficulty (world.nodes id).published
  silent : world.messages = []

def Node.pendingLength (node : Node) (call : Nat) : Option Nat :=
  (node.peers call).undecided.map node.lengthAt

/-- The network, as far as lengths go. -/
def World.lengths (world : World ι) : State ι Nat where
  value id := (world.nodes id).publishedLength
  sent := world.messages.map fun message => message.blockList.length
  pending call := (world.nodes call.1).pendingLength call.2

def WorldAction.event : WorldAction ι → Option (Library.Gossip.Event ι)
  | .inside _ _ => none
  | .mine id _ => some (.raise id)
  | .send id _ => some (.send id)
  | .receive id call message => some (.receive id call message)
  | .settle id call _ => some (.join id call)
  | .lose id call => some (.forget id call)

/-! ## What is known of chains that are waiting for a decision -/

section Trusted

variable {platform : Platform PKey} {difficulty : UInt64} {setup : Setup PKey} {before after : Node} {action : Action}

/-- The chain that a call is about to decide about is valid, and known to be. -/
def Trusted (platform : Platform PKey) (difficulty : UInt64) (node : Node) : PeerPc → Prop
  | .received _ peerBlockchain isValid =>
    isValid = true ∧ ValidAt platform difficulty (node.chains peerBlockchain)
  | .locked _ peerBlockchain isValid =>
    isValid = true ∧ ValidAt platform difficulty (node.chains peerBlockchain)
  | .measured _ peerBlockchain ourLength =>
    ValidAt platform difficulty (node.chains peerBlockchain) ∧ ourLength.toNat ≤ node.publishedLength
  | .writing _ peerBlockchain => ValidAt platform difficulty (node.chains peerBlockchain)
  | _ => True

theorem trusted_of_decided {pc : PeerPc} (decided : pc.undecided = none) : Trusted platform difficulty before pc := by
  cases pc with
  | received side peerBlockchain isValid | locked side peerBlockchain isValid
  | measured side peerBlockchain ourLength | writing side peerBlockchain => cases decided
  | _ => exact trivial

theorem Trusted.valid {pc : PeerPc} {pointer : Nat} (trusted : Trusted platform difficulty before pc)
    (undecided : pc.undecided = some pointer) : ValidAt platform difficulty (before.chains pointer) := by
  cases pc with
  | received side peerBlockchain isValid | locked side peerBlockchain isValid =>
    cases undecided
    exact trusted.2
  | measured side peerBlockchain ourLength =>
    cases undecided
    exact trusted.1
  | writing side peerBlockchain =>
    cases undecided
    exact trusted
  | _ => cases undecided

theorem Trusted.congr {pc : PeerPc} (trusted : Trusted platform difficulty before pc)
    (same : ∀ pointer, pc.undecided = some pointer → after.chains pointer = before.chains pointer)
    (grows : before.publishedLength ≤ after.publishedLength) : Trusted platform difficulty after pc := by
  cases pc with
  | received side peerBlockchain isValid | locked side peerBlockchain isValid =>
    have kept : after.chains peerBlockchain = before.chains peerBlockchain := same _ rfl
    exact ⟨trusted.1, kept ▸ trusted.2⟩
  | measured side peerBlockchain ourLength =>
    have kept : after.chains peerBlockchain = before.chains peerBlockchain := same _ rfl
    exact ⟨kept ▸ trusted.1, trusted.2.trans grows⟩
  | writing side peerBlockchain =>
    have kept : after.chains peerBlockchain = before.chains peerBlockchain := same _ rfl
    show ValidAt platform difficulty (after.chains peerBlockchain)
    rw [kept]
    exact trusted
  | _ => exact trivial

theorem PeerPc.candidate_of_undecided {pc : PeerPc} {pointer : Nat} (undecided : pc.undecided = some pointer) :
    pc.candidate = some pointer := by
  cases pc with
  | received side peerBlockchain isValid | locked side peerBlockchain isValid
  | measured side peerBlockchain ourLength | writing side peerBlockchain => exact undecided
  | _ => cases undecided

/-- A call that is going to decide about a chain is not about to destroy it. -/
theorem NodeStep.keeps_undecided {call pointer : Nat} (wellFormed : WellFormed before) (coherent : Coherent before.cell)
    (step : NodeStep setup before action after) (undecided : (before.peers call).undecided = some pointer) :
    before.destroys action ≠ some pointer := by
  have owns := PeerPc.candidate_of_undecided undecided
  intro destroyed
  have spared : ∀ call, (after.peers call).candidate ≠ some pointer :=
    (step.destroys wellFormed coherent destroyed).2.2
  cases step with
  | miner step => exact spared call (step.frame.1.symm ▸ owns)
  | peer id step =>
    obtain rfl := wellFormed.apart call id pointer owns (step.destroys destroyed)
    cases step with
    | destroyPeer pc =>
      rw [pc] at undecided
      cases undecided
    | _ => cases destroyed

theorem NodeStep.chains_undecided {call pointer : Nat} (wellFormed : WellFormed before)
    (coherent : Coherent before.cell)
    (step : NodeStep setup before action after) (undecided : (before.peers call).undecided = some pointer) :
    after.chains pointer = before.chains pointer := by
  have owns := PeerPc.candidate_of_undecided undecided
  have used := (wellFormed.owned call pointer owns).1
  have kept := step.keeps_undecided wellFormed coherent undecided
  by_cases lengthens : action = .append
  · subst lengthens
    cases step with
    | miner step =>
      cases step with
      | append pc follows added => exact Function.update_of_ne (wellFormed.candidate_ne_own owns follows) _ _
    | peer id step => exact step.chains used kept
  · exact step.chains lengthens used kept

/-- A step that receives no chain keeps what is known of those that were received. -/
theorem NodeStep.trusted (bounded : LengthsBounded before)
    (trusted : ∀ call, Trusted platform difficulty before (before.peers call))
    (step : NodeStep setup before action after) (same : after.fresh = before.fresh) (call : Nat) :
    Trusted platform difficulty after (after.peers call) := by
  have grows := step.publishedLength_le bounded
  have kept : Trusted platform difficulty after (before.peers call) :=
    (trusted call).congr (fun pointer undecided =>
      step.chains_undecided bounded.wellFormed bounded.coherent undecided) grows
  cases step with
  | miner step => rwa [step.frame.1]
  | peer id step =>
    by_cases sameCall : call = id
    · subst sameCall
      rcases step.undecided same with waits | decided
      · cases step with
        | lock pc free =>
          rw [pc] at kept
          rw [Node.setPeer_peers]
          exact kept
        | @measure side peerBlockchain pc =>
          rw [pc] at kept
          rw [Node.setPeer_peers]
          exact ⟨kept.2, (before.linkedListLength_lengthAt before.blockchain).le⟩
        | decide pc longer sameDifficulty =>
          rw [pc] at kept
          rw [Node.setPeer_peers]
          exact kept.1
        | receive launched waiting received =>
          simp only at same
          omega
        | ignore pc | decline pc declined | increment pc | unlock pc => exact trusted_of_decided (by simp)
        | request launched pc free | requested pc | giveUp pc | requestedFails pc | lockFails pc | unlockFails pc
        | write pc | reply pc | replyFails pc =>
          rw [Node.setPeer_peers]
          exact trivial
        | destroyPeer pc =>
          rw [Node.destroyBlockchain_peers, Node.setPeer_peers]
          exact trivial
      · exact trusted_of_decided decided
    · rwa [step.frame.2.2.2 call sameCall]

end Trusted

/-! ## The network is gossip about lengths -/

section Lengths

variable {platform : Platform PKey} {difficulty : UInt64} {setups : ι → Setup PKey} {before after first last : World ι}
  {label : WorldAction ι} {labels : List (WorldAction ι)}

structure Sound (platform : Platform PKey) (difficulty : UInt64) (world : World ι) : Prop where
  valid : ∀ id, ValidNode platform difficulty (world.nodes id)
  bounded : ∀ id, LengthsBounded (world.nodes id)
  trusted : ∀ id call, Trusted platform difficulty (world.nodes id) ((world.nodes id).peers call)
  messages : ∀ message ∈ world.messages, ValidAt platform difficulty message

theorem Ready.sound (ready : Ready platform difficulty first) : Sound platform difficulty first where
  valid id := by
    have node := ready.synchronized id
    obtain ⟨returnCode, atLoopHead⟩ := node.atLoopHead
    refine ⟨node.wellFormed, node.coherent, node.entered, ready.valid id, fun pointer follows => ?_, ?_,
      fun call => ?_⟩
    · rw [node.sameChain] at follows
      cases follows
      exact ready.valid id
    · rw [atLoopHead]
      exact trivial
    · rw [node.idle call]
      exact trivial
  bounded id := (Beginning.synchronized (ready.synchronized id)).lengthsBounded
  trusted id call := by
    rw [(ready.synchronized id).idle call]
    exact trivial
  messages message member := by
    rw [ready.silent] at member
    cases member

theorem Ready.silent_lengths (ready : Ready platform difficulty first) : Silent first.lengths where
  sent := by
    show first.messages.map _ = []
    rw [ready.silent, List.map_nil]
  pending call := by
    show ((first.nodes call.1).peers call.2).undecided.map _ = none
    rw [(ready.synchronized call.1).idle call.2]
    rfl

theorem ValidNode.step {id : ι} (small : difficulty.toNat ≤ 32) (alike : Alike platform setups) {node next : Node}
    {action : Action} (valid : ValidNode platform difficulty node) (step : NodeStep (setups id) node action next) :
    ValidNode platform difficulty next := by
  have same := alike.samePlatform id
  have signs := alike.signs id
  subst same
  cases step with
  | miner step => exact step.validNode small signs valid
  | peer call step => exact step.validNode small valid

/-- A chain that arrives is the one that was sent, and is found valid. -/
theorem Sound.arrives (sound : Sound platform difficulty before) (small : difficulty.toNat ≤ 32)
    {sent peerBlockchain : Blockchain} {side : Side} {environment : Environment} {stream : Stream}
    {header : CommandHeader} {isValid : Bool} (member : sent ∈ before.messages)
    (delivered : stream.contents <+: chainMessage sent)
    (received : receiveBlockchain platform side.path environment stream = .ok (header, peerBlockchain, isValid)) :
    peerBlockchain = sent ∧ isValid = true := by
  obtain ⟨brings, verdict⟩ := brings_of_receiveBlockchain received
  have same := eq_of_brings delivered brings
  subst same
  have valid := sound.messages _ member
  rw [← valid.difficulty] at small
  exact ⟨rfl, verdict.mpr ((accepts_iff_validChain small).mpr valid.valid)⟩

theorem NodeStep.pendingLength {setup : Setup PKey} {node next : Node} {action : Action} {call : Nat}
    (bounded : LengthsBounded node) (step : NodeStep setup node action next)
    (same : (next.peers call).undecided = (node.peers call).undecided) :
    next.pendingLength call = node.pendingLength call := by
  rw [Node.pendingLength, Node.pendingLength, same]
  cases undecided : (node.peers call).undecided with
  | none => rfl
  | some pointer => simp [Node.lengthAt, step.chains_undecided bounded.wellFormed bounded.coherent undecided]

/-- A call that had nothing to decide about, and has nothing now. -/
theorem Sound.pending_idle {id : ι} {call : Nat} {node : Node} {action : Action}
    (sound : Sound platform difficulty before) (taken : PeerStep (setups id) call (before.nodes id) action node)
    (nothing : ((before.nodes id).peers call).undecided = none) (decided : (node.peers call).undecided = none)
    (other : Nat) : node.pendingLength other = (before.nodes id).pendingLength other := by
  refine NodeStep.pendingLength (sound.bounded id) (.peer call taken) ?_
  by_cases sameCall : other = call
  · rw [sameCall, nothing, decided]
  · rw [taken.frame.2.2.2 other sameCall]

variable [DecidableEq ι]

theorem WorldStep.sound (small : difficulty.toNat ≤ 32) (alike : Alike platform setups)
    (sound : Sound platform difficulty before) (step : WorldStep setups before label after) :
    Sound platform difficulty after := by
  have valid := step.keeps (fun _ => ValidNode platform difficulty) sound.valid fun id action node taken _ =>
    (sound.valid id).step small alike taken
  have bounded := step.keeps (fun _ => LengthsBounded) sound.bounded fun id action node taken _ =>
    taken.lengthsBounded (sound.bounded id) (.of_entered action (sound.valid id).entered)
  refine ⟨valid, bounded, fun other call => ?_, fun message member => ?_⟩
  · cases label with
    | inside id action | mine id blockchain | send id acts | settle id acts action | lose id acts =>
      obtain ⟨id, action, node, taken, updated, -, same⟩ := step.node
      have same := same (by simp)
      rw [updated]
      by_cases sameNode : other = id
      · subst sameNode
        rw [Function.update_self]
        exact taken.trusted (sound.bounded other) (sound.trusted other) same call
      · rw [Function.update_of_ne sameNode]
        exact sound.trusted other call
    | receive id acts message =>
      cases step with
      | @receive _ _ _ sent peerBlockchain side environment stream header isValid launched waiting there delivered
        received =>
        have taken : NodeStep (setups id) (before.nodes id) .other _ := .peer acts (.receive launched waiting received)
        have grows := taken.publishedLength_le (sound.bounded id)
        rw [alike.samePlatform id] at received
        obtain ⟨rfl, rfl⟩ := sound.arrives small (List.mem_of_getElem? there) delivered received
        by_cases sameNode : other = id
        · subst sameNode
          rw [World.setNode_nodes]
          by_cases sameCall : call = acts
          · subst sameCall
            have arrived : ValidAt platform difficulty
                (Function.update (before.nodes other).chains (before.nodes other).fresh peerBlockchain
                  (before.nodes other).fresh) := by
              rw [Function.update_self]
              exact sound.messages _ (List.mem_of_getElem? there)
            rw [Node.setPeer_peers]
            cases side <;> exact ⟨rfl, arrived⟩
          · rw [show Node.peers _ call = _ from Function.update_of_ne sameCall _ _]
            refine (sound.trusted other call).congr (fun pointer undecided => ?_) grows
            exact taken.chains_undecided (sound.bounded other).wellFormed (sound.bounded other).coherent undecided
        · rw [World.setNode_nodes_of_ne _ sameNode]
          exact sound.trusted other call
  · rcases step.messages with same | ⟨id, call, -, sends⟩
    · exact sound.messages message (same ▸ member)
    · rw [sends, List.mem_append, List.mem_singleton] at member
      rcases member with earlier | rfl
      · exact sound.messages message earlier
      · exact (sound.valid id).published

theorem lengths_value {id : ι} {node : Node} (updated : after.nodes = Function.update before.nodes id node) :
    after.lengths.value = Function.update before.lengths.value id node.publishedLength := by
  funext other
  by_cases same : other = id
  · subst same
    simp [World.lengths, updated]
  · simp [World.lengths, updated, same]

/-- One call of one node may have another chain to decide about than before. -/
theorem lengths_pending {id : ι} {node : Node} (call : Nat)
    (updated : after.nodes = Function.update before.nodes id node)
    (others : ∀ other, other ≠ call → node.pendingLength other = (before.nodes id).pendingLength other) :
    after.lengths.pending = Function.update before.lengths.pending (id, call) (node.pendingLength call) := by
  funext place
  obtain ⟨acts, other⟩ := place
  by_cases sameNode : acts = id
  · subst sameNode
    by_cases sameCall : other = call
    · subst sameCall
      simp [World.lengths, updated]
    · simp [World.lengths, updated, sameCall, others other sameCall]
  · have different : (acts, other) ≠ (id, call) := fun same => sameNode (congrArg Prod.fst same)
    simp [World.lengths, updated, sameNode, different]

theorem lengths_same {id : ι} {node : Node} (updated : after.nodes = Function.update before.nodes id node)
    (published : node.publishedLength = (before.nodes id).publishedLength)
    (pending : ∀ call, node.pendingLength call = (before.nodes id).pendingLength call) :
    after.lengths.value = before.lengths.value ∧ after.lengths.pending = before.lengths.pending := by
  constructor
  · rw [lengths_value updated, published]
    exact Function.update_eq_self _ _
  · rw [lengths_pending 0 updated fun other _ => pending other, pending 0]
    exact Function.update_eq_self _ _

/-- What a step that decides comes to: the longer one of both chains is published then. -/
theorem PeerStep.settles {setup : Setup PKey} {node next : Node} {action : Action} {call pointer : Nat}
    (bounded : LengthsBounded node) (trusted : Trusted platform difficulty node (node.peers call))
    (published : ValidAt platform difficulty node.published) (step : PeerStep setup call node action next)
    (undecided : (node.peers call).undecided = some pointer) (decided : (next.peers call).undecided = none)
    (goesOn : next.peers call ≠ .idle) : next.publishedLength = node.publishedLength ⊔ node.lengthAt pointer := by
  have grows := NodeStep.publishedLength_le bounded (.peer call step)
  cases step with
  | @ignore side peerBlockchain pc =>
    rw [pc] at trusted
    exact absurd trusted.1 (by simp)
  | @decline side peerBlockchain ourLength pc declined =>
    rw [pc] at undecided trusted
    cases undecided
    -- as difficult as ours, so it was no longer
    have notLonger : ¬ linkedListLength (node.chains pointer).blockList > ourLength := fun longer =>
      declined ⟨longer, published.difficulty.trans trusted.1.difficulty.symm⟩
    rw [gt_iff_lt, UInt64.lt_iff_toNat_lt, node.linkedListLength_lengthAt] at notLonger
    have measured := trusted.2
    refine (Nat.max_eq_left ?_).symm
    omega
  | @write side peerBlockchain pc =>
    rw [pc] at undecided
    cases undecided
    exact (Nat.max_eq_right grows).symm
  | @receive side environment stream header peerBlockchain isValid launched waiting received =>
    rw [waiting] at undecided
    cases side <;> cases undecided
  | lockFails pc => exact absurd (by rw [Node.setPeer_peers]) goesOn
  | request launched pc free | requested pc | giveUp pc | requestedFails pc | unlockFails pc | increment pc | reply pc
  | replyFails pc | unlock pc | destroyPeer pc =>
    rw [pc] at undecided
    cases undecided
  | lock pc free | measure pc | decide pc longer sameDifficulty =>
    rw [Node.setPeer_peers] at decided
    cases decided

theorem lengths_send {id : ι} {node : Node} (updated : after.nodes = Function.update before.nodes id node)
    (sent : after.messages = before.messages ++ [(before.nodes id).published])
    (published : node.publishedLength = (before.nodes id).publishedLength)
    (pending : ∀ call, node.pendingLength call = (before.nodes id).pendingLength call) :
    Library.Gossip.Step before.lengths (.send id) after.lengths := by
  obtain ⟨value, pending⟩ := lengths_same updated published pending
  have sends : after.lengths = before.lengths.after (.send id) := by
    refine State.ext value ?_ pending
    simp [World.lengths, State.after, sent, Node.publishedLength, Node.lengthAt, Node.published]
  rw [sends]
  exact .send

theorem Sound.lengths_inside {id : ι} {action : Action} {node : Node} (sound : Sound platform difficulty before)
    (step : NodeStep (setups id) (before.nodes id) action node) (lengthens : action ≠ .append)
    (undecided : ∀ call, (node.peers call).undecided = ((before.nodes id).peers call).undecided) :
    (before.setNode id node).lengths = before.lengths := by
  have wellFormed := (sound.bounded id).wellFormed
  have coherent := (sound.bounded id).coherent
  have pending (call : Nat) := step.pendingLength (sound.bounded id) (undecided call)
  have sameChain := step.chains lengthens wellFormed.published_lt (step.keeps_published wellFormed coherent)
  have samePublished : node.blockchain = (before.nodes id).blockchain := by
    cases step with
    | miner step => exact step.frame.2.2.1
    | peer call step =>
      cases step with
      | write pc =>
        -- a call that writes has decided
        have decides := undecided call
        rw [Node.setPeer_peers, pc] at decides
        cases decides
      | _ => rfl
  have published : node.publishedLength = (before.nodes id).publishedLength := by
    rw [Node.publishedLength, Node.publishedLength, Node.lengthAt, Node.lengthAt, samePublished, sameChain]
  obtain ⟨value, pending⟩ : (before.setNode id node).lengths.value = before.lengths.value ∧
      (before.setNode id node).lengths.pending = before.lengths.pending :=
    lengths_same rfl published pending
  exact State.ext value rfl pending

theorem Sound.lengths_mine {id : ι} {node : Node} (sound : Sound platform difficulty before)
    (step : MinerStep (setups id) (before.nodes id) .append node) :
    Library.Gossip.Step before.lengths (.raise id) (before.setNode id node).lengths := by
  have updated : (before.setNode id node).nodes = Function.update before.nodes id node := rfl
  have pending (call : Nat) := NodeStep.pendingLength (sound.bounded id) (.miner step)
    (congrArg PeerPc.undecided (congrFun step.frame.1 call))
  have grows := NodeStep.publishedLength_le (sound.bounded id) (.miner step)
  have others : (before.setNode id node).lengths.pending = before.lengths.pending := by
    rw [lengths_pending 0 updated fun other _ => pending other, pending 0]
    exact Function.update_eq_self _ _
  have raised : (before.setNode id node).lengths =
      { before.lengths with value := Function.update before.lengths.value id node.publishedLength } :=
    State.ext (lengths_value updated) rfl others
  rw [raised]
  exact .raise grows

/-- What arrives is as long as what was sent, and waits to be decided about. -/
theorem Sound.lengths_receive {id : ι} {call message : Nat} {node : Node} {sent : Blockchain} {action : Action}
    (sound : Sound platform difficulty before)
    (taken : PeerStep (setups id) call (before.nodes id) action node)
    (sameChain : node.blockchain = (before.nodes id).blockchain)
    (keeps : (before.nodes id).destroys action = none) (there : before.messages[message]? = some sent)
    (waits : node.pendingLength call = some sent.blockList.length) :
    Library.Gossip.Step before.lengths (.receive id call message) (before.setNode id node).lengths := by
  have arrived : before.lengths.sent[message]? = some sent.blockList.length := by
    simp [World.lengths, there]
  have inBounds : message < before.lengths.sent.length := (List.getElem?_eq_some_iff.mp arrived).1
  have updated : (before.setNode id node).nodes = Function.update before.nodes id node := rfl
  have published : node.publishedLength = (before.nodes id).publishedLength := by
    rw [Node.publishedLength, sameChain]
    exact taken.lengthAt (sound.bounded id).wellFormed.published_lt (by simp [keeps])
  have receives : (before.setNode id node).lengths = before.lengths.after (.receive id call message) := by
    refine State.ext ?_ rfl ?_
    · rw [lengths_value updated, published]
      exact Function.update_eq_self _ _
    · rw [lengths_pending call updated fun other different => ?_, waits, ← arrived]
      · rfl
      · exact NodeStep.pendingLength (sound.bounded id) (.peer call taken) (by rw [taken.frame.2.2.2 other different])
  rw [receives]
  exact .receive inBounds

theorem Sound.lengths_settle {id : ι} {call pointer : Nat} {action : Action} {node : Node}
    (sound : Sound platform difficulty before) (step : PeerStep (setups id) call (before.nodes id) action node)
    (undecided : ((before.nodes id).peers call).undecided = some pointer) (decided : (node.peers call).undecided = none)
    (goesOn : node.peers call ≠ .idle) :
    Library.Gossip.Step before.lengths (.join id call) (before.setNode id node).lengths := by
  have updated : (before.setNode id node).nodes = Function.update before.nodes id node := rfl
  have waits : before.lengths.pending (id, call) = some ((before.nodes id).lengthAt pointer) := by
    simp [World.lengths, Node.pendingLength, undecided]
  have nothing : node.pendingLength call = none := by simp [Node.pendingLength, decided]
  have longer := step.settles (sound.bounded id) (sound.trusted id call) (sound.valid id).published undecided decided
    goesOn
  have joins : (before.setNode id node).lengths = before.lengths.after (.join id call) := by
    simp only [State.after, waits]
    refine State.ext ?_ rfl ?_
    · rw [lengths_value updated, longer]
      rfl
    · rw [lengths_pending call updated fun other different => ?_, nothing]
      exact NodeStep.pendingLength (sound.bounded id) (.peer call step) (by rw [step.frame.2.2.2 other different])
  rw [joins]
  exact .join waits

theorem Sound.lengths_lose (setups : ι → Setup PKey) {id : ι} {call peerBlockchain : Nat} {side : Side}
    {isValid : Bool} (sound : Sound platform difficulty before)
    (pc : (before.nodes id).peers call = .received side peerBlockchain isValid) :
    Library.Gossip.Step before.lengths (.forget id call)
      (before.setNode id ((before.nodes id).setPeer call .idle)).lengths := by
  have taken : PeerStep (setups id) call (before.nodes id) .other _ := .lockFails pc
  let world := before.setNode id ((before.nodes id).setPeer call .idle)
  have updated : world.nodes = Function.update before.nodes id ((before.nodes id).setPeer call .idle) := rfl
  have nothing : ((before.nodes id).setPeer call .idle).pendingLength call = none := by
    rw [Node.pendingLength, Node.setPeer_peers]
    rfl
  have forgets : world.lengths = before.lengths.after (.forget id call) := by
    refine State.ext ?_ rfl ?_
    · rw [lengths_value updated]
      exact Function.update_eq_self _ _
    · rw [lengths_pending call updated fun other different => ?_, nothing]
      · rfl
      · exact NodeStep.pendingLength (sound.bounded id) (.peer call taken) (by rw [taken.frame.2.2.2 other different])
  rw [forgets]
  exact .forget

theorem WorldStep.lengths (small : difficulty.toNat ≤ 32) (alike : Alike platform setups)
    (sound : Sound platform difficulty before) (step : WorldStep setups before label after) :
    Matches Library.Gossip.Step before.lengths label.event after.lengths := by
  cases step with
  | inside step lengthens same undecided => exact sound.lengths_inside step lengthens undecided
  | mine step follows => exact sound.lengths_mine step
  | @request id call pc =>
    have taken : PeerStep (setups id) call (before.nodes id) .other _ := .requested pc
    refine lengths_send rfl rfl rfl (sound.pending_idle taken ?_ ?_)
    · rw [pc]
      rfl
    · rw [Node.setPeer_peers]
      rfl
  | @reply id call leftover pc =>
    have taken : PeerStep (setups id) call (before.nodes id) .other _ := .reply pc
    refine lengths_send rfl rfl rfl (sound.pending_idle taken ?_ ?_)
    · rw [pc]
      rfl
    · rw [Node.setPeer_peers]
      rfl
  | @receive id call message sent peerBlockchain side environment stream header isValid launched waiting there
      delivered received =>
    have taken : PeerStep (setups id) call (before.nodes id) .other _ := .receive launched waiting received
    rw [alike.samePlatform id] at received
    obtain ⟨rfl, rfl⟩ := sound.arrives small (List.mem_of_getElem? there) delivered received
    refine sound.lengths_receive taken rfl rfl there ?_
    rw [Node.pendingLength, Node.setPeer_peers]
    cases side <;> simp [Side.onReceived, PeerPc.undecided, Node.lengthAt]
  | settle step undecided decided goesOn => exact sound.lengths_settle step undecided decided goesOn
  | lose pc => exact sound.lengths_lose setups pc

theorem lengths_of_run (small : difficulty.toNat ≤ 32) (alike : Alike platform setups)
    (ready : Ready platform difficulty first) (run : Run (WorldStep setups) first labels last) :
    Run Library.Gossip.Step first.lengths (labels.filterMap WorldAction.event) last.lengths :=
  run.simulate (Sound platform difficulty) ready.sound (fun _ _ _ sound step => step.sound small alike sound)
    fun _ _ _ sound step => step.lengths small alike sound

end Lengths

/-! ## Without mining -/

section Unmined

variable {platform : Platform PKey} {difficulty : UInt64} {setups : ι → Setup PKey} {first before after last : World ι}
  {label : WorldAction ι} {labels : List (WorldAction ι)}

/-- Some node had published the chain at first. -/
def Original (first : World ι) (blockchain : Blockchain) : Prop :=
  ∃ id, (first.nodes id).published = blockchain

/-- The node publishes an original chain and waits to decide about others. -/
structure Handed (first : World ι) (node : Node) : Prop where
  published : Original first node.published
  undecided : ∀ call pointer, (node.peers call).undecided = some pointer → Original first (node.chains pointer)

theorem NodeStep.handed {setup : Setup PKey} {node next : Node} {action : Action} (bounded : LengthsBounded node)
    (handed : Handed first node) (step : NodeStep setup node action next) (lengthens : action ≠ .append)
    (same : next.fresh = node.fresh) : Handed first next := by
  have wellFormed := bounded.wellFormed
  have kept := step.chains lengthens wellFormed.published_lt (step.keeps_published wellFormed bounded.coherent)
  have keeps {call pointer : Nat} (waits : (node.peers call).undecided = some pointer) :
      next.chains pointer = node.chains pointer := step.chains_undecided wellFormed bounded.coherent waits
  refine ⟨?_, fun call pointer waits => ?_⟩
  · cases step with
    | miner step =>
      rw [Node.published, step.frame.2.2.1, kept]
      exact handed.published
    | peer id step =>
      rcases step.blockchain with unchanged | ⟨side, peerBlockchain, -, writing, written⟩
      · rw [Node.published, unchanged, kept]
        exact handed.published
      · have waits : (node.peers id).undecided = some peerBlockchain := by rw [writing]; rfl
        rw [Node.published, written, keeps waits]
        exact handed.undecided id peerBlockchain waits
  · have waited : (node.peers call).undecided = some pointer := by
      cases step with
      | miner step => rwa [step.frame.1] at waits
      | peer id step =>
        by_cases sameCall : call = id
        · subst sameCall
          rcases step.undecided same with kept | decided
          · exact kept ▸ waits
          · rw [decided] at waits
            cases waits
        · rwa [step.frame.2.2.2 call sameCall] at waits
    rw [keeps waited]
    exact handed.undecided call pointer waited

/-- Without an append every chain that a call is about to adopt stays longer than ours. -/
theorem NodeStep.adoptsLonger {setup : Setup PKey} {node next : Node} {action : Action} (invariant : AdoptsLonger node)
    (later : SwitchesAfterFirstRead node action) (lengthens : action ≠ .append)
    (step : NodeStep setup node action next) : AdoptsLonger next := by
  cases step with
  | miner step =>
    refine step.adoptsLonger invariant ?_
    cases action with
    | append => exact absurd rfl lengthens
    | _ => exact trivial
  | peer id step => exact step.adoptsLonger invariant later

/-- No chain but the original ones is published, waits or is under way. -/
structure Unmined (first : World ι) (world : World ι) : Prop where
  nodes : ∀ id, Handed first (world.nodes id)
  messages : ∀ message ∈ world.messages, Original first message
  longer : ∀ id, AdoptsLonger (world.nodes id)

theorem Ready.unmined (ready : Ready platform difficulty first) : Unmined first first where
  nodes id := by
    refine ⟨⟨id, rfl⟩, fun call pointer waits => ?_⟩
    rw [(ready.synchronized id).idle call] at waits
    cases waits
  messages message member := by
    rw [ready.silent] at member
    cases member
  longer id := (Beginning.synchronized (ready.synchronized id)).adoptsLonger

variable [DecidableEq ι]

theorem WorldStep.unmined (sound : Sound platform difficulty before) (unmined : Unmined first before)
    (step : WorldStep setups before label after) (quiet : ∀ id blockchain, label ≠ .mine id blockchain) :
    Unmined first after := by
  have longer := step.keeps (fun _ => AdoptsLonger) unmined.longer fun id action node taken mines =>
    taken.adoptsLonger (unmined.longer id) (.of_entered action (sound.valid id).entered) fun appends =>
      (mines appends).elim fun blockchain => quiet id blockchain
  refine ⟨fun other => ?_, fun message member => ?_, longer⟩
  · cases label with
    | mine id blockchain => exact absurd rfl (quiet id blockchain)
    | inside id action | send id call | settle id call action | lose id call =>
      obtain ⟨id, action, node, taken, updated, mines, same⟩ := step.node
      have same := same (by simp)
      have lengthens : action ≠ .append := by
        intro appends
        obtain ⟨blockchain, mined⟩ := mines appends
        cases mined
      rw [updated]
      by_cases sameNode : other = id
      · subst sameNode
        rw [Function.update_self]
        exact taken.handed (sound.bounded other) (unmined.nodes other) lengthens same
      · rw [Function.update_of_ne sameNode]
        exact unmined.nodes other
    | receive id call message =>
      cases step with
      | @receive _ _ _ sent peerBlockchain side environment stream header isValid launched waiting there delivered
        received =>
        by_cases sameNode : other = id
        · subst sameNode
          have wellFormed := (sound.bounded other).wellFormed
          have taken : NodeStep (setups other) (before.nodes other) .other _ :=
            .peer call (.receive launched waiting received)
          rw [World.setNode_nodes]
          refine ⟨?_, fun acts pointer waits => ?_⟩
          · have kept : Function.update (before.nodes other).chains (before.nodes other).fresh peerBlockchain
                (before.nodes other).blockchain = (before.nodes other).published :=
              Function.update_of_ne (Nat.ne_of_lt wellFormed.published_lt) _ _
            have published := (unmined.nodes other).published
            rw [← kept] at published
            exact published
          · by_cases sameCall : acts = call
            · subst sameCall
              have own : (side.onReceived (before.nodes other).fresh isValid).undecided = some pointer := by
                rw [← waits, Node.setPeer_peers]
              have fresh : pointer = (before.nodes other).fresh := by
                have owns := PeerPc.candidate_of_undecided own
                simpa [eq_comm] using owns
              subst fresh
              have same := eq_of_brings delivered (brings_of_receiveBlockchain received).1
              simp only [Function.update_self, same]
              exact unmined.messages sent (List.mem_of_getElem? there)
            · rw [show Node.peers _ acts = _ from Function.update_of_ne sameCall _ _] at waits
              rw [taken.chains_undecided wellFormed (sound.bounded other).coherent waits]
              exact (unmined.nodes other).undecided acts pointer waits
        · rw [World.setNode_nodes_of_ne _ sameNode]
          exact unmined.nodes other
  · rcases step.messages with same | ⟨id, call, -, sends⟩
    · exact unmined.messages message (same ▸ member)
    · rw [sends, List.mem_append, List.mem_singleton] at member
      rcases member with earlier | rfl
      · exact unmined.messages message earlier
      · exact (unmined.nodes id).published

theorem unmined_of_run (small : difficulty.toNat ≤ 32) (alike : Alike platform setups)
    (ready : Ready platform difficulty first) (run : Run (WorldStep setups) first labels last)
    (quiet : ∀ id blockchain, .mine id blockchain ∉ labels) :
    Sound platform difficulty last ∧ Unmined first last := by
  apply run.invariantAlong (fun labels world => (∀ id blockchain, WorldAction.mine id blockchain ∉ labels) →
    Sound platform difficulty world ∧ Unmined first world) (fun _ => ⟨ready.sound, ready.unmined⟩) ?_ quiet
  intro sofar before label after earlier step quiet
  obtain ⟨sound, unmined⟩ := earlier fun id blockchain member => quiet id blockchain (List.mem_append_left _ member)
  refine ⟨step.sound small alike sound, step.unmined sound unmined fun id blockchain same => ?_⟩
  exact quiet id blockchain (by simp [same])

end Unmined

/-! ## How often a node switches -/

section Switches

variable [DecidableEq ι] {platform : Platform PKey} {difficulty : UInt64} {setups : ι → Setup PKey}
  {first before after last : World ι} {label : WorldAction ι} {labels : List (WorldAction ι)}

/-- A call of the node writes `sync->blockchain`. -/
def WorldAction.switches (id : ι) : WorldAction ι → Bool
  | .settle acts _ (.write _) => acts == id
  | _ => false

theorem WorldStep.lengthens (sound : Sound platform difficulty before) (unmined : Unmined first before)
    (step : WorldStep setups before label after) (id : ι) :
    (before.nodes id).publishedLength + [label].countP (WorldAction.switches id) ≤
      (after.nodes id).publishedLength := by
  have grows : (before.nodes id).publishedLength ≤ (after.nodes id).publishedLength :=
    step.keeps (fun other node => (before.nodes other).publishedLength ≤ node.publishedLength)
      (fun other => Nat.le_refl _) (fun other action node taken _ => taken.publishedLength_le (sound.bounded other)) id
  cases switches : label.switches id with
  | false =>
    rw [List.countP_singleton, switches]
    exact grows
  | true =>
    rw [List.countP_singleton, switches, if_pos rfl]
    cases step with
    | @settle acts call pointer action node step undecided decided goesOn =>
      cases action with
      | write peerBlockchain =>
        obtain rfl : acts = id := eq_of_beq switches
        rw [World.setNode_nodes]
        cases step with
        | write pc => exact (unmined.longer acts).longer call _ (by rw [pc]; rfl)
      | _ => cases switches
    | _ => cases switches

end Switches

theorem quiet_events {labels : List (WorldAction ι)} (quiet : ∀ id blockchain, .mine id blockchain ∉ labels) (id : ι) :
    Library.Gossip.Event.raise id ∉ labels.filterMap WorldAction.event := by
  intro member
  obtain ⟨label, taken, raises⟩ := List.mem_filterMap.mp member
  cases label with
  | mine acts blockchain => exact quiet acts blockchain taken
  | _ => cases raises

/-! ## A sample run -/

/-- Like the other node, but with a block more. -/
def sampleAhead : Node := { sampleMining with chains := fun _ => sampleChain 1 }

/-- One of two nodes is a block ahead. -/
def sampleUneven : World Bool := ⟨fun ahead => bif ahead then sampleAhead else sampleMining, []⟩

theorem sampleUneven_alike : Alike Platform.lenient fun _ : Bool => sampleSetup where
  samePlatform _ := rfl
  signs _ _ _ _ _ _ := rfl

theorem sampleUneven_ready : Ready Platform.lenient 0 sampleUneven where
  synchronized ahead := by
    cases ahead with
    | false => exact sampleMining_synchronized
    | true => exact ⟨⟨rfl, fun _ => rfl, rfl, sampleMining_synchronized.ahead⟩, ⟨.success, rfl⟩, rfl, rfl⟩
  valid ahead := by
    cases ahead with
    | false => exact ⟨sampleChain_valid 0, rfl⟩
    | true => exact ⟨sampleChain_valid 1, rfl⟩
  silent := rfl

def sampleSpread : List (WorldAction Bool) :=
  [.inside true .other, .send true 0, .receive false 0 0, .inside false .other, .inside false .other,
    .inside false .other, .settle false 0 (.write 1)]

theorem sampleSpread_run : ∃ last, Run (WorldStep fun _ : Bool => sampleSetup) sampleUneven sampleSpread last := by
  let requesting : World Bool := sampleUneven.setNode true
    { sampleAhead.setPeer 0 .requesting with holder := some (.peer 0) }
  let sent : World Bool :=
    { requesting.setNode true { (requesting.nodes true).setPeer 0 .awaitingReply with holder := none } with
      messages := [sampleChain 1] }
  let received : Node :=
    { sampleMining.setPeer 0 (.received .server 1 true) with
      chains := Function.update sampleMining.chains 1 (sampleChain 1)
      fresh := 2 }
  let locked : Node := { received.setPeer 0 (.locked .server 1 true) with holder := some (.peer 0) }
  let measured := locked.setPeer 0 (.measured .server 1 (linkedListLength (sampleChain 0).blockList))
  let writing := measured.setPeer 0 (.writing .server 1)
  let written : Node := { writing.setPeer 0 (.incrementing .server) with blockchain := 1 }
  have begins : WorldStep (fun _ : Bool => sampleSetup) sampleUneven (.inside true .other) requesting :=
    PeerStep.inside (.request rfl rfl rfl) rfl rfl
  have sends : WorldStep (fun _ : Bool => sampleSetup) requesting (.send true 0) sent := .request rfl
  have delivered : (Stream.chunk (chainMessage (sampleChain 1)) .closed).contents <+: chainMessage (sampleChain 1) := by
    rw [show Stream.contents _ = _ from List.append_nil _]
  have waiting : (sent.nodes false).peers 0 = Side.server.waiting := rfl
  have arrived : receiveBlockchain sampleSetup.platform Side.server.path .ideal
      (.chunk (chainMessage (sampleChain 1)) .closed) =
        .ok ((chainCommand (sampleChain 1)).header, sampleChain 1, true) := sample_received 1
  have receives : WorldStep (fun _ : Bool => sampleSetup) sent (.receive false 0 0) (sent.setNode false received) :=
    .receive rfl waiting rfl delivered arrived
  have locks : WorldStep (fun _ : Bool => sampleSetup) (sent.setNode false received) (.inside false .other)
      (sent.setNode false locked) := by
    rw [← sent.setNode_setNode false received locked]
    exact PeerStep.inside (.lock rfl rfl) rfl rfl
  have measures : WorldStep (fun _ : Bool => sampleSetup) (sent.setNode false locked) (.inside false .other)
      (sent.setNode false measured) := by
    rw [← sent.setNode_setNode false locked measured]
    exact PeerStep.inside (.measure rfl) rfl rfl
  have decides : WorldStep (fun _ : Bool => sampleSetup) (sent.setNode false measured) (.inside false .other)
      (sent.setNode false writing) := by
    rw [← sent.setNode_setNode false measured writing]
    exact PeerStep.inside (.decide rfl sampleChain_longer rfl) rfl rfl
  have writes : WorldStep (fun _ : Bool => sampleSetup) (sent.setNode false writing) (.settle false 0 (.write 1))
      (sent.setNode false written) := by
    rw [← sent.setNode_setNode false writing written]
    exact .settle (.write rfl) rfl rfl (by simp [written, Node.setPeer_peers])
  exact ⟨_, .cons begins (.cons sends (.cons receives (.cons locks (.cons measures (.cons decides (.single writes))))))⟩

theorem sampleSpread_heard (other : Bool) :
    other ∈ (heard (sampleSpread.filterMap WorldAction.event)).value false := by
  have events : sampleSpread.filterMap WorldAction.event = [.send true, .receive false 0 0, .join false 0] := rfl
  rw [events]
  cases other <;> simp [heard, introduced, State.after]

theorem sampleSpread_quiet (id : Bool) (blockchain : Blockchain) : .mine id blockchain ∉ sampleSpread := by
  simp [sampleSpread]

/-! ## What the network comes to -/

/-- A node never falls behind a chain that it has heard of, whatever else happens. -/
theorem published_keeps_up [DecidableEq ι] (platform : Platform PKey) (difficulty : UInt64) (setups : ι → Setup PKey)
    (first last : World ι) (labels : List (WorldAction ι)) (small : difficulty.toNat ≤ 32)
    (alike : Alike platform setups) (ready : Ready platform difficulty first)
    (run : Run (WorldStep setups) first labels last) (id other : ι)
    (hears : other ∈ (heard (labels.filterMap WorldAction.event)).value id) :
    (first.nodes other).publishedLength ≤ (last.nodes id).publishedLength :=
  heard_le ready.silent_lengths (lengths_of_run small alike ready run) hears

/-- The node that was behind has heard of the other one. -/
theorem published_keeps_up_sample :
    ∃ last, Run (WorldStep fun _ : Bool => sampleSetup) sampleUneven sampleSpread last ∧
      (sampleUneven.nodes true).publishedLength ≤ (last.nodes false).publishedLength := by
  obtain ⟨last, run⟩ := sampleSpread_run
  exact ⟨last, run, published_keeps_up Platform.lenient 0 _ _ _ _ (by decide) sampleUneven_alike sampleUneven_ready run
    false true (sampleSpread_heard true)⟩

/-- Where nobody mines, a node that has heard of all others publishes one of the longest chains
that there were. -/
theorem informed_publish_longest [DecidableEq ι] (platform : Platform PKey) (difficulty : UInt64)
    (setups : ι → Setup PKey) (first last : World ι) (labels : List (WorldAction ι)) (small : difficulty.toNat ≤ 32)
    (alike : Alike platform setups) (ready : Ready platform difficulty first)
    (run : Run (WorldStep setups) first labels last) (quiet : ∀ id blockchain, .mine id blockchain ∉ labels)
    (id : ι) (hears : ∀ other, other ∈ (heard (labels.filterMap WorldAction.event)).value id) :
    ∃ origin, (last.nodes id).published = (first.nodes origin).published ∧
      ∀ other, (first.nodes other).publishedLength ≤ (first.nodes origin).publishedLength := by
  obtain ⟨origin, same⟩ := ((unmined_of_run small alike ready run quiet).2.nodes id).published
  have greatest := greatest_of_heard ready.silent_lengths (lengths_of_run small alike ready run)
    (quiet_events quiet) hears
  have sameLength : (last.nodes id).publishedLength = (first.nodes origin).publishedLength :=
    congrArg (fun blockchain => blockchain.blockList.length) same.symm
  refine ⟨origin, same.symm, fun other => ?_⟩
  rw [← sameLength]
  exact greatest.2 ⟨other, rfl⟩

theorem informed_publish_longest_sample :
    ∃ last origin, Run (WorldStep fun _ : Bool => sampleSetup) sampleUneven sampleSpread last ∧
      (last.nodes false).published = (sampleUneven.nodes origin).published ∧
      ∀ other, (sampleUneven.nodes other).publishedLength ≤ (sampleUneven.nodes origin).publishedLength := by
  obtain ⟨last, run⟩ := sampleSpread_run
  obtain ⟨origin, published, longest⟩ := informed_publish_longest Platform.lenient 0 _ _ _ _ (by decide)
    sampleUneven_alike sampleUneven_ready run sampleSpread_quiet false sampleSpread_heard
  exact ⟨last, origin, run, published, longest⟩

/-- Where nobody mines, every switch is to a longer chain, so a node switches no more often than
its chain is shorter than the longest, and one that has the longest never does. -/
theorem switches_are_bounded [DecidableEq ι] (platform : Platform PKey) (difficulty : UInt64) (setups : ι → Setup PKey)
    (first last : World ι) (labels : List (WorldAction ι)) (longest : Nat) (small : difficulty.toNat ≤ 32)
    (alike : Alike platform setups) (ready : Ready platform difficulty first)
    (run : Run (WorldStep setups) first labels last) (quiet : ∀ id blockchain, .mine id blockchain ∉ labels)
    (upTo : ∀ id, (first.nodes id).publishedLength ≤ longest) (id : ι) :
    (first.nodes id).publishedLength + labels.countP (WorldAction.switches id) ≤ (last.nodes id).publishedLength ∧
      (last.nodes id).publishedLength ≤ longest := by
  constructor
  · apply run.invariantAlong (fun labels world => (∀ id blockchain, WorldAction.mine id blockchain ∉ labels) →
      Sound platform difficulty world ∧ Unmined first world ∧ (first.nodes id).publishedLength +
        labels.countP (WorldAction.switches id) ≤ (world.nodes id).publishedLength)
      (fun _ => ⟨ready.sound, ready.unmined, Nat.le_refl _⟩) ?_ quiet |>.2.2
    intro sofar before label after earlier step quiet
    obtain ⟨sound, unmined, counted⟩ := earlier fun id blockchain member =>
      quiet id blockchain (List.mem_append_left _ member)
    have unmines : ∀ id blockchain, label ≠ .mine id blockchain :=
      fun id blockchain same => quiet id blockchain (by simp [same])
    refine ⟨step.sound small alike sound, step.unmined sound unmined unmines, ?_⟩
    rw [List.countP_append]
    have longer := step.lengthens sound unmined id
    omega
  · obtain ⟨origin, same⟩ := ((unmined_of_run small alike ready run quiet).2.nodes id).published
    have sameLength : (last.nodes id).publishedLength = (first.nodes origin).publishedLength :=
      congrArg (fun blockchain => blockchain.blockList.length) same.symm
    rw [sameLength]
    exact upTo origin

/-- The node that was behind has switched once. -/
theorem switches_are_bounded_sample :
    ∃ last, Run (WorldStep fun _ : Bool => sampleSetup) sampleUneven sampleSpread last ∧
      1 + sampleSpread.countP (WorldAction.switches false) ≤ (last.nodes false).publishedLength ∧
      (last.nodes false).publishedLength ≤ 2 := by
  obtain ⟨last, run⟩ := sampleSpread_run
  have upTo (id : Bool) : (sampleUneven.nodes id).publishedLength ≤ 2 := by
    cases id with
    | false => exact (sampleChain_length 0).le.trans (by decide)
    | true => exact (sampleChain_length 1).le
  exact ⟨last, run, switches_are_bounded Platform.lenient 0 _ _ _ _ 2 (by decide) sampleUneven_alike sampleUneven_ready
    run sampleSpread_quiet upTo false⟩

end LeoCoin
