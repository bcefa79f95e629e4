import LeoCoin.Library.Publication
import LeoCoin.Node

/-! # Who holds the mutex and who owns a chain

`WellFormed` is the invariant every other result about a running node rests on: a thread
inside a critical section has locked the mutex, and a decoded chain belongs to one
consensus call until it is published or destroyed.

`Node.cell` shows a node as a published pointer with a version counter: the consensus
calls publish, the miner follows, and `blockchain_destroy` retires.  Every step of a
well-formed node is seen as a step of that protocol or not at all.
-/

namespace LeoCoin

open Library.Publication Library.Transition

variable {PKey : Type}

/-! ## The view -/

/-- The miner as a follower of `sync->blockchain`. -/
def MinerPc.phase : MinerPc → Phase Nat UInt64
  | .starting => .unborn
  | .launching => .primed
  | .entryLock => .primed
  | .entryRead => .primed
  | .resyncLock => .stale
  | .resyncRead => .stale
  | .resyncUnlock oldBlockchain => .taken oldBlockchain
  | .resyncDestroy oldBlockchain => .taken oldBlockchain
  | .resyncLoad => .spent
  | .resyncStore version => .loaded version
  | _ => .settled

/-- The pointer has been written and the version is still to be incremented; whoever
did so holds the mutex. -/
def Node.announcing (node : Node) : Bool :=
  match node.holder with
  | some (.peer id) => (node.peers id).isIncrementing
  | _ => false

def Node.cell (node : Node) : Cell Nat UInt64 where
  published := node.blockchain
  version := node.version
  announcing := node.announcing
  followed := node.miner.blockchain
  recorded := node.syncVersionCurrentlyMined
  phase := node.miner.pc.phase
  retired := node.destroyed

def Action.event : Action → Option (Event Nat)
  | .storeVersion => some .prime
  | .readFirst => some .adopt
  | .notice => some .notice
  | .readAgain => some .take
  | .destroyOld => some .retire
  | .loadVersion => some .load
  | .recordVersion => some .record
  | .write peerBlockchain => some (.publish peerBlockchain)
  | .increment => some .announce
  | .destroyPeer peerBlockchain => some (.discard peerBlockchain)
  | .append => none
  | .other => none

/-- `atomic_fetch_add(&sync->version, 1)` -/
def incrementVersion (version : UInt64) : UInt64 := version + 1

/-! ## The invariant -/

structure WellFormed (node : Node) : Prop where
  minerHolds : node.miner.pc.critical = true → node.holder = some .miner
  peerHolds : ∀ id, (node.peers id).critical = true → node.holder = some (.peer id)
  ahead : ∀ pointer, node.fresh ≤ pointer → Unused node.cell pointer
  owned : ∀ id pointer, (node.peers id).candidate = some pointer →
    pointer < node.fresh ∧ Unused node.cell pointer
  apart : ∀ id other pointer, (node.peers id).candidate = some pointer →
    (node.peers other).candidate = some pointer → id = other

theorem WellFormed.published_lt {node : Node} (wellFormed : WellFormed node) : node.blockchain < node.fresh :=
  Nat.lt_of_not_le fun beyond => (wellFormed.ahead _ beyond).notPublished rfl

theorem WellFormed.own_lt {node : Node} {own : Nat} (wellFormed : WellFormed node)
    (follows : node.miner.blockchain = some own) : own < node.fresh :=
  Nat.lt_of_not_le fun beyond => (wellFormed.ahead _ beyond).notFollowed follows

theorem WellFormed.candidate_ne_own {node : Node} {id pointer own : Nat} (wellFormed : WellFormed node)
    (owns : (node.peers id).candidate = some pointer) (follows : node.miner.blockchain = some own) :
    pointer ≠ own := by
  intro same
  rw [← same] at follows
  exact (wellFormed.owned id pointer owns).2.notFollowed follows

theorem MinerPc.afterLock_facts {pc next : MinerPc} (leads : pc.afterLock = some next) :
    pc.critical = false ∧ next.critical = true ∧ next.phase = pc.phase := by
  cases pc with
  | entryLock | resyncLock | mineLock block =>
    cases leads
    exact ⟨rfl, rfl, rfl⟩
  | _ => cases leads

theorem MinerPc.afterUnlock_facts {pc next : MinerPc} (leads : pc.afterUnlock = some next) :
    pc.critical = true ∧ next.critical = false ∧ next.phase = pc.phase := by
  cases pc with
  | entryUnlock | resyncUnlock oldBlockchain | mineUnlock block blockchain =>
    cases leads
    exact ⟨rfl, rfl, rfl⟩
  | _ => cases leads

section Places

variable (side : Side) (peerBlockchain : Nat) (isValid : Bool) (leftover : Option Nat)

@[simp] theorem Side.waiting_isIncrementing : side.waiting.isIncrementing = false := by
  cases side <;> rfl

@[simp] theorem Side.onReceived_candidate :
    (side.onReceived peerBlockchain isValid).candidate = some peerBlockchain := by
  cases side <;> cases isValid <;> rfl

@[simp] theorem Side.onReceived_critical : (side.onReceived peerBlockchain isValid).critical = false := by
  cases side <;> cases isValid <;> rfl

@[simp] theorem Side.onReceived_isIncrementing :
    (side.onReceived peerBlockchain isValid).isIncrementing = false := by
  cases side <;> cases isValid <;> rfl

@[simp] theorem Side.onDecided_candidate : (side.onDecided leftover).candidate = leftover := by
  cases side <;> rfl

@[simp] theorem Side.onDecided_isIncrementing : (side.onDecided leftover).isIncrementing = false := by
  cases side <;> rfl

@[simp] theorem PeerPc.afterUnlock_candidate : (PeerPc.afterUnlock leftover).candidate = leftover := by
  cases leftover <;> rfl

@[simp] theorem PeerPc.afterUnlock_critical : (PeerPc.afterUnlock leftover).critical = false := by
  cases leftover <;> rfl

end Places

@[simp] theorem Node.setPeer_peers (node : Node) (id : Nat) (pc : PeerPc) :
    (node.setPeer id pc).peers id = pc := Function.update_self _ _ _

/-! ## What one step can do -/

section Miner

variable {setup : Setup PKey} {before after : Node} {action : Action}

theorem MinerStep.frame (step : MinerStep setup before action after) :
    after.peers = before.peers ∧ after.fresh = before.fresh ∧ after.blockchain = before.blockchain ∧
      after.version = before.version := by
  cases step <;> exact ⟨rfl, rfl, rfl, rfl⟩

theorem MinerStep.holder (step : MinerStep setup before action after) :
    after.holder = before.holder ∧ (after.miner.pc.critical = true → before.miner.pc.critical = true) ∨
      before.holder = none ∧ after.holder = some .miner ∨
      before.miner.pc.critical = true ∧ after.holder = none ∧ after.miner.pc.critical = false := by
  cases step with
  | lock leads free => exact .inr (.inl ⟨free, rfl⟩)
  | unlock leads => exact .inr (.inr ⟨(MinerPc.afterUnlock_facts leads).1, rfl, (MinerPc.afterUnlock_facts leads).2.1⟩)
  | readFirst pc | readAgain pc _ | mineRead pc => exact .inl ⟨rfl, fun _ => by rw [pc]; rfl⟩
  | _ => exact .inl ⟨rfl, fun critical => by cases critical⟩

theorem MinerStep.spares (step : MinerStep setup before action after) (pointer : Nat) :
    action.event ≠ some (.publish pointer) ∧ action.event ≠ some (.discard pointer) := by
  cases step <;> simp [Action.event]

/-- The miner follows the publication protocol. -/
theorem MinerStep.seen (wellFormed : WellFormed before) (step : MinerStep setup before action after) :
    Matches (Step incrementVersion) before.cell action.event after.cell := by
  have still (critical : before.miner.pc.critical = true) : before.announcing = false := by
    rw [Node.announcing, wellFormed.minerHolds critical]
  cases step with
  | storeVersion pc => exact .prime (by rw [Node.cell, pc]; rfl)
  | lock leads free =>
    have same : before.announcing = false := by rw [Node.announcing, free]
    simp only [Action.event, Matches, Node.cell, Node.setMinerPc, (MinerPc.afterLock_facts leads).2.2, same]
    rfl
  | unlock leads =>
    have same := still (MinerPc.afterUnlock_facts leads).1
    simp only [Action.event, Matches, Node.cell, Node.setMinerPc, (MinerPc.afterUnlock_facts leads).2.2, same]
    rfl
  | readFirst pc => exact .adopt (by rw [Node.cell, pc]; rfl) (still (by rw [pc]; rfl))
  | notice pc different => exact .notice (by rw [Node.cell, pc]; rfl) different
  | readAgain pc followed => exact .take (by rw [Node.cell, pc]; rfl) (still (by rw [pc]; rfl)) followed
  | destroyOld pc => exact .retire (by rw [Node.cell, pc]; rfl)
  | loadVersion pc => exact .load (by rw [Node.cell, pc]; rfl)
  | recordVersion pc => exact .record (by rw [Node.cell, pc]; rfl)
  | launch pc | enter pc | leave pc | upToDate pc _ | signal pc | verified pc _ _ | rejected pc _ _
  | createBlock pc _ _ | createFails pc _ _ | mineRead pc | exhausted pc _ | stopped pc _ | goOn pc _
  | superseded pc _ | current pc _ | missed pc _ | found pc _ | append pc _ _ | appendFails pc =>
    simp only [Action.event, Matches, Node.cell, Node.setMinerPc, pc]
    rfl

end Miner

section Peer

variable {setup : Setup PKey} {id : Nat} {before after : Node} {action : Action}

theorem PeerStep.frame (step : PeerStep setup id before action after) :
    after.miner = before.miner ∧ after.syncVersionCurrentlyMined = before.syncVersionCurrentlyMined ∧
      before.fresh ≤ after.fresh ∧ ∀ other, other ≠ id → after.peers other = before.peers other := by
  have others (pc : PeerPc) : ∀ other, other ≠ id →
      Function.update before.peers id pc other = before.peers other :=
    fun other different => Function.update_of_ne different _ _
  cases step with
  | receive launched waiting received => exact ⟨rfl, rfl, Nat.le_succ _, others _⟩
  | _ => exact ⟨rfl, rfl, Nat.le_refl _, others _⟩

theorem PeerStep.holder (step : PeerStep setup id before action after) :
    after.holder = before.holder ∧
        ((after.peers id).critical = true → (before.peers id).critical = true) ∨
      before.holder = none ∧ after.holder = some (.peer id) ∨
      (before.peers id).critical = true ∧ after.holder = none ∧ (after.peers id).critical = false := by
  cases step with
  | request launched pc free | lock pc free => exact .inr (.inl ⟨free, rfl⟩)
  | requested pc => exact .inr (.inr ⟨by rw [pc]; rfl, rfl, by rw [Node.setPeer_peers]; rfl⟩)
  | unlock pc => exact .inr (.inr ⟨by rw [pc]; rfl, rfl, by simp⟩)
  | receive launched pc received => exact .inl ⟨rfl, fun critical => by simp at critical⟩
  | giveUp pc | requestedFails pc | lockFails pc | unlockFails pc | destroyPeer pc =>
    have outside : PeerPc.critical .idle = false := rfl
    exact .inl ⟨rfl, fun critical => by simp [outside] at critical⟩
  | ignore pc | measure pc | decline pc _ | decide pc _ _ | write pc | increment pc | reply pc
  | replyFails pc => exact .inl ⟨rfl, fun _ => by rw [pc]; rfl⟩

/-- A consensus call owns the chain it decoded or a new one, and none it gave away. -/
theorem PeerStep.candidate (step : PeerStep setup id before action after) (pointer : Nat)
    (owns : (after.peers id).candidate = some pointer) :
    ((before.peers id).candidate = some pointer ∧ action.event ≠ some (.publish pointer) ∧
        action.event ≠ some (.discard pointer)) ∨
      pointer = before.fresh ∧ after.fresh = before.fresh + 1 ∧ action.event = none := by
  cases step with
  | receive launched pc received =>
    refine .inr ⟨?_, rfl, rfl⟩
    simpa [eq_comm] using owns
  | request launched pc free | requested pc | giveUp pc | requestedFails pc | lockFails pc | unlockFails pc | write pc
  | destroyPeer pc | replyFails pc =>
    simp only [Node.setPeer_peers, Node.destroyBlockchain_peers] at owns
    cases owns
  | increment pc => simp at owns
  | lock pc free | measure pc | decide pc _ _ | reply pc | ignore pc | decline pc _ | unlock pc =>
    -- the same chain at the next place of the call
    have kept : (before.peers id).candidate = some pointer := by
      simp only [Node.setPeer_peers, Side.onDecided_candidate, PeerPc.afterUnlock_candidate] at owns
      rw [pc]
      exact owns
    exact .inl ⟨kept, by simp [Action.event], by simp [Action.event]⟩

/-- A chain that no call has is not taken up by one. -/
theorem PeerStep.noCandidate (step : PeerStep setup id before action after) {pointer : Nat}
    (allocated : pointer < before.fresh) (none : ∀ other, (before.peers other).candidate ≠ some pointer)
    (other : Nat) : (after.peers other).candidate ≠ some pointer := by
  by_cases same : other = id
  · rw [same]
    intro held
    obtain ⟨was, -, -⟩ | ⟨rfl, -, -⟩ := step.candidate pointer held
    · exact none id was
    · exact Nat.lt_irrefl _ allocated
  · rw [step.frame.2.2.2 other same]
    exact none other

theorem PeerStep.gives (step : PeerStep setup id before action after) (pointer : Nat)
    (given : action.event = some (.publish pointer) ∨ action.event = some (.discard pointer)) :
    (before.peers id).candidate = some pointer := by
  cases step with
  | write pc | destroyPeer pc =>
    rw [pc]
    simpa [Action.event, PeerPc.candidate] using given
  | _ => simp [Action.event] at given

/-- A change of one call's place that is not about to increment before or after. -/
theorem announcing_setPeer {node : Node} {pc : PeerPc} (was : (node.peers id).isIncrementing = false)
    (becomes : pc.isIncrementing = false) : (node.setPeer id pc).announcing = node.announcing := by
  simp only [Node.announcing, Node.setPeer]
  cases node.holder with
  | none => rfl
  | some thread =>
    cases thread with
    | miner => rfl
    | peer other =>
      by_cases same : other = id
      · subst same
        simp [was, becomes]
      · simp [same]

/-- The consensus calls follow the publication protocol. -/
theorem PeerStep.seen (wellFormed : WellFormed before) (step : PeerStep setup id before action after) :
    Matches (Step incrementVersion) before.cell action.event after.cell := by
  have announces (critical : (before.peers id).critical = true) :
      before.announcing = (before.peers id).isIncrementing := by
    rw [Node.announcing, wellFormed.peerHolds id critical]
  have unseen {pc : PeerPc} (was : (before.peers id).isIncrementing = false)
      (becomes : pc.isIncrementing = false) : (before.setPeer id pc).cell = before.cell := by
    have same := announcing_setPeer was becomes
    simp only [Node.cell, same]
    rfl
  cases step with
  | request launched pc free | lock pc free =>
    have same : before.announcing = false := by rw [Node.announcing, free]
    simp only [Action.event, Matches, Node.cell, same]
    simp [Node.announcing, Node.setPeer, PeerPc.isIncrementing]
  | requested pc | unlock pc =>
    have same := announces (by rw [pc]; rfl)
    rw [pc] at same
    simp only [Action.event, Matches, Node.cell, same]
    rfl
  | giveUp pc | requestedFails pc | lockFails pc | unlockFails pc | measure pc | decide pc _ _ | reply pc
  | replyFails pc =>
    exact unseen (by rw [pc]; rfl) rfl
  | ignore pc | decline pc _ => exact unseen (by rw [pc]; rfl) (by simp)
  | receive launched pc received => exact unseen (by rw [pc]; simp) (by simp)
  | write pc =>
    have held := wellFormed.peerHolds id (by rw [pc]; rfl)
    have still := announces (by rw [pc]; rfl)
    rw [pc] at still
    have published : Step incrementVersion before.cell (.publish _) _ :=
      .publish still (wellFormed.owned id _ (by rw [pc]; rfl)).2
    simp only [Action.event, Matches]
    convert published using 1
    simp [Node.cell, Node.announcing, Node.setPeer, held, PeerPc.isIncrementing]
  | increment pc =>
    have held := wellFormed.peerHolds id (by rw [pc]; rfl)
    have announcing := announces (by rw [pc]; rfl)
    rw [pc] at announcing
    have announced : Step incrementVersion before.cell .announce _ := .announce announcing
    simp only [Action.event, Matches]
    convert announced using 1
    simp [Node.cell, Node.announcing, Node.setPeer, held, incrementVersion]
  | destroyPeer pc =>
    have discarded : Step incrementVersion before.cell (.discard _) _ :=
      .discard (wellFormed.owned id _ (by rw [pc]; rfl)).2
    have same : (before.setPeer id .idle).announcing = before.announcing :=
      announcing_setPeer (by rw [pc]; rfl) rfl
    simp only [Action.event, Matches]
    convert discarded using 1
    simp only [Node.cell, ← same]
    rfl

end Peer

/-! ## Every step keeps the invariant -/

section Invariant

variable {setup : Setup PKey} {before after : Node} {action : Action}

/-- A pointer nobody uses stays unused by a step that does not publish or destroy it. -/
theorem unused_of_seen {pointer : Nat} (unused : Unused before.cell pointer)
    (seen : Matches (Step incrementVersion) before.cell action.event after.cell)
    (notPublished : action.event ≠ some (.publish pointer))
    (notDiscarded : action.event ≠ some (.discard pointer)) : Unused after.cell pointer := by
  cases shown : action.event with
  | none =>
    rw [shown, Matches] at seen
    rw [seen]
    exact unused
  | some event =>
    rw [shown] at seen notPublished notDiscarded
    exact unused.step (fun same => notPublished (by rw [same])) (fun same => notDiscarded (by rw [same])) seen

theorem MinerStep.wellFormed (wellFormed : WellFormed before)
    (step : MinerStep setup before action after) : WellFormed after := by
  obtain ⟨peers, fresh, -, -⟩ := step.frame
  have seen := step.seen wellFormed
  have kept {pointer : Nat} (unused : Unused before.cell pointer) : Unused after.cell pointer :=
    unused_of_seen unused seen (step.spares pointer).1 (step.spares pointer).2
  have holder := step.holder
  constructor
  · intro critical
    obtain ⟨same, keeps⟩ | ⟨-, locked⟩ | ⟨-, -, left⟩ := holder
    · rw [same]
      exact wellFormed.minerHolds (keeps critical)
    · exact locked
    · rw [left] at critical
      cases critical
  · intro id critical
    rw [peers] at critical
    have held := wellFormed.peerHolds id critical
    obtain ⟨same, -⟩ | ⟨free, -⟩ | ⟨inside, -, -⟩ := holder
    · rw [same, held]
    · rw [held] at free
      cases free
    · -- two holders at once
      rw [wellFormed.minerHolds inside] at held
      cases held
  · intro pointer beyond
    rw [fresh] at beyond
    exact kept (wellFormed.ahead pointer beyond)
  · intro id pointer owns
    rw [peers] at owns
    rw [fresh]
    obtain ⟨used, unused⟩ := wellFormed.owned id pointer owns
    exact ⟨used, kept unused⟩
  · rw [peers]
    exact wellFormed.apart

/-- A chain that is new, or was the call's own before, is nobody else's. -/
theorem PeerStep.sole {id other pointer : Nat} (step : PeerStep setup id before action after)
    (wellFormed : WellFormed before) (owns : (after.peers id).candidate = some pointer)
    (different : other ≠ id) : (after.peers other).candidate ≠ some pointer := by
  intro otherOwns
  rw [step.frame.2.2.2 other different] at otherOwns
  obtain ⟨before_, -, -⟩ | ⟨rfl, -, -⟩ := step.candidate pointer owns
  · exact different (wellFormed.apart other id pointer otherOwns before_)
  · have used := (wellFormed.owned other _ otherOwns).1
    omega

theorem PeerStep.apart {id left right pointer : Nat} (step : PeerStep setup id before action after)
    (wellFormed : WellFormed before) (leftOwns : (after.peers left).candidate = some pointer)
    (rightOwns : (after.peers right).candidate = some pointer) : left = right := by
  by_cases leftSame : left = id
  · subst leftSame
    by_cases rightSame : right = left
    · exact rightSame.symm
    · exact absurd rightOwns (step.sole wellFormed leftOwns rightSame)
  · by_cases rightSame : right = id
    · subst rightSame
      exact absurd leftOwns (step.sole wellFormed rightOwns leftSame)
    · -- neither is the call that stepped
      rw [step.frame.2.2.2 left leftSame] at leftOwns
      rw [step.frame.2.2.2 right rightSame] at rightOwns
      exact wellFormed.apart left right pointer leftOwns rightOwns

theorem PeerStep.wellFormed {id : Nat} (wellFormed : WellFormed before)
    (step : PeerStep setup id before action after) : WellFormed after := by
  obtain ⟨miner, -, grows, others⟩ := step.frame
  have seen := step.seen wellFormed
  have holder := step.holder
  -- the chains of other calls and unused addresses are not what this call gives away
  have foreign {pointer : Nat} (unused : Unused before.cell pointer)
      (notOwn : (before.peers id).candidate ≠ some pointer) : Unused after.cell pointer := by
    apply unused_of_seen unused seen
    · exact fun same => notOwn (step.gives pointer (.inl same))
    · exact fun same => notOwn (step.gives pointer (.inr same))
  have beyondFresh {pointer : Nat} (beyond : before.fresh ≤ pointer) : Unused after.cell pointer := by
    apply foreign (wellFormed.ahead pointer beyond)
    intro own
    have used := (wellFormed.owned id pointer own).1
    omega
  have ownedByOther {other pointer : Nat} (different : other ≠ id)
      (owns : (before.peers other).candidate = some pointer) : Unused after.cell pointer :=
    foreign (wellFormed.owned other pointer owns).2 fun own =>
      different (wellFormed.apart other id pointer owns own)
  constructor
  · intro critical
    rw [miner] at critical
    have held := wellFormed.minerHolds critical
    obtain ⟨same, -⟩ | ⟨free, -⟩ | ⟨inside, -, -⟩ := holder
    · rw [same, held]
    · rw [held] at free
      cases free
    · rw [wellFormed.peerHolds id inside] at held
      cases held
  · intro other critical
    by_cases same : other = id
    · subst same
      obtain ⟨unchanged, keeps⟩ | ⟨-, locked⟩ | ⟨-, -, left⟩ := holder
      · rw [unchanged]
        exact wellFormed.peerHolds other (keeps critical)
      · exact locked
      · rw [left] at critical
        cases critical
    · rw [others other same] at critical
      have held := wellFormed.peerHolds other critical
      obtain ⟨unchanged, -⟩ | ⟨free, -⟩ | ⟨inside, -, -⟩ := holder
      · rw [unchanged, held]
      · rw [held] at free
        cases free
      · rw [wellFormed.peerHolds id inside] at held
        cases held
        exact absurd rfl same
  · intro pointer beyond
    exact beyondFresh (by omega)
  · intro other pointer owns
    by_cases same : other = id
    · subst same
      obtain ⟨own, notPublished, notDiscarded⟩ | ⟨rfl, counted, -⟩ := step.candidate pointer owns
      · obtain ⟨used, unused⟩ := wellFormed.owned other pointer own
        exact ⟨by omega, unused_of_seen unused seen notPublished notDiscarded⟩
      · exact ⟨by omega, beyondFresh (Nat.le_refl _)⟩
    · rw [others other same] at owns
      have used := (wellFormed.owned other pointer owns).1
      exact ⟨by omega, ownedByOther same owns⟩
  · intro left right pointer leftOwns rightOwns
    exact step.apart wellFormed leftOwns rightOwns

theorem NodeStep.wellFormed (wellFormed : WellFormed before)
    (step : NodeStep setup before action after) : WellFormed after := by
  cases step with
  | miner step => exact step.wellFormed wellFormed
  | peer id step => exact step.wellFormed wellFormed

theorem NodeStep.seen (wellFormed : WellFormed before) (step : NodeStep setup before action after) :
    Matches (Step incrementVersion) before.cell action.event after.cell := by
  cases step with
  | miner step => exact step.seen wellFormed
  | peer id step => exact step.seen wellFormed

end Invariant

/-! ## What is destroyed -/

/-- The chain that a step destroys. -/
def Node.destroys (node : Node) : Action → Option Nat
  | .destroyOld =>
    match node.miner.pc with
    | .resyncDestroy oldBlockchain => some oldBlockchain
    | _ => none
  | .destroyPeer peerBlockchain => some peerBlockchain
  | _ => none

/-- `main` has recorded a version and `mine_blocks` has not yet read its first pointer. -/
def MinerPc.unread : MinerPc → Bool
  | .launching => true
  | .entryLock => true
  | .entryRead => true
  | _ => false

/-- No switch lands before the miner has read its first pointer. -/
def SwitchesAfterFirstRead (node : Node) (action : Action) : Prop :=
  match action with
  | .increment => node.miner.pc.unread = false
  | _ => True

/-- `mine_blocks` has read its first pointer. -/
def MinerPc.entered : MinerPc → Bool
  | .starting => false
  | .launching => false
  | .entryLock => false
  | .entryRead => false
  | _ => true

theorem SwitchesAfterFirstRead.undisturbed {node : Node} {action : Action} {event : Event Nat}
    (later : SwitchesAfterFirstRead node action) (shown : action.event = some event) :
    AdoptsUndisturbed node.cell event := by
  intro announces
  subst announces
  cases action with
  | increment =>
    have later : node.miner.pc.unread = false := later
    show node.miner.pc.phase ≠ .primed
    cases pc : node.miner.pc with
    | launching | entryLock | entryRead =>
      rw [pc] at later
      cases later
    | _ => simp [MinerPc.phase]
  | _ => simp [Action.event] at shown

theorem SwitchesAfterFirstRead.of_entered {node : Node} (action : Action)
    (entered : node.miner.pc.entered = true) : SwitchesAfterFirstRead node action := by
  cases action with
  | increment =>
    show node.miner.pc.unread = false
    cases pc : node.miner.pc with
    | launching | entryLock | entryRead =>
      rw [pc] at entered
      cases entered
    | _ => rfl
  | _ => exact trivial

section Destroyed

variable {setup : Setup PKey} {before after : Node} {action : Action}

theorem NodeStep.coherent (wellFormed : WellFormed before) (coherent : Coherent before.cell)
    (later : SwitchesAfterFirstRead before action) (step : NodeStep setup before action after) :
    Coherent after.cell := by
  have seen := step.seen wellFormed
  cases shown : action.event with
  | none =>
    rw [shown, Matches] at seen
    rw [seen]
    exact coherent
  | some event =>
    rw [shown] at seen
    exact coherent_step coherent (later.undisturbed shown) seen

theorem NodeStep.live (wellFormed : WellFormed before) (live : Live before.cell)
    (later : SwitchesAfterFirstRead before action) (step : NodeStep setup before action after) : Live after.cell := by
  have seen := step.seen wellFormed
  cases shown : action.event with
  | none =>
    rw [shown, Matches] at seen
    rw [seen]
    exact live
  | some event =>
    rw [shown] at seen
    exact live_step live (later.undisturbed shown) seen

theorem MinerStep.later (step : MinerStep setup before action after) : SwitchesAfterFirstRead before action := by
  cases step <;> exact trivial

theorem MinerStep.entered (entered : before.miner.pc.entered = true) (step : MinerStep setup before action after) :
    after.miner.pc.entered = true := by
  cases step with
  | lock leads free =>
    cases pc : before.miner.pc <;> rw [pc] at leads entered <;> cases leads
    · cases entered
    · rfl
    · rfl
  | unlock leads => cases pc : before.miner.pc <;> rw [pc] at leads <;> cases leads <;> rfl
  | storeVersion pc | launch pc =>
    rw [pc] at entered
    cases entered
  | _ => rfl

theorem NodeStep.entered (entered : before.miner.pc.entered = true) (step : NodeStep setup before action after) :
    after.miner.pc.entered = true := by
  cases step with
  | miner step => exact step.entered entered
  | peer id step => rwa [step.frame.1]

/-- What is destroyed is of no use to anybody: it is neither published nor followed, and no
call is about to decide about it. -/
theorem NodeStep.destroys {pointer : Nat} (wellFormed : WellFormed before) (coherent : Coherent before.cell)
    (step : NodeStep setup before action after) (destroyed : before.destroys action = some pointer) :
    pointer ≠ before.blockchain ∧ before.miner.blockchain ≠ some pointer ∧
      ∀ call, (after.peers call).candidate ≠ some pointer := by
  cases step with
  | miner step =>
    cases step with
    | @destroyOld oldBlockchain pc =>
      have same : oldBlockchain = pointer := by
        rw [Node.destroys, pc] at destroyed
        exact Option.some.inj destroyed
      subst same
      have taken : before.cell.phase = .taken oldBlockchain := by
        rw [Node.cell, pc]
        rfl
      obtain ⟨notPublished, notFollowed⟩ := coherent.retires_replaced taken
      exact ⟨notPublished, notFollowed, fun call owns => (wellFormed.owned call _ owns).2.notTaken taken⟩
    | _ => cases destroyed
  | peer id step =>
    cases step with
    | @destroyPeer peerBlockchain pc =>
      cases destroyed
      have owns : (before.peers id).candidate = some pointer := by rw [pc]; rfl
      obtain ⟨-, unused⟩ := wellFormed.owned id pointer owns
      refine ⟨unused.notPublished, unused.notFollowed, fun call still => ?_⟩
      by_cases same : call = id
      · subst same
        rw [Node.destroyBlockchain_peers, Node.setPeer_peers] at still
        cases still
      · have kept : (before.peers call).candidate = some pointer := by
          rw [← still]
          exact congrArg PeerPc.candidate (Function.update_of_ne same _ _).symm
        exact same (wellFormed.apart call id pointer kept owns)
    | _ => cases destroyed

theorem PeerStep.destroys {id pointer : Nat} (step : PeerStep setup id before action after)
    (destroyed : before.destroys action = some pointer) : (before.peers id).candidate = some pointer := by
  cases step with
  | destroyPeer pc =>
    cases destroyed
    rw [pc]
    rfl
  | _ => cases destroyed

theorem NodeStep.destroyed (step : NodeStep setup before action after) :
    after.destroyed = (before.destroys action).toList ++ before.destroyed := by
  cases step with
  | miner step =>
    cases step with
    | destroyOld pc => simp [Node.destroys, pc, Node.destroyBlockchain, Node.setMinerPc]
    | _ => rfl
  | peer id step => cases step <;> rfl

/-- The published chain and the miner's own are not destroyed. -/
theorem NodeStep.keeps_published (wellFormed : WellFormed before) (coherent : Coherent before.cell)
    (step : NodeStep setup before action after) : before.destroys action ≠ some before.blockchain :=
  fun destroyed => (step.destroys wellFormed coherent destroyed).1 rfl

theorem NodeStep.keeps_own {own : Nat} (wellFormed : WellFormed before) (coherent : Coherent before.cell)
    (step : NodeStep setup before action after) (follows : before.miner.blockchain = some own) :
    before.destroys action ≠ some own :=
  fun destroyed => (step.destroys wellFormed coherent destroyed).2.1 follows

theorem NodeStep.keeps_candidate {call pointer : Nat} (wellFormed : WellFormed before)
    (coherent : Coherent before.cell) (step : NodeStep setup before action after)
    (owns : (after.peers call).candidate = some pointer) : before.destroys action ≠ some pointer :=
  fun destroyed => (step.destroys wellFormed coherent destroyed).2.2 call owns

end Destroyed

/-! ## Where a node starts -/

/-- Nothing is under way and every address in use is counted. -/
structure Quiet (node : Node) : Prop where
  free : node.holder = none
  idle : ∀ id, node.peers id = .idle
  outside : node.miner.pc.critical = false
  ahead : ∀ pointer, node.fresh ≤ pointer → Unused node.cell pointer

theorem Quiet.wellFormed {node : Node} (quiet : Quiet node) : WellFormed node where
  minerHolds critical := by
    rw [quiet.outside] at critical
    cases critical
  peerHolds id critical := by
    rw [quiet.idle id] at critical
    cases critical
  ahead := quiet.ahead
  owned id pointer owns := by
    rw [quiet.idle id] at owns
    cases owns
  apart id other pointer owns := by
    rw [quiet.idle id] at owns
    cases owns

theorem Quiet.announcing {node : Node} (quiet : Quiet node) : node.announcing = false := by
  rw [Node.announcing, quiet.free]

/-- `main` has just created `sync`, and no chain has been destroyed. -/
structure Booting (node : Node) : Prop extends Quiet node where
  starting : node.miner.pc = .starting
  nothing : node.miner.blockchain = none
  noneDestroyed : node.destroyed = []

/-- The miner is at the head of its loop with the chain and the version of `sync`. -/
structure Synchronized (node : Node) : Prop extends Quiet node where
  atLoopHead : ∃ returnCode, node.miner.pc = .loopHead returnCode
  sameChain : node.miner.blockchain = some node.blockchain
  sameVersion : node.syncVersionCurrentlyMined = node.version

theorem Booting.coherent {node : Node} (booting : Booting node) : Coherent node.cell := by
  have unborn : node.cell.phase = .unborn := by
    rw [Node.cell, booting.starting]
    rfl
  simp only [Coherent, unborn]
  exact booting.nothing

/-- At first nothing is followed, and nothing has been destroyed. -/
theorem Booting.live {node : Node} (booting : Booting node) : Live node.cell := by
  refine ⟨?_, ?_, ?_, ?_, booting.coherent⟩
  · show node.blockchain ∉ node.destroyed
    rw [booting.noneDestroyed]
    exact List.not_mem_nil
  · intro pointer followed
    have followed : node.miner.blockchain = some pointer := followed
    rw [booting.nothing] at followed
    cases followed
  · intro old taken
    have taken : node.miner.pc.phase = .taken old := taken
    rw [booting.starting] at taken
    cases taken
  · show node.destroyed.Nodup
    rw [booting.noneDestroyed]
    exact List.nodup_nil

theorem Synchronized.coherent {node : Node} (synchronized : Synchronized node) : Coherent node.cell := by
  obtain ⟨returnCode, atLoopHead⟩ := synchronized.atLoopHead
  have settled : node.cell.phase = .settled := by
    rw [Node.cell, atLoopHead]
    rfl
  simp only [Coherent, settled]
  exact fun _ => ⟨synchronized.sameVersion, synchronized.toQuiet.announcing⟩

/-- Where runs begin: in `main`, or at the head of the loop of `mine_blocks`. -/
inductive Beginning (node : Node) : Prop where
  | booting : Booting node → Beginning node
  | synchronized : Synchronized node → Beginning node

theorem Beginning.toQuiet {node : Node} (beginning : Beginning node) : Quiet node := by
  cases beginning with
  | booting booting => exact booting.toQuiet
  | synchronized synchronized => exact synchronized.toQuiet

theorem Beginning.coherent {node : Node} (beginning : Beginning node) : Coherent node.cell := by
  cases beginning with
  | booting booting => exact booting.coherent
  | synchronized synchronized => exact synchronized.coherent

theorem Synchronized.live {node : Node} (synchronized : Synchronized node) (intact : node.destroyed = []) :
    Live node.cell := by
  have nothing (pointer : Nat) : pointer ∉ node.cell.retired := by
    show pointer ∉ node.destroyed
    simp [intact]
  refine ⟨nothing _, fun pointer _ => nothing pointer, fun old _ => nothing old, ?_, synchronized.coherent⟩
  show node.destroyed.Nodup
  simp [intact]

theorem Synchronized.entered {node : Node} (synchronized : Synchronized node) : node.miner.pc.entered = true := by
  obtain ⟨returnCode, atLoopHead⟩ := synchronized.atLoopHead
  rw [atLoopHead]
  rfl

end LeoCoin
