import LeoCoin.Resync

/-! # The longest chain

A consensus call compares lengths while it holds the mutex, but the miner appends without
it.  While the mutex is held the miner can append at most once, since it has to lock the
mutex before it mines again, so the published chain never gets shorter, unless the miner
destroys it.  It can stay as long as it was: an append between measuring and writing makes
the chain that is replaced as long as the one that replaces it.
-/

namespace LeoCoin

open Library.Publication Library.Transition

variable {PKey : Type}

/-- The number of blocks at an address. -/
def Node.lengthAt (node : Node) (pointer : Nat) : Nat := (node.chains pointer).blockList.length

/-- The number of blocks in the published chain. -/
def Node.publishedLength (node : Node) : Nat := node.lengthAt node.blockchain

/-- The miner may append without locking the mutex first. -/
def MinerPc.searching : MinerPc → Bool
  | .searchStop _ _ _ => true
  | .searchVersion _ _ _ => true
  | .searchHash _ _ _ => true
  | .append _ => true
  | _ => false

/-- How many blocks the miner may have appended since it stopped searching. -/
def Node.appended (node : Node) : Nat := if node.miner.pc.searching then 0 else 1

/-- What a call has found out about the lengths, up to one block appended since. -/
def Bounded (node : Node) : PeerPc → Prop
  | .measured _ _ ourLength => node.publishedLength ≤ ourLength.toNat + node.appended
  | .writing _ peerBlockchain => node.publishedLength < node.lengthAt peerBlockchain + node.appended
  | _ => True

/-- The call is going to adopt the chain. -/
def Adopting (node : Node) (peerBlockchain : Nat) : PeerPc → Prop
  | .measured _ decoded ourLength => decoded = peerBlockchain ∧
      linkedListLength (node.chains peerBlockchain).blockList > ourLength ∧
      (node.chains node.blockchain).numLeadingZeroBytesRequiredInBlockHash =
        (node.chains peerBlockchain).numLeadingZeroBytesRequiredInBlockHash
  | .writing _ decoded => decoded = peerBlockchain
  | _ => False

theorem Node.linkedListLength_lengthAt (node : Node) (pointer : Nat) :
    (linkedListLength (node.chains pointer).blockList).toNat = node.lengthAt pointer :=
  (node.chains pointer).length_toNat

/-! ## What a step does to the published chain -/

section Steps

variable {setup : Setup PKey} {before after : Node} {action : Action}

/-- But for what it destroys the miner never shortens a chain, changes only its own, and lengthens
it by one block with an append. -/
theorem MinerStep.chains (step : MinerStep setup before action after) {pointer : Nat}
    (kept : before.destroys action ≠ some pointer) :
    (after.chains pointer).numLeadingZeroBytesRequiredInBlockHash =
        (before.chains pointer).numLeadingZeroBytesRequiredInBlockHash ∧
      (after.lengthAt pointer = before.lengthAt pointer ∨
        action = .append ∧ before.miner.blockchain = some pointer ∧
          after.lengthAt pointer = before.lengthAt pointer + 1) := by
  cases step with
  | @append own block longer pc follows added =>
    obtain ⟨items, sameDifficulty⟩ := blockchain_add_block_ok added
    by_cases same : pointer = own
    · subst same
      have updated : Function.update before.chains pointer longer pointer = longer :=
        Function.update_self _ _ _
      refine ⟨?_, .inr ⟨rfl, follows, ?_⟩⟩
      · simp only [updated]
        exact sameDifficulty
      · simp only [Node.lengthAt, updated, items, List.length_append, List.length_singleton]
    · have kept : Function.update before.chains own longer pointer = before.chains pointer :=
        Function.update_of_ne same _ _
      simp [Node.lengthAt, kept]
  | @destroyOld oldBlockchain pc =>
    have different : pointer ≠ oldBlockchain := by
      rintro rfl
      exact kept (by rw [Node.destroys, pc])
    have kept : (Node.destroyBlockchain _ oldBlockchain).chains pointer = before.chains pointer :=
      Node.destroyBlockchain_chains (before.setMinerPc .resyncLoad) different
    simp only [Node.lengthAt, kept]
    exact ⟨trivial, .inl trivial⟩
  | _ => exact ⟨rfl, .inl rfl⟩

theorem MinerStep.searching (step : MinerStep setup before action after)
    (searching : after.miner.pc.searching = true) :
    action ≠ .append ∧ (before.miner.pc.searching = true ∨ before.miner.pc.critical = true) := by
  cases step with
  | lock leads free =>
    cases pc : before.miner.pc with
    | entryLock | resyncLock | mineLock block =>
      rw [pc] at leads
      cases leads
      cases searching
    | _ =>
      rw [pc] at leads
      cases leads
  | unlock leads => exact ⟨by simp, .inr (MinerPc.afterUnlock_facts leads).1⟩
  | goOn pc _ | current pc _ | missed pc _ | found pc _ => exact ⟨by simp, .inl (by rw [pc]; rfl)⟩
  | _ => cases searching

theorem MinerStep.searched (step : MinerStep setup before .append after) :
    before.miner.pc.searching = true := by
  cases step with
  | append pc follows added =>
    rw [pc]
    rfl

/-- Outside the mutex, what the miner appends it has to make up for. -/
theorem MinerStep.publishedLength (step : MinerStep setup before action after)
    (kept : before.destroys action ≠ some before.blockchain) (outside : before.miner.pc.critical = false) :
    after.publishedLength + before.appended ≤ before.publishedLength + after.appended := by
  have sameChain := step.frame.2.2.1
  have grows : before.appended ≤ after.appended := by
    rw [Node.appended, Node.appended]
    cases searches : after.miner.pc.searching with
    | false =>
      simp only [Bool.false_eq_true, if_false]
      split <;> omega
    | true =>
      obtain ⟨-, searched | inside⟩ := step.searching searches
      · simp [searched]
      · rw [outside] at inside
        cases inside
  simp only [Node.publishedLength, sameChain]
  obtain same | ⟨rfl, -, longer⟩ := (step.chains kept).2
  · omega
  · -- before the append the miner was searching, afterwards it is not
    have searched := step.searched
    have stops : after.miner.pc.searching = false := by
      cases searches : after.miner.pc.searching with
      | false => rfl
      | true => exact absurd rfl (step.searching searches).1
    simp only [Node.appended, searched, stops, if_true, Bool.false_eq_true, if_false, longer]
    omega

theorem MinerStep.lengthAt_candidate {id pointer : Nat} (step : MinerStep setup before action after)
    (wellFormed : WellFormed before) (kept : before.destroys action ≠ some pointer)
    (owns : (before.peers id).candidate = some pointer) : after.lengthAt pointer = before.lengthAt pointer := by
  obtain same | ⟨-, follows, -⟩ := (step.chains kept).2
  · exact same
  · exact absurd rfl (wellFormed.candidate_ne_own owns follows)

theorem PeerStep.chains {id : Nat} (step : PeerStep setup id before action after) {pointer : Nat}
    (used : pointer < before.fresh) (kept : before.destroys action ≠ some pointer) :
    after.chains pointer = before.chains pointer := by
  cases step with
  | receive launched waiting received => exact Function.update_of_ne (Nat.ne_of_lt used) _ _
  | destroyPeer pc =>
    refine Node.destroyBlockchain_chains (before.setPeer id .idle) ?_
    rintro rfl
    exact kept rfl
  | _ => rfl

/-- But for what is destroyed, only an append changes a chain that is there. -/
theorem NodeStep.chains (step : NodeStep setup before action after) (lengthens : action ≠ .append) {pointer : Nat}
    (used : pointer < before.fresh) (kept : before.destroys action ≠ some pointer) :
    after.chains pointer = before.chains pointer := by
  cases step with
  | miner step =>
    cases step with
    | append pc follows added => exact absurd rfl lengthens
    | @destroyOld oldBlockchain pc =>
      refine Node.destroyBlockchain_chains (before.setMinerPc .resyncLoad) ?_
      rintro rfl
      exact kept (by rw [Node.destroys, pc])
    | _ => rfl
  | peer id step => exact step.chains used kept

theorem PeerStep.lengthAt {id : Nat} (step : PeerStep setup id before action after) {pointer : Nat}
    (used : pointer < before.fresh) (kept : before.destroys action ≠ some pointer) :
    after.lengthAt pointer = before.lengthAt pointer := by
  rw [Node.lengthAt, Node.lengthAt, step.chains used kept]

theorem PeerStep.blockchain {id : Nat} (step : PeerStep setup id before action after) :
    after.blockchain = before.blockchain ∨
      ∃ side peerBlockchain, action = .write peerBlockchain ∧
        before.peers id = .writing side peerBlockchain ∧ after.blockchain = peerBlockchain := by
  cases step with
  | write pc => exact .inr ⟨_, _, rfl, pc, rfl⟩
  | _ => exact .inl rfl

theorem PeerStep.blockchain_of_other {id other : Nat} (step : PeerStep setup id before action after)
    (wellFormed : WellFormed before) (different : other ≠ id)
    (critical : (before.peers other).critical = true) : after.blockchain = before.blockchain := by
  obtain same | ⟨side, peerBlockchain, -, writing, -⟩ := step.blockchain
  · exact same
  · -- both calls would hold the mutex
    have held := wellFormed.peerHolds id (by rw [writing]; rfl)
    rw [wellFormed.peerHolds other critical] at held
    cases held
    exact absurd rfl different

end Steps

/-! ## The bound on what was measured -/

theorem Bounded.critical {node : Node} {pc : PeerPc} (outside : pc.critical = false) : Bounded node pc := by
  cases pc with
  | measured side peerBlockchain ourLength | writing side peerBlockchain => cases outside
  | _ => exact trivial

theorem Bounded.onDecided {node : Node} (side : Side) (leftover : Option Nat) :
    Bounded node (side.onDecided leftover) := by
  cases side <;> exact trivial

/-- A bound survives if the published chain grows by no more than is made up for. -/
theorem Bounded.weaken {before after : Node} {pc : PeerPc} (bounded : Bounded before pc)
    (grown : after.publishedLength + before.appended ≤ before.publishedLength + after.appended)
    (same : ∀ pointer, pc.candidate = some pointer → after.lengthAt pointer = before.lengthAt pointer) :
    Bounded after pc := by
  cases pc with
  | measured side peerBlockchain ourLength =>
    simp only [Bounded] at bounded ⊢
    omega
  | writing side peerBlockchain =>
    have kept := same peerBlockchain rfl
    simp only [Bounded] at bounded ⊢
    omega
  | _ => exact trivial

structure LengthsBounded (node : Node) : Prop where
  wellFormed : WellFormed node
  coherent : Coherent node.cell
  bounded : ∀ id, Bounded node (node.peers id)

section Bound

variable {setup : Setup PKey} {before after : Node} {action : Action}

theorem MinerStep.lengthsBounded (invariant : LengthsBounded before)
    (step : MinerStep setup before action after) : LengthsBounded after := by
  have taken : NodeStep setup before action after := .miner step
  refine ⟨step.wellFormed invariant.wellFormed, taken.coherent invariant.wellFormed invariant.coherent step.later,
    fun id => ?_⟩
  rw [step.frame.1]
  cases critical : (before.peers id).critical with
  | false => exact .critical critical
  | true =>
    -- the call holds the mutex, so the miner is outside
    have outside : before.miner.pc.critical = false := by
      cases inside : before.miner.pc.critical with
      | false => rfl
      | true =>
        have held := invariant.wellFormed.minerHolds inside
        rw [invariant.wellFormed.peerHolds id critical] at held
        cases held
    have kept := taken.keeps_published invariant.wellFormed invariant.coherent
    apply (invariant.bounded id).weaken (step.publishedLength kept outside)
    intro pointer owns
    exact step.lengthAt_candidate invariant.wellFormed
      (taken.keeps_candidate invariant.wellFormed invariant.coherent (step.frame.1.symm ▸ owns)) owns

theorem PeerStep.lengthsBounded {id : Nat} (invariant : LengthsBounded before)
    (later : SwitchesAfterFirstRead before action) (step : PeerStep setup id before action after) :
    LengthsBounded after := by
  have wellFormed := invariant.wellFormed
  have coherent := invariant.coherent
  have taken : NodeStep setup before action after := .peer id step
  obtain ⟨miner, -, -, others⟩ := step.frame
  have sameAppended : after.appended = before.appended := by rw [Node.appended, Node.appended, miner]
  refine ⟨step.wellFormed wellFormed, taken.coherent wellFormed coherent later, fun other => ?_⟩
  by_cases sameCall : other = id
  · subst sameCall
    have known := invariant.bounded other
    cases step with
    | measure pc =>
      rw [Node.setPeer_peers]
      show before.publishedLength ≤ (linkedListLength (before.chains before.blockchain).blockList).toNat +
        before.appended
      rw [before.linkedListLength_lengthAt, Node.publishedLength]
      omega
    | @decide side peerBlockchain ourLength pc longer sameDifficulty =>
      rw [pc] at known
      rw [Node.setPeer_peers]
      show before.publishedLength < before.lengthAt peerBlockchain + before.appended
      have longer := UInt64.lt_iff_toNat_lt.mp longer
      rw [before.linkedListLength_lengthAt] at longer
      simp only [Bounded] at known
      omega
    | @receive side environment stream header peerBlockchain isValid launched pc received =>
      exact .critical (by simp)
    | @unlock leftover pc => exact .critical (by simp)
    | ignore pc | decline pc _ | increment pc =>
      rw [Node.setPeer_peers]
      exact .onDecided _ _
    | request launched pc free | requested pc | giveUp pc | requestedFails pc | lockFails pc | unlockFails pc
    | lock pc free | write pc | reply pc
    | replyFails pc =>
      rw [Node.setPeer_peers]
      exact trivial
    | destroyPeer pc =>
      rw [Node.destroyBlockchain_peers, Node.setPeer_peers]
      exact trivial
  · have owned {pointer : Nat} (owns : (before.peers other).candidate = some pointer) :
        (after.peers other).candidate = some pointer := by rwa [others other sameCall]
    rw [others other sameCall]
    cases critical : (before.peers other).critical with
    | false => exact .critical critical
    | true =>
      have kept := step.blockchain_of_other wellFormed sameCall critical
      have published := step.lengthAt wellFormed.published_lt (taken.keeps_published wellFormed coherent)
      apply (invariant.bounded other).weaken
      · rw [Node.publishedLength, Node.publishedLength, kept, published, sameAppended]
      · intro pointer owns
        exact step.lengthAt (wellFormed.owned other pointer owns).1
          (taken.keeps_candidate wellFormed coherent (owned owns))

/-- No step shortens the published chain. -/
theorem NodeStep.publishedLength_le (invariant : LengthsBounded before)
    (step : NodeStep setup before action after) : before.publishedLength ≤ after.publishedLength := by
  have wellFormed := invariant.wellFormed
  have kept := step.keeps_published wellFormed invariant.coherent
  cases step with
  | miner step =>
    rw [Node.publishedLength, Node.publishedLength, step.frame.2.2.1]
    obtain same | ⟨-, -, longer⟩ := (step.chains kept).2
    · omega
    · omega
  | peer id step =>
    obtain same | ⟨side, peerBlockchain, rfl, writing, written⟩ := step.blockchain
    · rw [Node.publishedLength, Node.publishedLength, same, step.lengthAt wellFormed.published_lt kept]
    · -- longer than what was measured, and at most one block has been appended since
      have known := invariant.bounded id
      rw [writing] at known
      have used := (wellFormed.owned id peerBlockchain (by rw [writing]; rfl)).1
      have adopted : after.publishedLength = before.lengthAt peerBlockchain := by
        rw [Node.publishedLength, written, step.lengthAt used (by simp [Node.destroys])]
      have atMostOne : before.appended ≤ 1 := by
        rw [Node.appended]
        split <;> omega
      simp only [Bounded] at known
      omega

theorem Beginning.lengthsBounded {node : Node} (beginning : Beginning node) : LengthsBounded node := by
  refine ⟨beginning.toQuiet.wellFormed, beginning.coherent, fun id => ?_⟩
  rw [beginning.toQuiet.idle id]
  exact trivial

theorem NodeStep.lengthsBounded (invariant : LengthsBounded before) (later : SwitchesAfterFirstRead before action)
    (step : NodeStep setup before action after) : LengthsBounded after := by
  cases step with
  | miner step => exact step.lengthsBounded invariant
  | peer id step => exact step.lengthsBounded invariant later

theorem lengthsBounded_of_run {first last : Node} {actions : List Action} (beginning : Beginning first)
    (run : Run (Guarded (NodeStep setup) SwitchesAfterFirstRead) first actions last) : LengthsBounded last := by
  apply run.invariant LengthsBounded beginning.lengthsBounded
  intro before action after invariant taken
  exact taken.2.lengthsBounded invariant taken.1

end Bound

/-! ## Strictly longer -/

/-- No append makes the published chain as long as one that a call is about to adopt. -/
def AppendsLeaveRoom (node : Node) (action : Action) : Prop :=
  match action with
  | .append => ∀ id peerBlockchain, Adopting node peerBlockchain (node.peers id) →
      node.miner.blockchain = some node.blockchain →
      node.publishedLength + 1 < node.lengthAt peerBlockchain
  | _ => True

/-- What a step has to be like for every switch to be to a longer chain. -/
def KeepsLongest (node : Node) (action : Action) : Prop :=
  SwitchesAfterFirstRead node action ∧ AppendsLeaveRoom node action

structure AdoptsLonger (node : Node) : Prop where
  wellFormed : WellFormed node
  coherent : Coherent node.cell
  longer : ∀ id peerBlockchain, Adopting node peerBlockchain (node.peers id) →
    node.publishedLength < node.lengthAt peerBlockchain

theorem Adopting.critical {node : Node} {peerBlockchain : Nat} {pc : PeerPc}
    (adopting : Adopting node peerBlockchain pc) :
    pc.critical = true ∧ pc.candidate = some peerBlockchain := by
  cases pc with
  | measured side decoded ourLength =>
    obtain ⟨rfl, -⟩ := adopting
    exact ⟨rfl, rfl⟩
  | writing side decoded =>
    obtain rfl := adopting
    exact ⟨rfl, rfl⟩
  | _ => cases adopting

theorem Adopting.not_onDecided {node : Node} {peerBlockchain : Nat} {side : Side} {leftover : Option Nat} :
    ¬ Adopting node peerBlockchain (side.onDecided leftover) := by
  intro adopting
  cases side <;> cases adopting

theorem Adopting.congr {before after : Node} {peerBlockchain : Nat} {pc : PeerPc}
    (adopting : Adopting after peerBlockchain pc)
    (sameChain : after.lengthAt peerBlockchain = before.lengthAt peerBlockchain)
    (sameDifficulty : (after.chains peerBlockchain).numLeadingZeroBytesRequiredInBlockHash =
      (before.chains peerBlockchain).numLeadingZeroBytesRequiredInBlockHash)
    (publishedDifficulty : (after.chains after.blockchain).numLeadingZeroBytesRequiredInBlockHash =
      (before.chains before.blockchain).numLeadingZeroBytesRequiredInBlockHash) :
    Adopting before peerBlockchain pc := by
  cases pc with
  | measured side decoded ourLength =>
    obtain ⟨rfl, longer, same⟩ := adopting
    have length : linkedListLength (after.chains decoded).blockList =
        linkedListLength (before.chains decoded).blockList := by
      rw [Node.lengthAt, Node.lengthAt] at sameChain
      rw [linkedListLength, linkedListLength, sameChain]
    rw [length] at longer
    rw [publishedDifficulty, sameDifficulty] at same
    exact ⟨rfl, longer, same⟩
  | writing side decoded => exact adopting
  | _ => cases adopting

section Strict

variable {setup : Setup PKey} {before after : Node} {action : Action}

theorem MinerStep.adoptsLonger (invariant : AdoptsLonger before) (room : AppendsLeaveRoom before action)
    (step : MinerStep setup before action after) : AdoptsLonger after := by
  have wellFormed := invariant.wellFormed
  have coherent := invariant.coherent
  have taken : NodeStep setup before action after := .miner step
  have published := taken.keeps_published wellFormed coherent
  refine ⟨step.wellFormed wellFormed, taken.coherent wellFormed coherent step.later,
    fun id peerBlockchain adopting => ?_⟩
  obtain ⟨peers, -, sameChain, -⟩ := step.frame
  have candidate := taken.keeps_candidate wellFormed coherent adopting.critical.2
  rw [peers] at adopting
  have foreign := step.lengthAt_candidate wellFormed candidate adopting.critical.2
  have earlier := adopting.congr foreign (step.chains candidate).1
    (by rw [sameChain]; exact (step.chains published).1)
  have longer := invariant.longer id peerBlockchain earlier
  rw [Node.publishedLength, sameChain, foreign]
  obtain same | ⟨rfl, follows, grown⟩ := (step.chains published).2
  · rw [same]
    exact longer
  · rw [grown]
    exact room id peerBlockchain earlier follows

theorem PeerStep.adoptsLonger {id : Nat} (invariant : AdoptsLonger before)
    (later : SwitchesAfterFirstRead before action) (step : PeerStep setup id before action after) :
    AdoptsLonger after := by
  have wellFormed := invariant.wellFormed
  have coherent := invariant.coherent
  have taken : NodeStep setup before action after := .peer id step
  have keepsPublished := taken.keeps_published wellFormed coherent
  obtain ⟨-, -, -, others⟩ := step.frame
  refine ⟨step.wellFormed wellFormed, taken.coherent wellFormed coherent later,
    fun other peerBlockchain adopting => ?_⟩
  by_cases sameCall : other = id
  · subst sameCall
    cases step with
    | measure pc =>
      rw [Node.setPeer_peers] at adopting
      obtain ⟨rfl, longer, -⟩ := adopting
      have longer := UInt64.lt_iff_toNat_lt.mp longer
      simp only [Node.setPeer] at longer
      rw [before.linkedListLength_lengthAt, before.linkedListLength_lengthAt] at longer
      exact longer
    | decide pc longer sameDifficulty =>
      rw [Node.setPeer_peers] at adopting
      obtain rfl := adopting
      exact invariant.longer other _ (by rw [pc]; exact ⟨rfl, longer, sameDifficulty⟩)
    | receive launched pc received => exact absurd adopting.critical.1 (by simp)
    | unlock pc => exact absurd adopting.critical.1 (by simp)
    | ignore pc | decline pc _ | increment pc =>
      rw [Node.setPeer_peers] at adopting
      exact (Adopting.not_onDecided adopting).elim
    | request launched pc free | requested pc | giveUp pc | requestedFails pc | lockFails pc | unlockFails pc
    | lock pc free | write pc | reply pc
    | replyFails pc =>
      rw [Node.setPeer_peers] at adopting
      cases adopting
    | destroyPeer pc =>
      rw [Node.destroyBlockchain_peers, Node.setPeer_peers] at adopting
      cases adopting
  · have candidate := taken.keeps_candidate wellFormed coherent adopting.critical.2
    rw [others other sameCall] at adopting
    obtain ⟨critical, owns⟩ := adopting.critical
    have used := (wellFormed.owned other peerBlockchain owns).1
    have kept := step.blockchain_of_other wellFormed sameCall critical
    have published := wellFormed.published_lt
    have earlier := adopting.congr (step.lengthAt used candidate) (by rw [step.chains used candidate])
      (by rw [kept, step.chains published keepsPublished])
    have longer := invariant.longer other peerBlockchain earlier
    rw [Node.publishedLength, kept, step.lengthAt published keepsPublished, step.lengthAt used candidate]
    exact longer

theorem Beginning.adoptsLonger {node : Node} (beginning : Beginning node) : AdoptsLonger node := by
  refine ⟨beginning.toQuiet.wellFormed, beginning.coherent, fun id peerBlockchain adopting => ?_⟩
  rw [beginning.toQuiet.idle id] at adopting
  cases adopting

theorem adoptsLonger_of_run {first last : Node} {actions : List Action} (beginning : Beginning first)
    (run : Run (Guarded (NodeStep setup) KeepsLongest) first actions last) : AdoptsLonger last := by
  apply run.invariant AdoptsLonger beginning.adoptsLonger
  intro before action after invariant taken
  cases taken.2 with
  | miner step => exact step.adoptsLonger invariant taken.1.2
  | peer id step => exact step.adoptsLonger invariant taken.1.1

end Strict

/-- Where no switch lands before the miner's first read of the pointer, no step shortens the
published chain; and where besides no append makes it as long as a chain that is about to be
adopted, every switch is to a strictly longer chain. -/
theorem switches_to_longer (setup : Setup PKey) (first last next : Node) (actions : List Action)
    (action : Action) (beginning : Beginning first)
    (run : Run (Guarded (NodeStep setup) SwitchesAfterFirstRead) first actions last)
    (step : NodeStep setup last action next) :
    last.publishedLength ≤ next.publishedLength ∧
      (Run (Guarded (NodeStep setup) KeepsLongest) first actions last →
        ∀ peerBlockchain, action = .write peerBlockchain →
          last.publishedLength < next.publishedLength) := by
  refine ⟨step.publishedLength_le (lengthsBounded_of_run beginning run), ?_⟩
  intro guarded peerBlockchain writes
  have invariant := adoptsLonger_of_run beginning guarded
  subst writes
  cases step with
  | miner step => cases step
  | peer id step =>
    cases step with
    | write pc =>
      have longer := invariant.longer id peerBlockchain (by rw [pc]; rfl)
      exact longer

/-- The condition is exact: an append that leaves no room can be followed by the call's
writing a chain that is not longer. -/
theorem append_without_room_is_lost {setup : Setup PKey} {before after : Node}
    (wellFormed : WellFormed before) (step : MinerStep setup before .append after)
    (crowded : ¬ AppendsLeaveRoom before .append) :
    ∃ actions last peerBlockchain next, Run (NodeStep setup) after actions last ∧
      NodeStep setup last (.write peerBlockchain) next ∧ next.publishedLength ≤ last.publishedLength := by
  obtain ⟨id, peerBlockchain, adopting, own, tooLong⟩ :
      ∃ id peerBlockchain, Adopting before peerBlockchain (before.peers id) ∧
        before.miner.blockchain = some before.blockchain ∧
        ¬ before.publishedLength + 1 < before.lengthAt peerBlockchain := by
    simpa only [AppendsLeaveRoom, not_forall, exists_prop] using crowded
  obtain ⟨peers, -, sameChain, -⟩ := step.frame
  have nothing (pointer : Nat) : before.destroys .append ≠ some pointer := by simp [Node.destroys]
  have foreign := step.lengthAt_candidate wellFormed (nothing _) adopting.critical.2
  have grown : after.publishedLength = before.publishedLength + 1 := by
    cases step with
    | append pc follows added =>
      rw [own] at follows
      cases follows
      obtain ⟨items, -⟩ := blockchain_add_block_ok added
      simp [Node.publishedLength, Node.lengthAt, Node.setMinerPc, items]
  have stillAdopting : Adopting after peerBlockchain (after.peers id) := by
    rw [peers]
    exact adopting.congr foreign.symm (step.chains (nothing _)).1.symm
      (by rw [sameChain]; exact (step.chains (nothing _)).1.symm)
  have loses {last : Node} {side : Side} (writing : last.peers id = .writing side peerBlockchain)
      (published : last.publishedLength = after.publishedLength)
      (same : last.lengthAt peerBlockchain = after.lengthAt peerBlockchain) :
      ∃ next, NodeStep setup last (.write peerBlockchain) next ∧
        next.publishedLength ≤ last.publishedLength := by
    refine ⟨_, .peer id (.write writing), ?_⟩
    show last.lengthAt peerBlockchain ≤ last.publishedLength
    omega
  cases pc : after.peers id with
  | measured side decoded ourLength =>
    rw [pc] at stillAdopting
    obtain ⟨rfl, longer, sameDifficulty⟩ := stillAdopting
    have decided : PeerStep setup id after .other (after.setPeer id (.writing side decoded)) :=
      .decide pc longer sameDifficulty
    obtain ⟨next, write, notLonger⟩ := loses (Node.setPeer_peers after id _) rfl rfl
    exact ⟨_, _, _, next, .single (.peer id decided), write, notLonger⟩
  | writing side decoded =>
    rw [pc] at stillAdopting
    obtain rfl := stillAdopting
    obtain ⟨next, write, notLonger⟩ := loses pc rfl rfl
    exact ⟨_, _, _, next, .start, write, notLonger⟩
  | _ =>
    rw [pc] at stillAdopting
    cases stillAdopting

/-! ### Sample runs -/

/-- The miner is about to try the first proof of work. -/
def sampleSearching : Node := sampleNode ⟨.searchHash sampleBlock 0 0, some 0⟩

/-- The miner has found a block on top of the genesis block. -/
def sampleFound : Node := sampleNode ⟨.append sampleBlock, some 0⟩

theorem sampleFound_run {guard : Node → Action → Prop} (allowed : ∀ node, guard node .other) :
    ∃ actions, Run (Guarded (NodeStep sampleSetup) guard) sampleMining actions sampleFound := by
  have built : nextBlock sampleSetup 0 0 (sampleChain 0) = .ok sampleBlock := rfl
  have small : (0 : UInt64) < 18446744073709551615 := by decide
  have searches : Run (Guarded (NodeStep sampleSetup) guard) sampleMining
      [.other, .other, .other, .other, .other, .other, .other, .other, .other] sampleSearching :=
    .cons ⟨allowed _, .miner (.enter rfl)⟩ (.cons ⟨allowed _, .miner (.upToDate rfl rfl)⟩
      (.cons ⟨allowed _, .miner (.verified rfl rfl (sampleChain_accepted 0))⟩
        (.cons ⟨allowed _, .miner (.createBlock rfl rfl built)⟩ (.cons ⟨allowed _, .miner (.lock rfl rfl)⟩
          (.cons ⟨allowed _, .miner (.mineRead rfl)⟩ (.cons ⟨allowed _, .miner (.unlock rfl)⟩
            (.cons ⟨allowed _, .miner (.goOn rfl small)⟩
              (.single ⟨allowed _, .miner (.current rfl rfl)⟩))))))))
  have work : blockchainIsValidBlockHash sampleSetup.platform (sampleChain 0)
      (blockHash sampleSetup.platform { sampleBlock with proofOfWork := 0 }) = true := rfl
  have pc : sampleSearching.miner.pc = .searchHash sampleBlock 0 0 := rfl
  have found : MinerStep sampleSetup sampleSearching .other sampleFound := MinerStep.found pc work
  exact ⟨_, searches.trans (.single ⟨allowed _, .miner found⟩)⟩

/-- A server has decoded a two-block chain and measured the genesis chain. -/
def sampleMeasured (miner : Miner) : Node :=
  { sampleNode miner with
    chains := Function.update (sampleNode miner).chains 1 (sampleChain 1)
    fresh := 2
    holder := some (.peer 0)
    peers := Function.update (sampleNode miner).peers 0
      (.measured .server 1 (linkedListLength (sampleChain 0).blockList)) }

theorem sampleMeasured_run {guard : Node → Action → Prop} {miner : Miner}
    (launched : miner.pc.launched = true) (allowed : ∀ node, guard node .other) :
    Run (Guarded (NodeStep sampleSetup) guard) (sampleNode miner) [.other, .other, .other]
      (sampleMeasured miner) := by
  let considering := (sampleNode miner).considering 0 (sampleChain 1) true
  let measured := considering.setPeer 0 (.measured .server 1 (linkedListLength (sampleChain 0).blockList))
  have begun : Run (Guarded (NodeStep sampleSetup) guard) (sampleNode miner) [.other, .other] considering :=
    considers_chain (fun node _ => allowed node) launched rfl rfl (sample_received 1)
  have measure : PeerStep sampleSetup 0 considering .other measured := .measure Node.considering_peers
  have reached : measured = sampleMeasured miner := by
    simp only [measured, considering, Node.considering, Node.setPeer, Function.update_idem]
    rfl
  rw [← reached]
  exact begun.trans (.single ⟨allowed considering, .peer 0 measure⟩)

theorem sampleChain_longer : linkedListLength (sampleChain 1).blockList >
    linkedListLength (sampleChain 0).blockList := by
  rw [gt_iff_lt, UInt64.lt_iff_toNat_lt, (sampleChain 1).length_toNat, (sampleChain 0).length_toNat,
    sampleChain_length, sampleChain_length]
  exact Nat.lt_succ_self 1

/-- Nothing is appended, and the two-block chain replaces the genesis chain of `main`. -/
theorem switches_to_longer_sample :
    ∃ actions last next, Run (Guarded (NodeStep sampleSetup) KeepsLongest) sampleBooting actions last ∧
      NodeStep sampleSetup last (.write 1) next ∧ last.publishedLength < next.publishedLength := by
  have allowed (node : Node) (action : Action) (other : action ≠ .increment) (grows : action ≠ .append) :
      KeepsLongest node action := by
    cases action with
    | increment => exact absurd rfl other
    | append => exact absurd rfl grows
    | _ => exact ⟨trivial, trivial⟩
  have entered : Run (Guarded (NodeStep sampleSetup) KeepsLongest) sampleBooting _ sampleMining :=
    sampleEntered_run allowed
  have measured : Run (Guarded (NodeStep sampleSetup) KeepsLongest) sampleMining _ _ :=
    sampleMeasured_run rfl fun _ => ⟨trivial, trivial⟩
  let last := (sampleMeasured sampleMining.miner).setPeer 0 (.writing .server 1)
  have decided : PeerStep sampleSetup 0 (sampleMeasured sampleMining.miner) .other last :=
    .decide rfl sampleChain_longer rfl
  have taken : Guarded (NodeStep sampleSetup) KeepsLongest _ .other last := ⟨⟨trivial, trivial⟩, .peer 0 decided⟩
  have run := (entered.trans measured).trans (.single taken)
  have write : NodeStep sampleSetup last (.write 1) _ := .peer 0 (.write rfl)
  have later : Run (Guarded (NodeStep sampleSetup) SwitchesAfterFirstRead) sampleBooting _ last :=
    run.map fun _ _ _ taken => ⟨taken.1.1, taken.2⟩
  exact ⟨_, _, _, run, write,
    (switches_to_longer sampleSetup _ _ _ _ _ (.booting sampleBooting_booting) later write).2 run 1 rfl⟩

/-- A mined block lands between the server's measuring and its writing: the two-block chain
of the node is replaced by another two-block chain. -/
theorem mined_block_is_replaced :
    ¬ ∀ first last next actions peerBlockchain, Synchronized first →
      Run (NodeStep sampleSetup) first actions last →
      NodeStep sampleSetup last (.write peerBlockchain) next →
      last.publishedLength < next.publishedLength := by
  intro longer
  have mined : ∃ actions, Run (Guarded (NodeStep sampleSetup) fun _ _ => True) sampleMining actions sampleFound :=
    sampleFound_run fun _ => trivial
  obtain ⟨actions, mined⟩ := mined
  have measured : Run (Guarded (NodeStep sampleSetup) fun _ _ => True) sampleFound _ _ :=
    sampleMeasured_run rfl fun _ => trivial
  let measuring := sampleMeasured sampleFound.miner
  let appended : Node :=
    { measuring.setMinerPc (.loopHead .success) with
      chains := Function.update measuring.chains 0 (sampleChain 1) }
  let writing := appended.setPeer 0 (.writing .server 1)
  let written : Node := { writing.setPeer 0 (.incrementing .server) with blockchain := 1 }
  have append : MinerStep sampleSetup measuring .append appended := .append rfl rfl (sampleChain_grows 0 (by decide))
  have decided : PeerStep sampleSetup 0 appended .other writing := .decide rfl sampleChain_longer rfl
  have write : PeerStep sampleSetup 0 writing (.write 1) written := .write rfl
  have overtaken : Run (NodeStep sampleSetup) measuring [.append, .other] writing :=
    .cons (.miner append) (.single (.peer 0 decided))
  have run := (mined.unguarded.trans measured.unguarded).trans overtaken
  have claimed := longer _ _ _ _ _ sampleMining_synchronized run (.peer 0 write)
  have before : writing.publishedLength = 2 := sampleChain_length 1
  have after : written.publishedLength = 2 := sampleChain_length 1
  omega

end LeoCoin
