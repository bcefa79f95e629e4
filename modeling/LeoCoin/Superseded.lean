import Mathlib.Data.Set.Card
import LeoCoin.Library.Custody
import LeoCoin.Resync

/-! # Chains that nobody frees

The miner destroys the chain it leaves when it comes to the published one.  A chain that is
replaced before the miner has come to it is thus destroyed by nobody, and neither is the chain of
a call that returns because the mutex could not be locked or unlocked or the answer not be
serialized.  Such a chain stays in memory for ever; how many there are depends on how many
switches there were and how often `mine_blocks` has read the pointer.  The search for a proof
reads the pointer as well: it may still look at such a chain, but never destroys it.  (A chain
that `blockchain_verify` fails on is lost too, but is no other thread's business and has no
pointer here.)
-/

namespace LeoCoin

open Library.Publication Library.Transition

variable {PKey : Type}

/-- The pointer that `synchronized_blockchain_mine_block` has read, while it searches. -/
def MinerPc.searched : MinerPc → Option Nat
  | .mineUnlock _ blockchain => some blockchain
  | .searchStop _ blockchain _ => some blockchain
  | .searchVersion _ blockchain _ => some blockchain
  | .searchHash _ blockchain _ => some blockchain
  | _ => none

/-- A chain that is in memory, not destroyed, and that is neither published nor the miner's nor that
of a consensus call.  A search that began while it was published still reads it. -/
structure Abandoned (node : Node) (pointer : Nat) : Prop where
  allocated : pointer < node.fresh
  unused : Unused node.cell pointer
  noCandidate : ∀ id, (node.peers id).candidate ≠ some pointer

/-- No thread knows of the chain any more, the search neither. -/
def Forgotten (node : Node) (pointer : Nat) : Prop :=
  Abandoned node pointer ∧ node.miner.pc.searched ≠ some pointer

/-- A write replaces a chain that `mine_blocks` has not read. -/
def Supersedes (before : Node) (action : Action) (pointer : Nat) : Prop :=
  (∃ peerBlockchain, action = .write peerBlockchain) ∧ pointer = before.blockchain ∧
    before.miner.blockchain ≠ some pointer

/-- A call returns without the chain it had decoded. -/
inductive Drop (pointer : Nat) : PeerPc → PeerPc → Prop where
  /-- the mutex could not be locked -/
  | lockFails {side : Side} {isValid : Bool} : Drop pointer (.received side pointer isValid) .idle
  /-- the answer could not be serialized -/
  | replyFails : Drop pointer (.replying (some pointer)) (.unlocking none)
  /-- the mutex could not be unlocked -/
  | unlockFails : Drop pointer (.unlocking (some pointer)) .idle

def Drops (before after : Node) (pointer : Nat) : Prop :=
  ∃ id, Drop pointer (before.peers id) (after.peers id)

/-- The chains that have been published by a write. -/
def Action.written : Action → Option Nat
  | .write peerBlockchain => some peerBlockchain
  | _ => none

/-- How often `mine_blocks` has read `sync->blockchain` for itself, on entry and to come to a chain
that replaced its own.  The search reads it once more each time, which nothing is destroyed for. -/
def pointerReads (actions : List Action) : Nat :=
  actions.countP fun action => match action with | .readFirst => true | .readAgain => true | _ => false

/-- The chains that `sync->blockchain` has pointed to. -/
def publishedSoFar (first : Node) (actions : List Action) : List Nat :=
  first.blockchain :: actions.filterMap Action.written

/-! ## What a call does with the chain that it has decoded -/

inductive Handling (before after : PeerPc) (fresh freshAfter : Nat) : Option (Event Nat) → Prop where
  | keeps {event : Option (Event Nat)} :
      after.candidate = before.candidate → freshAfter = fresh → event = none ∨ event = some .announce →
      Handling before after fresh freshAfter event
  | decodes :
      before.candidate = none → after.candidate = some fresh → freshAfter = fresh + 1 →
      Handling before after fresh freshAfter none
  | gives {event : Event Nat} {pointer : Nat} :
      before.candidate = some pointer → after.candidate = none → freshAfter = fresh →
      event = .publish pointer ∨ event = .discard pointer →
      Handling before after fresh freshAfter (some event)
  | drops {pointer : Nat} :
      Drop pointer before after → freshAfter = fresh →
      Handling before after fresh freshAfter none

theorem Drop.held {pointer : Nat} {before after : PeerPc} (dropped : Drop pointer before after) :
    before.candidate = some pointer := by
  cases dropped <;> rfl

theorem Drop.lost {pointer : Nat} {before after : PeerPc} (dropped : Drop pointer before after) :
    after.candidate = none := by
  cases dropped <;> rfl

theorem not_drop_of_same {pc next : PeerPc} (same : next.candidate = pc.candidate) (pointer : Nat) :
    ¬ Drop pointer pc next := by
  intro dropped
  have lost := dropped.lost
  rw [same, dropped.held] at lost
  cases lost

section Steps

variable {setup : Setup PKey} {id : Nat} {before after : Node} {action : Action}

theorem PeerStep.handling (step : PeerStep setup id before action after) :
    Handling (before.peers id) (after.peers id) before.fresh after.fresh action.event := by
  cases step with
  | @receive side _ _ _ _ isValid _ waiting _ =>
    refine .decodes ?_ (by simp) rfl
    rw [waiting]
    cases side <;> rfl
  | write pc => exact .gives (by rw [pc]; rfl) (by simp [PeerPc.candidate]) rfl (.inl rfl)
  | destroyPeer pc => exact .gives (by rw [pc]; rfl) (by simp [PeerPc.candidate]) rfl (.inr rfl)
  | @lockFails _ peerBlockchain _ pc =>
    refine @Handling.drops _ _ _ _ peerBlockchain ?_ rfl
    rw [pc, Node.setPeer_peers]
    exact .lockFails
  | @replyFails leftover pc =>
    cases leftover with
    | none => exact .keeps (by simp [pc, PeerPc.candidate]) rfl (.inl rfl)
    | some pointer =>
      refine @Handling.drops _ _ _ _ pointer ?_ rfl
      rw [pc, Node.setPeer_peers]
      exact .replyFails
  | @unlockFails leftover pc =>
    cases leftover with
    | none => exact .keeps (by simp [pc, PeerPc.candidate]) rfl (.inl rfl)
    | some pointer =>
      refine @Handling.drops _ _ _ _ pointer ?_ rfl
      rw [pc, Node.setPeer_peers]
      exact .unlockFails
  | increment pc =>
    exact .keeps (by rw [pc, Node.setPeer_peers, Side.onDecided_candidate]; rfl) rfl (.inr rfl)
  | ignore pc | decline pc _ =>
    exact .keeps (by rw [pc, Node.setPeer_peers, Side.onDecided_candidate]; rfl) rfl (.inl rfl)
  | unlock pc =>
    exact .keeps (by rw [pc, Node.setPeer_peers, PeerPc.afterUnlock_candidate]; rfl) rfl (.inl rfl)
  | request _ pc _ | requested pc | requestedFails pc | giveUp pc | lock pc _ | measure pc | decide pc _ _
  | reply pc =>
    exact .keeps (by rw [pc, Node.setPeer_peers]; rfl) rfl (.inl rfl)

/-- A pointer becomes unused when it is superseded, and ceases to be so when it is published or
destroyed. -/
theorem unused_iff_of_seen (live : Live before.cell)
    (seen : Matches (Step incrementVersion) before.cell action.event after.cell) (pointer : Nat) :
    Unused after.cell pointer ↔
      (Unused before.cell pointer ∧ action.event ≠ some (.publish pointer) ∧
          action.event ≠ some (.discard pointer)) ∨ Supersedes before action pointer := by
  have writes : (∃ peerBlockchain, action = .write peerBlockchain) ↔
      ∃ other, action.event = some (.publish other) := by
    cases action <;> simp [Action.event]
  rw [Supersedes, writes]
  cases shown : action.event with
  | none =>
    rw [shown, Matches] at seen
    simp [seen]
  | some event =>
    rw [shown] at seen
    simpa [Node.cell] using live.unused_iff seen pointer

/-- Only the call that makes the step can drop its chain. -/
theorem PeerStep.drops_iff (step : PeerStep setup id before action after) (pointer : Nat) :
    Drops before after pointer ↔ Drop pointer (before.peers id) (after.peers id) := by
  constructor
  · rintro ⟨other, dropped⟩
    by_cases same : other = id
    · subst same
      exact dropped
    · exact absurd dropped (not_drop_of_same (by rw [step.frame.2.2.2 other same]) pointer)
  · exact fun dropped => ⟨id, dropped⟩

theorem MinerStep.not_drops (step : MinerStep setup before action after) (pointer : Nat) :
    ¬ Drops before after pointer := by
  rintro ⟨id, dropped⟩
  exact not_drop_of_same (by rw [step.frame.1]) pointer dropped

/-- The step is that of a call that returns early. -/
theorem NodeStep.other_of_drops (step : NodeStep setup before action after) {pointer : Nat}
    (dropped : Drops before after pointer) : action = .other := by
  cases step with
  | miner step => exact absurd dropped (step.not_drops pointer)
  | peer id step =>
    have dropped := (step.drops_iff pointer).mp dropped
    cases step with
    | write pc | increment pc | destroyPeer pc =>
      rw [pc] at dropped
      cases dropped
    | _ => rfl

theorem MinerStep.abandoned_iff (wellFormed : WellFormed before) (live : Live before.cell)
    (step : MinerStep setup before action after) (pointer : Nat) :
    Abandoned after pointer ↔
      Abandoned before pointer ∨ Supersedes before action pointer ∨ Drops before after pointer := by
  obtain ⟨peers, fresh, -, -⟩ := step.frame
  obtain ⟨notPublished, notDiscarded⟩ := step.spares pointer
  have unused := unused_iff_of_seen live (step.seen wellFormed) pointer
  have neither : ¬ Supersedes before action pointer := by
    rintro ⟨⟨peerBlockchain, rfl⟩, -, -⟩
    cases step
  have none := step.not_drops pointer
  simp only [notPublished, notDiscarded, neither, ne_eq, not_false_eq_true, and_true, or_false] at unused
  simp only [neither, none, or_false]
  constructor
  · rintro ⟨allocated, free, noCandidate⟩
    exact ⟨fresh ▸ allocated, unused.mp free, peers ▸ noCandidate⟩
  · rintro ⟨allocated, free, noCandidate⟩
    exact ⟨fresh.symm ▸ allocated, unused.mpr free, peers.symm ▸ noCandidate⟩

/-- Forwards the cases are those of what the call does with its chain. -/
theorem PeerStep.abandoned_before (live : Live before.cell) (wellFormed : WellFormed before)
    (step : PeerStep setup id before action after) {pointer : Nat} (abandoned : Abandoned after pointer) :
    Abandoned before pointer ∨ Supersedes before action pointer ∨ Drops before after pointer := by
  obtain ⟨allocated, unused, noCandidate⟩ := abandoned
  obtain ⟨free, notPublished, notDiscarded⟩ | supersedes :=
    (unused_iff_of_seen live (step.seen wellFormed) pointer).mp unused
  · have elsewhere (other : Nat) (different : other ≠ id) : (before.peers other).candidate ≠ some pointer := by
      rw [← step.frame.2.2.2 other different]
      exact noCandidate other
    have all (here : (before.peers id).candidate ≠ some pointer) (other : Nat) :
        (before.peers other).candidate ≠ some pointer := by
      by_cases same : other = id
      · exact same ▸ here
      · exact elsewhere other same
    have own := noCandidate id
    have handling := step.handling
    generalize action.event = event at handling notPublished notDiscarded
    cases handling with
    | keeps same fresh _ => exact .inl ⟨fresh ▸ allocated, free, all (same ▸ own)⟩
    | decodes nothing fresh more =>
      rw [fresh] at own
      have different : before.fresh ≠ pointer := fun same => own (congrArg some same)
      exact .inl ⟨by omega, free, all (by simp [nothing])⟩
    | @gives event given held nothing fresh gives =>
      refine .inl ⟨fresh ▸ allocated, free, all ?_⟩
      rw [held]
      rintro ⟨⟩
      obtain rfl | rfl := gives
      · exact notPublished rfl
      · exact notDiscarded rfl
    | @drops left dropped fresh =>
      by_cases same : left = pointer
      · exact .inr (.inr ⟨id, same ▸ dropped⟩)
      · refine .inl ⟨fresh ▸ allocated, free, all ?_⟩
        rw [dropped.held]
        exact fun held => same (Option.some.inj held)
  · exact .inr (.inl supersedes)

theorem PeerStep.abandoned_after (live : Live before.cell) (wellFormed : WellFormed before)
    (step : PeerStep setup id before action after) {pointer : Nat}
    (cause : Abandoned before pointer ∨ Supersedes before action pointer ∨ Drops before after pointer) :
    Abandoned after pointer := by
  have unused := unused_iff_of_seen live (step.seen wellFormed) pointer
  have more := step.frame.2.2.1
  obtain ⟨allocated, free, noCandidate⟩ | supersedes | dropped := cause
  · have stays (given : action.event = some (.publish pointer) ∨ action.event = some (.discard pointer)) : False :=
      noCandidate id (step.gives pointer given)
    exact ⟨by omega, unused.mpr (.inl ⟨free, fun same => stays (.inl same), fun same => stays (.inr same)⟩),
      step.noCandidate allocated noCandidate⟩
  · have allocated : pointer < before.fresh := by
      rw [supersedes.2.1]
      exact wellFormed.published_lt
    refine ⟨by omega, unused.mpr (.inr supersedes), step.noCandidate allocated fun other held => ?_⟩
    exact (wellFormed.owned other pointer held).2.notPublished supersedes.2.1
  · have gone := (step.drops_iff pointer).mp dropped
    obtain ⟨allocated, free⟩ := wellFormed.owned id pointer gone.held
    obtain rfl : action = .other := (NodeStep.peer id step).other_of_drops dropped
    refine ⟨by omega, unused.mpr (.inl ⟨free, by simp [Action.event], by simp [Action.event]⟩), fun other => ?_⟩
    by_cases same : other = id
    · simp [same, gone.lost]
    · rw [step.frame.2.2.2 other same]
      exact fun also => same (wellFormed.apart other id pointer also gone.held)

/-- A step abandons the chain that it supersedes or drops; and what is abandoned stays so. -/
theorem NodeStep.abandoned_iff (wellFormed : WellFormed before) (live : Live before.cell)
    (step : NodeStep setup before action after) (pointer : Nat) :
    Abandoned after pointer ↔
      Abandoned before pointer ∨ Supersedes before action pointer ∨ Drops before after pointer := by
  cases step with
  | miner step => exact step.abandoned_iff wellFormed live pointer
  | peer id step => exact ⟨step.abandoned_before live wellFormed, step.abandoned_after live wellFormed⟩

end Steps

/-! ## Counting -/

section Ledger

variable {setup : Setup PKey} {first before after last : Node} {actions : List Action} {action : Action}

/-- What has been published is counted, and no call has it. -/
structure Custody (published : List Nat) (node : Node) : Prop where
  wellFormed : WellFormed node
  live : Live node.cell
  current : node.blockchain ∈ published
  counted : ∀ pointer ∈ published, pointer < node.fresh ∧ ∀ id, (node.peers id).candidate ≠ some pointer

/-- The chains that were published and are nobody's now. -/
def Ledger (first : Node) (actions : List Action) (node : Node) : Prop :=
  ∃ superseded : Finset Nat,
    (∀ pointer, pointer ∈ superseded ↔ Abandoned node pointer ∧ pointer ∈ publishedSoFar first actions) ∧
      superseded.card + node.cell.behind + pointerReads actions = (publishedSoFar first actions).length

theorem publishedSoFar_snoc (first : Node) (actions : List Action) (action : Action) :
    publishedSoFar first (actions ++ [action]) = publishedSoFar first actions ++ action.written.toList := by
  cases shown : action.written <;> simp [publishedSoFar, shown]

theorem pointerReads_snoc (actions : List Action) (action : Action) :
    pointerReads (actions ++ [action]) = pointerReads actions + pointerReads [action] := by
  simp [pointerReads]

/-- The miner has not got what is published, and whether it comes to that. -/
theorem NodeStep.behind (wellFormed : WellFormed before) (live : Live before.cell)
    (step : NodeStep setup before action after) :
    after.cell.behind + pointerReads [action] + action.written.toList.length * before.cell.behind =
      before.cell.behind + action.written.toList.length := by
  have seen := step.seen wellFormed
  cases action with
  | append | other =>
    simp only [Action.event, Matches] at seen
    simp [seen, pointerReads, Action.written]
  | _ =>
    have counts := live.behind_of_step seen
    simpa [pointerReads, Action.written, Event.follows, Event.publishes] using counts

theorem NodeStep.blockchain_eq (wellFormed : WellFormed before) (step : NodeStep setup before action after) :
    after.blockchain = action.written.getD before.blockchain := by
  have seen := step.seen wellFormed
  cases action with
  | append | other =>
    simp only [Action.event, Matches] at seen
    exact congrArg Cell.published seen
  | _ => exact Step.published seen

/-- What is published is no call's any more. -/
theorem NodeStep.noCandidate (wellFormed : WellFormed before) (step : NodeStep setup before action after)
    {pointer : Nat} (cause : action = .write pointer ∨
      pointer < before.fresh ∧ ∀ id, (before.peers id).candidate ≠ some pointer) :
    pointer < after.fresh ∧ ∀ id, (after.peers id).candidate ≠ some pointer := by
  cases step with
  | miner step =>
    obtain ⟨peers, fresh, -, -⟩ := step.frame
    obtain rfl | free := cause
    · cases step
    · rw [peers, fresh]
      exact free
  | peer id step =>
    have more := step.frame.2.2.1
    obtain rfl | ⟨allocated, free⟩ := cause
    · have held := step.gives pointer (.inl rfl)
      have allocated := (wellFormed.owned id pointer held).1
      refine ⟨by omega, fun other => ?_⟩
      by_cases same : other = id
      · rw [same]
        intro still
        obtain ⟨-, notPublished, -⟩ | ⟨-, -, silent⟩ := step.candidate pointer still
        · exact notPublished rfl
        · cases silent
      · rw [step.frame.2.2.2 other same]
        exact fun also => same (wellFormed.apart other id pointer also held)
    · exact ⟨by omega, step.noCandidate allocated free⟩

theorem Custody.step (custody : Custody (publishedSoFar first actions) before)
    (allowed : SwitchesAfterFirstRead before action)
    (step : NodeStep setup before action after) :
    Custody (publishedSoFar first (actions ++ [action])) after := by
  refine ⟨step.wellFormed custody.wellFormed, step.live custody.wellFormed custody.live allowed, ?_, ?_⟩
  · rw [step.blockchain_eq custody.wellFormed, publishedSoFar_snoc]
    cases shown : action.written with
    | none => simpa using custody.current
    | some pointer => simp
  · intro pointer published
    rw [publishedSoFar_snoc, List.mem_append] at published
    obtain earlier | now := published
    · exact step.noCandidate custody.wellFormed (.inr (custody.counted pointer earlier))
    · refine step.noCandidate custody.wellFormed (.inl ?_)
      cases action with
      | write peerBlockchain => simpa [Action.written, eq_comm] using now
      | _ => simp [Action.written] at now

/-- A chain that was published comes to be nobody's by being superseded. -/
theorem Custody.abandoned_iff (custody : Custody (publishedSoFar first actions) before)
    (step : NodeStep setup before action after) (pointer : Nat) :
    (Abandoned after pointer ∧ pointer ∈ publishedSoFar first (actions ++ [action])) ↔
      (Abandoned before pointer ∧ pointer ∈ publishedSoFar first actions) ∨ Supersedes before action pointer := by
  rw [step.abandoned_iff custody.wellFormed custody.live, publishedSoFar_snoc, List.mem_append]
  have new (written : pointer ∈ action.written.toList) : ∃ id, (before.peers id).candidate = some pointer := by
    cases action with
    | write peerBlockchain =>
      obtain rfl : pointer = peerBlockchain := by simpa [Action.written] using written
      cases step with
      | miner step => cases step
      | peer id step => exact ⟨id, step.gives pointer (.inl rfl)⟩
    | _ => simp [Action.written] at written
  constructor
  · rintro ⟨abandoned | supersedes | dropped, published | written⟩
    · exact .inl ⟨abandoned, published⟩
    · obtain ⟨id, held⟩ := new written
      exact absurd held (abandoned.noCandidate id)
    · exact .inr supersedes
    · exact .inr supersedes
    · obtain ⟨id, gone⟩ := dropped
      exact absurd gone.held ((custody.counted pointer published).2 id)
    · rw [step.other_of_drops dropped] at written
      simp [Action.written] at written
  · rintro (⟨abandoned, published⟩ | supersedes)
    · exact ⟨.inl abandoned, .inl published⟩
    · refine ⟨.inr (.inl supersedes), .inl ?_⟩
      rw [supersedes.2.1]
      exact custody.current

/-- One step of the ledger: what a write supersedes is entered. -/
theorem Ledger.step (custody : Custody (publishedSoFar first actions) before) (ledger : Ledger first actions before)
    (step : NodeStep setup before action after) : Ledger first (actions ++ [action]) after := by
  obtain ⟨superseded, members, counts⟩ := ledger
  have behind := step.behind custody.wellFormed custody.live
  have length : (publishedSoFar first (actions ++ [action])).length =
      (publishedSoFar first actions).length + action.written.toList.length := by
    rw [publishedSoFar_snoc, List.length_append]
  have reads := pointerReads_snoc actions action
  by_cases supersedes : Supersedes before action before.blockchain
  · -- the write comes while the miner is behind
    have one : before.cell.behind = 1 := if_neg supersedes.2.2
    obtain ⟨peerBlockchain, rfl⟩ := supersedes.1
    have new : before.blockchain ∉ superseded := fun member =>
      ((members _).mp member).1.unused.notPublished rfl
    refine ⟨insert before.blockchain superseded, fun pointer => ?_, ?_⟩
    · rw [custody.abandoned_iff step, Finset.mem_insert, members]
      constructor
      · rintro (rfl | earlier)
        · exact .inr supersedes
        · exact .inl earlier
      · rintro (earlier | now)
        · exact .inr earlier
        · exact .inl now.2.1
    · rw [Finset.card_insert_of_notMem new, reads, length]
      simp only [one, Action.written, Option.toList_some, List.length_singleton] at behind ⊢
      omega
  · have none (pointer : Nat) : ¬ Supersedes before action pointer := by
      intro now
      obtain rfl := now.2.1
      exact supersedes now
    refine ⟨superseded, fun pointer => ?_, ?_⟩
    · rw [custody.abandoned_iff step, members]
      simp [none pointer]
    · rw [reads, length]
      have nothing : action.written.toList.length * before.cell.behind = 0 := by
        cases action with
        | write peerBlockchain =>
          have current : before.miner.blockchain = some before.blockchain := by
            by_contra behind
            exact supersedes ⟨⟨peerBlockchain, rfl⟩, rfl, behind⟩
          have zero : before.cell.behind = 0 := if_pos current
          rw [zero, Nat.mul_zero]
        | _ => simp [Action.written]
      omega

/-- The chain of `main` is the only one. -/
structure Alone (node : Node) : Prop extends Booting node where
  inUse : node.blockchain < node.fresh
  only : ∀ pointer, pointer < node.fresh → pointer = node.blockchain

theorem Alone.custody (alone : Alone first) : Custody (publishedSoFar first []) first where
  wellFormed := alone.toQuiet.wellFormed
  live := alone.toBooting.live
  current := by simp [publishedSoFar]
  counted pointer published := by
    obtain rfl : pointer = first.blockchain := by simpa [publishedSoFar] using published
    exact ⟨alone.inUse, fun id => by simp [alone.idle id, PeerPc.candidate]⟩

theorem Alone.ledger (alone : Alone first) : Ledger first [] first := by
  refine ⟨∅, fun pointer => ?_, ?_⟩
  · simp only [Finset.notMem_empty, false_iff, not_and]
    intro abandoned
    exact absurd (alone.only pointer abandoned.allocated) abandoned.unused.notPublished
  · have behind : first.cell.behind = 1 := if_neg (by simp [Node.cell, alone.nothing])
    simp [behind, pointerReads, publishedSoFar]

/-- A superseded chain is forgotten or the one that the search has read. -/
theorem ledger_split {superseded : Finset Nat} {node : Node} {published : List Nat}
    (members : ∀ pointer, pointer ∈ superseded ↔ Abandoned node pointer ∧ pointer ∈ published) :
    {pointer | Forgotten node pointer ∧ pointer ∈ published}.ncard +
      {pointer | Abandoned node pointer ∧ pointer ∈ published ∧ node.miner.pc.searched = some pointer}.ncard =
        superseded.card := by
  have forgotten : {pointer | Forgotten node pointer ∧ pointer ∈ published} =
      (superseded : Set Nat) \ {pointer | node.miner.pc.searched = some pointer} := by
    ext pointer
    simp only [Set.mem_ofPred_eq, Set.mem_sdiff, Finset.mem_coe, members, Forgotten]
    tauto
  have searched : {pointer | Abandoned node pointer ∧ pointer ∈ published ∧
      node.miner.pc.searched = some pointer} =
        (superseded : Set Nat) ∩ {pointer | node.miner.pc.searched = some pointer} := by
    ext pointer
    simp only [Set.mem_ofPred_eq, Set.mem_inter_iff, Finset.mem_coe, members, and_assoc]
  rw [forgotten, searched, Nat.add_comm, Set.ncard_inter_add_ncard_sdiff_eq_ncard _ _ superseded.finite_toSet,
    Set.ncard_coe_finset]

theorem custody_of_run (alone : Alone first)
    (run : Run (Guarded (NodeStep setup) SwitchesAfterFirstRead) first actions last) :
    Custody (publishedSoFar first actions) last ∧ Ledger first actions last :=
  run.invariantAlong (fun sofar node => Custody (publishedSoFar first sofar) node ∧ Ledger first sofar node)
    ⟨alone.custody, alone.ledger⟩ fun _ _ _ _ ⟨custody, ledger⟩ taken =>
      ⟨custody.step taken.1 taken.2, ledger.step custody taken.2⟩

/-- What is abandoned stays so. -/
theorem Abandoned.lasts {pointer : Nat} (abandoned : Abandoned before pointer) (wellFormed : WellFormed before)
    (live : Live before.cell)
    (run : Run (Guarded (NodeStep setup) SwitchesAfterFirstRead) before actions after) : Abandoned after pointer :=
  (run.invariant (fun node => (WellFormed node ∧ Live node.cell) ∧ Abandoned node pointer)
    ⟨⟨wellFormed, live⟩, abandoned⟩ fun _ _ _ ⟨⟨wellFormed, live⟩, abandoned⟩ taken =>
      ⟨⟨taken.2.wellFormed wellFormed, taken.2.live wellFormed live taken.1⟩,
        (taken.2.abandoned_iff wellFormed live pointer).mpr (.inl abandoned)⟩).2

/-- A chain that was never published and is nobody's was dropped at some step. -/
theorem dropped_of_abandoned {pointer : Nat} (alone : Alone first)
    (run : Run (Guarded (NodeStep setup) SwitchesAfterFirstRead) first actions last)
    (abandoned : Abandoned last pointer) (unpublished : pointer ∉ publishedSoFar first actions) :
    ∃ earlier later before after, actions = earlier ++ Action.other :: later ∧
      Run (Guarded (NodeStep setup) SwitchesAfterFirstRead) first earlier before ∧ Drops before after pointer ∧
      Run (Guarded (NodeStep setup) SwitchesAfterFirstRead) after later last := by
  induction run with
  | start => exact absurd (alone.only pointer abandoned.allocated) abandoned.unused.notPublished
  | @next middle last actions action run taken ih =>
    obtain ⟨custody, -⟩ := custody_of_run alone run
    rw [publishedSoFar_snoc, List.mem_append, not_or] at unpublished
    obtain abandoned | supersedes | dropped :=
      (taken.2.abandoned_iff custody.wellFormed custody.live pointer).mp abandoned
    · obtain ⟨earlier, later, before, after, rfl, upTo, dropped, rest⟩ := ih abandoned unpublished.1
      exact ⟨earlier, later ++ [action], before, after, by simp, upTo, dropped, .next rest taken⟩
    · rw [supersedes.2.1] at unpublished
      exact absurd custody.current unpublished.1
    · obtain rfl := taken.2.other_of_drops dropped
      exact ⟨actions, [], middle, last, rfl, run, dropped, .start⟩

/-- Of the chains that were published no thread knows any more: all of them, but one for each time
`mine_blocks` has read the pointer, the published one if it has not read that, and the one that a
running search has read if that is superseded.  Other chains that `blockchain_verify` has judged are
nobody's only where the call that had one returned early, for the mutex or for its answer.  None of
them is ever destroyed. -/
theorem superseded_chains_stay (setup : Setup PKey) (first last : Node) (actions : List Action) (alone : Alone first)
    (run : Run (Guarded (NodeStep setup) SwitchesAfterFirstRead) first actions last) :
    {pointer | Forgotten last pointer ∧ pointer ∈ publishedSoFar first actions}.ncard +
        {pointer | Abandoned last pointer ∧ pointer ∈ publishedSoFar first actions ∧
          last.miner.pc.searched = some pointer}.ncard +
        last.cell.behind + pointerReads actions = (publishedSoFar first actions).length ∧
      (∀ pointer, Abandoned last pointer → pointer ∉ publishedSoFar first actions →
        ∃ earlier later before after, actions = earlier ++ Action.other :: later ∧
          Run (Guarded (NodeStep setup) SwitchesAfterFirstRead) first earlier before ∧ Drops before after pointer ∧
          Run (Guarded (NodeStep setup) SwitchesAfterFirstRead) after later last) ∧
      ∀ pointer, Abandoned last pointer → ∀ more final,
        Run (Guarded (NodeStep setup) SwitchesAfterFirstRead) last more final → pointer ∉ final.destroyed := by
  obtain ⟨custody, superseded, members, counts⟩ := custody_of_run alone run
  refine ⟨?_, fun pointer => dropped_of_abandoned alone run, ?_⟩
  · rw [ledger_split members]
    exact counts
  · intro pointer abandoned more final later
    exact (abandoned.lasts custody.wellFormed custody.live later).unused.notRetired

end Ledger

theorem sampleBooting_alone : Alone sampleBooting where
  toBooting := sampleBooting_booting
  inUse := Nat.zero_lt_one
  only _ allocated := Nat.lt_one_iff.mp allocated

/-- Two switches before the miner looks again: the chain of the first one stays for ever. -/
theorem superseded_chains_stay_sample :
    ∃ actions last, Run (Guarded (NodeStep sampleSetup) SwitchesAfterFirstRead) sampleBooting actions last ∧
      {pointer | Forgotten last pointer ∧ pointer ∈ publishedSoFar sampleBooting actions}.ncard = 1 := by
  have allowed (node : Node) (action : Action) (other : action ≠ .increment) (_ : action ≠ .append) :
      SwitchesAfterFirstRead node action := by
    cases action with
    | increment => exact absurd rfl other
    | _ => exact trivial
  have allowedThere (other : Node) (action : Action) (same : other.miner = sampleMining.miner) :
      SwitchesAfterFirstRead other action := by
    cases action with
    | increment =>
      rw [SwitchesAfterFirstRead, same]
      rfl
    | _ => exact trivial
  have once := sample_switch 1 allowedThere rfl rfl rfl Nat.zero_lt_one rfl (Nat.lt_succ_self _)
  have twice : Run (Guarded (NodeStep sampleSetup) SwitchesAfterFirstRead)
      (sampleMining.switchTo (sampleChain 1)) _ _ :=
    sample_switch 2 allowedThere rfl rfl rfl (Nat.lt_succ_self _) rfl (Nat.lt_succ_self _)
  have run := ((sampleEntered_run allowed).trans once).trans twice
  obtain ⟨counts, -, -⟩ := superseded_chains_stay sampleSetup _ _ _ sampleBooting_alone run
  refine ⟨_, _, run, ?_⟩
  have searched : ((sampleMining.switchTo (sampleChain 1)).switchTo (sampleChain 2)).miner.pc.searched = none := rfl
  have behind : ((sampleMining.switchTo (sampleChain 1)).switchTo (sampleChain 2)).cell.behind = 1 := rfl
  simp only [searched, reduceCtorEq, and_false, Set.ofPred_false, Set.ncard_empty] at counts
  have counted : _ + 0 + 1 + 1 = 3 := behind ▸ counts
  omega

end LeoCoin
