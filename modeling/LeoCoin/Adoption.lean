import LeoCoin.Longest

/-! # Only valid chains

A node that starts with a valid chain only ever publishes valid chains of the same
difficulty, whatever bytes its peers send.  The invariant follows both chains that can
grow or be replaced, the published one and the miner's, since the two may have diverged,
and what the miner prepares: a block that fits on its own chain, mined at the difficulty
of the chain that was published when the search began.
-/

namespace LeoCoin

open Library.Publication Library.Transition

variable {PKey : Type}

/-- A valid chain of the given difficulty. -/
structure ValidAt (platform : Platform PKey) (difficulty : UInt64) (blockchain : Blockchain) : Prop where
  valid : ValidChain platform blockchain
  difficulty : blockchain.numLeadingZeroBytesRequiredInBlockHash = difficulty

/-- Apart from its proof of work, the block may come next on the chain. -/
structure FitsOn (platform : Platform PKey) (blockchain : Blockchain) (block : Block) : Prop where
  linked : ∃ last, blockchain.blockList.getLast? = some last ∧
    block.previousBlockHash = blockHash platform last
  minted : ∃ minting others, block.transactionList = minting :: others ∧ Mints minting
  signed : ∀ transaction ∈ block.transactionList,
    transactionVerifySignature platform transaction = .ok true

theorem nextBlock_fitsOn {setup : Setup PKey} {mintedAt createdAt : Int64} {blockchain : Blockchain}
    {block : Block} (signs : Signs setup.platform setup.minerPublicKey setup.minerPrivateKey)
    (built : nextBlock setup mintedAt createdAt blockchain = .ok block) :
    FitsOn setup.platform blockchain block := by
  rw [nextBlock] at built
  cases last : blockchain.blockList.getLast? with
  | none => simp [last] at built
  | some previousBlock =>
    cases created : transactionCreate setup.platform mintedAt setup.minerPublicKey setup.minerPublicKey
        amountGeneratedDuringMinting setup.minerPrivateKey with
    | error code => simp [last, created] at built
    | ok mintCoinTransaction =>
      simp only [last, created, Except.ok.injEq] at built
      subst built
      obtain ⟨sender, recipient, amount⟩ := transaction_create_fields created
      have toSelf : mintCoinTransaction.senderPublicKey = mintCoinTransaction.recipientPublicKey := by
        rw [sender, recipient]
      refine ⟨⟨previousBlock, last, rfl⟩, ⟨mintCoinTransaction, [], rfl, amount, toSelf⟩, ?_⟩
      -- the minting transaction is the only one, and the miner has just signed it
      intro transaction member
      simp only [blockCreate, List.mem_singleton] at member
      rw [member]
      exact signs _ _ _ _ created

theorem ValidAt.append {platform : Platform PKey} {difficulty : UInt64} {blockchain longer : Blockchain}
    {block : Block} (chain : ValidAt platform difficulty blockchain) (fits : FitsOn platform blockchain block)
    (work : StartsWithZeros difficulty.toNat (blockHash platform block))
    (added : blockchainAddBlock blockchain block = .ok longer) : ValidAt platform difficulty longer := by
  obtain ⟨items, sameDifficulty⟩ := blockchain_add_block_ok added
  obtain ⟨last, isLast, linked⟩ := fits.linked
  refine ⟨?_, sameDifficulty.trans chain.difficulty⟩
  cases chain.valid with
  | inl empty =>
    rw [empty] at isLast
    cases isLast
  | inr nonempty =>
    obtain ⟨genesis, rest, split, validGenesis, chained⟩ := nonempty
    refine .inr ⟨genesis, rest ++ [block], by rw [items, split]; rfl, validGenesis, ?_⟩
    rw [sameDifficulty, ← List.cons_append, List.isChain_append]
    refine ⟨chained, .singleton block, ?_⟩
    -- the one new link is from the last block of the chain to the new one
    intro previous isPrevious next isNext
    rw [← split, isLast, Option.mem_some] at isPrevious
    simp only [List.head?_cons, Option.mem_some] at isNext
    subst isPrevious isNext
    rw [chain.difficulty]
    exact ⟨work, linked, fits.minted, fits.signed⟩

theorem receiveBlockchain_valid {platform : Platform PKey} {path : ReceivePath} {environment : Environment}
    {stream : Stream} {header : CommandHeader} {peerBlockchain : Blockchain}
    (received : receiveBlockchain platform path environment stream = .ok (header, peerBlockchain, true)) :
    (blockchainVerify platform peerBlockchain).Accepts := by
  rw [receiveBlockchain] at received
  dsimp only at received
  -- the exits before the verdict
  split at received
  · cases received
  split at received
  · cases received
  split at received
  · cases received
  split at received
  · cases received
  split at received
  · cases received
  · next succeeded =>
    simp only [Except.ok.injEq, Prod.mk.injEq] at received
    obtain ⟨-, rfl, verdict⟩ := received
    refine ⟨not_not.mp succeeded, ?_⟩
    cases valid : (blockchainVerify platform _).isValidBlockchain with
    | none => simp [valid] at verdict
    | some isValid => simpa [valid] using verdict

/-! ## The invariant -/

/-- A block that fits on the miner's own chain. -/
def FitsOnOwn (platform : Platform PKey) (node : Node) (block : Block) : Prop :=
  ∃ own, node.miner.blockchain = some own ∧ FitsOn platform (node.chains own) block

/-- A chain whose difficulty the search may go by; no call is going to destroy it. -/
def HasDifficulty (difficulty : UInt64) (node : Node) (blockchain : Nat) : Prop :=
  blockchain < node.fresh ∧ (∀ id, (node.peers id).candidate ≠ some blockchain) ∧
    (node.chains blockchain).numLeadingZeroBytesRequiredInBlockHash = difficulty

/-- What the miner has prepared, by where it stands. -/
def Prepared (platform : Platform PKey) (difficulty : UInt64) (node : Node) : MinerPc → Prop
  | .mineLock block => FitsOnOwn platform node block
  | .mineRead block => FitsOnOwn platform node block
  | .mineUnlock block blockchain => FitsOnOwn platform node block ∧ HasDifficulty difficulty node blockchain
  | .searchStop block blockchain _ => FitsOnOwn platform node block ∧ HasDifficulty difficulty node blockchain
  | .searchVersion block blockchain _ =>
    FitsOnOwn platform node block ∧ HasDifficulty difficulty node blockchain
  | .searchHash block blockchain _ => FitsOnOwn platform node block ∧ HasDifficulty difficulty node blockchain
  | .append nextBlock => FitsOnOwn platform node nextBlock ∧
      StartsWithZeros difficulty.toNat (blockHash platform nextBlock)
  | _ => True

/-- What a consensus call knows about the chain it decoded. -/
def Checked (platform : Platform PKey) (difficulty : UInt64) (chains : Nat → Blockchain) : PeerPc → Prop
  | .received _ peerBlockchain isValid =>
    isValid = true → (blockchainVerify platform (chains peerBlockchain)).Accepts
  | .locked _ peerBlockchain isValid =>
    isValid = true → (blockchainVerify platform (chains peerBlockchain)).Accepts
  | .measured _ peerBlockchain _ => (blockchainVerify platform (chains peerBlockchain)).Accepts
  | .writing _ peerBlockchain => ValidAt platform difficulty (chains peerBlockchain)
  | _ => True

structure ValidNode (platform : Platform PKey) (difficulty : UInt64) (node : Node) : Prop where
  wellFormed : WellFormed node
  coherent : Coherent node.cell
  entered : node.miner.pc.entered = true
  published : ValidAt platform difficulty (node.chains node.blockchain)
  own : ∀ pointer, node.miner.blockchain = some pointer → ValidAt platform difficulty (node.chains pointer)
  prepared : Prepared platform difficulty node node.miner.pc
  checked : ∀ id, Checked platform difficulty node.chains (node.peers id)

theorem Checked.congr {platform : Platform PKey} {difficulty : UInt64} {left right : Nat → Blockchain}
    {pc : PeerPc} (checked : Checked platform difficulty left pc)
    (same : ∀ pointer, pc.candidate = some pointer → right pointer = left pointer) :
    Checked platform difficulty right pc := by
  cases pc with
  | received side peerBlockchain isValid | locked side peerBlockchain isValid
  | measured side peerBlockchain ourLength | writing side peerBlockchain =>
    have kept : right peerBlockchain = left peerBlockchain := same _ rfl
    simpa only [Checked, kept] using checked
  | _ => exact trivial

theorem Prepared.congr {platform : Platform PKey} {difficulty : UInt64} {before after : Node} {pc : MinerPc}
    (prepared : Prepared platform difficulty before pc) (miner : after.miner.blockchain = before.miner.blockchain)
    (same : ∀ own, before.miner.blockchain = some own → after.chains own = before.chains own)
    (has : ∀ blockchain, HasDifficulty difficulty before blockchain → HasDifficulty difficulty after blockchain) :
    Prepared platform difficulty after pc := by
  have fits {block : Block} (fitsOn : FitsOnOwn platform before block) : FitsOnOwn platform after block := by
    obtain ⟨own, follows, fitsOn⟩ := fitsOn
    refine ⟨own, miner.trans follows, ?_⟩
    rw [same own follows]
    exact fitsOn
  cases pc with
  | mineLock block | mineRead block => exact fits prepared
  | mineUnlock block blockchain | searchStop block blockchain newProof
  | searchVersion block blockchain newProof | searchHash block blockchain newProof =>
    exact ⟨fits prepared.1, has _ prepared.2⟩
  | append block => exact ⟨fits prepared.1, prepared.2⟩
  | _ => exact trivial

theorem Prepared.afterLock {platform : Platform PKey} {difficulty : UInt64} {node : Node} {pc next : MinerPc}
    (prepared : Prepared platform difficulty node pc) (leads : pc.afterLock = some next) :
    Prepared platform difficulty node next := by
  cases pc with
  | entryLock | resyncLock =>
    cases leads
    exact trivial
  | mineLock block =>
    cases leads
    exact prepared
  | _ => cases leads

theorem Prepared.afterUnlock {platform : Platform PKey} {difficulty : UInt64} {node : Node} {pc next : MinerPc}
    (prepared : Prepared platform difficulty node pc) (leads : pc.afterUnlock = some next) :
    Prepared platform difficulty node next := by
  cases pc with
  | entryUnlock | resyncUnlock oldBlockchain =>
    cases leads
    exact trivial
  | mineUnlock block blockchain =>
    cases leads
    exact prepared
  | _ => cases leads

/-! ## Every step keeps it -/

section Steps

variable {setup : Setup PKey} {difficulty : UInt64} {before after : Node} {action : Action}

/-- The block that the miner has prepared and mined makes its own chain longer, and the
published chain too if the two are one. -/
theorem ValidNode.append {platform : Platform PKey} {own : Nat} {block : Block} {longer : Blockchain}
    (valid : ValidNode platform difficulty before) (pc : before.miner.pc = .append block)
    (follows : before.miner.blockchain = some own)
    (added : blockchainAddBlock (before.chains own) block = .ok longer)
    (wellFormed : WellFormed { before.setMinerPc (.loopHead .success) with
      chains := Function.update before.chains own longer })
    (coherent : Coherent { before.setMinerPc (.loopHead .success) with
      chains := Function.update before.chains own longer }.cell) :
    ValidNode platform difficulty { before.setMinerPc (.loopHead .success) with
      chains := Function.update before.chains own longer } := by
  have prepared := valid.prepared
  rw [pc] at prepared
  obtain ⟨⟨other, follows', fits⟩, work⟩ := prepared
  -- its own chain is still the one it built the block for
  rw [follows] at follows'
  cases follows'
  have grown := (valid.own own follows).append fits work added
  have updated : Function.update before.chains own longer own = longer := Function.update_self _ _ _
  refine ⟨wellFormed, coherent, rfl, ?_, ?_, trivial, ?_⟩
  · show ValidAt platform difficulty (Function.update before.chains own longer before.blockchain)
    by_cases same : before.blockchain = own
    · rw [same, updated]
      exact grown
    · rw [Function.update_of_ne same]
      exact valid.published
  · intro pointer followed
    have followed : before.miner.blockchain = some pointer := followed
    rw [follows] at followed
    cases followed
    show ValidAt platform difficulty (Function.update before.chains own longer own)
    rw [updated]
    exact grown
  · intro id
    apply (valid.checked id).congr
    intro pointer owns
    exact Function.update_of_ne (valid.wellFormed.candidate_ne_own owns follows) _ _

theorem MinerStep.validNode (small : difficulty.toNat ≤ 32)
    (signs : Signs setup.platform setup.minerPublicKey setup.minerPrivateKey)
    (valid : ValidNode setup.platform difficulty before) (step : MinerStep setup before action after) :
    ValidNode setup.platform difficulty after := by
  have wellFormed := step.wellFormed valid.wellFormed
  have taken : NodeStep setup before action after := .miner step
  have coherent := taken.coherent valid.wellFormed valid.coherent step.later
  have entered := step.entered valid.entered
  have prepared := valid.prepared
  cases step with
  | storeVersion pc | launch pc | enter pc | leave pc | upToDate pc _ | notice pc _
  | loadVersion pc | recordVersion pc | signal pc | verified pc _ _ | rejected pc _ _
  | createFails pc _ _ | exhausted pc _ | stopped pc _ | superseded pc _ | appendFails pc =>
    exact ⟨wellFormed, coherent, entered, valid.published, valid.own, trivial, valid.checked⟩
  | @destroyOld oldBlockchain pc =>
    -- what is destroyed is neither of the two chains, and no call's
    have spared {pointer : Nat} (kept : before.destroys .destroyOld ≠ some pointer) :
        ((before.setMinerPc .resyncLoad).destroyBlockchain oldBlockchain).chains pointer = before.chains pointer := by
      refine Node.destroyBlockchain_chains _ ?_
      rintro rfl
      exact kept (by rw [Node.destroys, pc])
    refine ⟨wellFormed, coherent, entered, ?_, fun pointer follows => ?_, trivial, fun id => ?_⟩
    · exact (spared (taken.keeps_published valid.wellFormed valid.coherent)).symm ▸ valid.published
    · exact (spared (taken.keeps_own valid.wellFormed valid.coherent follows)).symm ▸ valid.own pointer follows
    · exact (valid.checked id).congr fun pointer owns =>
        spared (taken.keeps_candidate valid.wellFormed valid.coherent owns)
  | readFirst pc | readAgain pc _ =>
    refine ⟨wellFormed, coherent, entered, valid.published, ?_, trivial, valid.checked⟩
    intro pointer read
    cases read
    exact valid.published
  | lock leads free =>
    exact ⟨wellFormed, coherent, entered, valid.published, valid.own, prepared.afterLock leads, valid.checked⟩
  | unlock leads =>
    exact ⟨wellFormed, coherent, entered, valid.published, valid.own, prepared.afterUnlock leads, valid.checked⟩
  | createBlock pc follows built =>
    exact ⟨wellFormed, coherent, entered, valid.published, valid.own, ⟨_, follows, nextBlock_fitsOn signs built⟩,
      valid.checked⟩
  | mineRead pc =>
    rw [pc] at prepared
    have unclaimed (id : Nat) : (before.peers id).candidate ≠ some before.blockchain :=
      fun owns => (valid.wellFormed.owned id _ owns).2.notPublished rfl
    exact ⟨wellFormed, coherent, entered, valid.published, valid.own,
      ⟨prepared, valid.wellFormed.published_lt, unclaimed, valid.published.difficulty⟩, valid.checked⟩
  | goOn pc _ | current pc _ | missed pc _ =>
    rw [pc] at prepared
    exact ⟨wellFormed, coherent, entered, valid.published, valid.own, prepared, valid.checked⟩
  | @found block blockchain newProof pc work =>
    rw [pc] at prepared
    obtain ⟨⟨own, follows, fits⟩, _, _, sameDifficulty⟩ := prepared
    -- the search counts zero bytes as the published chain's difficulty asks
    rw [← sameDifficulty] at small
    have enough := (blockchain_is_valid_block_hash_iff small).mp work
    rw [sameDifficulty] at enough
    exact ⟨wellFormed, coherent, entered, valid.published, valid.own,
      ⟨⟨own, follows, fits.linked, fits.minted, fits.signed⟩, enough⟩, valid.checked⟩
  | append pc follows added => exact valid.append pc follows added wellFormed coherent

/-- A decoded chain is put where none was, and what is known about it is what
`blockchain_verify` said. -/
theorem ValidNode.receive {platform : Platform PKey} {id : Nat} {side : Side} {path : ReceivePath}
    {environment : Environment} {stream : Stream} {header : CommandHeader} {peerBlockchain : Blockchain}
    {isValid : Bool} (valid : ValidNode platform difficulty before)
    (received : receiveBlockchain platform path environment stream = .ok (header, peerBlockchain, isValid))
    (wellFormed : WellFormed { before.setPeer id (side.onReceived before.fresh isValid) with
      chains := Function.update before.chains before.fresh peerBlockchain
      fresh := before.fresh + 1 })
    (coherent : Coherent { before.setPeer id (side.onReceived before.fresh isValid) with
      chains := Function.update before.chains before.fresh peerBlockchain
      fresh := before.fresh + 1 }.cell)
    (prepared : Prepared platform difficulty { before.setPeer id (side.onReceived before.fresh isValid) with
      chains := Function.update before.chains before.fresh peerBlockchain
      fresh := before.fresh + 1 } before.miner.pc) :
    ValidNode platform difficulty { before.setPeer id (side.onReceived before.fresh isValid) with
      chains := Function.update before.chains before.fresh peerBlockchain
      fresh := before.fresh + 1 } := by
  have same (pointer : Nat) (used : pointer < before.fresh) :
      Function.update before.chains before.fresh peerBlockchain pointer = before.chains pointer :=
    Function.update_of_ne (Nat.ne_of_lt used) _ _
  refine ⟨wellFormed, coherent, valid.entered, ?_, ?_, prepared, ?_⟩
  · show ValidAt platform difficulty (Function.update before.chains before.fresh peerBlockchain before.blockchain)
    rw [same _ valid.wellFormed.published_lt]
    exact valid.published
  · intro pointer follows
    show ValidAt platform difficulty (Function.update before.chains before.fresh peerBlockchain pointer)
    rw [same _ (valid.wellFormed.own_lt follows)]
    exact valid.own pointer follows
  · intro other
    by_cases sameCall : other = id
    · subst sameCall
      rw [Node.setPeer_peers]
      cases isValid with
      | false => cases side <;> simp [Side.onReceived, Checked]
      | true =>
        have accepted := receiveBlockchain_valid received
        cases side <;> simpa [Side.onReceived, Checked] using accepted
    · show Checked platform difficulty _ (Function.update before.peers id _ other)
      rw [Function.update_of_ne sameCall]
      apply (valid.checked other).congr
      intro pointer owns
      exact same pointer (valid.wellFormed.owned other pointer owns).1

/-- What the miner has prepared does not depend on what the calls do. -/
theorem PeerStep.prepared {platform : Platform PKey} {id : Nat} (valid : ValidNode platform difficulty before)
    (step : PeerStep setup id before action after) : Prepared platform difficulty after before.miner.pc := by
  have taken : NodeStep setup before action after := .peer id step
  refine valid.prepared.congr (by rw [step.frame.1]) (fun own follows => ?_)
    fun blockchain ⟨used, unclaimed, same⟩ => ?_
  · exact step.chains (valid.wellFormed.own_lt follows) (taken.keeps_own valid.wellFormed valid.coherent follows)
  · refine ⟨Nat.lt_of_lt_of_le used step.frame.2.2.1, step.noCandidate used unclaimed, ?_⟩
    rw [step.chains used fun destroyed => unclaimed id (step.destroys destroyed)]
    exact same

theorem PeerStep.validNode {id : Nat} (small : difficulty.toNat ≤ 32)
    (valid : ValidNode setup.platform difficulty before) (step : PeerStep setup id before action after) :
    ValidNode setup.platform difficulty after := by
  have wellFormed := step.wellFormed valid.wellFormed
  have taken : NodeStep setup before action after := .peer id step
  have coherent := taken.coherent valid.wellFormed valid.coherent (.of_entered action valid.entered)
  have entered := valid.entered
  have prepared := step.prepared valid
  have known := valid.checked id
  -- a step that keeps every chain changes what is known about this call's only
  have keeps {pc : PeerPc} (learned : Checked setup.platform difficulty before.chains pc) :
      ∀ other, Checked setup.platform difficulty before.chains (Function.update before.peers id pc other) := by
    intro other
    by_cases same : other = id
    · rw [same, Function.update_self]
      exact learned
    · rw [Function.update_of_ne same]
      exact valid.checked other
  have decided (side : Side) (leftover : Option Nat) :
      Checked setup.platform difficulty before.chains (side.onDecided leftover) := by
    cases side <;> exact trivial
  cases step with
  | request launched pc free | requested pc | giveUp pc | requestedFails pc | lockFails pc | unlockFails pc | reply pc
  | replyFails pc =>
    exact ⟨wellFormed, coherent, entered, valid.published, valid.own, prepared, keeps trivial⟩
  | unlock pc =>
    refine ⟨wellFormed, coherent, entered, valid.published, valid.own, prepared, keeps ?_⟩
    rename_i leftover
    cases leftover <;> exact trivial
  | ignore pc | decline pc _ | increment pc =>
    exact ⟨wellFormed, coherent, entered, valid.published, valid.own, prepared, keeps (decided _ _)⟩
  | lock pc free =>
    rw [pc] at known
    exact ⟨wellFormed, coherent, entered, valid.published, valid.own, prepared, keeps known⟩
  | measure pc =>
    rw [pc] at known
    exact ⟨wellFormed, coherent, entered, valid.published, valid.own, prepared, keeps (known rfl)⟩
  | decide pc longer sameDifficulty =>
    rw [pc] at known
    rw [valid.published.difficulty] at sameDifficulty
    rw [sameDifficulty] at small
    exact ⟨wellFormed, coherent, entered, valid.published, valid.own, prepared,
      keeps ⟨(accepts_iff_validChain small).mp known, sameDifficulty.symm⟩⟩
  | write pc =>
    rw [pc] at known
    exact ⟨wellFormed, coherent, entered, known, valid.own, prepared, keeps trivial⟩
  | receive launched pc received => exact valid.receive received wellFormed coherent prepared
  | @destroyPeer peerBlockchain pc =>
    have spared {pointer : Nat} (kept : before.destroys (.destroyPeer peerBlockchain) ≠ some pointer) :
        ((before.setPeer id .idle).destroyBlockchain peerBlockchain).chains pointer = before.chains pointer := by
      refine Node.destroyBlockchain_chains _ ?_
      rintro rfl
      exact kept rfl
    refine ⟨wellFormed, coherent, entered, ?_, fun pointer follows => ?_, prepared, fun other => ?_⟩
    · exact (spared (taken.keeps_published valid.wellFormed valid.coherent)).symm ▸ valid.published
    · exact (spared (taken.keeps_own valid.wellFormed valid.coherent follows)).symm ▸ valid.own pointer follows
    · have others := keeps (show Checked setup.platform difficulty before.chains .idle from trivial) other
      exact others.congr fun pointer owns =>
        spared (taken.keeps_candidate valid.wellFormed valid.coherent owns)

end Steps

/-- From a synchronized start on a valid chain, every chain a node publishes and every chain
its miner works on is valid and of the difficulty it started with. -/
theorem reachable_chains_valid (setup : Setup PKey) (difficulty : UInt64) (first last : Node)
    (actions : List Action) (small : difficulty.toNat ≤ 32)
    (signs : Signs setup.platform setup.minerPublicKey setup.minerPrivateKey)
    (initially : Synchronized first)
    (accepted : (blockchainVerify setup.platform (first.chains first.blockchain)).Accepts)
    (sameDifficulty : (first.chains first.blockchain).numLeadingZeroBytesRequiredInBlockHash = difficulty)
    (run : Run (NodeStep setup) first actions last) :
    (blockchainVerify setup.platform (last.chains last.blockchain)).Accepts ∧
      (last.chains last.blockchain).numLeadingZeroBytesRequiredInBlockHash = difficulty ∧
      ∀ own, last.miner.blockchain = some own →
        (blockchainVerify setup.platform (last.chains own)).Accepts ∧
          (last.chains own).numLeadingZeroBytesRequiredInBlockHash = difficulty := by
  have accepts {blockchain : Blockchain} (valid : ValidAt setup.platform difficulty blockchain) :
      (blockchainVerify setup.platform blockchain).Accepts := by
    have bounded := small
    rw [← valid.difficulty] at bounded
    exact (accepts_iff_validChain bounded).mpr valid.valid
  have start : ValidAt setup.platform difficulty (first.chains first.blockchain) := by
    have bounded := small
    rw [← sameDifficulty] at bounded
    exact ⟨(accepts_iff_validChain bounded).mp accepted, sameDifficulty⟩
  have valid : ValidNode setup.platform difficulty last := by
    apply run.invariant (ValidNode setup.platform difficulty)
    · obtain ⟨returnCode, atLoopHead⟩ := initially.atLoopHead
      refine ⟨initially.wellFormed, initially.coherent, initially.entered, start, ?_, ?_, ?_⟩
      · intro pointer follows
        rw [initially.sameChain] at follows
        cases follows
        exact start
      · rw [atLoopHead]
        exact trivial
      · intro id
        rw [initially.idle id]
        exact trivial
    · intro before action after valid step
      cases step with
      | miner step => exact step.validNode small signs valid
      | peer id step => exact step.validNode small valid
  exact ⟨accepts valid.published, valid.published.difficulty,
    fun own follows => ⟨accepts (valid.own own follows), (valid.own own follows).difficulty⟩⟩

/-- The miner has added the block it had found. -/
def sampleMinedNode : Node :=
  { sampleFound.setMinerPc (.loopHead .success) with chains := Function.update sampleFound.chains 0 (sampleChain 1) }

/-- A block is mined on the genesis block, and then a peer sends a chain with one more. -/
theorem reachable_chains_valid_sample :
    ∃ actions last, Run (NodeStep sampleSetup) sampleMining actions last ∧ .append ∈ actions ∧ last.blockchain = 1 ∧
      (last.chains last.blockchain).blockList.length = 3 ∧
      (blockchainVerify Platform.lenient (last.chains last.blockchain)).Accepts := by
  have signs : Signs sampleSetup.platform sampleSetup.minerPublicKey sampleSetup.minerPrivateKey :=
    fun _ _ _ _ _ => rfl
  have found : ∃ actions, Run (Guarded (NodeStep sampleSetup) fun _ _ => True) sampleMining actions sampleFound :=
    sampleFound_run fun _ => trivial
  obtain ⟨actions, found⟩ := found
  have mined : NodeStep sampleSetup sampleFound .append sampleMinedNode :=
    .miner (.append rfl rfl (sampleChain_grows 0 (by decide)))
  have switched : Run (Guarded (NodeStep sampleSetup) fun _ _ => True) sampleMinedNode (switchActions 1)
      (sampleMinedNode.switchTo (sampleChain 2)) :=
    sample_switch 2 (fun _ _ _ => trivial) rfl rfl rfl Nat.zero_lt_one rfl (Nat.lt_succ_self _)
  have run := (found.unguarded.trans (.single mined)).trans switched.unguarded
  exact ⟨_, _, run, by simp, rfl, sampleChain_length 2, (reachable_chains_valid sampleSetup 0 _ _ _ (by decide) signs
    sampleMining_synchronized (sampleChain_accepted 0) rfl run).1⟩

end LeoCoin
