import LeoCoin.World

/-! # Where chains come from

Nodes that only hear of each other hold chains that one of them started with or has mined,
at whatever points their threads and messages are interleaved.  The chains form a tree:
each mined one is a block longer than one that was there before, and the block was built
for it with the keys of its miner.
-/

namespace LeoCoin

open Library.Publication Library.Transition

variable {PKey ι : Type}

/-- The chain was there at first, or has been mined since. -/
inductive Known (first : World ι) (labels : List (WorldAction ι)) : Blockchain → Prop where
  | first (id : ι) {pointer : Nat} :
      pointer < (first.nodes id).fresh → Known first labels ((first.nodes id).chains pointer)
  | mined (id : ι) {blockchain : Blockchain} :
      .mine id blockchain ∈ labels → Known first labels blockchain

/-- The block was built for this chain, but for its proof of work. -/
def BuiltOn (setup : Setup PKey) (blockchain : Blockchain) (block : Block) : Prop :=
  ∃ mintedAt createdAt built, nextBlock setup mintedAt createdAt blockchain = .ok built ∧
    block = { built with proofOfWork := block.proofOfWork }

/-- The block that the miner is going to append. -/
def MinerPc.block : MinerPc → Option Block
  | .mineLock block => some block
  | .mineRead block => some block
  | .mineUnlock block _ => some block
  | .searchStop block _ _ => some block
  | .searchVersion block _ _ => some block
  | .searchHash block _ _ => some block
  | .append block => some block
  | _ => none

/-- What the miner is going to append it has built for its own chain. -/
def Building (setup : Setup PKey) (node : Node) : Prop :=
  ∀ block, node.miner.pc.block = some block →
    ∃ own, node.miner.blockchain = some own ∧ BuiltOn setup (node.chains own) block

/-- All nodes are at the heads of their loops, no chain has been destroyed or sent. -/
structure Opening (world : World ι) : Prop where
  synchronized : ∀ id, Synchronized (world.nodes id)
  intact : ∀ id, (world.nodes id).destroyed = []
  silent : world.messages = []

section Building

variable {setup : Setup PKey} {before after : Node} {action : Action}

theorem BuiltOn.tried {blockchain : Blockchain} {block : Block} (built : BuiltOn setup blockchain block)
    (newProof : UInt64) : BuiltOn setup blockchain { block with proofOfWork := newProof } := by
  obtain ⟨mintedAt, createdAt, first, made, same⟩ := built
  refine ⟨mintedAt, createdAt, first, made, ?_⟩
  rw [same]

theorem building_of_none (unbuilt : after.miner.pc.block = none) : Building setup after := by
  intro block built
  rw [unbuilt] at built
  cases built

theorem Building.congr (building : Building setup before) (sameBlock : after.miner.pc.block = before.miner.pc.block)
    (sameChain : after.miner.blockchain = before.miner.blockchain)
    (same : ∀ own, before.miner.blockchain = some own → after.chains own = before.chains own) :
    Building setup after := by
  intro block built
  obtain ⟨own, follows, builtOn⟩ := building block (sameBlock ▸ built)
  exact ⟨own, sameChain.trans follows, (same own follows).symm ▸ builtOn⟩

theorem MinerStep.building (building : Building setup before) (step : MinerStep setup before action after) :
    Building setup after := by
  cases step with
  | storeVersion pc | launch pc | readFirst pc | enter pc | leave pc | upToDate pc _ | notice pc _ | readAgain pc _
  | destroyOld pc | loadVersion pc | recordVersion pc | signal pc | verified pc _ _ | rejected pc _ _
  | createFails pc _ _ | exhausted pc _ | stopped pc _ | superseded pc _ | append pc _ _ | appendFails pc =>
    exact building_of_none rfl
  | mineRead pc | goOn pc _ | current pc _ | missed pc _ =>
    refine building.congr ?_ rfl fun _ _ => rfl
    rw [pc]
    rfl
  | lock leads free =>
    refine building.congr ?_ rfl fun _ _ => rfl
    cases pc : before.miner.pc <;> rw [pc] at leads <;> cases leads <;> rfl
  | unlock leads =>
    refine building.congr ?_ rfl fun _ _ => rfl
    cases pc : before.miner.pc <;> rw [pc] at leads <;> cases leads <;> rfl
  | createBlock pc follows made =>
    intro block built
    cases built
    exact ⟨_, follows, _, _, _, made, rfl⟩
  | @found block blockchain newProof pc works =>
    intro tried built
    cases built
    obtain ⟨own, follows, builtOn⟩ := building block (by rw [pc]; rfl)
    exact ⟨own, follows, builtOn.tried newProof⟩

theorem NodeStep.building (wellFormed : WellFormed before) (coherent : Coherent before.cell)
    (building : Building setup before) (step : NodeStep setup before action after) : Building setup after := by
  have keeps {own : Nat} (follows : before.miner.blockchain = some own) := step.keeps_own wellFormed coherent follows
  cases step with
  | miner step => exact step.building building
  | peer id step =>
    have miner := step.frame.1
    refine building.congr (by rw [miner]) (by rw [miner]) fun own follows => ?_
    exact step.chains (wellFormed.own_lt follows) (keeps follows)

/-- A block that is appended was built for the chain it is appended to. -/
theorem MinerStep.appends {own : Nat} (building : Building setup before)
    (step : MinerStep setup before .append after) (follows : before.miner.blockchain = some own) :
    ∃ block, BuiltOn setup (before.chains own) block ∧
      blockchainAddBlock (before.chains own) block = .ok (after.chains own) ∧
      ∀ pointer, pointer ≠ own → after.chains pointer = before.chains pointer := by
  cases step with
  | @append other block longer pc follows' added =>
    rw [follows] at follows'
    cases follows'
    obtain ⟨same, follows', builtOn⟩ := building block (by rw [pc]; rfl)
    rw [follows] at follows'
    cases follows'
    have updated : Function.update before.chains own longer own = longer := Function.update_self _ _ _
    refine ⟨block, builtOn, ?_, fun pointer different => Function.update_of_ne different _ _⟩
    rw [added]
    exact congrArg _ updated.symm

end Building

/-! ## Every chain is known -/

section Known

variable {setups : ι → Setup PKey} {first before after last : World ι} {labels more : List (WorldAction ι)}
  {label : WorldAction ι} {blockchain : Blockchain}

theorem Known.append (known : Known first labels blockchain) : Known first (labels ++ more) blockchain := by
  cases known with
  | first id used => exact .first id used
  | mined id member => exact .mined id (List.mem_append_left _ member)

/-- The node has the chain at this address, and has not destroyed it. -/
def Node.Keeps (node : Node) (pointer : Nat) : Prop := pointer < node.fresh ∧ pointer ∉ node.destroyed

structure Traced (setups : ι → Setup PKey) (first : World ι) (labels : List (WorldAction ι)) (world : World ι) :
    Prop where
  wellFormed : ∀ id, WellFormed (world.nodes id)
  live : ∀ id, Live (world.nodes id).cell
  entered : ∀ id, (world.nodes id).miner.pc.entered = true
  building : ∀ id, Building (setups id) (world.nodes id)
  chains : ∀ id pointer, (world.nodes id).Keeps pointer → Known first labels ((world.nodes id).chains pointer)
  messages : ∀ message ∈ world.messages, Known first labels message

theorem Traced.published (traced : Traced setups first labels before) (id : ι) :
    Known first labels (before.nodes id).published :=
  traced.chains id _ ⟨(traced.wellFormed id).published_lt, (traced.live id).publishedKept⟩

theorem Traced.own {id : ι} {own : Nat} (traced : Traced setups first labels before)
    (follows : (before.nodes id).miner.blockchain = some own) :
    Known first labels ((before.nodes id).chains own) :=
  traced.chains id own ⟨(traced.wellFormed id).own_lt follows, (traced.live id).followedKept own follows⟩

theorem Opening.traced (opening : Opening first) : Traced setups first [] first where
  wellFormed id := (opening.synchronized id).wellFormed
  live id := (opening.synchronized id).live (opening.intact id)
  entered id := (opening.synchronized id).entered
  building id := by
    obtain ⟨returnCode, atLoopHead⟩ := (opening.synchronized id).atLoopHead
    exact building_of_none (by rw [atLoopHead]; rfl)
  chains id pointer keeps := .first id keeps.1
  messages message member := by
    rw [opening.silent] at member
    cases member

/-- The block holds nothing but the mint of a miner of the network, who has appended it. -/
def MintedBy (setups : ι → Setup PKey) (labels : List (WorldAction ι)) (block : Block) : Prop :=
  ∃ id mintedAt mint, transactionCreate (setups id).platform mintedAt (setups id).minerPublicKey
      (setups id).minerPublicKey amountGeneratedDuringMinting (setups id).minerPrivateKey = .ok mint ∧
    block.transactionList = [mint] ∧
    ∃ blockchain, .mine id blockchain ∈ labels ∧ blockchain.blockList.getLast? = some block

/-- Every block of the chain is from the beginning or minted. -/
def Accounted (setups : ι → Setup PKey) (first : World ι) (labels : List (WorldAction ι))
    (blockchain : Blockchain) : Prop :=
  ∀ block ∈ blockchain.blockList,
    (∃ id old, old < (first.nodes id).fresh ∧ block ∈ ((first.nodes id).chains old).blockList) ∨
      MintedBy setups labels block

theorem BuiltOn.mints {setup : Setup PKey} {block : Block} (builtOn : BuiltOn setup blockchain block) :
    ∃ mintedAt mint, transactionCreate setup.platform mintedAt setup.minerPublicKey setup.minerPublicKey
        amountGeneratedDuringMinting setup.minerPrivateKey = .ok mint ∧ block.transactionList = [mint] := by
  obtain ⟨mintedAt, createdAt, built, made, same⟩ := builtOn
  rw [nextBlock] at made
  cases last : blockchain.blockList.getLast? with
  | none => simp [last] at made
  | some previousBlock =>
    cases created : transactionCreate setup.platform mintedAt setup.minerPublicKey setup.minerPublicKey
        amountGeneratedDuringMinting setup.minerPrivateKey with
    | error code => simp [last, created] at made
    | ok mint =>
      simp only [last, created, Except.ok.injEq] at made
      subst made
      refine ⟨mintedAt, mint, created, ?_⟩
      rw [same]
      rfl

theorem Accounted.append (accounted : Accounted setups first labels blockchain) :
    Accounted setups first (labels ++ more) blockchain := by
  intro block member
  rcases accounted block member with old | ⟨id, mintedAt, mint, created, only, mined, mines, last⟩
  · exact .inl old
  · exact .inr ⟨id, mintedAt, mint, created, only, mined, List.mem_append_left _ mines, last⟩

variable [DecidableEq ι]

/-- Where a node has written one chain at most, all that are left are known if that one is. -/
theorem Traced.write {id : ι} {node : Node} (traced : Traced setups first labels before) (written : Nat)
    (updated : after.nodes = Function.update before.nodes id node)
    (others : ∀ pointer, pointer ≠ written → node.Keeps pointer →
      (before.nodes id).Keeps pointer ∧ node.chains pointer = (before.nodes id).chains pointer)
    (known : node.Keeps written → Known first (labels ++ more) (node.chains written)) (other : ι) {pointer : Nat}
    (keeps : (after.nodes other).Keeps pointer) :
    Known first (labels ++ more) ((after.nodes other).chains pointer) := by
  rw [updated] at keeps ⊢
  by_cases same : other = id
  · subst same
    rw [Function.update_self] at keeps ⊢
    by_cases rewritten : pointer = written
    · subst rewritten
      exact known keeps
    · obtain ⟨keeps, kept⟩ := others pointer rewritten keeps
      rw [kept]
      exact (traced.chains other pointer keeps).append
  · rw [Function.update_of_ne same] at keeps ⊢
    exact (traced.chains other pointer keeps).append

/-- What a node still has after a step it had before, as it was, but for appends and new chains. -/
theorem NodeStep.keeps {setup : Setup PKey} {node next : Node} {action : Action} {pointer : Nat}
    (step : NodeStep setup node action next) (lengthens : action ≠ .append) (same : next.fresh = node.fresh)
    (keeps : next.Keeps pointer) : node.Keeps pointer ∧ next.chains pointer = node.chains pointer := by
  obtain ⟨used, kept⟩ := keeps
  rw [same] at used
  rw [step.destroyed, List.mem_append, not_or] at kept
  refine ⟨⟨used, kept.2⟩, step.chains lengthens used fun destroyed => kept.1 ?_⟩
  rw [destroyed]
  exact List.mem_singleton_self pointer

theorem WorldStep.traced (traced : Traced setups first labels before) (step : WorldStep setups before label after) :
    Traced setups first (labels ++ [label]) after := by
  have wellFormed := step.keeps (fun _ => WellFormed) traced.wellFormed fun id action node taken _ =>
    taken.wellFormed (traced.wellFormed id)
  have building := step.keeps (fun id => Building (setups id)) traced.building fun id action node taken _ =>
    taken.building (traced.wellFormed id) (traced.live id).coherent (traced.building id)
  have live := step.keeps (fun _ node => Live node.cell) traced.live fun id action node taken _ =>
    taken.live (traced.wellFormed id) (traced.live id) (.of_entered action (traced.entered id))
  have entered := step.keeps (fun _ node => node.miner.pc.entered = true) traced.entered fun id action node taken _ =>
    taken.entered (traced.entered id)
  have received : ∀ message ∈ before.messages, Known first (labels ++ [label]) message :=
    fun message member => (traced.messages message member).append
  refine ⟨wellFormed, live, entered, building, fun other pointer keeps => ?_, fun message member => ?_⟩
  · cases label with
    | mine id blockchain =>
      cases step with
      | @mine _ own node step follows =>
        obtain ⟨block, builtOn, added, others⟩ := step.appends (traced.building id) follows
        have sameDestroyed : node.destroyed = (before.nodes id).destroyed := (NodeStep.miner step).destroyed
        refine traced.write own rfl (fun pointer different keeps => ?_) (fun _ => ?_) other keeps
        · rw [Node.Keeps, step.frame.2.1, sameDestroyed] at keeps
          exact ⟨keeps, others pointer different⟩
        · exact .mined id (by simp)
    | receive id call message =>
      cases step with
      | @receive _ _ _ sent peerBlockchain side environment stream header isValid launched waiting there delivered
        decoded =>
        refine traced.write (before.nodes id).fresh rfl (fun pointer different keeps => ?_) (fun _ => ?_) other keeps
        · obtain ⟨used, kept⟩ := keeps
          exact ⟨⟨Nat.lt_of_le_of_ne (Nat.le_of_lt_succ used) different, kept⟩, Function.update_of_ne different _ _⟩
        · -- a connection brings no chain but the one that was sent
          have same := eq_of_brings delivered (brings_of_receiveBlockchain decoded).1
          simp only [Function.update_self, same]
          exact received sent (List.mem_of_getElem? there)
    | inside id action | send id call | settle id call action | lose id call =>
      obtain ⟨id, action, node, taken, updated, mines, same⟩ := step.node
      have same := same (by simp)
      have lengthens : action ≠ .append := by
        intro appends
        obtain ⟨blockchain, mined⟩ := mines appends
        cases mined
      refine traced.write node.fresh updated (fun pointer _ keeps => taken.keeps lengthens same keeps)
        (fun keeps => absurd keeps.1 (Nat.lt_irrefl _)) other keeps
  · rcases step.messages with same | ⟨id, call, -, sends⟩
    · exact received message (same ▸ member)
    · rw [sends, List.mem_append, List.mem_singleton] at member
      rcases member with earlier | rfl
      · exact received message earlier
      · exact (traced.published id).append

theorem traced_of_run (opening : Opening first) (run : Run (WorldStep setups) first labels last) :
    Traced setups first labels last :=
  run.invariantAlong (fun labels world => Traced setups first labels world) opening.traced
    fun _ _ _ _ traced step => step.traced traced

/-- A mined chain is one block longer than one that was known before. -/
theorem WorldStep.extends {id : ι} (traced : Traced setups first labels before)
    (step : WorldStep setups before (.mine id blockchain) after) :
    ∃ base block, Known first labels base ∧ BuiltOn (setups id) base block ∧
      blockchainAddBlock base block = .ok blockchain := by
  cases step with
  | @mine _ own node step follows =>
    obtain ⟨block, builtOn, added, -⟩ := step.appends (traced.building id) follows
    exact ⟨_, block, traced.own follows, builtOn, added⟩

theorem accounted_of_run (opening : Opening first) (run : Run (WorldStep setups) first labels last)
    (known : Known first labels blockchain) : Accounted setups first labels blockchain := by
  have both := run.invariantAlong (fun labels world => Traced setups first labels world ∧
    ∀ blockchain, Known first labels blockchain → Accounted setups first labels blockchain) ?_ ?_
  · exact both.2 blockchain known
  · refine ⟨opening.traced, fun blockchain known block member => ?_⟩
    cases known with
    | first id used => exact .inl ⟨id, _, used, member⟩
    | mined id mines => cases mines
  · rintro sofar before label after ⟨traced, accounted⟩ step
    refine ⟨step.traced traced, fun blockchain known => ?_⟩
    cases known with
    | first id used => exact (accounted _ (.first id used)).append
    | mined id mines =>
      rcases List.mem_append.mp mines with earlier | now
      · exact (accounted _ (.mined id earlier)).append
      · -- the chain has just been mined: its last block is new
        obtain rfl := List.mem_singleton.mp now
        obtain ⟨base, block, base_known, builtOn, added⟩ := step.extends traced
        obtain ⟨items, -⟩ := blockchain_add_block_ok added
        intro other member
        rw [items, List.mem_append, List.mem_singleton] at member
        rcases member with old | rfl
        · exact (accounted base base_known).append other old
        · obtain ⟨mintedAt, mint, created, only⟩ := builtOn.mints
          exact .inr ⟨id, mintedAt, mint, created, only, blockchain, mines, by simp [items]⟩

end Known

/-- Every chain that a node publishes or has otherwise not destroyed, and every message, is one that
a node started with or has mined, and what is mined is one block more, built by its miner, on a
chain that was there before. -/
theorem chains_were_mined [DecidableEq ι] (setups : ι → Setup PKey) (first last : World ι)
    (labels : List (WorldAction ι)) (opening : Opening first) (run : Run (WorldStep setups) first labels last) :
    (∀ id, Known first labels (last.nodes id).published) ∧
      (∀ id pointer, (last.nodes id).Keeps pointer → Known first labels ((last.nodes id).chains pointer)) ∧
      (∀ message ∈ last.messages, Known first labels message) ∧
      ∀ earlier id blockchain later, labels = earlier ++ .mine id blockchain :: later →
        ∃ base block, Known first earlier base ∧ BuiltOn (setups id) base block ∧
          blockchainAddBlock base block = .ok blockchain := by
  have traced := traced_of_run opening run
  refine ⟨traced.published, traced.chains, traced.messages, ?_⟩
  rintro earlier id blockchain later rfl
  obtain ⟨middle, next, upTo, step, -⟩ := run.split_at
  exact step.extends (traced_of_run opening upTo)

/-- Two nodes that have just entered their loops, each with a genesis block. -/
def sampleWorld : World Bool := ⟨fun _ => sampleMining, []⟩

theorem sampleWorld_opening : Opening sampleWorld where
  synchronized _ := sampleMining_synchronized
  intact _ := rfl
  silent := rfl

theorem sampleMined_run : ∃ labels, Run (WorldStep fun _ : Bool => sampleSetup) sampleWorld
    (labels ++ [.mine true (sampleChain 1)]) (sampleWorld.setNode true sampleMinedNode) := by
  have searched : ∃ actions, Run (Guarded (NodeStep sampleSetup) fun _ _ => True) sampleMining actions sampleFound :=
    sampleFound_run fun _ => trivial
  obtain ⟨actions, searched⟩ := searched
  obtain ⟨labels, found⟩ := inWorld_of_run (fun _ : Bool => sampleSetup) true searched.unguarded sampleWorld rfl rfl
  have append : MinerStep sampleSetup ((sampleWorld.setNode true sampleFound).nodes true) .append sampleMinedNode :=
    .append rfl rfl (sampleChain_grows 0 (by decide))
  have mine : WorldStep (fun _ : Bool => sampleSetup) (sampleWorld.setNode true sampleFound)
      (.mine true (sampleMinedNode.chains 0)) ((sampleWorld.setNode true sampleFound).setNode true sampleMinedNode) :=
    .mine append rfl
  have mined : sampleMinedNode.chains 0 = sampleChain 1 := rfl
  rw [World.setNode_setNode, mined] at mine
  exact ⟨labels, .next found mine⟩

/-- The mined chain is one block longer than a chain from the beginning. -/
theorem chains_were_mined_sample :
    ∃ labels base block, Known sampleWorld labels base ∧ BuiltOn sampleSetup base block ∧
      blockchainAddBlock base block = .ok (sampleChain 1) := by
  obtain ⟨labels, run⟩ := sampleMined_run
  obtain ⟨-, -, -, mined⟩ := chains_were_mined _ _ _ _ sampleWorld_opening run
  obtain ⟨base, block, known, builtOn, added⟩ := mined labels true (sampleChain 1) [] rfl
  exact ⟨labels, base, block, known, builtOn, added⟩

/-- No chain of the network that is not destroyed ever holds a transaction but those it started with and the
mints of its own miners, one in each block that was mined. -/
theorem blocks_are_minted [DecidableEq ι] (setups : ι → Setup PKey) (first last : World ι)
    (labels : List (WorldAction ι)) (opening : Opening first) (run : Run (WorldStep setups) first labels last) :
    (∀ id, Accounted setups first labels (last.nodes id).published) ∧
      (∀ id pointer, (last.nodes id).Keeps pointer →
        Accounted setups first labels ((last.nodes id).chains pointer)) ∧
      ∀ message ∈ last.messages, Accounted setups first labels message := by
  have traced := traced_of_run opening run
  exact ⟨fun id => accounted_of_run opening run (traced.published id),
    fun id pointer keeps => accounted_of_run opening run (traced.chains id pointer keeps),
    fun message member => accounted_of_run opening run (traced.messages message member)⟩

/-- The chain with the mined block. -/
theorem blocks_are_minted_sample :
    ∃ labels, Accounted (fun _ : Bool => sampleSetup) sampleWorld labels (sampleChain 1) := by
  obtain ⟨labels, run⟩ := sampleMined_run
  exact ⟨_, (blocks_are_minted _ _ _ _ sampleWorld_opening run).1 true⟩

end LeoCoin
