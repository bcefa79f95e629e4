import LeoCoin.ExchangeRuns

/-! # The chain of the miner, from its start to its end

`main` makes a chain with a genesis block, publishes it, lets its threads work and destroys what is
published then.  The first chain is where the runs of a node's calls begin.
-/

namespace LeoCoin

open Library.Programs Library.Decoding Library.Heap Library.Owning Library.Transition

namespace ChainMemory

open Imperative

section First

variable (input : Input) (now : Int64)

/-- `block_create_genesis_block` -/
def blockCreateGenesisBlock : MemoryProgram Nat := do
  let transactionList ← linkedListCreate input
  -- the list is not freed where there is no memory for the block
  blockCreate input now transactionList genesisBlockProofOfWork Sha256.zero

/-- The chain that `main` makes. -/
def createFirstChain (numLeadingZeros : UInt64) (rounds : Nat) : MemoryProgram Nat := do
  let blockchain ← blockchainCreate input numLeadingZeros
  let genesisBlock ← (blockCreateGenesisBlock input now).otherwise (blockchainDestroy blockchain rounds).attempt
  (blockchainAddBlock input blockchain genesisBlock rounds).otherwise (do
    (blockDestroy rounds genesisBlock).attempt
    (blockchainDestroy blockchain rounds).attempt)
  return blockchain

end First

/-- What `main` asks for. -/
def describeFirstChain : Decoder Failure Unit := do
  Decoder.allocate 16
  Decoder.allocate 24
  Decoder.allocate 24
  Decoder.allocate 56
  Decoder.allocate 16

theorem firstChain_fits (now : Int64) : chainMemory [LeoCoin.blockCreateGenesisBlock now] < 2 ^ 64 := by
  simp [chainMemory, Block.memory, LeoCoin.blockCreateGenesisBlock, LeoCoin.blockCreate]

/-- A chain with its genesis block. -/
def firstChain (numLeadingZeros : UInt64) (now : Int64) : Blockchain :=
  ⟨[LeoCoin.blockCreateGenesisBlock now], numLeadingZeros, firstChain_fits now⟩

/-- Nothing, or a list without entries that nobody has the address of. -/
def LostList (lost : Pieces) : Prop := lost = 0 ∨ ∃ transactionList, lost = headerPiece transactionList none

section First

variable {input : Input} {used : Nat}

theorem realizes_blockCreateGenesisBlock (now : Int64) (own : Pieces) :
    Realizes (outlook input used)
      ((described input (Decoder.allocate 24)).bind fun _ => described input (Decoder.allocate 56))
      (fun _ => blockCreateGenesisBlock input now) own
      (fun _ block owned => ∃ transactionList,
        owned = own + blockPieces block ⟨now, transactionList, [], genesisBlockProofOfWork, Sha256.zero⟩)
      (fun now => ∃ lost, LostList lost ∧ now = own + lost) := by
  refine ((realizes_linkedListCreate own).loosen fun _ same => ⟨0, .inl rfl, by rw [same, add_zero]⟩).bind ?_
  rintro _ transactionList _ rfl
  refine ((realizes_blockCreate transactionList genesisBlockProofOfWork Sha256.zero _).loosen fun _ same =>
    ⟨_, .inr ⟨transactionList, rfl⟩, by rw [same, add_comm]⟩).weaken ?_
  rintro _ block _ rfl
  refine ⟨transactionList, ?_⟩
  simp only [blockPieces, transactionListPieces, listPieces, firstNode_nil, nodePieces_nil, List.map_nil, List.sum_nil,
    add_zero]
  abel

/-- Where `main` fails it has lost at most the list of the genesis block. -/
theorem realizes_createFirstChain (spacious : Spacious input used) (now : Int64) (numLeadingZeros : UInt64) :
    Realizes (outlook input used) (described input describeFirstChain)
      (fun rounds => createFirstChain input now numLeadingZeros rounds) 0
      (fun _ address owned => Building address (firstChain numLeadingZeros now) owned) LostList := by
  simp only [describeFirstChain, described_bind]
  rw [← Description.bind_assoc]
  refine ((realizes_blockchainCreate numLeadingZeros).loosen fun _ same => .inl same).bind ?_
  rintro _ address _ ⟨placed, rfl, holds, rfl⟩
  have destroys (lost : Pieces) : Turns (outlook input used)
      (fun rounds => (blockchainDestroy placed.address rounds).attempt) (placed.pieces + lost) () lost :=
    (turns_blockchainDestroy placed).attempt.within lost rfl (zero_add _).symm
  rw [← Description.bind_assoc]
  have creates : Realizes (outlook input used) _ _ placed.pieces _ LostList :=
    (realizes_blockCreateGenesisBlock now placed.pieces).otherwise fun _ ⟨lost, loses, same⟩ =>
      ⟨lost, loses, same ▸ destroys lost⟩
  refine creates.bind ?_
  rintro _ genesisBlock _ ⟨transactionList, rfl⟩
  have drops (value : PlacedBlock) : Turns (outlook input used)
      (fun rounds => (blockDestroy rounds genesisBlock).attempt >>= fun _ =>
        (blockchainDestroy placed.address rounds).attempt) (placed.pieces + blockPieces genesisBlock value) () 0 :=
    ((turns_blockDestroy genesisBlock value).attempt.within placed.pieces (add_comm _ _) (zero_add _).symm).bind
      (turns_blockchainDestroy placed).attempt
  rw [← Description.bind_done (described input _)]
  refine (((realizes_blockchainAddBlock spacious placed genesisBlock _).cleared (drops _)).loosen fun _ same =>
    .inl same).bind ?_
  rintro _ _ _ ⟨node, rfl⟩
  refine realizes_pure _ _ _ ⟨placed.append _, rfl, ⟨?_, holds.difficulty⟩, rfl⟩
  have none : placed.blocks = [] := List.map_eq_nil_iff.mp holds.blocks
  simp [PlacedChain.append, none, PlacedBlock.block, firstChain, LeoCoin.blockCreateGenesisBlock, LeoCoin.blockCreate]

/-- The five allocations are granted. -/
def grantsFirstChain (grants : Nat → Nat → Bool) : Bool :=
  grants 0 16 && grants 1 24 && grants 2 24 && grants 3 56 && grants 4 16

theorem allocate_isOk {α : Type} (size : Nat) (rest : Unit → Decoder Failure α) (input : Input) (cursor : Cursor) :
    ((Decoder.allocate size >>= rest).run input cursor).1.isOk =
      (input.grants cursor.requests.length size && ((rest ()).run input (cursor.record size)).1.isOk) := by
  rw [Decoder.run_bind, Decoder.run_allocate]
  cases input.grants cursor.requests.length size <;> rfl

theorem describeFirstChain_isOk (input : Input) :
    (describeFirstChain.run input ⟨0, []⟩).1.isOk = grantsFirstChain input.grants := by
  simp only [describeFirstChain, allocate_isOk, Decoder.run_allocate, Cursor.record, List.length_nil,
    List.length_cons, grantsFirstChain, Bool.and_assoc]
  cases input.grants 4 16 <;> rfl

theorem guarded_describeFirstChain : describeFirstChain.Guarded :=
  (Decoder.guarded_allocate 16).bind fun _ => (Decoder.guarded_allocate 24).bind fun _ =>
    (Decoder.guarded_allocate 24).bind fun _ => (Decoder.guarded_allocate 56).bind fun _ => Decoder.guarded_allocate 16

theorem createFirstChain_outcomes (now : Int64) (numLeadingZeros : UInt64) {start : Process}
    (begins : start.cursor = ⟨0, []⟩) (spacious : Spacious input (weight (pieces start))) :
    (∃ failure after lost, grantsFirstChain input.grants = false ∧
      Yields (fun rounds => createFirstChain input now numLeadingZeros rounds) start (.error failure) after ∧
      LostList lost ∧ pieces after = lost + pieces start) ∨
    ∃ address after own, grantsFirstChain input.grants = true ∧
      Yields (fun rounds => createFirstChain input now numLeadingZeros rounds) start (.ok address) after ∧
      Building address (firstChain numLeadingZeros now) own ∧ pieces after = own + pieces start := by
  have ends := realizes_createFirstChain spacious now numLeadingZeros start (pieces start) (fine_of_begins begins)
    (zero_add _).symm
  have granted := describeFirstChain_isOk input
  rw [outlook_view, begins, described_of_guarded guarded_describeFirstChain] at ends
  rcases ran : describeFirstChain.run input ⟨0, []⟩ with ⟨fault | _, cursor⟩
  · rw [ran] at ends granted
    obtain ⟨after, lost, yields, -, loses, parts⟩ := ends
    exact .inl ⟨_, after, lost, granted.symm, yields, loses, parts⟩
  · rw [ran] at ends granted
    obtain ⟨address, after, own, yields, -, -, building, parts⟩ := ends
    exact .inr ⟨address, after, own, granted.symm, yields, building, parts⟩

end First

/-! ## To the end -/

/-- `synchronized_blockchain_create`, without the structure itself. -/
def NodeProcess.opening (process : Process) (initialBlockchain : Nat) (blockchain : Blockchain) : NodeProcess :=
  ⟨process, initialBlockchain, ⟨blockchain, 0⟩, []⟩

/-- `synchronized_blockchain_destroy`, without the structure itself. -/
def synchronizedBlockchainDestroy (node : NodeProcess) (rounds : Nat) : MemoryProgram Unit :=
  blockchainDestroy node.published rounds

/-- Where `main` has failed to make its chain, there is at most a list beside what was there.  Otherwise
`main` can destroy what is published after every run; and a run that destroys what it has replaced, and
that fails in no exchange and in no round, ends with the memory that was there before `main`. -/
def GivesBack {PKey : Type} (platform : Platform PKey) (first : Blockchain) (start : Pieces)
    (result : Except Failure Nat) (after : Process) : Prop :=
  match result with
  | .error _ => ∃ lost, LostList lost ∧ pieces after = lost + start
  | .ok address => ∀ labels last, Run (NodeProcessStep platform) (.opening after address first) labels last →
      Balanced start labels last ∧ ∃ ended,
        Yields (fun rounds => synchronizedBlockchainDestroy last rounds) last.process (.ok ()) ended ∧
        (last.replaced = [] → NodeCall.exchange false ∉ labels → NodeCall.mine false ∉ labels → pieces ended = start)

/-- `main`, from the chain that it makes to `synchronized_blockchain_destroy`. -/
theorem miner_gives_back_its_chains {PKey : Type} (platform : Platform PKey) (input : Input) (now : Int64)
    (numLeadingZeros : UInt64) (start : Process) (begins : start.cursor = ⟨0, []⟩)
    (spacious : Spacious input (weight (pieces start))) :
    ∃ result after, Yields (fun rounds => createFirstChain input now numLeadingZeros rounds) start result after ∧
      result.isOk = grantsFirstChain input.grants ∧
      GivesBack platform (firstChain numLeadingZeros now) (pieces start) result after := by
  rcases createFirstChain_outcomes now numLeadingZeros begins spacious with
    ⟨failure, after, lost, granted, yields, loses, parts⟩ | ⟨address, after, own, granted, yields, building, parts⟩
  · exact ⟨.error failure, after, yields, granted.symm, lost, loses, parts⟩
  · refine ⟨.ok address, after, yields, granted.symm, fun labels last run => ?_⟩
    have there : ChainsAt (NodeProcess.opening after address (firstChain numLeadingZeros now)).memory.held own :=
      ⟨own, 0, building, rfl, (add_zero _).symm⟩
    have balanced := balanced_of_run there parts run
    have ⟨lost, loses, keeps⟩ := balanced
    obtain ⟨ended, destroys, left⟩ := keeps.destroys
      (show _ = [] ++ (last.published, last.sync.blockchain) :: last.replaced from rfl)
    refine ⟨balanced, ended, destroys, fun only succeeded clean => ?_⟩
    obtain ⟨owned, chains, parts⟩ := left.clean loses succeeded clean
    rw [only] at chains
    obtain rfl : owned = 0 := chains
    rw [parts, zero_add]

/-- A longer chain comes in, a block is mined on it and saved, the first chain is destroyed, and the last one at
the end. -/
theorem miner_gives_back_its_chains_sample :
    ∃ (address : Nat) (after ended : Process) (last : NodeProcess),
      Yields (fun rounds => createFirstChain (sparingInput []) 0 0 rounds) emptyProcess (.ok address) after ∧
      Run (NodeProcessStep Platform.lenient) (.opening after address (firstChain 0 0))
        [.exchange true, .mine true, .destroy] last ∧
      last.sync.blockchain = sampleChain 3 ∧
      Yields (fun rounds => synchronizedBlockchainDestroy last rounds) last.process (.ok ()) ended ∧
      pieces ended = pieces emptyProcess := by
  have spacious : Spacious (sparingInput []) (weight (pieces emptyProcess)) := sparing_spacious _ _
  obtain ⟨result, after, yields, granted, gives⟩ := miner_gives_back_its_chains Platform.lenient (sparingInput []) 0 0
    emptyProcess rfl spacious
  have all : grantsFirstChain sparing = true := by decide
  cases result with
  | error failure => exact absurd (granted.trans all) (by simp [Except.isOk, Except.toBool])
  | ok address =>
    rcases createFirstChain_outcomes 0 0 rfl spacious with
      ⟨_, _, _, -, fails, -⟩ | ⟨_, _, own, -, succeeds, building, parts⟩
    · cases (yields.unique fails).1
    · obtain ⟨same, rfl⟩ := yields.unique succeeds
      cases same
      have there : ChainsAt (NodeProcess.opening after address (firstChain 0 0)).memory.held own :=
        ⟨own, 0, building, rfl, (add_zero _).symm⟩
      obtain ⟨last, run, only, mined⟩ := sampleStream_run rfl rfl there parts (sampleChain_light 0) rfl
      obtain ⟨-, ended, destroys, left⟩ := gives _ last run
      exact ⟨address, after, ended, last, yields, run, mined, destroys, left only (by simp) (by simp)⟩

end ChainMemory

end LeoCoin
