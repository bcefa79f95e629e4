import LeoCoin.Library.Triples
import LeoCoin.ChainMemory
import LeoCoin.Networking
import LeoCoin.Verify

/-! # Reading a chain in memory

`blockchain_verify`, `blockchain_serialize` and `linked_list_length` follow the pointers of a chain.
They change nothing of it; the serializer has a buffer of its own, which every `realloc` moves.
-/

namespace LeoCoin

open Library.Programs Library.Decoding Library.Heap Library.Owning

namespace ChainMemory

open Imperative

/-! ## Following pointers -/

section Reading

variable {β : Type}

/-- The loop from a node to the end of the list. -/
def walk (body : β → Nat → MemoryProgram β) : Nat → Option Nat → β → MemoryProgram β
  | _, none, value => pure value
  | 0, some _, _ => running
  | rounds + 1, some address, value => do
    let here ← onLists (ListHeap.node address)
    let value ← body value here.data
    walk body rounds here.next value

/-- `for (node_t *node = linked_list->head; NULL != node; node = node->next)` -/
def forEach (body : β → Nat → MemoryProgram β) (linkedList rounds : Nat) (value : β) : MemoryProgram β := do
  let here ← onLists (ListHeap.header linkedList)
  walk body rounds here.head value

/-- `linked_list_length` -/
def linkedListLength (linkedList rounds : Nat) : MemoryProgram UInt64 :=
  onLists (ListHeap.length (some linkedList) true rounds)

/-- `*transaction` -/
def transactionAt (transaction : Nat) : MemoryProgram Transaction :=
  fetch fun process => do
    match ← process.objects.object transaction with
    | .transaction fields => return fields
    | _ => none

/-- The fields of a block, but its list. -/
structure BlockFields where
  createdAt : Int64
  proofOfWork : UInt64
  previousBlockHash : Sha256

def blockFields (block : Nat) : MemoryProgram BlockFields :=
  fetch fun process => do
    match ← process.objects.object block with
    | .block createdAt _ proofOfWork previousBlockHash => return ⟨createdAt, proofOfWork, previousBlockHash⟩
    | _ => none

/-- `blockchain->num_leading_zero_bytes_required_in_block_hash` -/
def difficultyOf (blockchain : Nat) : MemoryProgram UInt64 :=
  fetch fun process => do
    match ← process.objects.object blockchain with
    | .blockchain _ difficulty => return difficulty
    | _ => none

/-- `linked_list_length(blockchain->block_list, &length)` -/
def blockListLength (blockchain rounds : Nat) : MemoryProgram UInt64 := do
  let blockList ← blockListOf blockchain
  linkedListLength blockList rounds

/-- What a function has that was computed without memory. -/
def finish (result : Except Failure β) : MemoryProgram β :=
  match result with
  | .ok value => pure value
  | .error failure => fail failure

/-- `calloc` -/
def calloc (granted : Bool) (size : Nat) : MemoryProgram Nat :=
  if granted then place (.raw size) else fail .couldNotMalloc

end Reading

/-! ## `blockchain_verify` -/

def collectTransaction (sofar : List Transaction) (transaction : Nat) : MemoryProgram (List Transaction) := do
  let fields ← transactionAt transaction
  return sofar ++ [fields]

/-- A block with its transactions, as `block_hash` reads it. -/
def blockAt (rounds block : Nat) : MemoryProgram Block := do
  let fields ← blockFields block
  let transactionList ← transactionListOf block
  let transactions ← forEach collectTransaction transactionList rounds []
  return ⟨fields.createdAt, transactions, fields.proofOfWork, fields.previousBlockHash⟩

/-- The return code of `blockchain_verify` and what it has stored, as its callers use them. -/
def judged (verification : Verification) : Except Failure Bool :=
  if failed : verification.returnCode ≠ .success then .error ⟨verification.returnCode, failed⟩
  else .ok (verification.isValidBlockchain.getD false)

def verdict {PKey : Type} (platform : Platform PKey) (blockchain : Blockchain) : Except Failure Bool :=
  judged (LeoCoin.blockchainVerify platform blockchain)

/-- The loop over the blocks behind the first one. -/
def verifyLoop {PKey : Type} (platform : Platform PKey) (blockchain : Nat) :
    Nat → Option Nat → Sha256 → MemoryProgram Bool
  | _, none, _ => pure true
  | 0, some _, _ => running
  | rounds + 1, some currentNode, previousBlockHash => do
    let here ← onLists (ListHeap.node currentNode)
    let currentBlock ← blockAt rounds here.data
    let difficulty ← difficultyOf blockchain
    match verifyBlock platform difficulty previousBlockHash currentBlock with
    | .failed code => fail code
    -- the blocks behind an invalid one are not read
    | .invalid _ => pure false
    | .valid currentBlockHash => verifyLoop platform blockchain rounds here.next currentBlockHash

/-- `blockchain_verify` -/
def blockchainVerify {PKey : Type} (platform : Platform PKey) (blockchain rounds : Nat) : MemoryProgram Bool := do
  let blockList ← blockListOf blockchain
  let list ← onLists (ListHeap.header blockList)
  match list.head with
  | none => return true
  | some head => do
    let first ← onLists (ListHeap.node head)
    let genesisBlock ← blockAt rounds first.data
    if !genesisBlock.transactionList.isEmpty ||
        genesisBlock.proofOfWork != genesisBlockProofOfWork ||
        hashesDiffer genesisBlock.previousBlockHash Sha256.zero then
      return false
    else
      verifyLoop platform blockchain rounds first.next (blockHash platform genesisBlock)

/-! ## `blockchain_serialize` -/

/-- The buffer under way, and where it is. -/
structure Written where
  address : Nat
  buffer : SerializationBuffer

section Serialize

variable (grants : Nat → Nat → Bool) (order : ByteOrder)

/-- `serialization_buffer = realloc(serialization_buffer, size)` and what is written; where that is
refused the old buffer stays and its address is lost. -/
def grow (chunk : List UInt8) (written : Written) : MemoryProgram Written :=
  match written.buffer.extend grants chunk with
  | .error failure => fail failure
  | .ok buffer => do
    free written.address
    let address ← place (.raw buffer.size.toNat)
    return ⟨address, buffer⟩

/-- The first buffer. -/
def begin (chunk : List UInt8) : MemoryProgram Written :=
  match SerializationBuffer.extend grants chunk ⟨[], 0, 0⟩ with
  | .error failure => fail failure
  | .ok buffer => do
    let address ← place (.raw buffer.size.toNat)
    return ⟨address, buffer⟩

/-- One round of the transaction loop. -/
def serializeTransaction (written : Written) (transaction : Nat) : MemoryProgram Written := do
  let fields ← transactionAt transaction
  grow grants (writeTransaction order fields) written

/-- One round of the block loop. -/
def serializeBlock (rounds : Nat) (written : Written) (block : Nat) : MemoryProgram Written := do
  let transactionList ← transactionListOf block
  let numTransactionsInBlock ← linkedListLength transactionList rounds
  let fields ← blockFields block
  let written ← grow grants (writeUInt64 order fields.createdAt.toUInt64 ++ fields.previousBlockHash.digest.toList ++
    writeUInt64 order fields.proofOfWork ++ writeUInt64 order numTransactionsInBlock) written
  forEach (serializeTransaction grants order) transactionList rounds written

/-- `blockchain_serialize` -/
def blockchainSerialize (blockchain rounds : Nat) : MemoryProgram Written := do
  let blockList ← blockListOf blockchain
  let numBlocks ← linkedListLength blockList rounds
  let difficulty ← difficultyOf blockchain
  let written ← begin grants (writeUInt64 order difficulty ++ writeUInt64 order numBlocks)
  forEach (serializeBlock grants order rounds) blockList rounds written

end Serialize

/-! ## What is read -/

/-- Memory, whatever has been granted. -/
abbrev storage : Outlook Process Pieces Cursor := outlook ⟨fun _ => 0, 0, fun _ _ => false⟩ 0

section Reads

variable {α : Type}

theorem turns_header (linkedList : Nat) (head : Option Nat) :
    Turns storage (fun _ => onLists (ListHeap.header linkedList)) (headerPiece linkedList head) ⟨none, head⟩
      (headerPiece linkedList head) := by
  refine turns_onLists rfl rfl fun heap others rest lists nodes => ⟨heap, ?_, lists, nodes⟩
  exact ListHeap.header_yields (Store.object_of_cells (lists.trans (Multiset.singleton_add _ _)))

theorem turns_linkedListLength (linkedList : Nat) (entries : List (Entry α)) :
    Turns storage (fun rounds => linkedListLength linkedList rounds) (listPieces linkedList entries)
      (LeoCoin.linkedListLength entries) (listPieces linkedList entries) := by
  refine turns_onLists rfl rfl fun heap others rest lists nodes => ⟨heap, ?_, lists, nodes⟩
  simp only [listPieces, headerPiece, nodePieces, Prod.fst_add, Prod.snd_add, add_zero, zero_add,
    Multiset.singleton_add] at lists nodes
  have header : Yields (fun _ => ListHeap.header linkedList) heap (.ok ⟨none, firstNode entries⟩) heap :=
    ListHeap.header_yields (Store.object_of_cells lists)
  have segment := (segment_of_cells nodes).bare
  rw [Option.or_none] at segment
  have counted := ListHeap.lengthLoop_yields segment 0
  rw [List.length_map, UInt64.zero_add] at counted
  exact (yields_pure linkedList).bind ((yields_pure ()).bind (header.bind counted))

theorem turns_transactionAt (transaction : Nat) (fields : Transaction) :
    Turns storage (fun _ => transactionAt transaction) (objectPiece transaction (.transaction fields)) fields
      (objectPiece transaction (.transaction fields)) := by
  intro process frame parts
  have there := Store.object_of_cells (objects_of_pieces parts).2.2
  exact ⟨process, yields_fetch (by simp [there]), rfl, parts⟩

theorem turns_blockFields (block list : Nat) (createdAt : Int64) (proofOfWork : UInt64) (hash : Sha256) :
    Turns storage (fun _ => blockFields block) (objectPiece block (.block createdAt list proofOfWork hash))
      ⟨createdAt, proofOfWork, hash⟩ (objectPiece block (.block createdAt list proofOfWork hash)) := by
  intro process frame parts
  have there := Store.object_of_cells (objects_of_pieces parts).2.2
  exact ⟨process, yields_fetch (by simp [there]), rfl, parts⟩

theorem turns_difficultyOf (blockchain list : Nat) (difficulty : UInt64) :
    Turns storage (fun _ => difficultyOf blockchain) (objectPiece blockchain (.blockchain list difficulty)) difficulty
      (objectPiece blockchain (.blockchain list difficulty)) := by
  intro process frame parts
  have there := Store.object_of_cells (objects_of_pieces parts).2.2
  exact ⟨process, yields_fetch (by simp [there]), rfl, parts⟩

end Reads

/-! ## Loops over a list -/

section Loops

variable {α β σ : Type} {own : Entry α → Pieces} {step : σ → α → Except Failure σ} {holds : σ → β → Pieces → Prop}
  {spilled : Pieces → Prop}

/-- What is expected of a part of a loop, beside what is only read. -/
def Passes (others : Pieces) (expected : Except Failure σ) (holds : σ → β → Pieces → Prop)
    (spilled : Pieces → Prop) : Except Failure β → Pieces → Prop :=
  Expected expected (fun state value now => ∃ owned, holds state value owned ∧ now = owned + others)
    fun now => ∃ lost, spilled lost ∧ now = lost + others

theorem Passes.more {others more : Pieces} {expected : Except Failure σ} {result : Except Failure β} {now : Pieces}
    (passes : Passes others expected holds spilled result now) :
    Passes (others + more) expected holds spilled result (now + more) := by
  cases expected with
  | ok state =>
    obtain ⟨value, rfl, owned, holds, rfl⟩ := passes
    exact ⟨value, rfl, owned, holds, add_assoc _ _ _⟩
  | error failure =>
    obtain ⟨rfl, lost, spills, rfl⟩ := passes
    exact ⟨rfl, lost, spills, add_assoc _ _ _⟩

theorem Passes.loosen {others : Pieces} {expected : Except Failure σ} {looser : Pieces → Prop}
    {result : Except Failure β} {now : Pieces} (passes : Passes others expected holds spilled result now)
    (implies : ∀ lost, spilled lost → looser lost) : Passes others expected holds looser result now := by
  cases expected with
  | ok state => exact passes
  | error failure =>
    obtain ⟨rfl, lost, spills, rfl⟩ := passes
    exact ⟨rfl, lost, implies lost spills, rfl⟩

/-- More of what is only read. -/
theorem accounts_more {program : Nat → MemoryProgram β} {expected : Except Failure σ} {given others whole kept : Pieces}
    (accounts : Accounts storage (fun _ => True) given program (Passes others expected holds spilled)) (more : Pieces)
    (split : whole = given + more) (remains : kept = others + more) :
    Accounts storage (fun _ => True) whole program (Passes kept expected holds spilled) := by
  rw [split, remains]
  refine (accounts.beside more fun _ _ => trivial).mono ?_
  rintro _ _ ⟨_, passes, rfl⟩
  exact passes.more

/-- One part after another. -/
theorem accounts_passes_bind {τ γ : Type} {program : Nat → MemoryProgram β} {expected : Except Failure σ}
    {further : σ → Except Failure τ} {later : Nat → β → MemoryProgram γ} {last : τ → γ → Pieces → Prop}
    {given others : Pieces}
    (accounts : Accounts storage (fun _ => True) given program (Passes others expected holds spilled))
    (rest : ∀ state value owned, expected = .ok state → holds state value owned →
      Accounts storage (fun _ => True) (owned + others) (fun rounds => later rounds value)
        (Passes others (further state) last spilled)) :
    Accounts storage (fun _ => True) given (fun rounds => program rounds >>= later rounds)
      (Passes others (expected >>= further) last spilled) := by
  cases expected with
  | ok state =>
    refine accounts.bind ?_ ?_
    · rintro value _ ⟨_, same, owned, holds, rfl⟩
      cases same
      exact rest state value owned rfl holds
    · rintro _ _ ⟨_, wrong, -⟩
      cases wrong
  | error failure =>
    refine accounts.bind ?_ ?_
    · rintro _ _ ⟨wrong, -⟩
      cases wrong
    · rintro _ _ ⟨⟨⟩, spills⟩
      exact ⟨rfl, spills⟩

/-- A part that is known to succeed, before another one. -/
theorem accounts_passes_ok {τ γ : Type} {program : Nat → MemoryProgram β} {state : σ} {expected : Except Failure τ}
    {later : Nat → β → MemoryProgram γ} {last : τ → γ → Pieces → Prop} {given others : Pieces}
    (accounts : Accounts storage (fun _ => True) given program (Passes others (.ok state) holds spilled))
    (rest : ∀ value owned, holds state value owned →
      Accounts storage (fun _ => True) (owned + others) (fun rounds => later rounds value)
        (Passes others expected last spilled)) :
    Accounts storage (fun _ => True) given (fun rounds => program rounds >>= later rounds)
      (Passes others expected last spilled) := by
  change Accounts storage _ _ _ (Passes others ((.ok state : Except Failure σ) >>= fun _ => expected) last spilled)
  refine accounts_passes_bind accounts ?_
  rintro _ value owned ⟨⟩ now
  exact rest value owned now

/-- A program that works on what it owns, while others are there. -/
def Rounds (own : Entry α → Pieces) (step : σ → α → Except Failure σ) (holds : σ → β → Pieces → Prop)
    (spilled : Pieces → Prop) (body : Nat → β → Nat → MemoryProgram β) : Prop :=
  ∀ (entry : Entry α) state value owned, holds state value owned →
    Accounts storage (fun _ => True) (owned + own entry) (fun rounds => body rounds value entry.datum)
      (Passes (own entry) (step state entry.value) holds spilled)

/-- Induction on the entries; each round of the loop reads one and goes on with its value. -/
theorem accounts_walk {body : Nat → β → Nat → MemoryProgram β} (rounds : Rounds own step holds spilled body)
    (entries : List (Entry α)) (state : σ) (value : β) (owned : Pieces) (start : holds state value owned) :
    Accounts storage (fun _ => True) (owned + (nodePieces entries + (entries.map own).sum))
      (fun rounds => walk (body rounds) rounds (firstNode entries) value)
      (Passes (nodePieces entries + (entries.map own).sum) ((entries.map Entry.value).foldlM step state) holds
        spilled) := by
  induction entries generalizing body state value owned with
  | nil =>
    have ends : (fun rounds => walk (body rounds) rounds none value) = fun _ => pure value := by
      funext rounds
      cases rounds <;> rfl
    rw [firstNode_nil, ends]
    exact accounts_pure value ⟨value, rfl, owned, start, rfl⟩
  | cons entry entries ih =>
    have later : Rounds own step holds spilled fun rounds => body (rounds + 1) :=
      fun other state value owned holds => (rounds other state value owned holds).later
    have whole : nodePieces (entry :: entries) + ((entry :: entries).map own).sum =
        own entry + (nodePiece entry.node ⟨entry.datum, firstNode entries⟩ +
          (nodePieces entries + (entries.map own).sum)) := by
      rw [nodePieces_cons, List.map_cons, List.sum_cons]
      abel
    rw [whole, List.map_cons, List.foldlM_cons]
    have reads : Turns storage (fun _ => onLists (ListHeap.node entry.node))
        (owned + (own entry + (nodePiece entry.node ⟨entry.datum, firstNode entries⟩ +
          (nodePieces entries + (entries.map own).sum)))) _ _ :=
      (turns_node entry.node ⟨entry.datum, firstNode entries⟩).within
        (owned + own entry + (nodePieces entries + (entries.map own).sum)) (by abel) rfl
    refine Accounts.succ (Accounts.after reads (accounts_passes_bind (accounts_more
      (later entry state value owned start) (nodePiece entry.node ⟨entry.datum, firstNode entries⟩ +
        (nodePieces entries + (entries.map own).sum)) (by abel) rfl) ?_))
    intro next value owned _ holds
    exact accounts_more (ih later next value owned holds)
      (own entry + nodePiece entry.node ⟨entry.datum, firstNode entries⟩) (by abel) (by abel)

theorem accounts_forEach {body : Nat → β → Nat → MemoryProgram β} (rounds : Rounds own step holds spilled body)
    (linkedList : Nat) (entries : List (Entry α)) (state : σ) (value : β) (owned : Pieces)
    (start : holds state value owned) :
    Accounts storage (fun _ => True) (owned + (listPieces linkedList entries + (entries.map own).sum))
      (fun rounds => forEach (body rounds) linkedList rounds value)
      (Passes (listPieces linkedList entries + (entries.map own).sum) ((entries.map Entry.value).foldlM step state)
        holds spilled) := by
  have reads : Turns storage (fun _ => onLists (ListHeap.header linkedList))
      (owned + (listPieces linkedList entries + (entries.map own).sum)) _ _ :=
    (turns_header linkedList (firstNode entries)).within (owned + (nodePieces entries + (entries.map own).sum))
      (by rw [listPieces]; abel) rfl
  exact Accounts.after reads (accounts_more (accounts_walk rounds entries state value owned start)
    (headerPiece linkedList (firstNode entries)) (by abel) (by rw [listPieces]; abel))

end Loops

/-! ## What the readers come to -/

section Readers

variable {order : ByteOrder} {grants : Nat → Nat → Bool}

/-- A loop that collects, before it collects. -/
theorem foldlM_collect {α β : Type} (value : α → β) (sofar : List β) (list : List α) :
    list.foldlM (fun sofar element => (.ok (sofar ++ [value element]) : Except Failure (List β))) sofar =
      .ok (sofar ++ list.map value) := by
  induction list generalizing sofar with
  | nil => simp; rfl
  | cons element list ih =>
    rw [List.foldlM_cons]
    refine (ih (sofar ++ [value element])).trans ?_
    simp

/-- What is collected is in no memory of its own. -/
def Collected {β : Type} (sofar value : β) (owned : Pieces) : Prop := value = sofar ∧ owned = 0

theorem rounds_collectTransaction :
    Rounds transactionPieces (fun sofar (transaction : Transaction) => .ok (sofar ++ [transaction])) Collected
      (fun _ => False) fun _ => collectTransaction := by
  rintro entry _ sofar _ ⟨rfl, rfl⟩
  have reads : Turns storage (fun _ => transactionAt entry.datum) (0 + transactionPieces entry) _ _ :=
    (turns_transactionAt entry.datum entry.value).within 0 (add_comm _ _) rfl
  exact Accounts.after reads (accounts_pure _ ⟨_, rfl, 0, ⟨rfl, rfl⟩, add_comm _ _⟩)

theorem accounts_collectTransactions (transactionList : Nat) (transactions : List (Entry Transaction)) :
    Accounts storage (fun _ => True) (transactionListPieces transactionList transactions)
      (fun rounds => forEach collectTransaction transactionList rounds [])
      (Passes (transactionListPieces transactionList transactions) (.ok (transactions.map Entry.value)) Collected
        fun _ => False) := by
  have loops := accounts_forEach rounds_collectTransaction transactionList transactions [] [] 0 ⟨rfl, rfl⟩
  rw [zero_add, foldlM_collect (fun transaction => transaction), List.map_id', List.nil_append] at loops
  exact loops

theorem accounts_blockAt (block : Nat) (placed : PlacedBlock) (spilled : Pieces → Prop) :
    Accounts storage (fun _ => True) (blockPieces block placed) (fun rounds => blockAt rounds block)
      (Passes (blockPieces block placed) (.ok placed.block) Collected spilled) := by
  have fields : Turns storage (fun _ => blockFields block) (blockPieces block placed) _ (blockPieces block placed) :=
    (turns_blockFields block placed.transactionList placed.createdAt placed.proofOfWork
      placed.previousBlockHash).within (transactionListPieces placed.transactionList placed.transactions) rfl rfl
  have list : Turns storage (fun _ => transactionListOf block) (blockPieces block placed) _
      (blockPieces block placed) :=
    (turns_transactionListOf block placed.transactionList placed.createdAt placed.proofOfWork
      placed.previousBlockHash).within (transactionListPieces placed.transactionList placed.transactions) rfl rfl
  have loops : Accounts storage (fun _ => True) (blockPieces block placed) _
      (Passes (blockPieces block placed) _ _ spilled) :=
    (accounts_more (accounts_collectTransactions placed.transactionList placed.transactions) _ (add_comm _ _)
      (add_comm _ _)).mono fun _ _ passes => passes.loosen fun _ never => never.elim
  refine Accounts.after fields (Accounts.after list (accounts_passes_ok loops ?_))
  rintro transactions _ ⟨rfl, rfl⟩
  exact accounts_pure _ ⟨_, rfl, 0, ⟨rfl, rfl⟩, rfl⟩

theorem turns_placedLength {placed : PlacedChain} {blockchain : Blockchain} (holds : placed.Holds blockchain) :
    Turns storage (fun rounds => linkedListLength placed.blockList rounds) placed.pieces
      (LeoCoin.linkedListLength blockchain.blockList) placed.pieces := by
  have same : LeoCoin.linkedListLength placed.blocks = LeoCoin.linkedListLength blockchain.blockList := by
    rw [LeoCoin.linkedListLength, LeoCoin.linkedListLength, ← holds.blocks, List.length_map]
  rw [← same]
  refine (turns_linkedListLength placed.blockList placed.blocks).within
    (objectPiece placed.address (.blockchain placed.blockList placed.numLeadingZeroBytesRequiredInBlockHash) +
      (placed.blocks.map fun entry => blockPieces entry.datum entry.value).sum) ?_ ?_ <;>
  · rw [PlacedChain.pieces]
    abel

theorem turns_placedDifficulty {placed : PlacedChain} {blockchain : Blockchain} (holds : placed.Holds blockchain) :
    Turns storage (fun _ => difficultyOf placed.address) placed.pieces
      blockchain.numLeadingZeroBytesRequiredInBlockHash placed.pieces := by
  rw [← holds.difficulty]
  exact (turns_difficultyOf placed.address placed.blockList _).within _ rfl rfl

theorem turns_placedList (placed : PlacedChain) :
    Turns storage (fun _ => blockListOf placed.address) placed.pieces placed.blockList placed.pieces :=
  (turns_blockListOf placed.address placed.blockList _).within _ rfl rfl

theorem Passes.collected {β : Type} {others : Pieces} {expected : Except Failure β} {result : Except Failure β}
    {now : Pieces} (passes : Passes others expected Collected (· = 0) result now) :
    Expected expected (fun value found now => found = value ∧ now = others) (· = others) result now := by
  cases expected with
  | ok value =>
    obtain ⟨found, rfl, _, ⟨rfl, rfl⟩, rfl⟩ := passes
    exact ⟨found, rfl, rfl, zero_add _⟩
  | error failure =>
    obtain ⟨rfl, _, rfl, rfl⟩ := passes
    exact ⟨rfl, zero_add _⟩

theorem judged_failed (code : Failure) : judged ⟨code.val, none, none⟩ = .error code := dif_pos code.property

/-- Induction on the blocks that are left; each round reads its node and its block. -/
theorem accounts_verifyLoop {PKey : Type} (platform : Platform PKey) (address blockList : Nat) (difficulty : UInt64)
    (entries : List (Entry PlacedBlock)) (previousBlockHash : Sha256) (index : Nat) {whole : Pieces}
    (there : whole = objectPiece address (.blockchain blockList difficulty) +
      (nodePieces entries + (entries.map fun entry => blockPieces entry.datum entry.value).sum)) :
    Accounts storage (fun _ => True) whole
      (fun rounds => verifyLoop platform address rounds (firstNode entries) previousBlockHash)
      (Passes whole (judged (verifyBlocks platform difficulty previousBlockHash index
        (entries.map fun entry => entry.value.block))) Collected (· = 0)) := by
  induction entries generalizing previousBlockHash index whole with
  | nil =>
    have ends : (fun rounds => verifyLoop platform address rounds none previousBlockHash) = fun _ => pure true := by
      funext rounds
      cases rounds <;> rfl
    rw [firstNode_nil, ends]
    exact accounts_pure true ⟨true, rfl, 0, ⟨rfl, rfl⟩, (zero_add _).symm⟩
  | cons entry entries ih =>
    rw [nodePieces_cons, List.map_cons, List.sum_cons] at there
    have reads : Turns storage (fun _ => onLists (ListHeap.node entry.node)) whole _ whole :=
      (turns_node entry.node ⟨entry.datum, firstNode entries⟩).within
        (objectPiece address (.blockchain blockList difficulty) + nodePieces entries +
          (blockPieces entry.datum entry.value +
            (entries.map fun entry => blockPieces entry.datum entry.value).sum)) (by rw [there]; abel)
        (by rw [there]; abel)
    have block : Accounts storage (fun _ => True) whole _ (Passes whole _ _ (· = 0)) :=
      accounts_more (accounts_blockAt entry.datum entry.value (· = 0))
        (objectPiece address (.blockchain blockList difficulty) +
          (nodePiece entry.node ⟨entry.datum, firstNode entries⟩ + nodePieces entries +
            (entries.map fun entry => blockPieces entry.datum entry.value).sum)) (by rw [there]; abel)
        (by rw [there]; abel)
    refine Accounts.succ (Accounts.after reads (accounts_passes_ok block ?_))
    rintro _ _ ⟨rfl, rfl⟩
    rw [zero_add]
    have asks : Turns storage (fun _ => difficultyOf address) whole difficulty whole :=
      (turns_difficultyOf address blockList difficulty).within
        (nodePiece entry.node ⟨entry.datum, firstNode entries⟩ + nodePieces entries +
          (blockPieces entry.datum entry.value +
            (entries.map fun entry => blockPieces entry.datum entry.value).sum)) there there
    refine Accounts.after asks ?_
    rw [List.map_cons, verifyBlocks]
    cases verifyBlock platform difficulty previousBlockHash entry.value.block with
    | failed code =>
      dsimp only
      rw [judged_failed]
      exact accounts_fail code ⟨rfl, 0, rfl, (zero_add _).symm⟩
    | invalid reported => exact accounts_pure false ⟨false, rfl, 0, ⟨rfl, rfl⟩, (zero_add _).symm⟩
    | valid currentBlockHash =>
      exact accounts_more (ih currentBlockHash (index + 1) rfl)
        (nodePiece entry.node ⟨entry.datum, firstNode entries⟩ + blockPieces entry.datum entry.value)
        (by rw [there]; abel) (by rw [there]; abel)

/-- The blocks of a chain that is there, with what leads to them. -/
theorem PlacedChain.pieces_cons {placed : PlacedChain} {entry : Entry PlacedBlock} {entries : List (Entry PlacedBlock)}
    (blocks : placed.blocks = entry :: entries) :
    placed.pieces = objectPiece placed.address
        (.blockchain placed.blockList placed.numLeadingZeroBytesRequiredInBlockHash) +
      (nodePieces entries + (entries.map fun entry => blockPieces entry.datum entry.value).sum) +
      (headerPiece placed.blockList (some entry.node) + nodePiece entry.node ⟨entry.datum, firstNode entries⟩ +
        blockPieces entry.datum entry.value) := by
  rw [PlacedChain.pieces, listPieces, blocks, firstNode_cons, nodePieces_cons, List.map_cons, List.sum_cons]
  abel

/-- `blockchain_verify` reads the chain that is there and comes to what it comes to. -/
theorem accounts_blockchainVerify {PKey : Type} (platform : Platform PKey) {placed : PlacedChain}
    {blockchain : Blockchain} (holds : placed.Holds blockchain) :
    Accounts storage (fun _ => True) placed.pieces (fun rounds => blockchainVerify platform placed.address rounds)
      (Expected (verdict platform blockchain) (fun isValid found now => found = isValid ∧ now = placed.pieces)
        (· = placed.pieces)) := by
  suffices passes : Accounts storage (fun _ => True) placed.pieces
      (fun rounds => blockchainVerify platform placed.address rounds)
      (Passes placed.pieces (verdict platform blockchain) Collected (· = 0)) from
    passes.mono fun _ _ passes => passes.collected
  have header : Turns storage (fun _ => onLists (ListHeap.header placed.blockList)) placed.pieces _ placed.pieces :=
    (turns_header placed.blockList (firstNode placed.blocks)).within
      (objectPiece placed.address (.blockchain placed.blockList placed.numLeadingZeroBytesRequiredInBlockHash) +
        (nodePieces placed.blocks + (placed.blocks.map fun entry => blockPieces entry.datum entry.value).sum))
      (by rw [PlacedChain.pieces, listPieces]; abel) (by rw [PlacedChain.pieces, listPieces]; abel)
  refine Accounts.after (turns_placedList placed) (Accounts.after header ?_)
  rw [verdict, LeoCoin.blockchainVerify, ← holds.blocks, ← holds.difficulty]
  cases blocks : placed.blocks with
  | nil => exact accounts_pure true ⟨true, rfl, 0, ⟨rfl, rfl⟩, (zero_add _).symm⟩
  | cons entry entries =>
    have there := PlacedChain.pieces_cons blocks
    have reads : Turns storage (fun _ => onLists (ListHeap.node entry.node)) placed.pieces _ placed.pieces :=
      (turns_node entry.node ⟨entry.datum, firstNode entries⟩).within
        (objectPiece placed.address (.blockchain placed.blockList placed.numLeadingZeroBytesRequiredInBlockHash) +
          (nodePieces entries + (entries.map fun entry => blockPieces entry.datum entry.value).sum) +
          (headerPiece placed.blockList (some entry.node) + blockPieces entry.datum entry.value))
        (by rw [there]; abel) (by rw [there]; abel)
    have block : Accounts storage (fun _ => True) placed.pieces _ (Passes placed.pieces _ _ (· = 0)) :=
      accounts_more (accounts_blockAt entry.datum entry.value (· = 0))
        (objectPiece placed.address (.blockchain placed.blockList placed.numLeadingZeroBytesRequiredInBlockHash) +
          (nodePieces entries + (entries.map fun entry => blockPieces entry.datum entry.value).sum) +
          (headerPiece placed.blockList (some entry.node) + nodePiece entry.node ⟨entry.datum, firstNode entries⟩))
        (by rw [there]; abel) (by rw [there]; abel)
    refine Accounts.after reads (accounts_passes_ok block ?_)
    rintro _ _ ⟨rfl, rfl⟩
    rw [zero_add, List.map_cons]
    dsimp only
    split
    next => exact accounts_pure false ⟨false, rfl, 0, ⟨rfl, rfl⟩, (zero_add _).symm⟩
    next => exact accounts_more (accounts_verifyLoop platform _ _ _ entries _ 1 rfl) _ there there

theorem turns_blockListLength {placed : PlacedChain} {blockchain : Blockchain} (holds : placed.Holds blockchain) :
    Turns storage (fun rounds => blockListLength placed.address rounds) placed.pieces
      (LeoCoin.linkedListLength blockchain.blockList) placed.pieces :=
  (turns_placedList placed).bind (turns_placedLength holds)

/-! ### The serializer -/

/-- The buffer under way is what there is. -/
def WrittenAt (buffer : SerializationBuffer) (written : Written) (owned : Pieces) : Prop :=
  written.buffer = buffer ∧ owned = objectPiece written.address (.raw buffer.size.toNat)

/-- A buffer whose address is lost. -/
def LostBuffer (lost : Pieces) : Prop := ∃ address size, lost = objectPiece address (.raw size)

theorem accounts_place (object : Object) (own : Pieces) :
    Accounts storage (fun _ => True) own (fun _ => place object) fun result now =>
      ∃ address, result = .ok address ∧ now = objectPiece address object + own := by
  intro process frame _ parts
  refine ⟨.ok process.objects.fresh, _, _, .of_eq fun _ => rfl, ⟨_, rfl, rfl⟩, ?_⟩
  rw [add_assoc, ← parts]
  simp [pieces, objectPiece]

/-- The new buffer, where there was none. -/
theorem accounts_placeBuffer (buffer : SerializationBuffer) (own : Pieces) :
    Accounts storage (fun _ => True) own
      (fun _ => place (.raw buffer.size.toNat) >>= fun address => (pure ⟨address, buffer⟩ : MemoryProgram Written))
      (Passes own (.ok buffer) WrittenAt LostBuffer) := by
  refine (accounts_place _ own).bind ?_ ?_
  · rintro _ _ ⟨address, ⟨⟩, rfl⟩
    exact accounts_pure _ ⟨_, rfl, _, ⟨rfl, rfl⟩, rfl⟩
  · rintro _ _ ⟨_, wrong, -⟩
    cases wrong

theorem accounts_begin (chunk : List UInt8) (own : Pieces) :
    Accounts storage (fun _ => True) own (fun _ => begin grants chunk)
      (Passes own (SerializationBuffer.extend grants chunk ⟨[], 0, 0⟩) WrittenAt
        fun lost => lost = 0 ∨ LostBuffer lost) := by
  unfold begin
  cases SerializationBuffer.extend grants chunk ⟨[], 0, 0⟩ with
  | error failure => exact accounts_fail failure ⟨rfl, 0, .inl rfl, (zero_add own).symm⟩
  | ok buffer => exact (accounts_placeBuffer buffer own).mono fun _ _ passes => passes.loosen fun _ => .inr

theorem accounts_grow (chunk : List UInt8) {buffer : SerializationBuffer} {written : Written} {owned : Pieces}
    (there : WrittenAt buffer written owned) (others : Pieces) :
    Accounts storage (fun _ => True) (owned + others) (fun _ => grow grants chunk written)
      (Passes others (buffer.extend grants chunk) WrittenAt LostBuffer) := by
  obtain ⟨rfl, rfl⟩ := there
  unfold grow
  cases written.buffer.extend grants chunk with
  | error failure => exact accounts_fail failure ⟨rfl, _, ⟨_, _, rfl⟩, rfl⟩
  | ok buffer =>
    have frees : Turns storage (fun _ => free written.address) _ () _ :=
      (turns_free written.address (.raw written.buffer.size.toNat)).within others rfl (zero_add _).symm
    exact Accounts.after frees (accounts_placeBuffer buffer others)

theorem rounds_serializeTransaction (order : ByteOrder) (grants : Nat → Nat → Bool) :
    Rounds transactionPieces
      (fun buffer (transaction : Transaction) => buffer.extend grants (writeTransaction order transaction))
      WrittenAt LostBuffer fun _ => serializeTransaction grants order := by
  intro entry buffer written owned there
  have reads : Turns storage (fun _ => transactionAt entry.datum) (owned + transactionPieces entry) _
      (owned + transactionPieces entry) :=
    (turns_transactionAt entry.datum entry.value).within owned (add_comm _ _) (add_comm _ _)
  exact Accounts.after reads (accounts_grow _ there _)

theorem rounds_serializeBlock (order : ByteOrder) (grants : Nat → Nat → Bool) :
    Rounds (fun entry : Entry PlacedBlock => blockPieces entry.datum entry.value)
      (fun buffer placed => LeoCoin.serializeBlock grants order buffer placed.block) WrittenAt LostBuffer
      (serializeBlock grants order) := by
  rintro ⟨node, block, placed⟩ buffer written owned there
  show Accounts storage (fun _ => True) (owned + blockPieces block placed)
    (fun rounds => serializeBlock grants order rounds written block)
    (Passes (blockPieces block placed) (LeoCoin.serializeBlock grants order buffer placed.block) WrittenAt LostBuffer)
  generalize own : objectPiece block (.block placed.createdAt placed.transactionList placed.proofOfWork
    placed.previousBlockHash) = fields
  have whole : blockPieces block placed =
      fields + transactionListPieces placed.transactionList placed.transactions := by rw [← own, blockPieces]
  have list : Turns storage (fun _ => transactionListOf block) (owned + blockPieces block placed)
      placed.transactionList (owned + blockPieces block placed) := by
    refine (turns_transactionListOf block placed.transactionList placed.createdAt placed.proofOfWork
      placed.previousBlockHash).within
        (owned + transactionListPieces placed.transactionList placed.transactions) ?_ ?_ <;>
    · rw [blockPieces]
      abel
  have counts : Turns storage (fun rounds => linkedListLength placed.transactionList rounds)
      (owned + blockPieces block placed) (LeoCoin.linkedListLength placed.transactions)
      (owned + blockPieces block placed) := by
    refine (turns_linkedListLength placed.transactionList placed.transactions).within
      (owned + (fields + (placed.transactions.map transactionPieces).sum)) ?_ ?_ <;>
    · rw [whole, transactionListPieces]
      abel
  have reads : Turns storage (fun _ => blockFields block) (owned + blockPieces block placed)
      ⟨placed.createdAt, placed.proofOfWork, placed.previousBlockHash⟩ (owned + blockPieces block placed) := by
    refine (turns_blockFields block placed.transactionList placed.createdAt placed.proofOfWork
      placed.previousBlockHash).within
        (owned + transactionListPieces placed.transactionList placed.transactions) ?_ ?_ <;>
    · rw [blockPieces]
      abel
  have same : LeoCoin.linkedListLength placed.transactions = LeoCoin.linkedListLength placed.block.transactionList := by
    simp [LeoCoin.linkedListLength, PlacedBlock.block]
  rw [same] at counts
  refine Accounts.after list (Accounts.after counts (Accounts.after reads ?_))
  refine accounts_passes_bind (accounts_grow (writeBlockHeader order placed.block) there _) ?_
  intro grown written owned _ there
  have loops : Accounts storage (fun _ => True) _ _ (Passes _ _ WrittenAt LostBuffer) :=
    accounts_forEach (rounds_serializeTransaction order grants) placed.transactionList placed.transactions grown written
      owned there
  refine accounts_more loops fields ?_ ?_ <;>
  · rw [whole, transactionListPieces]
    abel

/-- `blockchain_serialize` comes to what it comes to, beside the chain; where the first buffer is
refused there is nothing else, and where a later one is, the one before it. -/
theorem accounts_blockchainSerialize {placed : PlacedChain} {blockchain : Blockchain}
    (holds : placed.Holds blockchain) :
    Accounts storage (fun _ => True) placed.pieces
      (fun rounds => blockchainSerialize grants order placed.address rounds)
      (Passes placed.pieces (serializeInto grants order blockchain ⟨[], 0, 0⟩) WrittenAt
        fun lost => lost = 0 ∨ LostBuffer lost) := by
  refine Accounts.after (turns_placedList placed) (Accounts.after (turns_placedLength holds)
    (Accounts.after (turns_placedDifficulty holds) (accounts_passes_bind (accounts_begin _ _) ?_)))
  intro buffer written owned _ there
  have loops : Accounts storage (fun _ => True) _ _ (Passes _ _ WrittenAt LostBuffer) :=
    accounts_forEach (rounds_serializeBlock order grants) placed.blockList placed.blocks buffer written owned there
  have blocks : (placed.blocks.map Entry.value).foldlM
      (fun buffer placed => LeoCoin.serializeBlock grants order buffer placed.block) buffer =
        blockchain.blockList.foldlM (LeoCoin.serializeBlock grants order) buffer := by
    rw [← holds.blocks, List.foldlM_map, List.foldlM_map]
  rw [blocks] at loops
  have whole : Accounts storage (fun _ => True) (owned + placed.pieces) _ (Passes placed.pieces _ _ _) :=
    accounts_more loops (objectPiece placed.address
      (.blockchain placed.blockList placed.numLeadingZeroBytesRequiredInBlockHash))
      (by rw [PlacedChain.pieces]; abel) (by rw [PlacedChain.pieces]; abel)
  exact whole.mono fun _ _ passes => passes.loosen fun _ => .inr

end Readers

end ChainMemory

end LeoCoin
