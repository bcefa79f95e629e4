import Mathlib.Algebra.BigOperators.Group.Multiset.Basic
import Mathlib.Algebra.Order.Group.Multiset
import Mathlib.Tactic.Abel
import Mathlib.Tactic.Ring
import LeoCoin.Library.Cells
import LeoCoin.Library.Owning
import LeoCoin.ListHeap
import LeoCoin.Serialization

/-! # A chain in memory

`blockchain_deserialize` with what it allocates and frees: the chain, its blocks, their
transactions, and the lists that hold them.  What it reads and which allocations succeed is
as in `deserializeBlockchain`, whose parts it runs, but that behind the buffer there is nothing
to be read; every error path frees what it frees in the source, in that order.
-/

namespace LeoCoin

open Library.Decoding Library.Heap Library.Programs Library.Owning

/-- What is allocated besides lists and their nodes. -/
inductive Object where
  /-- what `malloc` returns -/
  | raw (size : Nat)
  | transaction (transaction : Transaction)
  | block (createdAt : Int64) (transactionList : Nat) (proofOfWork : UInt64) (previousBlockHash : Sha256)
  | blockchain (blockList : Nat) (numLeadingZeroBytesRequiredInBlockHash : UInt64)

/-- `sizeof` -/
def Object.size : Object → Nat
  | .raw size => size
  | .transaction _ => 8728
  | .block .. => 56
  | .blockchain .. => 16

/-- The memory, with the place in the buffer and the allocations so far. -/
structure Process where
  lists : ListHeap Unit
  objects : Store Object
  cursor : Cursor

abbrev MemoryProgram (β : Type) := Imperative Process Failure β

namespace ChainMemory

open Imperative

section Primitives

variable {β : Type}

/-- What the decoder reads, and what it asks for that is not looked at here.  The buffer ends with its
declared size, and nothing behind it is read. -/
def parse (input : Input) (decoder : Decoder Failure β) : MemoryProgram β := fun process =>
  if (decoder.run input process.cursor).2.position ≤ input.size then
    match decoder.run input process.cursor with
    | (.ok value, cursor) => .done (.ok value, { process with cursor })
    | (.error fault, cursor) => .done (.error (.ofFault fault), { process with cursor })
  else
    .undefined

/-- A program on lists. -/
def onLists (program : ListProgram Unit β) : MemoryProgram β := fun process =>
  program process.lists >>= fun ended => .done (ended.1, { process with lists := ended.2 })

def place (object : Object) : MemoryProgram Nat := fun process =>
  .done (.ok process.objects.fresh, { process with objects := process.objects.allocate object })

/-- Whether the next `malloc` succeeds. -/
def answer (input : Input) (size : Nat) : MemoryProgram Bool := fun process =>
  .done (.ok (input.grants process.cursor.requests.length size), { process with cursor := process.cursor.record size })

def allocate (input : Input) (size : Nat) : MemoryProgram Unit := do
  let granted ← answer input size
  require granted .couldNotMalloc

def malloc (input : Input) (size : Nat) : MemoryProgram Nat := do
  allocate input size
  place (.raw size)

def store (address : Nat) (object : Object) : MemoryProgram Unit :=
  update fun process => do
    let objects ← process.objects.write address object
    return { process with objects }

def free (address : Nat) : MemoryProgram Unit :=
  update fun process => do
    let objects ← process.objects.release address
    return { process with objects }

/-- `block->transaction_list` -/
def transactionListOf (block : Nat) : MemoryProgram Nat :=
  fetch fun process => do
    match ← process.objects.object block with
    | .block _ transactionList _ _ => return transactionList
    | _ => none

/-- `blockchain->block_list` -/
def blockListOf (blockchain : Nat) : MemoryProgram Nat :=
  fetch fun process => do
    match ← process.objects.object blockchain with
    | .blockchain blockList _ => return blockList
    | _ => none

/-- `block->created_at = created_at` -/
def setCreatedAt (block : Nat) (createdAt : Int64) : MemoryProgram Unit :=
  update fun process => do
    match ← process.objects.object block with
    | .block _ transactionList proofOfWork previousBlockHash =>
      let objects ← process.objects.write block (.block createdAt transactionList proofOfWork previousBlockHash)
      return { process with objects }
    | _ => none

end Primitives

/-! ## Lists -/

/-- `linked_list_create` without a compare function. -/
def linkedListCreate (input : Input) : MemoryProgram Nat := do
  allocate input 24
  onLists (ListHeap.create true true true none)

/-- `linked_list_append` -/
def linkedListAppend (input : Input) (linkedList data rounds : Nat) : MemoryProgram Unit := do
  let granted ← answer input ListHeap.nodeSize
  onLists (ListHeap.append (some linkedList) (some data) granted rounds)

/-- `linked_list_remove_first`; what the free function returns is not looked at. -/
def linkedListRemoveFirst (freeFunction : Nat → MemoryProgram Unit) (linkedList : Nat) : MemoryProgram Unit := do
  let first ← onLists (ListHeap.getFirst (some linkedList) true)
  let first ← onLists (ListHeap.follow first)
  let here ← onLists (ListHeap.node first)
  onLists (ListHeap.setHead linkedList here.next)
  (freeFunction here.data).attempt
  onLists (ListHeap.freeNode first)

/-- `while (!is_empty)` -/
def destroyLoop (freeFunction : Nat → MemoryProgram Unit) (linkedList : Nat) : Nat → Bool → MemoryProgram Unit
  | _, true => pure ()
  | 0, false => running
  | rounds + 1, false => do
    linkedListRemoveFirst freeFunction linkedList
    let isEmpty ← onLists (ListHeap.isEmpty (some linkedList) true)
    destroyLoop freeFunction linkedList rounds isEmpty

/-- `linked_list_destroy` -/
def linkedListDestroy (freeFunction : Nat → MemoryProgram Unit) (linkedList rounds : Nat) : MemoryProgram Unit := do
  let isEmpty ← onLists (ListHeap.isEmpty (some linkedList) true)
  destroyLoop freeFunction linkedList rounds isEmpty
  onLists (ListHeap.freeList linkedList)

/-! ## Transactions, blocks and chains -/

/-- `transaction_destroy` -/
def transactionDestroy (transaction : Nat) : MemoryProgram Unit := free transaction

/-- `block_create`; `now` is what `time(NULL)` returns. -/
def blockCreate (input : Input) (now : Int64) (transactionList : Nat) (proofOfWork : UInt64)
    (previousBlockHash : Sha256) : MemoryProgram Nat := do
  let newBlock ← malloc input 56
  store newBlock (.block now transactionList proofOfWork previousBlockHash)
  return newBlock

/-- `block_destroy` -/
def blockDestroy (rounds block : Nat) : MemoryProgram Unit := do
  let transactionList ← transactionListOf block
  (linkedListDestroy transactionDestroy transactionList rounds).ensuring (free block)

/-- `blockchain_create` -/
def blockchainCreate (input : Input) (numLeadingZeroBytesRequiredInBlockHash : UInt64) : MemoryProgram Nat := do
  let newBlockchain ← malloc input 16
  let blockList ← (linkedListCreate input).otherwise (free newBlockchain)
  store newBlockchain (.blockchain blockList numLeadingZeroBytesRequiredInBlockHash)
  return newBlockchain

/-- `blockchain_destroy` -/
def blockchainDestroy (blockchain rounds : Nat) : MemoryProgram Unit := do
  let blockList ← blockListOf blockchain
  (linkedListDestroy (blockDestroy rounds) blockList rounds).ensuring (free blockchain)

/-- `blockchain_add_block` -/
def blockchainAddBlock (input : Input) (blockchain block rounds : Nat) : MemoryProgram Unit := do
  let blockList ← blockListOf blockchain
  linkedListAppend input blockList block rounds

/-! ## `blockchain_deserialize` -/

/-- The fields of a transaction. -/
def readTransaction (order : ByteOrder) : Decoder Failure Transaction := do
  let createdAt ← readUInt64 order
  let senderPublicKey ← Decoder.checkedTake 4096
  let recipientPublicKey ← Decoder.checkedTake 4096
  let amount ← readUInt64 order
  let senderSignature ← readSignature order
  return ⟨createdAt.toInt64, ⟨senderPublicKey⟩, ⟨recipientPublicKey⟩, amount, senderSignature⟩

/-- What is read of a block before its transactions. -/
structure BlockHeader where
  createdAt : Int64
  previousBlockHash : Sha256
  proofOfWork : UInt64
  numTransactions : UInt64

def readBlockHeader (order : ByteOrder) : Decoder Failure BlockHeader := do
  let createdAt ← readUInt64 order
  let previousBlockHash ← Decoder.checkedTake 32
  let proofOfWork ← readUInt64 order
  let numTransactions ← readUInt64 order
  return ⟨createdAt.toInt64, ⟨previousBlockHash⟩, proofOfWork, numTransactions⟩

section Deserialize

variable (order : ByteOrder) (input : Input) (now : Int64) (newBlockchain rounds : Nat)

/-- `blockchain_destroy(new_blockchain); linked_list_destroy(transaction_list);` -/
def dropLists (transactionList : Nat) : MemoryProgram Unit := do
  (blockchainDestroy newBlockchain rounds).attempt
  (linkedListDestroy transactionDestroy transactionList rounds).attempt

/-- The same with `free(transaction);` -/
def dropTransaction (transactionList transaction : Nat) : MemoryProgram Unit := do
  dropLists newBlockchain rounds transactionList
  free transaction

/-- One round of the transaction loop. -/
def transactionRound (transactionList : Nat) : MemoryProgram Unit := do
  let transaction ← (malloc input 8728).otherwise (dropLists newBlockchain rounds transactionList)
  let fields ← (parse input (readTransaction order)).otherwise
    (dropTransaction newBlockchain rounds transactionList transaction)
  store transaction (.transaction fields)
  (linkedListAppend input transactionList transaction rounds).otherwise
    (dropTransaction newBlockchain rounds transactionList transaction)

/-- `for (transaction_idx = 0; transaction_idx < num_transactions; transaction_idx++)` -/
def transactionLoop (transactionList : Nat) : Nat → MemoryProgram Unit
  | 0 => pure ()
  | count + 1 => do
    transactionRound order input newBlockchain rounds transactionList
    transactionLoop transactionList count

/-- One round of the block loop. -/
def blockRound : MemoryProgram Unit := do
  let header ← (parse input (readBlockHeader order)).otherwise (blockchainDestroy newBlockchain rounds).attempt
  let transactionList ← (linkedListCreate input).otherwise (blockchainDestroy newBlockchain rounds).attempt
  transactionLoop order input newBlockchain rounds transactionList header.numTransactions.toNat
  let block ← (blockCreate input now transactionList header.proofOfWork header.previousBlockHash).otherwise
    (dropLists newBlockchain rounds transactionList)
  setCreatedAt block header.createdAt
  (blockchainAddBlock input newBlockchain block rounds).otherwise (do
    (blockchainDestroy newBlockchain rounds).attempt
    (blockDestroy rounds block).attempt)

/-- `for (block_idx = 0; block_idx < num_blocks; block_idx++)` -/
def blockLoop : Nat → MemoryProgram Unit
  | 0 => pure ()
  | count + 1 => do
    blockRound order input now newBlockchain rounds
    blockLoop count

end Deserialize

/-- `blockchain_deserialize`, with the address that it stores.  `now` is the time of all calls of
`block_create`, which is not kept. -/
def blockchainDeserialize (order : ByteOrder) (input : Input) (now : Int64) (rounds : Nat) : MemoryProgram Nat := do
  let numLeadingZeroBytesRequiredInBlockHash ← parse input (readUInt64 order)
  let newBlockchain ← blockchainCreate input numLeadingZeroBytesRequiredInBlockHash
  let numBlocks ← (parse input (readUInt64 order)).otherwise (blockchainDestroy newBlockchain rounds).attempt
  blockLoop order input now newBlockchain rounds numBlocks.toNat
  return newBlockchain

/-! ## What is there -/

/-- Lists, nodes and other objects, each with its address. -/
abbrev Pieces := Multiset (Nat × LinkedListHeader Unit) × Multiset (Nat × Node) × Multiset (Nat × Object)

def pieces (process : Process) : Pieces :=
  (process.lists.lists.cells, process.lists.nodes.cells, process.objects.cells)

def headerPiece (linkedList : Nat) (head : Option Nat) : Pieces := ({(linkedList, ⟨none, head⟩)}, 0, 0)

def nodePiece (address : Nat) (node : Node) : Pieces := (0, {(address, node)}, 0)

def objectPiece (address : Nat) (object : Object) : Pieces := (0, 0, {(address, object)})

section Lists

variable {α : Type} {heap : ListHeap Unit} {list data : Nat} {entries : List (Entry α)}
  {others : Multiset (Nat × LinkedListHeader Unit)} {rest : Multiset (Nat × Node)}

theorem isEmpty_cells {head : Option Nat} (there : heap.lists.cells = (list, ⟨none, head⟩) ::ₘ others) :
    Yields (fun _ => ListHeap.isEmpty (some list) true) heap (.ok head.isNone) heap :=
  ListHeap.isEmpty_yields (Store.object_of_cells there)

theorem setHead_cells {head : Option Nat} (there : heap.lists.cells = (list, ⟨none, head⟩) ::ₘ others)
    (target : Option Nat) :
    ∃ lists, Yields (fun _ => ListHeap.setHead list target) heap (.ok ()) { heap with lists } ∧
      lists.cells = (list, ⟨none, target⟩) ::ₘ others := by
  obtain ⟨lists, yields, now, same, -⟩ := ListHeap.setHead_yields heap (Store.object_of_cells there) target
  exact ⟨lists, yields, Store.cells_changed there now same⟩

theorem prepend_cells_refused {head : Option Nat} (there : heap.lists.cells = (list, ⟨none, head⟩) ::ₘ others)
    (data : Nat) :
    Yields (fun _ => ListHeap.prepend (some list) (some data) false) heap (.error .couldNotMalloc) heap := by
  have header : Yields (fun _ => ListHeap.header list) heap (.ok _) heap :=
    ListHeap.header_yields (Store.object_of_cells there)
  exact (yields_pure list).bind ((yields_pure data).bind
    (header.bind (ListHeap.mallocNode_refused (by simp)).bind_fail))

/-- `linked_list_prepend`, once the node is granted. -/
theorem prepend_cells (there : heap.lists.cells = (list, ⟨none, firstNode entries⟩) ::ₘ others)
    (nodes : heap.nodes.cells = nodeCells entries none + rest) (data : Nat) (value : α) (room : heap.room = true) :
    ∃ after, Yields (fun _ => ListHeap.prepend (some list) (some data) true) heap (.ok ()) after ∧
      after.lists.cells = (list, ⟨none, some heap.nodes.fresh⟩) ::ₘ others ∧
      after.nodes.cells = nodeCells (⟨heap.nodes.fresh, data, value⟩ :: entries) none + rest := by
  have header : Yields (fun _ => ListHeap.header list) heap (.ok _) heap :=
    ListHeap.header_yields (Store.object_of_cells there)
  have grants : Yields (fun _ => ListHeap.mallocNode true data (firstNode entries)) heap (.ok heap.nodes.fresh)
      { heap with nodes := heap.nodes.allocate ⟨data, firstNode entries⟩ } :=
    ListHeap.mallocNode_granted (by simp [room])
  have still : ({ heap with nodes := heap.nodes.allocate ⟨data, firstNode entries⟩ } : ListHeap Unit).lists.cells =
      (list, ⟨none, firstNode entries⟩) ::ₘ others := there
  obtain ⟨lists, sets, now⟩ := setHead_cells still (some heap.nodes.fresh)
  refine ⟨_, (yields_pure list).bind ((yields_pure data).bind (header.bind (grants.bind sets))), now, ?_⟩
  simp [nodes]

/-- The last node is found, or there is none. -/
theorem getLast_cells (there : heap.lists.cells = (list, ⟨none, firstNode entries⟩) ::ₘ others)
    (nodes : heap.nodes.cells = nodeCells entries none + rest) {kept : List (Entry α)} {last : Entry α}
    (ends : entries = kept ++ [last]) :
    Yields (fun rounds => ListHeap.getLast (some list) true rounds) heap (.ok (some last.node)) heap := by
  subst ends
  obtain ⟨first, begins⟩ := firstNode_concat_isSome kept last
  have segment := (segment_of_cells nodes).bare
  rw [Option.or_none, begins, List.map_append] at segment
  have isEmpty := isEmpty_cells there
  rw [begins] at isEmpty
  have header : Yields (fun _ => ListHeap.header list) heap (.ok _) heap :=
    ListHeap.header_yields (Store.object_of_cells there)
  refine (yields_pure list).bind ((yields_pure ()).bind (isEmpty.bind ((yields_pure ()).bind (header.bind ?_))))
  rw [begins]
  exact (yields_fetch rfl).bind ((ListHeap.lastLoop_yields segment).bind (yields_pure _))

theorem append_cells_refused (there : heap.lists.cells = (list, ⟨none, firstNode entries⟩) ::ₘ others)
    (nodes : heap.nodes.cells = nodeCells entries none + rest) (data : Nat) :
    Yields (fun rounds => ListHeap.append (some list) (some data) false rounds) heap (.error .couldNotMalloc) heap := by
  have isEmpty := isEmpty_cells there
  have refuses : Yields (fun _ => ListHeap.mallocNode false data none) heap (.error .couldNotMalloc) heap :=
    ListHeap.mallocNode_refused rfl
  cases entries using List.reverseRecOn with
  | nil =>
    exact (yields_pure list).bind ((yields_pure data).bind (isEmpty.bind (prepend_cells_refused there data)))
  | append_singleton kept last =>
    obtain ⟨first, begins⟩ := firstNode_concat_isSome kept last
    rw [begins] at isEmpty
    exact (yields_pure list).bind ((yields_pure data).bind (isEmpty.bind ((getLast_cells there nodes rfl).bind
      refuses.bind_fail)))

/-- `linked_list_append`, once the node is granted. -/
theorem append_cells (there : heap.lists.cells = (list, ⟨none, firstNode entries⟩) ::ₘ others)
    (nodes : heap.nodes.cells = nodeCells entries none + rest) (data : Nat) (value : α) (room : heap.room = true) :
    ∃ after, Yields (fun rounds => ListHeap.append (some list) (some data) true rounds) heap (.ok ()) after ∧
      after.lists.cells =
        (list, ⟨none, firstNode (entries ++ [⟨heap.nodes.fresh, data, value⟩])⟩) ::ₘ others ∧
      after.nodes.cells = nodeCells (entries ++ [⟨heap.nodes.fresh, data, value⟩]) none + rest := by
  have isEmpty := isEmpty_cells there
  cases entries using List.reverseRecOn with
  | nil =>
    obtain ⟨after, yields, now, grown⟩ := prepend_cells there nodes data value room
    exact ⟨after, (yields_pure list).bind ((yields_pure data).bind (isEmpty.bind yields)), now, grown⟩
  | append_singleton kept last =>
    obtain ⟨first, begins⟩ := firstNode_concat_isSome kept last
    rw [begins] at isEmpty
    have found := getLast_cells there nodes rfl
    have grants : Yields (fun _ => ListHeap.mallocNode true data none) heap (.ok heap.nodes.fresh)
        { heap with nodes := heap.nodes.allocate ⟨data, none⟩ } := ListHeap.mallocNode_granted (by simp [room])
    -- the last node, beside the new one and all the others
    have grown : (heap.nodes.allocate ⟨data, none⟩).cells = (last.node, ⟨last.datum, none⟩) ::ₘ
        ((heap.nodes.fresh, ⟨data, none⟩) ::ₘ (nodeCells kept (some last.node) + rest)) := by
      rw [Store.cells_allocate, nodes, nodeCells_append]
      simp only [nodeCells_cons, nodeCells_nil, firstNode_cons, firstNode_nil, Option.or_none, ← Multiset.singleton_add]
      abel
    obtain ⟨after, sets, now, same, -⟩ := ListHeap.setNext_yields
      { heap with nodes := heap.nodes.allocate ⟨data, none⟩ } (Store.object_of_cells grown) (some heap.nodes.fresh)
    refine ⟨_, (yields_pure list).bind ((yields_pure data).bind (isEmpty.bind (found.bind
      (grants.bind ((yields_fetch rfl).bind sets))))), ?_, ?_⟩
    · rw [firstNode_concat_concat]
      exact there
    · rw [Store.cells_changed grown now same, nodeCells_append, nodeCells_append]
      simp only [nodeCells_cons, nodeCells_nil, firstNode_cons, firstNode_nil, Option.or_none, Option.none_or,
        Option.some_or,
        ← Multiset.singleton_add]
      abel

end Lists

/-! ## Parts of a decoder and steps on what is there -/

/-- What a decoder computes, with the return codes for its faults, as long as it stays in the buffer. -/
def described {β : Type} (input : Input) (decoder : Decoder Failure β) : Description Cursor Failure β := fun cursor =>
  if decoder.Overruns input cursor then
    .undefined
  else
    .done ((decoder.run input cursor).1.mapError .ofFault, (decoder.run input cursor).2)

/-- The number of bytes that are allocated. -/
def weight (pieces : Pieces) : Nat :=
  24 * pieces.1.card + ListHeap.nodeSize * pieces.2.1.card + (pieces.2.2.map fun cell => cell.2.size).sum

/-- There is no more than the `used` bytes at the start and what has been granted since, and the place
is in the buffer. -/
structure Affordable (input : Input) (used : Nat) (cursor : Cursor) (pieces : Pieces) : Prop where
  inside : cursor.position ≤ input.size
  granted : Granted input.grants cursor.requests
  bounded : weight pieces ≤ used + cursor.requests.sum

def outlook (input : Input) (used : Nat) : Outlook Process Pieces Cursor where
  parts := pieces
  view := Process.cursor
  sound := Affordable input used

@[simp] theorem outlook_parts (input : Input) (used : Nat) : (outlook input used).parts = pieces := rfl

@[simp] theorem outlook_view (input : Input) (used : Nat) : (outlook input used).view = Process.cursor := rfl

/-- What is there and what is granted is in one address space. -/
def Spacious (input : Input) (used : Nat) : Prop :=
  ∀ requests, Granted input.grants requests → used + requests.sum < 2 ^ 64

theorem weight_add (left right : Pieces) : weight (left + right) = weight left + weight right := by
  simp only [weight, Prod.fst_add, Prod.snd_add, Multiset.card_add, Multiset.map_add, Multiset.sum_add]
  ring

@[simp] theorem weight_headerPiece (linkedList : Nat) (head : Option Nat) :
    weight (headerPiece linkedList head) = 24 := by
  simp [weight, headerPiece]

@[simp] theorem weight_nodePiece (address : Nat) (node : Node) : weight (nodePiece address node) = 16 := by
  simp [weight, nodePiece, ListHeap.nodeSize]

@[simp] theorem weight_objectPiece (address : Nat) (object : Object) :
    weight (objectPiece address object) = object.size := by
  simp [weight, objectPiece]

theorem Affordable.mono {input : Input} {used : Nat} {own kept : Pieces} (light : weight kept ≤ weight own)
    (cursor : Cursor) (frame : Pieces) (affordable : Affordable input used cursor (own + frame)) :
    Affordable input used cursor (kept + frame) := by
  have bounded := affordable.bounded
  rw [weight_add] at bounded
  refine ⟨affordable.inside, affordable.granted, ?_⟩
  rw [weight_add]
  omega

section Steps

variable {input : Input} {used : Nat} {β : Type}

theorem onLists_yields {program : Nat → ListProgram Unit β} {process : Process} {result : Except Failure β}
    {after : ListHeap Unit} (yields : Yields program process.lists result after) :
    Yields (fun rounds => onLists (program rounds)) process result { process with lists := after } :=
  Library.Programs.ComesTo.bind yields (.of_eq fun _ => rfl)

/-- What a program on lists does to what is there. -/
theorem turns_onLists {program : Nat → ListProgram Unit β} {own kept : Pieces} {result : β}
    (noObject : own.2.2 = 0) (stillNone : kept.2.2 = 0)
    (does : ∀ heap others rest, heap.lists.cells = own.1 + others → heap.nodes.cells = own.2.1 + rest →
      ∃ after, Yields program heap (.ok result) after ∧ after.lists.cells = kept.1 + others ∧
        after.nodes.cells = kept.2.1 + rest) :
    Turns (outlook input used) (fun rounds => onLists (program rounds)) own result kept := by
  intro process frame parts
  obtain ⟨lists, nodes, objects⟩ : process.lists.lists.cells = own.1 + frame.1 ∧
      process.lists.nodes.cells = own.2.1 + frame.2.1 ∧ process.objects.cells = own.2.2 + frame.2.2 := by
    simpa [outlook, pieces, Prod.ext_iff] using parts
  obtain ⟨after, yields, lists, nodes⟩ := does _ _ _ lists nodes
  refine ⟨_, onLists_yields yields, rfl, ?_⟩
  simp [outlook, pieces, Prod.ext_iff, lists, nodes, objects, noObject, stillNone]

theorem turns_isEmpty (linkedList : Nat) (head : Option Nat) :
    Turns (outlook input used) (fun _ => onLists (ListHeap.isEmpty (some linkedList) true))
      (headerPiece linkedList head) head.isNone (headerPiece linkedList head) := by
  refine turns_onLists rfl rfl fun heap others rest lists nodes => ⟨heap, ?_, lists, nodes⟩
  exact isEmpty_cells (lists.trans (Multiset.singleton_add _ _))

theorem turns_getFirst (linkedList first : Nat) :
    Turns (outlook input used) (fun _ => onLists (ListHeap.getFirst (some linkedList) true))
      (headerPiece linkedList (some first)) (some first) (headerPiece linkedList (some first)) := by
  refine turns_onLists rfl rfl fun heap others rest lists nodes => ⟨heap, ?_, lists, nodes⟩
  exact ListHeap.getFirst_yields (Store.object_of_cells (lists.trans (Multiset.singleton_add _ _))) rfl

theorem turns_follow (pointer : Nat) :
    Turns (outlook input used) (fun _ => onLists (ListHeap.follow (some pointer))) 0 pointer 0 :=
  turns_onLists rfl rfl fun heap _ _ lists nodes => ⟨heap, yields_fetch rfl, lists, nodes⟩

theorem turns_node (address : Nat) (here : Node) :
    Turns (outlook input used) (fun _ => onLists (ListHeap.node address)) (nodePiece address here) here
      (nodePiece address here) := by
  refine turns_onLists rfl rfl fun heap others rest lists nodes => ⟨heap, ?_, lists, nodes⟩
  exact ListHeap.node_yields (Store.object_of_cells (nodes.trans (Multiset.singleton_add _ _)))

theorem turns_setHead (linkedList : Nat) (head target : Option Nat) :
    Turns (outlook input used) (fun _ => onLists (ListHeap.setHead linkedList target)) (headerPiece linkedList head) ()
      (headerPiece linkedList target) := by
  refine turns_onLists rfl rfl fun heap others rest lists nodes => ?_
  obtain ⟨after, yields, now⟩ := setHead_cells (lists.trans (Multiset.singleton_add _ _)) target
  exact ⟨_, yields, now.trans (Multiset.singleton_add _ _).symm, nodes⟩

theorem turns_freeNode (address : Nat) (here : Node) :
    Turns (outlook input used) (fun _ => onLists (ListHeap.freeNode address)) (nodePiece address here) () 0 := by
  refine turns_onLists rfl rfl fun heap others rest lists nodes => ?_
  obtain ⟨after, released, now⟩ := Store.release_of_cells (nodes.trans (Multiset.singleton_add _ _))
  have frees : Yields (fun _ => ListHeap.freeNode address) heap (.ok ()) { heap with nodes := after } :=
    yields_update (by simp [released])
  exact ⟨_, frees, lists, now.trans (zero_add rest).symm⟩

theorem turns_freeList (linkedList : Nat) (head : Option Nat) :
    Turns (outlook input used) (fun _ => onLists (ListHeap.freeList linkedList)) (headerPiece linkedList head) ()
      0 := by
  refine turns_onLists rfl rfl fun heap others rest lists nodes => ?_
  obtain ⟨after, released, now⟩ := Store.release_of_cells (lists.trans (Multiset.singleton_add _ _))
  have frees : Yields (fun _ => ListHeap.freeList linkedList) heap (.ok ()) { heap with lists := after } :=
    yields_update (by simp [released])
  exact ⟨_, frees, now.trans (zero_add others).symm, nodes⟩

theorem objects_of_pieces {process : Process} {address : Nat} {object : Object} {frame : Pieces}
    (parts : (outlook input used).parts process = objectPiece address object + frame) :
    process.lists.lists.cells = frame.1 ∧ process.lists.nodes.cells = frame.2.1 ∧
      process.objects.cells = (address, object) ::ₘ frame.2.2 := by
  simpa [outlook, pieces, objectPiece, Prod.ext_iff] using parts

/-- What a write to an object, or its end, does to what is there. -/
theorem turns_update {write : Process → Option Process} {address : Nat} {was : Object} {kept : Multiset (Nat × Object)}
    (does : ∀ process rest, process.objects.cells = (address, was) ::ₘ rest →
      ∃ objects, write process = some { process with objects } ∧ objects.cells = kept + rest) :
    Turns (outlook input used) (fun _ => (update write : MemoryProgram Unit)) (objectPiece address was) ()
      (0, 0, kept) := by
  intro process frame parts
  obtain ⟨lists, nodes, cells⟩ := objects_of_pieces parts
  obtain ⟨objects, wrote, now⟩ := does process _ cells
  refine ⟨_, yields_update wrote, rfl, ?_⟩
  simp [outlook, pieces, Prod.ext_iff, lists, nodes, now]

theorem turns_store (address : Nat) (was object : Object) :
    Turns (outlook input used) (fun _ => store address object) (objectPiece address was) ()
      (objectPiece address object) := by
  refine turns_update fun process rest objects => ?_
  obtain ⟨after, wrote, now⟩ := Store.write_of_cells objects object
  exact ⟨after, by simp [wrote], now.trans (Multiset.singleton_add _ _).symm⟩

theorem turns_free (address : Nat) (object : Object) :
    Turns (outlook input used) (fun _ => free address) (objectPiece address object) () 0 := by
  refine turns_update fun process rest objects => ?_
  obtain ⟨after, released, now⟩ := Store.release_of_cells objects
  exact ⟨after, by simp [released], now.trans (zero_add rest).symm⟩

theorem turns_setCreatedAt (block list : Nat) (was createdAt : Int64) (proofOfWork : UInt64) (hash : Sha256) :
    Turns (outlook input used) (fun _ => setCreatedAt block createdAt)
      (objectPiece block (.block was list proofOfWork hash)) ()
      (objectPiece block (.block createdAt list proofOfWork hash)) := by
  refine turns_update fun process rest objects => ?_
  obtain ⟨after, wrote, now⟩ := Store.write_of_cells objects (.block createdAt list proofOfWork hash)
  exact ⟨after, by simp [Store.object_of_cells objects, wrote], now.trans (Multiset.singleton_add _ _).symm⟩

theorem turns_transactionListOf (block list : Nat) (createdAt : Int64) (proofOfWork : UInt64) (hash : Sha256) :
    Turns (outlook input used) (fun _ => transactionListOf block)
      (objectPiece block (.block createdAt list proofOfWork hash)) list
      (objectPiece block (.block createdAt list proofOfWork hash)) := by
  intro process frame parts
  have there := Store.object_of_cells (objects_of_pieces parts).2.2
  exact ⟨process, yields_fetch (by simp [there]), rfl, parts⟩

theorem turns_blockListOf (blockchain list : Nat) (difficulty : UInt64) :
    Turns (outlook input used) (fun _ => blockListOf blockchain) (objectPiece blockchain (.blockchain list difficulty))
      list (objectPiece blockchain (.blockchain list difficulty)) := by
  intro process frame parts
  have there := Store.object_of_cells (objects_of_pieces parts).2.2
  exact ⟨process, yields_fetch (by simp [there]), rfl, parts⟩

end Steps

/-! ## Lists, blocks and chains -/

def nodePieces {α : Type} (entries : List (Entry α)) : Pieces := (0, nodeCells entries none, 0)

/-- A list and its nodes, without what is in it. -/
def listPieces {α : Type} (linkedList : Nat) (entries : List (Entry α)) : Pieces :=
  headerPiece linkedList (firstNode entries) + nodePieces entries

def transactionPieces (entry : Entry Transaction) : Pieces := objectPiece entry.datum (.transaction entry.value)

/-- A block, and where its list and the nodes of that are. -/
structure PlacedBlock where
  createdAt : Int64
  transactionList : Nat
  transactions : List (Entry Transaction)
  proofOfWork : UInt64
  previousBlockHash : Sha256

def PlacedBlock.block (placed : PlacedBlock) : Block :=
  ⟨placed.createdAt, placed.transactions.map Entry.value, placed.proofOfWork, placed.previousBlockHash⟩

/-- A list of transactions. -/
def transactionListPieces (transactionList : Nat) (transactions : List (Entry Transaction)) : Pieces :=
  listPieces transactionList transactions + (transactions.map transactionPieces).sum

def blockPieces (address : Nat) (placed : PlacedBlock) : Pieces :=
  objectPiece address (.block placed.createdAt placed.transactionList placed.proofOfWork placed.previousBlockHash) +
    transactionListPieces placed.transactionList placed.transactions

/-- A chain, and where its parts are. -/
structure PlacedChain where
  address : Nat
  blockList : Nat
  blocks : List (Entry PlacedBlock)
  numLeadingZeroBytesRequiredInBlockHash : UInt64

def PlacedChain.pieces (placed : PlacedChain) : Pieces :=
  objectPiece placed.address (.blockchain placed.blockList placed.numLeadingZeroBytesRequiredInBlockHash) +
    (listPieces placed.blockList placed.blocks +
      (placed.blocks.map fun entry => blockPieces entry.datum entry.value).sum)

/-- What is placed there is this chain. -/
structure PlacedChain.Holds (placed : PlacedChain) (blockchain : Blockchain) : Prop where
  blocks : placed.blocks.map (fun entry => entry.value.block) = blockchain.blockList
  difficulty : placed.numLeadingZeroBytesRequiredInBlockHash = blockchain.numLeadingZeroBytesRequiredInBlockHash

@[simp] theorem nodePieces_nil {α : Type} : nodePieces ([] : List (Entry α)) = 0 := rfl

theorem nodePieces_cons {α : Type} (entry : Entry α) (entries : List (Entry α)) :
    nodePieces (entry :: entries) = nodePiece entry.node ⟨entry.datum, firstNode entries⟩ + nodePieces entries := by
  simp [nodePieces, nodePiece]

@[simp] theorem weight_nodePieces {α : Type} (entries : List (Entry α)) :
    weight (nodePieces entries) = 16 * entries.length := by
  simp [weight, nodePieces, ListHeap.nodeSize]

section Destroy

variable {input : Input} {used : Nat} {α : Type}

theorem turns_removeFirst {freeFunction : Nat → Nat → MemoryProgram Unit} {linkedList node datum : Nat}
    {next : Option Nat} {data : Pieces} (frees : Turns (outlook input used) (freeFunction · datum) data () 0) :
    Turns (outlook input used) (fun rounds => linkedListRemoveFirst (freeFunction rounds) linkedList)
      (headerPiece linkedList (some node) + (nodePiece node ⟨datum, next⟩ + data)) ()
      (headerPiece linkedList next) := by
  have sets : Turns (outlook input used) _ _ _ _ := turns_setHead linkedList (some node) next
  refine ((turns_getFirst linkedList node).beside _).bind ?_
  refine ((turns_follow node).within _ (zero_add _).symm (zero_add _).symm).bind ?_
  refine ((turns_node node ⟨datum, next⟩).within (headerPiece linkedList (some node) + data) (by abel) rfl).bind ?_
  refine (sets.within (nodePiece node ⟨datum, next⟩ + data) (by abel) rfl).bind ?_
  refine (frees.attempt.within (headerPiece linkedList next + nodePiece node ⟨datum, next⟩) (by abel) rfl).bind ?_
  exact (turns_freeNode node ⟨datum, next⟩).within (headerPiece linkedList next) (by abel) (by abel)

/-- Induction on the entries; each round of the loop takes the first one away. -/
theorem turns_destroyLoop {freeFunction : Nat → Nat → MemoryProgram Unit} {own : Entry α → Pieces}
    (linkedList : Nat) (entries : List (Entry α))
    (frees : ∀ entry ∈ entries, Turns (outlook input used) (freeFunction · entry.datum) (own entry) () 0) :
    Turns (outlook input used)
      (fun rounds => destroyLoop (freeFunction rounds) linkedList rounds (firstNode entries).isNone)
      (listPieces linkedList entries + (entries.map own).sum) () (headerPiece linkedList none) := by
  induction entries generalizing freeFunction with
  | nil =>
    have empty : (fun rounds => destroyLoop (freeFunction rounds) linkedList rounds true) = fun _ => pure () := by
      funext rounds
      cases rounds <;> rfl
    simp only [firstNode_nil, Option.isNone_none, empty, listPieces, nodePieces_nil, List.map_nil, List.sum_nil,
      add_zero]
    exact turns_pure () _
  | cons entry entries ih =>
    have first := (frees entry List.mem_cons_self).later
    have others : Turns (outlook input used)
        (fun rounds => destroyLoop (freeFunction (rounds + 1)) linkedList rounds (firstNode entries).isNone)
        (listPieces linkedList entries + (entries.map own).sum) () (headerPiece linkedList none) :=
      ih fun other member => (frees other (List.mem_cons_of_mem _ member)).later
    have removes : Turns (outlook input used)
        (fun rounds => linkedListRemoveFirst (freeFunction (rounds + 1)) linkedList)
        (headerPiece linkedList (some entry.node) + (nodePiece entry.node ⟨entry.datum, firstNode entries⟩ + own entry))
        () (headerPiece linkedList (firstNode entries)) := turns_removeFirst first
    refine Turns.succ ((removes.within (nodePieces entries + (entries.map own).sum) ?_ rfl).bind ?_)
    · rw [listPieces, nodePieces_cons, List.map_cons, List.sum_cons, firstNode_cons]
      abel
    · refine ((turns_isEmpty linkedList (firstNode entries)).beside _).bind ?_
      refine others.within 0 ?_ (add_zero _).symm
      rw [listPieces]
      abel

/-- A list is gone with all that it leads to. -/
theorem turns_linkedListDestroy {freeFunction : Nat → Nat → MemoryProgram Unit} {own : Entry α → Pieces}
    (linkedList : Nat) (entries : List (Entry α))
    (frees : ∀ entry ∈ entries, Turns (outlook input used) (freeFunction · entry.datum) (own entry) () 0) :
    Turns (outlook input used) (fun rounds => linkedListDestroy (freeFunction rounds) linkedList rounds)
      (listPieces linkedList entries + (entries.map own).sum) () 0 := by
  refine ((turns_isEmpty linkedList (firstNode entries)).within (nodePieces entries + (entries.map own).sum) ?_
    rfl).bind ?_
  · rw [listPieces]
    abel
  · refine ((turns_destroyLoop linkedList entries frees).within 0 ?_ (add_zero _).symm).bind
      (turns_freeList linkedList none)
    rw [listPieces]
    abel

theorem turns_transactionListDestroy (transactionList : Nat) (transactions : List (Entry Transaction)) :
    Turns (outlook input used) (fun rounds => linkedListDestroy transactionDestroy transactionList rounds)
      (transactionListPieces transactionList transactions) () 0 :=
  turns_linkedListDestroy transactionList transactions fun entry _ => turns_free entry.datum _

theorem turns_blockDestroy (block : Nat) (placed : PlacedBlock) :
    Turns (outlook input used) (fun rounds => blockDestroy rounds block) (blockPieces block placed) () 0 := by
  refine ((turns_transactionListOf block _ _ _ _).beside _).bind ?_
  have destroys : Turns (outlook input used) _ _ _ _ :=
    turns_transactionListDestroy placed.transactionList placed.transactions
  exact (destroys.within _ (add_comm _ _) (zero_add _).symm).ensuring (turns_free block _)

/-- `blockchain_destroy` frees what a chain consists of, once, and nothing else. -/
theorem turns_blockchainDestroy (placed : PlacedChain) :
    Turns (outlook input used) (fun rounds => blockchainDestroy placed.address rounds) placed.pieces () 0 := by
  refine ((turns_blockListOf placed.address _ _).beside _).bind ?_
  have destroys : Turns (outlook input used)
      (fun rounds => linkedListDestroy (blockDestroy rounds) placed.blockList rounds)
      (listPieces placed.blockList placed.blocks +
        (placed.blocks.map fun entry => blockPieces entry.datum entry.value).sum) () 0 :=
    turns_linkedListDestroy placed.blockList placed.blocks fun entry _ => turns_blockDestroy entry.datum entry.value
  exact (destroys.within _ (add_comm _ _) (zero_add _).symm).ensuring (turns_free placed.address _)

end Destroy

/-! ## Allocations -/

section Allocations

variable {input : Input} {used : Nat} {α β : Type}

theorem described_bind {α β : Type} (input : Input) (decoder : Decoder Failure α) (rest : α → Decoder Failure β) :
    described input (decoder >>= rest) = (described input decoder).bind fun value => described input (rest value) := by
  funext cursor
  by_cases leaves : decoder.Overruns input cursor
  · have all : (decoder >>= rest).Overruns input cursor :=
      ⟨leaves.1, leaves.2.trans_le (Decoder.run_position_bind_le decoder rest input cursor)⟩
    simp only [described, Description.bind, if_pos leaves, if_pos all]
  · have within : described input decoder cursor = .done (_, _) := if_neg leaves
    rw [Description.bind, within]
    rcases first : decoder.run input cursor with ⟨fault | value, reached⟩
    · have whole : (decoder >>= rest).run input cursor = (.error fault, reached) := by rw [Decoder.run_bind, first]
      have stays : ¬ (decoder >>= rest).Overruns input cursor := by
        rw [Decoder.Overruns, whole]
        rwa [Decoder.Overruns, first] at leaves
      rw [described, if_neg stays, whole]
      rfl
    · -- the rest is run from where the first part has come to
      have whole : (decoder >>= rest).run input cursor = (rest value).run input reached := Decoder.run_bind_ok first
      have same : (decoder >>= rest).Overruns input cursor ↔ (rest value).Overruns input reached := by
        have behind := Decoder.run_position_le decoder input cursor
        rw [Decoder.Overruns, first] at leaves
        rw [first] at behind
        dsimp only at leaves behind
        rw [Decoder.Overruns, Decoder.Overruns, whole]
        omega
      simp only [described, whole, same]
      rfl

theorem described_of_guarded {α : Type} {decoder : Decoder Failure α} (guarded : decoder.Guarded) (input : Input)
    (cursor : Cursor) :
    described input decoder cursor =
      .done ((decoder.run input cursor).1.mapError .ofFault, (decoder.run input cursor).2) :=
  if_neg (guarded input cursor)

@[simp] theorem described_done {α : Type} (input : Input) (value : α) :
    described input (Decoder.done value) = Description.done value :=
  funext fun _ => if_neg fun leaves => Nat.lt_irrefl _ (leaves.2.trans_le leaves.1)

theorem described_repeatTimes {α : Type} (input : Input) (round : α → Decoder Failure α) (count : Nat) (value : α) :
    described input (Decoder.repeatTimes count round value) =
      Description.times (fun value => described input (round value)) count value := by
  induction count generalizing value with
  | zero => exact described_done input value
  | succ count ih =>
    rw [Decoder.repeatTimes, described_bind, Description.times]
    exact congrArg _ (funext ih)

theorem realizes_parse (decoder : Decoder Failure β) (own : Pieces) :
    Realizes (outlook input used) (described input decoder) (fun _ => parse input decoder) own
      (fun value result owned => result = value ∧ owned = own) (· = own) := by
  intro process frame fine parts
  rw [outlook_view, described]
  by_cases leaves : decoder.Overruns input process.cursor
  · rw [if_pos leaves]
    exact .of_eq fun _ => by simp [parse, leaves.2]
  · rw [if_neg leaves]
    have stays : (decoder.run input process.cursor).2.position ≤ input.size :=
      Nat.not_lt.mp fun outside => leaves ⟨fine.inside, outside⟩
    rcases ran : decoder.run input process.cursor with ⟨fault | value, reached⟩
    · rw [ran] at stays
      exact ⟨{ process with cursor := reached }, own, .of_eq fun _ => by simp [parse, ran, stays], rfl, rfl, parts⟩
    · obtain ⟨granted, more⟩ := Decoder.granted_of_run ran fine.granted
      rw [ran] at stays
      refine ⟨value, { process with cursor := reached }, own, .of_eq fun _ => by simp [parse, ran, stays], rfl,
        ⟨stays, granted, ?_⟩, ⟨rfl, rfl⟩, parts⟩
      exact Nat.le_trans fine.bounded (Nat.add_le_add_left more used)

/-- A program that asks for memory once, and puts no more there than it has asked for. -/
theorem realizes_allocate {program : Nat → MemoryProgram β} {size : Nat} {own : Pieces}
    {left : Unit → β → Pieces → Prop}
    (refused : ∀ process frame, input.grants process.cursor.requests.length size = false →
      pieces process = own + frame →
      Yields program process (.error .couldNotMalloc) { process with cursor := process.cursor.record size })
    (granted : ∀ process frame, input.grants process.cursor.requests.length size = true →
      (outlook input used).Fine process → pieces process = own + frame →
      ∃ result after owned, Yields program process (.ok result) after ∧
        after.cursor = process.cursor.record size ∧ weight owned ≤ weight own + size ∧ left () result owned ∧
        pieces after = owned + frame) :
    Realizes (outlook input used) (described input (Decoder.allocate size)) program own left (· = own) := by
  intro process frame fine parts
  rw [outlook_view, described_of_guarded (Decoder.guarded_allocate size), Decoder.run_allocate]
  cases grants : input.grants process.cursor.requests.length size with
  | false => exact ⟨_, own, refused process frame grants parts, rfl, rfl, parts⟩
  | true =>
    obtain ⟨result, after, owned, yields, cursor, light, holds, now⟩ := granted process frame grants fine parts
    refine ⟨result, after, owned, yields, cursor, ⟨?_, ?_, ?_⟩, holds, now⟩
    · rw [outlook_view, cursor]
      exact fine.inside
    · rw [outlook_view, cursor]
      exact ⟨grants, fine.granted⟩
    · have bounded : weight (pieces process) ≤ used + process.cursor.requests.sum := fine.bounded
      rw [show pieces process = own + frame from parts, weight_add] at bounded
      rw [outlook_view, outlook_parts, cursor, now, weight_add, Cursor.record, List.sum_cons]
      omega

theorem allocate_yields (input : Input) (size : Nat) (process : Process) :
    Yields (fun _ => allocate input size) process
      (if input.grants process.cursor.requests.length size then .ok () else .error .couldNotMalloc)
      { process with cursor := process.cursor.record size } := by
  have answers : Yields (fun _ => answer input size) process
      (.ok (input.grants process.cursor.requests.length size))
      { process with cursor := process.cursor.record size } := .of_eq fun _ => rfl
  refine answers.bind (.of_eq fun _ => ?_)
  cases input.grants process.cursor.requests.length size <;> rfl

theorem realizes_malloc (size : Nat) (own : Pieces) :
    Realizes (outlook input used) (described input (Decoder.allocate size)) (fun _ => malloc input size) own
      (fun _ address owned => owned = objectPiece address (.raw size) + own) (· = own) := by
  refine realizes_allocate (fun process _ refused _ => ?_) fun process frame granted _ parts => ?_
  · have asks := allocate_yields input size process
    rw [refused] at asks
    exact asks.bind_fail
  · have asks := allocate_yields input size process
    rw [granted] at asks
    refine ⟨_, _, _, asks.bind (.of_eq fun _ => rfl), rfl, ?_, rfl, ?_⟩
    · simp [weight_add, Object.size, Nat.add_comm]
    · rw [add_assoc, ← parts]
      simp [pieces, objectPiece]

theorem realizes_linkedListCreate (own : Pieces) :
    Realizes (outlook input used) (described input (Decoder.allocate 24)) (fun _ => linkedListCreate input) own
      (fun _ linkedList owned => owned = headerPiece linkedList none + own) (· = own) := by
  refine realizes_allocate (fun process _ refused _ => ?_) fun process frame granted _ parts => ?_
  · have asks := allocate_yields input 24 process
    rw [refused] at asks
    exact asks.bind_fail
  · have asks := allocate_yields input 24 process
    rw [granted] at asks
    have creates : Yields (fun _ => ListHeap.create true true true none) process.lists (.ok process.lists.lists.fresh)
        { process.lists with lists := process.lists.lists.allocate ⟨none, none⟩ } :=
      (yields_pure ()).bind (yields_granted rfl)
    refine ⟨_, _, _, asks.bind (onLists_yields creates), rfl, ?_, rfl, ?_⟩
    · simp [weight_add, Nat.add_comm]
    · rw [add_assoc, ← parts]
      simp [pieces, headerPiece]

/-- The node that is granted has an address. -/
theorem room_of_granted (spacious : Spacious input used) {process : Process} (fine : (outlook input used).Fine process)
    (granted : input.grants process.cursor.requests.length ListHeap.nodeSize = true) : process.lists.room = true := by
  have bounded : weight (pieces process) ≤ used + process.cursor.requests.sum := fine.bounded
  have whole := spacious (ListHeap.nodeSize :: process.cursor.requests) ⟨granted, fine.granted⟩
  have counted : process.lists.nodes.cells.card = process.lists.nodes.count := process.lists.nodes.card_cells
  simp only [weight, pieces, counted] at bounded
  rw [ListHeap.room, decide_eq_true_eq]
  rw [List.sum_cons] at whole
  rw [Nat.mul_add]
  omega

/-- A function that adds a node to a list, once it is granted. -/
theorem realizes_addNode (spacious : Spacious input used) (linkedList : Nat) (entries : List (Entry α))
    (grown : Nat → List (Entry α)) (longer : ∀ node, (grown node).length = entries.length + 1)
    {add : Bool → Nat → ListProgram Unit Unit}
    (refuses : ∀ heap others rest, heap.lists.cells = (linkedList, ⟨none, firstNode entries⟩) ::ₘ others →
      heap.nodes.cells = nodeCells entries none + rest → Yields (add false) heap (.error .couldNotMalloc) heap)
    (adds : ∀ heap others rest, heap.lists.cells = (linkedList, ⟨none, firstNode entries⟩) ::ₘ others →
      heap.nodes.cells = nodeCells entries none + rest → heap.room = true →
      ∃ after, Yields (add true) heap (.ok ()) after ∧
        after.lists.cells = (linkedList, ⟨none, firstNode (grown heap.nodes.fresh)⟩) ::ₘ others ∧
        after.nodes.cells = nodeCells (grown heap.nodes.fresh) none + rest) :
    Realizes (outlook input used) (described input (Decoder.allocate 16))
      (fun rounds => answer input ListHeap.nodeSize >>= fun granted => onLists (add granted rounds))
      (listPieces linkedList entries) (fun _ _ owned => ∃ node, owned = listPieces linkedList (grown node))
      (· = listPieces linkedList entries) := by
  have cells (process : Process) (frame : Pieces) (parts : pieces process = listPieces linkedList entries + frame) :
      process.lists.lists.cells = (linkedList, ⟨none, firstNode entries⟩) ::ₘ frame.1 ∧
        process.lists.nodes.cells = nodeCells entries none + frame.2.1 ∧ process.objects.cells = frame.2.2 := by
    simpa [pieces, listPieces, headerPiece, nodePieces, Prod.ext_iff] using parts
  have answers (process : Process) {granted : Bool}
      (answered : input.grants process.cursor.requests.length 16 = granted) :
      Yields (fun _ => answer input ListHeap.nodeSize) process (.ok granted)
        { process with cursor := process.cursor.record 16 } :=
    .of_eq fun _ => by simp [answer, ListHeap.nodeSize, answered]
  refine realizes_allocate (fun process frame refused parts => ?_) fun process frame granted fine parts => ?_
  · obtain ⟨lists, nodes, -⟩ := cells process frame parts
    exact (answers process refused).bind (onLists_yields (refuses _ _ _ lists nodes))
  · obtain ⟨lists, nodes, objects⟩ := cells process frame parts
    obtain ⟨after, yields, listsNow, nodesNow⟩ := adds _ _ _ lists nodes (room_of_granted spacious fine granted)
    refine ⟨_, _, _, (answers process granted).bind (onLists_yields yields), rfl, ?_,
      ⟨process.lists.nodes.fresh, rfl⟩, ?_⟩
    · simp only [listPieces, weight_add, weight_headerPiece, weight_nodePieces, longer]
      omega
    · simp [pieces, listPieces, headerPiece, nodePieces, Prod.ext_iff, listsNow, nodesNow, objects]

theorem realizes_linkedListAppend (spacious : Spacious input used) (linkedList data : Nat) (value : α)
    (entries : List (Entry α)) :
    Realizes (outlook input used) (described input (Decoder.allocate 16))
      (fun rounds => linkedListAppend input linkedList data rounds) (listPieces linkedList entries)
      (fun _ _ owned => ∃ node, owned = listPieces linkedList (entries ++ [⟨node, data, value⟩]))
      (· = listPieces linkedList entries) :=
  realizes_addNode spacious linkedList entries _ (by simp)
    (fun _ _ _ lists nodes => append_cells_refused lists nodes data)
    fun _ _ _ lists nodes room => append_cells lists nodes data value room

end Allocations

/-! ## `blockchain_deserialize` -/

section Rounds

variable {order : ByteOrder} {input : Input} {now : Int64} {used : Nat}

theorem turns_dropLists (placed : PlacedChain) (transactionList : Nat) (transactions : List (Entry Transaction)) :
    Turns (outlook input used) (fun rounds => dropLists placed.address rounds transactionList)
      (placed.pieces + transactionListPieces transactionList transactions) () 0 :=
  ((turns_blockchainDestroy placed).attempt.beside _).bind
    ((turns_transactionListDestroy transactionList transactions).attempt.within 0 (by abel) (by abel))

theorem turns_dropTransaction (placed : PlacedChain) (transactionList transaction : Nat)
    (transactions : List (Entry Transaction)) (object : Object) :
    Turns (outlook input used) (fun rounds => dropTransaction placed.address rounds transactionList transaction)
      (objectPiece transaction object + (placed.pieces + transactionListPieces transactionList transactions)) () 0 := by
  have drops : Turns (outlook input used) _ _ _ _ := turns_dropLists placed transactionList transactions
  exact (drops.within (objectPiece transaction object) (by abel) (zero_add _).symm).bind (turns_free transaction object)

theorem transactionListPieces_concat (transactionList : Nat) (transactions : List (Entry Transaction))
    (entry : Entry Transaction) :
    transactionListPieces transactionList (transactions ++ [entry]) =
      listPieces transactionList (transactions ++ [entry]) +
        ((transactions.map transactionPieces).sum + objectPiece entry.datum (.transaction entry.value)) := by
  simp [transactionListPieces, transactionPieces]

/-- A chain under way with a list of transactions for its next block. -/
def Filling (placed : PlacedChain) (transactionList : Nat) (transactions : List Transaction) (owned : Pieces) : Prop :=
  ∃ entries : List (Entry Transaction), entries.map Entry.value = transactions ∧
    owned = placed.pieces + transactionListPieces transactionList entries

theorem realizes_transactionRound (spacious : Spacious input used) (placed : PlacedChain) (transactionList : Nat)
    (transactions : List Transaction) (owned : Pieces) (filling : Filling placed transactionList transactions owned) :
    Realizes (outlook input used) (described input (appendTransaction order transactions))
      (fun rounds => transactionRound order input placed.address rounds transactionList) owned
      (fun next _ owned => Filling placed transactionList next owned) (· = 0) := by
  obtain ⟨entries, rfl, rfl⟩ := filling
  rw [appendTransaction, described_bind, show deserializeTransaction order =
    (Decoder.allocate 8728 >>= fun _ => readTransaction order) from rfl, described_bind, Description.bind_assoc]
  refine ((realizes_malloc 8728 _).cleared (turns_dropLists placed transactionList entries)).bind ?_
  rintro _ transaction _ rfl
  refine ((realizes_parse _ _).cleared (turns_dropTransaction placed transactionList transaction entries _)).bind ?_
  rintro _ fields _ ⟨rfl, rfl⟩
  refine Realizes.step ((turns_store transaction (.raw 8728) (.transaction fields)).beside _)
    (Affordable.mono (by simp [weight_add, Object.size])) ?_
  have appends : Realizes (outlook input used) _ _ _ _ _ :=
    (realizes_linkedListAppend spacious transactionList transaction fields entries).within
      (objectPiece transaction (.transaction fields) + (placed.pieces + (entries.map transactionPieces).sum)) rfl rfl
  have drops : Turns (outlook input used) _ _ _ _ :=
    turns_dropTransaction placed transactionList transaction entries (.transaction fields)
  have split : objectPiece transaction (.transaction fields) +
        (placed.pieces + transactionListPieces transactionList entries) =
      listPieces transactionList entries +
        (objectPiece transaction (.transaction fields) + (placed.pieces + (entries.map transactionPieces).sum)) := by
    rw [transactionListPieces]
    abel
  rw [described_bind, split]
  rw [split] at drops
  refine (appends.cleared drops).conclude ?_
  rintro _ _ _ _ _ ⟨_, ⟨node, rfl⟩, rfl⟩ -
  refine ⟨_, described_done input _, entries ++ [⟨node, transaction, fields⟩], by simp, ?_⟩
  rw [transactionListPieces_concat]
  abel

theorem realizes_transactionLoop (spacious : Spacious input used) (placed : PlacedChain) (transactionList count : Nat)
    (transactions : List Transaction) (owned : Pieces) (filling : Filling placed transactionList transactions owned) :
    Realizes (outlook input used)
      (described input (Decoder.repeatTimes count (appendTransaction order) transactions))
      (fun rounds => transactionLoop order input placed.address rounds transactionList count) owned
      (fun next _ owned => Filling placed transactionList next owned) (· = 0) := by
  rw [described_repeatTimes]
  exact Realizes.times (realizes_transactionRound spacious placed transactionList) (fun _ => rfl) (fun _ _ => rfl) count
    transactions filling

theorem realizes_blockCreate (transactionList : Nat) (proofOfWork : UInt64) (hash : Sha256) (own : Pieces) :
    Realizes (outlook input used) (described input (Decoder.allocate 56))
      (fun _ => blockCreate input now transactionList proofOfWork hash) own
      (fun _ block owned => owned = objectPiece block (.block now transactionList proofOfWork hash) + own)
      (· = own) := by
  rw [← Description.bind_done (described input _)]
  refine (realizes_malloc 56 own).bind ?_
  rintro _ block _ rfl
  refine Realizes.step ((turns_store block (.raw 56) (.block now transactionList proofOfWork hash)).beside own)
    (Affordable.mono (by simp [weight_add, Object.size])) ?_
  exact realizes_pure _ _ _ rfl

theorem weight_sum {α : Type} (own : α → Pieces) (values : List α) :
    weight (values.map own).sum = (values.map fun value => weight (own value)).sum := by
  induction values with
  | nil => simp [weight]
  | cons value values ih => simp [weight_add, ih]

theorem weight_transactionListPieces (transactionList : Nat) (transactions : List (Entry Transaction)) :
    weight (transactionListPieces transactionList transactions) = 24 + (16 + 8728) * transactions.length := by
  simp only [transactionListPieces, listPieces, weight_add, weight_headerPiece, weight_nodePieces, weight_sum,
    transactionPieces, weight_objectPiece, Object.size, List.map_const', List.sum_replicate_nat]
  omega

theorem weight_blockPieces (address : Nat) (placed : PlacedBlock) :
    weight (blockPieces address placed) + 16 = placed.block.memory := by
  simp only [blockPieces, weight_add, weight_objectPiece, Object.size, weight_transactionListPieces,
    PlacedBlock.block, Block.memory, List.length_map]
  omega

/-- A chain takes the memory that is counted for it. -/
theorem weight_pieces (placed : PlacedChain) :
    weight placed.pieces = chainMemory (placed.blocks.map fun entry => entry.value.block) := by
  have blocks : (placed.blocks.map fun entry => weight (blockPieces entry.datum entry.value)).sum +
        16 * placed.blocks.length =
      ((placed.blocks.map fun entry => entry.value.block).map Block.memory).sum := by
    induction placed.blocks with
    | nil => rfl
    | cons entry blocks ih =>
      have here := weight_blockPieces entry.datum entry.value
      simp only [List.map_cons, List.sum_cons, List.length_cons]
      omega
  rw [chainMemory, ← blocks]
  simp only [PlacedChain.pieces, listPieces, weight_add, weight_objectPiece, Object.size, weight_headerPiece,
    weight_nodePieces, weight_sum]
  omega

theorem deserializeBlock_eq (order : ByteOrder) :
    deserializeBlock order = readBlockHeader order >>= fun header => Decoder.allocate 24 >>= fun _ =>
      Decoder.repeatTimes header.numTransactions.toNat (appendTransaction order) [] >>= fun transactionList =>
      Decoder.allocate 56 >>= fun _ => Decoder.done
        (LeoCoin.blockCreate header.createdAt transactionList header.proofOfWork header.previousBlockHash) := rfl

theorem addBlock_of_sound (spacious : Spacious input used) {placed : PlacedChain} {cursor : Cursor} {frame : Pieces}
    (affordable : Affordable input used cursor (placed.pieces + frame)) {blockchain : Blockchain} {block : Block}
    (blocks : placed.blocks.map (fun entry => entry.value.block) = blockchain.blockList ++ [block]) :
    ∃ longer, LeoCoin.blockchainAddBlock blockchain block = .ok longer := by
  have bounded := affordable.bounded
  have whole := spacious _ affordable.granted
  rw [weight_add, weight_pieces, blocks] at bounded
  exact ⟨_, dif_pos (by omega)⟩

/-- A chain under way. -/
def Building (address : Nat) (blockchain : Blockchain) (owned : Pieces) : Prop :=
  ∃ placed : PlacedChain, placed.address = address ∧ placed.Holds blockchain ∧ owned = placed.pieces

/-- The chain with another block at its end. -/
def PlacedChain.append (placed : PlacedChain) (entry : Entry PlacedBlock) : PlacedChain :=
  { placed with blocks := placed.blocks ++ [entry] }

theorem realizes_blockchainAddBlock (spacious : Spacious input used) (placed : PlacedChain) (block : Nat)
    (value : PlacedBlock) :
    Realizes (outlook input used) (described input (Decoder.allocate 16))
      (fun rounds => blockchainAddBlock input placed.address block rounds) (placed.pieces + blockPieces block value)
      (fun _ _ owned => ∃ node, owned = (placed.append ⟨node, block, value⟩).pieces)
      (· = placed.pieces + blockPieces block value) := by
  generalize own : (placed.blocks.map fun entry => blockPieces entry.datum entry.value).sum = blocks
  have chain : placed.pieces = objectPiece placed.address
      (.blockchain placed.blockList placed.numLeadingZeroBytesRequiredInBlockHash) +
      (listPieces placed.blockList placed.blocks + blocks) := by rw [PlacedChain.pieces, own]
  have reads : Turns (outlook input used) _ _ _ _ := ((turns_blockListOf placed.address placed.blockList
    placed.numLeadingZeroBytesRequiredInBlockHash).within _ chain chain).beside (blockPieces block value)
  refine Realizes.step reads (fun _ _ sound => sound) ?_
  have split : placed.pieces + blockPieces block value = listPieces placed.blockList placed.blocks +
      (objectPiece placed.address (.blockchain placed.blockList placed.numLeadingZeroBytesRequiredInBlockHash) +
        (blocks + blockPieces block value)) := by
    rw [chain]
    abel
  have appends : Realizes (outlook input used) _ _ _ _ _ :=
    (realizes_linkedListAppend spacious placed.blockList block value placed.blocks).within _ split split
  refine appends.weaken ?_
  rintro _ _ _ ⟨_, ⟨node, rfl⟩, rfl⟩
  refine ⟨node, ?_⟩
  simp only [PlacedChain.append, PlacedChain.pieces, List.map_append, List.sum_append, own, List.map_singleton,
    List.sum_singleton]
  abel

theorem turns_dropBlock (placed : PlacedChain) (block : Nat) (value : PlacedBlock) :
    Turns (outlook input used)
      (fun rounds => (blockchainDestroy placed.address rounds).attempt >>= fun _ => (blockDestroy rounds block).attempt)
      (placed.pieces + blockPieces block value) () 0 :=
  ((turns_blockchainDestroy placed).attempt.beside _).bind
    ((turns_blockDestroy block value).attempt.within 0 (by abel) (by abel))

/-- A block is added to its chain, or something else is done with both. -/
theorem realizes_storeBlock (spacious : Spacious input used) {placed : PlacedChain} {blockchain : Blockchain}
    (holds : placed.Holds blockchain) (block : Nat) (value : PlacedBlock) {cleanup : Nat → MemoryProgram Unit}
    {kept : Pieces} (cleans : Turns (outlook input used) cleanup (placed.pieces + blockPieces block value) () kept) :
    Realizes (outlook input used) (described input (storeBlock blockchain value.block))
      (fun rounds => (blockchainAddBlock input placed.address block rounds).otherwise (cleanup rounds))
      (placed.pieces + blockPieces block value) (fun next _ owned => Building placed.address next owned)
      (· = kept) := by
  simp only [storeBlock, described_bind]
  refine ((realizes_blockchainAddBlock spacious placed block value).cleared cleans).conclude ?_
  rintro _ _ _ cursor frame ⟨node, rfl⟩ affordable
  have blocks : (placed.append ⟨node, block, value⟩).blocks.map (fun entry => entry.value.block) =
      blockchain.blockList ++ [value.block] := by
    simp [PlacedChain.append, holds.blocks]
  obtain ⟨longer, added⟩ := addBlock_of_sound spacious affordable blocks
  obtain ⟨list, difficulty⟩ := blockchain_add_block_ok added
  refine ⟨longer, by rw [added, described_done], placed.append ⟨node, block, value⟩, rfl, ⟨?_, ?_⟩, rfl⟩
  · rw [blocks, list]
  · rw [difficulty]
    exact holds.difficulty

theorem realizes_blockRound (spacious : Spacious input used) (address : Nat) (blockchain : Blockchain) (owned : Pieces)
    (building : Building address blockchain owned) :
    Realizes (outlook input used) (described input (appendBlock order blockchain))
      (fun rounds => blockRound order input now address rounds) owned
      (fun next _ owned => Building address next owned) (· = 0) := by
  obtain ⟨placed, rfl, holds, rfl⟩ := building
  rw [appendBlock, described_bind, deserializeBlock_eq, described_bind, Description.bind_assoc]
  refine ((realizes_parse _ _).cleared (turns_blockchainDestroy placed).attempt).bind ?_
  rintro _ header _ ⟨rfl, rfl⟩
  rw [described_bind, Description.bind_assoc]
  refine ((realizes_linkedListCreate _).cleared (turns_blockchainDestroy placed).attempt).bind ?_
  rintro _ transactionList _ rfl
  rw [described_bind, Description.bind_assoc]
  have empty : Filling placed transactionList [] (headerPiece transactionList none + placed.pieces) :=
    ⟨[], rfl, by simp [transactionListPieces, listPieces]; abel⟩
  refine (realizes_transactionLoop spacious placed transactionList _ [] _ empty).bind ?_
  rintro _ _ _ ⟨transactions, rfl, rfl⟩
  rw [described_bind, Description.bind_assoc]
  refine ((realizes_blockCreate transactionList _ _ _).cleared
    (turns_dropLists placed transactionList transactions)).bind ?_
  rintro _ block _ rfl
  refine Realizes.step ((turns_setCreatedAt block transactionList now header.createdAt _ _).beside _)
    (Affordable.mono (by simp [weight_add, Object.size])) ?_
  generalize read : (⟨header.createdAt, transactionList, transactions, header.proofOfWork,
    header.previousBlockHash⟩ : PlacedBlock) = next
  have split : objectPiece block (.block header.createdAt transactionList header.proofOfWork header.previousBlockHash) +
      (placed.pieces + transactionListPieces transactionList transactions) =
        placed.pieces + blockPieces block next := by
    rw [← read, blockPieces]
    abel
  have same : LeoCoin.blockCreate header.createdAt (transactions.map Entry.value) header.proofOfWork
      header.previousBlockHash = next.block := by
    rw [← read]
    rfl
  rw [split, same, described_done, Description.done_bind]
  exact realizes_storeBlock spacious holds block next (turns_dropBlock placed block next)

theorem realizes_blockchainCreate (numLeadingZeroBytesRequiredInBlockHash : UInt64) :
    Realizes (outlook input used)
      ((described input (Decoder.allocate 16)).bind fun _ => described input (Decoder.allocate 24))
      (fun _ => blockchainCreate input numLeadingZeroBytesRequiredInBlockHash) 0
      (fun _ address owned =>
        Building address (LeoCoin.blockchainCreate numLeadingZeroBytesRequiredInBlockHash) owned) (· = 0) := by
  refine (realizes_malloc 16 0).bind ?_
  rintro _ address _ rfl
  rw [← Description.bind_done (described input _), add_zero]
  refine ((realizes_linkedListCreate _).cleared (turns_free address _)).bind ?_
  rintro _ blockList _ rfl
  refine Realizes.step ((turns_store address (.raw 16) (.blockchain blockList _)).within _ (add_comm _ _) rfl)
    (Affordable.mono (by simp [weight_add, Object.size])) ?_
  refine realizes_pure _ _ _ ⟨⟨address, blockList, [], _⟩, rfl, ⟨rfl, rfl⟩, ?_⟩
  simp [PlacedChain.pieces, listPieces, LeoCoin.blockchainCreate]

/-- `blockchain_deserialize` does what its decoder says; it owns the chain that it returns, and
nothing where it fails. -/
theorem realizes_blockchainDeserialize (order : ByteOrder) (now : Int64) (spacious : Spacious input used) :
    Realizes (outlook input used) (described input (deserializeBlockchain order))
      (fun rounds => blockchainDeserialize order input now rounds) 0
      (fun blockchain address owned => Building address blockchain owned) (· = 0) := by
  rw [show deserializeBlockchain order = readUInt64 order >>= fun difficulty => Decoder.allocate 16 >>= fun _ =>
    Decoder.allocate 24 >>= fun _ => readUInt64 order >>= fun numBlocks =>
    Decoder.repeatTimes numBlocks.toNat (appendBlock order) (LeoCoin.blockchainCreate difficulty) from rfl,
    described_bind]
  refine (realizes_parse _ _).bind ?_
  rintro _ difficulty _ ⟨rfl, rfl⟩
  simp only [described_bind]
  rw [← Description.bind_assoc]
  refine (realizes_blockchainCreate difficulty).bind ?_
  rintro _ address _ ⟨placed, rfl, holds, rfl⟩
  refine ((realizes_parse _ _).cleared (turns_blockchainDestroy placed).attempt).bind ?_
  rintro _ numBlocks _ ⟨rfl, rfl⟩
  rw [described_repeatTimes, ← Description.bind_done (Description.times _ _ _)]
  have start : Building placed.address (LeoCoin.blockchainCreate difficulty) placed.pieces := ⟨placed, rfl, holds, rfl⟩
  refine (Realizes.times (realizes_blockRound spacious placed.address) (fun _ => rfl) (fun _ _ => rfl) _ _
    start).bind ?_
  intro blockchain _ owned building
  exact realizes_pure _ _ _ building

end Rounds

theorem fine_of_begins {input : Input} {start : Process} (begins : start.cursor = ⟨0, []⟩) :
    (outlook input (weight (pieces start))).Fine start := by
  rw [Outlook.Fine, outlook_view, begins]
  exact ⟨Nat.zero_le _, trivial, Nat.le_add_right _ _⟩

end ChainMemory

end LeoCoin
