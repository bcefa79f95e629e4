import LeoCoin.Library.Codec
import LeoCoin.Endian
import LeoCoin.Types

/-! # Serialization

`blockchain_serialize` grows its buffer with one `realloc` for each block and each
transaction; `blockchain_deserialize` walks a buffer with a moving pointer and a
bounds check before every field.  Both are stated over a host byte order.

The wire format itself does not depend on the host: `encodeBlockchain` is that
format, the serializer writes it (`blockchain_serialize_eq`) and the deserializer
reads it (`deserializeBlockchain_reads`).
-/

namespace LeoCoin

open Library.Decoding

/-! ## `blockchain_serialize` -/

/-- The buffer while it grows.  `requests` counts the allocations made. -/
structure SerializationBuffer where
  bytes : List UInt8
  size : UInt64
  requests : Nat

/-- `realloc` to make room for `chunk`, and its bytes written behind the old ones. -/
def SerializationBuffer.extend (grants : Nat → Nat → Bool) (chunk : List UInt8)
    (buffer : SerializationBuffer) : Except Failure SerializationBuffer :=
  let size := buffer.size + UInt64.ofNat chunk.length
  if grants buffer.requests size.toNat then
    .ok { bytes := buffer.bytes ++ chunk, size := size, requests := buffer.requests + 1 }
  else
    .error .couldNotMalloc

/-- `*(uint64_t *)next_spot_in_buffer = htobe64(data)` -/
def writeUInt64 (order : ByteOrder) (data : UInt64) : List UInt8 :=
  (storeUInt64 order (htobe64 order data)).toList

def writeTransaction (order : ByteOrder) (transaction : Transaction) : List UInt8 :=
  writeUInt64 order transaction.createdAt.toUInt64 ++
  transaction.senderPublicKey.bytes.toList ++
  transaction.recipientPublicKey.bytes.toList ++
  writeUInt64 order transaction.amount ++
  writeUInt64 order transaction.senderSignature.length ++
  transaction.senderSignature.bytes.toList

def writeBlockHeader (order : ByteOrder) (block : Block) : List UInt8 :=
  writeUInt64 order block.createdAt.toUInt64 ++
  block.previousBlockHash.digest.toList ++
  writeUInt64 order block.proofOfWork ++
  writeUInt64 order (linkedListLength block.transactionList)

/-- One round of the block loop, with its transaction loop. -/
def serializeBlock (grants : Nat → Nat → Bool) (order : ByteOrder) (buffer : SerializationBuffer)
    (block : Block) : Except Failure SerializationBuffer := do
  let buffer ← buffer.extend grants (writeBlockHeader order block)
  block.transactionList.foldlM
    (fun buffer transaction => buffer.extend grants (writeTransaction order transaction)) buffer

/-- The header, then the block loop. -/
def serializeInto (grants : Nat → Nat → Bool) (order : ByteOrder) (blockchain : Blockchain)
    (buffer : SerializationBuffer) : Except Failure SerializationBuffer := do
  let buffer ← buffer.extend grants
    (writeUInt64 order blockchain.numLeadingZeroBytesRequiredInBlockHash ++
      writeUInt64 order (linkedListLength blockchain.blockList))
  blockchain.blockList.foldlM (serializeBlock grants order) buffer

/-- `blockchain_serialize`: the buffer and `*buffer_size`. -/
def blockchainSerialize (grants : Nat → Nat → Bool) (order : ByteOrder) (blockchain : Blockchain) :
    Except Failure (List UInt8 × UInt64) := do
  let buffer ← serializeInto grants order blockchain ⟨[], 0, 0⟩
  return (buffer.bytes, buffer.size)

/-! ## `blockchain_deserialize` -/

/-- `betoh64(*(uint64_t *)next_spot_in_buffer)` after its bounds check. -/
def readUInt64 (order : ByteOrder) : Decoder Failure UInt64 := do
  let p ← Decoder.checkedTake 8
  return betoh64 order (loadUInt64 order p)

theorem readUInt64_frugal (order : ByteOrder) : (readUInt64 order).Frugal :=
  (Decoder.frugal_checkedTake 8).bind fun _ => Decoder.frugal_pure _

/-- The bounds check covers the declared length, the loop copies the whole array. -/
def readSignature (order : ByteOrder) : Decoder Failure SshSignature := do
  let length ← readUInt64 order
  if length > maxSshKeyLength then
    .reject .signatureTooLong
  else do
    Decoder.requireSpace length.toNat
    let bytes ← Decoder.takeBytes 512
    return ⟨length, bytes⟩

def deserializeTransaction (order : ByteOrder) : Decoder Failure Transaction := do
  Decoder.allocate 8728
  let createdAt ← readUInt64 order
  let senderPublicKey ← Decoder.checkedTake 4096
  let recipientPublicKey ← Decoder.checkedTake 4096
  let amount ← readUInt64 order
  let senderSignature ← readSignature order
  return ⟨createdAt.toInt64, ⟨senderPublicKey⟩, ⟨recipientPublicKey⟩, amount, senderSignature⟩

/-- One round of the transaction loop; `linked_list_append` allocates a node. -/
def appendTransaction (order : ByteOrder) (transactionList : List Transaction) :
    Decoder Failure (List Transaction) := do
  let transaction ← deserializeTransaction order
  Decoder.allocate 16
  return transactionList ++ [transaction]

def deserializeBlock (order : ByteOrder) : Decoder Failure Block := do
  let createdAt ← readUInt64 order
  let previousBlockHash ← Decoder.checkedTake 32
  let proofOfWork ← readUInt64 order
  let numTransactions ← readUInt64 order
  Decoder.allocate 24
  let transactionList ← Decoder.repeatTimes numTransactions.toNat (appendTransaction order) []
  Decoder.allocate 56
  return blockCreate createdAt.toInt64 transactionList proofOfWork ⟨previousBlockHash⟩

/-- `blockchain_add_block`, which allocates a node. -/
def storeBlock (blockchain : Blockchain) (block : Block) : Decoder Failure Blockchain := do
  Decoder.allocate 16
  match blockchainAddBlock blockchain block with
  | .error code => .reject code
  | .ok longer => .done longer

/-- One round of the block loop. -/
def appendBlock (order : ByteOrder) (blockchain : Blockchain) : Decoder Failure Blockchain := do
  let block ← deserializeBlock order
  storeBlock blockchain block

def deserializeBlockchain (order : ByteOrder) : Decoder Failure Blockchain := do
  let numLeadingZeroBytesRequiredInBlockHash ← readUInt64 order
  Decoder.allocate 16
  Decoder.allocate 24
  let numBlocks ← readUInt64 order
  Decoder.repeatTimes numBlocks.toNat (appendBlock order)
    (blockchainCreate numLeadingZeroBytesRequiredInBlockHash)

/-- What a call of `blockchain_deserialize` does: its return code, `*blockchain`
afterwards, and the offset up to which it examined the buffer. -/
structure Deserialization where
  returnCode : ReturnCode
  blockchain : Option Blockchain
  examined : Nat

/-- `blockchain_deserialize`; `prior` is `*blockchain` before the call. -/
def blockchainDeserialize (order : ByteOrder) (input : Input) (prior : Option Blockchain) :
    Deserialization :=
  match (deserializeBlockchain order).run input ⟨0, []⟩ with
  | (.ok newBlockchain, final) => ⟨.success, some newBlockchain, final.position⟩
  | (.error fault, final) => ⟨(Failure.ofFault fault).val, prior, final.position⟩

/-! ## The wire format -/

/-- A transaction up to the bytes of its signature. -/
def encodeTransactionHeader (transaction : Transaction) : List UInt8 :=
  (splitBytes transaction.createdAt.toUInt64).toList ++
  (transaction.senderPublicKey.bytes.toList ++
  (transaction.recipientPublicKey.bytes.toList ++
  ((splitBytes transaction.amount).toList ++
  (splitBytes transaction.senderSignature.length).toList)))

def encodeTransaction (transaction : Transaction) : List UInt8 :=
  encodeTransactionHeader transaction ++ transaction.senderSignature.bytes.toList

/-- A block up to its transactions, of which it declares `numTransactions`. -/
def encodeBlockHeader (block : Block) (numTransactions : UInt64) : List UInt8 :=
  (splitBytes block.createdAt.toUInt64).toList ++
  (block.previousBlockHash.digest.toList ++
  ((splitBytes block.proofOfWork).toList ++
  (splitBytes numTransactions).toList))

def encodeBlock (block : Block) : List UInt8 :=
  encodeBlockHeader block (linkedListLength block.transactionList) ++
  block.transactionList.flatMap encodeTransaction

def encodeBlockchainHeader (numLeadingZeroBytes numBlocks : UInt64) : List UInt8 :=
  (splitBytes numLeadingZeroBytes).toList ++ (splitBytes numBlocks).toList

def encodeBlockchain (blockchain : Blockchain) : List UInt8 :=
  encodeBlockchainHeader blockchain.numLeadingZeroBytesRequiredInBlockHash
    (linkedListLength blockchain.blockList) ++
  blockchain.blockList.flatMap encodeBlock

@[simp] theorem encodeTransactionHeader_length (transaction : Transaction) :
    (encodeTransactionHeader transaction).length = 8216 := by
  simp [encodeTransactionHeader]

@[simp] theorem encodeTransaction_length (transaction : Transaction) :
    (encodeTransaction transaction).length = 8728 := by
  simp [encodeTransaction]

@[simp] theorem encodeBlockHeader_length (block : Block) (numTransactions : UInt64) :
    (encodeBlockHeader block numTransactions).length = 56 := by
  simp [encodeBlockHeader]

@[simp] theorem encodeBlockchainHeader_length (numLeadingZeroBytes numBlocks : UInt64) :
    (encodeBlockchainHeader numLeadingZeroBytes numBlocks).length = 16 := by
  simp [encodeBlockchainHeader]

theorem encodeBlock_length (block : Block) :
    (encodeBlock block).length = 56 + 8728 * block.transactionList.length := by
  have constant (list : List Transaction) : (list.flatMap encodeTransaction).length = 8728 * list.length := by
    induction list with
    | nil => rfl
    | cons transaction rest ih =>
      simp only [List.flatMap_cons, List.length_append, encodeTransaction_length, ih, List.length_cons]
      omega
  simp [encodeBlock, constant]

theorem encodeBlockchain_length_le (blockchain : Blockchain) :
    (encodeBlockchain blockchain).length + 24 ≤ chainMemory blockchain.blockList := by
  have blocks (list : List Block) : (list.flatMap encodeBlock).length ≤ (list.map Block.memory).sum := by
    induction list with
    | nil => simp
    | cons block rest ih =>
      simp only [List.flatMap_cons, List.length_append, encodeBlock_length, List.map_cons,
        List.sum_cons, Block.memory]
      omega
  have bound := blocks blockchain.blockList
  simp only [encodeBlockchain, List.length_append, encodeBlockchainHeader_length, chainMemory]
  omega

/-! ## The serializer writes the format -/

@[simp] theorem writeUInt64_eq (order : ByteOrder) (data : UInt64) :
    writeUInt64 order data = (splitBytes data).toList := by
  rw [writeUInt64, storeUInt64_htobe64]

theorem writeTransaction_eq (order : ByteOrder) (transaction : Transaction) :
    writeTransaction order transaction = encodeTransaction transaction := by
  simp [writeTransaction, encodeTransaction, encodeTransactionHeader, List.append_assoc]

theorem writeBlock_eq (order : ByteOrder) (block : Block) :
    writeBlockHeader order block ++ block.transactionList.flatMap (writeTransaction order) =
      encodeBlock block := by
  have transactions : writeTransaction order = encodeTransaction := funext (writeTransaction_eq order)
  simp [writeBlockHeader, encodeBlock, encodeBlockHeader, transactions, List.append_assoc]

/-- `write` appends `chunk` to the buffer, or an allocation is refused. -/
structure Writes (grants : Nat → Nat → Bool)
    (write : SerializationBuffer → Except Failure SerializationBuffer) (chunk : List UInt8) : Prop where
  sound : ∀ {buffer after : SerializationBuffer}, write buffer = .ok after →
    after.bytes = buffer.bytes ++ chunk ∧ after.size = buffer.size + UInt64.ofNat chunk.length
  complete : (∀ ordinal size, grants ordinal size = true) → ∀ buffer, ∃ after, write buffer = .ok after

section Writes

variable {grants : Nat → Nat → Bool}

theorem writes_extend (chunk : List UInt8) :
    Writes grants (SerializationBuffer.extend grants chunk) chunk := by
  constructor
  · intro buffer after extended
    simp only [SerializationBuffer.extend] at extended
    split at extended
    · cases extended
      exact ⟨rfl, rfl⟩
    · cases extended
  · intro generous buffer
    exact ⟨_, if_pos (generous _ _)⟩

theorem Writes.bind {first second : SerializationBuffer → Except Failure SerializationBuffer}
    {left right : List UInt8} (writesFirst : Writes grants first left)
    (writesSecond : Writes grants second right) :
    Writes grants (fun buffer => first buffer >>= second) (left ++ right) := by
  constructor
  · intro buffer after written
    cases between : first buffer with
    | error code =>
      rw [between] at written
      cases written
    | ok middle =>
      rw [between] at written
      obtain ⟨bytes, size⟩ := writesFirst.sound between
      obtain ⟨bytes', size'⟩ := writesSecond.sound written
      -- the 64-bit sums of the two sizes add up like the lengths
      have together : after.size = buffer.size + UInt64.ofNat (left ++ right).length := by
        rw [size', size, List.length_append, UInt64.ofNat_add, UInt64.add_assoc]
      exact ⟨by rw [bytes', bytes, List.append_assoc], together⟩
  · intro generous buffer
    obtain ⟨middle, between⟩ := writesFirst.complete generous buffer
    obtain ⟨after, written⟩ := writesSecond.complete generous middle
    exact ⟨after, by rw [between]; exact written⟩

theorem Writes.fromEmpty {write : SerializationBuffer → Except Failure SerializationBuffer} {chunk : List UInt8}
    (writes : Writes grants write chunk) {after : SerializationBuffer} (written : write ⟨[], 0, 0⟩ = .ok after) :
    (after.bytes, after.size) = (chunk, UInt64.ofNat chunk.length) := by
  obtain ⟨bytes, size⟩ := writes.sound written
  rw [bytes, size, List.nil_append, UInt64.zero_add]

/-- A loop of writes.  Induction on what is written, oldest first. -/
theorem Writes.foldlM {α : Type} {write : SerializationBuffer → α → Except Failure SerializationBuffer}
    {chunk : α → List UInt8} (writes : ∀ value, Writes grants (write · value) (chunk value))
    (values : List α) : Writes grants (values.foldlM write ·) (values.flatMap chunk) := by
  induction values with
  | nil =>
    constructor
    · intro buffer after written
      cases written
      simp
    · intro _ buffer
      exact ⟨buffer, rfl⟩
  | cons value rest ih =>
    have whole := (writes value).bind ih
    simpa only [List.foldlM_cons, List.flatMap_cons] using whole

theorem writes_block (order : ByteOrder) (block : Block) :
    Writes grants (serializeBlock grants order · block) (encodeBlock block) := by
  have transactions : ∀ transaction, Writes grants
      (SerializationBuffer.extend grants (writeTransaction order transaction) ·)
      (writeTransaction order transaction) := fun transaction => writes_extend _
  rw [← writeBlock_eq order block]
  exact (writes_extend (writeBlockHeader order block)).bind
    (Writes.foldlM transactions block.transactionList)

theorem writes_blockchain (order : ByteOrder) (blockchain : Blockchain) :
    Writes grants (serializeInto grants order blockchain) (encodeBlockchain blockchain) := by
  have header : encodeBlockchain blockchain =
      (writeUInt64 order blockchain.numLeadingZeroBytesRequiredInBlockHash ++
        writeUInt64 order (linkedListLength blockchain.blockList)) ++
      blockchain.blockList.flatMap encodeBlock := by
    simp [encodeBlockchain, encodeBlockchainHeader]
  rw [header]
  exact (writes_extend _).bind (Writes.foldlM (writes_block order) blockchain.blockList)

/-- `*buffer_size` does not wrap: the chain is in memory. -/
theorem encodeBlockchain_length_toNat (blockchain : Blockchain) :
    (UInt64.ofNat (encodeBlockchain blockchain).length).toNat = (encodeBlockchain blockchain).length := by
  have bound := encodeBlockchain_length_le blockchain
  have fits := blockchain.fits
  rw [UInt64.toNat_ofNat', Nat.mod_eq_of_lt (by omega)]

/-- A serialization that succeeds is the format, with its length. -/
theorem blockchain_serialize_sound {order : ByteOrder} {blockchain : Blockchain}
    {result : List UInt8 × UInt64} (serialized : blockchainSerialize grants order blockchain = .ok result) :
    result = (encodeBlockchain blockchain, UInt64.ofNat (encodeBlockchain blockchain).length) := by
  rw [blockchainSerialize] at serialized
  cases written : serializeInto grants order blockchain ⟨[], 0, 0⟩ with
  | error code =>
    rw [written] at serialized
    cases serialized
  | ok after =>
    rw [written] at serialized
    cases serialized
    exact (writes_blockchain order blockchain).fromEmpty written

theorem blockchain_serialize_eq (generous : ∀ ordinal size, grants ordinal size = true)
    (order : ByteOrder) (blockchain : Blockchain) :
    blockchainSerialize grants order blockchain =
      .ok (encodeBlockchain blockchain, UInt64.ofNat (encodeBlockchain blockchain).length) := by
  obtain ⟨after, written⟩ := (writes_blockchain order blockchain).complete generous ⟨[], 0, 0⟩
  have serialized : blockchainSerialize grants order blockchain = .ok (after.bytes, after.size) := by
    rw [blockchainSerialize, written]
    rfl
  rw [serialized, blockchain_serialize_sound serialized]

end Writes

/-! ## The deserializer reads the format -/

theorem readUInt64_reads (order : ByteOrder) :
    Reads (readUInt64 order) (fun data => (splitBytes data).toList) (fun _ => 8) fun _ => True := by
  have bytes : Reads (Decoder.checkedTake 8 : Decoder Failure _) _ _ _ := reads_checkedTake 8
  have word := bytes.lastField splitBytes (fun p => betoh64 order (loadUInt64 order p)) fun p => by simp
  exact word.congr (fun _ => rfl) (fun _ => rfl) fun data => by simp

theorem readSignature_reads (order : ByteOrder) :
    Reads (readSignature order)
      (fun signature => (splitBytes signature.length).toList ++ signature.bytes.toList)
      (fun signature => 8 + signature.length.toNat) fun signature => signature.length ≤ 4096 := by
  constructor
  · intro input cursor reached value succeeded
    obtain ⟨length, middle, held, moved, inside, -, rest⟩ := (readUInt64_reads order).sound_bind succeeded
    by_cases long : length > maxSshKeyLength
    · simp [long] at rest
    · simp only [long, if_false, Decoder.run_bind, Decoder.run_requireSpace] at rest
      by_cases short : middle.position + length.toNat > input.size
      · simp [short] at rest
      · simp only [short, if_false, Decoder.run_takeBytes, Decoder.run_pure, Prod.mk.injEq,
          Except.ok.injEq] at rest
        obtain ⟨rfl, rfl⟩ := rest
        simp only [Vector.length_toList] at moved
        -- the array is whatever the memory holds behind the length field
        have heldBytes : input.Holds (cursor.position + (splitBytes length).toList.length)
            (input.window middle.position 512).toList := by
          rw [Vector.length_toList, ← moved]
          exact input.holds_window _ _
        exact ⟨Input.holds_append.mpr ⟨held, heldBytes⟩, by simp [moved], by dsimp only; omega,
          UInt64.not_lt.mp long⟩
  · intro input cursor value generous held inside accepted
    rw [Input.holds_append] at held
    obtain ⟨middle, moved, first⟩ := (readUInt64_reads order).complete_bind generous held.1 (by omega) trivial
    simp only [Vector.length_toList] at moved held
    have short : ¬ value.length > maxSshKeyLength := UInt64.not_lt.mpr accepted
    have enough : ¬ middle.position + value.length.toNat > input.size := by omega
    have window : input.window middle.position 512 = value.bytes := by
      rw [moved]
      exact Input.holds_toList.mp held.2
    refine ⟨middle.advance 512, first.trans ?_⟩
    simp [short, enough, window, Decoder.run_bind]

/-- What the checks before a transaction's fields ask for. -/
def transactionNeeds (transaction : Transaction) : Nat :=
  8208 + (8 + transaction.senderSignature.length.toNat)

/-- The declared signature length is one the deserializer lets through. -/
def Transaction.Acceptable (transaction : Transaction) : Prop :=
  transaction.senderSignature.length ≤ 4096

theorem deserializeTransaction_reads (order : ByteOrder) :
    Reads (deserializeTransaction order) encodeTransaction transactionNeeds Transaction.Acceptable := by
  have word := readUInt64_reads order
  have key : Reads (Decoder.checkedTake 4096 : Decoder Failure _) _ _ _ := reads_checkedTake 4096
  -- the fields from the last to the first, each with the ones behind it
  have signature (createdAt : UInt64) (sender recipient : Vector UInt8 4096) (amount : UInt64) :=
    (readSignature_reads order).lastField Transaction.senderSignature
      (fun signature => ⟨createdAt.toInt64, ⟨sender⟩, ⟨recipient⟩, amount, signature⟩) fun _ => rfl
  have amount (createdAt : UInt64) (sender recipient : Vector UInt8 4096) :=
    word.firstField Transaction.amount (signature createdAt sender recipient) fun _ _ built => by rw [← built.2]
  have recipient (createdAt : UInt64) (sender : Vector UInt8 4096) :=
    key.firstField (fun transaction => transaction.recipientPublicKey.bytes) (amount createdAt sender)
      fun _ _ built => by rw [← built.2.2]
  have sender (createdAt : UInt64) :=
    key.firstField (fun transaction => transaction.senderPublicKey.bytes) (recipient createdAt)
      fun _ _ built => by rw [← built.2.2.2]
  have whole := (word.firstField (fun transaction => transaction.createdAt.toUInt64) sender
    fun _ _ built => by rw [← built.2.2.2.2]; simp).allocated 8728
  refine whole.congr (fun _ => ?_) (fun transaction => ?_) fun transaction => ?_
  · simp [encodeTransaction, encodeTransactionHeader]
  · simp [transactionNeeds]
    omega
  · simp [Transaction.Acceptable]

/-- A round of the transaction loop reads one transaction; any list can take it. -/
theorem appendTransaction_appends (order : ByteOrder) :
    Appends (appendTransaction order) id (fun _ => True) encodeTransaction transactionNeeds
      Transaction.Acceptable := by
  have reads := deserializeTransaction_reads order
  constructor
  · intro input cursor reached before after succeeded
    obtain ⟨transaction, middle, held, moved, inside, accepted, rest⟩ := reads.sound_bind succeeded
    have afterNode := allocate_bind_sound rest
    rw [Decoder.run_pure] at afterNode
    cases afterNode
    exact ⟨transaction, rfl, held, moved, inside, accepted⟩
  · intro input cursor before value generous held inside accepted _
    obtain ⟨middle, -, first⟩ := reads.complete_bind generous held inside accepted
    refine ⟨before ++ [value], middle.record 16, ?_, rfl⟩
    rw [appendTransaction, first, run_allocate_bind generous, Decoder.run_pure]

/-- What the checks of a block ask for. -/
def blockNeeds (block : Block) : Nat :=
  56 + demand encodeTransaction transactionNeeds block.transactionList

/-- What the deserializer lets through: signature lengths up to the key length, and a
number of transactions that a `uint64_t` counts. -/
structure Block.Acceptable (block : Block) : Prop where
  signatures : ∀ transaction ∈ block.transactionList, transaction.Acceptable
  counted : block.transactionList.length < 2 ^ 64

/-- `deserializeBlock` once it has read the four fields before the transactions. -/
def readTransactionList (order : ByteOrder) (block : Block) (numTransactions : UInt64) :
    Decoder Failure Block := do
  Decoder.allocate 24
  let transactionList ← Decoder.repeatTimes numTransactions.toNat (appendTransaction order) []
  Decoder.allocate 56
  return { block with transactionList := transactionList }

theorem deserializeBlock_header_sound {order : ByteOrder} {input : Input} {cursor reached : Cursor}
    {value : Block} (succeeded : (deserializeBlock order).run input cursor = (.ok value, reached)) :
    ∃ block numTransactions middle, input.Holds cursor.position (encodeBlockHeader block numTransactions) ∧
      middle.position = cursor.position + 56 ∧ cursor.position + 56 ≤ input.size ∧
      (readTransactionList order block numTransactions).run input middle = (.ok value, reached) := by
  have word := readUInt64_reads order
  have hash : Reads (Decoder.checkedTake 32 : Decoder Failure _) _ _ _ := reads_checkedTake 32
  obtain ⟨createdAt, c1, held1, moved1, -, -, rest⟩ := word.sound_bind succeeded
  obtain ⟨previousBlockHash, c2, held2, moved2, -, -, rest⟩ := hash.sound_bind rest
  obtain ⟨proofOfWork, c3, held3, moved3, -, -, rest⟩ := word.sound_bind rest
  obtain ⟨numTransactions, c4, held4, moved4, inside, -, rest⟩ := word.sound_bind rest
  simp only [Vector.length_toList] at moved1 moved2 moved3 moved4
  rw [moved1] at held2
  rw [moved2, moved1] at held3
  rw [moved3, moved2, moved1] at held4
  -- a block with the four fields and no transactions yet
  have held : input.Holds cursor.position (encodeBlockHeader
      (blockCreate createdAt.toInt64 [] proofOfWork ⟨previousBlockHash⟩) numTransactions) := by
    simp only [encodeBlockHeader, blockCreate, Input.holds_append, Vector.length_toList]
    exact ⟨held1, held2, held3, held4⟩
  exact ⟨_, numTransactions, c4, held, by omega, by omega, rest⟩

theorem deserializeBlock_header_complete (order : ByteOrder) {input : Input} {cursor : Cursor}
    {block : Block} {numTransactions : UInt64} (generous : input.Generous)
    (held : input.Holds cursor.position (encodeBlockHeader block numTransactions))
    (inside : cursor.position + 56 ≤ input.size) :
    ∃ middle, middle.position = cursor.position + 56 ∧ (deserializeBlock order).run input cursor =
      (readTransactionList order block numTransactions).run input middle := by
  have word := readUInt64_reads order
  have hash : Reads (Decoder.checkedTake 32 : Decoder Failure _) _ _ _ := reads_checkedTake 32
  simp only [encodeBlockHeader, Input.holds_append, Vector.length_toList] at held
  obtain ⟨held1, held2, held3, held4⟩ := held
  obtain ⟨c1, moved1, first⟩ := word.complete_bind generous held1 (by omega) trivial
  simp only [Vector.length_toList] at moved1
  rw [← moved1] at held2 held3 held4
  obtain ⟨c2, moved2, second⟩ := hash.complete_bind generous held2 (by omega) trivial
  simp only [Vector.length_toList] at moved2
  rw [← moved2] at held3 held4
  obtain ⟨c3, moved3, third⟩ := word.complete_bind generous held3 (by omega) trivial
  simp only [Vector.length_toList] at moved3
  rw [← moved3] at held4
  obtain ⟨c4, moved4, fourth⟩ := word.complete_bind generous held4 (by omega) trivial
  simp only [Vector.length_toList] at moved4
  have ran : (deserializeBlock order).run input cursor =
      (readTransactionList order block numTransactions).run input c4 := by
    rw [deserializeBlock, first, second, third, fourth]
    rfl
  exact ⟨c4, by omega, ran⟩

theorem deserializeBlock_reads (order : ByteOrder) :
    Reads (deserializeBlock order) encodeBlock blockNeeds Block.Acceptable := by
  have loop := appendTransaction_appends order
  constructor
  · intro input cursor reached value succeeded
    obtain ⟨block, numTransactions, middle, heldHeader, moved, inside, rest⟩ :=
      deserializeBlock_header_sound succeeded
    have afterList := allocate_bind_sound rest
    obtain ⟨transactionList, last, ran, rest⟩ := Decoder.run_bind_eq_ok.mp afterList
    obtain ⟨transactions, collected, counted, held, movedLoop, reaches, accepted⟩ := loop.repeatTimes_sound ran
    have afterBlock := allocate_bind_sound rest
    rw [Decoder.run_pure] at afterBlock
    cases afterBlock
    simp only [id, List.nil_append] at collected
    subst collected
    -- the count read and the count of the list are the same number
    have bounded : transactionList.length < 2 ^ 64 := by
      rw [counted]
      exact numTransactions.toNat_lt
    have declared : linkedListLength transactionList = numTransactions := by
      rw [linkedListLength, counted, UInt64.ofNat_toNat]
    simp only [Cursor.record_position] at held movedLoop reaches
    refine ⟨?_, ?_, ?_, accepted, bounded⟩
    · simp only [encodeBlock, declared, Input.holds_append, encodeBlockHeader_length]
      rw [moved] at held
      exact ⟨heldHeader, held⟩
    · simp only [Cursor.record_position, encodeBlock, List.length_append, encodeBlockHeader_length]
      omega
    · have room := demand_reaches (by omega) reaches
      dsimp only [blockNeeds]
      omega
  · intro input cursor value generous held inside accepted
    simp only [encodeBlock, Input.holds_append, encodeBlockHeader_length] at held
    rw [blockNeeds] at inside
    obtain ⟨middle, moved, header⟩ := deserializeBlock_header_complete order generous held.1 (by omega)
    have heldLoop : input.Holds (middle.record 24).position
        (value.transactionList.flatMap encodeTransaction) := by
      rw [Cursor.record_position, moved]
      exact held.2
    have reaches : value.transactionList = [] ∨ (middle.record 24).position +
        demand encodeTransaction transactionNeeds value.transactionList ≤ input.size := by
      rw [Cursor.record_position]
      exact .inr (by omega)
    obtain ⟨transactionList, last, ran, collected⟩ := loop.repeatTimes_complete [] generous heldLoop
      reaches accepted.signatures (fun _ _ _ => trivial)
    simp only [id, List.nil_append] at collected
    have succeeded : (deserializeBlock order).run input cursor = (.ok value, last.record 56) := by
      rw [header, readTransactionList, run_allocate_bind generous,
        linkedListLength_toNat accepted.counted, Decoder.run_bind_ok ran, run_allocate_bind generous,
        Decoder.run_pure, collected]
    exact ⟨last.record 56, succeeded⟩

/-- A round of the block loop reads one block, if the chain still fits in memory. -/
theorem appendBlock_appends (order : ByteOrder) :
    Appends (appendBlock order) Blockchain.blockList (fun blocks => chainMemory blocks < 2 ^ 64)
      encodeBlock blockNeeds Block.Acceptable := by
  have reads := deserializeBlock_reads order
  constructor
  · intro input cursor reached before after succeeded
    obtain ⟨block, middle, held, moved, inside, accepted, rest⟩ := reads.sound_bind succeeded
    have afterNode := allocate_bind_sound rest
    cases added : blockchainAddBlock before block with
    | error code => simp [added] at afterNode
    | ok longer =>
      simp only [added, Decoder.run_done, Prod.mk.injEq, Except.ok.injEq] at afterNode
      obtain ⟨rfl, rfl⟩ := afterNode
      exact ⟨block, (blockchain_add_block_ok added).1, held, moved, inside, accepted⟩
  · intro input cursor before value generous held inside accepted fits
    obtain ⟨middle, -, first⟩ := reads.complete_bind generous held inside accepted
    have added : blockchainAddBlock before value =
        .ok { before with blockList := before.blockList ++ [value], fits := fits } := dif_pos fits
    refine ⟨{ before with blockList := before.blockList ++ [value], fits := fits }, middle.record 16, ?_, rfl⟩
    rw [appendBlock, first, storeBlock, run_allocate_bind generous, added]
    rfl

theorem deserializeBlockchain_header_complete (order : ByteOrder) {input : Input} {cursor : Cursor}
    {numLeadingZeroBytes numBlocks : UInt64} (generous : input.Generous)
    (held : input.Holds cursor.position (encodeBlockchainHeader numLeadingZeroBytes numBlocks))
    (inside : cursor.position + 16 ≤ input.size) :
    ∃ middle, middle.position = cursor.position + 16 ∧ (deserializeBlockchain order).run input cursor =
      (Decoder.repeatTimes numBlocks.toNat (appendBlock order)
        (blockchainCreate numLeadingZeroBytes)).run input middle := by
  have word := readUInt64_reads order
  simp only [encodeBlockchainHeader, Input.holds_append, Vector.length_toList] at held
  obtain ⟨c1, moved1, first⟩ := word.complete_bind generous held.1 (by omega) trivial
  simp only [Vector.length_toList] at moved1
  have held2 : input.Holds ((c1.record 16).record 24).position (splitBytes numBlocks).toList := by
    rw [Cursor.record_position, Cursor.record_position, moved1]
    exact held.2
  have room : ((c1.record 16).record 24).position + 8 ≤ input.size := by
    rw [Cursor.record_position, Cursor.record_position]
    omega
  obtain ⟨c2, moved2, second⟩ := word.complete_bind generous held2 room trivial
  simp only [Cursor.record_position, Vector.length_toList] at moved2
  have ran : (deserializeBlockchain order).run input cursor = (Decoder.repeatTimes numBlocks.toNat
      (appendBlock order) (blockchainCreate numLeadingZeroBytes)).run input c2 := by
    rw [deserializeBlockchain, first, run_allocate_bind generous, run_allocate_bind generous, second]
  exact ⟨c2, by omega, ran⟩

theorem deserializeBlockchain_header_sound {order : ByteOrder} {input : Input} {cursor reached : Cursor}
    {value : Blockchain} (succeeded : (deserializeBlockchain order).run input cursor = (.ok value, reached)) :
    ∃ numLeadingZeroBytes numBlocks middle,
      input.Holds cursor.position (encodeBlockchainHeader numLeadingZeroBytes numBlocks) ∧
      middle.position = cursor.position + 16 ∧ cursor.position + 16 ≤ input.size ∧
      (Decoder.repeatTimes numBlocks.toNat (appendBlock order)
        (blockchainCreate numLeadingZeroBytes)).run input middle = (.ok value, reached) := by
  have word := readUInt64_reads order
  obtain ⟨numLeadingZeroBytes, c1, held1, moved1, -, -, rest⟩ := word.sound_bind succeeded
  have afterCreate := allocate_bind_sound (allocate_bind_sound rest)
  obtain ⟨numBlocks, c2, held2, moved2, inside, -, rest⟩ := word.sound_bind afterCreate
  simp only [Cursor.record_position, Vector.length_toList] at moved1 moved2 held2 inside
  rw [moved1] at held2
  have held : input.Holds cursor.position (encodeBlockchainHeader numLeadingZeroBytes numBlocks) := by
    simp only [encodeBlockchainHeader, Input.holds_append, Vector.length_toList]
    exact ⟨held1, held2⟩
  exact ⟨numLeadingZeroBytes, numBlocks, c2, held, by omega, by omega, rest⟩

/-- What the checks of a whole chain ask for. -/
def blockchainNeeds (blockchain : Blockchain) : Nat :=
  16 + demand encodeBlock blockNeeds blockchain.blockList

def Blockchain.Acceptable (blockchain : Blockchain) : Prop :=
  ∀ block ∈ blockchain.blockList, block.Acceptable

theorem appendBlock_difficulty {order : ByteOrder} {input : Input} {cursor reached : Cursor}
    {before after : Blockchain} (succeeded : (appendBlock order before).run input cursor = (.ok after, reached)) :
    after.numLeadingZeroBytesRequiredInBlockHash = before.numLeadingZeroBytesRequiredInBlockHash := by
  obtain ⟨block, middle, -, rest⟩ := Decoder.run_bind_eq_ok.mp succeeded
  have afterNode := allocate_bind_sound rest
  cases added : blockchainAddBlock before block with
  | error code => simp [added] at afterNode
  | ok longer =>
    simp only [added, Decoder.run_done, Prod.mk.injEq, Except.ok.injEq] at afterNode
    obtain ⟨rfl, rfl⟩ := afterNode
    exact (blockchain_add_block_ok added).2

theorem appendBlocks_difficulty {order : ByteOrder} {input : Input} {cursor final : Cursor} {count : Nat}
    {start result : Blockchain}
    (succeeded : (Decoder.repeatTimes count (appendBlock order) start).run input cursor = (.ok result, final)) :
    result.numLeadingZeroBytesRequiredInBlockHash = start.numLeadingZeroBytesRequiredInBlockHash :=
  Decoder.repeatTimes_invariant
    (fun _ blockchain _ => blockchain.numLeadingZeroBytesRequiredInBlockHash =
      start.numLeadingZeroBytesRequiredInBlockHash)
    rfl count (fun _ _ _ _ _ _ same ran => (appendBlock_difficulty ran).trans same) succeeded

theorem prefix_fits (blockchain : Blockchain) {numLeadingZeroBytes : UInt64} (before after : List Block)
    (split : blockchain.blockList = before ++ after) :
    chainMemory ((blockchainCreate numLeadingZeroBytes).blockList ++ before) < 2 ^ 64 := by
  have fits := blockchain.fits
  rw [split] at fits
  simp only [blockchainCreate, List.nil_append]
  simp only [chainMemory, List.map_append, List.sum_append] at fits ⊢
  omega

theorem deserializeBlockchain_reads (order : ByteOrder) :
    Reads (deserializeBlockchain order) encodeBlockchain blockchainNeeds Blockchain.Acceptable := by
  have loop := appendBlock_appends order
  constructor
  · intro input cursor reached value succeeded
    obtain ⟨numLeadingZeroBytes, numBlocks, middle, heldHeader, moved, inside, ran⟩ :=
      deserializeBlockchain_header_sound succeeded
    have difficulty := appendBlocks_difficulty ran
    obtain ⟨blocks, collected, counted, held, movedLoop, reaches, accepted⟩ := loop.repeatTimes_sound ran
    simp only [blockchainCreate, List.nil_append] at collected difficulty
    subst collected
    -- the loop collected as many blocks as the header declares
    have declared : linkedListLength value.blockList = numBlocks := by
      rw [linkedListLength, counted, UInt64.ofNat_toNat]
    refine ⟨?_, ?_, ?_, accepted⟩
    · simp only [encodeBlockchain, declared, difficulty, Input.holds_append, encodeBlockchainHeader_length]
      rw [moved] at held
      exact ⟨heldHeader, held⟩
    · simp only [encodeBlockchain, List.length_append, encodeBlockchainHeader_length]
      omega
    · have room := demand_reaches (by omega) reaches
      rw [blockchainNeeds]
      omega
  · intro input cursor value generous held inside accepted
    simp only [encodeBlockchain, Input.holds_append, encodeBlockchainHeader_length] at held
    rw [blockchainNeeds] at inside
    obtain ⟨middle, moved, header⟩ := deserializeBlockchain_header_complete order generous held.1 (by omega)
    have heldLoop : input.Holds middle.position (value.blockList.flatMap encodeBlock) := by
      rw [moved]
      exact held.2
    obtain ⟨result, final, ran, collected⟩ := loop.repeatTimes_complete
      (blockchainCreate value.numLeadingZeroBytesRequiredInBlockHash) generous heldLoop
      (.inr (by omega)) accepted (prefix_fits value)
    have difficulty := appendBlocks_difficulty ran
    simp only [blockchainCreate, List.nil_append] at collected difficulty
    have same : result = value := Blockchain.ext_fields collected difficulty
    exact ⟨final, by rw [header, value.length_toNat, ran, same]⟩

end LeoCoin
