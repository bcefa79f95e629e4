import LeoCoin.RoundTrip

/-! # Reading past the end

The check before a signature covers its declared length, while the loop after it
copies the whole 512 byte array.  This file finds out exactly when that leaves the
buffer:

* `overruns_cutInsideSignature` — a run that leaves the buffer was cut inside the
  signature array of a transaction, behind the signature's declared bytes;
* `overruns_of_cutInsideSignature` — and every such buffer makes it happen;
* `deserializeBlockchain_blind` — what lies behind the buffer changes no return
  code, so a truncated serialization is refused unless the cut falls into the last
  signature, and then it is accepted.
-/

namespace LeoCoin

open Library.Decoding

/-! ## Cut buffers -/

/-- The buffer ends inside the signature array of a transaction record, at or behind
the end that the record's signature length declares.  `chain` holds the blocks
before the one it is in, `block` the transactions before it. -/
structure CutAt (buffer : List UInt8) (chain : Blockchain) (numBlocks : UInt64) (block : Block)
    (numTransactions : UInt64) (transaction : Transaction) (signatureBytes : List UInt8) : Prop where
  layout : buffer =
    encodeBlockchainHeader chain.numLeadingZeroBytesRequiredInBlockHash numBlocks ++
    (chain.blockList.flatMap encodeBlock ++
    (encodeBlockHeader block numTransactions ++
    (block.transactionList.flatMap encodeTransaction ++
    (encodeTransactionHeader transaction ++ signatureBytes))))
  moreBlocks : chain.blockList.length < numBlocks.toNat
  moreTransactions : block.transactionList.length < numTransactions.toNat
  declared : transaction.senderSignature.length.toNat ≤ signatureBytes.length
  cut : signatureBytes.length < 512
  blocksAcceptable : chain.Acceptable
  blocksInside : 16 + demand encodeBlock blockNeeds chain.blockList ≤ buffer.length
  transactionsAcceptable : ∀ other ∈ block.transactionList, other.Acceptable
  transactionsInside : 16 + (chain.blockList.flatMap encodeBlock).length + 56 +
    demand encodeTransaction transactionNeeds block.transactionList ≤ buffer.length

def CutInsideSignature (buffer : List UInt8) : Prop :=
  ∃ chain numBlocks block numTransactions transaction signatureBytes,
    CutAt buffer chain numBlocks block numTransactions transaction signatureBytes

/-! ## Leaving the buffer means a cut signature -/

theorem guarded_readUInt64 (order : ByteOrder) : (readUInt64 order).Guarded :=
  (Decoder.guarded_checkedTake 8).bind fun _ => Decoder.guarded_done _

/-- After its check the signature is read without another one, so leaving the buffer
and succeeding go together. -/
theorem readSignature_overruns {order : ByteOrder} {input : Input} {cursor : Cursor}
    (leaves : (readSignature order).Overruns input cursor) :
    ∃ signature reached, (readSignature order).run input cursor = (.ok signature, reached) := by
  have guardedWord := guarded_readUInt64 order
  obtain ⟨length, middle, first, later⟩ := guardedWord.overruns_rest leaves
  by_cases long : length > maxSshKeyLength
  · simp only [long, if_true] at later
    exact absurd later (Decoder.guarded_reject _ input middle)
  · simp only [long, if_false] at later
    have ran : (readSignature order).run input cursor = _ := Decoder.run_bind_ok first
    simp only [long, if_false] at ran
    rw [ran]
    -- the check passed; copying the array cannot fail any more
    obtain ⟨_, checked, check, _⟩ := (Decoder.guarded_requireSpace _).overruns_rest later
    exact ⟨_, _, Decoder.run_bind_ok check⟩

theorem deserializeTransaction_overruns {order : ByteOrder} {input : Input} {cursor : Cursor}
    (leaves : (deserializeTransaction order).Overruns input cursor) :
    ∃ transaction reached, (deserializeTransaction order).run input cursor = (.ok transaction, reached) := by
  have guardedWord := guarded_readUInt64 order
  have guardedKey : (Decoder.checkedTake 4096 : Decoder Failure _).Guarded := Decoder.guarded_checkedTake 4096
  obtain ⟨_, c0, calloc, leaves⟩ := (Decoder.guarded_allocate _).overruns_rest leaves
  obtain ⟨createdAt, c1, first, leaves⟩ := guardedWord.overruns_rest leaves
  obtain ⟨sender, c2, second, leaves⟩ := guardedKey.overruns_rest leaves
  obtain ⟨recipient, c3, third, leaves⟩ := guardedKey.overruns_rest leaves
  obtain ⟨amount, c4, fourth, leaves⟩ := guardedWord.overruns_rest leaves
  -- every other field is checked, so it is the signature
  have inSignature := Decoder.overruns_first (fun _ => Decoder.guarded_done _) leaves
  obtain ⟨signature, c5, fifth⟩ := readSignature_overruns inSignature
  have succeeded : (deserializeTransaction order).run input cursor =
      (.ok ⟨createdAt.toInt64, ⟨sender⟩, ⟨recipient⟩, amount, signature⟩, c5) := by
    rw [deserializeTransaction, Decoder.run_bind_ok calloc, Decoder.run_bind_ok first,
      Decoder.run_bind_ok second, Decoder.run_bind_ok third, Decoder.run_bind_ok fourth,
      Decoder.run_bind_ok fifth]
    rfl
  exact ⟨_, _, succeeded⟩

theorem readTransactionList_overruns {order : ByteOrder} {input : Input} {cursor : Cursor}
    {block : Block} {numTransactions : UInt64}
    (leaves : (readTransactionList order block numTransactions).Overruns input cursor) :
    ∃ transactions transaction, transactions.length < numTransactions.toNat ∧
      input.Holds cursor.position (transactions.flatMap encodeTransaction ++
        encodeTransactionHeader transaction) ∧
      (transactions = [] ∨
        cursor.position + demand encodeTransaction transactionNeeds transactions ≤ input.size) ∧
      (∀ other ∈ transactions, other.Acceptable) ∧
      cursor.position + (transactions.flatMap encodeTransaction).length +
        transactionNeeds transaction ≤ input.size ∧
      input.size < cursor.position + (transactions.flatMap encodeTransaction).length + 8728 := by
  obtain ⟨_, c0, create, leaves⟩ := (Decoder.guarded_allocate _).overruns_rest leaves
  have moved0 : c0.position = cursor.position := by
    rw [Decoder.run_allocate] at create
    rw [← (Prod.mk.inj create).2, Cursor.record_position]
  have inLoop := Decoder.overruns_first (fun _ => Decoder.guarded_allocate_pure _ _) leaves
  -- the rounds before the one that leaves have succeeded
  obtain ⟨rounds, few, list, reached, ran, inBody⟩ := Decoder.overruns_repeatTimes inLoop
  obtain ⟨transactions, -, counted, held, moved, reaches, accepted⟩ :=
    (appendTransaction_appends order).repeatTimes_sound ran
  have inTransaction : (deserializeTransaction order).Overruns input reached :=
    Decoder.overruns_first (fun _ => Decoder.guarded_allocate_pure _ _) inBody
  obtain ⟨transaction, final, succeeded⟩ := deserializeTransaction_overruns inTransaction
  obtain ⟨heldLast, movedLast, inside, -⟩ := (deserializeTransaction_reads order).sound succeeded
  have outside := inTransaction.2
  rw [succeeded] at outside
  rw [moved0] at held moved reaches
  rw [encodeTransaction, Input.holds_append] at heldLast
  rw [encodeTransaction_length] at movedLast
  have heldAll : input.Holds cursor.position
      (transactions.flatMap encodeTransaction ++ encodeTransactionHeader transaction) := by
    rw [Input.holds_append, ← moved]
    exact ⟨held, heldLast.1⟩
  simp only at outside
  exact ⟨transactions, transaction, by omega, heldAll, reaches, accepted, by omega, by omega⟩

theorem deserializeBlock_overruns {order : ByteOrder} {input : Input} {cursor : Cursor}
    (leaves : (deserializeBlock order).Overruns input cursor) :
    ∃ block numTransactions middle, input.Holds cursor.position (encodeBlockHeader block numTransactions) ∧
      middle.position = cursor.position + 56 ∧
      (readTransactionList order block numTransactions).Overruns input middle := by
  have word := readUInt64_reads order
  have guardedWord := guarded_readUInt64 order
  have hash : Reads (Decoder.checkedTake 32 : Decoder Failure _) _ _ _ := reads_checkedTake 32
  have guardedHash : (Decoder.checkedTake 32 : Decoder Failure _).Guarded := Decoder.guarded_checkedTake 32
  obtain ⟨createdAt, c1, first, leaves⟩ := guardedWord.overruns_rest leaves
  obtain ⟨previousBlockHash, c2, second, leaves⟩ := guardedHash.overruns_rest leaves
  obtain ⟨proofOfWork, c3, third, leaves⟩ := guardedWord.overruns_rest leaves
  obtain ⟨numTransactions, c4, fourth, leaves⟩ := guardedWord.overruns_rest leaves
  obtain ⟨held1, moved1, -, -⟩ := word.sound first
  obtain ⟨held2, moved2, -, -⟩ := hash.sound second
  obtain ⟨held3, moved3, -, -⟩ := word.sound third
  obtain ⟨held4, moved4, -, -⟩ := word.sound fourth
  simp only [Vector.length_toList] at moved1 moved2 moved3 moved4
  rw [moved1] at held2
  rw [moved2, moved1] at held3
  rw [moved3, moved2, moved1] at held4
  have held : input.Holds cursor.position (encodeBlockHeader
      (blockCreate createdAt.toInt64 [] proofOfWork ⟨previousBlockHash⟩) numTransactions) := by
    simp only [encodeBlockHeader, blockCreate, Input.holds_append, Vector.length_toList]
    exact ⟨held1, held2, held3, held4⟩
  exact ⟨_, numTransactions, c4, held, by omega, leaves⟩

theorem guarded_storeBlock (blockchain : Blockchain) (block : Block) : (storeBlock blockchain block).Guarded := by
  apply (Decoder.guarded_allocate 16).bind
  intro _
  cases blockchainAddBlock blockchain block with
  | error code => exact Decoder.guarded_reject code
  | ok longer => exact Decoder.guarded_done longer

theorem deserializeBlockchain_overruns {order : ByteOrder} {input : Input} {cursor : Cursor}
    (leaves : (deserializeBlockchain order).Overruns input cursor) :
    ∃ numLeadingZeroBytes numBlocks middle,
      input.Holds cursor.position (encodeBlockchainHeader numLeadingZeroBytes numBlocks) ∧
      middle.position = cursor.position + 16 ∧
      (Decoder.repeatTimes numBlocks.toNat (appendBlock order)
        (blockchainCreate numLeadingZeroBytes)).Overruns input middle := by
  have word := readUInt64_reads order
  have guardedWord := guarded_readUInt64 order
  obtain ⟨numLeadingZeroBytes, c1, first, leaves⟩ := guardedWord.overruns_rest leaves
  obtain ⟨_, c2, create, leaves⟩ := (Decoder.guarded_allocate _).overruns_rest leaves
  obtain ⟨_, c3, createList, leaves⟩ := (Decoder.guarded_allocate _).overruns_rest leaves
  obtain ⟨numBlocks, c4, second, leaves⟩ := guardedWord.overruns_rest leaves
  obtain ⟨held1, moved1, -, -⟩ := word.sound first
  obtain ⟨held2, moved2, -, -⟩ := word.sound second
  rw [Decoder.run_allocate] at create createList
  rw [← (Prod.mk.inj createList).2, ← (Prod.mk.inj create).2] at held2 moved2
  simp only [Cursor.record_position, Vector.length_toList] at moved1 moved2 held2
  rw [moved1] at held2
  have held : input.Holds cursor.position (encodeBlockchainHeader numLeadingZeroBytes numBlocks) := by
    simp only [encodeBlockchainHeader, Input.holds_append, Vector.length_toList]
    exact ⟨held1, held2⟩
  exact ⟨numLeadingZeroBytes, numBlocks, c4, held, by omega, leaves⟩

/-- A run over a buffer that leaves it was cut inside a signature. -/
theorem overruns_cutInsideSignature {order : ByteOrder} {buffer : List UInt8} {behind : Nat → UInt8}
    {grants : Nat → Nat → Bool}
    (leaves : (deserializeBlockchain order).Overruns (Input.ofBuffer buffer behind grants) ⟨0, []⟩) :
    CutInsideSignature buffer := by
  obtain ⟨numLeadingZeroBytes, numBlocks, c1, heldChain, moved1, inBlocks⟩ :=
    deserializeBlockchain_overruns leaves
  obtain ⟨rounds, few, chain, c2, ran, inRound⟩ := Decoder.overruns_repeatTimes inBlocks
  have difficulty := appendBlocks_difficulty ran
  obtain ⟨blocks, collected, counted, heldBlocks, moved2, blocksInside, blocksAcceptable⟩ :=
    (appendBlock_appends order).repeatTimes_sound ran
  simp only [blockchainCreate, List.nil_append] at collected difficulty
  subst collected
  have inBlock : (deserializeBlock order).Overruns (Input.ofBuffer buffer behind grants) c2 :=
    Decoder.overruns_first (guarded_storeBlock chain) inRound
  obtain ⟨block, numTransactions, c3, heldHeader, moved3, inTransactions⟩ := deserializeBlock_overruns inBlock
  obtain ⟨transactions, transaction, fewTransactions, heldTransactions, transactionsInside,
    transactionsAcceptable, declared, cut⟩ := readTransactionList_overruns inTransactions
  simp only [Nat.zero_add] at heldChain moved1
  rw [moved1] at heldBlocks moved2 blocksInside
  rw [moved2] at heldHeader moved3
  rw [moved3] at heldTransactions transactionsInside declared cut
  rw [Input.ofBuffer_size] at blocksInside transactionsInside declared cut
  simp only [transactionNeeds] at declared
  -- what the run has seen of the buffer, from its start
  let seen := encodeBlockchainHeader numLeadingZeroBytes numBlocks ++ (chain.blockList.flatMap encodeBlock ++
    (encodeBlockHeader block numTransactions ++ (transactions.flatMap encodeTransaction ++
    encodeTransactionHeader transaction)))
  have heldSeen : (Input.ofBuffer buffer behind grants).Holds 0 seen := by
    simp only [seen]
    rw [Input.holds_append, Input.holds_append, Input.holds_append, encodeBlockchainHeader_length,
      encodeBlockHeader_length, Nat.zero_add]
    exact ⟨heldChain, heldBlocks, heldHeader, heldTransactions⟩
  have seenLength : seen.length = 16 + (chain.blockList.flatMap encodeBlock).length + 56 +
      (transactions.flatMap encodeTransaction).length + 8216 := by
    simp only [seen, List.length_append, encodeBlockchainHeader_length, encodeBlockHeader_length,
      encodeTransactionHeader_length]
    omega
  obtain ⟨signatureBytes, whole⟩ := Input.ofBuffer_holds_begins heldSeen (by omega)
  have lengths : seen.length + signatureBytes.length = buffer.length :=
    List.length_append.symm.trans (congrArg List.length whole)
  have reachesBlocks : 16 + demand encodeBlock blockNeeds chain.blockList ≤ buffer.length :=
    demand_reaches (by omega) blocksInside
  have reachesTransactions : 16 + (chain.blockList.flatMap encodeBlock).length + 56 +
      demand encodeTransaction transactionNeeds transactions ≤ buffer.length :=
    demand_reaches (by omega) transactionsInside
  have sameHeader : encodeBlockHeader { block with transactionList := transactions } numTransactions =
      encodeBlockHeader block numTransactions := rfl
  refine ⟨chain, numBlocks, { block with transactionList := transactions }, numTransactions, transaction,
    signatureBytes, ?_, by omega, fewTransactions, by omega, by omega, blocksAcceptable,
    reachesBlocks, transactionsAcceptable, reachesTransactions⟩
  rw [difficulty, sameHeader]
  simpa only [seen, List.append_assoc] using whole.symm

/-! ## A cut signature means leaving the buffer -/

/-- The record with other bytes in its signature array. -/
def Transaction.withSignatureBytes (transaction : Transaction) (bytes : Vector UInt8 512) : Transaction :=
  { transaction with senderSignature := ⟨transaction.senderSignature.length, bytes⟩ }

theorem encodeTransaction_withSignatureBytes (transaction : Transaction) (bytes : Vector UInt8 512) :
    encodeTransaction (transaction.withSignatureBytes bytes) =
      encodeTransactionHeader transaction ++ bytes.toList := by
  simp only [encodeTransaction, encodeTransactionHeader, Transaction.withSignatureBytes]

theorem deserializeTransaction_reaches (order : ByteOrder) {input : Input} {cursor : Cursor}
    {transaction : Transaction} (generous : input.Generous)
    (held : input.Holds cursor.position (encodeTransactionHeader transaction))
    (inside : cursor.position + transactionNeeds transaction ≤ input.size)
    (accepted : transaction.Acceptable) :
    cursor.position + 8728 ≤ ((deserializeTransaction order).run input cursor).2.position := by
  have heldFound : input.Holds cursor.position
      (encodeTransaction (transaction.withSignatureBytes (input.window (cursor.position + 8216) 512))) := by
    rw [encodeTransaction_withSignatureBytes, Input.holds_append, encodeTransactionHeader_length]
    exact ⟨held, input.holds_window _ _⟩
  generalize found : transaction.withSignatureBytes (input.window (cursor.position + 8216) 512) = record
    at heldFound
  have sameLength : record.senderSignature.length = transaction.senderSignature.length := by
    rw [← found, Transaction.withSignatureBytes]
  have reads := deserializeTransaction_reads order
  obtain ⟨reached, ran⟩ := reads.complete generous heldFound
    (by rw [transactionNeeds, sameLength]; exact inside)
    (by rw [Transaction.Acceptable, sameLength]; exact accepted)
  obtain ⟨-, moved, -, -⟩ := reads.sound ran
  rw [ran, moved, encodeTransaction_length]

theorem readTransactionList_reaches {order : ByteOrder} {input : Input} {cursor : Cursor}
    {block : Block} {numTransactions : UInt64} {transactions : List Transaction}
    {transaction : Transaction} (generous : input.Generous) (more : transactions.length < numTransactions.toNat)
    (held : input.Holds cursor.position (transactions.flatMap encodeTransaction))
    (reaches : cursor.position + demand encodeTransaction transactionNeeds transactions ≤ input.size)
    (accepted : ∀ other ∈ transactions, other.Acceptable)
    (heldLast : input.Holds (cursor.position + (transactions.flatMap encodeTransaction).length)
      (encodeTransactionHeader transaction))
    (inside : cursor.position + (transactions.flatMap encodeTransaction).length +
      transactionNeeds transaction ≤ input.size)
    (acceptedLast : transaction.Acceptable) :
    cursor.position + (transactions.flatMap encodeTransaction).length + 8728 ≤
      ((readTransactionList order block numTransactions).run input cursor).2.position := by
  have loop := appendTransaction_appends order
  have heldLoop : input.Holds (cursor.record 24).position (transactions.flatMap encodeTransaction) := held
  obtain ⟨list, reached, ran, -, moved⟩ := loop.repeatTimes_reads [] generous heldLoop (.inr reaches)
    accepted (fun _ _ _ => trivial)
  rw [Cursor.record_position] at moved
  rw [← moved] at heldLast inside
  have last : reached.position + 8728 ≤ _ :=
    deserializeTransaction_reaches order generous heldLast inside acceptedLast
  have body := Decoder.run_position_bind_le (deserializeTransaction order)
    (fun transaction => do Decoder.allocate 16; return list ++ [transaction]) input reached
  have whole := Decoder.repeatTimes_reaches ran more
  have block' := Decoder.run_position_bind_le
    (Decoder.repeatTimes numTransactions.toNat (appendTransaction order) [])
    (fun transactionList => do
      Decoder.allocate 56
      return { block with transactionList := transactionList }) input (cursor.record 24)
  rw [readTransactionList, run_allocate_bind generous]
  rw [moved] at last
  exact last.trans (body.trans (whole.trans block'))

/-- On a machine with memory to spare, every buffer cut inside a signature is read past
its end: the completed rounds succeed, and then the whole array is copied. -/
theorem overruns_of_cutInsideSignature (order : ByteOrder) {buffer : List UInt8} (behind : Nat → UInt8)
    (cut : CutInsideSignature buffer) :
    buffer.length <
      ((deserializeBlockchain order).run (Input.ofBuffer buffer behind grantAll) ⟨0, []⟩).2.position := by
  obtain ⟨chain, numBlocks, block, numTransactions, transaction, signatureBytes, cut⟩ := cut
  have generous := generous_ofBuffer buffer behind
  have held := Input.ofBuffer_holds buffer behind grantAll
  generalize shape : Input.ofBuffer buffer behind grantAll = input at *
  have size : input.size = buffer.length := by rw [← shape, Input.ofBuffer_size]
  rw [cut.layout] at held
  simp only [Input.holds_append, encodeBlockchainHeader_length, encodeBlockHeader_length,
    encodeTransactionHeader_length, Nat.zero_add] at held
  obtain ⟨heldChain, heldBlocks, heldHeader, heldTransactions, heldLast, heldSignature⟩ := held
  have total : buffer.length = 16 + ((chain.blockList.flatMap encodeBlock).length + (56 +
      ((block.transactionList.flatMap encodeTransaction).length + (8216 + signatureBytes.length)))) := by
    conv => lhs; rw [cut.layout]
    simp only [List.length_append, encodeBlockchainHeader_length, encodeBlockHeader_length,
      encodeTransactionHeader_length]
  have declared := cut.declared
  have short := cut.cut
  have acceptable : transaction.Acceptable := by
    rw [Transaction.Acceptable, UInt64.le_iff_toNat_le]
    exact Nat.le_trans (m := 512) (by omega) (by decide)
  have heldChain : input.Holds (⟨0, []⟩ : Cursor).position (encodeBlockchainHeader _ _) := heldChain
  obtain ⟨c1, moved1, header⟩ := deserializeBlockchain_header_complete order generous heldChain
    (by simp only; omega)
  simp only [Nat.zero_add] at moved1
  have loop := appendBlock_appends order
  have blocksInside := cut.blocksInside
  rw [← moved1] at heldBlocks heldHeader heldTransactions heldLast
  obtain ⟨result, c2, ran, -, moved2⟩ := loop.repeatTimes_reads
    (blockchainCreate chain.numLeadingZeroBytesRequiredInBlockHash) generous heldBlocks
    (.inr (by omega)) cut.blocksAcceptable (prefix_fits chain)
  rw [← moved2] at heldHeader heldTransactions heldLast
  obtain ⟨c3, moved3, blockHeader⟩ := deserializeBlock_header_complete order generous heldHeader (by omega)
  rw [← moved3] at heldTransactions heldLast
  have transactionsInside := cut.transactionsInside
  have needs : transactionNeeds transaction = 8216 + transaction.senderSignature.length.toNat := by
    rw [transactionNeeds]
    omega
  have last : _ ≤ ((readTransactionList order block numTransactions).run input c3).2.position :=
    readTransactionList_reaches generous cut.moreTransactions heldTransactions (by omega)
      cut.transactionsAcceptable heldLast (by omega) acceptable
  have body := Decoder.run_position_bind_le (deserializeBlock order) (storeBlock result) input c2
  have whole := Decoder.repeatTimes_reaches ran cut.moreBlocks
  rw [blockHeader] at body
  rw [header]
  exact Nat.lt_of_lt_of_le (by omega) (last.trans (body.trans whole))

/-! ## What lies behind the buffer -/

theorem readUInt64_blind (order : ByteOrder) : Decoder.Blind Eq (readUInt64 order) (readUInt64 order) := by
  apply (Decoder.blind_checkedTake 8).bind
  intro p other same
  subst same
  exact Decoder.blind_pure rfl

theorem readSignature_blind (order : ByteOrder) :
    Decoder.Blind (fun _ _ => True) (readSignature order) (readSignature order) := by
  apply (readUInt64_blind order).bind
  intro length other same
  subst same
  split
  · exact Decoder.blind_reject _
  · apply (Decoder.blind_requireSpace _).bind
    intro _ _ _
    exact (Decoder.blind_takeBytes 512).bind fun _ _ _ => Decoder.blind_pure trivial

theorem deserializeTransaction_blind (order : ByteOrder) :
    Decoder.Blind (fun _ _ => True) (deserializeTransaction order) (deserializeTransaction order) := by
  apply (Decoder.blind_allocate 8728).bind
  intro _ _ _
  apply (readUInt64_blind order).bind
  intro _ _ _
  apply (Decoder.blind_checkedTake 4096).bind
  intro _ _ _
  apply (Decoder.blind_checkedTake 4096).bind
  intro _ _ _
  apply (readUInt64_blind order).bind
  intro _ _ _
  exact (readSignature_blind order).bind fun _ _ _ => Decoder.blind_pure trivial

/-- Blocks that take the same memory. -/
def SameMemory (left right : Block) : Prop := left.memory = right.memory

theorem deserializeBlock_blind (order : ByteOrder) :
    Decoder.Blind SameMemory (deserializeBlock order) (deserializeBlock order) := by
  apply (readUInt64_blind order).bind
  intro _ _ _
  apply (Decoder.blind_checkedTake 32).bind
  intro _ _ _
  apply (readUInt64_blind order).bind
  intro _ _ _
  apply (readUInt64_blind order).bind
  intro numTransactions other same
  subst same
  apply (Decoder.blind_allocate 24).bind
  intro _ _ _
  have round (left right : List Transaction) (same : left.length = right.length) :
      Decoder.Blind (fun left right => left.length = right.length) (appendTransaction order left)
        (appendTransaction order right) := by
    apply (deserializeTransaction_blind order).bind
    intro _ _ _
    apply (Decoder.blind_allocate 16).bind
    intro _ _ _
    exact Decoder.blind_pure (by simp [same])
  apply (Decoder.Blind.repeatTimes round numTransactions.toNat rfl).bind
  intro left right same
  apply (Decoder.blind_allocate 56).bind
  intro _ _ _
  exact Decoder.blind_pure (by simp [SameMemory, Block.memory, blockCreate, same])

/-- No return code and no cursor depends on what lies behind the buffer. -/
theorem deserializeBlockchain_blind (order : ByteOrder) :
    Decoder.Blind (fun left right => chainMemory left.blockList = chainMemory right.blockList)
      (deserializeBlockchain order) (deserializeBlockchain order) := by
  apply (readUInt64_blind order).bind
  intro numLeadingZeroBytes other same
  subst same
  apply (Decoder.blind_allocate 16).bind
  intro _ _ _
  apply (Decoder.blind_allocate 24).bind
  intro _ _ _
  apply (readUInt64_blind order).bind
  intro numBlocks other same
  subst same
  have round (left right : Blockchain) (same : chainMemory left.blockList = chainMemory right.blockList) :
      Decoder.Blind (fun left right => chainMemory left.blockList = chainMemory right.blockList)
        (appendBlock order left) (appendBlock order right) := by
    apply (deserializeBlock_blind order).bind
    intro block block' sameMemory
    apply (Decoder.blind_allocate 16).bind
    intro _ _ _
    have grown : chainMemory (left.blockList ++ [block]) = chainMemory (right.blockList ++ [block']) := by
      rw [chainMemory_append, chainMemory_append, same, sameMemory]
    by_cases fits : chainMemory (left.blockList ++ [block]) < 2 ^ 64
    · have fits' := grown ▸ fits
      simp only [blockchainAddBlock, fits, fits', dite_true]
      exact Decoder.blind_pure grown
    · have full := grown ▸ fits
      simp only [blockchainAddBlock, fits, full, dite_false]
      exact Decoder.blind_reject _
  exact Decoder.Blind.repeatTimes round numBlocks.toNat rfl

/-! ## Truncated serializations -/

/-- A truncated serialization is refused exactly when the checks ask for more than is
left of it. -/
theorem deserialize_truncated {order : ByteOrder} {blockchain : Blockchain} {short : List UInt8}
    {behind : Nat → UInt8} {prior : Option Blockchain} (fits : blockchain.SignaturesFit)
    (begins : short <+: encodeBlockchain blockchain) :
    (blockchainDeserialize order (Input.ofBuffer short behind grantAll) prior).returnCode =
        .failureBufferTooSmall ↔
      short.length < blockchainNeeds blockchain := by
  have reads := deserializeBlockchain_reads order
  have blind := deserializeBlockchain_blind order
  rw [blockchainDeserialize]
  by_cases enough : blockchainNeeds blockchain ≤ short.length
  · obtain ⟨result, accepted⟩ :
        ∃ result, ((deserializeBlockchain order).run (Input.ofBuffer short behind grantAll) ⟨0, []⟩).1 = .ok result :=
      reads.prefix_accepted blind fits.acceptable begins enough behind (fun _ _ => rfl)
    cases ran : (deserializeBlockchain order).run (Input.ofBuffer short behind grantAll) ⟨0, []⟩ with
    | mk outcome final =>
      rw [ran] at accepted
      dsimp only at accepted
      subst accepted
      simp [enough]
  · have truncated : ((deserializeBlockchain order).run (Input.ofBuffer short behind grantAll) ⟨0, []⟩).1 =
        .error .truncated :=
      reads.truncated blind fits.acceptable begins (Nat.lt_of_not_le enough) behind fun _ _ => rfl
    cases ran : (deserializeBlockchain order).run (Input.ofBuffer short behind grantAll) ⟨0, []⟩ with
    | mk outcome final =>
      rw [ran] at truncated
      dsimp only at truncated
      subst truncated
      simpa [Failure.ofFault, Failure.bufferTooSmall] using enough

/-- The cut left the signature bytes that the chain's last record declares, and took
only unused bytes of its array. -/
def CutInsideLastSignature (blockchain : Blockchain) (short : List UInt8) : Prop :=
  ∃ blocks block transactions transaction, blockchain.blockList = blocks ++ [block] ∧
    block.transactionList = transactions ++ [transaction] ∧
    (encodeBlockchain blockchain).length ≤
      short.length + (512 - transaction.senderSignature.length.toNat)

theorem blockchainNeeds_concat {blockchain : Blockchain} {blocks : List Block} {block : Block}
    (fits : blockchain.SignaturesFit) (split : blockchain.blockList = blocks ++ [block]) :
    (encodeBlockchain blockchain).length + blockNeeds block =
      blockchainNeeds blockchain + (encodeBlock block).length := by
  have own : ∀ other ∈ blocks, blockNeeds other ≤ (encodeBlock other).length :=
    fun other member => (fits other (by simp [split, member])).needs_le
  rw [encodeBlockchain, blockchainNeeds, split, demand_concat own, List.flatMap_append, List.length_append,
    List.length_append, List.flatMap_singleton, encodeBlockchainHeader_length]
  omega

theorem blockNeeds_concat {block : Block} {transactions : List Transaction} {transaction : Transaction}
    (fits : block.SignaturesFit) (split : block.transactionList = transactions ++ [transaction]) :
    (encodeBlock block).length = blockNeeds block + (512 - transaction.senderSignature.length.toNat) := by
  have own : ∀ other ∈ transactions, transactionNeeds other ≤ (encodeTransaction other).length :=
    fun other member => (fits other (by simp [split, member])).needs_le
  have fitsLast : transaction.senderSignature.length.toNat ≤ 512 := fits transaction (by simp [split])
  rw [encodeBlock, blockNeeds, split, demand_concat own, List.flatMap_append, List.length_append,
    List.length_append, List.flatMap_singleton, encodeBlockHeader_length, encodeTransaction_length,
    transactionNeeds]
  omega

/-- What the checks were content with and is not whole is cut inside the last signature array. -/
theorem cutInsideLastSignature_of_needs {blockchain : Blockchain} {short : List UInt8}
    (enough : blockchainNeeds blockchain ≤ short.length)
    (strict : short.length < (encodeBlockchain blockchain).length) :
    CutInsideLastSignature blockchain short := by
  rw [blockchainNeeds] at enough
  cases List.eq_nil_or_concat' blockchain.blockList with
  | inl empty =>
    -- without a block nothing is read that is not checked
    rw [encodeBlockchain, empty] at strict
    rw [empty] at enough
    simp [demand] at strict enough
    omega
  | inr last =>
    obtain ⟨blocks, block, split⟩ := last
    have chain := le_demand_concat encodeBlock blockNeeds blocks block
    rw [split] at enough
    have length : (encodeBlockchain blockchain).length =
        16 + (blocks.flatMap encodeBlock).length + (encodeBlock block).length := by
      simp [encodeBlockchain, split, Nat.add_assoc]
    cases List.eq_nil_or_concat' block.transactionList with
    | inl empty =>
      simp [encodeBlock, blockNeeds, empty, demand] at length chain
      omega
    | inr lastTransaction =>
      obtain ⟨transactions, transaction, splitBlock⟩ := lastTransaction
      have own := le_demand_concat encodeTransaction transactionNeeds transactions transaction
      rw [blockNeeds, splitBlock] at chain
      have lengthBlock : (encodeBlock block).length =
          56 + (transactions.flatMap encodeTransaction).length + 8728 := by
        simp [encodeBlock, splitBlock, Nat.add_assoc]
      rw [transactionNeeds] at own
      exact ⟨blocks, block, transactions, transaction, split, splitBlock, by omega⟩

theorem cutInsideLastSignature_iff {blockchain : Blockchain} {short : List UInt8}
    (fits : blockchain.SignaturesFit) (strict : short.length < (encodeBlockchain blockchain).length) :
    CutInsideLastSignature blockchain short ↔ blockchainNeeds blockchain ≤ short.length := by
  constructor
  · intro ⟨blocks, block, transactions, transaction, split, splitBlock, enough⟩
    have chain := blockchainNeeds_concat fits split
    have last := blockNeeds_concat (fits block (by simp [split])) splitBlock
    omega
  · exact fun enough => cutInsideLastSignature_of_needs enough strict

/-! ## The exact condition -/

/-- Whatever lies behind the buffer and whichever allocations succeed, the call looks
only at the buffer, and when it fails it leaves `*blockchain` as it was. -/
def StaysInside (order : ByteOrder) (buffer : List UInt8) : Prop :=
  ∀ behind grants prior,
    (blockchainDeserialize order (Input.ofBuffer buffer behind grants) prior).examined ≤ buffer.length ∧
      ((blockchainDeserialize order (Input.ofBuffer buffer behind grants) prior).returnCode ≠ .success →
        (blockchainDeserialize order (Input.ofBuffer buffer behind grants) prior).blockchain = prior)

theorem blockchainDeserialize_examined (order : ByteOrder) (input : Input) (prior : Option Blockchain) :
    (blockchainDeserialize order input prior).examined =
      ((deserializeBlockchain order).run input ⟨0, []⟩).2.position := by
  rw [blockchainDeserialize]
  cases (deserializeBlockchain order).run input ⟨0, []⟩ with
  | mk outcome final =>
    cases outcome with
    | ok newBlockchain => rfl
    | error fault => rfl

theorem blockchainDeserialize_untouched {order : ByteOrder} {input : Input} {prior : Option Blockchain}
    (failed : (blockchainDeserialize order input prior).returnCode ≠ .success) :
    (blockchainDeserialize order input prior).blockchain = prior := by
  rw [blockchainDeserialize] at failed ⊢
  cases ran : (deserializeBlockchain order).run input ⟨0, []⟩ with
  | mk outcome final =>
    rw [ran] at failed
    cases outcome with
    | ok newBlockchain => exact absurd rfl failed
    | error fault => rfl

/-- `blockchain_deserialize` stays inside a buffer unless the buffer is cut inside a
signature array, and it refuses a truncated serialization with
`FAILURE_BUFFER_TOO_SMALL` unless the cut is inside the last one. -/
theorem blockchain_deserialize_stays_inside_iff (order : ByteOrder) :
    (∀ buffer, StaysInside order buffer ↔ ¬ CutInsideSignature buffer) ∧
      ∀ blockchain buffer size short, blockchain.SignaturesFit →
        blockchainSerialize grantAll order blockchain = .ok (buffer, size) →
        short <+: buffer → short.length < buffer.length →
        ((∀ behind prior, (blockchainDeserialize order (Input.ofBuffer short behind grantAll)
            prior).returnCode = .failureBufferTooSmall) ↔
          ¬ CutInsideLastSignature blockchain short) := by
  constructor
  · intro buffer
    constructor
    · intro stays cut
      have leaves := overruns_of_cutInsideSignature order (fun _ => 0) cut
      have inside := (stays (fun _ => 0) grantAll none).1
      rw [blockchainDeserialize_examined] at inside
      omega
    · intro uncut behind grants prior
      refine ⟨?_, blockchainDeserialize_untouched⟩
      rw [blockchainDeserialize_examined]
      by_contra outside
      exact uncut (overruns_cutInsideSignature ⟨Nat.zero_le _, Nat.lt_of_not_le outside⟩)
  · intro blockchain buffer size short fits serialized begins strict
    have written := blockchain_serialize_sound serialized
    obtain ⟨rfl, -⟩ := Prod.mk.inj written
    rw [cutInsideLastSignature_iff fits strict, Nat.not_le]
    constructor
    · intro refused
      exact (deserialize_truncated fits begins).mp (refused (fun _ => 0) none)
    · intro needed behind prior
      exact (deserialize_truncated fits begins).mpr needed

/-- A transaction signed with a 2048 bit key: half of its signature array is unused. -/
def halfSignedTransaction : Transaction :=
  { sampleTransaction with senderSignature := ⟨256, Vector.replicate 512 0⟩ }

def halfSignedChain : Blockchain :=
  ⟨[blockCreate 0 [halfSignedTransaction] 0 Sha256.zero], 0, by decide⟩

/-- The serialization of that chain without its last byte. -/
def cutBuffer : List UInt8 :=
  encodeBlockchainHeader 0 1 ++ (encodeBlockHeader (blockCreate 0 [] 0 Sha256.zero) 1 ++
    (encodeTransactionHeader halfSignedTransaction ++ List.replicate 511 0))

theorem cutBuffer_begins : encodeBlockchain halfSignedChain = cutBuffer ++ [0] := by
  have array : (Vector.replicate 512 (0 : UInt8)).toList = List.replicate 511 0 ++ [0] := by
    rw [Vector.toList_replicate, ← List.replicate_succ']
  have signature : halfSignedTransaction.senderSignature.bytes = Vector.replicate 512 0 := rfl
  have one {α : Type} (value : α) : linkedListLength [value] = 1 := rfl
  simp only [encodeBlockchain, halfSignedChain, cutBuffer, one, List.flatMap_singleton, encodeBlock,
    blockCreate, encodeTransaction, signature, array, encodeBlockHeader, List.append_assoc]

theorem halfSignedChain_signaturesFit : halfSignedChain.SignaturesFit := by
  intro block member transaction inBlock
  simp only [halfSignedChain, List.mem_singleton] at member
  subst member
  simp only [blockCreate, List.mem_singleton] at inBlock
  subst inBlock
  show (256 : Nat) ≤ 512
  decide

theorem cutBuffer_length : cutBuffer.length = 8799 := by
  simp only [cutBuffer, List.length_append, encodeBlockchainHeader_length, encodeBlockHeader_length,
    encodeTransactionHeader_length, List.length_replicate]

theorem cutBuffer_cut : CutInsideSignature cutBuffer := by
  have copied : (List.replicate 511 (0 : UInt8)).length = 511 := List.length_replicate
  refine ⟨blockchainCreate 0, 1, blockCreate 0 [] 0 Sha256.zero, 1, halfSignedTransaction,
    List.replicate 511 0, rfl, by decide, by decide, ?_, ?_, ?_, ?_, ?_, ?_⟩
  · rw [copied]
    decide
  · rw [copied]
    decide
  · intro block member
    cases member
  · rw [cutBuffer_length]
    decide
  · intro other member
    cases member
  · rw [cutBuffer_length]
    decide

/-- The cut serialization is read past its end, and it is not refused. -/
theorem blockchain_deserialize_leaves_cutBuffer :
    halfSignedChain.SignaturesFit ∧ encodeBlockchain halfSignedChain = cutBuffer ++ [0] ∧
      cutBuffer.length < (blockchainDeserialize .littleEndian
        (Input.ofBuffer cutBuffer (fun _ => 0) grantAll) none).examined ∧
      (blockchainDeserialize .littleEndian
        (Input.ofBuffer cutBuffer (fun _ => 0) grantAll) none).returnCode ≠ .failureBufferTooSmall := by
  refine ⟨halfSignedChain_signaturesFit, cutBuffer_begins, ?_, ?_⟩
  · rw [blockchainDeserialize_examined]
    exact overruns_of_cutInsideSignature .littleEndian (fun _ => 0) cutBuffer_cut
  · intro refused
    have begins : cutBuffer <+: encodeBlockchain halfSignedChain := ⟨[0], cutBuffer_begins.symm⟩
    have needed := (deserialize_truncated halfSignedChain_signaturesFit begins).mp refused
    have needs : blockchainNeeds halfSignedChain = 8544 := by decide
    rw [cutBuffer_length] at needed
    omega

/-- Cut before the end of the declared signature, the serialization is refused. -/
theorem blockchain_deserialize_refuses_sample :
    ∀ behind prior, (blockchainDeserialize .littleEndian
      (Input.ofBuffer (cutBuffer.take 8543) behind grantAll) prior).returnCode = .failureBufferTooSmall := by
  have begins : cutBuffer.take 8543 <+: encodeBlockchain halfSignedChain := by
    rw [cutBuffer_begins]
    exact (List.take_prefix _ _).trans (List.prefix_append _ _)
  have length : (cutBuffer.take 8543).length = 8543 := by
    rw [List.length_take, cutBuffer_length]
    decide
  have strict : (cutBuffer.take 8543).length < (encodeBlockchain halfSignedChain).length := by
    rw [length, cutBuffer_begins, List.length_append, cutBuffer_length]
    decide
  have serialized := blockchain_serialize_eq (fun _ _ => rfl) .littleEndian halfSignedChain
  apply ((blockchain_deserialize_stays_inside_iff .littleEndian).2 halfSignedChain _ _ _
    halfSignedChain_signaturesFit serialized begins strict).mpr
  rw [cutInsideLastSignature_iff halfSignedChain_signaturesFit strict, length]
  decide

end LeoCoin
