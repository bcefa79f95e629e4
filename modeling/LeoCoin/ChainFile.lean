import LeoCoin.Library.Transition
import LeoCoin.Overread

/-! # The chain in a file

The miner writes its chain to a file after each block.  The file is truncated first, and
nobody looks at what `fclose` returns, so at any time the file can hold any first part of
the chain that was written last.  What is read back is that chain or nothing, but for bytes
of the last signature that nobody uses.
-/

namespace LeoCoin

open Library.Decoding Library.Transition

/-! ## Writing and reading -/

/-- What one call of `blockchain_write_to_file` meets: the allocator, whether the file is opened,
how many bytes `fwrite` takes, and how many are in the file once it is closed. -/
structure WriteEnvironment where
  grants : Nat → Nat → Bool
  opens : Bool
  takes : Nat
  flushes : Nat

/-- The return code of a call and the file afterwards, which is `none` where there is none. -/
structure FileWrite where
  returnCode : ReturnCode
  file : Option (List UInt8)

def blockchainWriteToFile (order : ByteOrder) (environment : WriteEnvironment) (blockchain : Blockchain)
    (file : Option (List UInt8)) : FileWrite :=
  match blockchainSerialize environment.grants order blockchain with
  | .error code => ⟨code.val, file⟩
  | .ok (buffer, bufferSize) =>
    if !environment.opens then
      ⟨.failureFileIo, file⟩
    else
      let bytesWritten := min environment.takes bufferSize.toNat
      -- what `fwrite` has taken can still be lost in `fclose`
      let written := buffer.take (min environment.flushes bytesWritten)
      if bytesWritten ≠ bufferSize.toNat then
        ⟨.failureFileIo, some written⟩
      else
        ⟨.success, some written⟩

/-- What one call of `blockchain_read_from_file` meets: whether the file is opened, whether there is
memory for all of it, how many bytes `fread` delivers, and what is in memory behind them. -/
structure ReadEnvironment where
  opens : Bool
  malloc : Bool
  delivers : Nat
  behind : Nat → UInt8
  grants : Nat → Nat → Bool

/-- The return code, and `*blockchain` afterwards. -/
def blockchainReadFromFile (order : ByteOrder) (environment : ReadEnvironment) (file : Option (List UInt8))
    (prior : Option Blockchain) : ReturnCode × Option Blockchain :=
  match file with
  | none => (.failureFileIo, prior)
  | some contents =>
    if !environment.opens then
      (.failureFileIo, prior)
    else if !environment.malloc then
      (.failureCouldNotMalloc, prior)
    else if min environment.delivers contents.length ≠ contents.length then
      (.failureFileIo, prior)
    else
      let deserialization :=
        blockchainDeserialize order (Input.ofBuffer contents environment.behind environment.grants) prior
      (deserialization.returnCode, deserialization.blockchain)

/-! ## The first part of a chain -/

/-- The chain, or one with other bytes behind the signature of its last transaction. -/
inductive Repadded (blockchain : Blockchain) : Blockchain → Prop where
  | same : Repadded blockchain blockchain
  | padded {other : Blockchain} {blocks : List Block} {block : Block} {transactions : List Transaction}
      {transaction : Transaction} {bytes : Vector UInt8 512} :
      blockchain.blockList = blocks ++ [block] → block.transactionList = transactions ++ [transaction] →
      other.numLeadingZeroBytesRequiredInBlockHash = blockchain.numLeadingZeroBytesRequiredInBlockHash →
      other.blockList =
        blocks ++ [{ block with transactionList := transactions ++ [transaction.withSignatureBytes bytes] }] →
      (∀ index, (bound : index < 512) → index < transaction.senderSignature.length.toNat →
        bytes[index] = transaction.senderSignature.bytes[index]) →
      Repadded blockchain other

section Parts

variable {order : ByteOrder} {blockchain : Blockchain} {short : List UInt8} {behind : Nat → UInt8}
  {grants : Nat → Nat → Bool} {prior : Option Blockchain}

/-- A serialization up to the last signature. -/
theorem encodeBlockchain_concat {other : Blockchain} {blocks : List Block} {block : Block}
    {transactions : List Transaction} {transaction : Transaction} (split : other.blockList = blocks ++ [block])
    (splitBlock : block.transactionList = transactions ++ [transaction]) :
    encodeBlockchain other =
      (encodeBlockchainHeader other.numLeadingZeroBytesRequiredInBlockHash (linkedListLength (blocks ++ [block])) ++
        blocks.flatMap encodeBlock ++
        (encodeBlockHeader block (linkedListLength (transactions ++ [transaction])) ++
          transactions.flatMap encodeTransaction ++ encodeTransactionHeader transaction)) ++
        transaction.senderSignature.bytes.toList := by
  simp only [encodeBlockchain, split, List.flatMap_append, List.flatMap_singleton, encodeBlock, splitBlock,
    encodeTransaction, List.append_assoc]

@[simp] theorem Transaction.withSignatureBytes_signature (transaction : Transaction) (bytes : Vector UInt8 512) :
    (transaction.withSignatureBytes bytes).senderSignature = ⟨transaction.senderSignature.length, bytes⟩ := rfl

@[simp] theorem Transaction.withSignatureBytes_again (transaction : Transaction) (bytes others : Vector UInt8 512) :
    (transaction.withSignatureBytes bytes).withSignatureBytes others = transaction.withSignatureBytes others := rfl

@[simp] theorem Transaction.withSignatureBytes_own (transaction : Transaction) :
    transaction.withSignatureBytes transaction.senderSignature.bytes = transaction := rfl

theorem chainMemory_concat_congr {blocks : List Block} {block other : Block}
    (same : block.transactionList.length = other.transactionList.length) :
    chainMemory (blocks ++ [block]) = chainMemory (blocks ++ [other]) := by
  simp [chainMemory, Block.memory, same]

/-- The chain that a serialization with other bytes in the last signature array is one of. -/
theorem exists_encodeBlockchain_resigned {chain : Blockchain} {blocks : List Block} {block : Block}
    {transactions : List Transaction} {transaction : Transaction} {upTo : List UInt8}
    (split : chain.blockList = blocks ++ [block]) (splitBlock : block.transactionList = transactions ++ [transaction])
    (whole : encodeBlockchain chain = upTo ++ transaction.senderSignature.bytes.toList) (bytes : Vector UInt8 512) :
    ∃ other : Blockchain, encodeBlockchain other = upTo ++ bytes.toList ∧
      other.numLeadingZeroBytesRequiredInBlockHash = chain.numLeadingZeroBytesRequiredInBlockHash ∧
      other.blockList = blocks ++
        [{ block with transactionList := transactions ++ [transaction.withSignatureBytes bytes] }] := by
  let last : Block := { block with transactionList := transactions ++ [transaction.withSignatureBytes bytes] }
  have fits : chainMemory (blocks ++ [last]) < 2 ^ 64 := by
    rw [chainMemory_concat_congr (show last.transactionList.length = block.transactionList.length by
      simp [last, splitBlock]), ← split]
    exact chain.fits
  refine ⟨⟨blocks ++ [last], chain.numLeadingZeroBytesRequiredInBlockHash, fits⟩, ?_, rfl, rfl⟩
  rw [encodeBlockchain_concat split splitBlock] at whole
  rw [encodeBlockchain_concat rfl rfl, ← List.append_cancel_right whole]
  simp [last, linkedListLength, encodeTransactionHeader, encodeBlockHeader, Transaction.withSignatureBytes]

/-- What was read from the first part of a chain is that chain, but for bytes that the part does not hold. -/
theorem repadded_of_read {read : Blockchain}
    (held : (Input.ofBuffer short behind grants).Holds 0 (encodeBlockchain read))
    (begins : short <+: encodeBlockchain blockchain) (enough : blockchainNeeds read ≤ short.length) :
    Repadded blockchain read ∧ (short = encodeBlockchain blockchain → read = blockchain) := by
  let whole := Input.ofBuffer (encodeBlockchain blockchain) (fun _ => 0) grantAll
  have there : whole.Holds 0 (encodeBlockchain blockchain) := Input.ofBuffer_holds _ _ _
  by_cases inside : (encodeBlockchain read).length ≤ short.length
  · obtain ⟨rest, parts⟩ := (Input.ofBuffer_holds_begins held inside).trans begins
    have also : whole.Holds 0 (encodeBlockchain read) := by
      rw [← parts, Input.holds_append] at there
      exact there.1
    obtain rfl := encodeBlockchain_unambiguous trivial trivial also there
    exact ⟨.same, fun _ => rfl⟩
  · -- it is cut in the last signature array, and nothing before that is in doubt
    obtain ⟨blocks, block, transactions, transaction, split, splitBlock, declared⟩ :=
      cutInsideLastSignature_of_needs enough (Nat.lt_of_not_le inside)
    have encoded := encodeBlockchain_concat split splitBlock
    generalize encodeBlockchainHeader read.numLeadingZeroBytesRequiredInBlockHash
      (linkedListLength (blocks ++ [block])) ++ blocks.flatMap encodeBlock ++
      (encodeBlockHeader block (linkedListLength (transactions ++ [transaction])) ++
        transactions.flatMap encodeTransaction ++ encodeTransactionHeader transaction) = upTo at encoded
    have length : (encodeBlockchain read).length = upTo.length + 512 := by simp [encoded]
    rw [encoded, Input.holds_append, Nat.zero_add] at held
    obtain ⟨rest, parts⟩ := (Input.ofBuffer_holds_begins held.1 (by omega)).trans begins
    have upToThere : whole.Holds 0 upTo := by
      rw [← parts, Input.holds_append] at there
      exact there.1
    -- the chain is the one with what follows there for a signature
    obtain ⟨other, encodedOther, difficulty, resigned⟩ :=
      exists_encodeBlockchain_resigned split splitBlock encoded (whole.window upTo.length 512)
    have also : whole.Holds 0 (encodeBlockchain other) := by
      rw [encodedOther, Input.holds_append, Nat.zero_add]
      exact ⟨upToThere, Input.holds_window _ _ _⟩
    obtain rfl := encodeBlockchain_unambiguous trivial trivial also there
    have sameBytes (index : Nat) (bound : index < 512)
        (below : index < (transaction.withSignatureBytes
          (whole.window upTo.length 512)).senderSignature.length.toNat) :
        transaction.senderSignature.bytes[index] =
          (transaction.withSignatureBytes (whole.window upTo.length 512)).senderSignature.bytes[index] := by
      simp only [Transaction.withSignatureBytes_signature] at below ⊢
      have inShort : upTo.length + index < short.length := by omega
      have inWhole := Nat.lt_of_lt_of_le inShort begins.length_le
      have byte := held.2 index (by simpa using bound)
      have follows : (whole.window upTo.length 512)[index] = (encodeBlockchain other)[upTo.length + index] := by
        simp [Input.window, whole, Input.ofBuffer, inWhole]
      rw [Vector.getElem_toList] at byte
      rw [follows, ← begins.getElem inShort, ← byte]
      simp [Input.ofBuffer, inShort]
    have padded : read.blockList = blocks ++ [{ block with transactionList := transactions ++
        [(transaction.withSignatureBytes (whole.window upTo.length 512)).withSignatureBytes
          transaction.senderSignature.bytes] }] := by
      simp only [Transaction.withSignatureBytes_again, Transaction.withSignatureBytes_own, ← splitBlock]
      exact split
    refine ⟨.padded resigned rfl difficulty.symm padded sameBytes, fun same => ?_⟩
    have sameLength := congrArg List.length (same.trans encodedOther)
    rw [List.length_append, Vector.length_toList] at sameLength
    omega

/-- Of the first part of a chain that chain is read, but for the padding, or none. -/
theorem deserialize_part (order : ByteOrder) (grants : Nat → Nat → Bool) (behind : Nat → UInt8)
    (prior : Option Blockchain) (begins : short <+: encodeBlockchain blockchain) :
    ((blockchainDeserialize order (Input.ofBuffer short behind grants) prior).returnCode ≠ .success ∧
        (blockchainDeserialize order (Input.ofBuffer short behind grants) prior).blockchain = prior) ∨
      ∃ other, Repadded blockchain other ∧ (short = encodeBlockchain blockchain → other = blockchain) ∧
        (blockchainDeserialize order (Input.ofBuffer short behind grants) prior).returnCode = .success ∧
        (blockchainDeserialize order (Input.ofBuffer short behind grants) prior).blockchain = some other := by
  have reads := deserializeBlockchain_reads order
  cases ran : (deserializeBlockchain order).run (Input.ofBuffer short behind grants) ⟨0, []⟩ with
  | mk outcome final =>
    rw [blockchainDeserialize, ran]
    cases outcome with
    | error fault => exact .inl ⟨(Failure.ofFault fault).property, rfl⟩
    | ok value =>
      right
      obtain ⟨held, -, room, -⟩ := reads.sound ran
      rw [Input.ofBuffer_size, Nat.zero_add] at room
      obtain ⟨repadded, whole⟩ := repadded_of_read held begins room
      exact ⟨value, repadded, whole, rfl, rfl⟩

end Parts

/-! ## The file over a run -/

/-- One call of `blockchain_write_to_file`, which may be its last.  The label is the chain that the
file was opened for. -/
inductive FileStep (order : ByteOrder) : Option (List UInt8) → Option Blockchain → Option (List UInt8) → Prop where
  | writes {file : Option (List UInt8)} {environment : WriteEnvironment} {blockchain : Blockchain}
      {serialized : List UInt8 × UInt64} :
      blockchainSerialize environment.grants order blockchain = .ok serialized → environment.opens = true →
      FileStep order file (some blockchain) (blockchainWriteToFile order environment blockchain file).file
  | fails {file : Option (List UInt8)} {environment : WriteEnvironment} {blockchain : Blockchain} :
      (∃ code, blockchainSerialize environment.grants order blockchain = .error code) ∨ environment.opens = false →
      FileStep order file none (blockchainWriteToFile order environment blockchain file).file
  -- the process ends between `fopen` and `fclose`
  | dies {file : Option (List UInt8)} {grants : Nat → Nat → Bool} {blockchain : Blockchain} {size : UInt64}
      {buffer part : List UInt8} :
      blockchainSerialize grants order blockchain = .ok (buffer, size) → part <+: buffer →
      FileStep order file (some blockchain) (some part)

/-- The chain that the file was opened for last. -/
def lastSaved (labels : List (Option Blockchain)) : Option Blockchain := (labels.filterMap id).getLast?

section Runs

variable {order : ByteOrder} {labels : List (Option Blockchain)} {file before after : Option (List UInt8)}
  {label : Option Blockchain}

theorem blockchainWriteToFile_written {environment : WriteEnvironment} {blockchain : Blockchain}
    {serialized : List UInt8 × UInt64}
    (succeeded : blockchainSerialize environment.grants order blockchain = .ok serialized)
    (opens : environment.opens = true) :
    (blockchainWriteToFile order environment blockchain file).file =
      some ((encodeBlockchain blockchain).take
        (min environment.flushes (min environment.takes (encodeBlockchain blockchain).length))) := by
  obtain rfl := blockchain_serialize_sound succeeded
  rw [blockchainWriteToFile, succeeded]
  simp only [opens, Bool.not_true, Bool.false_eq_true, if_false, encodeBlockchain_length_toNat]
  split <;> rfl

theorem blockchainWriteToFile_failed {environment : WriteEnvironment} {blockchain : Blockchain}
    (fails : (∃ code, blockchainSerialize environment.grants order blockchain = .error code) ∨
      environment.opens = false) :
    (blockchainWriteToFile order environment blockchain file).file = file := by
  rw [blockchainWriteToFile]
  rcases fails with ⟨code, failed⟩ | closed
  · rw [failed]
  · cases blockchainSerialize environment.grants order blockchain with
    | error code => rfl
    | ok serialized => simp [closed]

/-- The file holds the first part of the chain that it was opened for last. -/
def Holding (file : Option (List UInt8)) (saved : Option Blockchain) : Prop :=
  ∀ contents, file = some contents → ∃ blockchain, saved = some blockchain ∧ contents <+: encodeBlockchain blockchain

theorem lastSaved_snoc (labels : List (Option Blockchain)) (label : Option Blockchain) :
    lastSaved (labels ++ [label]) = label.or (lastSaved labels) := by
  cases label <;> simp [lastSaved]

theorem FileStep.holding (holding : Holding before (lastSaved labels)) (step : FileStep order before label after) :
    Holding after (lastSaved (labels ++ [label])) := by
  rw [lastSaved_snoc]
  cases step with
  | writes succeeded opens =>
    rw [blockchainWriteToFile_written succeeded opens]
    rintro contents ⟨⟩
    exact ⟨_, rfl, List.take_prefix _ _⟩
  | fails failed =>
    rw [blockchainWriteToFile_failed failed]
    exact holding
  | dies succeeded begins =>
    rintro contents ⟨⟩
    obtain ⟨rfl, -⟩ := Prod.mk.inj (blockchain_serialize_sound succeeded)
    exact ⟨_, rfl, begins⟩

theorem holding_of_run (run : Run (FileStep order) none labels file) : Holding file (lastSaved labels) := by
  apply run.invariantAlong fun labels file => Holding file (lastSaved labels)
  · rintro contents ⟨⟩
  · exact fun sofar before label after holding step => step.holding holding

theorem blockchainReadFromFile_cases (order : ByteOrder) (environment : ReadEnvironment)
    (file : Option (List UInt8)) (prior : Option Blockchain) :
    ((blockchainReadFromFile order environment file prior).1 ≠ .success ∧
        (blockchainReadFromFile order environment file prior).2 = prior) ∨
      ∃ contents, file = some contents ∧
        blockchainReadFromFile order environment file prior =
          ((blockchainDeserialize order (Input.ofBuffer contents environment.behind environment.grants)
              prior).returnCode,
            (blockchainDeserialize order (Input.ofBuffer contents environment.behind environment.grants)
              prior).blockchain) := by
  cases file with
  | none => simp [blockchainReadFromFile]
  | some contents =>
    simp only [blockchainReadFromFile]
    split
    · simp
    · split
      · simp
      · split
        · simp
        · exact .inr ⟨contents, rfl, rfl⟩

end Runs

/-! ## What is read back -/

/-- Nothing is refused to a call that reads a file of this size. -/
structure ReadEnvironment.Plenty (environment : ReadEnvironment) (size : Nat) : Prop where
  opens : environment.opens = true
  malloc : environment.malloc = true
  delivers : size ≤ environment.delivers
  grants : environment.grants = grantAll

section Reading

variable {order : ByteOrder} {environment : ReadEnvironment} {contents : List UInt8} {blockchain : Blockchain}
  {prior : Option Blockchain}

theorem blockchainReadFromFile_plenty (order : ByteOrder) (plenty : environment.Plenty contents.length)
    (prior : Option Blockchain) :
    blockchainReadFromFile order environment (some contents) prior =
      ((blockchainDeserialize order (Input.ofBuffer contents environment.behind grantAll) prior).returnCode,
        (blockchainDeserialize order (Input.ofBuffer contents environment.behind grantAll) prior).blockchain) := by
  simp only [blockchainReadFromFile, plenty.opens, plenty.malloc, plenty.grants, Bool.not_true, Bool.false_eq_true,
    if_false, Nat.min_eq_right plenty.delivers, ne_eq, not_true_eq_false]

/-- What was read is in memory where it was read from. -/
theorem held_of_deserialized {input : Input}
    (stored : (blockchainDeserialize order input prior).returnCode = .success)
    (read : (blockchainDeserialize order input prior).blockchain = some blockchain) :
    input.Holds 0 (encodeBlockchain blockchain) := by
  rw [blockchainDeserialize] at stored read
  cases ran : (deserializeBlockchain order).run input ⟨0, []⟩ with
  | mk outcome final =>
    rw [ran] at stored read
    cases outcome with
    | error fault => exact absurd stored (Failure.ofFault fault).property
    | ok value =>
      cases read
      exact ((deserializeBlockchain_reads order).sound ran).1

/-- A serialization that lost its end is not read back for certain: memory behind it may differ. -/
theorem exists_behind_differs (contents : List UInt8) (blockchain : Blockchain)
    (strict : contents.length < (encodeBlockchain blockchain).length) :
    ∃ behind, ¬ (Input.ofBuffer contents behind grantAll).Holds 0 (encodeBlockchain blockchain) := by
  refine ⟨fun offset => (encodeBlockchain blockchain).getD offset 0 + 1, fun held => ?_⟩
  have byte := held contents.length strict
  simp [Input.ofBuffer, strict] at byte

end Reading

theorem blockchainWriteToFile_succeeded {writer : ByteOrder} {environment : WriteEnvironment}
    {blockchain : Blockchain} {file : Option (List UInt8)}
    (succeeded : (blockchainWriteToFile writer environment blockchain file).returnCode = .success) :
    (blockchainWriteToFile writer environment blockchain file).file =
      some ((encodeBlockchain blockchain).take environment.flushes) := by
  rw [blockchainWriteToFile] at succeeded ⊢
  cases written : blockchainSerialize environment.grants writer blockchain with
  | error code =>
    rw [written] at succeeded
    exact absurd succeeded code.property
  | ok serialized =>
    obtain rfl := blockchain_serialize_sound written
    rw [written] at succeeded
    simp only [encodeBlockchain_length_toNat] at succeeded ⊢
    split at succeeded
    · cases succeeded
    next opened =>
      rw [if_neg opened]
      split at succeeded
      · cases succeeded
      next all =>
        have all := not_not.mp all
        simp only [all, ne_eq, not_true_eq_false, if_false, List.take_eq_take_iff, Option.some_inj]
        omega

/-- After `SUCCESS` the chain is read back exactly when `fclose` has lost nothing of it, and it is
refused as too short exactly when that has lost more than padding. -/
theorem saved_chain_reads_back_iff (writer reader : ByteOrder) (environment : WriteEnvironment)
    (blockchain : Blockchain) (fits : blockchain.SignaturesFit) (file : Option (List UInt8))
    (succeeded : (blockchainWriteToFile writer environment blockchain file).returnCode = .success) :
    ∃ contents, (blockchainWriteToFile writer environment blockchain file).file = some contents ∧
      ((∀ read prior, read.Plenty contents.length →
          blockchainReadFromFile reader read (some contents) prior = (.success, some blockchain)) ↔
        (encodeBlockchain blockchain).length ≤ environment.flushes) ∧
      ((∀ read prior, read.Plenty contents.length →
          blockchainReadFromFile reader read (some contents) prior = (.failureBufferTooSmall, prior)) ↔
        environment.flushes < blockchainNeeds blockchain) := by
  have begins := List.take_prefix environment.flushes (encodeBlockchain blockchain)
  have length : ((encodeBlockchain blockchain).take environment.flushes).length =
      min environment.flushes (encodeBlockchain blockchain).length := List.length_take
  refine ⟨_, blockchainWriteToFile_succeeded succeeded, ?_, ?_⟩
  · constructor
    · intro reads
      by_contra lost
      obtain ⟨behind, differs⟩ := exists_behind_differs ((encodeBlockchain blockchain).take environment.flushes)
        blockchain (by omega)
      have read := reads ⟨true, true, _, behind, grantAll⟩ none ⟨rfl, rfl, Nat.le_refl _, rfl⟩
      rw [blockchainReadFromFile_plenty reader ⟨rfl, rfl, Nat.le_refl _, rfl⟩, Prod.mk.injEq] at read
      exact differs (held_of_deserialized read.1 read.2)
    · intro whole read prior plenty
      rw [blockchainReadFromFile_plenty reader plenty, List.take_of_length_le whole]
      have decoded : blockchainDeserialize reader _ prior = _ := deserialize_encode fits [] read.behind prior
      rw [List.append_nil] at decoded
      rw [decoded]
  · have needs := fits.needs_le
    constructor
    · intro refused
      have read := refused ⟨true, true, _, fun _ => 0, grantAll⟩ none ⟨rfl, rfl, Nat.le_refl _, rfl⟩
      rw [blockchainReadFromFile_plenty reader ⟨rfl, rfl, Nat.le_refl _, rfl⟩, Prod.mk.injEq] at read
      have short := (deserialize_truncated fits begins).mp read.1
      omega
    · intro lost read prior plenty
      have short : ((encodeBlockchain blockchain).take environment.flushes).length < blockchainNeeds blockchain := by
        omega
      have code : (blockchainDeserialize reader
          (Input.ofBuffer ((encodeBlockchain blockchain).take environment.flushes) read.behind grantAll)
            prior).returnCode = .failureBufferTooSmall := (deserialize_truncated fits begins).mpr short
      rw [blockchainReadFromFile_plenty reader plenty, code, blockchainDeserialize_untouched]
      rw [code]
      decide

/-- A call that nothing goes wrong in. -/
def WriteEnvironment.ideal (blockchain : Blockchain) : WriteEnvironment where
  grants := grantAll
  opens := true
  takes := (encodeBlockchain blockchain).length
  flushes := (encodeBlockchain blockchain).length

theorem blockchainWriteToFile_ideal (order : ByteOrder) (blockchain : Blockchain) (file : Option (List UInt8)) :
    (blockchainWriteToFile order (.ideal blockchain) blockchain file).returnCode = .success := by
  have written : blockchainSerialize grantAll order blockchain = _ :=
    blockchain_serialize_eq (fun _ _ => rfl) order blockchain
  simp only [blockchainWriteToFile, WriteEnvironment.ideal, written, encodeBlockchain_length_toNat]
  simp

theorem saved_chain_reads_back_iff_sample :
    ∃ contents, (blockchainWriteToFile .littleEndian (.ideal (sampleChain 1)) (sampleChain 1) none).file =
        some contents ∧
      ∀ read prior, read.Plenty contents.length →
        blockchainReadFromFile .bigEndian read (some contents) prior = (.success, some (sampleChain 1)) := by
  obtain ⟨contents, there, reads, -⟩ := saved_chain_reads_back_iff .littleEndian .bigEndian (.ideal (sampleChain 1))
    (sampleChain 1) (sampleChain_signaturesFit 1) none (blockchainWriteToFile_ideal _ _ _)
  exact ⟨contents, there, reads.mpr (Nat.le_refl _)⟩

/-- What is read back from a file that was written any number of times, each time in whole, in part
or not at all, is the chain that it was opened for last, or nothing. -/
theorem file_holds_last_saved (writer reader : ByteOrder) (labels : List (Option Blockchain))
    (file : Option (List UInt8)) (run : Run (FileStep writer) none labels file)
    (environment : ReadEnvironment) (prior : Option Blockchain) :
    ((blockchainReadFromFile reader environment file prior).1 ≠ .success ∧
        (blockchainReadFromFile reader environment file prior).2 = prior) ∨
      ∃ blockchain other, lastSaved labels = some blockchain ∧ Repadded blockchain other ∧
        blockchainReadFromFile reader environment file prior = (.success, some other) := by
  rcases blockchainReadFromFile_cases reader environment file prior with failed | ⟨contents, there, read⟩
  · exact .inl failed
  · obtain ⟨blockchain, saved, begins⟩ := holding_of_run run contents there
    rw [read]
    refine (deserialize_part reader _ _ prior begins).imp_right ?_
    rintro ⟨other, repadded, -, succeeded, stored⟩
    exact ⟨blockchain, other, saved, repadded, by rw [succeeded, stored]⟩

/-- A chain has been written, and the process ended before anything of the next one was. -/
theorem file_holds_last_saved_sample :
    ∃ file, Run (FileStep .littleEndian) none [some (sampleChain 0), some (sampleChain 1)] file ∧
      ∀ environment prior other, blockchainReadFromFile .bigEndian environment file prior = (.success, some other) →
        Repadded (sampleChain 1) other := by
  have grants (blockchain : Blockchain) : blockchainSerialize grantAll .littleEndian blockchain = .ok _ :=
    blockchain_serialize_eq (fun _ _ => rfl) .littleEndian blockchain
  have writes : FileStep .littleEndian none (some (sampleChain 0))
      (blockchainWriteToFile .littleEndian (.ideal (sampleChain 0)) (sampleChain 0) none).file :=
    .writes (grants (sampleChain 0)) rfl
  have run : Run (FileStep .littleEndian) none [some (sampleChain 0), some (sampleChain 1)] (some []) :=
    .cons writes (.single (.dies (grants (sampleChain 1)) List.nil_prefix))
  refine ⟨some [], run, fun environment prior other read => ?_⟩
  rcases file_holds_last_saved .littleEndian .bigEndian _ _ run environment prior with
    ⟨failed, -⟩ | ⟨blockchain, found, saved, repadded, succeeded⟩
  · rw [read] at failed
    exact absurd rfl failed
  · rw [read] at succeeded
    cases succeeded
    have last : lastSaved [some (sampleChain 0), some (sampleChain 1)] = some (sampleChain 1) := rfl
    rw [last] at saved
    cases saved
    exact repadded

end LeoCoin
