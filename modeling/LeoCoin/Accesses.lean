import LeoCoin.Library.Logging
import LeoCoin.Verify

/-! # What verification touches

`blockchain_verify` and the proof of work check once more, with a log of the places
where a count or an index that the chain brings along decides how far the code reads:
bytes of a digest, and the bytes of a signature.  The values are those of `Verify`
(`verifyLogged_value`), so the log adds nothing but what was looked at.
-/

namespace LeoCoin

open Library.Logging

variable {PKey : Type}

inductive Access where
  /-- `hash.digest[offset]` -/
  | digestByte (offset : Nat) : Access
  /-- `memcmp` of a hash, `count` bytes -/
  | digestCompare (count : UInt64) : Access
  /-- `EVP_VerifyFinal` with `sender_signature.bytes` and this length -/
  | signature (length : UInt64) : Access
deriving DecidableEq

/-- Only the 32 bytes of a hash are inspected. -/
def Access.InsideDigest : Access → Prop
  | .digestByte offset => offset < 32
  | .digestCompare count => count.toNat ≤ 32
  | .signature _ => True

/-- Only the bytes that a signature array has are handed over. -/
def Access.InsideSignature : Access → Prop
  | .signature length => length.toNat ≤ 512
  | _ => True

/-! ## The checks with a log -/

/-- The loop of `blockchain_is_valid_block_hash` from `idx` on. -/
def leadingBytesLogged (digest : Nat → UInt8) : Nat → Nat → Logged Access Bool
  | _, 0 => pure true
  | idx, remaining + 1 => do
    Logged.touch (.digestByte idx)
    if digest idx != 0 then pure false else leadingBytesLogged digest (idx + 1) remaining

def isValidBlockHashLogged (platform : Platform PKey) (blockchain : Blockchain) (blockHash : Sha256) :
    Logged Access Bool :=
  leadingBytesLogged (memoryOf blockHash.digest platform.pastHash) 0
    blockchain.numLeadingZeroBytesRequiredInBlockHash.toNat

/-- `transaction_verify_signature` -/
def verifySignatureLogged (platform : Platform PKey) (transaction : Transaction) :
    Logged Access (Except Failure Bool) :=
  match platform.readPublicKey transaction.senderPublicKey with
  | none => pure (.error .opensslFunction)
  | some publicKey =>
    match platform.verifyFinal publicKey (signedBytes platform.order transaction)
        transaction.senderSignature with
    -- the digest context failed before `EVP_VerifyFinal`
    | none => pure (.error .opensslFunction)
    | some result => do
      Logged.touch (.signature transaction.senderSignature.length)
      pure (.ok (result == 1))

def verifySignaturesLogged (platform : Platform PKey) : List Transaction → Logged Access (Except Failure Bool)
  | [] => pure (.ok true)
  | transaction :: rest => do
    match ← verifySignatureLogged platform transaction with
    | .error code => pure (.error code)
    | .ok false => pure (.ok false)
    | .ok true => verifySignaturesLogged platform rest

def verifyBlockLogged (platform : Platform PKey) (numLeadingZeroBytes : UInt64)
    (previousBlockHash : Sha256) (currentBlock : Block) : Logged Access BlockVerdict := do
  let currentBlockHash := blockHash platform currentBlock
  Logged.touch (.digestCompare numLeadingZeroBytes)
  if compareWithEmptyHash platform numLeadingZeroBytes currentBlockHash ≠ 0 then pure (.invalid true)
  else do
    Logged.touch (.digestCompare 32)
    if hashesDiffer currentBlock.previousBlockHash previousBlockHash then pure (.invalid true)
    else
      match currentBlock.transactionList with
      | [] => pure (.invalid false)
      | mintingTransaction :: others =>
        if mintingTransaction.amount ≠ amountGeneratedDuringMinting ∨
            keysDiffer mintingTransaction.senderPublicKey mintingTransaction.recipientPublicKey then
          pure (.invalid true)
        else do
          match ← verifySignaturesLogged platform (mintingTransaction :: others) with
          | .error code => pure (.failed code)
          | .ok false => pure (.invalid true)
          | .ok true => pure (.valid currentBlockHash)

def verifyBlocksLogged (platform : Platform PKey) (numLeadingZeroBytes : UInt64) :
    Sha256 → Nat → List Block → Logged Access Verification
  | _, _, [] => pure ⟨.success, some true, none⟩
  | previousBlockHash, index, currentBlock :: rest => do
    match ← verifyBlockLogged platform numLeadingZeroBytes previousBlockHash currentBlock with
    | .failed code => pure ⟨code.val, none, none⟩
    | .invalid reported => pure ⟨.success, some false, if reported then some index else none⟩
    | .valid currentBlockHash =>
      verifyBlocksLogged platform numLeadingZeroBytes currentBlockHash (index + 1) rest

/-- The last of the three tests of the genesis block; it is made when the others pass. -/
def genesisHashLogged (genesisBlock : Block) : Logged Access Bool := do
  Logged.touch (.digestCompare 32)
  pure (hashesDiffer genesisBlock.previousBlockHash Sha256.zero)

def verifyLogged (platform : Platform PKey) (blockchain : Blockchain) : Logged Access Verification :=
  match blockchain.blockList with
  | [] => pure ⟨.success, some true, none⟩
  | genesisBlock :: rest =>
    if !genesisBlock.transactionList.isEmpty || genesisBlock.proofOfWork != genesisBlockProofOfWork then
      pure ⟨.success, some false, some 0⟩
    else do
      if ← genesisHashLogged genesisBlock then pure ⟨.success, some false, some 0⟩
      else
        verifyBlocksLogged platform blockchain.numLeadingZeroBytesRequiredInBlockHash
          (blockHash platform genesisBlock) 1 rest

/-! ## The log changes no value -/

@[simp] theorem leadingBytesLogged_value (digest : Nat → UInt8) (idx remaining : Nat) :
    (leadingBytesLogged digest idx remaining).value = leadingBytesAreZero digest idx remaining := by
  induction remaining generalizing idx with
  | zero => rfl
  | succ remaining ih =>
    simp only [leadingBytesLogged, leadingBytesAreZero, Logged.value_bind]
    split
    · rfl
    · exact ih (idx + 1)

@[simp] theorem isValidBlockHashLogged_value (platform : Platform PKey) (blockchain : Blockchain)
    (hash : Sha256) :
    (isValidBlockHashLogged platform blockchain hash).value =
      blockchainIsValidBlockHash platform blockchain hash :=
  leadingBytesLogged_value _ _ _

@[simp] theorem verifySignatureLogged_value (platform : Platform PKey) (transaction : Transaction) :
    (verifySignatureLogged platform transaction).value = transactionVerifySignature platform transaction := by
  rw [verifySignatureLogged, transactionVerifySignature]
  cases platform.readPublicKey transaction.senderPublicKey with
  | none => rfl
  | some publicKey =>
    simp only
    cases platform.verifyFinal publicKey (signedBytes platform.order transaction)
        transaction.senderSignature with
    | none => rfl
    | some result => rfl

@[simp] theorem verifySignaturesLogged_value (platform : Platform PKey) (transactions : List Transaction) :
    (verifySignaturesLogged platform transactions).value = verifySignatures platform transactions := by
  induction transactions with
  | nil => rfl
  | cons transaction rest ih =>
    rw [verifySignaturesLogged, verifySignatures, Logged.value_bind, verifySignatureLogged_value]
    cases transactionVerifySignature platform transaction with
    | error code => rfl
    | ok isValidSignature =>
      cases isValidSignature with
      | false => rfl
      | true => exact ih

@[simp] theorem verifyBlockLogged_value (platform : Platform PKey) (numLeadingZeroBytes : UInt64)
    (previousBlockHash : Sha256) (currentBlock : Block) :
    (verifyBlockLogged platform numLeadingZeroBytes previousBlockHash currentBlock).value =
      verifyBlock platform numLeadingZeroBytes previousBlockHash currentBlock := by
  simp only [verifyBlockLogged, verifyBlock, Logged.value_bind]
  split
  · rfl
  · rw [Logged.value_bind]
    split
    · rfl
    · cases currentBlock.transactionList with
      | nil => rfl
      | cons mintingTransaction others =>
        simp only
        split
        · rfl
        · rw [Logged.value_bind, verifySignaturesLogged_value]
          cases verifySignatures platform (mintingTransaction :: others) with
          | error code => rfl
          | ok isValidSignature => cases isValidSignature <;> rfl

@[simp] theorem verifyBlocksLogged_value (platform : Platform PKey) (numLeadingZeroBytes : UInt64)
    (previousBlockHash : Sha256) (index : Nat) (blocks : List Block) :
    (verifyBlocksLogged platform numLeadingZeroBytes previousBlockHash index blocks).value =
      verifyBlocks platform numLeadingZeroBytes previousBlockHash index blocks := by
  induction blocks generalizing previousBlockHash index with
  | nil => rfl
  | cons block rest ih =>
    rw [verifyBlocksLogged, verifyBlocks, Logged.value_bind, verifyBlockLogged_value]
    cases verifyBlock platform numLeadingZeroBytes previousBlockHash block with
    | failed code => rfl
    | invalid reported => rfl
    | valid currentBlockHash => exact ih _ _

@[simp] theorem verifyLogged_value (platform : Platform PKey) (blockchain : Blockchain) :
    (verifyLogged platform blockchain).value = blockchainVerify platform blockchain := by
  rw [verifyLogged, blockchainVerify]
  cases blockchain.blockList with
  | nil => rfl
  | cons genesisBlock rest =>
    simp only
    by_cases malformed :
        (!genesisBlock.transactionList.isEmpty || genesisBlock.proofOfWork != genesisBlockProofOfWork) = true
    · rw [if_pos malformed, if_pos (by rw [malformed, Bool.true_or])]
      rfl
    · rw [if_neg malformed, Bool.eq_false_iff.mpr malformed, Bool.false_or, Logged.value_bind]
      have compared : (genesisHashLogged genesisBlock).value =
          hashesDiffer genesisBlock.previousBlockHash Sha256.zero := rfl
      rw [compared]
      split
      · rfl
      · exact verifyBlocksLogged_value _ _ _ _ _

/-! ## Everything that is touched -/

section Stays

variable {platform : Platform PKey} {allowed : Access → Prop}

theorem verifySignaturesLogged_stays {transactions : List Transaction}
    (signatures : ∀ transaction ∈ transactions, allowed (.signature transaction.senderSignature.length)) :
    (verifySignaturesLogged platform transactions).Stays allowed := by
  induction transactions with
  | nil => exact Logged.stays_pure _
  | cons transaction rest ih =>
    obtain ⟨own, others⟩ := List.forall_mem_cons.mp signatures
    have first : (verifySignatureLogged platform transaction).Stays allowed := by
      rw [verifySignatureLogged]
      split
      · exact Logged.stays_pure _
      · split
        · exact Logged.stays_pure _
        · exact Logged.stays_bind.mpr ⟨Logged.stays_touch.mpr own, Logged.stays_pure _⟩
    refine Logged.stays_bind.mpr ⟨first, ?_⟩
    split
    · exact Logged.stays_pure _
    · exact Logged.stays_pure _
    · exact ih others

theorem verifyBlockLogged_stays {numLeadingZeroBytes : UInt64} {previousBlockHash : Sha256} {block : Block}
    (work : allowed (.digestCompare numLeadingZeroBytes)) (whole : allowed (.digestCompare 32))
    (signatures : ∀ transaction ∈ block.transactionList,
      allowed (.signature transaction.senderSignature.length)) :
    (verifyBlockLogged platform numLeadingZeroBytes previousBlockHash block).Stays allowed := by
  refine Logged.stays_bind.mpr ⟨Logged.stays_touch.mpr work, ?_⟩
  split
  · exact Logged.stays_pure _
  · refine Logged.stays_bind.mpr ⟨Logged.stays_touch.mpr whole, ?_⟩
    split
    · exact Logged.stays_pure _
    · split
      · exact Logged.stays_pure _
      next minting others items =>
        split
        · exact Logged.stays_pure _
        · refine Logged.stays_bind.mpr ⟨verifySignaturesLogged_stays (items ▸ signatures), ?_⟩
          split <;> exact Logged.stays_pure _

theorem verifyBlocksLogged_stays {numLeadingZeroBytes : UInt64} {previousBlockHash : Sha256} {index : Nat}
    {blocks : List Block} (work : allowed (.digestCompare numLeadingZeroBytes))
    (whole : allowed (.digestCompare 32))
    (signatures : ∀ block ∈ blocks, ∀ transaction ∈ block.transactionList,
      allowed (.signature transaction.senderSignature.length)) :
    (verifyBlocksLogged platform numLeadingZeroBytes previousBlockHash index blocks).Stays allowed := by
  induction blocks generalizing previousBlockHash index with
  | nil => exact Logged.stays_pure _
  | cons block rest ih =>
    obtain ⟨own, others⟩ := List.forall_mem_cons.mp signatures
    refine Logged.stays_bind.mpr ⟨verifyBlockLogged_stays work whole own, ?_⟩
    split
    · exact Logged.stays_pure _
    · exact Logged.stays_pure _
    · exact ih others

/-- All that `blockchain_verify` can touch on a chain. -/
theorem verifyLogged_stays {blockchain : Blockchain}
    (work : allowed (.digestCompare blockchain.numLeadingZeroBytesRequiredInBlockHash))
    (whole : allowed (.digestCompare 32))
    (signatures : ∀ block ∈ blockchain.blockList, ∀ transaction ∈ block.transactionList,
      allowed (.signature transaction.senderSignature.length)) :
    (verifyLogged platform blockchain).Stays allowed := by
  rw [verifyLogged]
  split
  · exact Logged.stays_pure _
  next genesisBlock rest items =>
    rw [items] at signatures
    split
    · exact Logged.stays_pure _
    · have genesis : (genesisHashLogged genesisBlock).Stays allowed :=
        Logged.stays_bind.mpr ⟨Logged.stays_touch.mpr whole, Logged.stays_pure _⟩
      refine Logged.stays_bind.mpr ⟨genesis, ?_⟩
      split
      · exact Logged.stays_pure _
      · exact verifyBlocksLogged_stays work whole (List.forall_mem_cons.mp signatures).2

/-- The blocks after a well-formed genesis block are all that is left to look at. -/
theorem verifyLogged_genesis {blockchain : Blockchain} {genesis : Block} {rest : List Block}
    (items : blockchain.blockList = genesis :: rest) (valid : ValidGenesis genesis) :
    (verifyLogged platform blockchain).accesses = .digestCompare 32 ::
      (verifyBlocksLogged platform blockchain.numLeadingZeroBytesRequiredInBlockHash
        (blockHash platform genesis) 1 rest).accesses := by
  have noPrevious : (genesisHashLogged genesis).value = false := hashesDiffer_eq_false.mpr valid.noPrevious
  have compared : (genesisHashLogged genesis).accesses = [.digestCompare 32] := rfl
  simp [verifyLogged, items, valid.noTransactions, valid.proofOfWork, genesisBlockProofOfWork, noPrevious,
    compared]

end Stays

end LeoCoin
