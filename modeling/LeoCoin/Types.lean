import Mathlib.Algebra.GroupWithZero.Nat
import LeoCoin.Library.Decoding

/-! # Return codes, lists and the data of a blockchain and its peers

The types follow the C structs field by field.  Pointers to owned data are
replaced by the data: a `linked_list_t` is the list of what its nodes point to.
-/

namespace LeoCoin

open Library.Decoding

inductive ReturnCode where
  | success : ReturnCode
  | failureCouldNotMalloc : ReturnCode
  | failureInvalidInput : ReturnCode
  | failureLinkedListEmpty : ReturnCode
  | failureLinkedListNoCompareFunction : ReturnCode
  | failureCouldNotFindValidProofOfWork : ReturnCode
  | failureInvalidCommandLineArgs : ReturnCode
  | failureOpensslFunction : ReturnCode
  | failureFileIo : ReturnCode
  | failureSignatureTooLong : ReturnCode
  | failureBufferTooSmall : ReturnCode
  | failureInvalidBlockchain : ReturnCode
  | failurePthreadFunction : ReturnCode
  | failureStoppedEarly : ReturnCode
  | failureLongerBlockchainDetected : ReturnCode
  | failureNetworkFunction : ReturnCode
  | failureInvalidCommandPrefix : ReturnCode
  | failureInvalidCommand : ReturnCode
  | failureInvalidCommandLen : ReturnCode
  | failureSleep : ReturnCode
deriving DecidableEq, Repr

/-- A return code other than `SUCCESS`. -/
abbrev Failure := { code : ReturnCode // code ≠ .success }

namespace Failure

def couldNotMalloc : Failure := ⟨.failureCouldNotMalloc, by decide⟩
def fileIo : Failure := ⟨.failureFileIo, by decide⟩
def invalidInput : Failure := ⟨.failureInvalidInput, by decide⟩
def opensslFunction : Failure := ⟨.failureOpensslFunction, by decide⟩
def signatureTooLong : Failure := ⟨.failureSignatureTooLong, by decide⟩
def bufferTooSmall : Failure := ⟨.failureBufferTooSmall, by decide⟩
def networkFunction : Failure := ⟨.failureNetworkFunction, by decide⟩
def invalidCommandPrefix : Failure := ⟨.failureInvalidCommandPrefix, by decide⟩
def invalidCommand : Failure := ⟨.failureInvalidCommand, by decide⟩

/-- The return code of a decoder that gave up. -/
def ofFault : Fault Failure → Failure
  | .truncated => bufferTooSmall
  | .refused => couldNotMalloc
  | .rejected code => code

end Failure

/-! ## Structs -/

/-- `MAX_SSH_KEY_LENGTH` -/
def maxSshKeyLength : UInt64 := 4096

/-- `GENESIS_BLOCK_PROOF_OF_WORK` -/
def genesisBlockProofOfWork : UInt64 := 2017

/-- `AMOUNT_GENERATED_DURING_MINTING` -/
def amountGeneratedDuringMinting : UInt64 := 1

structure Sha256 where
  digest : Vector UInt8 32
deriving DecidableEq

structure SshKey where
  bytes : Vector UInt8 4096
deriving DecidableEq

/-- `length` is what the signer wrote; the array is always 512 bytes. -/
structure SshSignature where
  length : UInt64
  bytes : Vector UInt8 512
deriving DecidableEq

structure Transaction where
  createdAt : Int64
  senderPublicKey : SshKey
  recipientPublicKey : SshKey
  amount : UInt64
  senderSignature : SshSignature
deriving DecidableEq

structure Block where
  createdAt : Int64
  transactionList : List Transaction
  proofOfWork : UInt64
  previousBlockHash : Sha256
deriving DecidableEq

/-- `struct sockaddr_in6`; the port is kept as the integer that the struct holds. -/
structure SockaddrIn6 where
  sin6Family : UInt16
  sin6Port : UInt16
  sin6Flowinfo : UInt32
  sin6Addr : Vector UInt8 16
  sin6ScopeId : UInt32
deriving DecidableEq

structure PeerInfo where
  listenAddr : SockaddrIn6
  lastConnected : Int64
deriving DecidableEq

/-- The memory a block of the chain takes: its node, its struct, its list and, for
each transaction, a node and a struct. -/
def Block.memory (block : Block) : Nat :=
  16 + 56 + 24 + (16 + 8728) * block.transactionList.length

/-- The memory of a whole chain with these blocks. -/
def chainMemory (blocks : List Block) : Nat :=
  16 + 24 + (blocks.map Block.memory).sum

/-- A chain exists in a 64-bit address space, so the counts and sizes that the code
keeps in a `uint64_t` are exact. -/
structure Blockchain where
  blockList : List Block
  numLeadingZeroBytesRequiredInBlockHash : UInt64
  fits : chainMemory blockList < 2 ^ 64
deriving DecidableEq

/-- `sha_256_t hash = {0}` -/
def Sha256.zero : Sha256 := ⟨Vector.replicate 32 0⟩

theorem Blockchain.ext_fields {left right : Blockchain} (sameList : left.blockList = right.blockList)
    (sameDifficulty : left.numLeadingZeroBytesRequiredInBlockHash =
      right.numLeadingZeroBytesRequiredInBlockHash) : left = right := by
  cases left
  cases right
  simp_all

/-! ## Lists -/

/-- `linked_list_length` -/
def linkedListLength {α : Type} (list : List α) : UInt64 := UInt64.ofNat list.length

theorem linkedListLength_toNat {α : Type} {list : List α} (bounded : list.length < 2 ^ 64) :
    (linkedListLength list).toNat = list.length := by
  simp only [linkedListLength, UInt64.toNat_ofNat']
  omega

theorem chainMemory_append (blocks : List Block) (block : Block) :
    chainMemory (blocks ++ [block]) = chainMemory blocks + block.memory := by
  simp [chainMemory]
  omega

theorem memory_le_chainMemory {blocks : List Block} {block : Block} (member : block ∈ blocks) :
    block.memory ≤ chainMemory blocks := by
  obtain ⟨before, after, rfl⟩ := List.append_of_mem member
  simp only [chainMemory, List.map_append, List.map_cons, List.sum_append, List.sum_cons]
  omega

theorem length_le_chainMemory (blocks : List Block) : blocks.length ≤ chainMemory blocks := by
  induction blocks with
  | nil => simp [chainMemory]
  | cons block rest ih =>
    simp only [chainMemory, List.map_cons, List.sum_cons, List.length_cons, Block.memory] at ih ⊢
    omega

theorem Blockchain.length_toNat (blockchain : Blockchain) :
    (linkedListLength blockchain.blockList).toNat = blockchain.blockList.length := by
  have counted := length_le_chainMemory blockchain.blockList
  have fits := blockchain.fits
  exact linkedListLength_toNat (by omega)

/-! ## Building a chain -/

theorem chainMemory_nil : chainMemory [] < 2 ^ 64 := by decide

/-- `block_create`; `createdAt` is what `time(NULL)` returned. -/
def blockCreate (createdAt : Int64) (transactionList : List Transaction) (proofOfWork : UInt64)
    (previousBlockHash : Sha256) : Block :=
  { createdAt, transactionList, proofOfWork, previousBlockHash }

/-- `block_create_genesis_block` -/
def blockCreateGenesisBlock (createdAt : Int64) : Block :=
  blockCreate createdAt [] genesisBlockProofOfWork Sha256.zero

/-- `blockchain_create`, once its two allocations succeeded. -/
def blockchainCreate (numLeadingZeroBytesRequiredInBlockHash : UInt64) : Blockchain :=
  ⟨[], numLeadingZeroBytesRequiredInBlockHash, chainMemory_nil⟩

/-- `blockchain_add_block`.  A block past the address space could not be allocated. -/
def blockchainAddBlock (blockchain : Blockchain) (block : Block) : Except Failure Blockchain :=
  if fits : chainMemory (blockchain.blockList ++ [block]) < 2 ^ 64 then
    .ok { blockchain with blockList := blockchain.blockList ++ [block], fits := fits }
  else
    .error .couldNotMalloc

theorem blockchain_add_block_ok {blockchain longer : Blockchain} {block : Block}
    (added : blockchainAddBlock blockchain block = .ok longer) :
    longer.blockList = blockchain.blockList ++ [block] ∧
      longer.numLeadingZeroBytesRequiredInBlockHash =
        blockchain.numLeadingZeroBytesRequiredInBlockHash := by
  unfold blockchainAddBlock at added
  split at added
  · cases added
    exact ⟨rfl, rfl⟩
  · cases added

/-! ## Signature lengths -/

/-- The signature lengths a signer can produce. -/
def Transaction.SignatureFits (transaction : Transaction) : Prop :=
  transaction.senderSignature.length.toNat ≤ 512

def Block.SignaturesFit (block : Block) : Prop :=
  ∀ transaction ∈ block.transactionList, transaction.SignatureFits

def Blockchain.SignaturesFit (blockchain : Blockchain) : Prop :=
  ∀ block ∈ blockchain.blockList, block.SignaturesFit

end LeoCoin
