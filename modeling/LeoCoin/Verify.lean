import Mathlib.Data.List.Chain
import LeoCoin.Hashing

/-! # Verifying a blockchain

`blockchainVerify` follows `blockchain_verify`: the genesis block is checked by
itself, then a loop carries the hash of the block before, and inside it a second
loop checks the signatures.  `ValidChain` says what the code is for: every block
follows the one before it.

The loop used when mining (`blockchain_is_valid_block_hash`) and the `memcmp` used
when verifying look at the same bytes, so a mined block is one that verifies.
-/

namespace LeoCoin

variable {PKey : Type}

/-! ## The two proof of work checks -/

/-- The loop of `blockchain_is_valid_block_hash` from `idx` on. -/
def leadingBytesAreZero (digest : Nat → UInt8) : Nat → Nat → Bool
  | _, 0 => true
  | idx, remaining + 1 =>
    if digest idx != 0 then false else leadingBytesAreZero digest (idx + 1) remaining

def blockchainIsValidBlockHash (platform : Platform PKey) (blockchain : Blockchain)
    (blockHash : Sha256) : Bool :=
  leadingBytesAreZero (memoryOf blockHash.digest platform.pastHash) 0
    blockchain.numLeadingZeroBytesRequiredInBlockHash.toNat

/-- `memcmp(&current_block_hash, &empty_block_hash, n)` -/
def compareWithEmptyHash (platform : Platform PKey) (count : UInt64) (blockHash : Sha256) : Int :=
  memcmp (memoryOf blockHash.digest platform.pastHash)
    (memoryOf Sha256.zero.digest platform.pastZero) count.toNat

/-- The first `count` bytes of the hash are zero. -/
def StartsWithZeros (count : Nat) (hash : Sha256) : Prop :=
  ∀ index, (bound : index < 32) → index < count → hash.digest[index] = 0

theorem leadingBytesAreZero_iff {digest : Nat → UInt8} {idx remaining : Nat} :
    leadingBytesAreZero digest idx remaining = true ↔
      ∀ index, idx ≤ index → index < idx + remaining → digest index = 0 := by
  induction remaining generalizing idx with
  | zero =>
    simp only [leadingBytesAreZero, true_iff]
    intro index lower upper
    omega
  | succ remaining ih =>
    simp only [leadingBytesAreZero]
    by_cases zero : digest idx = 0
    · have later : leadingBytesAreZero digest (idx + 1) remaining = true ↔
          ∀ index, idx + 1 ≤ index → index < idx + 1 + remaining → digest index = 0 := ih
      simp only [zero, bne_self_eq_false, Bool.false_eq_true, if_false, later]
      constructor
      · intro rest index lower upper
        cases Nat.eq_or_lt_of_le lower with
        | inl start =>
          rw [← start]
          exact zero
        | inr beyond => exact rest index beyond (by omega)
      · intro all index lower upper
        exact all index (by omega) (by omega)
    · have stops : (digest idx != 0) = true := by simp [zero]
      simp only [stops, if_true, Bool.false_eq_true, false_iff]
      intro all
      exact zero (all idx (Nat.le_refl _) (by omega))

theorem blockchain_is_valid_block_hash_iff {platform : Platform PKey} {blockchain : Blockchain}
    {hash : Sha256} (small : blockchain.numLeadingZeroBytesRequiredInBlockHash.toNat ≤ 32) :
    blockchainIsValidBlockHash platform blockchain hash = true ↔
      StartsWithZeros blockchain.numLeadingZeroBytesRequiredInBlockHash.toNat hash := by
  rw [blockchainIsValidBlockHash, leadingBytesAreZero_iff]
  constructor
  · intro all index bound inside
    have zero := all index (Nat.zero_le _) (by omega)
    simpa [memoryOf, bound] using zero
  · intro zeros index _ inside
    have bound : index < 32 := by omega
    simpa [memoryOf, bound] using zeros index bound (by omega)

/-- Whatever lies behind the hash, equal bytes include its own. -/
theorem startsWithZeros_of_compare {platform : Platform PKey} {count : UInt64} {hash : Sha256}
    (same : compareWithEmptyHash platform count hash = 0) : StartsWithZeros count.toNat hash := by
  rw [compareWithEmptyHash, memcmp_eq_zero] at same
  intro index bound inside
  simpa [memoryOf, bound, Sha256.zero] using same index inside

theorem compareWithEmptyHash_eq_zero {platform : Platform PKey} {count : UInt64} {hash : Sha256}
    (small : count.toNat ≤ 32) :
    compareWithEmptyHash platform count hash = 0 ↔ StartsWithZeros count.toNat hash := by
  constructor
  · exact startsWithZeros_of_compare
  · intro zeros
    rw [compareWithEmptyHash, memcmp_eq_zero]
    intro index inside
    have bound : index < 32 := by omega
    simpa [memoryOf, bound, Sha256.zero] using zeros index bound inside

/-! ## `blockchain_verify` -/

/-- What `blockchain_verify` leaves behind.  `isValidBlockchain` and
`firstInvalidBlock` are `none` where it does not write them; the first invalid
block is given by its place in the list. -/
structure Verification where
  returnCode : ReturnCode
  isValidBlockchain : Option Bool
  firstInvalidBlock : Option Nat
deriving DecidableEq, Repr

/-- The result of one round of the block loop. -/
inductive BlockVerdict where
  | valid (currentBlockHash : Sha256) : BlockVerdict
  | invalid (reported : Bool) : BlockVerdict
  | failed (code : Failure) : BlockVerdict

/-- The signature loop. -/
def verifySignatures (platform : Platform PKey) : List Transaction → Except Failure Bool
  | [] => .ok true
  | transaction :: rest =>
    match transactionVerifySignature platform transaction with
    | .error code => .error code
    | .ok false => .ok false
    | .ok true => verifySignatures platform rest

/-- `0 != memcmp(&left, &right, sizeof(ssh_key_t))` -/
def keysDiffer (left right : SshKey) : Bool :=
  memcmp (memoryOf left.bytes fun _ => 0) (memoryOf right.bytes fun _ => 0) 4096 != 0

/-- `0 != memcmp(&left, &right, sizeof(sha_256_t))` -/
def hashesDiffer (left right : Sha256) : Bool :=
  memcmp (memoryOf left.digest fun _ => 0) (memoryOf right.digest fun _ => 0) 32 != 0

/-- One round of the block loop. -/
def verifyBlock (platform : Platform PKey) (numLeadingZeroBytes : UInt64)
    (previousBlockHash : Sha256) (currentBlock : Block) : BlockVerdict :=
  let currentBlockHash := blockHash platform currentBlock
  if compareWithEmptyHash platform numLeadingZeroBytes currentBlockHash ≠ 0 then .invalid true
  else if hashesDiffer currentBlock.previousBlockHash previousBlockHash then .invalid true
  else
    match currentBlock.transactionList with
    -- the one exit that says "invalid" without naming the block
    | [] => .invalid false
    | mintingTransaction :: others =>
      if mintingTransaction.amount ≠ amountGeneratedDuringMinting ∨
          keysDiffer mintingTransaction.senderPublicKey mintingTransaction.recipientPublicKey then
        .invalid true
      else
        match verifySignatures platform (mintingTransaction :: others) with
        | .error code => .failed code
        | .ok false => .invalid true
        | .ok true => .valid currentBlockHash

/-- The block loop. -/
def verifyBlocks (platform : Platform PKey) (numLeadingZeroBytes : UInt64) :
    Sha256 → Nat → List Block → Verification
  | _, _, [] => ⟨.success, some true, none⟩
  | previousBlockHash, index, currentBlock :: rest =>
    match verifyBlock platform numLeadingZeroBytes previousBlockHash currentBlock with
    | .failed code => ⟨code.val, none, none⟩
    | .invalid reported => ⟨.success, some false, if reported then some index else none⟩
    | .valid currentBlockHash =>
      verifyBlocks platform numLeadingZeroBytes currentBlockHash (index + 1) rest

def blockchainVerify (platform : Platform PKey) (blockchain : Blockchain) : Verification :=
  match blockchain.blockList with
  | [] => ⟨.success, some true, none⟩
  | genesisBlock :: rest =>
    if !genesisBlock.transactionList.isEmpty ||
        genesisBlock.proofOfWork != genesisBlockProofOfWork ||
        hashesDiffer genesisBlock.previousBlockHash Sha256.zero then
      ⟨.success, some false, some 0⟩
    else
      verifyBlocks platform blockchain.numLeadingZeroBytesRequiredInBlockHash
        (blockHash platform genesisBlock) 1 rest

/-- `blockchain_verify` returned `SUCCESS` and stored `true`. -/
def Verification.Accepts (verification : Verification) : Prop :=
  verification.returnCode = .success ∧ verification.isValidBlockchain = some true

instance (verification : Verification) : Decidable verification.Accepts :=
  inferInstanceAs (Decidable (_ ∧ _))

/-! ## What it is for -/

/-- A transaction that mints one coin for the miner. -/
structure Mints (transaction : Transaction) : Prop where
  amount : transaction.amount = 1
  toSelf : transaction.senderPublicKey = transaction.recipientPublicKey

structure ValidGenesis (block : Block) : Prop where
  noTransactions : block.transactionList = []
  proofOfWork : block.proofOfWork = 2017
  noPrevious : block.previousBlockHash = Sha256.zero

/-- `block` may come right after `previous`. -/
structure Follows (platform : Platform PKey) (difficulty : Nat) (previous block : Block) : Prop where
  work : StartsWithZeros difficulty (blockHash platform block)
  linked : block.previousBlockHash = blockHash platform previous
  minted : ∃ minting others, block.transactionList = minting :: others ∧ Mints minting
  signed : ∀ transaction ∈ block.transactionList,
    transactionVerifySignature platform transaction = .ok true

/-- `block` follows `previous`, and the work check sees it. -/
structure Passes (platform : Platform PKey) (numLeadingZeroBytes : UInt64) (previous block : Block) : Prop where
  work : compareWithEmptyHash platform numLeadingZeroBytes (blockHash platform block) = 0
  follows : Follows platform numLeadingZeroBytes.toNat previous block

/-- Empty, or a genesis block followed by blocks each of which follows the one
just before it. -/
def ValidChain (platform : Platform PKey) (blockchain : Blockchain) : Prop :=
  blockchain.blockList = [] ∨
    ∃ genesis rest, blockchain.blockList = genesis :: rest ∧ ValidGenesis genesis ∧
      List.IsChain (Follows platform blockchain.numLeadingZeroBytesRequiredInBlockHash.toNat)
        (genesis :: rest)

/-! ## One round, then the loops -/

@[simp] theorem keysDiffer_eq_false {left right : SshKey} : keysDiffer left right = false ↔ left = right := by
  rw [keysDiffer, bne_eq_false_iff_eq, memcmp_memoryOf]
  cases left
  cases right
  simp

@[simp] theorem hashesDiffer_eq_false {left right : Sha256} :
    hashesDiffer left right = false ↔ left = right := by
  rw [hashesDiffer, bne_eq_false_iff_eq, memcmp_memoryOf]
  cases left
  cases right
  simp

theorem verifySignatures_ok_true {platform : Platform PKey} {transactions : List Transaction} :
    verifySignatures platform transactions = .ok true ↔
      ∀ transaction ∈ transactions, transactionVerifySignature platform transaction = .ok true := by
  induction transactions with
  | nil => simp [verifySignatures]
  | cons transaction rest ih =>
    simp only [verifySignatures, List.forall_mem_cons]
    cases verified : transactionVerifySignature platform transaction with
    | error code => simp
    | ok isValidSignature =>
      cases isValidSignature with
      | false => simp
      | true => simp [ih]

/-- A round that goes on has checked that the block follows the one whose hash was
carried, and carries on the block's own hash. -/
theorem verifyBlock_valid {platform : Platform PKey} {numLeadingZeroBytes : UInt64}
    {previous block : Block} {hash : Sha256}
    (valid : verifyBlock platform numLeadingZeroBytes (blockHash platform previous) block = .valid hash) :
    Passes platform numLeadingZeroBytes previous block ∧ hash = blockHash platform block := by
  -- one check of the round after the other, each with an exit of its own
  simp only [verifyBlock] at valid
  split at valid
  · cases valid
  next work =>
    split at valid
    · cases valid
    next linked =>
      split at valid
      · cases valid
      next minting others items =>
        split at valid
        · cases valid
        next mints =>
          obtain ⟨amount, toSelf⟩ := not_or.mp mints
          split at valid
          · cases valid
          · cases valid
          next signed =>
            cases valid
            have same := not_not.mp work
            have previousHash := hashesDiffer_eq_false.mp (Bool.eq_false_iff.mpr linked)
            have sameKeys := keysDiffer_eq_false.mp (Bool.eq_false_iff.mpr toSelf)
            have signatures : ∀ transaction ∈ block.transactionList,
                transactionVerifySignature platform transaction = .ok true := by
              rw [items]
              exact verifySignatures_ok_true.mp signed
            exact ⟨⟨same, startsWithZeros_of_compare same, previousHash,
              ⟨minting, others, items, not_not.mp amount, sameKeys⟩, signatures⟩, rfl⟩

theorem verifyBlock_of_passes {platform : Platform PKey} {numLeadingZeroBytes : UInt64}
    {previous block : Block} (passes : Passes platform numLeadingZeroBytes previous block) :
    verifyBlock platform numLeadingZeroBytes (blockHash platform previous) block =
      .valid (blockHash platform block) := by
  have linked := hashesDiffer_eq_false.mpr passes.follows.linked
  obtain ⟨minting, others, items, mints⟩ := passes.follows.minted
  have toSelf := keysDiffer_eq_false.mpr mints.toSelf
  have signed := verifySignatures_ok_true.mpr passes.follows.signed
  rw [items] at signed
  simp [verifyBlock, passes.work, linked, items, mints.amount, amountGeneratedDuringMinting, toSelf, signed]

theorem Follows.passes {platform : Platform PKey} {numLeadingZeroBytes : UInt64} {previous block : Block}
    (follows : Follows platform numLeadingZeroBytes.toNat previous block)
    (small : numLeadingZeroBytes.toNat ≤ 32) : Passes platform numLeadingZeroBytes previous block :=
  ⟨(compareWithEmptyHash_eq_zero small).mpr follows.work, follows⟩

/-- The block loop: it runs to the end exactly along a chain of blocks that follow
each other.  Induction on the blocks; the hash carried is that of `previous`. -/
theorem verifyBlocks_accepts_iff {platform : Platform PKey} {numLeadingZeroBytes : UInt64}
    {previous : Block} {index : Nat} {blocks : List Block} (small : numLeadingZeroBytes.toNat ≤ 32) :
    (verifyBlocks platform numLeadingZeroBytes (blockHash platform previous) index blocks).Accepts ↔
      List.IsChain (Follows platform numLeadingZeroBytes.toNat) (previous :: blocks) := by
  induction blocks generalizing previous index with
  | nil => simp [verifyBlocks, Verification.Accepts]
  | cons block rest ih =>
    rw [List.isChain_cons_cons]
    constructor
    · intro accepts
      rw [verifyBlocks] at accepts
      cases verdict : verifyBlock platform numLeadingZeroBytes (blockHash platform previous) block with
      | failed code =>
        rw [verdict] at accepts
        exact absurd accepts.2 (by simp)
      | invalid reported =>
        rw [verdict] at accepts
        exact absurd accepts.2 (by simp)
      | valid hash =>
        rw [verdict] at accepts
        -- the hash carried on is that of the block just checked
        obtain ⟨passes, rfl⟩ := verifyBlock_valid verdict
        exact ⟨passes.follows, ih.mp accepts⟩
    · intro ⟨follows, chained⟩
      rw [verifyBlocks, verifyBlock_of_passes (follows.passes small)]
      exact ih.mpr chained

theorem blockchainVerify_genesis {platform : Platform PKey} {blockchain : Blockchain}
    {genesis : Block} {rest : List Block} (items : blockchain.blockList = genesis :: rest)
    (valid : ValidGenesis genesis) :
    blockchainVerify platform blockchain =
      verifyBlocks platform blockchain.numLeadingZeroBytesRequiredInBlockHash
        (blockHash platform genesis) 1 rest := by
  have noPrevious := hashesDiffer_eq_false.mpr valid.noPrevious
  simp [blockchainVerify, items, valid.noTransactions, valid.proofOfWork, genesisBlockProofOfWork,
    noPrevious]

/-- A genesis block that is wrong in itself is the first invalid block. -/
theorem blockchainVerify_malformed {platform : Platform PKey} {blockchain : Blockchain}
    {genesis : Block} {rest : List Block} (items : blockchain.blockList = genesis :: rest)
    (malformed : ¬ ValidGenesis genesis) :
    blockchainVerify platform blockchain = ⟨.success, some false, some 0⟩ := by
  simp only [blockchainVerify, items]
  rw [if_pos]
  by_contra checks
  simp only [Bool.not_eq_true, Bool.or_eq_false_iff, Bool.not_eq_false', List.isEmpty_iff,
    bne_eq_false_iff_eq, hashesDiffer_eq_false] at checks
  obtain ⟨⟨noTransactions, proofOfWork⟩, noPrevious⟩ := checks
  exact malformed ⟨noTransactions, proofOfWork, noPrevious⟩

theorem validGenesis_of_accepts {platform : Platform PKey} {blockchain : Blockchain}
    {genesis : Block} {rest : List Block} (items : blockchain.blockList = genesis :: rest)
    (accepts : (blockchainVerify platform blockchain).Accepts) : ValidGenesis genesis := by
  by_contra malformed
  rw [blockchainVerify_malformed items malformed] at accepts
  exact absurd accepts.2 (by simp)

theorem accepts_iff_validChain {platform : Platform PKey} {blockchain : Blockchain}
    (small : blockchain.numLeadingZeroBytesRequiredInBlockHash.toNat ≤ 32) :
    (blockchainVerify platform blockchain).Accepts ↔ ValidChain platform blockchain := by
  cases items : blockchain.blockList with
  | nil => simp [blockchainVerify, ValidChain, Verification.Accepts, items]
  | cons genesis rest =>
    constructor
    · intro accepts
      have valid := validGenesis_of_accepts items accepts
      rw [blockchainVerify_genesis items valid] at accepts
      exact .inr ⟨genesis, rest, items, valid, (verifyBlocks_accepts_iff small).mp accepts⟩
    · intro valid
      cases valid with
      | inl empty =>
        rw [items] at empty
        cases empty
      | inr nonempty =>
        obtain ⟨first, others, items', valid, chained⟩ := nonempty
        rw [items] at items'
        cases items'
        rw [blockchainVerify_genesis items valid]
        exact (verifyBlocks_accepts_iff small).mpr chained

/-! ## Sample chains -/

/-- A platform whose hashes are all zero and whose signatures all verify. -/
def Platform.lenient : Platform Unit where
  order := .littleEndian
  sha256 _ := Sha256.zero
  readPublicKey _ := some ()
  verifyFinal _ _ _ := some 1
  digestSign _ _ := some ⟨512, Vector.replicate 512 0⟩
  pastHash _ := 0
  pastZero _ := 0

def emptyKey : SshKey := ⟨Vector.replicate 4096 0⟩

def sampleTransaction : Transaction :=
  ⟨0, emptyKey, emptyKey, amountGeneratedDuringMinting, ⟨512, Vector.replicate 512 0⟩⟩

def sampleBlock : Block := blockCreate 0 [sampleTransaction] 0 Sha256.zero

theorem sampleChain_fits (mined : UInt8) :
    chainMemory (blockCreateGenesisBlock 0 :: List.replicate mined.toNat sampleBlock) < 2 ^ 64 := by
  have few := mined.toNat_lt
  simp [chainMemory, Block.memory, blockCreateGenesisBlock, blockCreate, sampleBlock]
  omega

/-- A genesis block and `mined` blocks on top of it. -/
def sampleChain (mined : UInt8) : Blockchain :=
  ⟨blockCreateGenesisBlock 0 :: List.replicate mined.toNat sampleBlock, 0, sampleChain_fits mined⟩

theorem sampleChain_light (mined : UInt8) : chainMemory (sampleChain mined).blockList < 2 ^ 32 := by
  have few := mined.toNat_lt
  simp [sampleChain, chainMemory, Block.memory, blockCreateGenesisBlock, blockCreate, sampleBlock]
  omega

theorem sampleChain_grows (mined : UInt8) (more : mined.toNat < 255) :
    blockchainAddBlock (sampleChain mined) sampleBlock = .ok (sampleChain (mined + 1)) := by
  have count : (mined + 1).toNat = mined.toNat + 1 := by
    rw [UInt8.toNat_add, UInt8.toNat_one, Nat.mod_eq_of_lt (by omega)]
  have blocks : (sampleChain mined).blockList ++ [sampleBlock] = (sampleChain (mined + 1)).blockList := by
    simp [sampleChain, count, List.replicate_succ']
  have fits : chainMemory ((sampleChain mined).blockList ++ [sampleBlock]) < 2 ^ 64 :=
    blocks ▸ sampleChain_fits (mined + 1)
  rw [blockchainAddBlock, dif_pos fits]
  simp only [blocks]
  rfl

theorem sampleChain_valid (mined : UInt8) : ValidChain Platform.lenient (sampleChain mined) := by
  have follows (previous : Block) : Follows Platform.lenient 0 previous sampleBlock := by
    refine ⟨fun index bound small => absurd small (Nat.not_lt_zero _), rfl,
      ⟨sampleTransaction, [], rfl, rfl, rfl⟩, ?_⟩
    intro transaction member
    rfl
  refine .inr ⟨_, _, rfl, ⟨rfl, rfl, rfl⟩, ?_⟩
  have chained (count : Nat) (previous : Block) :
      List.IsChain (Follows Platform.lenient 0) (previous :: List.replicate count sampleBlock) := by
    induction count generalizing previous with
    | zero => exact .singleton previous
    | succ count ih => exact .cons_cons (follows previous) (ih sampleBlock)
  exact chained _ _

/-! ## The specification -/

/-- `blockchain_verify` returns `SUCCESS` with `*is_valid_blockchain = true` exactly on
an empty chain and on a genesis block followed by linked, mined, minted and signed
blocks. -/
theorem blockchain_verify_accepts_iff (platform : Platform PKey) (blockchain : Blockchain)
    (small : blockchain.numLeadingZeroBytesRequiredInBlockHash.toNat ≤ 32) :
    ((blockchainVerify platform blockchain).returnCode = .success ∧
        (blockchainVerify platform blockchain).isValidBlockchain = some true) ↔
      (blockchain.blockList = [] ∨
        (∃ genesis rest, blockchain.blockList = genesis :: rest ∧
          genesis.transactionList = [] ∧ genesis.proofOfWork = 2017 ∧
          genesis.previousBlockHash = ⟨Vector.replicate 32 0⟩) ∧
        ∀ index, (later : index + 1 < blockchain.blockList.length) →
          StartsWithZeros blockchain.numLeadingZeroBytesRequiredInBlockHash.toNat
            (blockHash platform blockchain.blockList[index + 1]) ∧
          blockchain.blockList[index + 1].previousBlockHash =
            blockHash platform blockchain.blockList[index] ∧
          (∃ minting others, blockchain.blockList[index + 1].transactionList = minting :: others ∧
            minting.amount = 1 ∧ minting.senderPublicKey = minting.recipientPublicKey) ∧
          ∀ transaction ∈ blockchain.blockList[index + 1].transactionList,
            transactionVerifySignature platform transaction = .ok true) := by
  have accepts : (blockchainVerify platform blockchain).Accepts ↔ ValidChain platform blockchain :=
    accepts_iff_validChain small
  rw [Verification.Accepts] at accepts
  rw [accepts, ValidChain]
  obtain ⟨blocks, difficulty, fits⟩ := blockchain
  cases blocks with
  | nil => simp
  | cons genesis rest =>
    simp only [reduceCtorEq, false_or, List.cons.injEq]
    constructor
    · intro ⟨_, _, ⟨first, others⟩, valid, chained⟩
      subst first others
      refine ⟨⟨genesis, rest, ⟨rfl, rfl⟩, valid.noTransactions, valid.proofOfWork, valid.noPrevious⟩, ?_⟩
      -- the chain relation read off at each place
      intro index later
      have follows := List.isChain_iff_getElem.mp chained index later
      obtain ⟨minting, others, nonempty, mints⟩ := follows.minted
      exact ⟨follows.work, follows.linked, ⟨minting, others, nonempty, mints.amount, mints.toSelf⟩,
        follows.signed⟩
    · intro ⟨⟨_, _, ⟨first, others⟩, noTransactions, proofOfWork, noPrevious⟩, later⟩
      subst first others
      refine ⟨genesis, rest, ⟨rfl, rfl⟩, ⟨noTransactions, proofOfWork, noPrevious⟩, ?_⟩
      apply List.isChain_iff_getElem.mpr
      intro index bound
      obtain ⟨work, linked, ⟨minting, others, nonempty, amount, toSelf⟩, signed⟩ := later index bound
      exact ⟨work, linked, ⟨minting, others, nonempty, amount, toSelf⟩, signed⟩

/-- Three mined blocks verify. -/
theorem blockchain_verify_accepts_sample :
    (sampleChain 3).numLeadingZeroBytesRequiredInBlockHash.toNat ≤ 32 ∧
      (blockchainVerify Platform.lenient (sampleChain 3)).returnCode = .success ∧
      (blockchainVerify Platform.lenient (sampleChain 3)).isValidBlockchain = some true := by
  have small : (sampleChain 3).numLeadingZeroBytesRequiredInBlockHash.toNat ≤ 32 := by decide
  refine ⟨small, (blockchain_verify_accepts_iff Platform.lenient (sampleChain 3) small).mpr (.inr ⟨?_, ?_⟩)⟩
  · exact ⟨_, _, rfl, rfl, rfl, rfl⟩
  · intro index later
    have minted : (sampleChain 3).blockList[index + 1] = sampleBlock := by
      simp only [sampleChain, List.getElem_cons_succ, List.getElem_replicate]
    rw [minted]
    refine ⟨fun place bound inside => absurd inside (Nat.not_lt_zero _), rfl,
      ⟨sampleTransaction, [], rfl, rfl, rfl⟩, ?_⟩
    intro transaction member
    rfl

end LeoCoin
