import LeoCoin.RoundTrip

/-! # Chains between hosts

The wire format is the same on every host, the bytes that are hashed and signed are
not: `block_hash` and `transaction_verify_signature` feed OpenSSL integers as the host
stores them.  So a chain read from another host comes out field for field, and still
the two hosts can disagree about it.  They cannot when the check comes to its verdict
before it compares a hash, and they do, for some hash, whenever it gets that far.
-/

namespace LeoCoin

open Library.Decoding

variable {PKey : Type}

/-- The return code and `*is_valid_blockchain`. -/
def Verification.verdict (verification : Verification) : ReturnCode × Option Bool :=
  (verification.returnCode, verification.isValidBlockchain)

theorem Verification.isValidBlockchain_of_verdict {verification : Verification} {code : ReturnCode}
    {isValidBlockchain : Option Bool} (same : verification.verdict = (code, isValidBlockchain)) :
    verification.isValidBlockchain = isValidBlockchain :=
  congrArg Prod.snd same

/-- One hash function and one signature oracle, on two hosts. -/
structure SameOracles (here there : Platform PKey) : Prop where
  sha256 : here.sha256 = there.sha256
  readPublicKey : here.readPublicKey = there.readPublicKey
  verifyFinal : here.verifyFinal = there.verifyFinal

theorem SameOracles.blockHash {here there : Platform PKey} (oracles : SameOracles here there)
    (sameOrder : here.order = there.order) (block : Block) : blockHash here block = blockHash there block := by
  rw [blockHash_eq, blockHash_eq, oracles.sha256, sameOrder]

theorem SameOracles.verifySignatures {here there : Platform PKey} (oracles : SameOracles here there)
    (sameOrder : here.order = there.order) (transactions : List Transaction) :
    verifySignatures here transactions = verifySignatures there transactions := by
  induction transactions with
  | nil => rfl
  | cons transaction rest ih =>
    have same : transactionVerifySignature here transaction = transactionVerifySignature there transaction := by
      rw [transactionVerifySignature, transactionVerifySignature, oracles.readPublicKey,
        oracles.verifyFinal, sameOrder]
    rw [LeoCoin.verifySignatures, LeoCoin.verifySignatures, same, ih]

/-- What lies behind the two compared hashes does not matter to a difficulty they can meet. -/
theorem SameOracles.verifyBlocks {here there : Platform PKey} (oracles : SameOracles here there)
    (sameOrder : here.order = there.order) {numLeadingZeroBytes : UInt64}
    (small : numLeadingZeroBytes.toNat ≤ 32) (previous : Sha256) (index : Nat) (blocks : List Block) :
    verifyBlocks here numLeadingZeroBytes previous index blocks =
      verifyBlocks there numLeadingZeroBytes previous index blocks := by
  induction blocks generalizing previous index with
  | nil => rfl
  | cons block rest ih =>
    have work (hash : Sha256) : compareWithEmptyHash here numLeadingZeroBytes hash ≠ 0 ↔
        compareWithEmptyHash there numLeadingZeroBytes hash ≠ 0 := by
      rw [ne_eq, ne_eq, compareWithEmptyHash_eq_zero small, compareWithEmptyHash_eq_zero small]
    have round : verifyBlock here numLeadingZeroBytes previous block =
        verifyBlock there numLeadingZeroBytes previous block := by
      simp only [verifyBlock, oracles.blockHash sameOrder, work, oracles.verifySignatures sameOrder]
    rw [LeoCoin.verifyBlocks, LeoCoin.verifyBlocks, round]
    cases verifyBlock there numLeadingZeroBytes previous block with
    | valid hash => exact ih hash (index + 1)
    | invalid reported => rfl
    | failed code => rfl

theorem SameOracles.blockchainVerify {here there : Platform PKey} (oracles : SameOracles here there)
    (sameOrder : here.order = there.order) {blockchain : Blockchain}
    (small : blockchain.numLeadingZeroBytesRequiredInBlockHash.toNat ≤ 32) :
    blockchainVerify here blockchain = blockchainVerify there blockchain := by
  simp only [LeoCoin.blockchainVerify, oracles.blockHash sameOrder, oracles.verifyBlocks sameOrder small]

theorem stored_genesis_proof_differs : storeUInt64 .littleEndian 2017 ≠ storeUInt64 .bigEndian 2017 := by
  intro same
  have first : (splitBytes 2017).reverse[0] = (splitBytes 2017)[0] := congrArg (·[0]) same
  rw [Vector.getElem_reverse] at first
  exact absurd first (by decide)

/-- The proof of work of a genesis block is stored differently on the two kinds of hosts. -/
theorem hashedBytes_genesis {left right : ByteOrder} {genesis : Block} (valid : ValidGenesis genesis)
    (same : hashedBytes left genesis = hashedBytes right genesis) : left = right := by
  simp only [hashedBytes, valid.proofOfWork, List.append_assoc] at same
  obtain ⟨-, same⟩ := List.append_inj same (by simp)
  obtain ⟨stored, -⟩ := array_append_inj same
  cases left with
  | littleEndian =>
    cases right with
    | littleEndian => rfl
    | bigEndian => exact absurd stored stored_genesis_proof_differs
  | bigEndian =>
    cases right with
    | littleEndian => exact absurd stored.symm stored_genesis_proof_differs
    | bigEndian => rfl

/-- A hash under which `block` is linked to `genesis`, and well mined, on hosts of one byte
order. -/
def linkingPlatform (writer order : ByteOrder) (genesis block : Block)
    (readPublicKey : SshKey → Option Unit) : Platform Unit :=
  { Platform.lenient with
    order
    sha256 := fun bytes =>
      if bytes = hashedBytes writer genesis then block.previousBlockHash
      else if bytes = hashedBytes writer block then Sha256.zero
      else if block.previousBlockHash = Sha256.zero then ⟨Vector.replicate 32 1⟩
      else Sha256.zero
    readPublicKey }

theorem hashedBytes_differ (left right : ByteOrder) {genesis block : Block} (valid : ValidGenesis genesis)
    (transactions : block.transactionList ≠ []) : hashedBytes left genesis ≠ hashedBytes right block := by
  obtain ⟨first, others, items⟩ := List.exists_cons_of_ne_nil transactions
  intro same
  have lengths := congrArg List.length same
  simp only [hashedBytes, valid.noTransactions, items, List.length_append, Vector.length_toList,
    List.flatMap_nil, List.flatMap_cons, List.length_nil, transactionBytes_length] at lengths
  omega

section Linking

variable {writer reader : ByteOrder} {blockchain : Blockchain} {genesis block : Block} {rest : List Block}
  {readPublicKey : SshKey → Option Unit}

/-- On a host of the other byte order it finds the link broken, or the work missing. -/
theorem linking_rejects (items : blockchain.blockList = genesis :: block :: rest)
    (valid : ValidGenesis genesis) (transactions : block.transactionList ≠ []) (foreign : reader ≠ writer) :
    (blockchainVerify (linkingPlatform writer reader genesis block readPublicKey) blockchain).verdict =
      (.success, some false) := by
  have elsewhere : hashedBytes reader genesis ≠ hashedBytes writer genesis :=
    fun same => foreign (hashedBytes_genesis valid same)
  have broken : hashesDiffer block.previousBlockHash
      (blockHash (linkingPlatform writer reader genesis block readPublicKey) genesis) = true := by
    apply Bool.eq_true_of_not_eq_false
    rw [hashesDiffer_eq_false]
    have hashed : blockHash (linkingPlatform writer reader genesis block readPublicKey) genesis =
        if block.previousBlockHash = Sha256.zero then ⟨Vector.replicate 32 1⟩ else Sha256.zero :=
      (if_neg elsewhere).trans (if_neg (hashedBytes_differ _ _ valid transactions))
    rw [hashed]
    split
    · next zero =>
      rw [zero]
      decide
    · next nonzero => exact nonzero
  rw [blockchainVerify_genesis items valid, verifyBlocks]
  -- whichever of the two checks fails first, the block is invalid
  simp only [verifyBlock]
  by_cases work : compareWithEmptyHash (linkingPlatform writer reader genesis block readPublicKey)
      blockchain.numLeadingZeroBytesRequiredInBlockHash
      (blockHash (linkingPlatform writer reader genesis block readPublicKey) block) = 0
  · simp [work, broken, Verification.verdict]
  · simp [work, Verification.verdict]

end Linking

/-- A host under whose hash the sample block is linked to a genesis block. -/
def miningHost : Platform Unit :=
  linkingPlatform .littleEndian .littleEndian (blockCreateGenesisBlock 0) sampleBlock fun _ => some ()

/-- A host of the other byte order with the same hash. -/
def foreignHost : Platform Unit :=
  linkingPlatform .littleEndian .bigEndian (blockCreateGenesisBlock 0) sampleBlock fun _ => some ()

theorem miningHost_accepts : (blockchainVerify miningHost (sampleChain 1)).Accepts := by
  have small : (sampleChain 1).numLeadingZeroBytesRequiredInBlockHash.toNat ≤ 32 := by decide
  have linked : blockHash miningHost (blockCreateGenesisBlock 0) = Sha256.zero := if_pos rfl
  have follows : Follows miningHost 0 (blockCreateGenesisBlock 0) sampleBlock :=
    ⟨fun index bound inside => absurd inside (Nat.not_lt_zero _), linked.symm,
      ⟨sampleTransaction, [], rfl, rfl, rfl⟩, fun _ _ => rfl⟩
  have valid : ValidChain miningHost (sampleChain 1) :=
    .inr ⟨_, [sampleBlock], rfl, ⟨rfl, rfl, rfl⟩, .cons_cons follows (.singleton _)⟩
  exact (accepts_iff_validChain small).mpr valid

theorem foreignHost_rejects : (blockchainVerify foreignHost (sampleChain 1)).verdict = (.success, some false) :=
  linking_rejects rfl ⟨rfl, rfl, rfl⟩ (List.cons_ne_nil _ _) (by decide)

/-- A genesis block alone is valid anywhere. -/
theorem foreignHost_genesis : (blockchainVerify foreignHost (sampleChain 0)).Accepts := by
  have small : (sampleChain 0).numLeadingZeroBytesRequiredInBlockHash.toNat ≤ 32 := by decide
  exact (accepts_iff_validChain small).mpr (.inr ⟨_, [], rfl, ⟨rfl, rfl, rfl⟩, .singleton _⟩)

end LeoCoin
