import LeoCoin.Accesses
import LeoCoin.RoundTrip

/-! # Signatures longer than their array

`blockchain_deserialize` compares a signature's length with `MAX_SSH_KEY_LENGTH`, the
size of a key, while `sender_signature.bytes` has `MAX_SSH_SIGNATURE_LENGTH` = 512 bytes.
A length between the two is accepted, and `transaction_verify_signature` passes it on.
Transactions that the program signs itself stay below the bound with keys of up to
4096 bits.
-/

namespace LeoCoin

open Library.Logging Library.Decoding

variable {PKey : Type}

/-- Every signature that comes out of the buffer fits its array, and checking the chain hands
over no more bytes than that, with any memory behind the buffer and any OpenSSL. -/
def SignaturesBounded (buffer : List UInt8) : Prop :=
  ∀ order grants behind prior blockchain examined,
    blockchainDeserialize order (Input.ofBuffer buffer behind grants) prior =
      ⟨.success, some blockchain, examined⟩ →
    blockchain.SignaturesFit ∧ ∀ (PKey : Type) (platform : Platform PKey),
      (verifyLogged platform blockchain).Stays Access.InsideSignature

/-- A transaction record in the buffer declares a signature length from 513 to 4096. -/
def DeclaresOverlong (buffer : List UInt8) : Prop :=
  ∃ blockchain, Carries buffer blockchain ∧ ∃ block ∈ blockchain.blockList,
    ∃ transaction ∈ block.transactionList, 512 < transaction.senderSignature.length.toNat ∧
      transaction.senderSignature.length.toNat ≤ 4096

/-- An RSA signature is at most as long as the modulus of the key. -/
def SignsWithin (platform : Platform PKey) (keyBits : SshKey → Nat) : Prop :=
  ∀ privateKey message signature, platform.digestSign privateKey message = some signature →
    signature.length.toNat ≤ (keyBits privateKey + 7) / 8

theorem Blockchain.SignaturesFit.stays {blockchain : Blockchain} (fits : blockchain.SignaturesFit)
    (platform : Platform PKey) : (verifyLogged platform blockchain).Stays Access.InsideSignature :=
  verifyLogged_stays trivial trivial fits

theorem Blockchain.overlong_of_not_fit {blockchain : Blockchain} (acceptable : blockchain.Acceptable)
    (overlong : ¬ blockchain.SignaturesFit) : ∃ block ∈ blockchain.blockList,
      ∃ transaction ∈ block.transactionList, 512 < transaction.senderSignature.length.toNat ∧
        transaction.senderSignature.length.toNat ≤ 4096 := by
  simp only [Blockchain.SignaturesFit, Block.SignaturesFit, Transaction.SignatureFits] at overlong
  push Not at overlong
  obtain ⟨block, member, transaction, inBlock, long⟩ := overlong
  have bounded := (acceptable block member).signatures transaction inBlock
  rw [Transaction.Acceptable, UInt64.le_iff_toNat_le] at bounded
  exact ⟨block, member, transaction, inBlock, long, bounded⟩

/-- A transaction signed with a key of at most 4096 bits has room for its signature. -/
theorem transaction_create_signatureFits {platform : Platform PKey} {keyBits : SshKey → Nat}
    (rsa : SignsWithin platform keyBits) {createdAt : Int64}
    {senderPublicKey recipientPublicKey senderPrivateKey : SshKey} {amount : UInt64}
    {transaction : Transaction} (small : keyBits senderPrivateKey ≤ 4096)
    (created : transactionCreate platform createdAt senderPublicKey recipientPublicKey amount
      senderPrivateKey = .ok transaction) : transaction.SignatureFits := by
  simp only [transactionCreate, transactionGenerateSignature] at created
  split at created
  · cases created
  next signed =>
    cases created
    have modulus := rsa _ _ _ signed
    rw [Transaction.SignatureFits]
    simp only
    omega

/-- No signature outgrows its array exactly when no transaction record of the buffer declares
more than 512 bytes; transactions signed here never do. -/
theorem signatures_bounded_iff (platform : Platform PKey) (keyBits : SshKey → Nat)
    (rsa : SignsWithin platform keyBits) (buffer : List UInt8) :
    (SignaturesBounded buffer ↔ ¬ DeclaresOverlong buffer) ∧
      ∀ createdAt senderPublicKey recipientPublicKey amount senderPrivateKey transaction,
        keyBits senderPrivateKey ≤ 4096 →
        transactionCreate platform createdAt senderPublicKey recipientPublicKey amount
          senderPrivateKey = .ok transaction →
        transaction.SignatureFits := by
  refine ⟨⟨?_, ?_⟩, fun _ _ _ _ _ _ small created => transaction_create_signatureFits rsa small created⟩
  · rintro bounded ⟨blockchain, carries, block, member, transaction, inBlock, long, -⟩
    obtain ⟨behind, decodes⟩ := carries.deserialize
    have fits := (bounded .littleEndian grantAll behind none _ _ (decodes .littleEndian none)).1
    exact absurd (fits block member transaction inBlock) (Nat.not_le.mpr long)
  · intro fitting order grants behind prior blockchain examined succeeded
    have carries := carries_of_deserialize succeeded
    have fits : blockchain.SignaturesFit := by
      by_contra overlong
      exact fitting ⟨blockchain, carries, Blockchain.overlong_of_not_fit carries.acceptable overlong⟩
    exact ⟨fits, fun _ => fits.stays⟩

/-- Keys of 4096 bits sign within the array, and so do the transactions of a serialized chain. -/
theorem signatures_bounded_iff_sample :
    SignsWithin Platform.lenient (fun _ => 4096) ∧ SignaturesBounded (encodeBlockchain (sampleChain 1)) := by
  have rsa : SignsWithin Platform.lenient fun _ => 4096 := by
    intro privateKey message signature signed
    cases signed
    have whole : 512 ≤ (4096 + 7) / 8 := by decide
    exact whole
  refine ⟨rsa, (signatures_bounded_iff Platform.lenient (fun _ => 4096) rsa _).1.mpr ?_⟩
  rintro ⟨blockchain, carries, block, member, transaction, inBlock, long, -⟩
  obtain ⟨behind, decodes⟩ := carries.deserialize
  have written := @deserialize_encode .littleEndian _ (sampleChain_signaturesFit 1) [] behind none
  rw [List.append_nil, decodes .littleEndian none] at written
  obtain rfl : blockchain = sampleChain 1 := by simpa using congrArg Deserialization.blockchain written
  exact absurd (sampleChain_signaturesFit 1 block member transaction inBlock) (Nat.not_le.mpr long)

/-- `blockchain_verify` gets to the signature of the first minting transaction. -/
theorem verifyLogged_signature {platform : Platform PKey} {blockchain : Blockchain} {genesis block : Block}
    {rest : List Block} {minting : Transaction} {others : List Transaction} {publicKey : PKey} {result : Int}
    (items : blockchain.blockList = genesis :: block :: rest) (valid : ValidGenesis genesis)
    (work : compareWithEmptyHash platform blockchain.numLeadingZeroBytesRequiredInBlockHash
      (blockHash platform block) = 0)
    (linked : block.previousBlockHash = blockHash platform genesis)
    (minted : block.transactionList = minting :: others) (mints : Mints minting)
    (key : platform.readPublicKey minting.senderPublicKey = some publicKey)
    (checked : platform.verifyFinal publicKey (signedBytes platform.order minting) minting.senderSignature =
      some result) :
    Access.signature minting.senderSignature.length ∈ (verifyLogged platform blockchain).accesses := by
  have sameHash := hashesDiffer_eq_false.mpr linked
  have toSelf := keysDiffer_eq_false.mpr mints.toSelf
  rw [verifyLogged_genesis items valid]
  simp [verifyBlocksLogged, verifyBlockLogged, work, sameHash, minted, mints.amount,
    amountGeneratedDuringMinting, toSelf, verifySignaturesLogged, verifySignatureLogged, key, checked]

def overlongTransaction : Transaction :=
  { sampleTransaction with senderSignature := ⟨4096, Vector.replicate 512 0⟩ }

/-- A genesis block and a minting transaction that claims a signature as long as a key. -/
def overlongMintedChain : Blockchain :=
  ⟨[blockCreateGenesisBlock 0, blockCreate 0 [overlongTransaction] 0 Sha256.zero], 0, by decide⟩

/-- The chain, and the bytes that its signature claims to have. -/
def overlongBuffer : List UInt8 := encodeBlockchain overlongMintedChain ++ List.replicate 3584 0

theorem overlongMintedChain_length : (encodeBlockchain overlongMintedChain).length = 8856 := by
  simp [encodeBlockchain, overlongMintedChain, encodeBlock_length, blockCreate, blockCreateGenesisBlock]

theorem overlongMintedChain_acceptable : overlongMintedChain.Acceptable := by
  intro block member
  simp only [overlongMintedChain, List.mem_cons, List.not_mem_nil, or_false] at member
  cases member with
  | inl genesis =>
    subst genesis
    exact ⟨fun transaction inBlock => (List.not_mem_nil inBlock).elim, Nat.zero_lt_succ _⟩
  | inr minted =>
    subst minted
    refine ⟨?_, by simp [blockCreate]⟩
    intro transaction inBlock
    simp only [blockCreate, List.mem_singleton] at inBlock
    subst inBlock
    exact Nat.le_refl 4096

/-- The buffer is decoded, and checking the chain hands 4096 bytes of a 512 byte array to
OpenSSL. -/
theorem overlong_signature_reaches_openssl :
    blockchainDeserialize .littleEndian (Input.ofBuffer overlongBuffer (fun _ => 0) grantAll) none =
        ⟨.success, some overlongMintedChain, (encodeBlockchain overlongMintedChain).length⟩ ∧
      Access.signature 4096 ∈ (verifyLogged Platform.lenient overlongMintedChain).accesses ∧
      ¬ SignaturesBounded overlongBuffer := by
  have needs : blockchainNeeds overlongMintedChain = 12440 := by decide
  have length : overlongBuffer.length = 12440 := by
    rw [overlongBuffer, List.length_append, overlongMintedChain_length, List.length_replicate]
  have held : (Input.ofBuffer overlongBuffer (fun _ => 0) grantAll).Holds 0 (encodeBlockchain overlongMintedChain) :=
    (Input.holds_append.mp (Input.ofBuffer_holds overlongBuffer _ _)).1
  have decoded : blockchainDeserialize .littleEndian (Input.ofBuffer overlongBuffer (fun _ => 0) grantAll) none =
      ⟨.success, some overlongMintedChain, (encodeBlockchain overlongMintedChain).length⟩ :=
    deserialize_of_holds (generous_ofBuffer _ _) held (by rw [Input.ofBuffer_size, needs, length])
      overlongMintedChain_acceptable
  have minted : overlongMintedChain.blockList =
      blockCreateGenesisBlock 0 :: blockCreate 0 [overlongTransaction] 0 Sha256.zero :: [] := rfl
  refine ⟨decoded, ?_, ?_⟩
  · have read : Platform.lenient.readPublicKey overlongTransaction.senderPublicKey = some () := rfl
    have checked : Platform.lenient.verifyFinal () (signedBytes Platform.lenient.order overlongTransaction)
        overlongTransaction.senderSignature = some 1 := rfl
    exact verifyLogged_signature minted ⟨rfl, rfl, rfl⟩ rfl rfl rfl ⟨rfl, rfl⟩ read checked
  · intro bounded
    have fits := (bounded _ _ _ _ _ _ decoded).1
    rw [Blockchain.SignaturesFit, minted] at fits
    have claimed : 4096 ≤ 512 := fits _ (.tail _ (.head _)) overlongTransaction (.head _)
    omega

end LeoCoin
