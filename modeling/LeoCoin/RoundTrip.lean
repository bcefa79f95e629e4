import LeoCoin.Preimage
import LeoCoin.Serialization

/-! # Round trips

Serializing and deserializing are inverse in both directions: a serialized chain
comes back field for field, whatever follows it in the buffer, and a byte string
the deserializer accepts is the serialization of the chain it returned.  The
writer and the reader may run on hosts of different byte order.
-/

namespace LeoCoin

open Library.Decoding

/-! ## Signatures that fit their array -/

theorem Transaction.SignatureFits.acceptable {transaction : Transaction}
    (fits : transaction.SignatureFits) : transaction.Acceptable := by
  rw [Transaction.Acceptable, UInt64.le_iff_toNat_le]
  have declared : transaction.senderSignature.length.toNat ≤ 512 := fits
  have limit : (4096 : UInt64).toNat = 4096 := rfl
  omega

theorem Transaction.SignatureFits.needs_le {transaction : Transaction}
    (fits : transaction.SignatureFits) :
    transactionNeeds transaction ≤ (encodeTransaction transaction).length := by
  have declared : transaction.senderSignature.length.toNat ≤ 512 := fits
  rw [encodeTransaction_length, transactionNeeds]
  omega

theorem Block.SignaturesFit.needs_le {block : Block} (fits : block.SignaturesFit) :
    blockNeeds block ≤ (encodeBlock block).length := by
  have transactions := demand_le fun transaction member => (fits transaction member).needs_le
  rw [blockNeeds, encodeBlock, List.length_append, encodeBlockHeader_length]
  omega

theorem Blockchain.SignaturesFit.needs_le {blockchain : Blockchain} (fits : blockchain.SignaturesFit) :
    blockchainNeeds blockchain ≤ (encodeBlockchain blockchain).length := by
  have blocks := demand_le fun block member => (fits block member).needs_le
  rw [blockchainNeeds, encodeBlockchain, List.length_append, encodeBlockchainHeader_length]
  omega

theorem Blockchain.transactions_bounded (blockchain : Blockchain) :
    ∀ block ∈ blockchain.blockList, block.transactionList.length < 2 ^ 64 := by
  intro block member
  have part := memory_le_chainMemory member
  have inMemory := blockchain.fits
  rw [Block.memory] at part
  omega

theorem Blockchain.SignaturesFit.acceptable {blockchain : Blockchain} (fits : blockchain.SignaturesFit) :
    blockchain.Acceptable := by
  intro block member
  exact ⟨fun transaction inBlock => (fits block member transaction inBlock).acceptable,
    blockchain.transactions_bounded block member⟩

/-! ## Both directions -/

theorem deserialize_of_holds {order : ByteOrder} {input : Input} {blockchain : Blockchain}
    {prior : Option Blockchain} (generous : input.Generous)
    (held : input.Holds 0 (encodeBlockchain blockchain)) (inside : blockchainNeeds blockchain ≤ input.size)
    (accepted : blockchain.Acceptable) :
    blockchainDeserialize order input prior =
      ⟨.success, some blockchain, (encodeBlockchain blockchain).length⟩ := by
  have reads := deserializeBlockchain_reads order
  have start : input.Holds (⟨0, []⟩ : Cursor).position (encodeBlockchain blockchain) := held
  obtain ⟨reached, ran⟩ := reads.complete generous start (by simpa using inside) accepted
  obtain ⟨-, moved, -, -⟩ := reads.sound ran
  rw [blockchainDeserialize, ran]
  simp [moved]

theorem holds_of_deserialize {order : ByteOrder} {input : Input} {blockchain : Blockchain}
    {prior : Option Blockchain} {examined : Nat}
    (succeeded : blockchainDeserialize order input prior = ⟨.success, some blockchain, examined⟩) :
    input.Holds 0 (encodeBlockchain blockchain) ∧ examined = (encodeBlockchain blockchain).length ∧
      blockchainNeeds blockchain ≤ input.size ∧ blockchain.Acceptable := by
  rw [blockchainDeserialize] at succeeded
  cases ran : (deserializeBlockchain order).run input ⟨0, []⟩ with
  | mk outcome final =>
    cases outcome with
    | error fault =>
      rw [ran] at succeeded
      -- a fault never becomes `SUCCESS`
      exact absurd (Deserialization.mk.inj succeeded).1 (Failure.ofFault fault).property
    | ok value =>
      rw [ran] at succeeded
      cases succeeded
      obtain ⟨held, moved, inside, accepted⟩ := (deserializeBlockchain_reads order).sound ran
      exact ⟨held, by simpa using moved, by simpa using inside, accepted⟩

/-- As far as the buffer goes it holds the encoding of the chain, and it is long enough for
every check the decoder makes. -/
structure Carries (buffer : List UInt8) (blockchain : Blockchain) : Prop where
  agrees : encodeBlockchain blockchain <+: buffer ∨ buffer <+: encodeBlockchain blockchain
  inside : blockchainNeeds blockchain ≤ buffer.length
  acceptable : blockchain.Acceptable

theorem carries_of_deserialize {order : ByteOrder} {buffer : List UInt8} {behind : Nat → UInt8}
    {grants : Nat → Nat → Bool} {prior : Option Blockchain} {blockchain : Blockchain} {examined : Nat}
    (succeeded : blockchainDeserialize order (Input.ofBuffer buffer behind grants) prior =
      ⟨.success, some blockchain, examined⟩) : Carries buffer blockchain := by
  obtain ⟨held, -, inside, accepted⟩ := holds_of_deserialize succeeded
  exact ⟨Input.ofBuffer_holds_iff.mp ⟨behind, held⟩, inside, accepted⟩

theorem Carries.deserialize {buffer : List UInt8} {blockchain : Blockchain} (carries : Carries buffer blockchain) :
    ∃ behind, ∀ order prior, blockchainDeserialize order (Input.ofBuffer buffer behind grantAll) prior =
      ⟨.success, some blockchain, (encodeBlockchain blockchain).length⟩ := by
  obtain ⟨behind, held⟩ := Input.ofBuffer_holds_iff.mpr carries.agrees
  exact ⟨behind, fun order prior =>
    deserialize_of_holds (generous_ofBuffer _ _) held carries.inside carries.acceptable⟩

/-- Reading back what was written, with any bytes behind it. -/
theorem deserialize_encode {order : ByteOrder} {blockchain : Blockchain} (fits : blockchain.SignaturesFit)
    (trailing : List UInt8) (behind : Nat → UInt8) (prior : Option Blockchain) :
    blockchainDeserialize order
        (Input.ofBuffer (encodeBlockchain blockchain ++ trailing) behind grantAll) prior =
      ⟨.success, some blockchain, (encodeBlockchain blockchain).length⟩ := by
  have whole := Input.ofBuffer_holds (encodeBlockchain blockchain ++ trailing) behind grantAll
  rw [Input.holds_append] at whole
  have needs := fits.needs_le
  apply deserialize_of_holds (generous_ofBuffer _ _) whole.1 _ fits.acceptable
  rw [Input.ofBuffer_size, List.length_append]
  omega

/-- The encoding of a chain determines it, even with bytes behind it. -/
theorem encodeBlockchain_prefix_unique {left right : Blockchain} (acceptsLeft : left.Acceptable)
    (acceptsRight : right.Acceptable) (begins : encodeBlockchain left <+: encodeBlockchain right) :
    left = right :=
  (deserializeBlockchain_reads .littleEndian).prefix_unique acceptsLeft acceptsRight begins

/-! ## The format without its checks -/

theorem encodeTransaction_injective : Function.Injective encodeTransaction := by
  intro left right same
  apply transactionBytes_injective .bigEndian
  simpa [transactionBytes, signedBytes, storeUInt64, encodeTransaction, encodeTransactionHeader] using same

theorem encodeBlockHeader_inj {left right : Block} {numLeft numRight : UInt64}
    (same : encodeBlockHeader left numLeft = encodeBlockHeader right numRight) :
    left.createdAt = right.createdAt ∧ left.previousBlockHash = right.previousBlockHash ∧
      left.proofOfWork = right.proofOfWork ∧ numLeft = numRight := by
  simp only [encodeBlockHeader] at same
  obtain ⟨createdAt, same⟩ := array_append_inj same
  obtain ⟨digest, same⟩ := array_append_inj same
  obtain ⟨proofOfWork, counted⟩ := array_append_inj same
  have previous : left.previousBlockHash = right.previousBlockHash := by
    show Sha256.mk left.previousBlockHash.digest = Sha256.mk right.previousBlockHash.digest
    rw [digest]
  exact ⟨toUInt64_injective (splitBytes_injective createdAt), previous, splitBytes_injective proofOfWork,
    splitBytes_injective (Vector.toList_inj.mp counted)⟩

theorem length_eq_of_linkedListLength {α β : Type} {left : List α} {right : List β}
    (boundedLeft : left.length < 2 ^ 64) (boundedRight : right.length < 2 ^ 64)
    (same : linkedListLength left = linkedListLength right) : left.length = right.length := by
  rw [← linkedListLength_toNat boundedLeft, ← linkedListLength_toNat boundedRight, same]

theorem encodeBlock_unambiguous :
    Unambiguous encodeBlock fun block => block.transactionList.length < 2 ^ 64 := by
  intro input position left right boundedLeft boundedRight holdsLeft holdsRight
  rw [encodeBlock, Input.holds_append, encodeBlockHeader_length] at holdsLeft holdsRight
  have header := holdsLeft.1.unique holdsRight.1 (by simp)
  obtain ⟨createdAt, previous, proofOfWork, counted⟩ := encodeBlockHeader_inj header
  have transaction : Unambiguous encodeTransaction fun _ => True :=
    unambiguous_of_length encodeTransaction_length encodeTransaction_injective
  have sameList := transaction.flatMap
    (length_eq_of_linkedListLength boundedLeft boundedRight counted) (fun _ _ => trivial)
    (fun _ _ => trivial) holdsLeft.2 holdsRight.2
  cases left
  cases right
  simp_all

/-- No memory holds two chains at one place, whatever signature lengths they declare. -/
theorem encodeBlockchain_unambiguous : Unambiguous encodeBlockchain fun _ => True := by
  intro input position left right _ _ holdsLeft holdsRight
  rw [encodeBlockchain, Input.holds_append, encodeBlockchainHeader_length] at holdsLeft holdsRight
  have header := holdsLeft.1.unique holdsRight.1 (by simp)
  rw [encodeBlockchainHeader, encodeBlockchainHeader] at header
  obtain ⟨difficulty, counted⟩ := array_append_inj header
  have counted : left.blockList.length = right.blockList.length := by
    rw [← left.length_toNat, ← right.length_toNat, splitBytes_injective (Vector.toList_inj.mp counted)]
  have sameList := encodeBlock_unambiguous.flatMap counted left.transactions_bounded
    right.transactions_bounded holdsLeft.2 holdsRight.2
  exact Blockchain.ext_fields sameList (splitBytes_injective difficulty)

theorem sampleChain_signaturesFit (mined : UInt8) : (sampleChain mined).SignaturesFit := by
  intro block member transaction inBlock
  simp only [sampleChain, List.mem_cons, List.mem_replicate] at member
  cases member with
  | inl genesis =>
    subst genesis
    cases inBlock
  | inr mined =>
    obtain ⟨-, rfl⟩ := mined
    simp only [sampleBlock, blockCreate, List.mem_singleton] at inBlock
    subst inBlock
    exact Nat.le_refl 512

/-- A chain survives serialization and deserialization, whatever bytes follow; no
serialization is a prefix of another chain's; and every block keeps its hash. -/
theorem blockchain_round_trip (writer reader : ByteOrder) (blockchain : Blockchain)
    (fits : blockchain.SignaturesFit) :
    ∃ buffer size, blockchainSerialize grantAll writer blockchain = .ok (buffer, size) ∧
      size.toNat = buffer.length ∧
      (∀ trailing behind prior,
        blockchainDeserialize reader (Input.ofBuffer (buffer ++ trailing) behind grantAll) prior =
          ⟨.success, some blockchain, buffer.length⟩) ∧
      (∀ other otherBuffer otherSize, other.SignaturesFit →
        blockchainSerialize grantAll writer other = .ok (otherBuffer, otherSize) →
        buffer <+: otherBuffer → other = blockchain ∧ otherBuffer = buffer) ∧
      ∀ (PKey : Type) (platform : Platform PKey) trailing behind prior decoded,
        (blockchainDeserialize reader (Input.ofBuffer (buffer ++ trailing) behind grantAll)
          prior).blockchain = some decoded →
        decoded.blockList.map (blockHash platform) = blockchain.blockList.map (blockHash platform) := by
  refine ⟨encodeBlockchain blockchain, _, blockchain_serialize_eq (fun _ _ => rfl) writer blockchain,
    encodeBlockchain_length_toNat blockchain, ?_, ?_, ?_⟩
  · intro trailing behind prior
    exact deserialize_encode fits trailing behind prior
  · intro other otherBuffer otherSize otherFits serialized begins
    have written := blockchain_serialize_sound serialized
    obtain ⟨rfl, -⟩ := Prod.mk.inj written
    -- a reader of either buffer cannot tell the two chains apart
    have same := encodeBlockchain_prefix_unique fits.acceptable otherFits.acceptable begins
    rw [same]
    exact ⟨rfl, rfl⟩
  · intro PKey platform trailing behind prior decoded succeeded
    rw [deserialize_encode fits] at succeeded
    cases succeeded
    rfl

/-- Two mined blocks, written on one host and read on another. -/
theorem blockchain_round_trip_sample :
    (sampleChain 2).SignaturesFit ∧
      ∃ buffer size, blockchainSerialize grantAll .littleEndian (sampleChain 2) = .ok (buffer, size) ∧
        ∀ trailing behind prior,
          blockchainDeserialize .bigEndian (Input.ofBuffer (buffer ++ trailing) behind grantAll) prior =
            ⟨.success, some (sampleChain 2), buffer.length⟩ := by
  have fits := sampleChain_signaturesFit 2
  obtain ⟨buffer, size, written, -, read, -, -⟩ :=
    blockchain_round_trip .littleEndian .bigEndian (sampleChain 2) fits
  exact ⟨fits, buffer, size, written, read⟩

/-- What the deserializer accepts without leaving the buffer is what the serializer
writes for its result.  So byte strings it accepts and chains determine each other. -/
theorem blockchain_deserialize_canonical (reader writer : ByteOrder) (grants : Nat → Nat → Bool)
    (buffer : List UInt8) (behind : Nat → UInt8) (prior : Option Blockchain) (blockchain : Blockchain)
    (examined : Nat)
    (succeeded : blockchainDeserialize reader (Input.ofBuffer buffer behind grants) prior =
      ⟨.success, some blockchain, examined⟩)
    (inside : examined ≤ buffer.length) :
    blockchainSerialize grantAll writer blockchain =
        .ok (buffer.take examined, UInt64.ofNat examined) ∧
      ∀ (other : List UInt8) otherBehind otherGrants otherPrior otherChain otherExamined,
        blockchainDeserialize reader (Input.ofBuffer other otherBehind otherGrants) otherPrior =
          ⟨.success, some otherChain, otherExamined⟩ →
        otherExamined ≤ other.length →
        (otherChain = blockchain ↔ other.take otherExamined = buffer.take examined) := by
  have meaning {buffer : List UInt8} {behind grants prior blockchain examined}
      (succeeded : blockchainDeserialize reader (Input.ofBuffer buffer behind grants) prior =
        ⟨.success, some blockchain, examined⟩) (inside : examined ≤ buffer.length) :
      buffer.take examined = encodeBlockchain blockchain := by
    obtain ⟨held, rfl, -, -⟩ := holds_of_deserialize succeeded
    exact Input.ofBuffer_holds_take held inside
  have written := meaning succeeded inside
  obtain ⟨-, exact_, -, accepted⟩ := holds_of_deserialize succeeded
  constructor
  · rw [written, exact_]
    exact blockchain_serialize_eq (fun _ _ => rfl) writer blockchain
  · intro other otherBehind otherGrants otherPrior otherChain otherExamined otherSucceeded otherInside
    have otherWritten := meaning otherSucceeded otherInside
    obtain ⟨-, -, -, otherAccepted⟩ := holds_of_deserialize otherSucceeded
    rw [written, otherWritten]
    constructor
    · intro same
      rw [same]
    · intro same
      exact encodeBlockchain_prefix_unique otherAccepted accepted (same ▸ List.prefix_refl _)

/-- A chain with a signature that claims to be as long as a key. -/
def overlongChain : Blockchain :=
  ⟨[blockCreate 0 [{ sampleTransaction with senderSignature := ⟨4096, Vector.replicate 512 0⟩ }] 0
    Sha256.zero], 0, by decide⟩

theorem overlongChain_acceptable : overlongChain.Acceptable := by
  intro block member
  simp only [overlongChain, List.mem_singleton] at member
  subst member
  refine ⟨?_, by simp [blockCreate]⟩
  intro transaction inBlock
  simp only [blockCreate, List.mem_singleton] at inBlock
  subst inBlock
  exact Nat.le_refl 4096

theorem overlongChain_length : (encodeBlockchain overlongChain).length = 8800 := by
  simp [encodeBlockchain, overlongChain, encodeBlock_length, blockCreate]

/-- The declared end of the signature lies behind the record; those bytes are only
asked for. -/
theorem blockchain_deserialize_canonical_sample :
    let buffer := encodeBlockchain overlongChain ++ List.replicate 3584 0
    blockchainDeserialize .littleEndian (Input.ofBuffer buffer (fun _ => 0) grantAll) none =
        ⟨.success, some overlongChain, 8800⟩ ∧
      blockchainSerialize grantAll .bigEndian overlongChain = .ok (buffer.take 8800, 8800) := by
  intro buffer
  have length : buffer.length = 12384 := by
    simp only [buffer, List.length_append, overlongChain_length, List.length_replicate]
  have needs : blockchainNeeds overlongChain = 12384 := by decide
  have held : (Input.ofBuffer buffer (fun _ => 0) grantAll).Holds 0 (encodeBlockchain overlongChain) :=
    (Input.holds_append.mp (Input.ofBuffer_holds buffer _ _)).1
  have succeeded : blockchainDeserialize .littleEndian (Input.ofBuffer buffer (fun _ => 0) grantAll) none =
      ⟨.success, some overlongChain, 8800⟩ := by
    rw [deserialize_of_holds (generous_ofBuffer _ _) held (by rw [Input.ofBuffer_size, needs, length])
      overlongChain_acceptable, overlongChain_length]
  exact ⟨succeeded, (blockchain_deserialize_canonical .littleEndian .bigEndian grantAll buffer
    (fun _ => 0) none overlongChain 8800 succeeded (by omega)).1⟩

end LeoCoin
