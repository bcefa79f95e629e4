import LeoCoin.Library.Codec
import LeoCoin.Library.HashChain
import LeoCoin.Verify

/-! # What a block hash commits to

`block_hash` feeds SHA-256 the fields of the block and then every transaction struct,
each as the host stores it.  The fields are of fixed width and so are the records, so
the bytes determine the block (`hashedBytes_injective`), and along an accepted chain
the hash of the last block determines every block before it.
-/

namespace LeoCoin

open Library.Decoding Library.HashChain

variable {PKey : Type}

/-! ## The bytes of a block -/

/-- What `block_hash` passes to `EVP_DigestUpdate`, in order. -/
def hashedBytes (order : ByteOrder) (block : Block) : List UInt8 :=
  (storeUInt64 order block.createdAt.toUInt64).toList ++
  (storeUInt64 order block.proofOfWork).toList ++
  block.previousBlockHash.digest.toList ++
  block.transactionList.flatMap (transactionBytes order)

theorem blockHash_eq (platform : Platform PKey) (block : Block) :
    blockHash platform block = platform.sha256 (hashedBytes platform.order block) := rfl

@[simp] theorem signedBytes_length (order : ByteOrder) (transaction : Transaction) :
    (signedBytes order transaction).length = 8208 := by
  simp [signedBytes]

@[simp] theorem transactionBytes_length (order : ByteOrder) (transaction : Transaction) :
    (transactionBytes order transaction).length = 8728 := by
  simp [transactionBytes]

theorem stored_append_inj {order : ByteOrder} {left right : UInt64} {restLeft restRight : List UInt8}
    (same : (storeUInt64 order left).toList ++ restLeft = (storeUInt64 order right).toList ++ restRight) :
    left = right ∧ restLeft = restRight := by
  obtain ⟨stored, rest⟩ := List.append_inj same (by simp)
  exact ⟨storeUInt64_injective order (Vector.toList_inj.mp stored), rest⟩

theorem array_append_inj {size : Nat} {left right : Vector UInt8 size} {restLeft restRight : List UInt8}
    (same : left.toList ++ restLeft = right.toList ++ restRight) : left = right ∧ restLeft = restRight := by
  obtain ⟨bytes, rest⟩ := List.append_inj same (by simp)
  exact ⟨Vector.toList_inj.mp bytes, rest⟩

theorem toUInt64_injective : Function.Injective Int64.toUInt64 := by
  intro left right same
  rw [← Int64.toInt64_toUInt64 left, same, Int64.toInt64_toUInt64]

theorem transactionBytes_injective (order : ByteOrder) : Function.Injective (transactionBytes order) := by
  intro left right same
  simp only [transactionBytes, signedBytes, List.append_assoc] at same
  -- the struct field by field
  obtain ⟨createdAt, same⟩ := stored_append_inj same
  obtain ⟨sender, same⟩ := array_append_inj same
  obtain ⟨recipient, same⟩ := array_append_inj same
  obtain ⟨amount, same⟩ := stored_append_inj same
  obtain ⟨length, bytes⟩ := stored_append_inj same
  have createdAt := toUInt64_injective createdAt
  have bytes := Vector.toList_inj.mp bytes
  cases left with
  | mk _ leftSender leftRecipient _ leftSignature =>
    cases right with
    | mk _ rightSender rightRecipient _ rightSignature =>
      cases leftSender
      cases leftRecipient
      cases leftSignature
      simp_all

theorem hashedBytes_injective (order : ByteOrder) : Function.Injective (hashedBytes order) := by
  intro left right same
  simp only [hashedBytes, List.append_assoc] at same
  obtain ⟨createdAt, same⟩ := stored_append_inj same
  obtain ⟨proofOfWork, same⟩ := stored_append_inj same
  obtain ⟨previous, same⟩ := array_append_inj same
  have createdAt := toUInt64_injective createdAt
  have transactions := flatMap_injective (by decide) (transactionBytes_length order)
    (transactionBytes_injective order) same
  cases left with
  | mk _ _ _ leftHash =>
    cases right with
    | mk _ _ _ rightHash =>
      cases leftHash
      simp_all

/-! ## The tip of an accepted chain -/

/-- The blocks whose bytes are hashed when the two chains are verified. -/
def hashedBlocks (left right : Blockchain) : Set Block :=
  {block | block ∈ left.blockList ∨ block ∈ right.blockList}

theorem follows_hashChain {platform : Platform PKey} {difficulty : Nat} {previous block : Block}
    (follows : LeoCoin.Follows platform difficulty previous block) :
    Library.HashChain.Follows (blockHash platform) Block.previousBlockHash
      (fun block => block.transactionList = []) block previous := by
  obtain ⟨minting, others, items, -⟩ := follows.minted
  exact ⟨by simp [items], follows.linked⟩

/-- An accepted chain, read from its last block back, is a hash chain that starts at the
only block without transactions. -/
theorem linked_of_accepts {platform : Platform PKey} {blockchain : Blockchain}
    (small : blockchain.numLeadingZeroBytesRequiredInBlockHash.toNat ≤ 32)
    (accepts : (blockchainVerify platform blockchain).Accepts) (nonempty : blockchain.blockList ≠ []) :
    ∃ before, blockchain.blockList.reverse = blockchain.blockList.getLast nonempty :: before ∧
      Linked (blockHash platform) Block.previousBlockHash (fun block => block.transactionList = [])
        (blockchain.blockList.getLast nonempty :: before) := by
  obtain empty | ⟨genesis, rest, items, valid, chained⟩ := (accepts_iff_validChain small).mp accepts
  · exact absurd empty nonempty
  have backwards : List.IsChain (Library.HashChain.Follows (blockHash platform) Block.previousBlockHash
      (fun block => block.transactionList = [])) blockchain.blockList.reverse := by
    rw [List.isChain_reverse, items]
    exact chained.imp fun _ _ follows => follows_hashChain follows
  have tip : blockchain.blockList.reverse =
      blockchain.blockList.getLast nonempty :: blockchain.blockList.dropLast.reverse := by
    conv_lhs => rw [← List.dropLast_append_getLast nonempty]
    rw [List.reverse_append, List.reverse_singleton, List.singleton_append]
  have oldest : (blockchain.blockList.reverse.getLast (by simpa using nonempty)).transactionList = [] := by
    simp only [List.getLast_reverse, items, List.head_cons]
    exact valid.noTransactions
  refine ⟨_, tip, ?_⟩
  rw [tip] at backwards
  apply linked_of_isChain backwards
  simpa only [tip] using oldest

/-- Two non-empty accepted chains whose last blocks have the same hash are the same, block
by block, unless SHA-256 has a collision among the bytes of their blocks. -/
theorem tip_commits_to_chain (platform : Platform PKey) (left right : Blockchain)
    (smallLeft : left.numLeadingZeroBytesRequiredInBlockHash.toNat ≤ 32)
    (smallRight : right.numLeadingZeroBytesRequiredInBlockHash.toNat ≤ 32)
    (acceptsLeft : (blockchainVerify platform left).Accepts)
    (acceptsRight : (blockchainVerify platform right).Accepts)
    (nonemptyLeft : left.blockList ≠ []) (nonemptyRight : right.blockList ≠ [])
    (collisionFree : Set.InjOn platform.sha256 (hashedBytes platform.order '' hashedBlocks left right))
    (sameTip : blockHash platform (left.blockList.getLast nonemptyLeft) =
      blockHash platform (right.blockList.getLast nonemptyRight)) :
    left.blockList = right.blockList := by
  obtain ⟨beforeLeft, itemsLeft, linkedLeft⟩ := linked_of_accepts smallLeft acceptsLeft nonemptyLeft
  obtain ⟨beforeRight, itemsRight, linkedRight⟩ := linked_of_accepts smallRight acceptsRight nonemptyRight
  -- equal hashes of two blocks come from equal bytes, and these from equal blocks
  have injective : Set.InjOn (blockHash platform) (hashedBlocks left right) :=
    collisionFree.comp (hashedBytes_injective platform.order).injOn (Set.mapsTo_image _ _)
  have sameReverse := linkedLeft.eq_of_tip linkedRight
    (injective.mono fun block member => by
      rw [← itemsLeft, ← itemsRight] at member
      simpa [hashedBlocks] using member) sameTip
  rw [← itemsLeft, ← itemsRight] at sameReverse
  exact List.reverse_inj.mp sameReverse

/-- A platform whose hash tells a block without transactions from all others. -/
def Platform.byLength : Platform Unit :=
  { Platform.lenient with
    sha256 := fun bytes => if bytes.length = 48 then Sha256.zero else ⟨(Vector.replicate 32 0).set 31 1⟩ }

/-- A genesis block and one block, under a difficulty up to 31. -/
def sampleOfDifficulty (difficulty : UInt64) : Blockchain :=
  { sampleChain 1 with numLeadingZeroBytesRequiredInBlockHash := difficulty }

theorem byLength_genesis : blockHash Platform.byLength (blockCreateGenesisBlock 0) = Sha256.zero := by
  have short : (hashedBytes .littleEndian (blockCreateGenesisBlock 0)).length = 48 := by
    simp [hashedBytes, blockCreateGenesisBlock, blockCreate]
  exact if_pos short

theorem byLength_sampleBlock :
    blockHash Platform.byLength sampleBlock = ⟨(Vector.replicate 32 0).set 31 1⟩ := by
  have long : ¬ (hashedBytes .littleEndian sampleBlock).length = 48 := by
    simp [hashedBytes, sampleBlock, blockCreate]
  exact if_neg long

theorem sampleOfDifficulty_accepts {difficulty : UInt64} (small : difficulty.toNat ≤ 31) :
    (blockchainVerify Platform.byLength (sampleOfDifficulty difficulty)).Accepts := by
  have within : (sampleOfDifficulty difficulty).numLeadingZeroBytesRequiredInBlockHash.toNat ≤ 32 :=
    Nat.le_succ_of_le small
  have work : StartsWithZeros difficulty.toNat (blockHash Platform.byLength sampleBlock) := by
    intro index bound inside
    have before : ¬ 31 = index := by omega
    simp [byLength_sampleBlock, before]
  have follows : LeoCoin.Follows Platform.byLength difficulty.toNat (blockCreateGenesisBlock 0) sampleBlock :=
    ⟨work, byLength_genesis.symm, ⟨sampleTransaction, [], rfl, rfl, rfl⟩, fun _ _ => rfl⟩
  apply (accepts_iff_validChain within).mpr
  exact .inr ⟨_, [sampleBlock], rfl, ⟨rfl, rfl, rfl⟩, .cons_cons follows (.singleton _)⟩

/-- The two chains differ in their difficulty, which no block hash covers. -/
theorem tip_commits_to_chain_sample :
    (sampleOfDifficulty 0).blockList = (sampleOfDifficulty 31).blockList := by
  have blocks : hashedBlocks (sampleOfDifficulty 0) (sampleOfDifficulty 31) =
      {blockCreateGenesisBlock 0, sampleBlock} := by
    ext block
    simp [hashedBlocks, sampleOfDifficulty, sampleChain]
  have differ : blockHash Platform.byLength (blockCreateGenesisBlock 0) ≠
      blockHash Platform.byLength sampleBlock := by
    rw [byLength_genesis, byLength_sampleBlock]
    decide
  have collisionFree : Set.InjOn Platform.byLength.sha256 (hashedBytes Platform.byLength.order ''
      hashedBlocks (sampleOfDifficulty 0) (sampleOfDifficulty 31)) := by
    rw [blocks, Set.image_pair, Set.injOn_pair]
    exact fun same => absurd same differ
  exact tip_commits_to_chain Platform.byLength (sampleOfDifficulty 0) (sampleOfDifficulty 31) (by decide)
    (by decide) (sampleOfDifficulty_accepts (by decide)) (sampleOfDifficulty_accepts (by decide))
    (List.cons_ne_nil _ _) (List.cons_ne_nil _ _) collisionFree rfl

end LeoCoin
