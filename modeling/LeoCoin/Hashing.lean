import LeoCoin.Endian
import LeoCoin.Types

/-! # Hashing and signing

`block_hash` and the signature functions hand structs to OpenSSL as raw memory,
so the bytes they see are object representations on the host.  What OpenSSL and
the host decide is collected in `Platform`; everything else is defined here.
-/

namespace LeoCoin

/-- The host and its OpenSSL.

`readPublicKey` is `PEM_read_bio_PUBKEY`.  `verifyFinal` is the digest context
with `EVP_VerifyInit`, `EVP_VerifyUpdate` and `EVP_VerifyFinal`; it is `none` when
one of the first two fails.  `digestSign` reads the private key and signs with
it.  `pastHash` and `pastZero` are the stack bytes behind the two 32 byte hashes
of a proof of work check, which a difficulty above 32 makes it read; another call
finds others there (`onStack`). -/
structure Platform (PKey : Type) where
  order : ByteOrder
  sha256 : List UInt8 → Sha256
  readPublicKey : SshKey → Option PKey
  verifyFinal : PKey → List UInt8 → SshSignature → Option Int
  digestSign : SshKey → List UInt8 → Option SshSignature
  pastHash : Nat → UInt8
  pastZero : Nat → UInt8

variable {PKey : Type}

/-- The bytes behind the two hashes that one call compares, which nothing sets. -/
structure StackBytes where
  pastHash : Nat → UInt8
  pastZero : Nat → UInt8

/-- The same host and OpenSSL, in a call with these bytes on its stack. -/
def Platform.onStack (platform : Platform PKey) (stack : StackBytes) : Platform PKey :=
  { platform with pastHash := stack.pastHash, pastZero := stack.pastZero }

/-! ## Object representations -/

/-- A transaction up to `offsetof(transaction_t, sender_signature)`. -/
def signedBytes (order : ByteOrder) (transaction : Transaction) : List UInt8 :=
  (storeUInt64 order transaction.createdAt.toUInt64).toList ++
  transaction.senderPublicKey.bytes.toList ++
  transaction.recipientPublicKey.bytes.toList ++
  (storeUInt64 order transaction.amount).toList

/-- `sizeof(*transaction)` bytes: the struct has no padding. -/
def transactionBytes (order : ByteOrder) (transaction : Transaction) : List UInt8 :=
  signedBytes order transaction ++
  (storeUInt64 order transaction.senderSignature.length).toList ++
  transaction.senderSignature.bytes.toList

/-- `block_hash`.  With a block to hash it always returns `SUCCESS`. -/
def blockHash (platform : Platform PKey) (block : Block) : Sha256 :=
  platform.sha256 <|
    (storeUInt64 platform.order block.createdAt.toUInt64).toList ++
    (storeUInt64 platform.order block.proofOfWork).toList ++
    block.previousBlockHash.digest.toList ++
    block.transactionList.flatMap (transactionBytes platform.order)

/-! ## Signatures -/

/-- `transaction_generate_signature` -/
def transactionGenerateSignature (platform : Platform PKey) (transaction : Transaction)
    (senderPrivateKey : SshKey) : Except Failure SshSignature :=
  match platform.digestSign senderPrivateKey (signedBytes platform.order transaction) with
  | none => .error .opensslFunction
  | some signature => .ok signature

/-- `transaction_create`; `createdAt` is what `time(NULL)` returned.  The struct is
zeroed, filled and then signed. -/
def transactionCreate (platform : Platform PKey) (createdAt : Int64)
    (senderPublicKey recipientPublicKey : SshKey) (amount : UInt64) (senderPrivateKey : SshKey) :
    Except Failure Transaction := do
  let newTransaction : Transaction :=
    { createdAt, senderPublicKey, recipientPublicKey, amount
      senderSignature := ⟨0, Vector.replicate 512 0⟩ }
  let signature ← transactionGenerateSignature platform newTransaction senderPrivateKey
  return { newTransaction with senderSignature := signature }

/-- `transaction_verify_signature`; the value is what it stores in
`*is_valid_signature`. -/
def transactionVerifySignature (platform : Platform PKey) (transaction : Transaction) :
    Except Failure Bool :=
  match platform.readPublicKey transaction.senderPublicKey with
  | none => .error .opensslFunction
  | some publicKey =>
    match platform.verifyFinal publicKey (signedBytes platform.order transaction)
        transaction.senderSignature with
    | none => .error .opensslFunction
    | some result => .ok (result == 1)

/-- The key pair signs so that its signatures verify. -/
def Signs (platform : Platform PKey) (publicKey privateKey : SshKey) : Prop :=
  ∀ createdAt recipientPublicKey amount transaction,
    transactionCreate platform createdAt publicKey recipientPublicKey amount privateKey = .ok transaction →
    transactionVerifySignature platform transaction = .ok true

theorem transaction_create_fields {platform : Platform PKey} {createdAt : Int64}
    {senderPublicKey recipientPublicKey senderPrivateKey : SshKey} {amount : UInt64}
    {transaction : Transaction}
    (created : transactionCreate platform createdAt senderPublicKey recipientPublicKey amount
      senderPrivateKey = .ok transaction) :
    transaction.senderPublicKey = senderPublicKey ∧
      transaction.recipientPublicKey = recipientPublicKey ∧ transaction.amount = amount := by
  simp only [transactionCreate, transactionGenerateSignature] at created
  split at created
  · cases created
  · cases created
    exact ⟨rfl, rfl, rfl⟩

/-! ## Comparing memory -/

/-- `memcmp(left + offset, right + offset, count)`: the difference of the first two
bytes that differ. -/
def memcmpFrom (left right : Nat → UInt8) : Nat → Nat → Int
  | _, 0 => 0
  | offset, count + 1 =>
    if left offset = right offset then memcmpFrom left right (offset + 1) count
    else (left offset).toNat - (right offset).toNat

def memcmp (left right : Nat → UInt8) (count : Nat) : Int := memcmpFrom left right 0 count

/-- The memory that holds `bytes`, and `behind` after them. -/
def memoryOf {size : Nat} (bytes : Vector UInt8 size) (behind : Nat → UInt8) (offset : Nat) : UInt8 :=
  if bound : offset < size then bytes[offset] else behind offset

theorem memcmpFrom_eq_zero {left right : Nat → UInt8} {offset count : Nat} :
    memcmpFrom left right offset count = 0 ↔
      ∀ index, offset ≤ index → index < offset + count → left index = right index := by
  induction count generalizing offset with
  | zero =>
    simp only [memcmpFrom, true_iff]
    intro index lower upper
    omega
  | succ count ih =>
    rw [memcmpFrom]
    by_cases same : left offset = right offset
    · simp only [same, if_true]
      rw [ih]
      constructor
      · intro later index lower upper
        cases Nat.eq_or_lt_of_le lower with
        | inl start =>
          rw [← start]
          exact same
        | inr beyond => exact later index beyond (by omega)
      · intro all index lower upper
        exact all index (by omega) (by omega)
    · simp only [same, if_false]
      -- the difference of two bytes is zero only for equal bytes
      constructor
      · intro zero
        exact absurd (UInt8.toNat_inj.mp (by omega)) same
      · intro all
        exact absurd (all offset (by omega) (by omega)) same

theorem memcmp_eq_zero {left right : Nat → UInt8} {count : Nat} :
    memcmp left right count = 0 ↔ ∀ index, index < count → left index = right index := by
  rw [memcmp, memcmpFrom_eq_zero]
  constructor
  · intro all index bound
    exact all index (Nat.zero_le _) (by omega)
  · intro all index _ bound
    exact all index (by omega)

theorem memcmp_memoryOf {size : Nat} {left right : Vector UInt8 size} {behindLeft behindRight : Nat → UInt8} :
    memcmp (memoryOf left behindLeft) (memoryOf right behindRight) size = 0 ↔ left = right := by
  rw [memcmp_eq_zero]
  constructor
  · intro all
    apply Vector.ext
    intro index bound
    simpa [memoryOf, bound] using all index bound
  · intro same index bound
    simp [memoryOf, bound, same]

end LeoCoin
