import Mathlib.Algebra.Order.Group.Multiset
import LeoCoin.Library.Cells
import LeoCoin.Library.Triples
import LeoCoin.Verify

/-! # The objects of OpenSSL

`transaction_generate_signature` and `transaction_verify_signature` make a memory BIO, a key and a
digest context, and free them on every path by hand; `block_hash` makes a digest context and does
not look whether it got one.  Here each call of OpenSSL answers as it likes, each time it is called,
and the objects it makes are counted.
-/

namespace LeoCoin

open Library.Heap Library.Programs Library.Owning

namespace Openssl

open Imperative

inductive OpensslObject where
  | bio : OpensslObject
  | key : OpensslObject
  | digestContext : OpensslObject
deriving DecidableEq

/-- What OpenSSL answers, by the number of calls before: whether it makes an object, what it reads
and what it returns. -/
structure Engine (PKey SKey : Type) where
  bioNewMemBuf : Nat → Bool
  readPublicKey : Nat → SshKey → Option PKey
  readPrivateKey : Nat → SshKey → Option SKey
  isRsa : SKey → Bool
  mdCtxNew : Nat → Bool
  verifyInit : Nat → Int
  verifyUpdate : Nat → List UInt8 → Int
  verifyFinal : Nat → PKey → List UInt8 → SshSignature → Int
  digestSignInit : Nat → SKey → Int
  digestSignUpdate : Nat → List UInt8 → Int
  digestSignLength : Nat → Int
  /-- the bytes it writes, where the result is positive -/
  digestSignFinal : Nat → SKey → List UInt8 → Option (List UInt8)
  /-- `EVP_MD_CTX_new` in `block_hash` -/
  hashCtxNew : Nat → Bool
  digestInit : Nat → Int
  digestUpdate : Nat → List UInt8 → Int
  /-- the digest, where it writes one -/
  digestFinal : Nat → List UInt8 → Option Sha256

structure Crypto where
  objects : Store OpensslObject
  calls : Nat

abbrev CryptoProgram (β : Type) := Imperative Crypto Failure β

section Calls

variable {β : Type}

/-- A call that makes nothing. -/
def ask (answer : Nat → β) : CryptoProgram β := fun crypto =>
  .done (.ok (answer crypto.calls), { crypto with calls := crypto.calls + 1 })

/-- A call that makes an object, and the check for `NULL`. -/
def make (object : OpensslObject) (made : Nat → Bool) : CryptoProgram Nat := fun crypto =>
  if made crypto.calls then
    .done (.ok crypto.objects.fresh, ⟨crypto.objects.allocate object, crypto.calls + 1⟩)
  else
    .done (.error .opensslFunction, { crypto with calls := crypto.calls + 1 })

/-- `PEM_read_bio_PUBKEY` and `PEM_read_bio_PrivateKey`; the check for `NULL` comes later. -/
def readKey (key : Nat → Option β) : CryptoProgram (Option (Nat × β)) := fun crypto =>
  match key crypto.calls with
  | some value =>
    .done (.ok (some (crypto.objects.fresh, value)), ⟨crypto.objects.allocate .key, crypto.calls + 1⟩)
  | none => .done (.ok none, { crypto with calls := crypto.calls + 1 })

/-- `if (NULL == value)` -/
def present : Option β → CryptoProgram β
  | some value => pure value
  | none => fail .opensslFunction

/-- A call, and `if (result <= 0)`. -/
def positive (answer : Nat → Int) : CryptoProgram Unit := do
  let result ← ask answer
  require (0 < result) .opensslFunction

/-- A call that makes an object, and no check. -/
def makeUnchecked (object : OpensslObject) (made : Nat → Bool) : CryptoProgram (Option Nat) := fun crypto =>
  if made crypto.calls then
    .done (.ok (some crypto.objects.fresh), ⟨crypto.objects.allocate object, crypto.calls + 1⟩)
  else
    .done (.ok none, { crypto with calls := crypto.calls + 1 })

/-- A call with an object, which has to be there. -/
def askOf (object : Option Nat) (answer : Nat → β) : CryptoProgram β := do
  let _ ← fetch fun _ => object
  ask answer

/-- `BIO_free`, `EVP_PKEY_free` and `EVP_MD_CTX_free` -/
def release (address : Nat) : CryptoProgram Unit :=
  update fun crypto => do
    let objects ← crypto.objects.release address
    return { crypto with objects }

/-- `EVP_MD_CTX_free`, which does nothing with `NULL` -/
def releaseUnchecked : Option Nat → CryptoProgram Unit
  | some address => release address
  | none => pure ()

end Calls

section Signatures

variable {PKey SKey : Type} (engine : Engine PKey SKey) (order : ByteOrder)

/-- `EVP_PKEY_free(key); EVP_MD_CTX_free(md_ctx);` -/
def releaseBoth (key mdCtx : Nat) : CryptoProgram Unit := do
  release key
  release mdCtx

/-- `transaction_verify_signature` -/
def transactionVerifySignature (transaction : Transaction) : CryptoProgram Bool := do
  let bio ← make .bio engine.bioNewMemBuf
  let publicKey ← readKey (engine.readPublicKey · transaction.senderPublicKey)
  release bio
  let publicKey ← present publicKey
  let mdCtx ← (make .digestContext engine.mdCtxNew).otherwise (release publicKey.1)
  (positive engine.verifyInit).otherwise (releaseBoth publicKey.1 mdCtx)
  (positive (engine.verifyUpdate · (signedBytes order transaction))).otherwise (releaseBoth publicKey.1 mdCtx)
  let result ← ask
    (engine.verifyFinal · publicKey.2 (signedBytes order transaction) transaction.senderSignature)
  release mdCtx
  release publicKey.1
  return result == 1

/-- What is written to the bytes of a signature; what is behind it stays. -/
def filled (signature : SshSignature) (written : List UInt8) : SshSignature where
  length := UInt64.ofNat written.length
  bytes := Vector.ofFn fun index => written.getD index signature.bytes[index]

/-- `transaction_generate_signature`, once it has a key for RSA.  Nothing compares the length that
`EVP_DigestSignFinal` asks for with the 512 bytes there are. -/
def signWith (signature : SshSignature) (transaction : Transaction) (privateKey : Nat × SKey) :
    CryptoProgram SshSignature := do
  let mdCtx ← (make .digestContext engine.mdCtxNew).otherwise (release privateKey.1)
  (positive (engine.digestSignInit · privateKey.2)).otherwise (releaseBoth privateKey.1 mdCtx)
  (positive (engine.digestSignUpdate · (signedBytes order transaction))).otherwise (releaseBoth privateKey.1 mdCtx)
  (positive engine.digestSignLength).otherwise (releaseBoth privateKey.1 mdCtx)
  let written ← ask (engine.digestSignFinal · privateKey.2 (signedBytes order transaction))
  let written ← (present written).otherwise (releaseBoth privateKey.1 mdCtx)
  let signature ← fetch fun _ => if written.length ≤ 512 then some (filled signature written) else none
  release privateKey.1
  release mdCtx
  return signature

/-- `transaction_generate_signature` -/
def transactionGenerateSignature (signature : SshSignature) (transaction : Transaction) (senderPrivateKey : SshKey) :
    CryptoProgram SshSignature := do
  let memBio ← make .bio engine.bioNewMemBuf
  let privateKey ← readKey (engine.readPrivateKey · senderPrivateKey)
  release memBio
  let privateKey ← present privateKey
  -- the BIO is freed once more here
  (require (engine.isRsa privateKey.2) .opensslFunction).otherwise (do
    release privateKey.1
    release memBio)
  signWith engine order signature transaction privateKey

end Signatures

/-! ## `blockchain_verify` -/

section Verify

variable {PKey SKey : Type} (platform : Platform PKey) (engine : Engine PKey SKey)

/-- What `block_hash` hands to `EVP_DigestUpdate`, one after the other. -/
def hashedParts (order : ByteOrder) (block : Block) : List (List UInt8) :=
  [(storeUInt64 order block.createdAt.toUInt64).toList, (storeUInt64 order block.proofOfWork).toList,
    block.previousBlockHash.digest.toList] ++ block.transactionList.map (transactionBytes order)

def updateAll (mdctx : Option Nat) : List (List UInt8) → CryptoProgram Unit
  | [] => pure ()
  | part :: rest => do
    let _ ← askOf mdctx (engine.digestUpdate · part)
    updateAll mdctx rest

/-- `block_hash`, with what is in `*hash` before; it looks at no result. -/
def blockHash (block : Block) (hash : Sha256) : CryptoProgram Sha256 := do
  let mdctx ← makeUnchecked .digestContext engine.hashCtxNew
  let _ ← askOf mdctx engine.digestInit
  updateAll engine mdctx (hashedParts platform.order block)
  let digest ← askOf mdctx (engine.digestFinal · (hashedParts platform.order block).flatten)
  releaseUnchecked mdctx
  return digest.getD hash

/-- The signature loop. -/
def verifySignatures : List Transaction → CryptoProgram Bool
  | [] => pure true
  | transaction :: rest => do
    let isValidSignature ← transactionVerifySignature engine platform.order transaction
    if isValidSignature then verifySignatures rest else pure false

/-- One round of the block loop. -/
def verifyBlock (numLeadingZeroBytes : UInt64) (previousBlockHash : Sha256) (currentBlock : Block) :
    CryptoProgram BlockVerdict := do
  let currentBlockHash ← blockHash platform engine currentBlock Sha256.zero
  if compareWithEmptyHash platform numLeadingZeroBytes currentBlockHash ≠ 0 then pure (.invalid true)
  else if hashesDiffer currentBlock.previousBlockHash previousBlockHash then pure (.invalid true)
  else
    match currentBlock.transactionList with
    | [] => pure (.invalid false)
    | mintingTransaction :: others =>
      if mintingTransaction.amount ≠ amountGeneratedDuringMinting ∨
          keysDiffer mintingTransaction.senderPublicKey mintingTransaction.recipientPublicKey then
        pure (.invalid true)
      else do
        let valid ← verifySignatures platform engine (mintingTransaction :: others)
        pure (if valid then .valid currentBlockHash else .invalid true)

/-- The block loop. -/
def verifyBlocks (numLeadingZeroBytes : UInt64) : Sha256 → Nat → List Block → CryptoProgram Verification
  | _, _, [] => pure ⟨.success, some true, none⟩
  | previousBlockHash, index, currentBlock :: rest => do
    let verdict ← verifyBlock platform engine numLeadingZeroBytes previousBlockHash currentBlock
    match verdict with
    | .failed code => fail code
    | .invalid reported => pure ⟨.success, some false, if reported then some index else none⟩
    | .valid currentBlockHash => verifyBlocks numLeadingZeroBytes currentBlockHash (index + 1) rest

/-- `blockchain_verify`; where it fails it has written nothing. -/
def blockchainVerify (blockchain : Blockchain) : CryptoProgram Verification :=
  match blockchain.blockList with
  | [] => pure ⟨.success, some true, none⟩
  | genesisBlock :: rest =>
    if !genesisBlock.transactionList.isEmpty ||
        genesisBlock.proofOfWork != genesisBlockProofOfWork ||
        hashesDiffer genesisBlock.previousBlockHash Sha256.zero then
      pure ⟨.success, some false, some 0⟩
    else do
      let previousBlockHash ← blockHash platform engine genesisBlock Sha256.zero
      verifyBlocks platform engine blockchain.numLeadingZeroBytesRequiredInBlockHash previousBlockHash 1 rest

end Verify

/-! ## What there is -/

/-- The objects that have not been freed. -/
abbrev Objects := Multiset (Nat × OpensslObject)

def objects : Outlook Crypto Objects Unit := ⟨fun crypto => crypto.objects.cells, fun _ => (), fun _ _ => True⟩

section Rules

variable {β : Type} {own : Objects}

theorem accounts_ask (answer : Nat → β) (own : Objects) :
    Accounts objects (fun _ => True) own (fun _ => ask answer) fun result owned =>
      owned = own ∧ ∃ call, result = .ok (answer call) :=
  fun crypto _ _ parts => ⟨_, _, own, .of_eq fun _ => rfl, ⟨rfl, crypto.calls, rfl⟩, parts⟩

theorem accounts_make (object : OpensslObject) (made : Nat → Bool) (own : Objects) :
    Accounts objects (fun _ => True) own (fun _ => make object made) fun result owned =>
      (∃ address call, made call = true ∧ result = .ok address ∧ owned = (address, object) ::ₘ own) ∨
        ∃ call, made call = false ∧ result = .error .opensslFunction ∧ owned = own := by
  intro crypto rest _ parts
  cases answer : made crypto.calls with
  | true =>
    have parts : crypto.objects.cells = own + rest := parts
    exact ⟨.ok crypto.objects.fresh, ⟨crypto.objects.allocate object, crypto.calls + 1⟩, _,
      .of_eq fun _ => by simp [make, answer], .inl ⟨_, _, answer, rfl, rfl⟩, by simp [objects, parts]⟩
  | false =>
    exact ⟨.error .opensslFunction, { crypto with calls := crypto.calls + 1 }, own,
      .of_eq fun _ => by simp [make, answer], .inr ⟨_, answer, rfl, rfl⟩, parts⟩

theorem accounts_readKey (key : Nat → Option β) (own : Objects) :
    Accounts objects (fun _ => True) own (fun _ => readKey key) fun result owned =>
      (∃ address call value, key call = some value ∧ result = .ok (some (address, value)) ∧
          owned = (address, .key) ::ₘ own) ∨
        ∃ call, key call = none ∧ result = .ok none ∧ owned = own := by
  intro crypto rest _ parts
  cases answer : key crypto.calls with
  | some value =>
    have parts : crypto.objects.cells = own + rest := parts
    exact ⟨.ok (some (crypto.objects.fresh, value)), ⟨crypto.objects.allocate .key, crypto.calls + 1⟩, _,
      .of_eq fun _ => by simp [readKey, answer], .inl ⟨_, _, _, answer, rfl, rfl⟩, by simp [objects, parts]⟩
  | none =>
    exact ⟨.ok none, { crypto with calls := crypto.calls + 1 }, own,
      .of_eq fun _ => by simp [readKey, answer], .inr ⟨_, answer, rfl, rfl⟩, parts⟩

theorem accounts_positive (answer : Nat → Int) (own : Objects) :
    Accounts objects (fun _ => True) own (fun _ => positive answer) fun result owned =>
      owned = own ∧ ∃ call, result = if 0 < answer call then .ok () else .error .opensslFunction := by
  refine (accounts_ask answer own).bind ?_ ?_
  · rintro _ _ ⟨rfl, call, same⟩
    cases same
    by_cases succeeds : 0 < answer call
    · simp only [require, succeeds, decide_true, if_true]
      exact accounts_pure _ ⟨rfl, call, by simp [succeeds]⟩
    · simp only [require, succeeds, decide_false, Bool.false_eq_true, if_false]
      exact accounts_fail _ ⟨rfl, call, by simp [succeeds]⟩
  · rintro _ _ ⟨-, _, wrong⟩
    cases wrong

theorem accounts_askOf (address : Nat) (answer : Nat → β) (own : Objects) :
    Accounts objects (fun _ => True) own (fun _ => askOf (some address) answer) fun result owned =>
      owned = own ∧ ∃ call, result = .ok (answer call) :=
  accounts_ask answer own

/-- What follows an object that is not checked for must use it. -/
theorem unless_makeUnchecked {object : OpensslObject} {made : Nat → Bool} {rest : Option Nat → CryptoProgram β}
    {last : Except Failure β → Objects → Prop}
    (continues : ∀ address, Accounts objects (fun _ => True) ((address, object) ::ₘ own) (fun _ => rest (some address))
      last)
    (breaks : ∀ crypto, rest none crypto = .undefined) :
    AccountsUnless objects (fun _ => True) own (∃ call, made call = false)
      (fun _ => makeUnchecked object made >>= rest) last := by
  intro crypto others _ parts
  cases answer : made crypto.calls with
  | true =>
    have parts : crypto.objects.cells = own + others := parts
    have gives : Yields (fun _ => makeUnchecked object made) crypto (.ok (some crypto.objects.fresh))
        ⟨crypto.objects.allocate object, crypto.calls + 1⟩ := .of_eq fun _ => by simp [makeUnchecked, answer]
    obtain ⟨result, after, owned, yields, holds, parts⟩ :=
      continues crypto.objects.fresh ⟨crypto.objects.allocate object, crypto.calls + 1⟩ others trivial
        (by simp [objects, parts])
    exact .inl ⟨result, after, owned, gives.bind yields, holds, parts⟩
  | false =>
    refine .inr ⟨⟨_, answer⟩, .of_eq fun _ => ?_⟩
    simp [bind_apply, makeUnchecked, answer, further, breaks]

theorem turns_release (address : Nat) (object : OpensslObject) (others : Objects) :
    Turns objects (fun _ => release address) ((address, object) ::ₘ others) () others := by
  intro crypto rest parts
  have cells : crypto.objects.cells = (address, object) ::ₘ (others + rest) := by
    simpa [objects] using parts
  obtain ⟨after, released, now⟩ := Store.release_of_cells cells
  exact ⟨{ crypto with objects := after }, yields_update (by simp [released]), rfl, now⟩

theorem turns_releaseBoth (key mdCtx : Nat) (others : Objects) :
    Turns objects (fun _ => releaseBoth key mdCtx) ((mdCtx, .digestContext) ::ₘ (key, .key) ::ₘ others) () others := by
  have first : Turns objects (fun _ => release key) ((mdCtx, .digestContext) ::ₘ (key, .key) ::ₘ others) ()
      ((mdCtx, .digestContext) ::ₘ others) := by
    rw [Multiset.cons_swap]
    exact turns_release key .key _
  exact first.bind (turns_release mdCtx .digestContext others)

/-- The digest context, or the key is freed. -/
theorem accounts_mdCtxNew (made : Nat → Bool) (key : Nat) (own : Objects) :
    Accounts objects (fun _ => True) ((key, .key) ::ₘ own) (fun _ => (make .digestContext made).otherwise (release key))
      fun result owned =>
        (∃ mdCtx, result = .ok mdCtx ∧ owned = (mdCtx, .digestContext) ::ₘ (key, .key) ::ₘ own) ∨
          ∃ call, made call = false ∧ result = .error .opensslFunction ∧ owned = own := by
  refine (accounts_make .digestContext made _).otherwise ?_ ?_
  · rintro failure _ (⟨_, _, _, wrong, -⟩ | ⟨call, answer, same, rfl⟩)
    · cases wrong
    · cases same
      exact ⟨own, turns_release key .key own, .inr ⟨call, answer, rfl, rfl⟩⟩
  · rintro mdCtx _ (⟨_, _, _, same, rfl⟩ | ⟨_, _, wrong, -⟩)
    · cases same
      exact .inl ⟨mdCtx, rfl, rfl⟩
    · cases wrong

/-- A call that needs both, which are freed if it fails. -/
theorem accounts_positive_otherwise (answer : Nat → Int) (key mdCtx : Nat) (own : Objects) :
    Accounts objects (fun _ => True) ((mdCtx, .digestContext) ::ₘ (key, .key) ::ₘ own)
      (fun _ => (positive answer).otherwise (releaseBoth key mdCtx)) fun result owned =>
        (∃ call, 0 < answer call ∧ result = .ok () ∧ owned = (mdCtx, .digestContext) ::ₘ (key, .key) ::ₘ own) ∨
          ∃ call, ¬ 0 < answer call ∧ result = .error .opensslFunction ∧ owned = own := by
  refine (accounts_positive answer _).otherwise ?_ ?_
  · rintro failure _ ⟨rfl, call, same⟩
    by_cases succeeds : 0 < answer call
    · simp [succeeds] at same
    · simp only [succeeds, if_false, Except.error.injEq] at same
      exact ⟨own, turns_releaseBoth key mdCtx own, .inr ⟨call, succeeds, by rw [same], rfl⟩⟩
  · rintro ⟨⟩ _ ⟨rfl, call, same⟩
    by_cases succeeds : 0 < answer call
    · exact .inl ⟨call, succeeds, rfl, rfl⟩
    · simp [succeeds] at same

/-- The key is read from a memory BIO, which is freed before the check for `NULL`. -/
theorem accounts_readPem {γ : Type} {made : Nat → Bool} {read : Nat → Option β} {rest : Nat → Nat × β → CryptoProgram γ}
    {last : Except Failure γ → Objects → Prop}
    (continues : ∀ bio address call value, read call = some value →
      Accounts objects (fun _ => True) ((address, .key) ::ₘ own) (fun _ => rest bio (address, value)) last)
    (noBio : ∀ call, made call = false → last (.error .opensslFunction) own)
    (noKey : ∀ call, read call = none → last (.error .opensslFunction) own) :
    Accounts objects (fun _ => True) own
      (fun _ => make .bio made >>= fun bio => readKey read >>= fun key => release bio >>= fun _ =>
        present key >>= fun key => rest bio key) last := by
  refine (accounts_make .bio made own).bind ?_ ?_
  · rintro bio _ (⟨_, _, _, same, rfl⟩ | ⟨_, _, wrong, -⟩)
    · cases same
      refine (accounts_readKey read _).bind ?_ ?_
      · rintro _ _ (⟨address, call, value, answer, same, rfl⟩ | ⟨call, answer, same, rfl⟩)
        · cases same
          rw [Multiset.cons_swap]
          exact Accounts.after (turns_release bio .bio _) (continues bio address call value answer)
        · cases same
          exact Accounts.after (turns_release bio .bio _) (accounts_fail _ (noKey call answer))
      · rintro _ _ (⟨_, _, _, _, wrong, -⟩ | ⟨_, _, wrong, -⟩) <;> cases wrong
    · cases wrong
  · rintro failure _ (⟨_, _, _, wrong, -⟩ | ⟨call, answer, same, rfl⟩)
    · cases wrong
    · cases same
      exact noBio call answer

end Rules

/-! ## Verifying -/

section Verifying

variable {PKey SKey : Type} {platform : Platform PKey} {engine : Engine PKey SKey} {own : Objects}

/-- The engine answers as the platform does, whenever it is asked. -/
structure Engine.Like (engine : Engine PKey SKey) (platform : Platform PKey) : Prop where
  bioNewMemBuf : ∀ call, engine.bioNewMemBuf call = true
  mdCtxNew : ∀ call, engine.mdCtxNew call = true
  readPublicKey : ∀ call key, engine.readPublicKey call key = platform.readPublicKey key
  verifyFinal : ∀ first second third publicKey bytes signature,
    platform.verifyFinal publicKey bytes signature =
      if 0 < engine.verifyInit first ∧ 0 < engine.verifyUpdate second bytes then
        some (engine.verifyFinal third publicKey bytes signature)
      else none
  digestFinal : ∀ call bytes, engine.digestFinal call bytes = some (platform.sha256 bytes)

/-- Nothing is left over, and the result is the platform's. -/
def Settled {β : Type} (platform : Platform PKey) (engine : Engine PKey SKey) (own : Objects)
    (expected : Except Failure β) (result : Except Failure β) (owned : Objects) : Prop :=
  owned = own ∧ (engine.Like platform → result = expected)

theorem accounts_transactionVerifySignature (transaction : Transaction) (own : Objects) :
    Accounts objects (fun _ => True) own (fun _ => transactionVerifySignature engine platform.order transaction)
      (Settled platform engine own (LeoCoin.transactionVerifySignature platform transaction)) := by
  refine accounts_readPem (fun _ key call publicKey read => ?_) (fun call refused => ⟨rfl, fun like => ?_⟩)
    fun call refused => ⟨rfl, fun like => ?_⟩
  · have known (like : engine.Like platform) : platform.readPublicKey transaction.senderPublicKey = some publicKey := by
      rw [← like.readPublicKey call, read]
    have fails (like : engine.Like platform) {first second : Nat}
        (refused : ¬ (0 < engine.verifyInit first ∧
          0 < engine.verifyUpdate second (signedBytes platform.order transaction))) :
        (.error .opensslFunction : Except Failure Bool) = LeoCoin.transactionVerifySignature platform transaction := by
      have verifies := like.verifyFinal first second 0 publicKey (signedBytes platform.order transaction)
        transaction.senderSignature
      rw [if_neg refused] at verifies
      simp [LeoCoin.transactionVerifySignature, known like, verifies]
    refine (accounts_mdCtxNew _ key own).bind ?_ ?_
    · rintro mdCtx _ (⟨_, same, rfl⟩ | ⟨_, _, wrong, -⟩)
      · cases same
        refine (accounts_positive_otherwise _ key mdCtx own).bind ?_ ?_
        · rintro _ _ (⟨first, starts, -, rfl⟩ | ⟨_, _, wrong, -⟩)
          · refine (accounts_positive_otherwise _ key mdCtx own).bind ?_ ?_
            · rintro _ _ (⟨second, takes, -, rfl⟩ | ⟨_, _, wrong, -⟩)
              · refine (accounts_ask _ _).bind ?_ ?_
                · rintro _ _ ⟨rfl, third, same⟩
                  cases same
                  refine Accounts.after (turns_release mdCtx .digestContext _)
                    (Accounts.after (turns_release key .key own) (accounts_pure _ ⟨rfl, fun like => ?_⟩))
                  have verifies := like.verifyFinal first second third publicKey
                    (signedBytes platform.order transaction) transaction.senderSignature
                  rw [if_pos ⟨starts, takes⟩] at verifies
                  simp [LeoCoin.transactionVerifySignature, known like, verifies]
                · rintro _ _ ⟨-, _, wrong⟩
                  cases wrong
              · cases wrong
            · rintro failure _ (⟨_, _, wrong, -⟩ | ⟨second, refused, same, rfl⟩)
              · cases wrong
              · cases same
                exact ⟨rfl, fun like => fails like fun both : 0 < engine.verifyInit first ∧ _ => refused both.2⟩
          · cases wrong
        · rintro failure _ (⟨_, _, wrong, -⟩ | ⟨first, refused, same, rfl⟩)
          · cases wrong
          · cases same
            exact ⟨rfl, fun like => fails like fun both : _ ∧ 0 < engine.verifyUpdate 0 _ => refused both.1⟩
      · cases wrong
    · rintro failure _ (⟨_, wrong, -⟩ | ⟨call, refused, same, rfl⟩)
      · cases wrong
      · cases same
        exact ⟨rfl, fun like => by simp [like.mdCtxNew] at refused⟩
  · simp [like.bioNewMemBuf] at refused
  · rw [like.readPublicKey] at refused
    simp [LeoCoin.transactionVerifySignature, refused]

/-- The updates of a context that is there, by induction on what they hand over. -/
theorem accounts_updateAll (address : Nat) (parts : List (List UInt8)) (own : Objects) :
    Accounts objects (fun _ => True) own (fun _ => updateAll engine (some address) parts) fun result owned =>
      owned = own ∧ result = .ok () := by
  induction parts with
  | nil => exact accounts_pure _ ⟨rfl, rfl⟩
  | cons part rest ih =>
    refine (accounts_askOf address _ own).bind ?_ ?_
    · rintro _ _ ⟨rfl, -⟩
      exact ih
    · rintro _ _ ⟨-, _, wrong⟩
      cases wrong

theorem hashedParts_flatten (platform : Platform PKey) (block : Block) :
    platform.sha256 (hashedParts platform.order block).flatten = LeoCoin.blockHash platform block := by
  simp [hashedParts, LeoCoin.blockHash, List.flatMap_def]

/-- `block_hash` is given no context. -/
def HashContextRefused (engine : Engine PKey SKey) : Prop := ∃ call, engine.hashCtxNew call = false

theorem unless_blockHash (block : Block) (hash : Sha256) (own : Objects) :
    AccountsUnless objects (fun _ => True) own (HashContextRefused engine)
      (fun _ => blockHash platform engine block hash)
      (Settled platform engine own (.ok (LeoCoin.blockHash platform block))) := by
  refine unless_makeUnchecked (fun address => ?_) fun crypto => rfl
  refine (accounts_askOf address _ _).bind ?_ fun _ _ ⟨_, _, wrong⟩ => by cases wrong
  rintro _ _ ⟨rfl, -⟩
  refine (accounts_updateAll address _ _).bind ?_ fun _ _ ⟨_, wrong⟩ => by cases wrong
  rintro _ _ ⟨rfl, -⟩
  refine (accounts_askOf address _ _).bind ?_ fun _ _ ⟨_, _, wrong⟩ => by cases wrong
  rintro _ _ ⟨rfl, call, same⟩
  cases same
  refine Accounts.after (turns_release address .digestContext own) (accounts_pure _ ⟨rfl, fun like => ?_⟩)
  rw [like.digestFinal, Option.getD_some, hashedParts_flatten]

/-- Induction on the transactions; the loop ends at the first one that is not signed. -/
theorem accounts_verifySignatures (transactions : List Transaction) (own : Objects) :
    Accounts objects (fun _ => True) own (fun _ => verifySignatures platform engine transactions)
      (Settled platform engine own (LeoCoin.verifySignatures platform transactions)) := by
  induction transactions with
  | nil => exact accounts_pure _ ⟨rfl, fun _ => rfl⟩
  | cons transaction rest ih =>
    refine (accounts_transactionVerifySignature transaction own).bind ?_ ?_
    · rintro isValidSignature _ ⟨rfl, same⟩
      cases isValidSignature with
      | true =>
        refine ih.mono ?_
        rintro result _ ⟨rfl, agrees⟩
        exact ⟨rfl, fun like => by rw [agrees like, LeoCoin.verifySignatures, ← same like]⟩
      | false => exact accounts_pure _ ⟨rfl, fun like => by rw [LeoCoin.verifySignatures, ← same like]⟩
    · rintro failure _ ⟨rfl, same⟩
      exact ⟨rfl, fun like => by rw [LeoCoin.verifySignatures, ← same like]⟩

/-- What a round of the block loop comes to, where it may fail. -/
def verdictOf : BlockVerdict → Except Failure BlockVerdict
  | .failed code => .error code
  | verdict => .ok verdict

theorem unless_verifyBlock (numLeadingZeroBytes : UInt64) (previousBlockHash : Sha256) (currentBlock : Block)
    (own : Objects) :
    AccountsUnless objects (fun _ => True) own (HashContextRefused engine)
      (fun _ => verifyBlock platform engine numLeadingZeroBytes previousBlockHash currentBlock)
      (Settled platform engine own
        (verdictOf (LeoCoin.verifyBlock platform numLeadingZeroBytes previousBlockHash currentBlock))) := by
  refine (unless_blockHash currentBlock Sha256.zero own).bind ?_ ?_
  · rintro currentBlockHash _ ⟨rfl, hashed⟩
    have known (like : engine.Like platform) : LeoCoin.blockHash platform currentBlock = currentBlockHash :=
      (Except.ok.inj (hashed like)).symm
    refine Accounts.unless ?_
    -- the checks before the signatures call nothing
    split
    next differs =>
      exact accounts_pure _ ⟨rfl, fun like => by simp [LeoCoin.verifyBlock, known like, differs, verdictOf]⟩
    next starts =>
      split
      next differs =>
        exact accounts_pure _ ⟨rfl, fun like => by simp [LeoCoin.verifyBlock, known like, starts, differs, verdictOf]⟩
      next follows =>
        cases transactions : currentBlock.transactionList with
        | nil =>
          exact accounts_pure _ ⟨rfl, fun like => by
            simp [LeoCoin.verifyBlock, known like, starts, follows, transactions, verdictOf]⟩
        | cons mintingTransaction others =>
          dsimp only
          split
          next wrong =>
            exact accounts_pure _ ⟨rfl, fun like => by
              simp [LeoCoin.verifyBlock, known like, starts, follows, transactions, wrong, verdictOf]⟩
          next minted =>
            refine (accounts_verifySignatures (mintingTransaction :: others) _).bind ?_ ?_
            · rintro valid _ ⟨rfl, same⟩
              refine accounts_pure _ ⟨rfl, fun like => ?_⟩
              cases valid <;>
                simp [LeoCoin.verifyBlock, known like, starts, follows, transactions, minted, ← same like, verdictOf]
            · rintro failure _ ⟨rfl, same⟩
              exact ⟨rfl, fun like => by
                simp [LeoCoin.verifyBlock, known like, starts, follows, transactions, minted, ← same like, verdictOf]⟩
  · rintro failure _ ⟨rfl, hashed⟩
    exact ⟨rfl, fun like => absurd (hashed like) (by simp)⟩

/-- What `blockchain_verify` leaves behind, where it may fail. -/
def Verified (platform : Platform PKey) (engine : Engine PKey SKey) (own : Objects) (expected : Verification)
    (result : Except Failure Verification) (owned : Objects) : Prop :=
  owned = own ∧ (engine.Like platform → expected = match result with
    | .ok verification => verification
    | .error code => ⟨code.val, none, none⟩)

/-- Induction on the blocks that are left. -/
theorem unless_verifyBlocks (numLeadingZeroBytes : UInt64) (previousBlockHash : Sha256) (index : Nat)
    (blocks : List Block) (own : Objects) :
    AccountsUnless objects (fun _ => True) own (HashContextRefused engine)
      (fun _ => verifyBlocks platform engine numLeadingZeroBytes previousBlockHash index blocks)
      (Verified platform engine own
        (LeoCoin.verifyBlocks platform numLeadingZeroBytes previousBlockHash index blocks)) := by
  induction blocks generalizing previousBlockHash index with
  | nil => exact (accounts_pure _ ⟨rfl, fun _ => rfl⟩).unless
  | cons currentBlock rest ih =>
    refine (unless_verifyBlock numLeadingZeroBytes previousBlockHash currentBlock own).bind ?_ ?_
    · rintro verdict _ ⟨rfl, same⟩
      have known (like : engine.Like platform) :
          LeoCoin.verifyBlock platform numLeadingZeroBytes previousBlockHash currentBlock = verdict := by
        have agrees := same like
        generalize LeoCoin.verifyBlock platform numLeadingZeroBytes previousBlockHash currentBlock = expected at agrees
        cases expected <;> simp [verdictOf] at agrees <;> exact agrees.symm
      cases verdict with
      | failed code => exact (accounts_fail _ ⟨rfl, fun like => by rw [LeoCoin.verifyBlocks, known like]⟩).unless
      | invalid reported => exact (accounts_pure _ ⟨rfl, fun like => by rw [LeoCoin.verifyBlocks, known like]⟩).unless
      | valid currentBlockHash =>
        refine (ih currentBlockHash (index + 1)).mono ?_
        rintro result _ ⟨rfl, agrees⟩
        exact ⟨rfl, fun like => by rw [LeoCoin.verifyBlocks, known like]; exact agrees like⟩
    · rintro failure _ ⟨rfl, same⟩
      refine ⟨rfl, fun like => ?_⟩
      have agrees := same like
      rw [LeoCoin.verifyBlocks]
      generalize LeoCoin.verifyBlock platform numLeadingZeroBytes previousBlockHash currentBlock = expected at agrees
      cases expected <;> simp [verdictOf] at agrees
      simp [agrees]

theorem unless_blockchainVerify (blockchain : Blockchain) (own : Objects) :
    AccountsUnless objects (fun _ => True) own (HashContextRefused engine)
      (fun _ => blockchainVerify platform engine blockchain)
      (Verified platform engine own (LeoCoin.blockchainVerify platform blockchain)) := by
  rw [blockchainVerify, LeoCoin.blockchainVerify]
  cases blockchain.blockList with
  | nil => exact (accounts_pure _ ⟨rfl, fun _ => rfl⟩).unless
  | cons genesisBlock rest =>
    dsimp only
    split
    next => exact (accounts_pure _ ⟨rfl, fun _ => rfl⟩).unless
    next =>
      refine (unless_blockHash genesisBlock Sha256.zero own).bind ?_ ?_
      · rintro previousBlockHash _ ⟨rfl, hashed⟩
        refine (unless_verifyBlocks _ previousBlockHash _ _ _).mono ?_
        rintro result _ ⟨rfl, agrees⟩
        refine ⟨rfl, fun like => ?_⟩
        obtain rfl : previousBlockHash = LeoCoin.blockHash platform genesisBlock := Except.ok.inj (hashed like)
        exact agrees like
      · rintro failure _ ⟨rfl, hashed⟩
        exact ⟨rfl, fun like => absurd (hashed like) (by simp)⟩

/-- `blockchain_verify` frees every object of OpenSSL that it makes, once, whatever OpenSSL answers,
unless it uses the context that `block_hash` was not given; and its verdict is that of the platform
where OpenSSL answers like that. -/
theorem verified_chain_leaves_no_objects (platform : Platform PKey) (engine : Engine PKey SKey)
    (blockchain : Blockchain) (crypto : Crypto) :
    (∃ result after, Yields (fun _ => blockchainVerify platform engine blockchain) crypto result after ∧
        after.objects.cells = crypto.objects.cells ∧
        (engine.Like platform → LeoCoin.blockchainVerify platform blockchain = match result with
          | .ok verification => verification
          | .error code => ⟨code.val, none, none⟩)) ∨
      HashContextRefused engine ∧ blockchainVerify platform engine blockchain crypto = .undefined := by
  have verifies : AccountsUnless objects (fun _ => True) 0 (HashContextRefused engine)
      (fun _ => blockchainVerify platform engine blockchain) _ :=
    unless_blockchainVerify blockchain 0
  obtain ⟨result, after, _, yields, ⟨rfl, agrees⟩, parts⟩ | ⟨refused, enough, settled⟩ :=
    verifies crypto _ trivial (zero_add _).symm
  · exact .inl ⟨result, after, yields, parts.trans (zero_add _), agrees⟩
  · exact .inr ⟨refused, settled enough (Nat.le_refl _)⟩

end Verifying

/-! ## Signing -/

section Signing

variable {PKey SKey : Type} {engine : Engine PKey SKey} {order : ByteOrder} {signature : SshSignature}
  {transaction : Transaction}

/-- The program ends, and leaves what is given. -/
def Leaves {β : Type} (program : CryptoProgram β) (crypto : Crypto) (own : Objects) : Prop :=
  ∃ result after, program crypto = .done (result, after) ∧ after.objects.cells = own

/-- The key is read and is not one for RSA. -/
def OtherKind (engine : Engine PKey SKey) (senderPrivateKey : SshKey) (calls : Nat) : Prop :=
  engine.bioNewMemBuf calls = true ∧
    ∃ privateKey, engine.readPrivateKey (calls + 1) senderPrivateKey = some privateKey ∧ engine.isRsa privateKey = false

/-- Everything succeeds, and the signature is longer than the 512 bytes there are. -/
def TooLong (engine : Engine PKey SKey) (order : ByteOrder) (transaction : Transaction) (privateKey : SKey)
    (calls : Nat) : Prop :=
  engine.mdCtxNew calls = true ∧ 0 < engine.digestSignInit (calls + 1) privateKey ∧
    0 < engine.digestSignUpdate (calls + 2) (signedBytes order transaction) ∧ 0 < engine.digestSignLength (calls + 3) ∧
    ∃ written, engine.digestSignFinal (calls + 4) privateKey (signedBytes order transaction) = some written ∧
      512 < written.length

/-- The key is read and is one for RSA with which the signature is too long. -/
def Overruns (engine : Engine PKey SKey) (order : ByteOrder) (transaction : Transaction) (senderPrivateKey : SshKey)
    (calls : Nat) : Prop :=
  engine.bioNewMemBuf calls = true ∧
    ∃ privateKey, engine.readPrivateKey (calls + 1) senderPrivateKey = some privateKey ∧
      engine.isRsa privateKey = true ∧ TooLong engine order transaction privateKey (calls + 2)

/-- The BIO is freed, and then again. -/
theorem frees_twice {senderPrivateKey : SshKey} {crypto : Crypto}
    (other : OtherKind engine senderPrivateKey crypto.calls) :
    transactionGenerateSignature engine order signature transaction senderPrivateKey crypto = .undefined := by
  obtain ⟨made, privateKey, read, kind⟩ := other
  -- what is there once both objects are made
  let both := (crypto.objects.allocate .bio).allocate .key
  have bioThere : both.Live crypto.objects.fresh :=
    ⟨.bio, by rw [Store.allocate_object_of_live ⟨_, Store.allocate_object_fresh _ _⟩, Store.allocate_object_fresh]⟩
  obtain ⟨left, released, gone, others, -⟩ := Store.release_of_live bioThere
  have keyThere : left.Live (crypto.objects.allocate .bio).fresh :=
    ⟨.key, by rw [others _ (by simp [Store.allocate]), Store.allocate_object_fresh]⟩
  obtain ⟨rest, releasedToo, -, same, -⟩ := Store.release_of_live keyThere
  have nothing : rest.release crypto.objects.fresh = none := by
    have absent : rest.object crypto.objects.fresh = none := by rw [same _ (by simp [Store.allocate]), gone]
    simp [Store.release, absent]
  have released : ((crypto.objects.allocate .bio).allocate .key).release crypto.objects.fresh = some left := released
  simp [transactionGenerateSignature, bind_apply, pure_apply, further, make, readKey, release, update, present,
    Imperative.otherwise, require, fail, made, read, kind, released, releasedToo, nothing]

/-- The BIO is freed, and with the key it goes on. -/
theorem transactionGenerateSignature_rsa {senderPrivateKey : SshKey} {crypto : Crypto} {privateKey : SKey}
    (made : engine.bioNewMemBuf crypto.calls = true)
    (read : engine.readPrivateKey (crypto.calls + 1) senderPrivateKey = some privateKey)
    (kind : engine.isRsa privateKey = true) :
    ∃ key left, left.cells = (key, .key) ::ₘ crypto.objects.cells ∧
      transactionGenerateSignature engine order signature transaction senderPrivateKey crypto =
        signWith engine order signature transaction (key, privateKey) ⟨left, crypto.calls + 2⟩ := by
  have bothThere : ((crypto.objects.allocate .bio).allocate .key).cells =
      (crypto.objects.fresh, .bio) ::ₘ ((crypto.objects.allocate .bio).fresh, .key) ::ₘ crypto.objects.cells := by
    rw [Store.cells_allocate, Store.cells_allocate, Multiset.cons_swap]
  obtain ⟨left, released, now⟩ := Store.release_of_cells bothThere
  refine ⟨_, left, now, ?_⟩
  simp [transactionGenerateSignature, bind_apply, pure_apply, further, make, readKey, release, update, present,
    Imperative.otherwise, require, made, read, kind, released]

section Leaving

variable {β γ : Type} {key mdCtx : Nat} {crypto next : Crypto} {own : Objects}

theorem Leaves.of_done {value : γ} {first : CryptoProgram γ} {rest : γ → CryptoProgram β}
    (ends : first crypto = .done (.ok value, next)) (later : Leaves (rest value) next own) :
    Leaves (first >>= rest) crypto own := by
  obtain ⟨result, after, finishes, left⟩ := later
  exact ⟨result, after, by simp [bind_apply, further, ends, finishes], left⟩

theorem releaseBoth_leaves (crypto : Crypto)
    (there : crypto.objects.cells = (mdCtx, .digestContext) ::ₘ (key, .key) ::ₘ own) :
    ∃ after, releaseBoth key mdCtx crypto = .done (.ok (), after) ∧ after.objects.cells = own := by
  obtain ⟨after, ⟨enough, settled⟩, -, parts⟩ :=
    turns_releaseBoth key mdCtx own crypto 0 (there.trans (add_zero _).symm)
  exact ⟨after, settled enough (Nat.le_refl _), parts.trans (add_zero _)⟩

/-- A call that needs both: it succeeds and leaves them there, or they are freed. -/
theorem Leaves.positive {answer : Nat → Int} {rest : Unit → CryptoProgram β}
    (there : crypto.objects.cells = (mdCtx, .digestContext) ::ₘ (key, .key) ::ₘ own)
    (continues : 0 < answer crypto.calls → Leaves (rest ()) { crypto with calls := crypto.calls + 1 } own) :
    Leaves ((positive answer).otherwise (releaseBoth key mdCtx) >>= rest) crypto own := by
  by_cases succeeds : 0 < answer crypto.calls
  · obtain ⟨result, after, ends, left⟩ := continues succeeds
    refine ⟨result, after, ?_, left⟩
    simp [bind_apply, pure_apply, further, Imperative.otherwise, Openssl.positive, ask, require, succeeds, ends]
  · obtain ⟨after, released, left⟩ :=
      releaseBoth_leaves { crypto with calls := crypto.calls + 1 } there
    refine ⟨.error .opensslFunction, after, ?_, left⟩
    simp [bind_apply, further, Imperative.otherwise, Openssl.positive, ask, require, fail, succeeds, released]

end Leaving

/-- Nothing is written behind the signature exactly where it is not too long. -/
theorem signWith_leaves_iff {key : Nat} {privateKey : SKey} {crypto : Crypto} {own : Objects}
    (there : crypto.objects.cells = (key, .key) ::ₘ own) :
    Leaves (signWith engine order signature transaction (key, privateKey)) crypto own ↔
      ¬ TooLong engine order transaction privateKey crypto.calls := by
  constructor
  · rintro ⟨result, after, ends, -⟩ ⟨made, starts, takes, measures, written, signs, long⟩
    have overrun : ¬ written.length ≤ 512 := by omega
    simp [signWith, bind_apply, pure_apply, further, make, positive, ask, require, present, fetch,
      Imperative.otherwise, made, starts, takes, measures, signs, overrun] at ends
  · intro fits
    cases made : engine.mdCtxNew crypto.calls with
    | false =>
      obtain ⟨left, released, now⟩ := Store.release_of_cells there
      refine ⟨.error .opensslFunction, ⟨left, crypto.calls + 1⟩, ?_, now⟩
      simp [signWith, bind_apply, further, make, release, update, Imperative.otherwise, made, released]
    | true =>
      have both : (crypto.objects.allocate .digestContext).cells =
          (crypto.objects.fresh, .digestContext) ::ₘ (key, .key) ::ₘ own := by
        rw [Store.cells_allocate, there]
      have makes : ((make .digestContext engine.mdCtxNew).otherwise (release key)) crypto =
          .done (.ok crypto.objects.fresh, ⟨crypto.objects.allocate .digestContext, crypto.calls + 1⟩) := by
        simp [make, made, Imperative.otherwise]
      refine Leaves.of_done makes ?_
      refine Leaves.positive both fun starts => ?_
      refine Leaves.positive both fun takes => ?_
      refine Leaves.positive both fun measures => ?_
      refine Leaves.of_done rfl ?_
      cases signs : engine.digestSignFinal (crypto.calls + 4) privateKey (signedBytes order transaction) with
      | none =>
        obtain ⟨after, released, left⟩ :=
          releaseBoth_leaves ⟨crypto.objects.allocate .digestContext, crypto.calls + 5⟩ both
        refine ⟨.error .opensslFunction, after, ?_, left⟩
        simp [bind_apply, further, Imperative.otherwise, present, fail, signs, released]
      | some written =>
        have short : written.length ≤ 512 := by
          by_contra long
          exact fits ⟨made, starts, takes, measures, written, signs, by omega⟩
        rw [Multiset.cons_swap] at both
        obtain ⟨without, released, left⟩ := Store.release_of_cells both
        obtain ⟨after, releasedToo, left⟩ := Store.release_of_cells left
        refine ⟨.ok (filled signature written), ⟨after, crypto.calls + 5⟩, ?_, left⟩
        simp [bind_apply, pure_apply, further, Imperative.otherwise, present, fetch, release, update, signs, short,
          released, releasedToo]

/-- `transaction_generate_signature` frees every object that it makes, once, exactly where it does
not come to read a key of another kind than RSA, and is not given a signature that is longer than
what it has room for. -/
theorem signing_leaves_no_objects_iff (engine : Engine PKey SKey) (order : ByteOrder) (signature : SshSignature)
    (transaction : Transaction) (senderPrivateKey : SshKey) (crypto : Crypto) :
    (∃ result after, Yields
        (fun _ => transactionGenerateSignature engine order signature transaction senderPrivateKey) crypto result
        after ∧ after.objects.cells = crypto.objects.cells) ↔
      ¬ OtherKind engine senderPrivateKey crypto.calls ∧
        ¬ Overruns engine order transaction senderPrivateKey crypto.calls := by
  have ends : (∃ result after, Yields
      (fun _ => transactionGenerateSignature engine order signature transaction senderPrivateKey) crypto result after ∧
      after.objects.cells = crypto.objects.cells) ↔
        Leaves (transactionGenerateSignature engine order signature transaction senderPrivateKey) crypto
          crypto.objects.cells := by
    constructor
    · rintro ⟨result, after, ⟨enough, settled⟩, same⟩
      exact ⟨result, after, settled enough (Nat.le_refl _), same⟩
    · rintro ⟨result, after, same, left⟩
      exact ⟨result, after, .of_eq fun _ => same, left⟩
  rw [ends]
  constructor
  · intro leaves
    have other : ¬ OtherKind engine senderPrivateKey crypto.calls := by
      intro other
      obtain ⟨result, after, ended, -⟩ := leaves
      rw [frees_twice other] at ended
      cases ended
    refine ⟨other, ?_⟩
    rintro ⟨made, privateKey, read, kind, long⟩
    obtain ⟨key, left, now, goesOn⟩ := transactionGenerateSignature_rsa made read kind
    rw [Leaves, goesOn] at leaves
    exact (signWith_leaves_iff now).mp leaves long
  · rintro ⟨rsa, fits⟩
    cases made : engine.bioNewMemBuf crypto.calls with
    | false =>
      exact ⟨.error .opensslFunction, { crypto with calls := crypto.calls + 1 },
        by simp [transactionGenerateSignature, bind_apply, further, make, made], rfl⟩
    | true =>
      cases read : engine.readPrivateKey (crypto.calls + 1) senderPrivateKey with
      | none =>
        obtain ⟨left, released, now⟩ := Store.release_of_cells (Store.cells_allocate crypto.objects .bio)
        refine ⟨.error .opensslFunction, ⟨left, crypto.calls + 2⟩, ?_, now⟩
        simp [transactionGenerateSignature, bind_apply, further, make, readKey, release, update, present, fail, made,
          read, released]
      | some privateKey =>
        have kind : engine.isRsa privateKey = true := by
          by_contra other
          exact rsa ⟨made, privateKey, read, by simpa using other⟩
        obtain ⟨key, left, now, goesOn⟩ := transactionGenerateSignature_rsa made read kind
        rw [Leaves, goesOn]
        exact (signWith_leaves_iff now).mpr fun long => fits ⟨made, privateKey, read, kind, long⟩

end Signing

end Openssl

end LeoCoin
