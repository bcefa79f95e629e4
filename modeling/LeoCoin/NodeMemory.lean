import LeoCoin.Library.Transition
import LeoCoin.ChainDecoding
import LeoCoin.ChainFile
import LeoCoin.ChainReading

/-! # The memory of a node

Chains come into the memory of a node when they are decoded, they grow when the miner adds a
block, and they go when they are destroyed.  Whatever the order of all that, memory holds the
chains that are still held, a transaction for each time that signing failed, and a buffer for each
time that a mined chain could not be saved.
-/

namespace LeoCoin

open Library.Decoding Library.Heap Library.Programs Library.Owning Library.Transition

namespace ChainMemory

open Imperative

/-! ## One round of the miner -/

/-- How `transaction_generate_signature` has ended.  It breaks where it frees a key of another kind once
more, or writes a signature that is longer than its array. -/
inductive Signing where
  | signs (transaction : Transaction)
  | fails (failure : Failure)
  | breaks

def Signing.signed : Signing → Bool
  | .signs _ => true
  | .fails _ => false
  | .breaks => false

/-- `transaction_create`.  It does not free what it has allocated where it cannot sign. -/
def transactionCreate (input : Input) (created : Signing) : MemoryProgram Nat := do
  let newTransaction ← malloc input 8728
  match created with
  | .breaks => fetch fun _ => none
  | .fails failure => fail failure
  | .signs transaction =>
    store newTransaction (.transaction transaction)
    return newTransaction

/-- `linked_list_prepend` -/
def linkedListPrepend (input : Input) (linkedList data : Nat) : MemoryProgram Unit := do
  let granted ← answer input ListHeap.nodeSize
  onLists (ListHeap.prepend (some linkedList) (some data) granted)

/-- `block->proof_of_work = new_proof` -/
def setProofOfWork (block : Nat) (newProof : UInt64) : MemoryProgram Unit :=
  update fun process => do
    match ← process.objects.object block with
    | .block createdAt transactionList _ previousBlockHash =>
      let objects ← process.objects.write block (.block createdAt transactionList newProof previousBlockHash)
      return { process with objects }
    | _ => none

/-- How the search for a proof of work has ended: the last one that was tried, 0 before the first,
and the return code where that is not `SUCCESS`. -/
structure Search where
  newProof : UInt64
  failure : Option Failure

/-- `synchronized_blockchain_mine_block` -/
def synchronizedBlockchainMineBlock (block : Nat) (search : Search) : MemoryProgram Unit := do
  setProofOfWork block search.newProof
  match search.failure with
  | some failure => fail failure
  | none => pure ()

/-- `blockchain_write_to_file`; what comes into the file is said in `LeoCoin.blockchainWriteToFile`. -/
def blockchainWriteToFile (order : ByteOrder) (environment : WriteEnvironment) (blockchain rounds : Nat) :
    MemoryProgram Unit := do
  let written ← blockchainSerialize environment.grants order blockchain rounds
  -- the buffer is not freed where the file cannot be opened
  require environment.opens .fileIo
  free written.address
  require (min environment.takes written.buffer.size.toNat == written.buffer.size.toNat) .fileIo

/-- A round of `mine_blocks`, from the list of its transaction to the block on the chain. -/
def mineNextBlock (input : Input) (now : Int64) (created : Signing) (previousBlockHash : Sha256) (search : Search)
    (blockchain rounds : Nat) : MemoryProgram Unit := do
  let transactionList ← linkedListCreate input
  let mintCoinTransaction ← (transactionCreate input created).otherwise
    (linkedListDestroy free transactionList rounds).attempt
  (linkedListPrepend input transactionList mintCoinTransaction).otherwise (do
    (transactionDestroy mintCoinTransaction).attempt
    (linkedListDestroy free transactionList rounds).attempt)
  let nextBlock ← (blockCreate input now transactionList 0 previousBlockHash).otherwise
    (linkedListDestroy free transactionList rounds).attempt
  (synchronizedBlockchainMineBlock nextBlock search).otherwise (blockDestroy rounds nextBlock).attempt
  (blockchainAddBlock input blockchain nextBlock rounds).otherwise (blockDestroy rounds nextBlock).attempt

/-- The chain is written to the file that there may be, and nobody looks at how that ends. -/
def saveChain (order : ByteOrder) (outfile : Option WriteEnvironment) (blockchain rounds : Nat) : MemoryProgram Unit :=
  match outfile with
  | none => pure ()
  | some environment => (blockchainWriteToFile order environment blockchain rounds).attempt

/-- What a round of `mine_blocks` allocates, writes and frees, behind the hash of the last block. -/
def mineRound (order : ByteOrder) (outfile : Option WriteEnvironment) (input : Input) (now : Int64) (created : Signing)
    (previousBlockHash : Sha256) (search : Search) (blockchain rounds : Nat) : MemoryProgram Unit := do
  mineNextBlock input now created previousBlockHash search blockchain rounds
  saveChain order outfile blockchain rounds

/-- The block is added to the chain, if it was found. -/
def describeSearch (search : Search) (blockchain : Blockchain) (block : Block) : Decoder Failure Blockchain :=
  match search.failure with
  | some failure => .reject failure
  | none => storeBlock blockchain block

/-- What is done with a transaction. -/
def describeBlock (now : Int64) (mintCoinTransaction : Transaction) (previousBlockHash : Sha256) (search : Search)
    (blockchain : Blockchain) : Decoder Failure Blockchain := do
  Decoder.allocate 16
  Decoder.allocate 56
  describeSearch search blockchain (LeoCoin.blockCreate now [mintCoinTransaction] search.newProof previousBlockHash)

def describeSigning (input : Input) (now : Int64) (created : Signing) (previousBlockHash : Sha256) (search : Search)
    (blockchain : Blockchain) : Description Cursor Failure Blockchain :=
  match created with
  | .breaks => .undefined
  | .fails failure => .fail failure
  | .signs mintCoinTransaction =>
    described input (describeBlock now mintCoinTransaction previousBlockHash search blockchain)

/-- The round as allocations, and the chain that it leaves. -/
def describeRound (input : Input) (now : Int64) (created : Signing) (previousBlockHash : Sha256) (search : Search)
    (blockchain : Blockchain) : Description Cursor Failure Blockchain :=
  (described input (Decoder.allocate 24)).bind fun _ =>
    (described input (Decoder.allocate 8728)).bind fun _ =>
      describeSigning input now created previousBlockHash search blockchain

section Round

variable {input : Input} {used : Nat} {now : Int64} {created : Signing} {previousBlockHash : Sha256}
  {search : Search}

@[simp] theorem described_reject {α : Type} (input : Input) (failure : Failure) :
    described input (Decoder.reject failure : Decoder Failure α) = Description.fail failure :=
  funext fun cursor => described_of_guarded (Decoder.guarded_reject failure) input cursor

/-- A transaction that could not be signed stays where it was allocated. -/
def Unsigned (own lost : Pieces) : Prop := ∃ transaction, lost = objectPiece transaction (.raw 8728) + own

theorem realizes_transactionCreate_signed (mint : Transaction) (own : Pieces) :
    Realizes (outlook input used) (described input (Decoder.allocate 8728))
      (fun _ => transactionCreate input (.signs mint)) own
      (fun _ transaction owned => owned = objectPiece transaction (.transaction mint) + own) (· = own) := by
  rw [← Description.bind_done (described input _)]
  refine (realizes_malloc 8728 own).bind ?_
  rintro _ transaction _ rfl
  refine Realizes.step ((turns_store transaction (.raw 8728) (.transaction mint)).beside own)
    (Affordable.mono (by simp [weight_add, Object.size])) ?_
  exact realizes_pure _ _ _ rfl

theorem realizes_transactionCreate_unsigned {α : Type} (failure : Failure) (own : Pieces)
    (left : α → Nat → Pieces → Prop) :
    Realizes (outlook input used) ((described input (Decoder.allocate 8728)).bind fun _ => Description.fail failure)
      (fun _ => transactionCreate input (.fails failure)) own left (fun lost => lost = own ∨ Unsigned own lost) := by
  refine ((realizes_malloc 8728 own).loosen fun _ same => .inl same).bind ?_
  rintro _ transaction _ rfl
  exact realizes_fail failure left (.inr ⟨transaction, rfl⟩)

theorem realizes_transactionCreate_breaks {α : Type} (own : Pieces) (left : α → Nat → Pieces → Prop) :
    Realizes (outlook input used) ((described input (Decoder.allocate 8728)).bind fun _ => Description.undefined)
      (fun _ => transactionCreate input .breaks) own left (· = own) :=
  (realizes_malloc 8728 own).bind fun _ _ _ _ => realizes_undefined (fun _ _ => rfl) left _

theorem realizes_linkedListPrepend (spacious : Spacious input used) (linkedList data : Nat) (value : Transaction)
    (entries : List (Entry Transaction)) :
    Realizes (outlook input used) (described input (Decoder.allocate 16))
      (fun _ => linkedListPrepend input linkedList data) (listPieces linkedList entries)
      (fun _ _ owned => ∃ node, owned = listPieces linkedList (⟨node, data, value⟩ :: entries))
      (· = listPieces linkedList entries) :=
  realizes_addNode spacious linkedList entries _ (fun _ => rfl)
    (fun _ _ _ lists _ => prepend_cells_refused lists data)
    fun _ _ _ lists nodes room => prepend_cells lists nodes data value room

theorem turns_setProofOfWork (block list : Nat) (createdAt : Int64) (was newProof : UInt64) (hash : Sha256) :
    Turns (outlook input used) (fun _ => setProofOfWork block newProof)
      (objectPiece block (.block createdAt list was hash)) ()
      (objectPiece block (.block createdAt list newProof hash)) := by
  refine turns_update fun process rest objects => ?_
  obtain ⟨after, wrote, now⟩ := Store.write_of_cells objects (.block createdAt list newProof hash)
  exact ⟨after, by simp [Store.object_of_cells objects, wrote], now.trans (Multiset.singleton_add _ _).symm⟩

/-- The list of a block that is not there yet, freed as `mine_blocks` frees it. -/
theorem turns_mintListDestroy (transactionList : Nat) (transactions : List (Entry Transaction)) :
    Turns (outlook input used) (fun rounds => (linkedListDestroy free transactionList rounds).attempt)
      (transactionListPieces transactionList transactions) () 0 :=
  (turns_linkedListDestroy transactionList transactions fun entry _ => turns_free entry.datum _).attempt

theorem turns_dropMint (transactionList transaction : Nat) (mint : Transaction) :
    Turns (outlook input used)
      (fun rounds => (transactionDestroy transaction).attempt >>= fun _ =>
        (linkedListDestroy free transactionList rounds).attempt)
      (objectPiece transaction (.transaction mint) + transactionListPieces transactionList []) () 0 :=
  ((turns_free transaction (.transaction mint)).attempt.within _ rfl (zero_add _).symm).bind
    (turns_mintListDestroy transactionList [])

/-- The search for a proof of work, and what is done with the block. -/
theorem realizes_minedBlock (spacious : Spacious input used) {placed : PlacedChain} {blockchain : Blockchain}
    (holds : placed.Holds blockchain) (nextBlock : Nat) (value : PlacedBlock) :
    Realizes (outlook input used)
      (described input
        (describeSearch search blockchain { value with proofOfWork := search.newProof : PlacedBlock }.block))
      (fun rounds =>
        (synchronizedBlockchainMineBlock nextBlock search).otherwise (blockDestroy rounds nextBlock).attempt >>=
        fun _ => (blockchainAddBlock input placed.address nextBlock rounds).otherwise
          (blockDestroy rounds nextBlock).attempt)
      (placed.pieces + blockPieces nextBlock value) (fun next _ owned => Building placed.address next owned)
      (· = placed.pieces) := by
  have sets : Turns (outlook input used) (fun _ => setProofOfWork nextBlock search.newProof)
      (placed.pieces + blockPieces nextBlock value) ()
      (placed.pieces + blockPieces nextBlock { value with proofOfWork := search.newProof }) := by
    have writes : Turns (outlook input used) _ _ _ _ := turns_setProofOfWork nextBlock value.transactionList
      value.createdAt value.proofOfWork search.newProof value.previousBlockHash
    refine writes.within (transactionListPieces value.transactionList value.transactions + placed.pieces) ?_ ?_ <;>
    · rw [blockPieces]
      abel
  have drops : Turns (outlook input used) (fun rounds => (blockDestroy rounds nextBlock).attempt)
      (placed.pieces + blockPieces nextBlock { value with proofOfWork := search.newProof }) () placed.pieces :=
    (turns_blockDestroy nextBlock _).attempt.within placed.pieces (add_comm _ _) (zero_add _).symm
  have cheap : weight (placed.pieces + blockPieces nextBlock { value with proofOfWork := search.newProof }) ≤
      weight (placed.pieces + blockPieces nextBlock value) := by
    simp [blockPieces, weight_add, Object.size]
  cases failed : search.failure with
  | some failure =>
    have fails : Realizes (outlook input used) (Description.fail failure)
        (fun _ => synchronizedBlockchainMineBlock nextBlock search) (placed.pieces + blockPieces nextBlock value)
        (fun (_ : Blockchain) _ _ => False)
        (· = placed.pieces + blockPieces nextBlock { value with proofOfWork := search.newProof }) := by
      simp only [synchronizedBlockchainMineBlock, failed]
      exact Realizes.step sets (Affordable.mono cheap) (realizes_fail failure _ rfl)
    simp only [describeSearch, failed]
    rw [described_reject, ← Description.fail_bind failure Description.done]
    exact (fails.cleared drops).bind fun _ _ _ => False.elim
  | none =>
    have finds : Turns (outlook input used) (fun _ => synchronizedBlockchainMineBlock nextBlock search)
        (placed.pieces + blockPieces nextBlock value) ()
        (placed.pieces + blockPieces nextBlock { value with proofOfWork := search.newProof }) := by
      simp only [synchronizedBlockchainMineBlock, failed]
      exact sets.bind (turns_pure () _)
    simp only [describeSearch, failed]
    exact Realizes.step finds.otherwise (Affordable.mono cheap) (realizes_storeBlock spacious holds nextBlock _ drops)

/-- What a round can leave of the chain where it fails. -/
def RoundLeaves (created : Signing) (own lost : Pieces) : Prop :=
  lost = own ∨ created.signed = false ∧ Unsigned own lost

theorem realizes_mineNextBlock (now : Int64) (created : Signing) (previousBlockHash : Sha256)
    (search : Search) (spacious : Spacious input used) (address : Nat) (blockchain : Blockchain) (owned : Pieces)
    (building : Building address blockchain owned) :
    Realizes (outlook input used) (describeRound input now created previousBlockHash search blockchain)
      (fun rounds => mineNextBlock input now created previousBlockHash search address rounds) owned
      (fun next _ owned => Building address next owned) (RoundLeaves created owned) := by
  obtain ⟨placed, rfl, holds, rfl⟩ := building
  have whole (lost : Pieces) (same : lost = placed.pieces) : RoundLeaves created placed.pieces lost := .inl same
  unfold describeRound
  refine ((realizes_linkedListCreate placed.pieces).loosen whole).bind ?_
  rintro _ transactionList _ rfl
  have emptyList : headerPiece transactionList none + placed.pieces =
      transactionListPieces transactionList [] + placed.pieces := by simp [transactionListPieces, listPieces]
  rw [emptyList]
  have dropsList (transactions : List (Entry Transaction)) (others : Pieces) : Turns (outlook input used) _ _ _ _ :=
    (turns_mintListDestroy transactionList transactions).within others rfl (zero_add _).symm
  cases created with
  | breaks =>
    unfold describeSigning
    rw [← Description.bind_done ((described input _).bind _)]
    have creates : Realizes (outlook input used) _ _ _ _ _ := realizes_transactionCreate_breaks
      (transactionListPieces transactionList [] + placed.pieces) fun (_ : Blockchain) _ _ => False
    exact ((creates.cleared (dropsList [] placed.pieces)).loosen whole).bind fun _ _ _ => False.elim
  | fails failure =>
    unfold describeSigning
    rw [← Description.bind_done ((described input _).bind _)]
    have creates : Realizes (outlook input used) _ _ _ _ _ := realizes_transactionCreate_unsigned failure
      (transactionListPieces transactionList [] + placed.pieces) fun (_ : Blockchain) _ _ => False
    have drops (lost : Pieces)
        (spills : lost = transactionListPieces transactionList [] + placed.pieces ∨
          Unsigned (transactionListPieces transactionList [] + placed.pieces) lost) :
        ∃ kept, RoundLeaves (.fails failure) placed.pieces kept ∧ Turns (outlook input used)
          (fun rounds => (linkedListDestroy free transactionList rounds).attempt) lost () kept := by
      rcases spills with rfl | ⟨transaction, rfl⟩
      · exact ⟨_, .inl rfl, dropsList [] placed.pieces⟩
      · refine ⟨_, .inr ⟨rfl, transaction, rfl⟩, ?_⟩
        rw [add_left_comm]
        exact dropsList [] _
    exact (creates.otherwise drops).bind fun _ _ _ => False.elim
  | signs mint =>
    unfold describeSigning describeBlock
    refine (((realizes_transactionCreate_signed mint _).cleared (dropsList [] placed.pieces)).loosen whole).bind ?_
    rintro _ transaction _ rfl
    simp only [described_bind]
    have split : objectPiece transaction (.transaction mint) +
          (transactionListPieces transactionList [] + placed.pieces) =
        listPieces transactionList ([] : List (Entry Transaction)) +
          (objectPiece transaction (.transaction mint) + placed.pieces) := by
      simp only [transactionListPieces, List.map_nil, List.sum_nil, add_zero]
      abel
    have prepends : Realizes (outlook input used) _ _ _ _ _ :=
      (realizes_linkedListPrepend spacious transactionList transaction mint []).within _ split split
    have dropsMint : Turns (outlook input used) _ _ _ _ :=
      (turns_dropMint transactionList transaction mint).within placed.pieces (add_assoc _ _ _).symm (zero_add _).symm
    refine ((prepends.cleared dropsMint).loosen whole).bind ?_
    rintro _ _ _ ⟨_, ⟨node, rfl⟩, rfl⟩
    have filled : listPieces transactionList [⟨node, transaction, mint⟩] +
          (objectPiece transaction (.transaction mint) + placed.pieces) =
        transactionListPieces transactionList [⟨node, transaction, mint⟩] + placed.pieces := by
      simp only [transactionListPieces, transactionPieces, List.map_singleton, List.sum_singleton]
      abel
    rw [filled]
    refine (((realizes_blockCreate transactionList 0 previousBlockHash _).cleared
      (dropsList _ placed.pieces)).loosen whole).bind ?_
    rintro _ nextBlock _ rfl
    have block : objectPiece nextBlock (.block now transactionList 0 previousBlockHash) +
          (transactionListPieces transactionList [⟨node, transaction, mint⟩] + placed.pieces) =
        placed.pieces + blockPieces nextBlock
          ⟨now, transactionList, [⟨node, transaction, mint⟩], 0, previousBlockHash⟩ := by
      rw [blockPieces]
      abel
    have mined : Realizes (outlook input used) (described input (describeSearch search blockchain _)) _ _ _ _ :=
      (realizes_minedBlock spacious holds nextBlock
        ⟨now, transactionList, [⟨node, transaction, mint⟩], 0, previousBlockHash⟩).loosen whole
    rw [block]
    exact mined

end Round

/-! ## What a round comes to -/

section Outcomes

variable {input : Input} {now : Int64} {created : Signing} {hash : Sha256} {search : Search} {blockchain : Blockchain}

theorem guarded_describeBlock (now : Int64) (mint : Transaction) (hash : Sha256) (search : Search)
    (blockchain : Blockchain) : (describeBlock now mint hash search blockchain).Guarded := by
  refine (Decoder.guarded_allocate 16).bind fun _ => (Decoder.guarded_allocate 56).bind fun _ => ?_
  rw [describeSearch]
  split
  · exact Decoder.guarded_reject _
  · refine (Decoder.guarded_allocate 16).bind fun _ => ?_
    split
    · exact Decoder.guarded_reject _
    · exact Decoder.guarded_done _

/-- The chain is the old one with the mined block. -/
theorem describeBlock_ok {mint : Transaction} {longer : Blockchain} {cursor reached : Cursor}
    (ran : (describeBlock now mint hash search blockchain).run input cursor = (.ok longer, reached)) :
    LeoCoin.blockchainAddBlock blockchain (LeoCoin.blockCreate now [mint] search.newProof hash) = .ok longer := by
  obtain ⟨_, _, -, ran⟩ := Decoder.run_bind_eq_ok.mp ran
  obtain ⟨_, _, -, ran⟩ := Decoder.run_bind_eq_ok.mp ran
  rw [describeSearch] at ran
  cases failed : search.failure with
  | some failure =>
    rw [failed] at ran
    cases ran
  | none =>
    rw [failed] at ran
    obtain ⟨_, _, -, ran⟩ := Decoder.run_bind_eq_ok.mp ran
    split at ran
    next => cases ran
    next added =>
      cases ran
      exact added

theorem described_allocate_bind {β : Type} (input : Input) (size : Nat) (further : Unit → Description Cursor Failure β)
    (cursor : Cursor) :
    (described input (Decoder.allocate size)).bind further cursor =
      if input.grants cursor.requests.length size then further () (cursor.record size)
      else .done (.error .couldNotMalloc, cursor.record size) := by
  rw [Description.bind, described_of_guarded (Decoder.guarded_allocate size), Decoder.run_allocate]
  cases input.grants cursor.requests.length size <;> rfl

/-- Only a signature that breaks has no meaning. -/
theorem describeRound_outcomes (input : Input) (now : Int64) (created : Signing) (hash : Sha256) (search : Search)
    (blockchain : Blockchain) (cursor : Cursor) :
    (created = .breaks ∧ describeRound input now created hash search blockchain cursor = .undefined) ∨
    (∃ failure reached,
      describeRound input now created hash search blockchain cursor = .done (.error failure, reached)) ∨
    ∃ mint longer reached, created = .signs mint ∧
      LeoCoin.blockchainAddBlock blockchain (LeoCoin.blockCreate now [mint] search.newProof hash) = .ok longer ∧
      describeRound input now created hash search blockchain cursor = .done (.ok longer, reached) := by
  rw [describeRound, described_allocate_bind]
  split
  next =>
    rw [described_allocate_bind]
    split
    next =>
      cases created with
      | breaks => exact .inl ⟨rfl, rfl⟩
      | fails failure => exact .inr (.inl ⟨failure, _, rfl⟩)
      | signs mint =>
        rw [describeSigning, described_of_guarded (guarded_describeBlock now mint hash search blockchain)]
        rcases ran : (describeBlock now mint hash search blockchain).run input ((cursor.record 24).record 8728) with
          ⟨fault | longer, reached⟩
        · exact .inr (.inl ⟨_, _, rfl⟩)
        · exact .inr (.inr ⟨mint, longer, reached, rfl, describeBlock_ok ran, rfl⟩)
    next => exact .inr (.inl ⟨_, _, rfl⟩)
  next => exact .inr (.inl ⟨_, _, rfl⟩)

/-- A round that is granted its memory and finds its block. -/
theorem describeRound_found {mint : Transaction} {longer : Blockchain}
    (grants : ∀ ordinal size, ordinal < 5 → size ≤ 8728 → input.grants ordinal size = true)
    (found : search.failure = none)
    (added : LeoCoin.blockchainAddBlock blockchain (LeoCoin.blockCreate now [mint] search.newProof hash) =
      .ok longer) :
    ∃ reached, describeRound input now (.signs mint) hash search blockchain ⟨0, []⟩ = .done (.ok longer, reached) := by
  have list : input.grants (⟨0, []⟩ : Cursor).requests.length 24 = true := grants 0 24 (by decide) (by decide)
  have mintCoin : input.grants ((⟨0, []⟩ : Cursor).record 24).requests.length 8728 = true :=
    grants 1 8728 (by decide) (by decide)
  rw [describeRound, described_allocate_bind, if_pos list, described_allocate_bind, if_pos mintCoin, describeSigning,
    described_of_guarded (guarded_describeBlock now mint hash search blockchain)]
  simp [describeBlock, describeSearch, storeBlock, Decoder.run_bind, Cursor.record, found, added,
    grants 2 16 (by decide) (by decide), grants 3 56 (by decide) (by decide), grants 4 16 (by decide) (by decide),
    Except.mapError]

end Outcomes

/-! ## Saving a mined chain -/

/-- Buffers, each with its size. -/
def bufferPieces (buffers : List (Nat × Nat)) : Pieces :=
  (buffers.map fun buffer => objectPiece buffer.1 (.raw buffer.2)).sum

/-- Nothing is left behind where the chain is saved. -/
def saves (order : ByteOrder) (environment : WriteEnvironment) (blockchain : Blockchain) : Bool :=
  (serializeInto environment.grants order blockchain ⟨[], 0, 0⟩).isOk && environment.opens

def savesTo (order : ByteOrder) (outfile : Option WriteEnvironment) (blockchain : Blockchain) : Bool :=
  outfile.all fun environment => saves order environment blockchain

/-- At most one object is left beside what was there, and none where everything went well. -/
def AtMostOne (clean : Bool) (own now : Pieces) : Prop :=
  ∃ buffers, buffers.length ≤ 1 ∧ (clean = true → buffers = []) ∧ now = bufferPieces buffers + own

theorem atMostOne_none (clean : Bool) (own : Pieces) : AtMostOne clean own own :=
  ⟨[], Nat.zero_le _, fun _ => rfl, by simp [bufferPieces]⟩

theorem atMostOne_one (address size : Nat) (own : Pieces) :
    AtMostOne false own (objectPiece address (.raw size) + own) :=
  ⟨[(address, size)], Nat.le_refl _, by simp, by simp [bufferPieces]⟩

theorem accounts_blockchainWriteToFile {order : ByteOrder} {environment : WriteEnvironment} {placed : PlacedChain}
    {blockchain : Blockchain} (holds : placed.Holds blockchain) :
    Accounts storage (fun _ => True) placed.pieces
      (fun rounds => blockchainWriteToFile order environment placed.address rounds)
      fun _ now => AtMostOne (saves order environment blockchain) placed.pieces now := by
  have serializes : Accounts storage (fun _ => True) placed.pieces
      (fun rounds => blockchainSerialize environment.grants order placed.address rounds) _ :=
    accounts_blockchainSerialize holds
  unfold blockchainWriteToFile saves
  cases serialized : serializeInto environment.grants order blockchain ⟨[], 0, 0⟩ with
  | error failure =>
    rw [serialized] at serializes
    refine serializes.bind ?_ ?_
    · rintro _ _ ⟨wrong, -⟩
      cases wrong
    · rintro _ _ ⟨-, lost, none | ⟨address, size, rfl⟩, rfl⟩
      · rw [none, zero_add]
        exact atMostOne_none _ _
      · exact atMostOne_one address size _
  | ok buffer =>
    rw [serialized] at serializes
    refine serializes.bind ?_ ?_
    · rintro written _ ⟨_, same, _, ⟨rfl, rfl⟩, rfl⟩
      cases same
      cases opens : environment.opens with
      | false => exact accounts_fail _ (atMostOne_one _ _ _)
      | true =>
        have frees : Turns storage (fun _ => free written.address)
            (objectPiece written.address (.raw written.buffer.size.toNat) + placed.pieces) () placed.pieces :=
          (turns_free written.address (.raw written.buffer.size.toNat)).within placed.pieces rfl (zero_add _).symm
        refine Accounts.after (turns_pure () _) (Accounts.after frees ?_)
        rw [require]
        split
        · exact accounts_pure () (atMostOne_none _ _)
        · exact accounts_fail _ (atMostOne_none _ _)
    · rintro _ _ ⟨_, wrong, -⟩
      cases wrong

/-- The chain stays as it is, whatever becomes of the file. -/
theorem accounts_saveChain {order : ByteOrder} {outfile : Option WriteEnvironment} {placed : PlacedChain}
    {blockchain : Blockchain} (holds : placed.Holds blockchain) :
    Accounts storage (fun _ => True) placed.pieces (fun rounds => saveChain order outfile placed.address rounds)
      fun result now => result = .ok () ∧ AtMostOne (savesTo order outfile blockchain) placed.pieces now := by
  cases outfile with
  | none => exact accounts_pure () ⟨rfl, atMostOne_none _ _⟩
  | some environment =>
    intro process frame light parts
    have writes : Accounts storage (fun _ => True) placed.pieces
        (fun rounds => blockchainWriteToFile order environment placed.address rounds) _ :=
      accounts_blockchainWriteToFile holds
    obtain ⟨result, after, owned, yields, left, now⟩ := writes process frame light parts
    exact ⟨.ok (), after, owned, yields.attempt, ⟨rfl, left⟩, now⟩

/-! ## Runs -/

/-- The memory of a node, and the chains that it has not destroyed with their addresses. -/
structure NodeMemory where
  process : Process
  held : List (Nat × Blockchain)

/-- A call counts its own allocations. -/
def NodeMemory.call (memory : NodeMemory) : Process := { memory.process with cursor := ⟨0, []⟩ }

theorem NodeMemory.call_begins (memory : NodeMemory) : memory.call.cursor = ⟨0, []⟩ := rfl

theorem NodeMemory.call_fine (input : Input) (memory : NodeMemory) :
    (outlook input (weight (pieces memory.process))).Fine memory.call :=
  have begins : (outlook input (weight (pieces memory.call))).Fine memory.call := fine_of_begins rfl
  begins

inductive MemoryAction where
  | decode
  | destroy
  /-- Whether the transaction was signed, and the chain saved where there is a file for it. -/
  | mine (clean : Bool)
deriving DecidableEq

/-- The calls of all threads, in any order: each of them works on chains that no other one has. -/
inductive MemoryStep (order : ByteOrder) : NodeMemory → MemoryAction → NodeMemory → Prop where
  | decodes {before : NodeMemory} {input : Input} {now : Int64} {address : Nat} {blockchain : Blockchain}
      {after : Process} :
      Spacious input (weight (pieces before.process)) →
      Yields (fun rounds => blockchainDeserialize order input now rounds) before.call (.ok address) after →
      (LeoCoin.blockchainDeserialize order input none).blockchain = some blockchain →
      MemoryStep order before .decode ⟨after, before.held ++ [(address, blockchain)]⟩
  | decodesNot {before : NodeMemory} {input : Input} {now : Int64} {failure : Failure} {after : Process} :
      Spacious input (weight (pieces before.process)) →
      Yields (fun rounds => blockchainDeserialize order input now rounds) before.call (.error failure) after →
      MemoryStep order before .decode ⟨after, before.held⟩
  | destroys {before : NodeMemory} {kept rest : List (Nat × Blockchain)} {address : Nat} {blockchain : Blockchain}
      {result : Except Failure Unit} {after : Process} :
      before.held = kept ++ (address, blockchain) :: rest →
      Yields (fun rounds => blockchainDestroy address rounds) before.process result after →
      MemoryStep order before .destroy ⟨after, kept ++ rest⟩
  | mines {before : NodeMemory} {kept rest : List (Nat × Blockchain)} {address : Nat} {blockchain longer : Blockchain}
      {outfile : Option WriteEnvironment} {input : Input} {now : Int64} {mint : Transaction}
      {previousBlockHash : Sha256} {search : Search} {after : Process} :
      before.held = kept ++ (address, blockchain) :: rest → Spacious input (weight (pieces before.process)) →
      Yields (fun rounds => mineRound order outfile input now (.signs mint) previousBlockHash search address rounds)
        before.call (.ok ()) after →
      LeoCoin.blockchainAddBlock blockchain (LeoCoin.blockCreate now [mint] search.newProof previousBlockHash) =
        .ok longer →
      MemoryStep order before (.mine (savesTo order outfile longer)) ⟨after, kept ++ (address, longer) :: rest⟩
  | minesNot {before : NodeMemory} {address : Nat} {blockchain : Blockchain} {outfile : Option WriteEnvironment}
      {input : Input} {now : Int64} {created : Signing} {previousBlockHash : Sha256} {search : Search}
      {failure : Failure} {after : Process} :
      (address, blockchain) ∈ before.held → Spacious input (weight (pieces before.process)) →
      Yields (fun rounds => mineRound order outfile input now created previousBlockHash search address rounds)
        before.call (.error failure) after →
      MemoryStep order before (.mine created.signed) ⟨after, before.held⟩

/-- These chains are there, each at its address. -/
def ChainsAt : List (Nat × Blockchain) → Pieces → Prop
  | [], owned => owned = 0
  | (address, blockchain) :: rest, owned =>
    ∃ own others, Building address blockchain own ∧ ChainsAt rest others ∧ owned = own + others

/-- Memory holds the chains that are held, an object for each round that could not sign or not save its
chain at most, and what was there at the start. -/
def Keeps (start : Pieces) (labels : List MemoryAction) (memory : NodeMemory) : Prop :=
  ∃ owned buffers, ChainsAt memory.held owned ∧ buffers.length ≤ labels.count (.mine false) ∧
    pieces memory.process = owned + (bufferPieces buffers + start)

theorem chainsAt_middle {kept rest : List (Nat × Blockchain)} {address : Nat} {blockchain : Blockchain}
    {owned : Pieces} :
    ChainsAt (kept ++ (address, blockchain) :: rest) owned ↔
      ∃ own others, Building address blockchain own ∧ ChainsAt (kept ++ rest) others ∧ owned = own + others := by
  induction kept generalizing owned with
  | nil => rfl
  | cons first kept ih =>
    constructor
    · rintro ⟨own, _, building, there, rfl⟩
      obtain ⟨inner, others, middle, later, rfl⟩ := ih.mp there
      exact ⟨inner, own + others, middle, ⟨own, others, building, later, rfl⟩, add_left_comm _ _ _⟩
    · rintro ⟨inner, _, middle, ⟨own, others, building, later, rfl⟩, rfl⟩
      exact ⟨own, inner + others, building, ih.mpr ⟨inner, others, middle, later, rfl⟩, add_left_comm _ _ _⟩

theorem weight_chainsAt {held : List (Nat × Blockchain)} {owned : Pieces} (there : ChainsAt held owned) :
    weight owned = (held.map fun chain => chainMemory chain.2.blockList).sum := by
  induction held generalizing owned with
  | nil =>
    obtain rfl : owned = 0 := there
    rfl
  | cons first held ih =>
    obtain ⟨_, others, ⟨placed, -, holds, rfl⟩, later, rfl⟩ := there
    rw [weight_add, ih later, weight_pieces, holds.blocks, List.map_cons, List.sum_cons]

section Runs

variable {order : ByteOrder} {start : Pieces} {labels : List MemoryAction} {label : MemoryAction}
  {first before after last : NodeMemory}

/-- A chain that is held, beside everything else. -/
theorem Keeps.focus (keeps : Keeps start labels before) {kept rest : List (Nat × Blockchain)} {address : Nat}
    {blockchain : Blockchain} (there : before.held = kept ++ (address, blockchain) :: rest) :
    ∃ own others buffers, Building address blockchain own ∧ ChainsAt (kept ++ rest) others ∧
      buffers.length ≤ labels.count (.mine false) ∧
      pieces before.process = own + (others + (bufferPieces buffers + start)) := by
  obtain ⟨_, buffers, chains, few, parts⟩ := keeps
  rw [there, chainsAt_middle] at chains
  obtain ⟨own, others, building, chains, rfl⟩ := chains
  exact ⟨own, others, buffers, building, chains, few, by rw [parts, add_assoc]⟩

/-- Every chain that is held can be destroyed. -/
theorem Keeps.destroys (keeps : Keeps start labels before) {kept rest : List (Nat × Blockchain)} {address : Nat}
    {blockchain : Blockchain} (there : before.held = kept ++ (address, blockchain) :: rest) :
    ∃ after, Yields (fun rounds => blockchainDestroy address rounds) before.process (.ok ()) after ∧
      Keeps start labels ⟨after, kept ++ rest⟩ := by
  obtain ⟨_, others, buffers, ⟨placed, rfl, -, rfl⟩, chains, few, parts⟩ := keeps.focus there
  have turns : Turns (outlook ⟨fun _ => 0, 0, fun _ _ => false⟩ 0) _ _ _ _ := turns_blockchainDestroy placed
  obtain ⟨after, yields, -, now⟩ := turns before.process _ parts
  exact ⟨after, yields, others, buffers, chains, few, now.trans (zero_add _)⟩

theorem Keeps.snoc_mono (keeps : Keeps start labels before) (label : MemoryAction) :
    Keeps start (labels ++ [label]) before := by
  obtain ⟨owned, buffers, chains, few, parts⟩ := keeps
  refine ⟨owned, buffers, chains, ?_, parts⟩
  rw [List.count_append]
  omega

theorem Keeps.decode (keeps : Keeps start labels before) {input : Input} {now : Int64} {result : Except Failure Nat}
    {after : Process} (spacious : Spacious input (weight (pieces before.process)))
    (yields : Yields (fun rounds => blockchainDeserialize order input now rounds) before.call result after) :
    (∃ failure, result = .error failure ∧ Keeps start labels ⟨after, before.held⟩) ∨
      ∃ address blockchain, result = .ok address ∧
        (LeoCoin.blockchainDeserialize order input none).blockchain = some blockchain ∧
        Keeps start labels ⟨after, before.held ++ [(address, blockchain)]⟩ := by
  obtain ⟨owned, buffers, chains, few, parts⟩ := keeps
  have there : pieces before.call = owned + (bufferPieces buffers + start) := parts
  rcases deserialize_outcomes order input now none before.call_begins spacious with
    ⟨-, undefined⟩ | ⟨failure, _, ends, -, same, -⟩ | ⟨placed, blockchain, _, ends, -, holds, grown, decodes⟩
  · exact absurd (ComesTo.unique yields undefined) (by simp)
  · obtain ⟨rfl, rfl⟩ := yields.unique ends
    exact .inl ⟨failure, rfl, owned, buffers, chains, few, same.trans parts⟩
  · obtain ⟨rfl, rfl⟩ := yields.unique ends
    refine .inr ⟨placed.address, blockchain, rfl, by rw [decodes], placed.pieces + owned, buffers, ?_, few, ?_⟩
    · rw [chainsAt_middle, List.append_nil]
      exact ⟨_, _, ⟨placed, rfl, holds, rfl⟩, chains, rfl⟩
    · rw [grown, there, add_assoc]

/-- What a round leaves behind it leaves beside what was left before. -/
theorem keeps_more {clean : Bool} {held : List (Nat × Blockchain)} {owned : Pieces} {after : Process}
    {buffers : List (Nat × Nat)} (one : List (Nat × Nat)) (chains : ChainsAt held owned)
    (few : buffers.length ≤ labels.count (.mine false)) (atMost : one.length ≤ 1) (none : clean = true → one = [])
    (left : pieces after = owned + (bufferPieces one + (bufferPieces buffers + start))) :
    Keeps start (labels ++ [.mine clean]) ⟨after, held⟩ := by
  refine ⟨owned, one ++ buffers, chains, ?_, ?_⟩
  · rw [List.length_append, List.count_append]
    cases clean with
    | false =>
      rw [List.count_singleton_self]
      omega
    | true =>
      rw [none rfl, List.length_nil]
      omega
  · rw [left]
    simp only [bufferPieces, List.map_append, List.sum_append]
    abel

section Mining

variable {kept rest : List (Nat × Blockchain)} {address : Nat} {blockchain : Blockchain} {input : Input}

/-- A round beside everything else, up to the file. -/
theorem Keeps.mineNextBlock (keeps : Keeps start labels before)
    (there : before.held = kept ++ (address, blockchain) :: rest)
    (spacious : Spacious input (weight (pieces before.process))) (now : Int64) (created : Signing) (hash : Sha256)
    (search : Search) :
    ∃ own others buffers, Building address blockchain own ∧ ChainsAt (kept ++ rest) others ∧
      buffers.length ≤ labels.count (.mine false) ∧
      Ends (outlook input (weight (pieces before.process)))
        (fun rounds => mineNextBlock input now created hash search address rounds) before.call
        (others + (bufferPieces buffers + start)) (fun next _ owned => Building address next owned)
        (RoundLeaves created own) (describeRound input now created hash search blockchain ⟨0, []⟩) := by
  obtain ⟨own, others, buffers, building, chains, few, parts⟩ := keeps.focus there
  exact ⟨own, others, buffers, building, chains, few,
    realizes_mineNextBlock now created hash search spacious address blockchain own building before.call _
      (before.call_fine input) parts⟩

/-- A round that finds its block, and the file of its chain. -/
theorem Keeps.mines (keeps : Keeps start labels before)
    (there : before.held = kept ++ (address, blockchain) :: rest)
    (spacious : Spacious input (weight (pieces before.process))) (outfile : Option WriteEnvironment) {now : Int64}
    {created : Signing} {hash : Sha256} {search : Search} {longer : Blockchain} {reached : Cursor}
    (described : describeRound input now created hash search blockchain ⟨0, []⟩ = .done (.ok longer, reached)) :
    ∃ after, Yields (fun rounds => mineRound order outfile input now created hash search address rounds) before.call
        (.ok ()) after ∧
      Keeps start (labels ++ [.mine (savesTo order outfile longer)]) ⟨after, kept ++ (address, longer) :: rest⟩ := by
  obtain ⟨own, others, buffers, -, chains, few, ends⟩ := keeps.mineNextBlock there spacious now created hash search
  rw [described] at ends
  obtain ⟨_, middle, grown, succeeds, -, -, ⟨placed, rfl, holds, rfl⟩, left⟩ := ends
  have saving : Accounts storage (fun _ => True) placed.pieces
      (fun rounds => saveChain order outfile placed.address rounds) _ := accounts_saveChain holds
  obtain ⟨_, after, _, saved, ⟨rfl, one, atMost, none, rfl⟩, parts⟩ := saving middle _ trivial left
  refine ⟨after, succeeds.bind saved, ?_⟩
  have held : ChainsAt (kept ++ (placed.address, longer) :: rest) (placed.pieces + others) :=
    chainsAt_middle.mpr ⟨_, _, ⟨placed, rfl, holds, rfl⟩, chains, rfl⟩
  refine keeps_more one held few atMost none (parts.trans ?_)
  abel

theorem Keeps.minesNot (keeps : Keeps start labels before)
    (there : before.held = kept ++ (address, blockchain) :: rest)
    (spacious : Spacious input (weight (pieces before.process))) (outfile : Option WriteEnvironment) {now : Int64}
    {created : Signing} {hash : Sha256} {search : Search} {failure : Failure} {reached : Cursor}
    (described : describeRound input now created hash search blockchain ⟨0, []⟩ = .done (.error failure, reached)) :
    ∃ after, Yields (fun rounds => mineRound order outfile input now created hash search address rounds) before.call
        (.error failure) after ∧ Keeps start (labels ++ [.mine created.signed]) ⟨after, before.held⟩ := by
  obtain ⟨own, others, buffers, building, chains, few, ends⟩ :=
    keeps.mineNextBlock there spacious now created hash search
  rw [described] at ends
  obtain ⟨after, lost, fails, -, spills, left⟩ := ends
  refine ⟨after, fails.bind_fail, ?_⟩
  have held : ChainsAt before.held (own + others) := there ▸ chainsAt_middle.mpr ⟨_, _, building, chains, rfl⟩
  rcases spills with rfl | ⟨unsigned, transaction, rfl⟩
  · refine keeps_more [] held few (Nat.zero_le _) (fun _ => rfl) (left.trans ?_)
    simp only [bufferPieces, List.map_nil, List.sum_nil]
    abel
  · rw [unsigned]
    refine keeps_more [(transaction, 8728)] held few (Nat.le_refl _) (by simp) (left.trans ?_)
    simp only [bufferPieces, List.map_cons, List.map_nil, List.sum_cons, List.sum_nil]
    abel

/-- A round ends, unless its signature breaks. -/
theorem Keeps.mine (keeps : Keeps start labels before)
    (there : before.held = kept ++ (address, blockchain) :: rest)
    (spacious : Spacious input (weight (pieces before.process))) (outfile : Option WriteEnvironment) (now : Int64)
    (created : Signing) (hash : Sha256) (search : Search) :
    (created = .breaks ∧ ComesTo
      (fun rounds => mineRound order outfile input now created hash search address rounds before.call) .undefined) ∨
    (∃ failure after, Yields
      (fun rounds => mineRound order outfile input now created hash search address rounds) before.call
        (.error failure) after ∧ Keeps start (labels ++ [.mine created.signed]) ⟨after, before.held⟩) ∨
    ∃ mint longer after, created = .signs mint ∧
      LeoCoin.blockchainAddBlock blockchain (LeoCoin.blockCreate now [mint] search.newProof hash) = .ok longer ∧
      Yields (fun rounds => mineRound order outfile input now created hash search address rounds) before.call (.ok ())
        after ∧
      Keeps start (labels ++ [.mine (savesTo order outfile longer)]) ⟨after, kept ++ (address, longer) :: rest⟩ := by
  rcases describeRound_outcomes input now created hash search blockchain ⟨0, []⟩ with
    ⟨rfl, described⟩ | ⟨failure, reached, described⟩ | ⟨mint, longer, reached, rfl, added, described⟩
  · obtain ⟨_, _, _, -, -, -, ends⟩ := keeps.mineNextBlock there spacious now .breaks hash search
    rw [described] at ends
    exact .inl ⟨rfl, ends.bind_undefined⟩
  · obtain ⟨after, fails, keeps⟩ := keeps.minesNot there spacious outfile described
    exact .inr (.inl ⟨failure, after, fails, keeps⟩)
  · obtain ⟨after, succeeds, keeps⟩ := keeps.mines there spacious outfile described
    exact .inr (.inr ⟨mint, longer, after, rfl, added, succeeds, keeps⟩)

end Mining

theorem MemoryStep.keeps (keeps : Keeps start labels before) (step : MemoryStep order before label after) :
    Keeps start (labels ++ [label]) after := by
  cases step with
  | decodes spacious yields decodes =>
    obtain ⟨_, wrong, -⟩ | ⟨_, _, same, also, keeps⟩ := keeps.decode spacious yields
    · cases wrong
    · cases same
      rw [decodes] at also
      cases also
      exact keeps.snoc_mono _
  | decodesNot spacious yields =>
    obtain ⟨_, -, keeps⟩ | ⟨_, _, wrong, -⟩ := keeps.decode spacious yields
    · exact keeps.snoc_mono _
    · cases wrong
  | destroys there yields =>
    obtain ⟨_, destroys, keeps⟩ := keeps.destroys there
    obtain ⟨-, rfl⟩ := yields.unique destroys
    exact keeps.snoc_mono _
  | @mines kept rest address blockchain longer outfile input now mint hash search ended there spacious yields added =>
    obtain ⟨wrong, -⟩ | ⟨_, _, wrong, -⟩ | ⟨_, _, _, signed, also, succeeds, keeps⟩ :=
      keeps.mine there spacious outfile now (.signs mint) hash search
    · cases wrong
    · cases (yields.unique wrong).1
    · cases signed
      rw [added] at also
      cases also
      rwa [(yields.unique succeeds).2]
  | @minesNot address blockchain outfile input now created hash search failure ended member spacious yields =>
    obtain ⟨kept, rest, there⟩ := List.append_of_mem member
    obtain ⟨-, undefined⟩ | ⟨_, _, fails, keeps⟩ | ⟨_, _, _, -, -, wrong, -⟩ :=
      keeps.mine there spacious outfile now created hash search
    · exact absurd (ComesTo.unique yields undefined) (by simp)
    · rwa [(yields.unique fails).2]
    · cases (yields.unique wrong).1

theorem keeps_of_run (empty : first.held = []) (run : Run (MemoryStep order) first labels last) :
    Keeps (pieces first.process) labels last := by
  have initially : Keeps (pieces first.process) [] first :=
    ⟨0, [], by rw [empty]; rfl, Nat.zero_le _, by simp [bufferPieces]⟩
  exact run.invariantAlong (Keeps (pieces first.process)) initially fun _ _ _ _ keeps step => step.keeps keeps

end Runs

/-- Whatever threads decode, mine and destroy, in any order, memory holds what was there at the
start, the chains that are held, and an object for each round that could not sign or not save its chain
at most; every chain that is held can be destroyed, and every further round ends, unless its signature
breaks. -/
theorem node_keeps_its_chains (order : ByteOrder) (first last : NodeMemory) (labels : List MemoryAction)
    (empty : first.held = []) (run : Run (MemoryStep order) first labels last) :
    Keeps (pieces first.process) labels last ∧
      (∀ kept rest address blockchain, last.held = kept ++ (address, blockchain) :: rest →
        (∃ after, Yields (fun rounds => blockchainDestroy address rounds) last.process (.ok ()) after) ∧
        ∀ outfile input now created hash search, Spacious input (weight (pieces last.process)) →
          (created = .breaks ∧ ComesTo
            (fun rounds => mineRound order outfile input now created hash search address rounds last.call)
              .undefined) ∨
          ∃ result after, Yields
            (fun rounds => mineRound order outfile input now created hash search address rounds) last.call result
              after) ∧
      (last.held = [] → .mine false ∉ labels → pieces last.process = pieces first.process) := by
  have keeps := keeps_of_run empty run
  refine ⟨keeps, ?_, ?_⟩
  · intro kept rest address blockchain there
    obtain ⟨after, yields, -⟩ := keeps.destroys there
    refine ⟨⟨after, yields⟩, fun outfile input now created hash search spacious => ?_⟩
    rcases keeps.mine there spacious outfile now created hash search with
      broken | ⟨failure, after, fails, -⟩ | ⟨_, _, after, -, -, succeeds, -⟩
    · exact .inl broken
    · exact .inr ⟨_, after, fails⟩
    · exact .inr ⟨_, after, succeeds⟩
  · intro none clean
    obtain ⟨owned, buffers, chains, few, parts⟩ := keeps
    rw [none] at chains
    obtain rfl : owned = 0 := chains
    rw [List.count_eq_zero.mpr clean] at few
    obtain rfl : buffers = [] := List.eq_nil_of_length_eq_zero (Nat.le_zero.mp few)
    simpa [bufferPieces] using parts

/-- A file that takes everything. -/
def sampleFile : WriteEnvironment := ⟨grantAll, true, 100000, 100000⟩

theorem sampleFile_saves (order : ByteOrder) (blockchain : Blockchain) :
    saves order sampleFile blockchain = true := by
  have serialized : LeoCoin.blockchainSerialize grantAll order blockchain = _ :=
    blockchain_serialize_eq (fun _ _ => rfl) order blockchain
  rw [LeoCoin.blockchainSerialize] at serialized
  rw [saves]
  cases written : serializeInto grantAll order blockchain ⟨[], 0, 0⟩ with
  | error failure =>
    rw [written] at serialized
    cases serialized
  | ok buffer => simp [sampleFile, written, Except.isOk, Except.toBool]

/-- A round of mining with little memory, and a file that takes everything. -/
theorem sampleChain_mined {order : ByteOrder} {start : Pieces} {labels : List MemoryAction} {before : Process}
    {address : Nat} {mined : UInt8} {rest : List (Nat × Blockchain)}
    (keeps : Keeps start labels ⟨before, (address, sampleChain mined) :: rest⟩)
    (light : weight (pieces before) ≤ 2 ^ 40) (more : mined.toNat < 255) :
    ∃ after, MemoryStep order ⟨before, (address, sampleChain mined) :: rest⟩ (.mine true)
      ⟨after, (address, sampleChain (mined + 1)) :: rest⟩ := by
  have spacious : Spacious (sparingInput []) (weight (pieces before)) := by
    intro requests granted
    have bounds := sparing_bounded requests granted
    omega
  have grants (ordinal size : Nat) (few : ordinal < 5) (small : size ≤ 8728) :
      (sparingInput []).grants ordinal size = true := by
    simp only [sparingInput, Input.ofBuffer, sparing, Bool.and_eq_true, decide_eq_true_eq]
    omega
  have grown : LeoCoin.blockchainAddBlock (sampleChain mined)
      (LeoCoin.blockCreate 0 [sampleTransaction] 0 Sha256.zero) = .ok (sampleChain (mined + 1)) :=
    sampleChain_grows mined more
  have search : (⟨0, none⟩ : Search).failure = none := rfl
  obtain ⟨_, described⟩ := describeRound_found grants search grown
  have there : (NodeMemory.mk before ((address, sampleChain mined) :: rest)).held =
      [] ++ (address, sampleChain mined) :: rest := rfl
  obtain ⟨after, mines, -⟩ := keeps.mines there spacious (some sampleFile) described
  have step : MemoryStep order _ _ _ := .mines there spacious mines grown
  have saved : savesTo order (some sampleFile) (sampleChain (mined + 1)) = true := sampleFile_saves order _
  rw [saved] at step
  exact ⟨after, step⟩

/-- A chain is decoded, a block is mined on it and saved, and the chain is destroyed. -/
theorem node_keeps_its_chains_sample :
    ∃ last : NodeMemory,
      Run (MemoryStep .littleEndian) ⟨emptyProcess, []⟩ [.decode, .mine true, .destroy] last ∧
      pieces last.process = pieces emptyProcess := by
  obtain ⟨placed, middle, decodes, holds, parts⟩ := sampleChain_placed .littleEndian 1 (by decide)
  have deserialized := sampleChain_deserializes .littleEndian 1 (by decide)
  have decode : MemoryStep .littleEndian ⟨emptyProcess, []⟩ .decode ⟨middle, [(placed.address, sampleChain 1)]⟩ :=
    .decodes (sparing_spacious _ _) decodes (congrArg Deserialization.blockchain deserialized)
  have light : weight (pieces middle) ≤ 2 ^ 40 := by
    rw [parts, weight_pieces, holds.blocks]
    decide
  obtain ⟨keeps, -, -⟩ := node_keeps_its_chains .littleEndian _ _ _ rfl (.single decode)
  obtain ⟨mined, mine⟩ := sampleChain_mined keeps light (by decide)
  obtain ⟨-, every, -⟩ := node_keeps_its_chains .littleEndian _ _ _ rfl (.cons decode (.single mine))
  obtain ⟨⟨after, destroys⟩, -⟩ := every [] [] placed.address (sampleChain (1 + 1)) rfl
  have there : (NodeMemory.mk mined [(placed.address, sampleChain (1 + 1))]).held =
      [] ++ (placed.address, sampleChain (1 + 1)) :: [] := rfl
  have destroy : MemoryStep .littleEndian ⟨mined, [(placed.address, sampleChain (1 + 1))]⟩ .destroy ⟨after, []⟩ :=
    .destroys there destroys
  have run : Run (MemoryStep .littleEndian) ⟨emptyProcess, []⟩ [.decode, .mine true, .destroy] ⟨after, []⟩ :=
    .cons decode (.cons mine (.single destroy))
  obtain ⟨-, -, gone⟩ := node_keeps_its_chains .littleEndian _ _ _ rfl run
  exact ⟨_, run, gone rfl (by simp)⟩

end ChainMemory

end LeoCoin
