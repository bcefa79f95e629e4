import LeoCoin.Library.HashChain
import LeoCoin.Verify

/-! # The block that is blamed

`blockchain_verify` reports the block it stopped at through `first_invalid_block`, and
`mine_blocks` prints that block without looking at the pointer.  The report is right
but for two exits: a linked and mined block without transactions is not reported at
all, and a difficulty above 32 can make the check stop at a block that breaks no rule.
-/

namespace LeoCoin

open Library.HashChain

variable {PKey : Type}

/-- The blocks obey every rule, from the genesis block on. -/
def ValidBlocks (platform : Platform PKey) (difficulty : Nat) : List Block → Prop
  | [] => True
  | genesis :: rest => ValidGenesis genesis ∧ List.IsChain (Follows platform difficulty) (genesis :: rest)

/-- The earliest block that breaks a rule: all before it satisfy every rule. -/
def FirstBreaking (platform : Platform PKey) (blockchain : Blockchain) (index : Nat) : Prop :=
  ∃ before block after, blockchain.blockList = before ++ block :: after ∧ before.length = index ∧
    ValidBlocks platform blockchain.numLeadingZeroBytesRequiredInBlockHash.toNat before ∧
    ¬ ValidBlocks platform blockchain.numLeadingZeroBytesRequiredInBlockHash.toNat (before ++ [block])

/-- What `first_invalid_block`, `NULL` before the call, is good for after it. -/
def NamesFirstInvalid (platform : Platform PKey) (blockchain : Blockchain) : Prop :=
  let verification := blockchainVerify platform blockchain
  (verification.returnCode = .success → verification.isValidBlockchain = some false →
    ∃ index, verification.firstInvalidBlock = some index ∧ FirstBreaking platform blockchain index) ∧
  (verification.isValidBlockchain = some true → verification.firstInvalidBlock = none)

/-- A linked and mined block that has no transactions: the exit without a report. -/
structure Unnamed (platform : Platform PKey) (numLeadingZeroBytes : UInt64) (previous block : Block) : Prop where
  work : compareWithEmptyHash platform numLeadingZeroBytes (blockHash platform block) = 0
  linked : block.previousBlockHash = blockHash platform previous
  noTransactions : block.transactionList = []

/-- A block that breaks no rule, and is refused for bytes that are not part of its hash. -/
structure Misjudged (platform : Platform PKey) (numLeadingZeroBytes : UInt64) (previous block : Block) :
    Prop where
  work : compareWithEmptyHash platform numLeadingZeroBytes (blockHash platform block) ≠ 0
  follows : Follows platform numLeadingZeroBytes.toNat previous block

section Rules

variable {platform : Platform PKey} {numLeadingZeroBytes : UInt64} {previous block : Block}

theorem not_misjudged (small : numLeadingZeroBytes.toNat ≤ 32) :
    ¬ Misjudged platform numLeadingZeroBytes previous block := fun misjudged =>
  misjudged.work (misjudged.follows.passes small).work

theorem Misjudged.of_not_passes (follows : Follows platform numLeadingZeroBytes.toNat previous block)
    (refused : ¬ Passes platform numLeadingZeroBytes previous block) :
    Misjudged platform numLeadingZeroBytes previous block :=
  ⟨fun work => refused ⟨work, follows⟩, follows⟩

theorem Misjudged.verifyBlock (misjudged : Misjudged platform numLeadingZeroBytes previous block) :
    verifyBlock platform numLeadingZeroBytes (blockHash platform previous) block = .invalid true := by
  rw [LeoCoin.verifyBlock]
  exact if_pos misjudged.work

theorem Unnamed.verifyBlock (unnamed : Unnamed platform numLeadingZeroBytes previous block) :
    verifyBlock platform numLeadingZeroBytes (blockHash platform previous) block = .invalid false := by
  have linked := hashesDiffer_eq_false.mpr unnamed.linked
  simp [LeoCoin.verifyBlock, unnamed.work, linked, unnamed.noTransactions]

/-- Of the five exits of a round that find the block invalid, one does not report it. -/
theorem unnamed_of_verifyBlock
    (verdict : verifyBlock platform numLeadingZeroBytes (blockHash platform previous) block = .invalid false) :
    Unnamed platform numLeadingZeroBytes previous block := by
  simp only [verifyBlock] at verdict
  split at verdict
  · cases verdict
  next work =>
    split at verdict
    · cases verdict
    next linked =>
      split at verdict
      next noTransactions =>
        exact ⟨not_not.mp work, hashesDiffer_eq_false.mp (Bool.eq_false_iff.mpr linked), noTransactions⟩
      next =>
        split at verdict
        · cases verdict
        · split at verdict <;> cases verdict

theorem ValidBlocks.left_of_append {difficulty : Nat} {before after : List Block}
    (valid : ValidBlocks platform difficulty (before ++ after)) : ValidBlocks platform difficulty before := by
  cases before with
  | nil => trivial
  | cons genesis before => exact ⟨valid.1, List.IsChain.left_of_append valid.2⟩

theorem ValidBlocks.concat {difficulty : Nat} {before : List Block}
    (valid : ValidBlocks platform difficulty (before ++ [previous]))
    (follows : Follows platform difficulty previous block) :
    ValidBlocks platform difficulty (before ++ [previous] ++ [block]) := by
  cases before with
  | nil => exact ⟨valid.1, .cons_cons follows (.singleton block)⟩
  | cons genesis before =>
    refine ⟨valid.1, ?_⟩
    have chained : List.IsChain (Follows platform difficulty) (genesis :: (before ++ [previous])) := valid.2
    have longer : List.IsChain (Follows platform difficulty) ((genesis :: before) ++ previous :: [block]) :=
      List.isChain_append_cons_cons.mpr ⟨chained, follows, .singleton block⟩
    simpa using longer

theorem ValidBlocks.follows {difficulty : Nat} {before : List Block}
    (valid : ValidBlocks platform difficulty (before ++ [previous] ++ [block])) :
    Follows platform difficulty previous block := by
  have chained : List.IsChain (Follows platform difficulty) (before ++ previous :: [block]) := by
    cases before with
    | nil => exact valid.2
    | cons genesis before => simpa using valid.2
  exact (List.isChain_append_cons_cons.mp chained).2.1

end Rules

section Loop

variable {platform : Platform PKey} {numLeadingZeroBytes : UInt64}

/-- The loop goes through the blocks that pass.  Induction on them, oldest first. -/
theorem verifyBlocks_passed {genesis previous : Block} {before rest blocks : List Block} (index : Nat)
    (split : genesis :: blocks = before ++ previous :: rest)
    (chained : List.IsChain (Passes platform numLeadingZeroBytes) (before ++ [previous])) :
    verifyBlocks platform numLeadingZeroBytes (blockHash platform genesis) index blocks =
      verifyBlocks platform numLeadingZeroBytes (blockHash platform previous) (index + before.length) rest := by
  induction before generalizing genesis blocks index with
  | nil =>
    cases split
    rfl
  | cons first before ih =>
    obtain ⟨rfl, later⟩ := List.cons.inj split
    cases blocks with
    | nil => simp at later
    | cons block blocks =>
      have passes : Passes platform numLeadingZeroBytes genesis block := by
        cases before with
        | nil =>
          cases later
          exact (List.isChain_cons_cons.mp chained).1
        | cons second before =>
          obtain ⟨rfl, -⟩ := List.cons.inj later
          exact (List.isChain_cons_cons.mp chained).1
      rw [verifyBlocks, verifyBlock_of_passes passes]
      have continues := ih (index + 1) later chained.tail
      simp only [continues, List.length_cons]
      congr 1
      omega

theorem verifyBlocks_accepted {genesis : Block} {blocks : List Block} (index : Nat)
    (chained : List.IsChain (Passes platform numLeadingZeroBytes) (genesis :: blocks)) :
    verifyBlocks platform numLeadingZeroBytes (blockHash platform genesis) index blocks =
      ⟨.success, some true, none⟩ := by
  obtain ⟨before, last, split⟩ := (List.eq_nil_or_concat (genesis :: blocks)).resolve_left (by simp)
  rw [List.concat_eq_append] at split
  have passed := verifyBlocks_passed index split (split ▸ chained)
  rw [passed, verifyBlocks]

end Loop

section Blame

variable {platform : Platform PKey} {blockchain : Blockchain} {before after : List Block} {previous block : Block}

theorem blockchainVerify_breaks
    (breaks : BreaksAt (Passes platform blockchain.numLeadingZeroBytesRequiredInBlockHash)
      blockchain.blockList before previous block after)
    (valid : ValidBlocks platform blockchain.numLeadingZeroBytesRequiredInBlockHash.toNat (before ++ [previous])) :
    blockchainVerify platform blockchain = verifyBlocks platform
      blockchain.numLeadingZeroBytesRequiredInBlockHash (blockHash platform previous) (1 + before.length)
      (block :: after) := by
  have split := breaks.split
  cases items : blockchain.blockList with
  | nil => simp [items] at split
  | cons genesis rest =>
    rw [items] at split
    have validGenesis : ValidGenesis genesis := by
      cases before with
      | nil =>
        cases split
        exact valid.1
      | cons first before =>
        obtain ⟨rfl, -⟩ := List.cons.inj split
        exact valid.1
    rw [blockchainVerify_genesis items validGenesis]
    exact verifyBlocks_passed 1 split breaks.chained

/-- The blocks before the first one that does not pass obey every rule. -/
theorem ValidBlocks.of_breaks {genesis : Block} {rest : List Block}
    (items : blockchain.blockList = genesis :: rest) (valid : ValidGenesis genesis)
    (breaks : BreaksAt (Passes platform blockchain.numLeadingZeroBytesRequiredInBlockHash)
      blockchain.blockList before previous block after) :
    ValidBlocks platform blockchain.numLeadingZeroBytesRequiredInBlockHash.toNat (before ++ [previous]) := by
  have chained := breaks.chained.imp fun _ _ passes => passes.follows
  have split := breaks.split
  rw [items] at split
  cases before with
  | nil =>
    cases split
    exact ⟨valid, chained⟩
  | cons first before =>
    obtain ⟨rfl, -⟩ := List.cons.inj split
    exact ⟨valid, chained⟩

theorem Misjudged.not_names
    (misjudged : Misjudged platform blockchain.numLeadingZeroBytesRequiredInBlockHash previous block)
    (breaks : BreaksAt (Passes platform blockchain.numLeadingZeroBytesRequiredInBlockHash)
      blockchain.blockList before previous block after)
    (valid : ValidBlocks platform blockchain.numLeadingZeroBytesRequiredInBlockHash.toNat (before ++ [previous])) :
    ¬ NamesFirstInvalid platform blockchain := by
  intro names
  have verified := blockchainVerify_breaks breaks valid
  rw [verifyBlocks, misjudged.verifyBlock] at verified
  obtain ⟨index, named, first, culprit, rest, split, counted, -, breaking⟩ :=
    names.1 (by rw [verified]) (by rw [verified])
  rw [verified] at named
  obtain rfl : 1 + before.length = index := by simpa using named
  -- the blocks before the reported one are those before the misjudged one
  rw [breaks.split] at split
  have longer : (before ++ [previous]) ++ block :: after = first ++ culprit :: rest := by simpa using split
  obtain ⟨rfl, tail⟩ := List.append_inj longer (by simp; omega)
  obtain ⟨rfl, -⟩ := List.cons.inj tail
  exact breaking (valid.concat misjudged.follows)

theorem Unnamed.not_passes
    (unnamed : Unnamed platform blockchain.numLeadingZeroBytesRequiredInBlockHash previous block) :
    ¬ Passes platform blockchain.numLeadingZeroBytesRequiredInBlockHash previous block := by
  intro passes
  obtain ⟨minting, others, items, -⟩ := passes.follows.minted
  simp [unnamed.noTransactions] at items

/-- A block without transactions is not reported. -/
theorem Unnamed.not_names
    (unnamed : Unnamed platform blockchain.numLeadingZeroBytesRequiredInBlockHash previous block)
    (breaks : BreaksAt (Passes platform blockchain.numLeadingZeroBytesRequiredInBlockHash)
      blockchain.blockList before previous block after)
    (valid : ValidBlocks platform blockchain.numLeadingZeroBytesRequiredInBlockHash.toNat (before ++ [previous])) :
    ¬ NamesFirstInvalid platform blockchain := by
  intro names
  have verified := blockchainVerify_breaks breaks valid
  rw [verifyBlocks, unnamed.verifyBlock] at verified
  obtain ⟨index, named, -⟩ := names.1 (by rw [verified]) (by rw [verified])
  rw [verified] at named
  cases named

theorem NamesFirstInvalid.stops (names : NamesFirstInvalid platform blockchain)
    (split : blockchain.blockList = before ++ previous :: block :: after)
    (valid : ValidBlocks platform blockchain.numLeadingZeroBytesRequiredInBlockHash.toNat (before ++ [previous])) :
    ¬ Unnamed platform blockchain.numLeadingZeroBytesRequiredInBlockHash previous block ∧
      ¬ Misjudged platform blockchain.numLeadingZeroBytesRequiredInBlockHash previous block := by
  obtain chained | ⟨sooner, left, right, between, breaks⟩ := isChain_or_breaks
    (Passes platform blockchain.numLeadingZeroBytesRequiredInBlockHash) (before ++ [previous])
  · refine ⟨fun unnamed => ?_, fun misjudged => ?_⟩
    · exact unnamed.not_names ⟨split, chained, unnamed.not_passes⟩ valid names
    · exact misjudged.not_names ⟨split, chained, fun passes => misjudged.work passes.work⟩ valid names
  · -- an earlier block already stops the check, and it breaks no rule
    rw [breaks.split] at valid
    have earlier : ValidBlocks platform blockchain.numLeadingZeroBytesRequiredInBlockHash.toNat
        ((sooner ++ [left] ++ [right]) ++ between) := by simpa using valid
    have misjudged := Misjudged.of_not_passes earlier.left_of_append.follows breaks.broken
    have whole : blockchain.blockList = sooner ++ left :: right :: (between ++ block :: after) := by
      have regroup : blockchain.blockList = (before ++ [previous]) ++ block :: after := by simpa using split
      rw [regroup, breaks.split]
      simp
    exact absurd names (misjudged.not_names ⟨whole, breaks.chained, breaks.broken⟩
      earlier.left_of_append.left_of_append)

/-- The first block that does not pass is reported if it is neither. -/
theorem names_of_breaks
    (breaks : BreaksAt (Passes platform blockchain.numLeadingZeroBytesRequiredInBlockHash)
      blockchain.blockList before previous block after)
    (valid : ValidBlocks platform blockchain.numLeadingZeroBytesRequiredInBlockHash.toNat (before ++ [previous]))
    (named : ¬ Unnamed platform blockchain.numLeadingZeroBytesRequiredInBlockHash previous block)
    (judged : ¬ Misjudged platform blockchain.numLeadingZeroBytesRequiredInBlockHash previous block) :
    NamesFirstInvalid platform blockchain := by
  rw [NamesFirstInvalid, blockchainVerify_breaks breaks valid, verifyBlocks]
  cases verdict : verifyBlock platform blockchain.numLeadingZeroBytesRequiredInBlockHash
      (blockHash platform previous) block with
  | valid hash => exact absurd (verifyBlock_valid verdict).1 breaks.broken
  | failed code => exact ⟨fun success _ => absurd success code.property, fun accepted => by cases accepted⟩
  | invalid reported =>
    cases reported with
    | false => exact absurd (unnamed_of_verifyBlock verdict) named
    | true =>
      have reported : blockchain.blockList = (before ++ [previous]) ++ block :: after := by
        rw [breaks.split]
        simp
      exact ⟨fun _ _ => ⟨_, rfl, before ++ [previous], block, after, reported, by simp [Nat.add_comm], valid,
        fun longer => judged (.of_not_passes longer.follows breaks.broken)⟩, fun accepted => by cases accepted⟩

end Blame

/-- Whenever `blockchain_verify` finds a chain invalid it reports the earliest block that
breaks a rule, and otherwise it reports nothing, exactly when the first block after a valid
beginning is neither an unnamed nor a misjudged one. -/
theorem names_first_invalid_iff (platform : Platform PKey) (blockchain : Blockchain) :
    NamesFirstInvalid platform blockchain ↔
      ∀ before previous block after, blockchain.blockList = before ++ previous :: block :: after →
        ValidBlocks platform blockchain.numLeadingZeroBytesRequiredInBlockHash.toNat (before ++ [previous]) →
        ¬ Unnamed platform blockchain.numLeadingZeroBytesRequiredInBlockHash previous block ∧
          ¬ Misjudged platform blockchain.numLeadingZeroBytesRequiredInBlockHash previous block := by
  refine ⟨fun names before previous block after split valid => names.stops split valid, fun stops => ?_⟩
  cases items : blockchain.blockList with
  | nil => simp [NamesFirstInvalid, blockchainVerify, items]
  | cons genesis rest =>
    by_cases valid : ValidGenesis genesis
    · obtain chained | ⟨before, previous, block, after, breaks⟩ := isChain_or_breaks
        (Passes platform blockchain.numLeadingZeroBytesRequiredInBlockHash) blockchain.blockList
      · -- every block passes
        rw [items] at chained
        have accepted := verifyBlocks_accepted 1 chained
        rw [NamesFirstInvalid, blockchainVerify_genesis items valid, accepted]
        simp
      · have begins : ValidBlocks platform blockchain.numLeadingZeroBytesRequiredInBlockHash.toNat
            (before ++ [previous]) := ValidBlocks.of_breaks items valid breaks
        obtain ⟨named, judged⟩ := stops before previous block after breaks.split begins
        exact names_of_breaks breaks begins named judged
    · rw [NamesFirstInvalid, blockchainVerify_malformed items valid]
      have breaking : ¬ ValidBlocks platform blockchain.numLeadingZeroBytesRequiredInBlockHash.toNat
          ([] ++ [genesis]) := fun obeys => valid obeys.1
      exact ⟨fun _ _ => ⟨0, rfl, [], genesis, rest, items, rfl, trivial, breaking⟩,
        fun accepted => by cases accepted⟩

/-- A genesis block and a linked block from which the transactions are missing. -/
def mintlessChain : Blockchain :=
  ⟨[blockCreateGenesisBlock 0, blockCreate 0 [] 0 Sha256.zero], 0, by decide⟩

/-- The chain is invalid and the pointer stays `NULL`. -/
theorem mintless_block_not_named : ¬ NamesFirstInvalid Platform.lenient mintlessChain := by
  intro names
  have verified : blockchainVerify Platform.lenient mintlessChain = ⟨.success, some false, none⟩ := rfl
  obtain ⟨index, named, -⟩ := names.1 (by rw [verified]) (by rw [verified])
  rw [verified] at named
  cases named

end LeoCoin
