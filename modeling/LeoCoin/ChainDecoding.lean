import LeoCoin.ChainMemory
import LeoCoin.Overread

/-! # What `blockchain_deserialize` leaves

A call that stays in its buffer ends with the chain that its decoder has read, or with the memory that
was there before.  One that does not is undefined: what it copies from behind the buffer is nobody's.
-/

namespace LeoCoin

open Library.Decoding Library.Heap Library.Programs Library.Owning

namespace ChainMemory

/-! ## What a chain asks for -/

section Requests

variable {order : ByteOrder} {input : Input} {cursor reached : Cursor}

/-- What is allocated for a block, the last request first: two for each transaction. -/
def blockRequests (block : Block) : List Nat :=
  [16, 56] ++ (block.transactionList.flatMap fun _ => [16, 8728]) ++ [24]

def chainRequests (blockList : List Block) : List Nat := blockList.reverse.flatMap blockRequests ++ [24, 16]

theorem readTransaction_frugal (order : ByteOrder) : (readTransaction order).Frugal := by
  have key : (Decoder.checkedTake 4096 : Decoder Failure _).Frugal := Decoder.frugal_checkedTake 4096
  refine (readUInt64_frugal order).bind fun _ => key.bind fun _ => key.bind fun _ =>
    (readUInt64_frugal order).bind fun _ => Decoder.Frugal.bind ?_ fun _ => Decoder.frugal_pure _
  refine (readUInt64_frugal order).bind fun length => ?_
  split
  · exact Decoder.frugal_reject _
  · exact (Decoder.frugal_requireSpace _).bind fun _ => (Decoder.frugal_takeBytes _).bind fun _ => Decoder.frugal_pure _

theorem readBlockHeader_frugal (order : ByteOrder) : (readBlockHeader order).Frugal :=
  (readUInt64_frugal order).bind fun _ => (Decoder.frugal_checkedTake 32).bind fun _ =>
    (readUInt64_frugal order).bind fun _ => (readUInt64_frugal order).bind fun _ => Decoder.frugal_pure _

theorem requests_of_allocate {size : Nat} (ran : (Decoder.allocate size : Decoder Failure Unit).run input cursor =
    (.ok (), reached)) : reached.requests = size :: cursor.requests := by
  rw [Decoder.run_allocate] at ran
  exact (congrArg (fun ended => ended.2.requests) ran).symm

theorem requests_of_frugal {α : Type} {decoder : Decoder Failure α} {value : α} (frugal : decoder.Frugal)
    (ran : decoder.run input cursor = (.ok value, reached)) : reached.requests = cursor.requests := by
  have kept := (frugal input cursor).1
  rwa [ran] at kept

theorem requests_of_appendTransaction {transactionList next : List Transaction}
    (ran : (appendTransaction order transactionList).run input cursor = (.ok next, reached)) :
    next.length = transactionList.length + 1 ∧ reached.requests = 16 :: 8728 :: cursor.requests := by
  obtain ⟨transaction, first, decodes, ran⟩ := Decoder.run_bind_eq_ok.mp ran
  rw [show deserializeTransaction order = (Decoder.allocate 8728 >>= fun _ => readTransaction order) from rfl]
    at decodes
  obtain ⟨_, middle, asks, reads⟩ := Decoder.run_bind_eq_ok.mp decodes
  obtain ⟨_, last, appends, ends⟩ := Decoder.run_bind_eq_ok.mp ran
  cases ends
  rw [requests_of_allocate appends, requests_of_frugal (readTransaction_frugal order) reads, requests_of_allocate asks]
  exact ⟨List.length_append, rfl⟩

theorem requests_of_transactions {count : Nat} {transactionList : List Transaction}
    (ran : (Decoder.repeatTimes count (appendTransaction order) []).run input cursor = (.ok transactionList, reached)) :
    reached.requests = (transactionList.flatMap fun _ => [16, 8728]) ++ cursor.requests := by
  -- it is the number of transactions that counts
  have counted : transactionList.length = count ∧
      reached.requests = (List.replicate count [16, 8728]).flatten ++ cursor.requests := by
    refine Decoder.repeatTimes_invariant (fun index transactions at_ => transactions.length = index ∧
      at_.requests = (List.replicate index [16, 8728]).flatten ++ cursor.requests) ⟨rfl, rfl⟩ count ?_ ran
    intro index transactions at_ next reached _ ⟨length, requests⟩ ran
    obtain ⟨longer, asked⟩ := requests_of_appendTransaction ran
    rw [longer, length, asked, requests, List.replicate_succ]
    exact ⟨rfl, rfl⟩
  rw [counted.2, ← counted.1, List.flatMap_def, List.map_const']

theorem requests_of_deserializeBlock {block : Block}
    (ran : (deserializeBlock order).run input cursor = (.ok block, reached)) :
    reached.requests = 56 :: ((block.transactionList.flatMap fun _ => [16, 8728]) ++ 24 :: cursor.requests) := by
  rw [deserializeBlock_eq] at ran
  obtain ⟨header, first, reads, ran⟩ := Decoder.run_bind_eq_ok.mp ran
  obtain ⟨_, second, list, ran⟩ := Decoder.run_bind_eq_ok.mp ran
  obtain ⟨transactionList, third, transactions, ran⟩ := Decoder.run_bind_eq_ok.mp ran
  obtain ⟨_, fourth, creates, ends⟩ := Decoder.run_bind_eq_ok.mp ran
  cases ends
  rw [requests_of_allocate creates, requests_of_transactions transactions, requests_of_allocate list,
    requests_of_frugal (readBlockHeader_frugal order) reads]
  rfl

theorem requests_of_appendBlock {blockchain next : Blockchain}
    (ran : (appendBlock order blockchain).run input cursor = (.ok next, reached)) :
    ∃ block, next.blockList = blockchain.blockList ++ [block] ∧
      reached.requests = blockRequests block ++ cursor.requests := by
  obtain ⟨block, first, decodes, ran⟩ := Decoder.run_bind_eq_ok.mp ran
  obtain ⟨_, second, stores, ran⟩ := Decoder.run_bind_eq_ok.mp ran
  refine ⟨block, ?_, ?_⟩
  · split at ran
    next => cases ran
    next added =>
      cases ran
      exact (blockchain_add_block_ok added).1
  · have same : reached = second := by
      split at ran
      next => cases ran
      next => cases ran; rfl
    rw [same, requests_of_allocate stores, requests_of_deserializeBlock decodes]
    simp [blockRequests]

/-- What a decoder that has come to a chain has asked for. -/
theorem requests_of_deserializeBlockchain {blockchain : Blockchain}
    (ran : (deserializeBlockchain order).run input ⟨0, []⟩ = (.ok blockchain, reached)) :
    reached.requests = chainRequests blockchain.blockList := by
  obtain ⟨difficulty, first, reads, ran⟩ := Decoder.run_bind_eq_ok.mp ran
  obtain ⟨_, second, creates, ran⟩ := Decoder.run_bind_eq_ok.mp ran
  obtain ⟨_, third, lists, ran⟩ := Decoder.run_bind_eq_ok.mp ran
  obtain ⟨numBlocks, fourth, counts, ran⟩ := Decoder.run_bind_eq_ok.mp ran
  have started : fourth.requests = [24, 16] := by
    rw [requests_of_frugal (readUInt64_frugal order) counts, requests_of_allocate lists, requests_of_allocate creates,
      requests_of_frugal (readUInt64_frugal order) reads]
  refine Decoder.repeatTimes_invariant (fun _ (blockchain : Blockchain) at_ =>
    at_.requests = chainRequests blockchain.blockList) ?_ numBlocks.toNat ?_ ran
  · rw [started]
    rfl
  · intro index before at_ next reached _ requests ran
    obtain ⟨block, list, asked⟩ := requests_of_appendBlock ran
    rw [asked, requests, list, chainRequests, chainRequests, List.reverse_append, List.flatMap_append,
      List.append_assoc]
    simp

/-- A chain is decoded wherever there is memory for it. -/
theorem deserialize_of_granted {prior : Option Blockchain} {blockchain : Blockchain} {examined : Nat}
    {grants : Nat → Nat → Bool}
    (decodes : LeoCoin.blockchainDeserialize order input prior = ⟨.success, some blockchain, examined⟩)
    (granted : Granted grants (chainRequests blockchain.blockList)) :
    LeoCoin.blockchainDeserialize order { input with grants := grants } prior =
      ⟨.success, some blockchain, examined⟩ := by
  rw [LeoCoin.blockchainDeserialize] at decodes ⊢
  rcases ran : (deserializeBlockchain order).run input ⟨0, []⟩ with ⟨fault | decoded, cursor⟩
  · rw [ran] at decodes
    exact absurd (congrArg Deserialization.returnCode decodes) (Failure.ofFault fault).property
  · rw [ran] at decodes
    cases decodes
    rw [← requests_of_deserializeBlockchain ran] at granted
    rw [Decoder.run_of_granted ran granted]

end Requests

/-! ## What a call comes to -/

theorem overruns_iff_examined (order : ByteOrder) (input : Input) (prior : Option Blockchain) :
    (deserializeBlockchain order).Overruns input ⟨0, []⟩ ↔
      input.size < (LeoCoin.blockchainDeserialize order input prior).examined := by
  rw [Decoder.Overruns, LeoCoin.blockchainDeserialize]
  rcases (deserializeBlockchain order).run input ⟨0, []⟩ with ⟨fault | blockchain, cursor⟩ <;> simp

/-- What a call of `blockchain_deserialize` comes to in memory, beside what its decoder comes to. -/
theorem deserialize_outcomes (order : ByteOrder) (input : Input) (now : Int64) (prior : Option Blockchain)
    {start : Process} (begins : start.cursor = ⟨0, []⟩) (spacious : Spacious input (weight (pieces start))) :
    (input.size < (LeoCoin.blockchainDeserialize order input prior).examined ∧
      ComesTo (fun rounds => blockchainDeserialize order input now rounds start) .undefined) ∨
    (∃ failure after, Yields (fun rounds => blockchainDeserialize order input now rounds) start (.error failure) after ∧
      after.cursor.position ≤ input.size ∧ pieces after = pieces start ∧
      LeoCoin.blockchainDeserialize order input prior = ⟨failure, prior, after.cursor.position⟩) ∨
    ∃ (placed : PlacedChain) (blockchain : Blockchain) (after : Process),
      Yields (fun rounds => blockchainDeserialize order input now rounds) start (.ok placed.address) after ∧
      after.cursor.position ≤ input.size ∧ placed.Holds blockchain ∧ pieces after = placed.pieces + pieces start ∧
      LeoCoin.blockchainDeserialize order input prior = ⟨.success, some blockchain, after.cursor.position⟩ := by
  have ends := realizes_blockchainDeserialize order now spacious start (pieces start) (fine_of_begins begins)
    (zero_add _).symm
  rw [outlook_view, begins, described] at ends
  by_cases leaves : (deserializeBlockchain order).Overruns input ⟨0, []⟩
  · rw [if_pos leaves] at ends
    exact .inl ⟨(overruns_iff_examined order input prior).mp leaves, ends⟩
  · rw [if_neg leaves] at ends
    have stays := Nat.not_lt.mp fun outside => leaves ⟨Nat.zero_le _, outside⟩
    rcases ran : (deserializeBlockchain order).run input ⟨0, []⟩ with ⟨fault | blockchain, cursor⟩
    · rw [ran] at ends stays
      obtain ⟨after, _, yields, rfl, rfl, parts⟩ := ends
      exact .inr (.inl ⟨_, after, yields, stays, parts.trans (zero_add _),
        by simp [LeoCoin.blockchainDeserialize, ran]⟩)
    · rw [ran] at ends stays
      obtain ⟨_, after, _, yields, rfl, -, ⟨placed, rfl, holds, rfl⟩, parts⟩ := ends
      exact .inr (.inr ⟨placed, blockchain, after, yields, stays, holds, parts,
        by simp [LeoCoin.blockchainDeserialize, ran]⟩)

/-- What is there after a call of `blockchain_deserialize`. -/
def Leaves (order : ByteOrder) (input : Input) (prior : Option Blockchain) (start : Process)
    (result : Except Failure Nat) (after : Process) : Prop :=
  match result with
  | .ok address => ∃ (placed : PlacedChain) (blockchain : Blockchain), placed.address = address ∧
      placed.Holds blockchain ∧ pieces after = placed.pieces + pieces start ∧
      LeoCoin.blockchainDeserialize order input prior = ⟨.success, some blockchain, after.cursor.position⟩
  | .error failure => pieces after = pieces start ∧
      LeoCoin.blockchainDeserialize order input prior = ⟨failure, prior, after.cursor.position⟩

/-- An allocator that grants no more than 64 requests, of at most 10000 bytes each. -/
def sparing (ordinal size : Nat) : Bool := ordinal < 64 && size ≤ 10000

theorem sparing_bounded (requests : List Nat) (granted : Granted sparing requests) :
    requests.length ≤ 64 ∧ requests.sum ≤ 10000 * requests.length := by
  induction requests with
  | nil => simp
  | cons size earlier ih =>
    obtain ⟨here, before⟩ := granted
    have bounds := ih before
    simp only [sparing, Bool.and_eq_true, decide_eq_true_eq] at here
    simp only [List.length_cons, List.sum_cons]
    omega

/-- Nothing has been allocated. -/
def emptyProcess : Process := ⟨⟨.empty, .empty, []⟩, .empty, ⟨0, []⟩⟩

theorem sparing_spacious (byteAt : Nat → UInt8) (size : Nat) :
    Spacious ⟨byteAt, size, sparing⟩ (weight (pieces emptyProcess)) := by
  intro requests granted
  have bounds := sparing_bounded requests granted
  have nothing : weight (pieces emptyProcess) = 0 := rfl
  omega

/-- A buffer, and little to decode it with. -/
def sparingInput (buffer : List UInt8) : Input := Input.ofBuffer buffer (fun _ => 0) sparing

/-- What is serialized is decoded where that is enough. -/
theorem sparing_deserializes (order : ByteOrder) {buffer : List UInt8} {blockchain : Blockchain}
    (held : (sparingInput buffer).Holds 0 (encodeBlockchain blockchain)) (fits : blockchain.SignaturesFit)
    (inside : blockchainNeeds blockchain ≤ buffer.length)
    (granted : Granted sparing (chainRequests blockchain.blockList)) :
    LeoCoin.blockchainDeserialize order (sparingInput buffer) none =
      ⟨.success, some blockchain, (encodeBlockchain blockchain).length⟩ := by
  have decodes : LeoCoin.blockchainDeserialize order (Input.ofBuffer buffer (fun _ => 0) grantAll) none =
      ⟨.success, some blockchain, (encodeBlockchain blockchain).length⟩ :=
    deserialize_of_holds (generous_ofBuffer _ _) held inside fits.acceptable
  exact deserialize_of_granted decodes granted

theorem sampleChain_deserializes (order : ByteOrder) (mined : UInt8)
    (granted : Granted sparing (chainRequests (sampleChain mined).blockList)) :
    LeoCoin.blockchainDeserialize order (sparingInput (encodeBlockchain (sampleChain mined))) none =
      ⟨.success, some (sampleChain mined), (encodeBlockchain (sampleChain mined)).length⟩ :=
  have fits := sampleChain_signaturesFit mined
  sparing_deserializes order (Input.ofBuffer_holds _ _ _) fits fits.needs_le granted

theorem sampleChain_placed (order : ByteOrder) (mined : UInt8)
    (granted : Granted sparing (chainRequests (sampleChain mined).blockList)) :
    ∃ (placed : PlacedChain) (after : Process),
      Yields (fun rounds =>
        blockchainDeserialize order (sparingInput (encodeBlockchain (sampleChain mined))) 0 rounds) emptyProcess
          (.ok placed.address) after ∧
      placed.Holds (sampleChain mined) ∧ pieces after = placed.pieces := by
  have decoded := sampleChain_deserializes order mined granted
  rcases deserialize_outcomes order (sparingInput (encodeBlockchain (sampleChain mined))) 0 none
      (show emptyProcess.cursor = ⟨0, []⟩ from rfl) (sparing_spacious _ _) with
    ⟨outside, -⟩ | ⟨failure, _, -, -, -, decodes⟩ | ⟨placed, blockchain, after, yields, -, holds, parts, decodes⟩
  · rw [decoded] at outside
    exact absurd outside (Nat.lt_irrefl _)
  · rw [decoded] at decodes
    exact absurd (congrArg Deserialization.returnCode decodes).symm failure.property
  · rw [decoded] at decodes
    have same : sampleChain mined = blockchain := Option.some.inj (congrArg Deserialization.blockchain decodes)
    have nothing : pieces emptyProcess = 0 := rfl
    rw [nothing, add_zero] at parts
    exact ⟨placed, after, yields, same ▸ holds, parts⟩

/-- A call of `blockchain_deserialize` uses what is not there exactly where it reads behind its buffer.
Otherwise it ends, frees nothing twice, and leaves the chain that its decoder has read, or nothing at all
where it fails. -/
theorem deserialized_chain_is_owned (order : ByteOrder) (input : Input) (now : Int64) (prior : Option Blockchain)
    (start : Process) (begins : start.cursor = ⟨0, []⟩) (spacious : Spacious input (weight (pieces start))) :
    (ComesTo (fun rounds => blockchainDeserialize order input now rounds start) .undefined ↔
      input.size < (LeoCoin.blockchainDeserialize order input prior).examined) ∧
    ((LeoCoin.blockchainDeserialize order input prior).examined ≤ input.size →
      ∃ result after, Yields (fun rounds => blockchainDeserialize order input now rounds) start result after ∧
        Leaves order input prior start result after) := by
  rcases deserialize_outcomes order input now prior begins spacious with
    ⟨outside, undefined⟩ | ⟨failure, after, yields, inside, same, decodes⟩ |
      ⟨placed, blockchain, after, yields, inside, holds, parts, decodes⟩
  · exact ⟨⟨fun _ => outside, fun _ => undefined⟩, fun inside => absurd outside (Nat.not_lt.mpr inside)⟩
  · have stays : (LeoCoin.blockchainDeserialize order input prior).examined ≤ input.size := by rwa [decodes]
    refine ⟨⟨fun undefined => absurd (ComesTo.unique yields undefined) (by simp), fun outside => ?_⟩,
      fun _ => ⟨.error failure, after, yields, same, decodes⟩⟩
    exact absurd outside (Nat.not_lt.mpr stays)
  · have stays : (LeoCoin.blockchainDeserialize order input prior).examined ≤ input.size := by rwa [decodes]
    refine ⟨⟨fun undefined => absurd (ComesTo.unique yields undefined) (by simp), fun outside => ?_⟩,
      fun _ => ⟨.ok placed.address, after, yields, placed, blockchain, rfl, holds, parts, decodes⟩⟩
    exact absurd outside (Nat.not_lt.mpr stays)

/-- A chain with a block is decoded; where its last signature is cut, the memory behind the buffer is read. -/
theorem deserialized_chain_is_owned_sample :
    (∃ (placed : PlacedChain) (after : Process),
      Yields (fun rounds =>
        blockchainDeserialize .littleEndian (sparingInput (encodeBlockchain (sampleChain 1))) 0 rounds) emptyProcess
          (.ok placed.address) after ∧
      placed.Holds (sampleChain 1) ∧ pieces after = placed.pieces + pieces emptyProcess) ∧
    ComesTo (fun rounds => blockchainDeserialize .littleEndian (sparingInput cutBuffer) 0 rounds emptyProcess)
      .undefined := by
  have decodes := sampleChain_deserializes .littleEndian 1 (by decide)
  constructor
  · obtain ⟨-, owned⟩ := deserialized_chain_is_owned .littleEndian (sparingInput (encodeBlockchain (sampleChain 1))) 0
      none emptyProcess rfl (sparing_spacious _ _)
    obtain ⟨result, after, yields, leaves⟩ := owned (by rw [decodes]; exact Nat.le_refl _)
    cases result with
    | error failure =>
      have fails := leaves.2
      rw [decodes] at fails
      exact absurd (congrArg Deserialization.returnCode fails).symm failure.property
    | ok address =>
      obtain ⟨placed, blockchain, rfl, holds, parts, same⟩ := leaves
      rw [decodes] at same
      have decoded : sampleChain 1 = blockchain := Option.some.inj (congrArg Deserialization.blockchain same)
      exact ⟨placed, after, yields, decoded ▸ holds, parts⟩
  · obtain ⟨undefined, -⟩ := deserialized_chain_is_owned .littleEndian (sparingInput cutBuffer) 0 none emptyProcess rfl
      (sparing_spacious _ _)
    -- the byte behind the buffer is taken for the last one of the signature
    have held : (sparingInput cutBuffer).Holds 0 (encodeBlockchain halfSignedChain) := by
      rw [cutBuffer_begins, Input.holds_append]
      refine ⟨Input.ofBuffer_holds _ _ _, fun index bound => ?_⟩
      obtain rfl : index = 0 := Nat.lt_one_iff.mp bound
      simp [sparingInput, Input.ofBuffer]
    have needs : blockchainNeeds halfSignedChain = 8544 := by decide
    rw [undefined, sparing_deserializes .littleEndian held halfSignedChain_signaturesFit
      (by rw [needs, cutBuffer_length]; decide) (by decide), cutBuffer_begins, List.length_append]
    simp [sparingInput]

end ChainMemory

end LeoCoin
