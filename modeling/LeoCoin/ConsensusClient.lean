import Mathlib.Order.Bounds.Basic
import LeoCoin.Consensus

/-! # The client's round

`run_consensus_peer_client` copies the list of peers and exchanges chains with one after the
other.  A failed exchange is skipped, but one that never ends keeps the client from all
peers behind it: `recv_all` waits forever for a peer that closes its connection.
-/

namespace LeoCoin

open Library.Decoding

variable {PKey : Type}

/-! ## One exchange -/

/-- The client's part of an exchange up to `send_all`: how it ends, and what was sent. -/
def requestBlockchain (order : ByteOrder) (environment : Environment) (sync : Sync) :
    Except Stop Unit × List UInt8 :=
  if !environment.socket then (.error (.failure .networkFunction), [])
  else if !environment.connects then (.error (.failure .networkFunction), [])
  else
    match blockchainCommand environment.serializeGrants order (.initial .sendBlockchain) sync.blockchain with
    | .error code => (.error (.failure code), [])
    | .ok command =>
      match commandSendBlockchainSerialize environment.frameGrants order command with
      | .error code => (.error (.failure code), [])
      | .ok (sendBuf, _) => sendAll environment.breaksAfter sendBuf

section Exchange

variable (platform : Platform PKey) (environment : Environment) (sync : Sync) (stream : Stream)

/-- An exchange is a request and, once that is sent, a decision on the answer. -/
theorem run_consensus_peer_client_once_cases :
    (∃ code sent, requestBlockchain platform.order environment sync = (.error (.failure code), sent) ∧
        (runConsensusPeerClientOnce platform environment sync stream).outcome = .error (.failure code) ∧
        (runConsensusPeerClientOnce platform environment sync stream).sync = sync ∧
        (runConsensusPeerClientOnce platform environment sync stream).sent = sent) ∨
      (∃ sent, requestBlockchain platform.order environment sync = (.ok (), sent) ∧
        (runConsensusPeerClientOnce platform environment sync stream).outcome =
          (receiveBlockchain platform .runConsensusPeerClientOnce environment stream).map (fun _ => ()) ∧
        (runConsensusPeerClientOnce platform environment sync stream).sync =
          sync.considering (receiveBlockchain platform .runConsensusPeerClientOnce environment stream) ∧
        (runConsensusPeerClientOnce platform environment sync stream).sent = sent) := by
  rw [requestBlockchain, runConsensusPeerClientOnce]
  cases environment.socket with
  | false => exact .inl ⟨_, _, rfl, rfl, rfl, rfl⟩
  | true =>
    cases environment.connects with
    | false => exact .inl ⟨_, _, rfl, rfl, rfl, rfl⟩
    | true =>
      dsimp only [Bool.not_true]
      cases blockchainCommand environment.serializeGrants platform.order (.initial .sendBlockchain)
          sync.blockchain with
      | error code => exact .inl ⟨_, _, rfl, rfl, rfl, rfl⟩
      | ok command =>
        dsimp only
        cases commandSendBlockchainSerialize environment.frameGrants platform.order command with
        | error code => exact .inl ⟨_, _, rfl, rfl, rfl, rfl⟩
        | ok framed =>
          dsimp only
          cases environment.breaksAfter with
          | some count => exact .inl ⟨_, _, rfl, rfl, rfl, rfl⟩
          | none =>
            refine .inr ⟨_, rfl, ?_⟩
            cases receiveBlockchain platform .runConsensusPeerClientOnce environment stream with
            | error stop => exact ⟨rfl, rfl, rfl⟩
            | ok received => exact ⟨rfl, rfl, rfl⟩

end Exchange

/-! ## The answer -/

/-- The connection delivers a whole command, and its bytes decode to this chain. -/
def Brings (platform : Platform PKey) (path : ReceivePath) (environment : Environment) (stream : Stream)
    (blockchain : Blockchain) : Prop :=
  ∃ recvBuf command examined,
    (receiveCommand path environment.receive platform.order stream).outcome = .ok recvBuf ∧
      decodeBuffer (commandSendBlockchainDeserialize platform.order)
        (Input.ofBuffer recvBuf environment.behindCommand environment.commandGrants) = .ok command ∧
      blockchainDeserialize platform.order
        (Input.ofBuffer command.blockchainData environment.behindBlockchain environment.blockchainGrants) none =
        ⟨.success, some blockchain, examined⟩

section Answer

variable {platform : Platform PKey} {path : ReceivePath} {environment : Environment} {stream : Stream}

theorem Brings.unique {blockchain other : Blockchain} (brings : Brings platform path environment stream blockchain)
    (otherBrings : Brings platform path environment stream other) : blockchain = other := by
  obtain ⟨recvBuf, command, examined, received, decoded, deserialized⟩ := brings
  obtain ⟨_, _, _, otherReceived, otherDecoded, otherDeserialized⟩ := otherBrings
  rw [received] at otherReceived
  cases otherReceived
  rw [decoded] at otherDecoded
  cases otherDecoded
  rw [deserialized] at otherDeserialized
  cases otherDeserialized
  rfl

theorem deserialize_none {order : ByteOrder} {input : Input} {prior : Option Blockchain} {returnCode : ReturnCode}
    {examined : Nat} (unset : blockchainDeserialize order input prior = ⟨returnCode, none, examined⟩) :
    returnCode ≠ .success := by
  rw [blockchainDeserialize] at unset
  split at unset
  next => cases unset
  next fault final ran =>
    obtain ⟨rfl, -, -⟩ := Deserialization.mk.inj unset
    exact (Failure.ofFault fault).property

theorem receiveBlockchain_returns : returns (receiveBlockchain platform path environment stream) =
    returns (receiveCommand path environment.receive platform.order stream).outcome := by
  rw [receiveBlockchain]
  cases (receiveCommand path environment.receive platform.order stream).outcome with
  | error stop => cases stop <;> rfl
  | ok recvBuf =>
    dsimp only
    cases decodeBuffer (commandSendBlockchainDeserialize platform.order)
        (Input.ofBuffer recvBuf environment.behindCommand environment.commandGrants) with
    | error code => rfl
    | ok command =>
      dsimp only
      cases decoded : blockchainDeserialize platform.order
          (Input.ofBuffer command.blockchainData environment.behindBlockchain environment.blockchainGrants) none with
      | mk returnCode blockchain examined =>
        dsimp only
        split
        · rfl
        next succeeded =>
          cases blockchain with
          | none => exact absurd (not_not.mp succeeded) (deserialize_none decoded)
          | some blockchain =>
            dsimp only
            split <;> rfl

/-- The chain that comes out is the one the connection brings, with the verdict of
`blockchain_verify` on it. -/
theorem brings_of_receiveBlockchain {header : CommandHeader} {blockchain : Blockchain} {isValid : Bool}
    (received : receiveBlockchain platform path environment stream = .ok (header, blockchain, isValid)) :
    Brings platform path environment stream blockchain ∧
      (isValid = true ↔ (blockchainVerify platform blockchain).Accepts) := by
  rw [receiveBlockchain] at received
  cases first : (receiveCommand path environment.receive platform.order stream).outcome with
  | error stop =>
    rw [first] at received
    cases received
  | ok recvBuf =>
    rw [first] at received
    dsimp only at received
    cases second : decodeBuffer (commandSendBlockchainDeserialize platform.order)
        (Input.ofBuffer recvBuf environment.behindCommand environment.commandGrants) with
    | error code =>
      rw [second] at received
      cases received
    | ok command =>
      rw [second] at received
      dsimp only at received
      cases third : blockchainDeserialize platform.order
          (Input.ofBuffer command.blockchainData environment.behindBlockchain environment.blockchainGrants) none with
      | mk returnCode result examined =>
        rw [third] at received
        dsimp only at received
        split at received
        · cases received
        next succeeded =>
          obtain rfl := not_not.mp succeeded
          cases result with
          | none => cases received
          | some found =>
            dsimp only at received
            split at received
            · cases received
            next verified =>
              cases received
              refine ⟨⟨recvBuf, command, examined, first, second, third⟩, ?_⟩
              cases verdict : (blockchainVerify platform blockchain).isValidBlockchain with
              | none => simp [Verification.Accepts, verdict]
              | some isValid => simp [Verification.Accepts, verdict, not_not.mp verified]

end Answer

/-! ## The round -/

/-- The other ends of the connections as the client meets them: what happens to an exchange
with a listed peer, what the peer answers to what it is sent, and how things are afterwards. -/
structure Network (σ α : Type) where
  environment : σ → α → Environment
  answer : σ → α → List UInt8 → Stream
  after : σ → α → List UInt8 → σ

/-- One call of `run_consensus_peer_client_once` and what it meets. -/
structure Attempt (α : Type) where
  peer : α
  before : Sync
  environment : Environment
  answer : Stream

def Attempt.exchange {α : Type} (platform : Platform PKey) (attempt : Attempt α) : Exchange :=
  runConsensusPeerClientOnce platform attempt.environment attempt.before attempt.answer

/-- What a call of `run_consensus_peer_client` comes to: the code it returns if it returns, the
node afterwards and the exchanges in order. -/
structure ClientRun (α : Type) where
  returnCode : Option ReturnCode
  sync : Sync
  attempts : List (Attempt α)

/-- The allocations of a round: the list for the copy, a peer and a node for each entry, and
the code that is returned. -/
structure RoundMemory where
  list : Bool
  copies : Nat → Bool
  returnCode : Bool

section Round

variable {σ α : Type}

/-- The copy has the peers in reverse.  Where a peer cannot be allocated, the code of the call
before it is kept, and that is `SUCCESS`. -/
def copyPeers (grants : Nat → Bool) : Nat → List α → List α → Except ReturnCode (List α)
  | _, copy, [] => .ok copy
  | ordinal, copy, peer :: rest =>
    if !grants ordinal then .error .success
    else if !grants (ordinal + 1) then .error .failureCouldNotMalloc
    else copyPeers grants (ordinal + 2) (peer :: copy) rest

def attemptPeer (platform : Platform PKey) (network : Network σ α) (state : σ) (sync : Sync) (peer : α) :
    Attempt α where
  peer := peer
  before := sync
  environment := network.environment state peer
  answer := network.answer state peer (requestBlockchain platform.order (network.environment state peer) sync).2

/-- The `while` loop.  A failed exchange is passed over; the code at the end is the one of
`linked_list_destroy`. -/
def contactPeers (platform : Platform PKey) (network : Network σ α) (shouldStop : Nat → Bool) :
    Nat → List α → σ → Sync → ClientRun α
  | _, [], _, sync => ⟨some .success, sync, []⟩
  | reading, peer :: rest, state, sync =>
    if shouldStop reading then
      ⟨some .success, sync, []⟩
    else
      let attempt := attemptPeer platform network state sync peer
      let exchange := attempt.exchange platform
      if returns exchange.outcome then
        let later := contactPeers platform network shouldStop (reading + 1) rest
          (network.after state peer exchange.sent) exchange.sync
        { later with attempts := attempt :: later.attempts }
      else
        ⟨none, exchange.sync, [attempt]⟩

/-- `run_consensus_peer_client`; the code is written through a pointer that is not checked. -/
def runConsensusPeerClient (platform : Platform PKey) (network : Network σ α) (memory : RoundMemory)
    (shouldStop : Nat → Bool) (peers : List α) (state : σ) (sync : Sync) : ClientRun α :=
  let run :=
    if !memory.list then
      ⟨some .failureCouldNotMalloc, sync, []⟩
    else
      match copyPeers memory.copies 0 [] peers with
      | .error code => ⟨some code, sync, []⟩
      | .ok copy => contactPeers platform network shouldStop 0 copy state sync
  if memory.returnCode then run else { run with returnCode := none }

/-! ## What a round is for -/

/-- Each exchange starts with what the one before it left. -/
def Threads (platform : Platform PKey) : Sync → List (Attempt α) → Sync → Prop
  | first, [], last => first = last
  | first, attempt :: rest, last => attempt.before = first ∧ Threads platform (attempt.exchange platform).sync rest last

/-- The lengths of the chains that came in replies received to the end and are valid and as
difficult as ours. -/
def repliedLengths (platform : Platform PKey) (difficulty : UInt64) (attempts : List (Attempt α)) : Set Nat :=
  {length | ∃ attempt ∈ attempts, ∃ blockchain, (attempt.exchange platform).outcome = .ok () ∧
    Brings platform .runConsensusPeerClientOnce attempt.environment attempt.answer blockchain ∧
    (blockchainVerify platform blockchain).Accepts ∧
    difficulty = blockchain.numLeadingZeroBytesRequiredInBlockHash ∧ blockchain.blockList.length = length}

/-- A round returns after it has tried every listed peer once; failed exchanges change nothing,
and our chain ends up as long as the longest of the chains it could choose from. -/
structure GathersLongest (platform : Platform PKey) (peers : List α) (sync : Sync) (run : ClientRun α) : Prop where
  returns : run.returnCode.isSome = true
  contacts : (run.attempts.map Attempt.peer).Perm peers
  threads : Threads platform sync run.attempts run.sync
  failed : ∀ attempt ∈ run.attempts, ∀ stop, (attempt.exchange platform).outcome = .error stop →
    (attempt.exchange platform).sync = attempt.before
  longest : IsGreatest
    (insert sync.blockchain.blockList.length
      (repliedLengths platform sync.blockchain.numLeadingZeroBytesRequiredInBlockHash run.attempts))
    run.sync.blockchain.blockList.length

/-- A sent request is not answered with a connection that the receive loop never gets through. -/
def Settles (platform : Platform PKey) (network : Network σ α) (state : σ) (sync : Sync) (peer : α) : Prop :=
  let environment := network.environment state peer
  let request := requestBlockchain platform.order environment sync
  request.1 = .ok () → environment.receive.calloc = true →
    ¬ Stalls .runConsensusPeerClientOnce environment.receive (network.answer state peer request.2)

/-- So it is with each peer, in the state that the exchanges before it lead to. -/
def AllSettle (platform : Platform PKey) (network : Network σ α) : List α → σ → Sync → Prop
  | [], _, _ => True
  | peer :: rest, state, sync =>
    Settles platform network state sync peer ∧
      AllSettle platform network rest
        (network.after state peer ((attemptPeer platform network state sync peer).exchange platform).sent)
        ((attemptPeer platform network state sync peer).exchange platform).sync

/-- The list can be copied: there is nothing to copy, or every allocation is granted. -/
def Copied (memory : RoundMemory) (peers : List α) : Prop :=
  peers = [] ∨ memory.list = true ∧ ∀ ordinal < 2 * peers.length, memory.copies ordinal = true

/-! ## One attempt -/

variable {platform : Platform PKey} {network : Network σ α} {state : σ} {sync : Sync} {peer : α}

theorem returns_attempt_iff :
    returns ((attemptPeer platform network state sync peer).exchange platform).outcome = true ↔
      Settles platform network state sync peer := by
  rw [Settles, Attempt.exchange]
  dsimp only [attemptPeer]
  generalize network.answer state peer _ = answer
  generalize network.environment state peer = environment
  rcases run_consensus_peer_client_once_cases platform environment sync answer with
    ⟨code, sent, request, outcome, -, -⟩ | ⟨sent, request, outcome, -, -⟩
  · simp [request, outcome, LeoCoin.returns]
  · have same : returns (runConsensusPeerClientOnce platform environment sync answer).outcome =
        returns (receiveBlockchain platform .runConsensusPeerClientOnce environment answer) := by
      rw [outcome]
      cases receiveBlockchain platform .runConsensusPeerClientOnce environment answer with
      | error stop => cases stop <;> rfl
      | ok received => rfl
    rw [same, receiveBlockchain_returns, request]
    cases granted : environment.receive.calloc with
    | false => simp [receiveCommand, granted, LeoCoin.returns]
    | true => simp [receiveCommand_returns_iff granted]

theorem Attempt.exchange_cases (platform : Platform PKey) (attempt : Attempt α) :
    (∃ stop, (attempt.exchange platform).outcome = .error stop ∧ (attempt.exchange platform).sync = attempt.before) ∨
      ((attempt.exchange platform).outcome = .ok () ∧ ∃ blockchain isValid,
        Brings platform .runConsensusPeerClientOnce attempt.environment attempt.answer blockchain ∧
        (isValid = true ↔ (blockchainVerify platform blockchain).Accepts) ∧
        (attempt.exchange platform).sync = considerPeerBlockchain attempt.before blockchain isValid) := by
  rw [Attempt.exchange]
  rcases run_consensus_peer_client_once_cases platform attempt.environment attempt.before attempt.answer with
    ⟨code, sent, -, outcome, kept, -⟩ | ⟨sent, -, outcome, decided, -⟩
  · exact .inl ⟨_, outcome, kept⟩
  · rw [outcome, decided]
    cases received : receiveBlockchain platform .runConsensusPeerClientOnce attempt.environment attempt.answer with
    | error stop => exact .inl ⟨stop, rfl, rfl⟩
    | ok result =>
      obtain ⟨header, blockchain, isValid⟩ := result
      obtain ⟨brings, verdict⟩ := brings_of_receiveBlockchain received
      exact .inr ⟨rfl, blockchain, isValid, brings, verdict, rfl⟩

theorem Attempt.kept_of_failed (platform : Platform PKey) (attempt : Attempt α) {stop : Stop}
    (fails : (attempt.exchange platform).outcome = .error stop) :
    (attempt.exchange platform).sync = attempt.before := by
  rcases attempt.exchange_cases platform with ⟨_, -, kept⟩ | ⟨completed, -⟩
  · exact kept
  · rw [completed] at fails
    cases fails

theorem considerPeerBlockchain_difficulty (sync : Sync) (peerBlockchain : Blockchain) (isValid : Bool) :
    (considerPeerBlockchain sync peerBlockchain isValid).blockchain.numLeadingZeroBytesRequiredInBlockHash =
      sync.blockchain.numLeadingZeroBytesRequiredInBlockHash := by
  rw [considerPeerBlockchain]
  split
  next adopts => exact (prefersPeer_iff.mp (Bool.and_eq_true_iff.mp adopts).2).2.symm
  next => rfl

theorem Attempt.difficulty (platform : Platform PKey) (attempt : Attempt α) :
    (attempt.exchange platform).sync.blockchain.numLeadingZeroBytesRequiredInBlockHash =
      attempt.before.blockchain.numLeadingZeroBytesRequiredInBlockHash := by
  rcases attempt.exchange_cases platform with ⟨stop, -, kept⟩ | ⟨-, blockchain, isValid, -, -, decided⟩
  · rw [kept]
  · rw [decided]
    exact considerPeerBlockchain_difficulty attempt.before blockchain isValid

/-- After one exchange our chain is as long as the longer one of ours and the one that came. -/
theorem Attempt.longest (platform : Platform PKey) (attempt : Attempt α) :
    IsGreatest
      (insert attempt.before.blockchain.blockList.length
        (repliedLengths platform attempt.before.blockchain.numLeadingZeroBytesRequiredInBlockHash [attempt]))
      (attempt.exchange platform).sync.blockchain.blockList.length := by
  rcases attempt.exchange_cases platform with ⟨stop, failed, kept⟩ |
    ⟨completed, blockchain, isValid, brings, verdict, decided⟩
  · rw [kept]
    refine ⟨Set.mem_insert _ _, ?_⟩
    rintro length (rfl | ⟨other, member, _, completed, -⟩)
    · exact Nat.le_refl _
    · obtain rfl := List.mem_singleton.mp member
      rw [failed] at completed
      cases completed
  · rw [decided, considerPeerBlockchain]
    split
    next adopts =>
      obtain ⟨valid, preferred⟩ := Bool.and_eq_true_iff.mp adopts
      obtain ⟨longer, sameDifficulty⟩ := prefersPeer_iff.mp preferred
      refine ⟨.inr ⟨attempt, List.mem_singleton_self _, blockchain, completed, brings, verdict.mp valid,
        sameDifficulty, rfl⟩, ?_⟩
      rintro length (rfl | ⟨other, member, otherBlockchain, -, otherBrings, -, -, rfl⟩)
      · exact Nat.le_of_lt longer
      · obtain rfl := List.mem_singleton.mp member
        rw [brings.unique otherBrings]
    next keeps =>
      refine ⟨Set.mem_insert _ _, ?_⟩
      rintro length (rfl | ⟨other, member, otherBlockchain, -, otherBrings, accepted, sameDifficulty, rfl⟩)
      · exact Nat.le_refl _
      · obtain rfl := List.mem_singleton.mp member
        obtain rfl := brings.unique otherBrings
        by_contra longer
        have preferred := prefersPeer_iff.mpr ⟨Nat.lt_of_not_le longer, sameDifficulty⟩
        exact keeps (Bool.and_eq_true_iff.mpr ⟨verdict.mpr accepted, preferred⟩)

/-! ## All attempts -/

theorem isGreatest_insert_trans {first middle last : Nat} {earlier later : Set Nat}
    (before : IsGreatest (insert first earlier) middle) (after : IsGreatest (insert middle later) last) :
    IsGreatest (insert first (earlier ∪ later)) last := by
  have middleLe : middle ≤ last := after.2 (Set.mem_insert _ _)
  refine ⟨?_, ?_⟩
  · rcases after.1 with same | fromLater
    · rcases before.1 with first_ | fromEarlier
      · exact .inl (same.trans first_)
      · exact .inr (.inl (same ▸ fromEarlier))
    · exact .inr (.inr fromLater)
  · rintro length (rfl | fromEarlier | fromLater)
    · exact (before.2 (Set.mem_insert _ _)).trans middleLe
    · exact (before.2 (.inr fromEarlier)).trans middleLe
    · exact after.2 (.inr fromLater)

theorem repliedLengths_cons (platform : Platform PKey) (difficulty : UInt64) (attempt : Attempt α)
    (rest : List (Attempt α)) :
    repliedLengths platform difficulty (attempt :: rest) =
      repliedLengths platform difficulty [attempt] ∪ repliedLengths platform difficulty rest := by
  ext length
  simp only [repliedLengths, Set.mem_union, Set.mem_ofPred_eq, List.mem_cons, List.not_mem_nil, or_false,
    or_and_right, exists_or]

/-- The longest chain along exchanges of which each starts with what the one before left. -/
theorem Threads.longest {attempts : List (Attempt α)} {last : Sync} (threads : Threads platform sync attempts last) :
    IsGreatest
      (insert sync.blockchain.blockList.length
        (repliedLengths platform sync.blockchain.numLeadingZeroBytesRequiredInBlockHash attempts))
      last.blockchain.blockList.length := by
  induction attempts generalizing sync with
  | nil =>
    obtain rfl : sync = last := threads
    refine ⟨Set.mem_insert _ _, ?_⟩
    rintro length (rfl | ⟨attempt, member, -⟩)
    · exact Nat.le_refl _
    · cases member
  | cons attempt rest ih =>
    obtain ⟨rfl, later⟩ := threads
    have following := ih later
    rw [attempt.difficulty platform] at following
    rw [repliedLengths_cons]
    exact isGreatest_insert_trans (attempt.longest platform) following

section Loop

variable {shouldStop : Nat → Bool}

theorem contactPeers_settled (goesOn : ∀ reading, shouldStop reading = false) {peers : List α} (reading : Nat)
    (settle : AllSettle platform network peers state sync) :
    let run := contactPeers platform network shouldStop reading peers state sync
    run.returnCode = some .success ∧ run.attempts.map Attempt.peer = peers ∧
      Threads platform sync run.attempts run.sync := by
  induction peers generalizing reading state sync with
  | nil => exact ⟨rfl, rfl, rfl⟩
  | cons peer rest ih =>
    obtain ⟨first, later⟩ := settle
    obtain ⟨code, contacted, threads⟩ := ih (reading + 1) later
    have ends := returns_attempt_iff.mpr first
    simp only [contactPeers, goesOn, Bool.false_eq_true, if_false, ends, if_true]
    exact ⟨code, congrArg (peer :: ·) contacted, rfl, threads⟩

/-- Where one does not, the round never returns. -/
theorem contactPeers_stuck (goesOn : ∀ reading, shouldStop reading = false) {peers : List α} {reading : Nat}
    (stuck : ¬ AllSettle platform network peers state sync) :
    (contactPeers platform network shouldStop reading peers state sync).returnCode = none := by
  induction peers generalizing reading state sync with
  | nil => exact absurd trivial stuck
  | cons peer rest ih =>
    simp only [contactPeers, goesOn, Bool.false_eq_true, if_false]
    split
    next ends => exact ih fun later => stuck ⟨returns_attempt_iff.mp ends, later⟩
    next => rfl

theorem copyPeers_granted {grants : Nat → Bool} (ordinal : Nat) (copy : List α) {peers : List α}
    (granted : ∀ index < 2 * peers.length, grants (ordinal + index) = true) :
    copyPeers grants ordinal copy peers = .ok (peers.reverse ++ copy) := by
  induction peers generalizing ordinal copy with
  | nil => rfl
  | cons peer rest ih =>
    rw [List.length_cons] at granted
    have own := granted 0 (by omega)
    have node := granted 1 (by omega)
    rw [Nat.add_zero] at own
    rw [copyPeers, own, node, List.reverse_cons, List.append_assoc]
    apply ih
    intro index inside
    rw [Nat.add_assoc]
    exact granted (2 + index) (by omega)

theorem copyPeers_refused {grants : Nat → Bool} (ordinal : Nat) (copy : List α) {peers : List α}
    (refused : ¬ ∀ index < 2 * peers.length, grants (ordinal + index) = true) :
    ∃ code, copyPeers grants ordinal copy peers = .error code := by
  induction peers generalizing ordinal copy with
  | nil => exact absurd (fun index inside => absurd inside (Nat.not_lt_zero _)) refused
  | cons peer rest ih =>
    rw [copyPeers]
    cases own : grants ordinal with
    | false => exact ⟨_, rfl⟩
    | true =>
      cases node : grants (ordinal + 1) with
      | false => exact ⟨_, rfl⟩
      | true =>
        apply ih
        intro granted
        apply refused
        intro index inside
        rw [List.length_cons] at inside
        match index with
        | 0 => exact own
        | 1 => exact node
        | index + 2 =>
          have later := granted index (by omega)
          rwa [show ordinal + 2 + index = ordinal + (index + 2) by omega] at later

end Loop

theorem run_consensus_peer_client_copied {memory : RoundMemory} {shouldStop : Nat → Bool} {peers : List α}
    (written : memory.returnCode = true) (list : memory.list = true)
    (granted : ∀ ordinal < 2 * peers.length, memory.copies ordinal = true) :
    runConsensusPeerClient platform network memory shouldStop peers state sync =
      contactPeers platform network shouldStop 0 peers.reverse state sync := by
  have copied : copyPeers memory.copies 0 [] peers = .ok (peers.reverse ++ []) := by
    apply copyPeers_granted
    intro index inside
    rw [Nat.zero_add]
    exact granted index inside
  rw [List.append_nil] at copied
  simp only [runConsensusPeerClient, list, written, copied, Bool.not_true, Bool.false_eq_true, if_false, if_true]

theorem run_consensus_peer_client_uncopied (platform : Platform PKey) (network : Network σ α)
    (shouldStop : Nat → Bool) (state : σ) (sync : Sync) {memory : RoundMemory} {peers : List α}
    (uncopied : ¬ (memory.list = true ∧ ∀ ordinal < 2 * peers.length, memory.copies ordinal = true)) :
    ∃ code, (runConsensusPeerClient platform network memory shouldStop peers state sync).sync = sync ∧
      (runConsensusPeerClient platform network memory shouldStop peers state sync).attempts = [] ∧
      (memory.returnCode = true →
        (runConsensusPeerClient platform network memory shouldStop peers state sync).returnCode = some code) := by
  rw [runConsensusPeerClient]
  cases list : memory.list with
  | false =>
    cases memory.returnCode with
    | false => exact ⟨.success, rfl, rfl, nofun⟩
    | true => exact ⟨_, rfl, rfl, fun _ => rfl⟩
  | true =>
    obtain ⟨code, refused⟩ : ∃ code, copyPeers memory.copies 0 [] peers = .error code := by
      apply copyPeers_refused
      intro granted
      refine uncopied ⟨list, fun ordinal inside => ?_⟩
      rw [← Nat.zero_add ordinal]
      exact granted ordinal inside
    simp only [refused]
    cases memory.returnCode with
    | false => exact ⟨.success, rfl, rfl, nofun⟩
    | true => exact ⟨code, rfl, rfl, fun _ => rfl⟩

theorem settles_of_gathers {memory : RoundMemory} {shouldStop : Nat → Bool} {peers : List α}
    (goesOn : ∀ reading, shouldStop reading = false)
    (gathers : GathersLongest platform peers sync
      (runConsensusPeerClient platform network memory shouldStop peers state sync)) :
    memory.returnCode = true ∧ Copied memory peers ∧ AllSettle platform network peers.reverse state sync := by
  have returned := gathers.returns
  cases written : memory.returnCode with
  | false => simp [runConsensusPeerClient, written] at returned
  | true =>
    refine ⟨rfl, ?_⟩
    by_cases copied : memory.list = true ∧ ∀ ordinal < 2 * peers.length, memory.copies ordinal = true
    · refine ⟨.inr copied, ?_⟩
      by_contra stuck
      rw [run_consensus_peer_client_copied written copied.1 copied.2, contactPeers_stuck goesOn stuck] at returned
      cases returned
    · -- without a copy nobody is contacted, so there was nobody to contact
      obtain ⟨code, -, nothing, -⟩ := run_consensus_peer_client_uncopied platform network
        shouldStop state sync copied
      have contacts := gathers.contacts
      rw [nothing] at contacts
      obtain rfl := List.nil_perm.mp contacts
      exact ⟨.inl rfl, trivial⟩

/-- A round that is not held up contacts every peer, each exchange from where the one before left. -/
theorem run_consensus_peer_client_settled {memory : RoundMemory} {shouldStop : Nat → Bool} {peers : List α}
    (goesOn : ∀ reading, shouldStop reading = false) (written : memory.returnCode = true)
    (copied : Copied memory peers) (settle : AllSettle platform network peers.reverse state sync) :
    let run := runConsensusPeerClient platform network memory shouldStop peers state sync
    run.returnCode.isSome = true ∧ (run.attempts.map Attempt.peer).Perm peers ∧
      Threads platform sync run.attempts run.sync := by
  by_cases granted : memory.list = true ∧ ∀ ordinal < 2 * peers.length, memory.copies ordinal = true
  · rw [run_consensus_peer_client_copied written granted.1 granted.2]
    obtain ⟨code, contacted, threads⟩ := contactPeers_settled goesOn 0 settle
    exact ⟨by rw [code]; rfl, by rw [contacted]; exact List.reverse_perm peers, threads⟩
  · cases copied with
    | inr complete => exact absurd complete granted
    | inl empty =>
      subst empty
      obtain ⟨code, kept, nothing, returned⟩ := run_consensus_peer_client_uncopied platform network
        shouldStop state sync granted
      exact ⟨by rw [returned written]; rfl, by rw [nothing]; exact .nil, by rw [nothing, kept]; rfl⟩

/-- A round that nothing holds up gathers the longest chain, and no other does. -/
theorem gathersLongest_iff {memory : RoundMemory} {shouldStop : Nat → Bool} {peers : List α}
    (goesOn : ∀ reading, shouldStop reading = false) :
    GathersLongest platform peers sync
        (runConsensusPeerClient platform network memory shouldStop peers state sync) ↔
      memory.returnCode = true ∧ Copied memory peers ∧ AllSettle platform network peers.reverse state sync := by
  refine ⟨settles_of_gathers goesOn, ?_⟩
  rintro ⟨written, copied, settle⟩
  obtain ⟨returns, contacts, threads⟩ := run_consensus_peer_client_settled goesOn written copied settle
  exact ⟨returns, contacts, threads, fun attempt _ _ => attempt.kept_of_failed platform, threads.longest⟩

end Round

end LeoCoin
