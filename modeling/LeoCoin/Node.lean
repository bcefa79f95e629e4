import Mathlib.Logic.Function.Basic
import LeoCoin.Consensus
import LeoCoin.Library.Transition

/-! # A running node

The miner thread and any number of consensus calls, interleaved.  Chains live at
addresses; `sync->blockchain` and the miner's local `blockchain` are such addresses,
and `blockchain_destroy` leaves nothing at the address it was called with, and records it.

A step is one access to what the threads share: locking or unlocking `sync->mutex`,
reading or writing `sync->blockchain`, loading or incrementing `sync->version`,
storing `*sync_version_currently_mined`, measuring, destroying or appending to a
chain.  What a thread does by itself between two of these is part of the step
before.  The miner's locks and unlocks succeed; a consensus call returns where one of its
own fails.  `main` is the miner thread before it enters `mine_blocks`.
-/

namespace LeoCoin

/-- What a node is started with. -/
structure Setup (PKey : Type) where
  platform : Platform PKey
  minerPublicKey : SshKey
  minerPrivateKey : SshKey

inductive Thread where
  | miner : Thread
  | peer (id : Nat) : Thread
deriving DecidableEq

/-! ## The miner thread -/

/-- Where the miner thread stands, with the locals it will still use. -/
inductive MinerPc where
  /-- `main`, before `sync_version_currently_mined` is initialised -/
  | starting : MinerPc
  /-- `main`, before the consensus server thread is created -/
  | launching : MinerPc
  | entryLock : MinerPc
  | entryRead : MinerPc
  | entryUnlock : MinerPc
  /-- the loop's test of `should_stop`, with `return_code` -/
  | loopHead (returnCode : ReturnCode) : MinerPc
  | checkVersion : MinerPc
  | resyncLock : MinerPc
  | resyncRead : MinerPc
  | resyncUnlock (oldBlockchain : Nat) : MinerPc
  | resyncDestroy (oldBlockchain : Nat) : MinerPc
  | resyncLoad : MinerPc
  | resyncStore (version : UInt64) : MinerPc
  | resyncSignal : MinerPc
  | verify : MinerPc
  | createBlock : MinerPc
  /-- from here to `searchHash`: `synchronized_blockchain_mine_block` -/
  | mineLock (block : Block) : MinerPc
  | mineRead (block : Block) : MinerPc
  | mineUnlock (block : Block) (blockchain : Nat) : MinerPc
  | searchStop (block : Block) (blockchain : Nat) (newProof : UInt64) : MinerPc
  | searchVersion (block : Block) (blockchain : Nat) (newProof : UInt64) : MinerPc
  | searchHash (block : Block) (blockchain : Nat) (newProof : UInt64) : MinerPc
  | append (nextBlock : Block) : MinerPc
  | returned (returnCode : ReturnCode) : MinerPc

/-- Where a lock leads to. -/
def MinerPc.afterLock : MinerPc → Option MinerPc
  | .entryLock => some .entryRead
  | .resyncLock => some .resyncRead
  | .mineLock block => some (.mineRead block)
  | _ => none

/-- Where an unlock leads to. -/
def MinerPc.afterUnlock : MinerPc → Option MinerPc
  | .entryUnlock => some (.loopHead .success)
  | .resyncUnlock oldBlockchain => some (.resyncDestroy oldBlockchain)
  | .mineUnlock block blockchain => some (.searchStop block blockchain 0)
  | _ => none

/-- The miner has locked `sync->mutex`. -/
def MinerPc.critical : MinerPc → Bool
  | .entryRead => true
  | .entryUnlock => true
  | .resyncRead => true
  | .resyncUnlock _ => true
  | .mineRead _ => true
  | .mineUnlock _ _ => true
  | _ => false

/-- `main` has created the threads that consensus calls run in. -/
def MinerPc.launched : MinerPc → Bool
  | .starting => false
  | .launching => false
  | _ => true

/-- Behind the resynchronisation block of the loop's body. -/
def MinerPc.pastResync : MinerPc → Bool
  | .verify => true
  | .createBlock => true
  | .mineLock _ => true
  | .mineRead _ => true
  | .mineUnlock _ _ => true
  | .searchStop _ _ _ => true
  | .searchVersion _ _ _ => true
  | .searchHash _ _ _ => true
  | .append _ => true
  | _ => false

structure Miner where
  pc : MinerPc
  /-- the local `blockchain` of `mine_blocks` -/
  blockchain : Option Nat

/-! ## Consensus calls -/

inductive Side where
  | server : Side
  | client : Side
deriving DecidableEq

def Side.path : Side → ReceivePath
  | .server => .handleOneConsensusRequest
  | .client => .runConsensusPeerClientOnce

/-- Where a consensus call stands.  `peerBlockchain` is the address of the decoded chain. -/
inductive PeerPc where
  | idle : PeerPc
  /-- client: serializing `sync->blockchain` under the mutex -/
  | requesting : PeerPc
  | awaitingReply : PeerPc
  | received (side : Side) (peerBlockchain : Nat) (isValid : Bool) : PeerPc
  | locked (side : Side) (peerBlockchain : Nat) (isValid : Bool) : PeerPc
  | measured (side : Side) (peerBlockchain : Nat) (ourLength : UInt64) : PeerPc
  /-- has decided to switch -/
  | writing (side : Side) (peerBlockchain : Nat) : PeerPc
  | incrementing (side : Side) : PeerPc
  /-- server: serializing `sync->blockchain` under the mutex -/
  | replying (leftover : Option Nat) : PeerPc
  | unlocking (leftover : Option Nat) : PeerPc
  | destroying (peerBlockchain : Nat) : PeerPc

/-- The call has locked `sync->mutex`. -/
def PeerPc.critical : PeerPc → Bool
  | .requesting => true
  | .locked _ _ _ => true
  | .measured _ _ _ => true
  | .writing _ _ => true
  | .incrementing _ => true
  | .replying _ => true
  | .unlocking _ => true
  | _ => false

/-- The decoded chain, while nobody else knows it. -/
def PeerPc.candidate : PeerPc → Option Nat
  | .received _ peerBlockchain _ => some peerBlockchain
  | .locked _ peerBlockchain _ => some peerBlockchain
  | .measured _ peerBlockchain _ => some peerBlockchain
  | .writing _ peerBlockchain => some peerBlockchain
  | .replying leftover => leftover
  | .unlocking leftover => leftover
  | .destroying peerBlockchain => some peerBlockchain
  | _ => none

/-- The pointer has been written and the version not yet incremented. -/
def PeerPc.isIncrementing : PeerPc → Bool
  | .incrementing _ => true
  | _ => false

/-- Where a side waits for a chain. -/
def Side.waiting : Side → PeerPc
  | .server => .idle
  | .client => .awaitingReply

/-- What a side does with a decoded chain: the client takes the mutex for a valid one only. -/
def Side.onReceived (side : Side) (peerBlockchain : Nat) (isValid : Bool) : PeerPc :=
  match side, isValid with
  | .client, false => .destroying peerBlockchain
  | _, _ => .received side peerBlockchain isValid

/-- What a side does once it has switched or decided not to; `leftover` is the chain it
does not need. -/
def Side.onDecided (side : Side) (leftover : Option Nat) : PeerPc :=
  match side with
  | .server => .replying leftover
  | .client => .unlocking leftover

/-- After the unlock a chain that was not adopted is destroyed. -/
def PeerPc.afterUnlock (leftover : Option Nat) : PeerPc :=
  match leftover with
  | some peerBlockchain => .destroying peerBlockchain
  | none => .idle

/-! ## Nodes -/

structure Node where
  /-- the chain at an address -/
  chains : Nat → Blockchain
  /-- addresses from here on have not been used -/
  fresh : Nat
  /-- the arguments of `blockchain_destroy` so far, newest first -/
  destroyed : List Nat
  /-- `sync->blockchain` -/
  blockchain : Nat
  /-- `sync->version` -/
  version : UInt64
  /-- who has locked `sync->mutex` -/
  holder : Option Thread
  /-- `*sync_version_currently_mined` -/
  syncVersionCurrentlyMined : UInt64
  miner : Miner
  peers : Nat → PeerPc

def Node.setMinerPc (node : Node) (pc : MinerPc) : Node :=
  { node with miner := { node.miner with pc := pc } }

def Node.setPeer (node : Node) (id : Nat) (pc : PeerPc) : Node :=
  { node with peers := Function.update node.peers id pc }

/-- Nothing is left where a chain has been destroyed. -/
def destroyedBlockchain : Blockchain := ⟨[], 0, by decide⟩

/-- `blockchain_destroy` -/
def Node.destroyBlockchain (node : Node) (blockchain : Nat) : Node :=
  { node with
    chains := Function.update node.chains blockchain destroyedBlockchain
    destroyed := blockchain :: node.destroyed }

@[simp] theorem Node.destroyBlockchain_peers (node : Node) (blockchain : Nat) :
    (node.destroyBlockchain blockchain).peers = node.peers := rfl

theorem Node.destroyBlockchain_chains (node : Node) {blockchain pointer : Nat} (different : pointer ≠ blockchain) :
    (node.destroyBlockchain blockchain).chains pointer = node.chains pointer :=
  Function.update_of_ne different _ _

/-- What the rest of the program can see of a step. -/
inductive Action where
  | storeVersion : Action
  | readFirst : Action
  | notice : Action
  | readAgain : Action
  | destroyOld : Action
  | loadVersion : Action
  | recordVersion : Action
  | append : Action
  | write (peerBlockchain : Nat) : Action
  | increment : Action
  | destroyPeer (peerBlockchain : Nat) : Action
  | other : Action

variable {PKey : Type}

/-- The block `mine_blocks` is about to mine on a chain; the two times are what `time(NULL)`
returned for the transaction and for the block. -/
def nextBlock (setup : Setup PKey) (mintedAt createdAt : Int64) (blockchain : Blockchain) :
    Except Failure Block :=
  match blockchain.blockList.getLast? with
  | none => .error ⟨.failureLinkedListEmpty, by decide⟩
  | some previousBlock =>
    match transactionCreate setup.platform mintedAt setup.minerPublicKey setup.minerPublicKey
        amountGeneratedDuringMinting setup.minerPrivateKey with
    | .error code => .error code
    | .ok mintCoinTransaction =>
      .ok (blockCreate createdAt [mintCoinTransaction] 0 (blockHash setup.platform previousBlock))

/-- The return code of `mine_blocks` on a chain that `blockchain_verify` does not accept.  The
printing before it reads `first_invalid_block`, which is `NULL` where that block has no
transactions. -/
def rejectionCode (verification : Verification) : ReturnCode :=
  if verification.returnCode = .success then .failureInvalidBlockchain else verification.returnCode

/-- Steps of the miner thread. -/
inductive MinerStep (setup : Setup PKey) : Node → Action → Node → Prop where
  | storeVersion {node : Node} :
      node.miner.pc = .starting →
      MinerStep setup node .storeVersion
        { node.setMinerPc .launching with syncVersionCurrentlyMined := node.version }
  | launch {node : Node} :
      node.miner.pc = .launching →
      MinerStep setup node .other (node.setMinerPc .entryLock)
  | lock {node : Node} {next : MinerPc} :
      node.miner.pc.afterLock = some next → node.holder = none →
      MinerStep setup node .other { node.setMinerPc next with holder := some .miner }
  | unlock {node : Node} {next : MinerPc} :
      node.miner.pc.afterUnlock = some next →
      MinerStep setup node .other { node.setMinerPc next with holder := none }
  | readFirst {node : Node} :
      node.miner.pc = .entryRead →
      MinerStep setup node .readFirst
        { node with miner := ⟨.entryUnlock, some node.blockchain⟩ }
  | enter {node : Node} {returnCode : ReturnCode} :
      node.miner.pc = .loopHead returnCode →
      MinerStep setup node .other (node.setMinerPc .checkVersion)
  | leave {node : Node} {returnCode : ReturnCode} :
      node.miner.pc = .loopHead returnCode →
      MinerStep setup node .other (node.setMinerPc (.returned returnCode))
  | upToDate {node : Node} :
      node.miner.pc = .checkVersion → node.syncVersionCurrentlyMined = node.version →
      MinerStep setup node .other (node.setMinerPc .verify)
  | notice {node : Node} :
      node.miner.pc = .checkVersion → node.syncVersionCurrentlyMined ≠ node.version →
      MinerStep setup node .notice (node.setMinerPc .resyncLock)
  | readAgain {node : Node} {oldBlockchain : Nat} :
      node.miner.pc = .resyncRead → node.miner.blockchain = some oldBlockchain →
      MinerStep setup node .readAgain
        { node with miner := ⟨.resyncUnlock oldBlockchain, some node.blockchain⟩ }
  | destroyOld {node : Node} {oldBlockchain : Nat} :
      node.miner.pc = .resyncDestroy oldBlockchain →
      MinerStep setup node .destroyOld ((node.setMinerPc .resyncLoad).destroyBlockchain oldBlockchain)
  | loadVersion {node : Node} :
      node.miner.pc = .resyncLoad →
      MinerStep setup node .loadVersion (node.setMinerPc (.resyncStore node.version))
  | recordVersion {node : Node} {version : UInt64} :
      node.miner.pc = .resyncStore version →
      MinerStep setup node .recordVersion
        { node.setMinerPc .resyncSignal with syncVersionCurrentlyMined := version }
  -- under its own mutex, which no other thread of the node takes
  | signal {node : Node} :
      node.miner.pc = .resyncSignal →
      MinerStep setup node .other (node.setMinerPc .verify)
  | verified {node : Node} {blockchain : Nat} :
      node.miner.pc = .verify → node.miner.blockchain = some blockchain →
      (blockchainVerify setup.platform (node.chains blockchain)).Accepts →
      MinerStep setup node .other (node.setMinerPc .createBlock)
  | rejected {node : Node} {blockchain : Nat} :
      node.miner.pc = .verify → node.miner.blockchain = some blockchain →
      ¬ (blockchainVerify setup.platform (node.chains blockchain)).Accepts →
      MinerStep setup node .other (node.setMinerPc
        (.returned (rejectionCode (blockchainVerify setup.platform (node.chains blockchain)))))
  | createBlock {node : Node} {blockchain : Nat} {mintedAt createdAt : Int64} {block : Block} :
      node.miner.pc = .createBlock → node.miner.blockchain = some blockchain →
      nextBlock setup mintedAt createdAt (node.chains blockchain) = .ok block →
      MinerStep setup node .other (node.setMinerPc (.mineLock block))
  | createFails {node : Node} {blockchain : Nat} {mintedAt createdAt : Int64} {code : Failure} :
      node.miner.pc = .createBlock → node.miner.blockchain = some blockchain →
      nextBlock setup mintedAt createdAt (node.chains blockchain) = .error code ∨ code = .couldNotMalloc →
      MinerStep setup node .other (node.setMinerPc (.returned code.val))
  | mineRead {node : Node} {block : Block} :
      node.miner.pc = .mineRead block →
      MinerStep setup node .other (node.setMinerPc (.mineUnlock block node.blockchain))
  | exhausted {node : Node} {block : Block} {blockchain : Nat} {newProof : UInt64} :
      node.miner.pc = .searchStop block blockchain newProof → ¬ newProof < 18446744073709551615 →
      MinerStep setup node .other
        (node.setMinerPc (.loopHead .failureCouldNotFindValidProofOfWork))
  | stopped {node : Node} {block : Block} {blockchain : Nat} {newProof : UInt64} :
      node.miner.pc = .searchStop block blockchain newProof → newProof < 18446744073709551615 →
      MinerStep setup node .other (node.setMinerPc (.loopHead .success))
  | goOn {node : Node} {block : Block} {blockchain : Nat} {newProof : UInt64} :
      node.miner.pc = .searchStop block blockchain newProof → newProof < 18446744073709551615 →
      MinerStep setup node .other (node.setMinerPc (.searchVersion block blockchain newProof))
  | superseded {node : Node} {block : Block} {blockchain : Nat} {newProof : UInt64} :
      node.miner.pc = .searchVersion block blockchain newProof →
      node.syncVersionCurrentlyMined ≠ node.version →
      MinerStep setup node .other (node.setMinerPc (.loopHead .success))
  | current {node : Node} {block : Block} {blockchain : Nat} {newProof : UInt64} :
      node.miner.pc = .searchVersion block blockchain newProof →
      node.syncVersionCurrentlyMined = node.version →
      MinerStep setup node .other (node.setMinerPc (.searchHash block blockchain newProof))
  | missed {node : Node} {block : Block} {blockchain : Nat} {newProof : UInt64} :
      node.miner.pc = .searchHash block blockchain newProof →
      blockchainIsValidBlockHash setup.platform (node.chains blockchain)
        (blockHash setup.platform { block with proofOfWork := newProof }) = false →
      MinerStep setup node .other (node.setMinerPc (.searchStop block blockchain (newProof + 1)))
  | found {node : Node} {block : Block} {blockchain : Nat} {newProof : UInt64} :
      node.miner.pc = .searchHash block blockchain newProof →
      blockchainIsValidBlockHash setup.platform (node.chains blockchain)
        (blockHash setup.platform { block with proofOfWork := newProof }) = true →
      MinerStep setup node .other
        (node.setMinerPc (.append { block with proofOfWork := newProof }))
  | append {node : Node} {blockchain : Nat} {block : Block} {longer : Blockchain} :
      node.miner.pc = .append block → node.miner.blockchain = some blockchain →
      blockchainAddBlock (node.chains blockchain) block = .ok longer →
      MinerStep setup node .append
        { node.setMinerPc (.loopHead .success) with chains := Function.update node.chains blockchain longer }
  | appendFails {node : Node} {block : Block} :
      node.miner.pc = .append block →
      MinerStep setup node .other (node.setMinerPc (.returned Failure.couldNotMalloc.val))

/-- Steps of the consensus call `id`. -/
inductive PeerStep (setup : Setup PKey) (id : Nat) : Node → Action → Node → Prop where
  | request {node : Node} :
      node.miner.pc.launched = true → node.peers id = .idle → node.holder = none →
      PeerStep setup id node .other
        { node.setPeer id .requesting with holder := some (.peer id) }
  | requested {node : Node} :
      node.peers id = .requesting →
      PeerStep setup id node .other { node.setPeer id .awaitingReply with holder := none }
  -- a mutex that cannot be unlocked stays locked
  | requestedFails {node : Node} :
      node.peers id = .requesting →
      PeerStep setup id node .other (node.setPeer id .idle)
  -- nothing came of the request, or of the reply
  | giveUp {node : Node} :
      node.peers id = .awaitingReply →
      PeerStep setup id node .other (node.setPeer id .idle)
  | receive {node : Node} {side : Side} {environment : Environment} {stream : Stream}
      {header : CommandHeader} {peerBlockchain : Blockchain} {isValid : Bool} :
      node.miner.pc.launched = true → node.peers id = side.waiting →
      receiveBlockchain setup.platform side.path environment stream =
        .ok (header, peerBlockchain, isValid) →
      PeerStep setup id node .other
        { node.setPeer id (side.onReceived node.fresh isValid) with
          chains := Function.update node.chains node.fresh peerBlockchain
          fresh := node.fresh + 1 }
  | lock {node : Node} {side : Side} {peerBlockchain : Nat} {isValid : Bool} :
      node.peers id = .received side peerBlockchain isValid → node.holder = none →
      PeerStep setup id node .other
        { node.setPeer id (.locked side peerBlockchain isValid) with holder := some (.peer id) }
  -- the call returns, and the decoded chain is not destroyed
  | lockFails {node : Node} {side : Side} {peerBlockchain : Nat} {isValid : Bool} :
      node.peers id = .received side peerBlockchain isValid →
      PeerStep setup id node .other (node.setPeer id .idle)
  | ignore {node : Node} {side : Side} {peerBlockchain : Nat} :
      node.peers id = .locked side peerBlockchain false →
      PeerStep setup id node .other (node.setPeer id (side.onDecided (some peerBlockchain)))
  | measure {node : Node} {side : Side} {peerBlockchain : Nat} :
      node.peers id = .locked side peerBlockchain true →
      PeerStep setup id node .other (node.setPeer id
        (.measured side peerBlockchain (linkedListLength (node.chains node.blockchain).blockList)))
  | decline {node : Node} {side : Side} {peerBlockchain : Nat} {ourLength : UInt64} :
      node.peers id = .measured side peerBlockchain ourLength →
      ¬ (linkedListLength (node.chains peerBlockchain).blockList > ourLength ∧
        (node.chains node.blockchain).numLeadingZeroBytesRequiredInBlockHash =
          (node.chains peerBlockchain).numLeadingZeroBytesRequiredInBlockHash) →
      PeerStep setup id node .other (node.setPeer id (side.onDecided (some peerBlockchain)))
  | decide {node : Node} {side : Side} {peerBlockchain : Nat} {ourLength : UInt64} :
      node.peers id = .measured side peerBlockchain ourLength →
      linkedListLength (node.chains peerBlockchain).blockList > ourLength →
      (node.chains node.blockchain).numLeadingZeroBytesRequiredInBlockHash =
        (node.chains peerBlockchain).numLeadingZeroBytesRequiredInBlockHash →
      PeerStep setup id node .other (node.setPeer id (.writing side peerBlockchain))
  | write {node : Node} {side : Side} {peerBlockchain : Nat} :
      node.peers id = .writing side peerBlockchain →
      PeerStep setup id node (.write peerBlockchain)
        { node.setPeer id (.incrementing side) with blockchain := peerBlockchain }
  | increment {node : Node} {side : Side} :
      node.peers id = .incrementing side →
      PeerStep setup id node .increment
        { node.setPeer id (side.onDecided none) with version := node.version + 1 }
  | reply {node : Node} {leftover : Option Nat} :
      node.peers id = .replying leftover →
      PeerStep setup id node .other (node.setPeer id (.unlocking leftover))
  -- `blockchain_serialize` failed: unlock and return, the decoded chain is not destroyed
  | replyFails {node : Node} {leftover : Option Nat} :
      node.peers id = .replying leftover →
      PeerStep setup id node .other (node.setPeer id (.unlocking none))
  | unlock {node : Node} {leftover : Option Nat} :
      node.peers id = .unlocking leftover →
      PeerStep setup id node .other
        { node.setPeer id (.afterUnlock leftover) with holder := none }
  -- neither is it destroyed here, and the mutex stays locked
  | unlockFails {node : Node} {leftover : Option Nat} :
      node.peers id = .unlocking leftover →
      PeerStep setup id node .other (node.setPeer id .idle)
  | destroyPeer {node : Node} {peerBlockchain : Nat} :
      node.peers id = .destroying peerBlockchain →
      PeerStep setup id node (.destroyPeer peerBlockchain)
        ((node.setPeer id .idle).destroyBlockchain peerBlockchain)

/-- One step of any thread. -/
inductive NodeStep (setup : Setup PKey) : Node → Action → Node → Prop where
  | miner {before after : Node} {action : Action} :
      MinerStep setup before action after → NodeStep setup before action after
  | peer {before after : Node} {action : Action} (id : Nat) :
      PeerStep setup id before action after → NodeStep setup before action after

end LeoCoin
