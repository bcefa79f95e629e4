import LeoCoin.Workers

/-! # Sessions

What a node does over one connection, as the calls it makes: the two handlers of its
servers and the two attempts of its clients, with the mutexes they lock and the sockets they
open.  What a call answers is open.  Calls that do nothing to either, and whose answers are
looked at by nobody, are left out.
-/

namespace LeoCoin

open Library.Calls

/-! ## Calls -/

/-- Functions that return an `int`. -/
inductive SessionInt where
  | socket : SessionInt
  | connect : SessionInt
  | getnameinfo : SessionInt
  | pthreadMutexLock (mutex : Mutex) : SessionInt
  | pthreadMutexUnlock (mutex : Mutex) : SessionInt
  | pthreadCondInit : SessionInt
  | pthreadMutexInit : SessionInt
deriving DecidableEq

/-- Functions that return a `return_code_t`. -/
inductive SessionCode where
  | sendAll : SessionCode
  | recvAll : SessionCode
  | commandHeaderDeserialize : SessionCode
  | commandRegisterPeerSerialize : SessionCode
  | commandRegisterPeerDeserialize : SessionCode
  | commandSendPeerListSerialize : SessionCode
  | commandSendPeerListDeserialize : SessionCode
  | commandSendBlockchainSerialize : SessionCode
  | commandSendBlockchainDeserialize : SessionCode
  | blockchainSerialize : SessionCode
  | blockchainDeserialize : SessionCode
  | blockchainDestroy : SessionCode
  | peerInfoListSerialize : SessionCode
  | peerInfoListDeserialize : SessionCode
  | linkedListLength : SessionCode
  | linkedListFind : SessionCode
  | linkedListPrepend : SessionCode
  | linkedListDestroy : SessionCode
deriving DecidableEq

/-- What is so or not: a comparison, or a pointer that is not `NULL`. -/
inductive SessionTest where
  | calloc : SessionTest
  | realloc : SessionTest
  | commandExpected : SessionTest
  | prefersPeer : SessionTest
  | foundNode : SessionTest
  | anotherNode : SessionTest
  | peerExpired : SessionTest
  | inetNtop : SessionTest
deriving DecidableEq

/-- Allocations that nobody checks. -/
inductive Unchecked where
  | realloc : Unchecked
  | malloc : Unchecked
deriving DecidableEq

inductive SessionCall where
  | int (function : SessionInt) : SessionCall
  | code (function : SessionCode) : SessionCall
  | blockchainVerify : SessionCall
  | test (test : SessionTest) : SessionCall
  | unchecked (allocation : Unchecked) : SessionCall
  | close (fd : Int32) : SessionCall
  /-- A call of the loop that the session is a round of. -/
  | worker (call : WorkerCall) : SessionCall
deriving DecidableEq

def SessionCall.Answer : SessionCall → Type
  | .int _ => Int32
  | .code _ => ReturnCode
  | .blockchainVerify => ReturnCode × Bool
  | .test _ => Bool
  | .unchecked _ => Bool
  | .close _ => Unit
  | .worker call => call.Answer

abbrev SessionEvent := Event SessionCall.Answer

abbrev Session := Program SessionCall SessionCall.Answer WorkerCode

/-- A function that has come to its end comes back. -/
abbrev Returning := Program SessionCall SessionCall.Answer Empty

namespace Session

def int (function : SessionInt) : Session Int32 := perform (SessionCall.int function)

def code (function : SessionCode) : Session ReturnCode := perform (SessionCall.code function)

def test (test : SessionTest) : Session Bool := perform (SessionCall.test test)

/-- `if (0 != function(..)) { return_code = code; goto end; }` -/
def zero (function : SessionInt) (code : ReturnCode) : Session Unit :=
  check (SessionCall.int function) fun (result : Int32) => if result ≠ 0 then some (.code code) else none

/-- `return_code = function(..); if (SUCCESS != return_code) { goto end; }` for a call on a mutex. -/
def mutexZero (function : SessionInt) : Session Unit :=
  check (SessionCall.int function) fun (error : Int32) => if error ≠ 0 then some (.error error) else none

/-- The same for a function that returns a `return_code_t`. -/
def success (function : SessionCode) : Session Unit :=
  check (SessionCall.code function) fun (code : ReturnCode) => if code ≠ .success then some (.code code) else none

/-- `if (SUCCESS != return_code) { return_code = otherwise; goto end; }` -/
def successOr (function : SessionCode) (otherwise : ReturnCode) : Session Unit :=
  check (SessionCall.code function) fun (code : ReturnCode) =>
    if code ≠ .success then some (.code otherwise) else none

/-- `if (!..) { return_code = otherwise; goto end; }` -/
def unlessSo (so : SessionTest) (otherwise : ReturnCode) : Session Unit :=
  check (SessionCall.test so) fun (answer : Bool) => if answer then none else some (.code otherwise)

/-- Memory that is used whether it was granted or not. -/
def unchecked (allocation : Unchecked) : Session Unit :=
  .ask (SessionCall.unchecked allocation) fun (granted : Bool) => if granted then .done () else .undefined

/-- `blockchain_verify`: whether the chain is valid, where that can be told. -/
def verify : Session Bool :=
  .ask SessionCall.blockchainVerify fun ((code, isValid) : ReturnCode × Bool) =>
    if code ≠ .success then .leave (.code code) else .done isValid

/-! ## With a mutex that is held -/

/-- `pthread_mutex_unlock(mutex); goto end;` -/
def unlockAndLeave (mutex : Mutex) (returnCode : WorkerCode) : Session Unit := do
  let _ ← int (.pthreadMutexUnlock mutex)
  .leave returnCode

def successOrUnlock (mutex : Mutex) (function : SessionCode) : Session Unit := do
  let returnCode ← code function
  if returnCode ≠ .success then
    unlockAndLeave mutex (.code returnCode)

def zeroOrUnlock (mutex : Mutex) (function : SessionInt) (otherwise : ReturnCode) : Session Unit := do
  let result ← int function
  if result ≠ 0 then
    unlockAndLeave mutex (.code otherwise)

def unlessSoOrUnlock (mutex : Mutex) (so : SessionTest) (otherwise : ReturnCode) : Session Unit := do
  if !(← test so) then
    unlockAndLeave mutex (.code otherwise)

/-- `end: return return_code;` -/
def toEnd (body : Session Unit) : Returning WorkerCode :=
  body.atLabel fun
    | .ok () => .done (.code .success)
    | .error returnCode => .done returnCode

/-! ## Consensus -/

/-- A message with a blockchain is received: whether the chain in it is valid. -/
def receiveBlockchain : Session Bool := do
  unlessSo .calloc .failureCouldNotMalloc
  successOr .recvAll .failureNetworkFunction
  success .commandHeaderDeserialize
  unlessSo .commandExpected .failureInvalidCommand
  unchecked .realloc
  successOr .recvAll .failureNetworkFunction
  success .commandSendBlockchainDeserialize
  success .blockchainDeserialize
  let peerBlockchainIsValid ← verify
  success .linkedListLength
  return peerBlockchainIsValid

/-- Whether the chain is switched to that of the peer; the mutex is held. -/
def considerPeerBlockchain : Session Bool := do
  successOrUnlock .sync .linkedListLength
  test .prefersPeer

def destroyUnless (switchedToPeerChain : Bool) : Session Unit := do
  if !switchedToPeerChain then
    success .blockchainDestroy

def handleOneConsensusRequest : Returning WorkerCode :=
  toEnd do
    let peerBlockchainIsValid ← receiveBlockchain
    mutexZero (.pthreadMutexLock .sync)
    let switchedToPeerChain ← if peerBlockchainIsValid then considerPeerBlockchain else pure false
    successOrUnlock .sync .blockchainSerialize
    mutexZero (.pthreadMutexUnlock .sync)
    destroyUnless switchedToPeerChain
    success .commandSendBlockchainSerialize
    successOr .sendAll .failureNetworkFunction

/-- `client_fd = socket(..)` -/
def openSocket : Session Int32 :=
  .ask (SessionCall.int .socket) fun (clientFd : Int32) =>
    if clientFd < 0 then .leave (.code .failureNetworkFunction) else .done clientFd

def close (clientFd : Int32) : Session Unit := perform (SessionCall.close clientFd)

/-- The chain that is sent is serialized with the mutex held. -/
def serializeOurBlockchain : Session Unit := do
  mutexZero (.pthreadMutexLock .sync)
  successOrUnlock .sync .blockchainSerialize
  mutexZero (.pthreadMutexUnlock .sync)

/-- The chain of the peer is valid: whether it is switched to. -/
def switchToPeer : Session Bool := do
  mutexZero (.pthreadMutexLock .sync)
  let switchedToPeerChain ← considerPeerBlockchain
  mutexZero (.pthreadMutexUnlock .sync)
  return switchedToPeerChain

/-- `run_consensus_peer_client_once` between its socket and `close`. -/
def exchangeBlockchains : Session Unit := do
  zero .connect .failureNetworkFunction
  serializeOurBlockchain
  success .commandSendBlockchainSerialize
  successOr .sendAll .failureNetworkFunction
  let peerBlockchainIsValid ← receiveBlockchain
  let switchedToPeerChain ← if peerBlockchainIsValid then switchToPeer else pure false
  destroyUnless switchedToPeerChain

def runConsensusPeerClientOnce : Returning WorkerCode :=
  toEnd do
    let clientFd ← openSocket
    exchangeBlockchains
    close clientFd

/-! ## Peer discovery -/

/-- The names of a peer are looked up for what is printed about it. -/
def printPeer (printProgress : Bool) : Session Unit := do
  if printProgress then
    zeroOrUnlock .peerInfoList .getnameinfo .failureNetworkFunction
    unlessSoOrUnlock .peerInfoList .inetNtop .failureNetworkFunction

/-- `while (NULL != node)`: the peers that have expired are removed. -/
def expirePeers (printProgress : Bool) : Nat → Session Unit
  | 0 => .running
  | rounds + 1 => do
    if ← test .anotherNode then
      if ← test .peerExpired then
        printPeer printProgress
      expirePeers printProgress rounds

/-- The peer that has registered is entered, or what is known of it updated. -/
def enterPeer (printProgress : Bool) : Session Unit := do
  successOrUnlock .peerInfoList .linkedListFind
  if !(← test .foundNode) then
    successOrUnlock .peerInfoList .linkedListPrepend
  printPeer printProgress

def receiveRegistration : Session Unit := do
  unlessSo .calloc .failureCouldNotMalloc
  successOr .recvAll .failureNetworkFunction
  success .commandHeaderDeserialize
  unlessSo .commandExpected .failureInvalidCommand
  unchecked .realloc
  successOr .recvAll .failureNetworkFunction
  success .commandRegisterPeerDeserialize
  unchecked .malloc

def handleOnePeerDiscoveryRequest (printProgress : Bool) (rounds : Nat) : Returning WorkerCode :=
  toEnd do
    receiveRegistration
    mutexZero (.pthreadMutexLock .peerInfoList)
    enterPeer printProgress
    expirePeers printProgress rounds
    successOrUnlock .peerInfoList .peerInfoListSerialize
    mutexZero (.pthreadMutexUnlock .peerInfoList)
    success .commandSendPeerListSerialize
    successOr .sendAll .failureNetworkFunction

/-- The address is sent and the list of peers received. -/
def receivePeers : Session Unit := do
  zero .connect .failureNetworkFunction
  success .commandRegisterPeerSerialize
  success .sendAll
  unlessSo .calloc .failureCouldNotMalloc
  success .recvAll
  success .commandHeaderDeserialize
  unlessSo .commandExpected .failureInvalidCommand
  unlessSo .realloc .failureCouldNotMalloc
  success .recvAll
  success .commandSendPeerListDeserialize
  success .peerInfoListDeserialize

def replacePeers : Session Unit := do
  zero (.pthreadMutexLock .peerInfoList) .failurePthreadFunction
  let _ ← code .linkedListDestroy
  zero (.pthreadMutexUnlock .peerInfoList) .failurePthreadFunction

/-- `for (node_t *node = (*args->peer_info_list)->head; NULL != node; node = node->next)` -/
def printPeers : Nat → Session Unit
  | 0 => .running
  | rounds + 1 => do
    if ← test .anotherNode then
      -- where it fails an error is printed, and the peer all the same
      let _ ← test .inetNtop
      printPeers rounds

def printPeerList (printProgress : Bool) (rounds : Nat) : Session Unit := do
  if printProgress then
    zero (.pthreadMutexLock .peerInfoList) .failurePthreadFunction
    printPeers rounds
    zero (.pthreadMutexUnlock .peerInfoList) .failurePthreadFunction

def discoverPeersOnce (printProgress : Bool) (rounds : Nat) : Returning WorkerCode :=
  toEnd do
    let clientFd ← openSocket
    receivePeers
    replacePeers
    printPeerList printProgress rounds
    close clientFd

/-! ## Loops over sessions -/

/-- What a loop is told.  It only tells `SUCCESS` from the rest, so the errors of mutexes are one code here. -/
def returnCodeOf : WorkerCode → ReturnCode
  | .code returnCode => returnCode
  | .error _ => .failurePthreadFunction

/-- A loop makes its attempts in sessions. -/
def attempt (printProgress : Bool) (rounds : Nat) : (call : WorkerCall) → Returning call.Answer
  | .code .runConsensusPeerClientOnce => do
    let returnCode ← runConsensusPeerClientOnce
    return returnCodeOf returnCode
  | .code .discoverPeersOnce => do
    let returnCode ← discoverPeersOnce printProgress rounds
    return returnCodeOf returnCode
  | call => perform (SessionCall.worker call)

/-- `discover_peers` with its attempts. -/
def discoverPeers (printProgress : Bool) (nodes rounds : Nat) : Session WorkerCode :=
  (Worker.discoverPeers rounds).expand (attempt printProgress nodes)

/-- `run_consensus_peer_client` with its attempts. -/
def runConsensusPeerClient (rounds : Nat) : Session WorkerCode :=
  (Worker.runConsensusPeerClient rounds).expand (attempt false rounds)

/-- `broadcast_blockchain`, which returns `NULL`. -/
def broadcastBlockchain (argsGiven : Bool) (rounds : Nat) : Returning Unit :=
  Program.atLabel
    (do
      if !argsGiven then
        .leave (.code .failureInvalidInput)
      zero .pthreadCondInit .failurePthreadFunction
      zero .pthreadMutexInit .failurePthreadFunction
      let _ ← runConsensusPeerClient rounds : Session Unit)
    fun _ => .done ()

/-- One broadcast after the other. -/
def broadcasts (rounds : Nat) : List Bool → Returning Unit
  | [] => return
  | argsGiven :: rest => do
    broadcastBlockchain argsGiven rounds
    broadcasts rounds rest

end Session

end LeoCoin
