import LeoCoin.Library.Calls
import LeoCoin.Types

/-! # Worker loops

The five functions that a node runs in threads of their own, as the calls they make.  What
a call answers is open, so is how long a loop goes on; calls whose answers are looked at by
nobody are left out where nothing is said about them.
-/

namespace LeoCoin

open Library.Calls

/-! ## Calls -/

/-- The mutexes that are locked by a worker itself. -/
inductive Mutex where
  | sync : Mutex
  | syncVersionCurrentlyMined : Mutex
  | peerInfoList : Mutex
  | exitReady : Mutex
deriving DecidableEq

/-- Functions that return an `int`. -/
inductive IntCall where
  | pthreadMutexLock (mutex : Mutex) : IntCall
  | pthreadMutexUnlock (mutex : Mutex) : IntCall
  | pthreadCreate : IntCall
  | pthreadJoin : IntCall
  | socket : IntCall
  | setsockoptReuseaddr : IntCall
  | setsockoptV6only : IntCall
  | bind : IntCall
  | listen : IntCall
  | poll : IntCall
  | accept : IntCall
  | getnameinfo : IntCall
deriving DecidableEq

/-- Functions that return a `return_code_t`. -/
inductive CodeCall where
  | blockchainDestroy : CodeCall
  | linkedListGetLast : CodeCall
  | blockHash : CodeCall
  | linkedListCreate : CodeCall
  | transactionCreate : CodeCall
  | linkedListPrepend : CodeCall
  | linkedListDestroy : CodeCall
  | blockCreate : CodeCall
  | synchronizedBlockchainMineBlock : CodeCall
  | blockchainAddBlock : CodeCall
  | blockchainPrint : CodeCall
  | blockchainWriteToFile : CodeCall
  | handleOneConsensusRequest : CodeCall
  | handleOnePeerDiscoveryRequest : CodeCall
  | runConsensusPeerClientOnce : CodeCall
  | discoverPeersOnce : CodeCall
  | sleepMicroseconds : CodeCall
deriving DecidableEq

/-- What is so or not: a flag that is read, a comparison, or a pointer that is not `NULL`. -/
inductive Test where
  | shouldStop : Test
  | versionDiffers : Test
  | clientLenMatches : Test
  | inetNtop : Test
  | anotherPeer : Test
  | calloc : Test
  | malloc : Test
deriving DecidableEq

inductive Effect where
  | signalSyncVersionCurrentlyMined : Effect
  | setExitReady : Effect
  | signalExitReady : Effect
  | close : Effect
deriving DecidableEq

inductive WorkerCall where
  | int (function : IntCall) : WorkerCall
  | code (function : CodeCall) : WorkerCall
  | blockchainVerify : WorkerCall
  | test (test : Test) : WorkerCall
  | effect (effect : Effect) : WorkerCall
deriving DecidableEq

def WorkerCall.Answer : WorkerCall → Type
  | .int _ => Int32
  | .code _ => ReturnCode
  | .blockchainVerify => ReturnCode × Bool
  | .test _ => Bool
  | .effect _ => Unit

/-- What is in a variable of type `return_code_t`: one of its constants, or the error that a call on a mutex
returned. -/
inductive WorkerCode where
  | code (code : ReturnCode) : WorkerCode
  | error (error : Int32) : WorkerCode
deriving DecidableEq

abbrev WorkerEvent := Event WorkerCall.Answer

abbrev Worker := Program WorkerCall WorkerCall.Answer WorkerCode

namespace Worker

def int (function : IntCall) : Worker Int32 := perform (WorkerCall.int function)

def code (function : CodeCall) : Worker ReturnCode := perform (WorkerCall.code function)

def test (test : Test) : Worker Bool := perform (WorkerCall.test test)

def effect (effect : Effect) : Worker Unit := perform (WorkerCall.effect effect)

/-- `if (0 != function(..)) { return_code = code; goto end; }` -/
def zero (function : IntCall) (code : ReturnCode) : Worker Unit :=
  check (WorkerCall.int function) fun (result : Int32) => if result ≠ 0 then some (.code code) else none

/-- `if (function(..) < 0) { return_code = code; goto end; }` -/
def nonnegative (function : IntCall) (code : ReturnCode) : Worker Unit :=
  check (WorkerCall.int function) fun (result : Int32) => if result < 0 then some (.code code) else none

/-- `return_code = function(..); if (SUCCESS != return_code) { goto end; }` -/
def success (function : CodeCall) : Worker Unit :=
  check (WorkerCall.code function) fun (code : ReturnCode) => if code ≠ .success then some (.code code) else none

/-- `if (!..) { return_code = code; goto end; }` -/
def unlessSo (so : Test) (code : ReturnCode) : Worker Unit :=
  check (WorkerCall.test so) fun (answer : Bool) => if answer then none else some (.code code)

/-! ## The end of a worker -/

/-- `*args->exit_ready = true` with its mutex and its condition variable. -/
def announceExit : Worker Unit := do
  let _ ← int (.pthreadMutexLock .exitReady)
  effect .setExitReady
  effect .signalExitReady
  let _ ← int (.pthreadMutexUnlock .exitReady)

/-- The return code in memory of its own, which is not checked. -/
def returnCodePtr (returnCode : WorkerCode) : Worker WorkerCode := do
  if ← test .malloc then
    return returnCode
  else
    .undefined

/-- `return_code` at a label. -/
def atEnd : Except WorkerCode WorkerCode → WorkerCode
  | .ok returnCode => returnCode
  | .error returnCode => returnCode

/-- A worker with the signal behind `end:`. -/
def announcing (body : Worker WorkerCode) : Worker WorkerCode :=
  body.atLabel fun returnCode => do
    announceExit
    returnCodePtr (atEnd returnCode)

/-! ## Mining -/

/-- The miner is switched to another chain. -/
def switchChain : Worker Unit := do
  zero (.pthreadMutexLock .sync) .failurePthreadFunction
  zero (.pthreadMutexUnlock .sync) .failurePthreadFunction
  success .blockchainDestroy
  -- `sync_version_currently_mined` has been stored before its mutex is locked
  zero (.pthreadMutexLock .syncVersionCurrentlyMined) .failurePthreadFunction
  effect .signalSyncVersionCurrentlyMined
  zero (.pthreadMutexUnlock .syncVersionCurrentlyMined) .failurePthreadFunction

/-- `blockchain_verify`, which has to find the chain valid. -/
def verify : Worker Unit :=
  check WorkerCall.blockchainVerify fun ((code, isValid) : ReturnCode × Bool) =>
    if code ≠ .success then some (.code code)
    else if !isValid then some (.code .failureInvalidBlockchain)
    else none

/-- From `blockchain_verify` to the block that is going to be mined. -/
def prepareBlock : Worker Unit := do
  verify
  success .linkedListGetLast
  success .blockHash
  success .linkedListCreate
  success .transactionCreate
  success .linkedListPrepend
  success .blockCreate

/-- A block that was mined is added and broadcast. -/
def addBlock (printProgress outfile : Bool) : Worker Unit := do
  success .blockchainAddBlock
  if printProgress then
    let _ ← code .blockchainPrint
  if outfile then
    let _ ← code .blockchainWriteToFile
  -- the thread of the block before, or none
  let _ ← int .pthreadJoin
  let _ ← int .pthreadCreate

/-- `return_code` where mining a block failed. -/
def mineFailed (returnCode : ReturnCode) : Worker ReturnCode :=
  match returnCode with
  | .failureCouldNotFindValidProofOfWork => return returnCode
  -- the next round switches, or finds `should_stop` set
  | .failureLongerBlockchainDetected => return .success
  | .failureStoppedEarly => return .success
  | _ => .leave (.code returnCode)

/-- One round of `while (!*args->should_stop)`. -/
def mineRound (printProgress outfile : Bool) : Worker ReturnCode := do
  if ← test .versionDiffers then
    switchChain
  prepareBlock
  let returnCode ← code .synchronizedBlockchainMineBlock
  if returnCode ≠ .success then
    mineFailed returnCode
  else
    addBlock printProgress outfile
    return returnCode

def mineRounds (printProgress outfile : Bool) : Nat → ReturnCode → Worker ReturnCode
  -- the loop has not come to its end in these rounds
  | 0, _ => .running
  | rounds + 1, returnCode => do
    if ← test .shouldStop then
      return returnCode
    else
      let returnCode ← mineRound printProgress outfile
      mineRounds printProgress outfile rounds returnCode

/-- `mine_blocks` before its signal. -/
def mineUntilStopped (argsGiven printProgress outfile : Bool) (rounds : Nat) : Worker ReturnCode := do
  if !argsGiven then
    .leave (.code .failureInvalidInput)
  zero (.pthreadMutexLock .sync) .failurePthreadFunction
  zero (.pthreadMutexUnlock .sync) .failurePthreadFunction
  let returnCode ← mineRounds printProgress outfile rounds .success
  let _ ← int .pthreadJoin
  return returnCode

/-- `mine_blocks` before `end:`, where its signal stands. -/
def mineBlocksBody (argsGiven printProgress outfile : Bool) (rounds : Nat) : Worker WorkerCode := do
  let returnCode ← mineUntilStopped argsGiven printProgress outfile rounds
  announceExit
  return .code returnCode

def mineBlocks (argsGiven printProgress outfile : Bool) (rounds : Nat) : Worker WorkerCode :=
  (mineBlocksBody argsGiven printProgress outfile rounds).atLabel fun returnCode => returnCodePtr (atEnd returnCode)

/-! ## Servers -/

/-- A connection is accepted and handled; an error of the handler is not one of the server. -/
def acceptOne (handler : CodeCall) (printProgress : Bool) : Worker ReturnCode := do
  nonnegative .accept .failureNetworkFunction
  unlessSo .clientLenMatches .failureBufferTooSmall
  if printProgress then
    zero .getnameinfo .failureNetworkFunction
    unlessSo .inetNtop .failureNetworkFunction
  let returnCode ← code handler
  effect .close
  return returnCode

def serveRounds (handler : CodeCall) (printProgress : Bool) : Nat → ReturnCode → Worker ReturnCode
  | 0, _ => .running
  | rounds + 1, returnCode => do
    if ← test .shouldStop then
      return returnCode
    else
      let retval ← int .poll
      -- 0 is a timeout: nobody has connected
      if retval = -1 then
        .leave (.code .failureNetworkFunction)
      else if retval ≠ 0 then
        let returnCode ← acceptOne handler printProgress
        serveRounds handler printProgress rounds returnCode
      else
        serveRounds handler printProgress rounds returnCode

/-- A server with this handler, before `end:`. -/
def serve (handler : CodeCall) (printProgress : Bool) (rounds : Nat) : Worker WorkerCode := do
  nonnegative .socket .failureNetworkFunction
  zero .setsockoptReuseaddr .failureNetworkFunction
  zero .setsockoptV6only .failureNetworkFunction
  nonnegative .bind .failureNetworkFunction
  nonnegative .listen .failureNetworkFunction
  let returnCode ← serveRounds handler printProgress rounds .success
  return .code returnCode

def runConsensusPeerServer (printProgress : Bool) (rounds : Nat) : Worker WorkerCode :=
  announcing (serve .handleOneConsensusRequest printProgress rounds)

def handlePeerDiscoveryRequests (printProgress : Bool) (rounds : Nat) : Worker WorkerCode :=
  announcing (serve .handleOnePeerDiscoveryRequest printProgress rounds)

/-! ## Clients -/

/-- The copy is given up; the list of peers is locked. -/
def giveUpCopy {β : Type} (returnCode : WorkerCode) : Worker β := do
  let _ ← code .linkedListDestroy
  let _ ← int (.pthreadMutexUnlock .peerInfoList)
  .leave returnCode

/-- The list of peers is copied; without memory for a copy `return_code` is still `SUCCESS`. -/
def copyPeers : Nat → Nat → Worker Nat
  | 0, _ => .running
  | rounds + 1, copied => do
    if ← test .anotherPeer then
      if ← test .calloc then
        let returnCode ← code .linkedListPrepend
        if returnCode ≠ .success then
          giveUpCopy (.code returnCode)
        copyPeers rounds (copied + 1)
      else
        giveUpCopy (.code .success)
    else
      return copied

/-- The list of peers is locked or unlocked; where that fails the copy is given up. -/
def mutexOrDestroy (function : IntCall) : Worker Unit := do
  let error ← int function
  if error ≠ 0 then
    let _ ← code .linkedListDestroy
    .leave (.error error)

/-- `while (!should_stop && NULL != node)` over this many copies. -/
def exchange : Nat → Worker Unit
  | 0 => do
    let _ ← test .shouldStop
  | nodes + 1 => do
    if ← test .shouldStop then
      return
    else
      let _ ← code .runConsensusPeerClientOnce
      exchange nodes

def consensusRounds (rounds : Nat) : Worker WorkerCode := do
  success .linkedListCreate
  mutexOrDestroy (.pthreadMutexLock .peerInfoList)
  let copied ← copyPeers rounds 0
  mutexOrDestroy (.pthreadMutexUnlock .peerInfoList)
  -- an error of one peer does not end the exchange with the others
  exchange copied
  let returnCode ← code .linkedListDestroy
  return .code returnCode

def runConsensusPeerClient (rounds : Nat) : Worker WorkerCode := announcing (consensusRounds rounds)

def discoverRounds : Nat → ReturnCode → Worker ReturnCode
  | 0, _ => .running
  | rounds + 1, returnCode => do
    if ← test .shouldStop then
      return returnCode
    else
      let returnCode ← code .discoverPeersOnce
      let _ ← code .sleepMicroseconds
      discoverRounds rounds returnCode

/-- `discover_peers` has no label. -/
def discoverPeers (rounds : Nat) : Worker WorkerCode := do
  let returnCode ← discoverRounds rounds .success
  announceExit
  returnCodePtr (.code returnCode)

/-! ## The signal -/

/-- `exit_ready` has been set and then signalled. -/
def Announced (trace : List WorkerEvent) : Prop :=
  [⟨.effect .setExitReady, ()⟩, ⟨.effect .signalExitReady, ()⟩].Sublist trace

/-- The four calls of the signal. -/
def exitEvents (lock unlock : Int32) : List WorkerEvent :=
  [⟨.int (.pthreadMutexLock .exitReady), lock⟩, ⟨.effect .setExitReady, ()⟩, ⟨.effect .signalExitReady, ()⟩,
    ⟨.int (.pthreadMutexUnlock .exitReady), unlock⟩]

theorem announced_exit (lock unlock : Int32) : Announced (exitEvents lock unlock) :=
  .cons _ (.cons_cons _ (.cons_cons _ (List.nil_sublist _)))

theorem announced_append {trace : List WorkerEvent} (earlier : List WorkerEvent) (announced : Announced trace) :
    Announced (earlier ++ trace) :=
  announced.trans (List.sublist_append_right earlier trace)

theorem announceExit_ensures {rest : Unit → Worker WorkerCode}
    {after : Ending WorkerCode WorkerCode → List WorkerEvent → Prop} {trace : List WorkerEvent} :
    (announceExit >>= rest).Ensures after trace ↔
      ∀ lock unlock, (rest ()).Ensures after (trace ++ exitEvents lock unlock) := by
  have same (lock unlock : Int32) : trace ++ exitEvents lock unlock =
      trace ++ [⟨.int (.pthreadMutexLock .exitReady), lock⟩] ++ [⟨.effect .setExitReady, ()⟩] ++
        [⟨.effect .signalExitReady, ()⟩] ++ [⟨.int (.pthreadMutexUnlock .exitReady), unlock⟩] := by
    simp [exitEvents]
  constructor
  · intro ensures lock unlock
    rw [same]
    exact ensures lock () () unlock
  · intro ensures (lock : Int32) _ _ (unlock : Int32)
    have ensured := ensures lock unlock
    rw [same] at ensured
    exact ensured

/-- What is promised of a worker that has returned. -/
def OnReturn (promised : List WorkerEvent → Prop) : Ending WorkerCode WorkerCode → List WorkerEvent → Prop
  | .done _, trace => promised trace
  | _, _ => True

theorem announceExit_onReturn (returnCode : WorkerCode) (trace : List WorkerEvent) :
    (announceExit >>= fun _ => returnCodePtr returnCode).Ensures (OnReturn Announced) trace := by
  refine announceExit_ensures.mpr fun lock unlock (granted : Bool) => ?_
  have announced := announced_append trace (announced_exit lock unlock)
  cases granted with
  | true => exact announced.trans (List.sublist_append_left _ _)
  | false => trivial

/-- Whatever happens before `end:`, a worker that has its signal behind it gives it. -/
theorem announcing_ensures (body : Worker WorkerCode) : (announcing body).Ensures (OnReturn Announced) [] := by
  -- nothing has to be known of the part before the label
  refine ensures_atLabel.mpr (.of_forall fun ending trace => ?_)
  cases ending with
  | done result => exact announceExit_onReturn result trace
  | left code => exact announceExit_onReturn code trace
  | running => trivial
  | undefined => trivial

theorem discoverPeers_ensures (rounds : Nat) : (discoverPeers rounds).Ensures (OnReturn Announced) [] := by
  refine ensures_bind.mpr (.of_forall fun ending trace => ?_)
  cases ending with
  | done result => exact announceExit_onReturn (.code result) trace
  | left code => trivial
  | running => trivial
  | undefined => trivial

/-! ## The signal of the miner -/

/-- The call is one that `mine_blocks` goes to `end:` for, with this answer. -/
def leavesMining : WorkerEvent → Bool
  | ⟨.int (.pthreadMutexLock .sync), (result : Int32)⟩ => result != 0
  | ⟨.int (.pthreadMutexUnlock .sync), (result : Int32)⟩ => result != 0
  | ⟨.int (.pthreadMutexLock .syncVersionCurrentlyMined), (result : Int32)⟩ => result != 0
  | ⟨.int (.pthreadMutexUnlock .syncVersionCurrentlyMined), (result : Int32)⟩ => result != 0
  | ⟨.blockchainVerify, ((returnCode, isValid) : ReturnCode × Bool)⟩ => returnCode != .success || !isValid
  | ⟨.code .synchronizedBlockchainMineBlock, (returnCode : ReturnCode)⟩ =>
    returnCode != .success && returnCode != .failureCouldNotFindValidProofOfWork &&
      returnCode != .failureLongerBlockchainDetected && returnCode != .failureStoppedEarly
  | ⟨.code .blockchainPrint, _⟩ => false
  | ⟨.code .blockchainWriteToFile, _⟩ => false
  | ⟨.code _, (returnCode : ReturnCode)⟩ => returnCode != .success
  | _ => false

/-- So far nothing has been left for, and nothing signalled. -/
def Quiet (trace : List WorkerEvent) : Prop :=
  ∀ event ∈ trace, leavesMining event = false ∧ event.call ≠ .effect .setExitReady

/-- The function has gone to `end:`, and nothing has been signalled. -/
def Gone (trace : List WorkerEvent) : Prop :=
  (∃ event ∈ trace, leavesMining event = true) ∧ ∀ event ∈ trace, event.call ≠ .effect .setExitReady

/-- A part of `mine_blocks` that goes to `end:` with what it leaves for. -/
abbrev StaysQuiet {β : Type} (program : Worker β) : Prop := Leads Quiet Quiet Gone (fun _ => True) program

section Mining

variable {trace : List WorkerEvent} {event : WorkerEvent}

theorem Quiet.snoc (quiet : Quiet trace) (stays : leavesMining event = false)
    (other : event.call ≠ .effect .setExitReady) : Quiet (trace ++ [event]) :=
  List.forall_mem_append.mpr ⟨quiet, List.forall_mem_singleton.mpr ⟨stays, other⟩⟩

theorem Quiet.gone (quiet : Quiet trace) (leaves : leavesMining event = true)
    (other : event.call ≠ .effect .setExitReady) : Gone (trace ++ [event]) :=
  ⟨⟨event, by simp, leaves⟩,
    List.forall_mem_append.mpr ⟨fun event member => (quiet event member).2, List.forall_mem_singleton.mpr other⟩⟩

theorem Gone.snoc (gone : Gone trace) (other : event.call ≠ .effect .setExitReady) : Gone (trace ++ [event]) := by
  obtain ⟨⟨left, member, leaves⟩, others⟩ := gone
  exact ⟨⟨left, List.mem_append_left _ member, leaves⟩,
    List.forall_mem_append.mpr ⟨others, List.forall_mem_singleton.mpr other⟩⟩

theorem check_quiet {call : WorkerCall} {verdict : call.Answer → Option WorkerCode}
    (leaves : ∀ answer, leavesMining ⟨call, answer⟩ = (verdict answer).isSome)
    (other : call ≠ .effect .setExitReady) : StaysQuiet (check call verdict) := by
  refine leads_check (fun trace answer quiet judged => ?_) fun trace answer code quiet judged => ?_
  · exact quiet.snoc (by rw [leaves, judged]; rfl) other
  · exact quiet.gone (by rw [leaves, judged]; rfl) other

theorem perform_quiet {call : WorkerCall} (leaves : ∀ answer, leavesMining ⟨call, answer⟩ = false)
    (other : call ≠ .effect .setExitReady) :
    StaysQuiet (perform call) :=
  leads_perform fun _ answer quiet => quiet.snoc (leaves answer) other

theorem zero_quiet {function : IntCall} {returnCode : ReturnCode}
    (leaves : ∀ result : Int32, leavesMining ⟨.int function, result⟩ = (result != 0)) :
    StaysQuiet (zero function returnCode) := by
  refine check_quiet (fun (result : Int32) => ?_) (by simp)
  rw [leaves]
  by_cases kept : result = 0
  · simp [kept]
  · simp [kept]

theorem success_quiet {function : CodeCall}
    (leaves : ∀ code : ReturnCode, leavesMining ⟨.code function, code⟩ = (code != .success)) :
    StaysQuiet (success function) := by
  refine check_quiet (fun (code : ReturnCode) => ?_) (by simp)
  rw [leaves]
  by_cases kept : code = .success
  · simp [kept]
  · simp [kept]

theorem verify_quiet : StaysQuiet verify := by
  refine check_quiet (fun ((code, isValid) : ReturnCode × Bool) => ?_) (by simp)
  by_cases kept : code = .success
  · cases isValid with
    | true => simp [leavesMining, kept]
    | false => simp [leavesMining, kept]
  · simp [leavesMining, kept]

theorem switchChain_quiet : StaysQuiet switchChain :=
  (zero_quiet fun _ => rfl).bind fun _ => (zero_quiet fun _ => rfl).bind fun _ =>
    (success_quiet fun _ => rfl).bind fun _ => (zero_quiet fun _ => rfl).bind fun _ =>
      (perform_quiet (fun _ => rfl) (by simp)).bind fun _ => zero_quiet fun _ => rfl

theorem prepareBlock_quiet : StaysQuiet prepareBlock :=
  verify_quiet.bind fun _ => (success_quiet fun _ => rfl).bind fun _ => (success_quiet fun _ => rfl).bind fun _ =>
    (success_quiet fun _ => rfl).bind fun _ => (success_quiet fun _ => rfl).bind fun _ =>
      (success_quiet fun _ => rfl).bind fun _ => success_quiet fun _ => rfl

theorem addBlock_quiet (printProgress outfile : Bool) : StaysQuiet (addBlock printProgress outfile) := by
  have joins : StaysQuiet (do let _ ← int .pthreadJoin; let _ ← int .pthreadCreate : Worker Unit) :=
    (perform_quiet (fun _ => rfl) (by simp)).bind fun _ => (perform_quiet (fun _ => rfl) (by simp)).bind fun _ =>
      leads_pure ()
  have writes : StaysQuiet (do
      if outfile then
        let _ ← code .blockchainWriteToFile
      let _ ← int .pthreadJoin
      let _ ← int .pthreadCreate : Worker Unit) := by
    cases outfile with
    | true => exact (perform_quiet (fun _ => rfl) (by simp)).bind fun _ => joins
    | false => exact joins
  refine (success_quiet fun _ => rfl).bind fun _ => ?_
  cases printProgress with
  | true => exact (perform_quiet (fun _ => rfl) (by simp)).bind fun _ => writes
  | false => exact writes

theorem mineRound_quiet (printProgress outfile : Bool) : StaysQuiet (mineRound printProgress outfile) := by
  have mines : StaysQuiet (do
      prepareBlock
      let returnCode ← code .synchronizedBlockchainMineBlock
      if returnCode ≠ .success then
        mineFailed returnCode
      else
        addBlock printProgress outfile
        return returnCode : Worker ReturnCode) := by
    refine prepareBlock_quiet.bind fun _ trace quiet (returnCode : ReturnCode) => ?_
    cases returnCode with
    | success => exact (addBlock_quiet printProgress outfile).bind (fun _ => leads_pure _) _ (quiet.snoc rfl (by simp))
    | failureCouldNotFindValidProofOfWork => exact quiet.snoc rfl (by simp)
    | failureLongerBlockchainDetected => exact quiet.snoc rfl (by simp)
    | failureStoppedEarly => exact quiet.snoc rfl (by simp)
    | _ => exact quiet.gone rfl (by simp)
  refine (perform_quiet (fun _ => rfl) (by simp)).bind fun (differs : Bool) => ?_
  cases differs with
  | true => exact switchChain_quiet.bind fun _ => mines
  | false => exact mines

theorem mineRounds_quiet (printProgress outfile : Bool) (rounds : Nat) (returnCode : ReturnCode) :
    StaysQuiet (mineRounds printProgress outfile rounds returnCode) := by
  induction rounds generalizing returnCode with
  | zero => exact leads_running fun _ _ => trivial
  | succ rounds ih =>
    refine (perform_quiet (fun _ => rfl) (by simp)).bind fun (stops : Bool) => ?_
    cases stops with
    | true => exact leads_pure returnCode
    | false => exact (mineRound_quiet printProgress outfile).bind ih

theorem Gone.not_announced (gone : Gone trace) : ¬ Announced trace := by
  intro announced
  have set : (⟨.effect .setExitReady, ()⟩ : WorkerEvent) ∈ trace := announced.subset List.mem_cons_self
  exact gone.2 _ set rfl

/-- `mine_blocks` before its label: the signal is given behind the loop and nowhere else. -/
def MinedOrGone : Ending WorkerCode WorkerCode → List WorkerEvent → Prop
  | .done _, trace => Announced trace ∧ ∀ event ∈ trace, leavesMining event = false
  | .left _, trace => Gone trace
  | _, _ => True

theorem mineUntilStopped_quiet (printProgress outfile : Bool) (rounds : Nat) :
    StaysQuiet (mineUntilStopped true printProgress outfile rounds) :=
  (leads_pure ()).bind fun _ => (zero_quiet fun _ => rfl).bind fun _ => (zero_quiet fun _ => rfl).bind fun _ =>
    (mineRounds_quiet printProgress outfile rounds .success).bind fun returnCode =>
      (perform_quiet (fun _ => rfl) (by simp)).bind fun _ => leads_pure returnCode

theorem mineBlocksBody_ensures (printProgress outfile : Bool) (rounds : Nat) :
    (mineBlocksBody true printProgress outfile rounds).Ensures MinedOrGone [] := by
  have quiet : Quiet ([] : List WorkerEvent) := by simp [Quiet]
  refine ensures_bind.mpr ((mineUntilStopped_quiet printProgress outfile rounds [] quiet).mono ?_)
  intro ending trace outcome
  cases ending with
  | done returnCode =>
    refine announceExit_ensures.mpr fun lock unlock => ?_
    refine ⟨announced_append trace (announced_exit lock unlock), List.forall_mem_append.mpr ⟨?_, ?_⟩⟩
    · exact fun event member => (outcome event member).1
    · simp [exitEvents, leavesMining]
  | left code => exact outcome
  | running => trivial
  | undefined => trivial

/-- The miner that has returned has given its signal, unless it went to `end:` before. -/
theorem mineBlocks_ensures (printProgress outfile : Bool) (rounds : Nat) :
    (mineBlocks true printProgress outfile rounds).Ensures
      (OnReturn fun trace => Announced trace ↔ ∀ event ∈ trace, leavesMining event = false) [] := by
  refine ensures_atLabel.mpr ((mineBlocksBody_ensures printProgress outfile rounds).mono ?_)
  intro ending trace outcome
  cases ending with
  | done result =>
    intro (granted : Bool)
    cases granted with
    | true =>
      refine iff_of_true (outcome.1.trans (List.sublist_append_left _ _)) ?_
      exact List.forall_mem_append.mpr ⟨outcome.2, by simp [leavesMining]⟩
    | false => trivial
  | left code =>
    intro (granted : Bool)
    cases granted with
    | true =>
      have gone : Gone (trace ++ [⟨.test .malloc, true⟩]) := Gone.snoc outcome (by simp)
      refine iff_of_false gone.not_announced fun stays => ?_
      obtain ⟨event, member, leaves⟩ := gone.1
      rw [stays event member] at leaves
      cases leaves
    | false => trivial
  | running => trivial
  | undefined => trivial

end Mining

/-- Whatever their calls answer, four of the workers have given their signal when they return, and the miner has if
and only if no call was one that it goes to `end:` for. -/
theorem workers_announce_exit_iff (printProgress outfile : Bool) (rounds : Nat) {trace : List WorkerEvent}
    {returnCode : WorkerCode} :
    (Runs (runConsensusPeerServer printProgress rounds) trace (.done returnCode) → Announced trace) ∧
    (Runs (runConsensusPeerClient rounds) trace (.done returnCode) → Announced trace) ∧
    (Runs (handlePeerDiscoveryRequests printProgress rounds) trace (.done returnCode) → Announced trace) ∧
    (Runs (discoverPeers rounds) trace (.done returnCode) → Announced trace) ∧
    (Runs (mineBlocks true printProgress outfile rounds) trace (.done returnCode) →
      (Announced trace ↔ ∀ event ∈ trace, leavesMining event = false)) :=
  ⟨(announcing_ensures _).runs, (announcing_ensures _).runs, (announcing_ensures _).runs,
    (discoverPeers_ensures rounds).runs, (mineBlocks_ensures printProgress outfile rounds).runs⟩

/-- `should_stop` is set before the first round. -/
def stoppedRun : List WorkerEvent :=
  [⟨.int (.pthreadMutexLock .sync), (0 : Int32)⟩, ⟨.int (.pthreadMutexUnlock .sync), (0 : Int32)⟩,
    ⟨.test .shouldStop, true⟩, ⟨.int .pthreadJoin, (0 : Int32)⟩] ++ (exitEvents 0 0 ++ [⟨.test .malloc, true⟩])

theorem stoppedRun_runs : Runs (mineBlocks true false false 1) stoppedRun (.done (.code .success)) :=
  .ask _ (.ask _ (.ask _ (.ask _ (.ask _ (.ask _ (.ask _ (.ask _ (.ask _ .done))))))))

/-- `should_stop` is set when a block has been mined. -/
def minedRun : List WorkerEvent :=
  [⟨.int (.pthreadMutexLock .sync), (0 : Int32)⟩, ⟨.int (.pthreadMutexUnlock .sync), (0 : Int32)⟩,
    ⟨.test .shouldStop, false⟩, ⟨.test .versionDiffers, false⟩, ⟨.blockchainVerify, (ReturnCode.success, true)⟩,
    ⟨.code .linkedListGetLast, ReturnCode.success⟩, ⟨.code .blockHash, ReturnCode.success⟩,
    ⟨.code .linkedListCreate, ReturnCode.success⟩, ⟨.code .transactionCreate, ReturnCode.success⟩,
    ⟨.code .linkedListPrepend, ReturnCode.success⟩, ⟨.code .blockCreate, ReturnCode.success⟩,
    ⟨.code .synchronizedBlockchainMineBlock, ReturnCode.success⟩, ⟨.code .blockchainAddBlock, ReturnCode.success⟩,
    ⟨.int .pthreadJoin, (0 : Int32)⟩, ⟨.int .pthreadCreate, (0 : Int32)⟩, ⟨.test .shouldStop, true⟩,
    ⟨.int .pthreadJoin, (0 : Int32)⟩] ++ (exitEvents 0 0 ++ [⟨.test .malloc, true⟩])

theorem minedRun_runs : Runs (mineBlocks true false false 2) minedRun (.done (.code .success)) :=
  .ask _ (.ask _ (.ask _ (.ask _ (.ask _ (.ask _ (.ask _ (.ask _ (.ask _ (.ask _ (.ask _ (.ask _ (.ask _ (.ask _
    (.ask _ (.ask _ (.ask _ (.ask _ (.ask _ (.ask _ (.ask _ (.ask _ .done)))))))))))))))))))))

theorem workers_announce_exit_iff_stopped :
    Announced minedRun ↔ ∀ event ∈ minedRun, leavesMining event = false :=
  (workers_announce_exit_iff false false 2).2.2.2.2 minedRun_runs

/-- The chain that is going to be mined is not valid. -/
def invalidChainRun : List WorkerEvent :=
  [⟨.int (.pthreadMutexLock .sync), (0 : Int32)⟩, ⟨.int (.pthreadMutexUnlock .sync), (0 : Int32)⟩,
    ⟨.test .shouldStop, false⟩, ⟨.test .versionDiffers, false⟩, ⟨.blockchainVerify, (ReturnCode.success, false)⟩,
    ⟨.test .malloc, true⟩]

theorem invalidChainRun_runs :
    Runs (mineBlocks true false false 1) invalidChainRun (.done (.code .failureInvalidBlockchain)) :=
  .ask _ (.ask _ (.ask _ (.ask _ (.ask _ (.ask _ .done)))))

theorem mine_blocks_returns_unannounced :
    Runs (mineBlocks true false false 1) invalidChainRun (.done (.code .failureInvalidBlockchain)) ∧
      ¬ Announced invalidChainRun := by
  refine ⟨invalidChainRun_runs, fun announced => ?_⟩
  have set := List.mem_map_of_mem (f := Event.call) (announced.subset List.mem_cons_self)
  exact absurd set (by decide)

end Worker

end LeoCoin
