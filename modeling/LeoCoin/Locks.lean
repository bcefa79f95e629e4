import LeoCoin.Sessions
import LeoCoin.Library.Locking

/-! # Mutexes of the sessions

The functions that lock the mutex of the chain or of the list of peers, one call after the
other.  Each comes back with nothing locked, whatever the calls answer that are not on a
mutex themselves.
-/

namespace LeoCoin

open Library.Calls
open Library.Locking

namespace Session

/-! ## What is done to the mutexes -/

/-- What a call does to a mutex, where it succeeds. -/
def action : SessionCall → Option (LockAction Mutex)
  | .int (.pthreadMutexLock mutex) => some (.acquire mutex)
  | .int (.pthreadMutexUnlock mutex) => some (.release mutex)
  | .worker (.int (.pthreadMutexLock mutex)) => some (.acquire mutex)
  | .worker (.int (.pthreadMutexUnlock mutex)) => some (.release mutex)
  | _ => none

def actions (trace : List SessionEvent) : List (LockAction Mutex) := trace.filterMap fun event => action event.call

/-- A mutex could not be locked or unlocked. -/
def mutexFails : SessionEvent → Bool
  | ⟨.int (.pthreadMutexLock _), (error : Int32)⟩ => error != 0
  | ⟨.int (.pthreadMutexUnlock _), (error : Int32)⟩ => error != 0
  | ⟨.worker (.int (.pthreadMutexLock _)), (error : Int32)⟩ => error != 0
  | ⟨.worker (.int (.pthreadMutexUnlock _)), (error : Int32)⟩ => error != 0
  | _ => false

/-- Locking and unlocking succeed. -/
def LocksSucceed (trace : List SessionEvent) : Prop := ∀ event ∈ trace, mutexFails event = false

/-- A loop over nodes has come to one more. -/
def meetsNode : SessionEvent → Bool
  | ⟨.test .anotherNode, (another : Bool)⟩ => another
  | ⟨.worker (.test .anotherPeer), (another : Bool)⟩ => another
  | _ => false

def nodesMet (trace : List SessionEvent) : Nat := trace.countP meetsNode

/-- Memory was used that had not been granted. -/
def usesNull : SessionEvent → Bool
  | ⟨.unchecked _, (granted : Bool)⟩ => !granted
  | ⟨.worker (.test .malloc), (granted : Bool)⟩ => !granted
  | _ => false

/-- These mutexes are held, and so far each was locked and unlocked in turn. -/
def With (held : List Mutex) (trace : List SessionEvent) : Prop :=
  LocksSucceed trace → Disciplined [] (actions trace) ∧ heldAfter [] (actions trace) = held

/-- A run is cut off: there are more nodes than rounds, or memory is used that there is not. -/
def Halted (rounds : Nat) (trace : List SessionEvent) : Prop :=
  (LocksSucceed trace → Disciplined [] (actions trace)) ∧
    (rounds ≤ nodesMet trace ∨ ∃ event ∈ trace, usesNull event = true)

section Conditions

variable {trace : List SessionEvent} {event : SessionEvent} {held : List Mutex} {mutex : Mutex}

theorem LocksSucceed.of_snoc (succeed : LocksSucceed (trace ++ [event])) :
    LocksSucceed trace ∧ mutexFails event = false := by
  obtain ⟨before, last⟩ := List.forall_mem_append.mp succeed
  exact ⟨before, last event (by simp)⟩

theorem actions_snoc (acts : action event.call = none) : actions (trace ++ [event]) = actions trace := by
  simp [actions, acts]

theorem actions_snoc_some {done : LockAction Mutex} (acts : action event.call = some done) :
    actions (trace ++ [event]) = actions trace ++ [done] := by
  simp [actions, acts]

theorem With.other (locked : With held trace) (event : SessionEvent) (acts : action event.call = none) :
    With held (trace ++ [event]) := by
  intro succeed
  rw [actions_snoc acts]
  exact locked succeed.of_snoc.1

theorem With.act (locked : With held trace) (event : SessionEvent) {done : LockAction Mutex}
    (acts : action event.call = some done) (allowed : Allowed held done) :
    With (hold held done) (trace ++ [event]) := by
  intro succeed
  obtain ⟨disciplined, holds⟩ := locked succeed.of_snoc.1
  rw [actions_snoc_some acts, disciplined_append, heldAfter_append, holds]
  exact ⟨⟨disciplined, allowed, trivial⟩, rfl⟩

theorem With.lock (locked : With [] trace) (event : SessionEvent) (acts : action event.call = some (.acquire mutex)) :
    With [mutex] (trace ++ [event]) :=
  locked.act event acts List.not_mem_nil

theorem With.unlock (locked : With [mutex] trace) (event : SessionEvent)
    (acts : action event.call = some (.release mutex)) :
    With [] (trace ++ [event]) := by
  have released := locked.act event acts (List.mem_singleton_self mutex)
  simpa [hold] using released

/-- Nothing is promised where a call on a mutex fails. -/
theorem With.failed (fails : mutexFails event = true) : With held (trace ++ [event]) := by
  intro succeed
  rw [succeed.of_snoc.2] at fails
  cases fails

theorem With.halted (locked : With held trace) {rounds : Nat} (cut : rounds ≤ nodesMet trace) : Halted rounds trace :=
  ⟨fun succeed => (locked succeed).1, .inl cut⟩

theorem With.denied (locked : With held trace) (event : SessionEvent) {rounds : Nat} (null : usesNull event = true)
    (acts : action event.call = none) : Halted rounds (trace ++ [event]) :=
  ⟨fun succeed => (locked.other event acts succeed).1, .inr ⟨event, by simp, null⟩⟩

end Conditions

/-! ## Parts of a session -/

section Parts

variable {rounds : Nat} {β : Type} {mutex : Mutex} {held : List Mutex}

/-- A part that locks nothing and is left with nothing locked. -/
abbrev StaysFree (rounds : Nat) (program : Session β) : Prop :=
  Leads (With []) (With []) (With []) (Halted rounds) program

/-- A part with a mutex held, which is unlocked where the part is left. -/
abbrev StaysHeld (rounds : Nat) (mutex : Mutex) (program : Session β) : Prop :=
  Leads (With [mutex]) (With [mutex]) (With []) (Halted rounds) program

theorem perform_held {gone cut : List SessionEvent → Prop} {call : SessionCall} (acts : action call = none) :
    Leads (With held) (With held) gone cut (perform call : Session call.Answer) :=
  leads_perform fun _ _ locked => locked.other _ acts

theorem check_free {call : SessionCall} {verdict : call.Answer → Option WorkerCode} (acts : action call = none) :
    StaysFree rounds (check call verdict) :=
  leads_check (fun _ _ locked _ => locked.other _ acts) fun _ _ _ locked _ => locked.other _ acts

theorem unchecked_free (allocation : Unchecked) : StaysFree rounds (unchecked allocation) := by
  intro trace locked (granted : Bool)
  cases granted with
  | true => exact locked.other ⟨.unchecked allocation, true⟩ rfl
  | false => exact locked.denied ⟨.unchecked allocation, false⟩ rfl rfl

theorem verify_free : StaysFree rounds verify := by
  intro trace locked ((returnCode, isValid) : ReturnCode × Bool)
  have verified := locked.other ⟨.blockchainVerify, (returnCode, isValid)⟩ rfl
  cases returnCode with
  | success => exact verified
  | _ => exact verified

theorem mutex_check {after : List Mutex} {function : SessionInt} {done : LockAction Mutex}
    {otherwise : Int32 → WorkerCode}
    (acts : action (.int function) = some done) (allowed : Allowed held done) (holds : hold held done = after)
    (fails : ∀ error : Int32, mutexFails ⟨.int function, error⟩ = (error != 0)) :
    Leads (With held) (With after) (With []) (Halted rounds)
      (check (SessionCall.int function) fun (error : Int32) => if error ≠ 0 then some (otherwise error) else none) := by
  refine leads_check (fun trace (error : Int32) locked _ => ?_) fun trace (error : Int32) code _ judged => ?_
  · rw [← holds]
    exact locked.act ⟨.int function, error⟩ acts allowed
  · have failed : error ≠ 0 := by
      intro zero
      simp [zero] at judged
    exact With.failed (by simp [fails, failed])

theorem lock_held : Leads (With []) (With [mutex]) (With []) (Halted rounds) (mutexZero (.pthreadMutexLock mutex)) :=
  mutex_check rfl List.not_mem_nil rfl fun _ => rfl

theorem unlock_free :
    Leads (With [mutex]) (With []) (With []) (Halted rounds) (mutexZero (.pthreadMutexUnlock mutex)) :=
  mutex_check rfl (List.mem_singleton_self mutex) (by simp [hold]) fun _ => rfl

theorem zero_lock_held {returnCode : ReturnCode} :
    Leads (With []) (With [mutex]) (With []) (Halted rounds) (zero (.pthreadMutexLock mutex) returnCode) :=
  mutex_check rfl List.not_mem_nil rfl fun _ => rfl

theorem zero_unlock_free {returnCode : ReturnCode} :
    Leads (With [mutex]) (With []) (With []) (Halted rounds) (zero (.pthreadMutexUnlock mutex) returnCode) :=
  mutex_check rfl (List.mem_singleton_self mutex) (by simp [hold]) fun _ => rfl

/-- Whoever leaves with the mutex held unlocks it before. -/
theorem unlockAndLeave_held {returnCode : WorkerCode} : StaysHeld rounds mutex (unlockAndLeave mutex returnCode) :=
  fun _ locked error => locked.unlock ⟨.int (.pthreadMutexUnlock mutex), error⟩ rfl

theorem successOrUnlock_held (function : SessionCode) : StaysHeld rounds mutex (successOrUnlock mutex function) := by
  refine (perform_held rfl).bind fun (returnCode : ReturnCode) => ?_
  cases returnCode with
  | success => exact leads_pure ()
  | _ => exact unlockAndLeave_held

theorem zeroOrUnlock_held {function : SessionInt} {otherwise : ReturnCode} (acts : action (.int function) = none) :
    StaysHeld rounds mutex (zeroOrUnlock mutex function otherwise) := by
  refine (perform_held acts).bind fun (result : Int32) => ?_
  by_cases failed : result ≠ 0
  · rw [if_pos failed]
    exact unlockAndLeave_held
  · rw [if_neg failed]
    exact leads_pure ()

theorem unlessSoOrUnlock_held (so : SessionTest) {otherwise : ReturnCode} :
    StaysHeld rounds mutex (unlessSoOrUnlock mutex so otherwise) := by
  refine (perform_held rfl).bind fun (answer : Bool) => ?_
  cases answer with
  | true => exact leads_pure ()
  | false => exact unlockAndLeave_held

theorem considerPeerBlockchain_held : StaysHeld rounds .sync considerPeerBlockchain :=
  (successOrUnlock_held .linkedListLength).bind fun _ => perform_held rfl

theorem receiveBlockchain_free : StaysFree rounds receiveBlockchain :=
  (check_free rfl).bind fun _ => (check_free rfl).bind fun _ => (check_free rfl).bind fun _ =>
    (check_free rfl).bind fun _ => (unchecked_free .realloc).bind fun _ => (check_free rfl).bind fun _ =>
      (check_free rfl).bind fun _ => (check_free rfl).bind fun _ => verify_free.bind fun isValid =>
        (check_free rfl).bind fun _ => leads_pure isValid

theorem destroyUnless_free (switched : Bool) : StaysFree rounds (destroyUnless switched) := by
  cases switched with
  | true => exact leads_pure ()
  | false => exact check_free rfl

theorem toEnd_free {body : Session Unit} (stays : StaysFree rounds body) :
    Leads (With []) (With []) (With []) (Halted rounds) (toEnd body) :=
  stays.atLabel (fun _ _ locked => locked) fun _ _ locked => locked

theorem handleOneConsensusRequest_free :
    Leads (With []) (With []) (With []) (Halted rounds) handleOneConsensusRequest := by
  have answers (switched : Bool) : Leads (With [.sync]) (With []) (With []) (Halted rounds) (do
      successOrUnlock .sync .blockchainSerialize
      mutexZero (.pthreadMutexUnlock .sync)
      destroyUnless switched
      success .commandSendBlockchainSerialize
      successOr .sendAll .failureNetworkFunction : Session Unit) :=
    (successOrUnlock_held _).bind fun _ => unlock_free.bind fun _ => (destroyUnless_free switched).bind fun _ =>
      (check_free rfl).bind fun _ => check_free rfl
  refine toEnd_free (receiveBlockchain_free.bind fun isValid => lock_held.bind fun _ => ?_)
  cases isValid with
  | true => exact considerPeerBlockchain_held.bind answers
  | false => exact (leads_pure false).bind answers

theorem serializeOurBlockchain_free : StaysFree rounds serializeOurBlockchain :=
  lock_held.bind fun _ => (successOrUnlock_held _).bind fun _ => unlock_free

theorem switchToPeer_free : StaysFree rounds switchToPeer :=
  lock_held.bind fun _ => considerPeerBlockchain_held.bind fun switched => unlock_free.bind fun _ => leads_pure switched

theorem exchangeBlockchains_free : StaysFree rounds exchangeBlockchains := by
  refine (check_free rfl).bind fun _ => serializeOurBlockchain_free.bind fun _ => (check_free rfl).bind fun _ =>
    (check_free rfl).bind fun _ => receiveBlockchain_free.bind fun isValid => ?_
  cases isValid with
  | true => exact switchToPeer_free.bind destroyUnless_free
  | false => exact (leads_pure false).bind destroyUnless_free

theorem openSocket_free : StaysFree rounds openSocket := by
  intro trace locked (clientFd : Int32)
  have opened := locked.other ⟨.int .socket, clientFd⟩ rfl
  change Program.Ensures _ (if clientFd < 0 then _ else _) _
  by_cases failed : clientFd < 0
  · rw [if_pos failed]
    exact opened
  · rw [if_neg failed]
    exact opened

theorem runConsensusPeerClientOnce_free :
    Leads (With []) (With []) (With []) (Halted rounds) runConsensusPeerClientOnce :=
  toEnd_free (openSocket_free.bind fun _ => exchangeBlockchains_free.bind fun _ => perform_held rfl)

/-! ### Loops over nodes -/

theorem nodesMet_snoc (trace : List SessionEvent) (event : SessionEvent) :
    nodesMet (trace ++ [event]) = nodesMet trace + if meetsNode event then 1 else 0 := by
  simp [nodesMet, List.countP_append, List.countP_singleton]

/-- Besides `held`: the loop has been through all rounds but these, each with a node. -/
def Visiting (rounds left : Nat) (held : List Mutex) (trace : List SessionEvent) : Prop :=
  With held trace ∧ rounds ≤ left + nodesMet trace

theorem leads_visiting {before after gone cut : List SessionEvent → Prop} {left : Nat} {program : Session β}
    (leads : Leads before after gone cut program) :
    Leads (fun trace => before trace ∧ rounds ≤ left + nodesMet trace)
      (fun trace => after trace ∧ rounds ≤ left + nodesMet trace) gone cut program := by
  have counts : Leads (fun trace => rounds ≤ left + nodesMet trace) (fun trace => rounds ≤ left + nodesMet trace)
      (fun trace => rounds ≤ left + nodesMet trace) (fun trace => rounds ≤ left + nodesMet trace) program := by
    refine leads_persistent fun trace event counted => ?_
    rw [nodesMet_snoc]
    omega
  exact (leads.and counts).mono (fun _ both => both) (fun _ both => both) (fun _ both => both.1) fun _ both => both.1

theorem printPeer_held (printProgress : Bool) : StaysHeld rounds .peerInfoList (printPeer printProgress) := by
  cases printProgress with
  | true => exact (zeroOrUnlock_held rfl).bind fun _ => unlessSoOrUnlock_held .inetNtop
  | false => exact leads_pure ()

/-- With one more node there is one round less. -/
theorem Visiting.met {trace : List SessionEvent} {left : Nat}
    (visiting : Visiting rounds (left + 1) held trace) (event : SessionEvent) (met : meetsNode event = true)
    (acts : action event.call = none) : Visiting rounds left held (trace ++ [event]) := by
  obtain ⟨locked, counted⟩ := visiting
  refine ⟨locked.other event acts, ?_⟩
  rw [nodesMet_snoc, if_pos met]
  omega

theorem Visiting.halted {trace : List SessionEvent} (visiting : Visiting rounds 0 held trace) : Halted rounds trace :=
  visiting.1.halted (by simpa using visiting.2)

theorem With.visiting {trace : List SessionEvent} (locked : With held trace) : Visiting rounds rounds held trace :=
  ⟨locked, Nat.le_add_right _ _⟩

theorem expirePeers_held (printProgress : Bool) (left : Nat) :
    Leads (Visiting rounds left [.peerInfoList]) (With [.peerInfoList]) (With []) (Halted rounds)
      (expirePeers printProgress left) := by
  induction left with
  | zero => exact leads_running fun _ visiting => visiting.halted
  | succ left ih =>
    have further : Leads (Visiting rounds left [.peerInfoList]) (With [.peerInfoList]) (With []) (Halted rounds) (do
        if ← test .peerExpired then
          printPeer printProgress
        expirePeers printProgress left : Session Unit) := by
      refine (leads_visiting (perform_held rfl)).bind fun (expired : Bool) => ?_
      cases expired with
      | true => exact (leads_visiting (printPeer_held printProgress)).bind fun _ => ih
      | false => exact (leads_pure ()).bind fun _ => ih
    intro trace visiting (another : Bool)
    cases another with
    | true => exact further _ (visiting.met ⟨.test .anotherNode, true⟩ rfl rfl)
    | false => exact visiting.1.other ⟨.test .anotherNode, false⟩ rfl

theorem enterPeer_held (printProgress : Bool) : StaysHeld rounds .peerInfoList (enterPeer printProgress) := by
  refine (successOrUnlock_held _).bind fun _ => (perform_held rfl).bind fun (found : Bool) => ?_
  cases found with
  | true => exact (leads_pure ()).bind fun _ => printPeer_held printProgress
  | false => exact (successOrUnlock_held _).bind fun _ => printPeer_held printProgress

theorem receiveRegistration_free : StaysFree rounds receiveRegistration :=
  (check_free rfl).bind fun _ => (check_free rfl).bind fun _ => (check_free rfl).bind fun _ =>
    (check_free rfl).bind fun _ => (unchecked_free .realloc).bind fun _ => (check_free rfl).bind fun _ =>
      (check_free rfl).bind fun _ => unchecked_free .malloc

theorem handleOnePeerDiscoveryRequest_free (printProgress : Bool) :
    Leads (With []) (With []) (With []) (Halted rounds) (handleOnePeerDiscoveryRequest printProgress rounds) := by
  have expires : StaysHeld rounds .peerInfoList (expirePeers printProgress rounds) :=
    fun trace locked => expirePeers_held printProgress rounds trace locked.visiting
  exact toEnd_free (receiveRegistration_free.bind fun _ => lock_held.bind fun _ =>
    (enterPeer_held printProgress).bind fun _ => expires.bind fun _ => (successOrUnlock_held _).bind fun _ =>
      unlock_free.bind fun _ => (check_free rfl).bind fun _ => check_free rfl)

theorem printPeers_held (left : Nat) :
    Leads (Visiting rounds left [.peerInfoList]) (With [.peerInfoList]) (With []) (Halted rounds)
      (printPeers left) := by
  induction left with
  | zero => exact leads_running fun _ visiting => visiting.halted
  | succ left ih =>
    have further : Leads (Visiting rounds left [.peerInfoList]) (With [.peerInfoList]) (With []) (Halted rounds) (do
        let _ ← test .inetNtop
        printPeers left : Session Unit) :=
      (leads_visiting (perform_held rfl)).bind fun _ => ih
    intro trace visiting (another : Bool)
    cases another with
    | true => exact further _ (visiting.met ⟨.test .anotherNode, true⟩ rfl rfl)
    | false => exact visiting.1.other ⟨.test .anotherNode, false⟩ rfl

theorem receivePeers_free : StaysFree rounds receivePeers :=
  (check_free rfl).bind fun _ => (check_free rfl).bind fun _ => (check_free rfl).bind fun _ =>
    (check_free rfl).bind fun _ => (check_free rfl).bind fun _ => (check_free rfl).bind fun _ =>
      (check_free rfl).bind fun _ => (check_free rfl).bind fun _ => (check_free rfl).bind fun _ =>
        (check_free rfl).bind fun _ => check_free rfl

theorem replacePeers_free : StaysFree rounds replacePeers :=
  zero_lock_held.bind fun _ => (perform_held rfl).bind fun _ => zero_unlock_free

theorem printPeerList_free (printProgress : Bool) : StaysFree rounds (printPeerList printProgress rounds) := by
  have prints : StaysHeld rounds .peerInfoList (printPeers rounds) :=
    fun trace locked => printPeers_held rounds trace locked.visiting
  cases printProgress with
  | true => exact zero_lock_held.bind fun _ => prints.bind fun _ => zero_unlock_free
  | false => exact leads_pure ()

theorem discoverPeersOnce_free (printProgress : Bool) :
    Leads (With []) (With []) (With []) (Halted rounds) (discoverPeersOnce printProgress rounds) :=
  toEnd_free (openSocket_free.bind fun _ => receivePeers_free.bind fun _ => replacePeers_free.bind fun _ =>
    (printPeerList_free printProgress).bind fun _ => perform_held rfl)

end Parts

/-! ## The client with its attempts -/

section Client

variable {rounds nodes : Nat} {printProgress : Bool} {held : List Mutex} {gone cut : List SessionEvent → Prop}

theorem own_held {call : WorkerCall} (own : attempt printProgress nodes call = perform (SessionCall.worker call))
    (acts : action (.worker call) = none) :
    Leads (With held) (With held) gone cut
      ((perform call : Worker call.Answer).expand (attempt printProgress nodes)) := by
  refine leads_expand_perform ?_
  rw [own]
  exact leads_perform fun _ _ locked => locked.other _ acts

theorem own_lock (mutex : Mutex) :
    Leads (With []) (With [mutex]) gone cut
      ((Worker.int (.pthreadMutexLock mutex)).expand (attempt printProgress nodes)) :=
  leads_expand_perform (leads_perform fun _ error locked =>
    locked.lock ⟨.worker (.int (.pthreadMutexLock mutex)), error⟩ rfl)

theorem own_unlock (mutex : Mutex) :
    Leads (With [mutex]) (With []) gone cut
      ((Worker.int (.pthreadMutexUnlock mutex)).expand (attempt printProgress nodes)) :=
  leads_expand_perform (leads_perform fun _ error locked =>
    locked.unlock ⟨.worker (.int (.pthreadMutexUnlock mutex)), error⟩ rfl)

theorem mutexOrDestroy_held {after : List Mutex} {function : IntCall} {done : LockAction Mutex}
    (acts : action (.worker (.int function)) = some done) (allowed : Allowed held done) (holds : hold held done = after)
    (fails : ∀ error : Int32, mutexFails ⟨.worker (.int function), error⟩ = (error != 0)) :
    Leads (With held) (With after) (With []) (Halted rounds)
      ((Worker.mutexOrDestroy function).expand (attempt printProgress nodes)) := by
  intro trace locked (error : Int32)
  have acted := locked.act ⟨.worker (.int function), error⟩ acts allowed
  change Program.Ensures _ (Program.expand _ (if error ≠ 0 then _ else _)) _
  by_cases failed : error ≠ 0
  · rw [if_pos failed]
    have promised : With [] (trace ++ [⟨.worker (.int function), error⟩]) := With.failed (by simp [fails, failed])
    exact fun (returnCode : ReturnCode) =>
      promised.other ⟨.worker (.code .linkedListDestroy), returnCode⟩ rfl
  · rw [if_neg failed]
    rwa [holds] at acted

theorem giveUpCopy_free {γ : Type} (returnCode : WorkerCode) {after : List SessionEvent → Prop} :
    Leads (With [.peerInfoList]) after (With []) cut
      ((Worker.giveUpCopy returnCode : Worker γ).expand (attempt printProgress nodes)) :=
  leads_expand_bind (own_held rfl rfl) fun _ => leads_expand_bind (own_unlock .peerInfoList) fun _ _ locked => locked

theorem copyPeers_held (left copied : Nat) :
    Leads (Visiting rounds left [.peerInfoList]) (With [.peerInfoList]) (With []) (Halted rounds)
      ((Worker.copyPeers left copied).expand (attempt printProgress nodes)) := by
  induction left generalizing copied with
  | zero => exact leads_running fun _ visiting => visiting.halted
  | succ left ih =>
    have visits {β : Type} {program : Worker β} {after : List SessionEvent → Prop}
        (leads : Leads (With [.peerInfoList]) after (With []) (Halted rounds)
          (program.expand (attempt printProgress nodes))) :
        Leads (Visiting rounds left [.peerInfoList]) (fun trace => after trace ∧ rounds ≤ left + nodesMet trace)
          (With []) (Halted rounds) (program.expand (attempt printProgress nodes)) := leads_visiting leads
    have further : Leads (Visiting rounds left [.peerInfoList]) (With [.peerInfoList]) (With []) (Halted rounds)
        ((do
          if ← Worker.test .calloc then
            let returnCode ← Worker.code .linkedListPrepend
            if returnCode ≠ .success then
              Worker.giveUpCopy (.code returnCode)
            Worker.copyPeers left (copied + 1)
          else
            Worker.giveUpCopy (.code .success) : Worker Nat).expand (attempt printProgress nodes)) := by
      refine leads_expand_bind (visits (own_held rfl rfl)) fun (granted : Bool) => ?_
      cases granted with
      | false => exact fun trace visiting => giveUpCopy_free _ trace visiting.1
      | true =>
        refine leads_expand_bind (visits (own_held rfl rfl)) fun (returnCode : ReturnCode) => ?_
        cases returnCode with
        | success => exact ih (copied + 1)
        | _ => exact leads_expand_bind (visits (giveUpCopy_free _)) fun _ => ih (copied + 1)
    intro trace visiting (another : Bool)
    cases another with
    | true => exact further _ (visiting.met ⟨.worker (.test .anotherPeer), true⟩ rfl rfl)
    | false => exact visiting.1.other ⟨.worker (.test .anotherPeer), false⟩ rfl

theorem exchange_free (copied : Nat) :
    Leads (With []) (With []) (With []) (Halted rounds)
      ((Worker.exchange copied).expand (attempt printProgress nodes)) := by
  induction copied with
  | zero => exact leads_expand_bind (own_held rfl rfl) fun _ => leads_pure ()
  | succ copied ih =>
    have attempts : Leads (With []) (With []) (With []) (Halted rounds)
        ((Worker.code .runConsensusPeerClientOnce).expand (attempt printProgress nodes)) :=
      leads_expand_perform (runConsensusPeerClientOnce_free.bind fun _ => leads_pure _)
    refine leads_expand_bind (own_held rfl rfl) fun stops => ?_
    cases stops with
    | true => exact leads_pure ()
    | false => exact leads_expand_bind attempts fun _ => ih

theorem announceExit_free :
    Leads (With []) (With []) gone cut (Worker.announceExit.expand (attempt printProgress nodes)) :=
  leads_expand_bind (own_lock .exitReady) fun _ => leads_expand_bind (own_held rfl rfl) fun _ =>
    leads_expand_bind (own_held rfl rfl) fun _ => leads_expand_bind (own_unlock .exitReady) fun _ => leads_pure ()

theorem returnCodePtr_free (returnCode : WorkerCode) :
    Leads (With []) (With []) gone (Halted rounds)
      ((Worker.returnCodePtr returnCode).expand (attempt printProgress nodes)) := by
  intro trace locked (granted : Bool)
  cases granted with
  | true => exact locked.other ⟨.worker (.test .malloc), true⟩ rfl
  | false => exact locked.denied ⟨.worker (.test .malloc), false⟩ rfl rfl

theorem consensusRounds_free :
    Leads (With []) (With []) (With []) (Halted rounds)
      ((Worker.consensusRounds rounds).expand (attempt printProgress nodes)) := by
  have creates : Leads (With []) (With []) (With []) (Halted rounds)
      ((Worker.success .linkedListCreate).expand (attempt printProgress nodes)) :=
    leads_expand_check (leads_perform fun _ returnCode locked =>
      locked.other ⟨.worker (.code .linkedListCreate), returnCode⟩ rfl) (fun _ locked => locked)
      fun _ locked => locked
  have copies : Leads (With [.peerInfoList]) (With [.peerInfoList]) (With []) (Halted rounds)
      ((Worker.copyPeers rounds 0).expand (attempt printProgress nodes)) :=
    fun trace locked => copyPeers_held rounds 0 trace locked.visiting
  exact leads_expand_bind creates fun _ =>
    leads_expand_bind (mutexOrDestroy_held rfl List.not_mem_nil rfl fun _ => rfl) fun _ =>
      leads_expand_bind copies fun copied =>
        leads_expand_bind (mutexOrDestroy_held rfl (List.mem_singleton_self _) (by simp [hold]) fun _ => rfl) fun _ =>
          leads_expand_bind (exchange_free copied) fun _ => leads_expand_bind (own_held rfl rfl) fun returnCode =>
            leads_pure (WorkerCode.code returnCode)

theorem runConsensusPeerClient_free :
    Leads (With []) (With []) (With []) (Halted rounds) (runConsensusPeerClient rounds) := by
  refine leads_expand_atLabel consensusRounds_free (fun returnCode => ?_) fun returnCode => ?_
  · exact leads_expand_bind announceExit_free fun _ => returnCodePtr_free returnCode
  · exact leads_expand_bind announceExit_free fun _ => returnCodePtr_free returnCode

end Client

/-! ## Requests -/

/-- The functions that lock a mutex for a session, or for a round of them. -/
inductive Service where
  | handleOneConsensusRequest : Service
  | runConsensusPeerClientOnce : Service
  | runConsensusPeerClient : Service
  | handleOnePeerDiscoveryRequest : Service
  | discoverPeersOnce : Service
deriving DecidableEq

/-- One call of such a function, its loop over nodes given this many rounds. -/
structure Request where
  service : Service
  printProgress : Bool
  rounds : Nat

def Request.program (request : Request) : Returning WorkerCode :=
  match request.service with
  | .handleOneConsensusRequest => handleOneConsensusRequest
  | .runConsensusPeerClientOnce => runConsensusPeerClientOnce
  | .runConsensusPeerClient =>
    (runConsensusPeerClient request.rounds).atLabel fun returnCode => .done (Worker.atEnd returnCode)
  | .handleOnePeerDiscoveryRequest => handleOnePeerDiscoveryRequest request.printProgress request.rounds
  | .discoverPeersOnce => discoverPeersOnce request.printProgress request.rounds

/-- The calls of a request that has been answered. -/
def Answered (trace : List SessionEvent) : Prop :=
  ∃ request : Request, ∃ returnCode, Runs request.program trace (.done returnCode)

theorem Request.program_free (request : Request) :
    Leads (With []) (With []) (With []) (Halted request.rounds) request.program := by
  obtain ⟨service, printProgress, rounds⟩ := request
  cases service with
  | handleOneConsensusRequest => exact handleOneConsensusRequest_free
  | runConsensusPeerClientOnce => exact runConsensusPeerClientOnce_free
  | runConsensusPeerClient =>
    exact runConsensusPeerClient_free.atLabel (fun _ _ locked => locked) fun _ _ locked => locked
  | handleOnePeerDiscoveryRequest => exact handleOnePeerDiscoveryRequest_free printProgress
  | discoverPeersOnce => exact discoverPeersOnce_free printProgress

theorem with_nil : With [] [] := fun _ => ⟨trivial, rfl⟩

@[simp] theorem actions_append (earlier later : List SessionEvent) :
    actions (earlier ++ later) = actions earlier ++ actions later := by
  simp [actions]

theorem locksSucceed_append {earlier later : List SessionEvent} :
    LocksSucceed (earlier ++ later) ↔ LocksSucceed earlier ∧ LocksSucceed later :=
  List.forall_mem_append

/-- Behind any requests that have been answered nothing is locked. -/
theorem answered_released {traces : List (List SessionEvent)} (answered : ∀ trace ∈ traces, Answered trace) :
    With [] traces.flatten := by
  induction traces with
  | nil => exact with_nil
  | cons trace rest ih =>
    obtain ⟨⟨request, returnCode, runs⟩, others⟩ := List.forall_mem_cons.mp answered
    intro succeed
    rw [List.flatten_cons, locksSucceed_append] at succeed
    obtain ⟨first, released⟩ := request.program_free.runs with_nil runs succeed.1
    obtain ⟨later, ends⟩ := ih others succeed.2
    rw [List.flatten_cons, actions_append, heldAfter_append, released]
    exact ⟨first.append released later, ends⟩

/-- Whatever the calls answer, as long as mutexes can be locked and unlocked: behind any requests that have been
answered a request locks and unlocks each mutex in turn, and it comes back with nothing locked, unless it is cut off. -/
theorem requests_alternate {traces : List (List SessionEvent)} (answered : ∀ trace ∈ traces, Answered trace)
    {request : Request} {trace : List SessionEvent} {ending : Ending Empty WorkerCode}
    (runs : Runs request.program trace ending) (succeed : LocksSucceed (traces.flatten ++ trace)) :
    Disciplined [] (actions (traces.flatten ++ trace)) ∧
    (∀ mutex, Alternating false (turns mutex (actions (traces.flatten ++ trace)))) ∧
    heldAfter [] (actions traces.flatten) = [] ∧
    ((∃ returnCode, ending = .done returnCode ∧ heldAfter [] (actions (traces.flatten ++ trace)) = []) ∨
      request.rounds ≤ nodesMet trace ∨ ∃ event ∈ trace, usesNull event = true) := by
  obtain ⟨before, now⟩ := locksSucceed_append.mp succeed
  obtain ⟨earlier, released⟩ := answered_released answered before
  have outcome := request.program_free.runs with_nil runs
  have last : Disciplined [] (actions trace) ∧ ((∃ returnCode, ending = .done returnCode ∧
      heldAfter [] (actions trace) = []) ∨ request.rounds ≤ nodesMet trace ∨
        ∃ event ∈ trace, usesNull event = true) := by
    cases ending with
    | done returnCode => exact ⟨(outcome now).1, .inl ⟨returnCode, rfl, (outcome now).2⟩⟩
    | left code => exact code.elim
    | running => exact ⟨outcome.1 now, .inr outcome.2⟩
    | undefined => exact ⟨outcome.1 now, .inr outcome.2⟩
  have whole := earlier.append released last.1
  rw [actions_append, heldAfter_append, released]
  exact ⟨whole, fun mutex => whole.alternating List.nodup_nil mutex, rfl, last.2⟩

/-- A valid chain is received, and the length of the own one can not be told. -/
def lengthFailsRun : List SessionEvent :=
  [⟨.test .calloc, true⟩, ⟨.code .recvAll, ReturnCode.success⟩, ⟨.code .commandHeaderDeserialize, ReturnCode.success⟩,
    ⟨.test .commandExpected, true⟩, ⟨.unchecked .realloc, true⟩, ⟨.code .recvAll, ReturnCode.success⟩,
    ⟨.code .commandSendBlockchainDeserialize, ReturnCode.success⟩, ⟨.code .blockchainDeserialize, ReturnCode.success⟩,
    ⟨.blockchainVerify, (ReturnCode.success, true)⟩, ⟨.code .linkedListLength, ReturnCode.success⟩,
    ⟨.int (.pthreadMutexLock .sync), (0 : Int32)⟩, ⟨.code .linkedListLength, ReturnCode.failureInvalidInput⟩,
    ⟨.int (.pthreadMutexUnlock .sync), (0 : Int32)⟩]

def consensusRequest : Request := ⟨.handleOneConsensusRequest, false, 3⟩

theorem lengthFailsRun_runs : Runs consensusRequest.program lengthFailsRun (.done (.code .failureInvalidInput)) :=
  .ask _ (.ask _ (.ask _ (.ask _ (.ask _ (.ask _ (.ask _ (.ask _ (.ask _ (.ask _ (.ask _ (.ask _
    (.ask _ .done))))))))))))

/-- A peer registers beside one that has not expired. -/
def registrationRun : List SessionEvent :=
  [⟨.test .calloc, true⟩, ⟨.code .recvAll, ReturnCode.success⟩, ⟨.code .commandHeaderDeserialize, ReturnCode.success⟩,
    ⟨.test .commandExpected, true⟩, ⟨.unchecked .realloc, true⟩, ⟨.code .recvAll, ReturnCode.success⟩,
    ⟨.code .commandRegisterPeerDeserialize, ReturnCode.success⟩, ⟨.unchecked .malloc, true⟩,
    ⟨.int (.pthreadMutexLock .peerInfoList), (0 : Int32)⟩, ⟨.code .linkedListFind, ReturnCode.success⟩,
    ⟨.test .foundNode, false⟩, ⟨.code .linkedListPrepend, ReturnCode.success⟩, ⟨.test .anotherNode, true⟩,
    ⟨.test .peerExpired, false⟩, ⟨.test .anotherNode, false⟩, ⟨.code .peerInfoListSerialize, ReturnCode.success⟩,
    ⟨.int (.pthreadMutexUnlock .peerInfoList), (0 : Int32)⟩,
    ⟨.code .commandSendPeerListSerialize, ReturnCode.success⟩, ⟨.code .sendAll, ReturnCode.success⟩]

def registrationRequest : Request := ⟨.handleOnePeerDiscoveryRequest, false, 3⟩

theorem registrationRun_runs : Runs registrationRequest.program registrationRun (.done (.code .success)) :=
  .ask _ (.ask _ (.ask _ (.ask _ (.ask _ (.ask _ (.ask _ (.ask _ (.ask _ (.ask _ (.ask _ (.ask _ (.ask _ (.ask _
    (.ask _ (.ask _ (.ask _ (.ask _ (.ask _ .done))))))))))))))))))

/-- A request that fails while it holds the mutex, and then one that is answered. -/
theorem requests_alternate_registration :
    Disciplined [] (actions ([lengthFailsRun].flatten ++ registrationRun)) ∧
      (∀ mutex, Alternating false (turns mutex (actions ([lengthFailsRun].flatten ++ registrationRun)))) ∧
      heldAfter [] (actions ([lengthFailsRun].flatten ++ registrationRun)) = [] := by
  have succeed : LocksSucceed ([lengthFailsRun].flatten ++ registrationRun) := by
    simp [LocksSucceed, lengthFailsRun, registrationRun, mutexFails]
  have granted : ∀ event ∈ registrationRun, usesNull event = false := by simp [registrationRun, usesNull]
  obtain ⟨disciplined, alternates, -, ⟨_, -, released⟩ | more | ⟨event, member, null⟩⟩ :=
    requests_alternate (List.forall_mem_singleton.mpr ⟨consensusRequest, _, lengthFailsRun_runs⟩)
      registrationRun_runs succeed
  · exact ⟨disciplined, alternates, released⟩
  · exact absurd more (by decide)
  · rw [granted event member] at null
    cases null

end Session

end LeoCoin
