import LeoCoin.Sessions

/-! # Descriptors of the clients

An attempt of a client opens a socket.  It is closed at the end of the attempt, but not by
those who go to `end:`, which stands behind the call of `close`.
-/

namespace LeoCoin

open Library.Calls

namespace Session

/-- The descriptors that are open after one more call. -/
def openedBy (opened : List Int32) : SessionEvent → List Int32
  | ⟨.int .socket, (clientFd : Int32)⟩ => if clientFd < 0 then opened else clientFd :: opened
  | ⟨.close clientFd, _⟩ => opened.erase clientFd
  | _ => opened

/-- The descriptors that were opened and have not been closed. -/
def openDescriptors (trace : List SessionEvent) : List Int32 := trace.foldl openedBy []

/-- The call is one that an attempt goes to `end:` for, with this answer and its socket open. -/
def leaks : SessionEvent → Bool
  | ⟨.int .connect, (result : Int32)⟩ => result != 0
  | ⟨.int (.pthreadMutexLock _), (error : Int32)⟩ => error != 0
  | ⟨.int (.pthreadMutexUnlock _), (error : Int32)⟩ => error != 0
  | ⟨.code .linkedListDestroy, _⟩ => false
  | ⟨.code _, (returnCode : ReturnCode)⟩ => returnCode != .success
  | ⟨.blockchainVerify, ((returnCode, _) : ReturnCode × Bool)⟩ => returnCode != .success
  | ⟨.test .calloc, (granted : Bool)⟩ => !granted
  | ⟨.test .realloc, (granted : Bool)⟩ => !granted
  | ⟨.test .commandExpected, (expected : Bool)⟩ => !expected
  | _ => false

/-- The call is made by a loop, or it is the first of an attempt. -/
def betweenAttempts : SessionCall → Bool
  | .worker _ => true
  | .int .socket => true
  | .int .pthreadCondInit => true
  | .int .pthreadMutexInit => true
  | _ => false

/-- There are as many descriptors open between two attempts as before the first. -/
def KeepsDescriptors (trace : List SessionEvent) : Prop :=
  ∀ earlier event later, trace = earlier ++ event :: later → betweenAttempts event.call = true →
    openDescriptors earlier = []

/-- Opening a socket fails only where the process has `limit` descriptors, `others` of them not from here. -/
def Limited (limit others : Nat) (trace : List SessionEvent) : Prop :=
  ∀ earlier (clientFd : Int32) later, trace = earlier ++ ⟨.int .socket, clientFd⟩ :: later → clientFd < 0 →
    limit ≤ others + (openDescriptors earlier).length

/-- Where there is room for one socket, every attempt gets its socket. -/
def OpensAgain (trace : List SessionEvent) : Prop :=
  ∀ limit others, others < limit → Limited limit others trace →
    ∀ clientFd : Int32, ⟨.int .socket, clientFd⟩ ∈ trace → ¬ clientFd < 0

theorem KeepsDescriptors.opensAgain {trace : List SessionEvent} (keeps : KeepsDescriptors trace) :
    OpensAgain trace := by
  intro limit others room limited clientFd member failed
  obtain ⟨earlier, later, split⟩ := List.append_of_mem member
  have full := limited earlier clientFd later split failed
  rw [keeps earlier _ later split rfl, List.length_nil] at full
  omega

/-! ## Along an attempt -/

/-- The call is made in the middle of an attempt and is not `close`. -/
def withinAttempt : SessionCall → Bool
  | .close _ => false
  | call => !betweenAttempts call

/-- Nothing has been left for, and no descriptor is open where none should be. -/
structure Sound (trace : List SessionEvent) : Prop where
  keeps : KeepsDescriptors trace
  tight : ∀ event ∈ trace, leaks event = false

structure Holding (opened : List Int32) (trace : List SessionEvent) : Prop extends Sound trace where
  opens : openDescriptors trace = opened

abbrev Clean : List SessionEvent → Prop := Holding []

/-- The attempt has gone to `end:` with its socket open. -/
def Leaked (trace : List SessionEvent) : Prop :=
  (∃ event ∈ trace, leaks event = true) ∧ openDescriptors trace ≠ []

def Left (trace : List SessionEvent) : Prop := Clean trace ∨ Leaked trace

section Attempts

variable {trace : List SessionEvent} {event : SessionEvent} {opened : List Int32}

@[simp] theorem openDescriptors_snoc (trace : List SessionEvent) (event : SessionEvent) :
    openDescriptors (trace ++ [event]) = openedBy (openDescriptors trace) event := by
  simp [openDescriptors]

theorem openedBy_within {call : SessionCall} (within : withinAttempt call = true) (answer : call.Answer) :
    openedBy opened ⟨call, answer⟩ = opened := by
  cases call with
  | int function =>
    cases function with
    | socket => simp [withinAttempt, betweenAttempts] at within
    | _ => rfl
  | close clientFd => simp [withinAttempt] at within
  | _ => rfl

theorem KeepsDescriptors.snoc (keeps : KeepsDescriptors trace)
    (there : betweenAttempts event.call = true → openDescriptors trace = []) : KeepsDescriptors (trace ++ [event]) := by
  intro earlier other later split between
  rcases List.append_eq_append_iff.mp split with ⟨middle, rfl, rest⟩ | ⟨middle, rfl, rest⟩
  · cases middle with
    | nil =>
      obtain ⟨rfl, -⟩ := List.cons.inj rest
      simpa using there between
    | cons first middle => simp at rest
  · cases middle with
    | nil =>
      obtain ⟨rfl, -⟩ := List.cons.inj rest
      simpa using there between
    | cons first middle =>
      obtain ⟨rfl, -⟩ := List.cons.inj rest
      exact keeps earlier _ middle rfl between

theorem betweenAttempts_within {call : SessionCall} (within : withinAttempt call = true) :
    betweenAttempts call = false := by
  unfold withinAttempt at within
  split at within
  · cases within
  · simpa using within

theorem Holding.snoc (holding : Holding opened trace) (event : SessionEvent) (tight : leaks event = false)
    (there : betweenAttempts event.call = true → opened = []) :
    Holding (openedBy opened event) (trace ++ [event]) := by
  refine ⟨⟨holding.keeps.snoc fun between => ?_, ?_⟩, ?_⟩
  · rw [holding.opens, there between]
  · exact List.forall_mem_append.mpr ⟨holding.tight, List.forall_mem_singleton.mpr tight⟩
  · rw [openDescriptors_snoc, holding.opens]

theorem Holding.within (holding : Holding opened trace) (within : withinAttempt event.call = true)
    (tight : leaks event = false) : Holding opened (trace ++ [event]) := by
  have kept := holding.snoc event tight fun between => by simp [betweenAttempts_within within] at between
  rwa [openedBy_within within] at kept

theorem Leaked.within (leaked : Leaked trace) (within : withinAttempt event.call = true) :
    Leaked (trace ++ [event]) := by
  obtain ⟨⟨first, member, leaks⟩, opens⟩ := leaked
  refine ⟨⟨first, List.mem_append_left _ member, leaks⟩, ?_⟩
  rwa [openDescriptors_snoc, openedBy_within within]

theorem Holding.leaked (holding : Holding opened trace) (some : opened ≠ []) (leaks : leaks event = true)
    (within : withinAttempt event.call = true) : Leaked (trace ++ [event]) := by
  refine ⟨⟨event, by simp, leaks⟩, ?_⟩
  rwa [openDescriptors_snoc, openedBy_within within, holding.opens]

/-- A part of an attempt that leaves the descriptor open, whatever it comes to. -/
abbrev StaysOpen {β : Type} (clientFd : Int32) (program : Session β) : Prop :=
  Leads (Holding [clientFd]) (Holding [clientFd]) Leaked Sound program

section Parts

variable {clientFd : Int32} {β : Type}

theorem check_open {call : SessionCall} {verdict : call.Answer → Option WorkerCode}
    (left : ∀ answer, leaks ⟨call, answer⟩ = (verdict answer).isSome) (within : withinAttempt call = true) :
    StaysOpen clientFd (check call verdict) := by
  refine leads_check (fun trace answer holding judged => ?_) fun trace answer code holding judged => ?_
  · exact holding.within within (by rw [left, judged]; rfl)
  · exact holding.leaked (by simp) (by rw [left, judged]; rfl) within

theorem perform_open {call : SessionCall} (tight : ∀ answer, leaks ⟨call, answer⟩ = false)
    (within : withinAttempt call = true) : StaysOpen clientFd (perform call) :=
  leads_perform fun _ answer holding => holding.within within (tight answer)

theorem nonzero_open {function : SessionInt} {otherwise : Int32 → WorkerCode}
    (left : ∀ result : Int32, leaks ⟨.int function, result⟩ = (result != 0))
    (within : withinAttempt (.int function) = true) :
    StaysOpen clientFd (check (SessionCall.int function) fun (result : Int32) =>
      if result ≠ 0 then some (otherwise result) else none) := by
  refine check_open (fun (result : Int32) => ?_) within
  rw [left]
  by_cases kept : result = 0
  · simp [kept]
  · simp [kept]

theorem zero_open {function : SessionInt} {returnCode : ReturnCode}
    (left : ∀ result : Int32, leaks ⟨.int function, result⟩ = (result != 0))
    (within : withinAttempt (.int function) = true) : StaysOpen clientFd (zero function returnCode) :=
  nonzero_open left within

theorem mutexZero_open {function : SessionInt}
    (left : ∀ error : Int32, leaks ⟨.int function, error⟩ = (error != 0))
    (within : withinAttempt (.int function) = true) : StaysOpen clientFd (mutexZero function) :=
  nonzero_open left within

theorem unsuccessful_open {function : SessionCode} {otherwise : ReturnCode → WorkerCode}
    (left : ∀ returnCode : ReturnCode, leaks ⟨.code function, returnCode⟩ = (returnCode != .success)) :
    StaysOpen clientFd (check (SessionCall.code function) fun (returnCode : ReturnCode) =>
      if returnCode ≠ .success then some (otherwise returnCode) else none) := by
  refine check_open (fun (returnCode : ReturnCode) => ?_) rfl
  rw [left]
  by_cases kept : returnCode = .success
  · simp [kept]
  · simp [kept]

theorem successOr_open {function : SessionCode} {otherwise : ReturnCode}
    (left : ∀ returnCode : ReturnCode, leaks ⟨.code function, returnCode⟩ = (returnCode != .success)) :
    StaysOpen clientFd (successOr function otherwise) :=
  unsuccessful_open left

theorem success_open {function : SessionCode}
    (left : ∀ returnCode : ReturnCode, leaks ⟨.code function, returnCode⟩ = (returnCode != .success)) :
    StaysOpen clientFd (success function) :=
  unsuccessful_open left

theorem unlessSo_open {so : SessionTest} {otherwise : ReturnCode}
    (left : ∀ answer : Bool, leaks ⟨.test so, answer⟩ = !answer) : StaysOpen clientFd (unlessSo so otherwise) := by
  refine check_open (fun (answer : Bool) => ?_) rfl
  rw [left]
  cases answer with
  | true => rfl
  | false => rfl

theorem unchecked_open (allocation : Unchecked) : StaysOpen clientFd (unchecked allocation) := by
  intro trace holding (granted : Bool)
  have kept : Holding [clientFd] (trace ++ [⟨.unchecked allocation, granted⟩]) := holding.within rfl rfl
  cases granted with
  | true => exact kept
  | false => exact kept.toSound

theorem verify_open : StaysOpen clientFd verify := by
  intro trace holding ((returnCode, isValid) : ReturnCode × Bool)
  cases returnCode with
  | success => exact holding.within rfl rfl
  | _ => exact holding.leaked (by simp) rfl rfl

theorem successOrUnlock_open {mutex : Mutex} {function : SessionCode}
    (left : ∀ returnCode : ReturnCode, leaks ⟨.code function, returnCode⟩ = (returnCode != .success)) :
    StaysOpen clientFd (successOrUnlock mutex function) := by
  intro trace holding (returnCode : ReturnCode)
  have tells := left returnCode
  cases returnCode with
  | success => exact holding.within rfl tells
  -- the mutex is unlocked on the way to the label
  | _ => exact fun error => (holding.leaked (by simp) tells rfl).within rfl

theorem receiveBlockchain_open : StaysOpen clientFd receiveBlockchain :=
  (unlessSo_open fun _ => rfl).bind fun _ => (successOr_open fun _ => rfl).bind fun _ =>
    (success_open fun _ => rfl).bind fun _ => (unlessSo_open fun _ => rfl).bind fun _ =>
      (unchecked_open .realloc).bind fun _ => (successOr_open fun _ => rfl).bind fun _ =>
        (success_open fun _ => rfl).bind fun _ => (success_open fun _ => rfl).bind fun _ =>
          verify_open.bind fun isValid => (success_open fun _ => rfl).bind fun _ => leads_pure isValid

theorem serializeOurBlockchain_open : StaysOpen clientFd serializeOurBlockchain :=
  (mutexZero_open (fun _ => rfl) rfl).bind fun _ => (successOrUnlock_open fun _ => rfl).bind fun _ =>
    mutexZero_open (fun _ => rfl) rfl

theorem switchToPeer_open : StaysOpen clientFd switchToPeer := by
  have considers : StaysOpen clientFd considerPeerBlockchain :=
    (successOrUnlock_open fun _ => rfl).bind fun _ => perform_open (fun _ => rfl) rfl
  exact (mutexZero_open (fun _ => rfl) rfl).bind fun _ => considers.bind fun switched =>
    (mutexZero_open (fun _ => rfl) rfl).bind fun _ => leads_pure switched

theorem exchangeBlockchains_open : StaysOpen clientFd exchangeBlockchains := by
  have ends (switched : Bool) : StaysOpen clientFd (destroyUnless switched) := by
    cases switched with
    | true => exact leads_pure ()
    | false => exact success_open fun _ => rfl
  refine (zero_open (fun _ => rfl) rfl).bind fun _ => serializeOurBlockchain_open.bind fun _ =>
    (success_open fun _ => rfl).bind fun _ => (successOr_open fun _ => rfl).bind fun _ =>
      receiveBlockchain_open.bind fun isValid => ?_
  cases isValid with
  | true => exact switchToPeer_open.bind ends
  | false => exact (leads_pure false).bind ends

theorem receivePeers_open : StaysOpen clientFd receivePeers :=
  (zero_open (fun _ => rfl) rfl).bind fun _ => (success_open fun _ => rfl).bind fun _ =>
    (success_open fun _ => rfl).bind fun _ => (unlessSo_open fun _ => rfl).bind fun _ =>
      (success_open fun _ => rfl).bind fun _ => (success_open fun _ => rfl).bind fun _ =>
        (unlessSo_open fun _ => rfl).bind fun _ => (unlessSo_open fun _ => rfl).bind fun _ =>
          (success_open fun _ => rfl).bind fun _ => (success_open fun _ => rfl).bind fun _ => success_open fun _ => rfl

theorem replacePeers_open : StaysOpen clientFd replacePeers :=
  (zero_open (fun _ => rfl) rfl).bind fun _ => (perform_open (fun _ => rfl) rfl).bind fun _ =>
    zero_open (fun _ => rfl) rfl

theorem printPeers_open (rounds : Nat) : StaysOpen clientFd (printPeers rounds) := by
  induction rounds with
  | zero => exact leads_running fun _ holding => holding.toSound
  | succ rounds ih =>
    have another : StaysOpen clientFd (test .anotherNode) := perform_open (fun _ => rfl) rfl
    have prints : StaysOpen clientFd (test .inetNtop) := perform_open (fun _ => rfl) rfl
    refine another.bind fun further => ?_
    cases further with
    | true => exact prints.bind fun _ => ih
    | false => exact leads_pure ()

theorem printPeerList_open (printProgress : Bool) (rounds : Nat) :
    StaysOpen clientFd (printPeerList printProgress rounds) := by
  cases printProgress with
  | true =>
    exact (zero_open (fun _ => rfl) rfl).bind fun _ => (printPeers_open rounds).bind fun _ =>
      zero_open (fun _ => rfl) rfl
  | false => exact leads_pure ()

theorem close_clean : Leads (Holding [clientFd]) Clean Leaked Sound (close clientFd) := by
  refine leads_perform fun trace _ holding => ?_
  have erased : openedBy [clientFd] ⟨.close clientFd, ()⟩ = [] := by simp [openedBy]
  have closed := holding.snoc ⟨.close clientFd, ()⟩ rfl (by simp [betweenAttempts])
  rwa [erased] at closed

theorem openSocket_clean {attempt : Int32 → Session Unit}
    (attempts : ∀ clientFd, Leads (Holding [clientFd]) Clean Leaked Sound (attempt clientFd)) :
    Leads Clean Clean Left Sound (openSocket >>= attempt) := by
  intro trace clean (clientFd : Int32)
  have opened := clean.snoc ⟨.int .socket, clientFd⟩ rfl fun _ => rfl
  change Program.Ensures _ (Program.bind (if clientFd < 0 then _ else _) attempt) _
  by_cases failed : clientFd < 0
  · rw [if_pos failed]
    simp only [openedBy, if_pos failed] at opened
    exact .inl opened
  · rw [if_neg failed]
    simp only [openedBy, if_neg failed] at opened
    have attempted : Leads (Holding [clientFd]) Clean Left Sound (attempt clientFd) :=
      (attempts clientFd).mono (fun _ held => held) (fun _ held => held) (fun _ => .inr) fun _ held => held
    exact attempted _ opened

/-- An attempt has closed its socket where it comes to its end, and only there. -/
theorem toEnd_left {body : Session Unit} (attempts : Leads Clean Clean Left Sound body) :
    Leads Clean Left Left Sound (toEnd body) :=
  attempts.atLabel (fun _ _ clean => .inl clean) fun _ _ left => left

theorem runConsensusPeerClientOnce_left : Leads Clean Left Left Sound runConsensusPeerClientOnce :=
  toEnd_left (openSocket_clean fun _ => exchangeBlockchains_open.bind fun _ => close_clean)

theorem discoverPeersOnce_left (printProgress : Bool) (rounds : Nat) :
    Leads Clean Left Left Sound (discoverPeersOnce printProgress rounds) :=
  toEnd_left (openSocket_clean fun _ => receivePeers_open.bind fun _ => replacePeers_open.bind fun _ =>
    (printPeerList_open printProgress rounds).bind fun _ => close_clean)

end Parts

end Attempts

/-! ## Along the loops -/

/-- A descriptor has been open where none should be. -/
def Spoiled (trace : List SessionEvent) : Prop :=
  (∃ event ∈ trace, leaks event = true) ∧ ¬ KeepsDescriptors trace

/-- Between two attempts, before a call of the loop and behind it. -/
def Ended (trace : List SessionEvent) : Prop := Left trace ∨ Spoiled trace

def Settled (trace : List SessionEvent) : Prop := Clean trace ∨ Spoiled trace

/-- Where a run is cut off. -/
def Cut (trace : List SessionEvent) : Prop := Sound trace ∨ Spoiled trace

section Loops

variable {trace : List SessionEvent} {event : SessionEvent} {β : Type}

theorem KeepsDescriptors.of_snoc (keeps : KeepsDescriptors (trace ++ [event])) : KeepsDescriptors trace := by
  rintro earlier other later rfl between
  exact keeps earlier other (later ++ [event]) (by simp) between

theorem Spoiled.snoc (spoiled : Spoiled trace) : Spoiled (trace ++ [event]) := by
  obtain ⟨⟨first, member, leaks⟩, broken⟩ := spoiled
  exact ⟨⟨first, List.mem_append_left _ member, leaks⟩, fun keeps => broken keeps.of_snoc⟩

/-- What was leaked is open at the next call of the loop. -/
theorem Leaked.spoiled (leaked : Leaked trace) (between : betweenAttempts event.call = true) :
    Spoiled (trace ++ [event]) := by
  obtain ⟨⟨first, member, leaks⟩, opens⟩ := leaked
  exact ⟨⟨first, List.mem_append_left _ member, leaks⟩, fun keeps => opens (keeps trace event [] rfl between)⟩

theorem Settled.ended (settled : Settled trace) : Ended trace := settled.imp .inl id

theorem Settled.cut (settled : Settled trace) : Cut trace := settled.imp (fun clean => clean.toSound) id

theorem Ended.settled (ended : Ended trace) (call : WorkerCall) (answer : call.Answer) :
    Settled (trace ++ [⟨.worker call, answer⟩]) := by
  rcases ended with (clean | leaked) | spoiled
  · exact .inl (clean.snoc ⟨.worker call, answer⟩ rfl fun _ => rfl)
  · exact .inr (leaked.spoiled rfl)
  · exact .inr spoiled.snoc

abbrev Settles {β : Type} (program : Session β) : Prop := Leads Ended Settled Settled Cut program

theorem attempt_ended {program : Returning WorkerCode} (attempts : Leads Clean Left Left Sound program) :
    Leads Settled Ended Ended Cut
      (do let returnCode ← program; return returnCodeOf returnCode : Returning ReturnCode) := by
  have both : Leads Settled Ended Ended Cut program :=
    attempts.or (leads_persistent fun _ _ spoiled => spoiled.snoc)
  exact both.bind fun _ => leads_pure _

variable {printProgress : Bool} {nodes : Nat}

theorem exchange_ended :
    Leads Settled Ended Settled Cut ((Worker.code .runConsensusPeerClientOnce).expand (attempt printProgress nodes)) :=
  leads_expand_perform (attempt_ended runConsensusPeerClientOnce_left).returning

theorem discover_ended :
    Leads Settled Ended Settled Cut ((Worker.code .discoverPeersOnce).expand (attempt printProgress nodes)) :=
  leads_expand_perform (attempt_ended (discoverPeersOnce_left printProgress nodes)).returning

theorem own_settles {call : WorkerCall} (own : attempt printProgress nodes call = perform (SessionCall.worker call)) :
    Leads Ended Settled Settled Cut (attempt printProgress nodes call) := by
  rw [own]
  exact leads_perform fun trace answer ended => ended.settled call answer

theorem perform_settles {call : WorkerCall}
    (own : attempt printProgress nodes call = perform (SessionCall.worker call)) :
    Settles ((perform call : Worker call.Answer).expand (attempt printProgress nodes)) :=
  leads_expand_perform (own_settles own)

theorem check_settles {call : WorkerCall} {verdict : call.Answer → Option WorkerCode}
    (own : attempt printProgress nodes call = perform (SessionCall.worker call)) :
    Settles ((check call verdict).expand (attempt printProgress nodes)) :=
  leads_expand_check (own_settles own) (fun _ settled => settled) fun _ settled => settled

/-- A part of a loop that begins and ends between two attempts. -/
abbrev StaysSettled {β : Type} (program : Session β) : Prop := Leads Settled Settled Settled Cut program

theorem staysSettled_of_settles {program : Session β} (settles : Settles program) : StaysSettled program :=
  settles.mono (fun _ settled => settled.ended) (fun _ settled => settled) (fun _ settled => settled) fun _ cut => cut

theorem perform_settled {call : WorkerCall}
    (own : attempt printProgress nodes call = perform (SessionCall.worker call)) :
    StaysSettled ((perform call : Worker call.Answer).expand (attempt printProgress nodes)) :=
  staysSettled_of_settles (perform_settles own)

theorem announceExit_settles : Settles (Worker.announceExit.expand (attempt printProgress nodes)) :=
  leads_expand_bind (perform_settles rfl) fun _ => leads_expand_bind (perform_settled rfl) fun _ =>
    leads_expand_bind (perform_settled rfl) fun _ => leads_expand_bind (perform_settled rfl) fun _ => leads_pure ()

theorem returnCodePtr_settled (returnCode : WorkerCode) :
    StaysSettled ((Worker.returnCodePtr returnCode).expand (attempt printProgress nodes)) := by
  refine leads_expand_bind (perform_settled rfl) fun granted => ?_
  cases granted with
  | true => exact leads_pure returnCode
  | false => exact leads_undefined fun _ settled => settled.cut

theorem announcing_settled {body : Worker WorkerCode}
    (stays : StaysSettled (body.expand (attempt printProgress nodes))) :
    StaysSettled ((Worker.announcing body).expand (attempt printProgress nodes)) := by
  refine leads_expand_atLabel stays (fun returnCode => ?_) fun returnCode => ?_
  · exact leads_expand_bind (staysSettled_of_settles announceExit_settles) fun _ => returnCodePtr_settled returnCode
  · exact leads_expand_bind (staysSettled_of_settles announceExit_settles) fun _ => returnCodePtr_settled returnCode

/-- Behind every attempt of `discover_peers` the next call is its own. -/
theorem discoverRounds_settled (rounds : Nat) (returnCode : ReturnCode) :
    StaysSettled ((Worker.discoverRounds rounds returnCode).expand (attempt printProgress nodes)) := by
  induction rounds generalizing returnCode with
  | zero => exact leads_running fun _ settled => settled.cut
  | succ rounds ih =>
    refine leads_expand_bind (perform_settled rfl) fun stops => ?_
    cases stops with
    | true => exact leads_pure returnCode
    | false =>
      exact leads_expand_bind discover_ended fun returnCode => leads_expand_bind (perform_settles rfl) fun _ =>
        ih returnCode

theorem discoverPeers_settled (printProgress : Bool) (nodes rounds : Nat) :
    StaysSettled (discoverPeers printProgress nodes rounds) :=
  leads_expand_bind (discoverRounds_settled rounds .success) fun returnCode =>
    leads_expand_bind (staysSettled_of_settles announceExit_settles) fun _ => returnCodePtr_settled (.code returnCode)

theorem exchange_settles (copied : Nat) : Settles ((Worker.exchange copied).expand (attempt printProgress nodes)) := by
  induction copied with
  | zero => exact leads_expand_bind (perform_settles rfl) fun _ => leads_pure ()
  | succ copied ih =>
    refine leads_expand_bind (perform_settles rfl) fun stops => ?_
    cases stops with
    | true => exact leads_pure ()
    | false => exact leads_expand_bind exchange_ended fun _ => ih

theorem giveUpCopy_settled {γ : Type} (returnCode : WorkerCode) :
    StaysSettled ((Worker.giveUpCopy returnCode : Worker γ).expand (attempt printProgress nodes)) :=
  leads_expand_bind (perform_settled rfl) fun _ => leads_expand_bind (perform_settled rfl) fun _ _ settled => settled

theorem copyPeers_settled (rounds copied : Nat) :
    StaysSettled ((Worker.copyPeers rounds copied).expand (attempt printProgress nodes)) := by
  induction rounds generalizing copied with
  | zero => exact leads_running fun _ settled => settled.cut
  | succ rounds ih =>
    refine leads_expand_bind (perform_settled rfl) fun another => ?_
    cases another with
    | false => exact leads_pure copied
    | true =>
      refine leads_expand_bind (perform_settled rfl) fun granted => ?_
      cases granted with
      | false => exact giveUpCopy_settled _
      | true =>
        refine leads_expand_bind (perform_settled rfl) fun (returnCode : ReturnCode) => ?_
        cases returnCode with
        | success => exact ih (copied + 1)
        | _ => exact leads_expand_bind (giveUpCopy_settled _) fun _ => ih (copied + 1)

theorem mutexOrDestroy_settled {function : IntCall} :
    StaysSettled ((Worker.mutexOrDestroy function).expand (attempt printProgress nodes)) := by
  refine leads_expand_bind (perform_settled rfl) fun (error : Int32) => ?_
  by_cases failed : error ≠ 0
  · rw [if_pos failed]
    exact leads_expand_bind (perform_settled rfl) fun _ _ settled => settled
  · rw [if_neg failed]
    exact leads_pure ()

theorem runConsensusPeerClient_settled (rounds : Nat) : StaysSettled (runConsensusPeerClient rounds) := by
  have creates : StaysSettled ((Worker.success .linkedListCreate).expand (attempt false rounds)) :=
    staysSettled_of_settles (check_settles rfl)
  exact announcing_settled (leads_expand_bind creates fun _ => leads_expand_bind mutexOrDestroy_settled fun _ =>
    leads_expand_bind (copyPeers_settled rounds 0) fun copied => leads_expand_bind mutexOrDestroy_settled fun _ =>
      leads_expand_bind (staysSettled_of_settles (exchange_settles copied)) fun _ =>
        leads_expand_bind (perform_settled rfl) fun returnCode => leads_pure (WorkerCode.code returnCode))

theorem zero_settled {function : SessionInt} {returnCode : ReturnCode}
    (tight : ∀ result : Int32, leaks ⟨.int function, result⟩ = false)
    (unopened : ∀ result : Int32, openedBy [] ⟨.int function, result⟩ = []) :
    StaysSettled (zero function returnCode) := by
  have kept (trace : List SessionEvent) (result : Int32) (settled : Settled trace) :
      Settled (trace ++ [⟨.int function, result⟩]) := by
    refine settled.imp (fun clean => ?_) fun spoiled => spoiled.snoc
    have held := clean.snoc _ (tight result) fun _ => rfl
    rwa [unopened] at held
  exact leads_check (fun trace (result : Int32) settled _ => kept trace result settled)
    fun trace (result : Int32) _ settled _ => kept trace result settled

theorem broadcastBlockchain_settled (argsGiven : Bool) (rounds : Nat) :
    Leads Settled Settled Settled Cut (broadcastBlockchain argsGiven rounds) := by
  have body : StaysSettled (do
      zero .pthreadCondInit .failurePthreadFunction
      zero .pthreadMutexInit .failurePthreadFunction
      let _ ← runConsensusPeerClient rounds : Session Unit) :=
    (zero_settled (fun _ => rfl) fun _ => rfl).bind fun _ => (zero_settled (fun _ => rfl) fun _ => rfl).bind fun _ =>
      (runConsensusPeerClient_settled rounds).bind fun _ => leads_pure ()
  have whole : StaysSettled (do
      if !argsGiven then
        .leave (.code .failureInvalidInput)
      zero .pthreadCondInit .failurePthreadFunction
      zero .pthreadMutexInit .failurePthreadFunction
      let _ ← runConsensusPeerClient rounds : Session Unit) := by
    cases argsGiven with
    | true => exact (leads_pure ()).bind fun _ => body
    | false => exact fun _ settled => settled
  exact whole.atLabel (fun _ _ settled => settled) fun _ _ settled => settled

theorem broadcasts_settled (rounds : Nat) (given : List Bool) :
    Leads Settled Settled Settled Cut (broadcasts rounds given) := by
  induction given with
  | nil => exact leads_pure ()
  | cons argsGiven rest ih => exact (broadcastBlockchain_settled argsGiven rounds).bind fun _ => ih

theorem clean_nil : Clean [] :=
  ⟨⟨fun earlier _ _ split => by simp at split, by simp⟩, rfl⟩

/-- However a run of a loop has ended, or if it goes on. -/
theorem cut_of_leads {ε : Type} {loop : Program SessionCall SessionCall.Answer ε β}
    (leads : Leads Settled Settled Settled Cut loop) {ending : Ending ε β} (runs : Runs loop trace ending) :
    Cut trace :=
  (leads.mono (fun _ settled => settled) (fun _ => Settled.cut) (fun _ => Settled.cut) fun _ cut => cut).always
    (.inl clean_nil) runs

theorem Cut.keeps_iff (cut : Cut trace) :
    (KeepsDescriptors trace ∧ OpensAgain trace) ↔ ∀ event ∈ trace, leaks event = false := by
  rcases cut with sound | ⟨⟨event, member, leaks⟩, broken⟩
  · exact iff_of_true ⟨sound.keeps, sound.keeps.opensAgain⟩ sound.tight
  · refine iff_of_false (fun keeps => broken keeps.1) fun tight => ?_
    rw [tight event member] at leaks
    cases leaks

end Loops

theorem Left.closed_iff {trace : List SessionEvent} (left : Left trace) :
    openDescriptors trace = [] ↔ ∀ event ∈ trace, leaks event = false := by
  rcases left with clean | ⟨⟨event, member, leaks⟩, opens⟩
  · exact iff_of_true clean.opens clean.tight
  · refine iff_of_false opens fun tight => ?_
    rw [tight event member] at leaks
    cases leaks

/-- An attempt that returns has closed its socket, and a loop over attempts keeps the number of descriptors between them
and always gets its next socket, if and only if no attempt went to `end:` with its socket open. -/
theorem attempts_close_sockets_iff (printProgress : Bool) (nodes rounds : Nat) (given : List Bool)
    {trace : List SessionEvent} :
    (∀ returnCode, Runs (discoverPeersOnce printProgress nodes) trace (.done returnCode) →
      (openDescriptors trace = [] ↔ ∀ event ∈ trace, leaks event = false)) ∧
    (∀ returnCode, Runs runConsensusPeerClientOnce trace (.done returnCode) →
      (openDescriptors trace = [] ↔ ∀ event ∈ trace, leaks event = false)) ∧
    (∀ ending, Runs (discoverPeers printProgress nodes rounds) trace ending →
      ((KeepsDescriptors trace ∧ OpensAgain trace) ↔ ∀ event ∈ trace, leaks event = false)) ∧
    (∀ ending, Runs (broadcasts rounds given) trace ending →
      ((KeepsDescriptors trace ∧ OpensAgain trace) ↔ ∀ event ∈ trace, leaks event = false)) := by
  refine ⟨fun returnCode runs => ?_, fun returnCode runs => ?_, fun ending runs => ?_, fun ending runs => ?_⟩
  · exact Left.closed_iff ((discoverPeersOnce_left printProgress nodes).runs clean_nil runs)
  · exact Left.closed_iff (runConsensusPeerClientOnce_left.runs clean_nil runs)
  · exact (cut_of_leads (discoverPeers_settled printProgress nodes rounds) runs).keeps_iff
  · exact (cut_of_leads (broadcasts_settled rounds given) runs).keeps_iff

/-- The server can not be reached. -/
def refusedRun : List SessionEvent :=
  [⟨.int .socket, (3 : Int32)⟩, ⟨.int .connect, (-1 : Int32)⟩]

theorem refusedRun_runs (printProgress : Bool) (nodes : Nat) :
    Runs (discoverPeersOnce printProgress nodes) refusedRun (.done (.code .failureNetworkFunction)) :=
  .ask _ (.ask _ .done)

/-- The server answers with one peer, which is printed. -/
def answeredRun : List SessionEvent :=
  [⟨.int .socket, (3 : Int32)⟩, ⟨.int .connect, (0 : Int32)⟩,
    ⟨.code .commandRegisterPeerSerialize, ReturnCode.success⟩, ⟨.code .sendAll, ReturnCode.success⟩,
    ⟨.test .calloc, true⟩, ⟨.code .recvAll, ReturnCode.success⟩, ⟨.code .commandHeaderDeserialize, ReturnCode.success⟩,
    ⟨.test .commandExpected, true⟩, ⟨.test .realloc, true⟩, ⟨.code .recvAll, ReturnCode.success⟩,
    ⟨.code .commandSendPeerListDeserialize, ReturnCode.success⟩, ⟨.code .peerInfoListDeserialize, ReturnCode.success⟩,
    ⟨.int (.pthreadMutexLock .peerInfoList), (0 : Int32)⟩, ⟨.code .linkedListDestroy, ReturnCode.success⟩,
    ⟨.int (.pthreadMutexUnlock .peerInfoList), (0 : Int32)⟩, ⟨.int (.pthreadMutexLock .peerInfoList), (0 : Int32)⟩,
    ⟨.test .anotherNode, true⟩, ⟨.test .inetNtop, true⟩, ⟨.test .anotherNode, false⟩,
    ⟨.int (.pthreadMutexUnlock .peerInfoList), (0 : Int32)⟩, ⟨.close 3, ()⟩]

theorem answeredRun_runs : Runs (discoverPeersOnce true 2) answeredRun (.done (.code .success)) :=
  .ask _ (.ask _ (.ask _ (.ask _ (.ask _ (.ask _ (.ask _ (.ask _ (.ask _ (.ask _ (.ask _ (.ask _ (.ask _ (.ask _
    (.ask _ (.ask _ (.ask _ (.ask _ (.ask _ (.ask _ (.ask _ .done))))))))))))))))))))

theorem attempts_close_sockets_iff_answered :
    (openDescriptors answeredRun = [] ↔ ∀ event ∈ answeredRun, leaks event = false) ∧
      (openDescriptors refusedRun = [] ↔ ∀ event ∈ refusedRun, leaks event = false) :=
  ⟨(attempts_close_sockets_iff true 2 0 []).1 _ answeredRun_runs,
    (attempts_close_sockets_iff false 0 0 []).1 _ (refusedRun_runs false 0)⟩

/-- It comes back with its socket open. -/
theorem discover_peers_once_leaves_socket_open :
    Runs (discoverPeersOnce false 0) refusedRun (.done (.code .failureNetworkFunction)) ∧
      openDescriptors refusedRun = [3] :=
  ⟨refusedRun_runs false 0, by decide⟩

end Session

end LeoCoin
