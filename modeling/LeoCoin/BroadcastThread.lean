import LeoCoin.Workers

/-! # The broadcast thread

`mine_blocks` joins its broadcast thread before it creates the next one, and once more
behind its loop.  Nothing has been put into the handle before the first of these joins.
-/

namespace LeoCoin

open Library.Calls

namespace Worker

/-! ## The handle -/

/-- `broadcast_thread`: not set, or of a thread that has still to be joined or has been. -/
inductive Handle where
  | unset : Handle
  | live : Handle
  | joined : Handle
deriving DecidableEq

/-- What a call does to the handle; where `pthread_create` fails nothing is said of it. -/
def Handle.observe (handle : Handle) : WorkerEvent → Handle
  | ⟨.int .pthreadCreate, (result : Int32)⟩ => if result = 0 then .live else .unset
  | ⟨.int .pthreadJoin, (result : Int32)⟩ => if result = 0 then .joined else handle
  | _ => handle

def handleAfter (trace : List WorkerEvent) : Handle := trace.foldl Handle.observe .unset

/-- Every join is of a thread that was created before and has not been joined yet. -/
def JoinsCreated (trace : List WorkerEvent) : Prop :=
  ∀ earlier later (result : Int32),
    trace = earlier ++ ⟨.int .pthreadJoin, result⟩ :: later → handleAfter earlier = .live

/-- Every thread that was created has been joined, before the handle was used for another. -/
def AllJoined (trace : List WorkerEvent) : Prop :=
  ∀ earlier later, trace = earlier ++ ⟨.int .pthreadCreate, (0 : Int32)⟩ :: later →
    ∃ middle rest, later = middle ++ ⟨.int .pthreadJoin, (0 : Int32)⟩ :: rest ∧
      ∀ event ∈ middle, event.call ≠ .int .pthreadCreate

/-- With this answer `mine_blocks` comes to a join: the loop is left, or a block has been added. -/
def reachesJoin : WorkerEvent → Bool
  | ⟨.test .shouldStop, (stops : Bool)⟩ => stops
  | ⟨.code .blockchainAddBlock, (returnCode : ReturnCode)⟩ => returnCode == .success
  | _ => false

theorem handleAfter_ne_live {trace : List WorkerEvent} (uncreated : ∀ event ∈ trace, event.call ≠ .int .pthreadCreate) :
    handleAfter trace ≠ .live := by
  have kept (handle : Handle) (dead : handle ≠ .live) : trace.foldl Handle.observe handle ≠ .live := by
    induction trace generalizing handle with
    | nil => exact dead
    | cons event rest ih =>
      obtain ⟨other, others⟩ := List.forall_mem_cons.mp uncreated
      -- no event but a creation makes the handle live
      refine ih others (handle.observe event) ?_
      unfold Handle.observe
      split
      · exact absurd rfl other
      · split
        · simp
        · exact dead
      · exact dead
  exact kept .unset (by simp)

/-! ## Along the miner -/

/-- No join has been come to, and the handle has not been used. -/
def Untouched (trace : List WorkerEvent) : Prop :=
  ∀ event ∈ trace, reachesJoin event = false ∧ event.call ≠ .int .pthreadJoin ∧ event.call ≠ .int .pthreadCreate

/-- A join has been come to, and nothing has been created. -/
def Reached (trace : List WorkerEvent) : Prop :=
  (∃ event ∈ trace, reachesJoin event = true) ∧ ∀ event ∈ trace, event.call ≠ .int .pthreadCreate

/-- The first join was one before anything had been created. -/
def JoinedUnset (trace : List WorkerEvent) : Prop :=
  ∃ earlier later, ∃ result : Int32, trace = earlier ++ ⟨.int .pthreadJoin, result⟩ :: later ∧ Reached earlier

def Settled (trace : List WorkerEvent) : Prop := Untouched trace ∨ JoinedUnset trace

def Pending (trace : List WorkerEvent) : Prop := Reached trace ∨ JoinedUnset trace

section Miner

variable {trace : List WorkerEvent} {event : WorkerEvent}

theorem Untouched.snoc (untouched : Untouched trace) (stays : reachesJoin event = false)
    (unjoined : event.call ≠ .int .pthreadJoin) (uncreated : event.call ≠ .int .pthreadCreate) :
    Untouched (trace ++ [event]) :=
  List.forall_mem_append.mpr ⟨untouched, List.forall_mem_singleton.mpr ⟨stays, unjoined, uncreated⟩⟩

theorem Untouched.reached (untouched : Untouched trace) (reaches : reachesJoin event = true)
    (uncreated : event.call ≠ .int .pthreadCreate) : Reached (trace ++ [event]) :=
  ⟨⟨event, by simp, reaches⟩, List.forall_mem_append.mpr
    ⟨fun event member => (untouched event member).2.2, List.forall_mem_singleton.mpr uncreated⟩⟩

theorem Reached.snoc (reached : Reached trace) (uncreated : event.call ≠ .int .pthreadCreate) :
    Reached (trace ++ [event]) := by
  obtain ⟨⟨first, member, reaches⟩, others⟩ := reached
  exact ⟨⟨first, List.mem_append_left _ member, reaches⟩,
    List.forall_mem_append.mpr ⟨others, List.forall_mem_singleton.mpr uncreated⟩⟩

theorem JoinedUnset.append (joined : JoinedUnset trace) (more : List WorkerEvent) : JoinedUnset (trace ++ more) := by
  obtain ⟨earlier, later, result, rfl, reached⟩ := joined
  exact ⟨earlier, later ++ more, result, by simp, reached⟩

theorem Settled.snoc (settled : Settled trace) (stays : reachesJoin event = false)
    (unjoined : event.call ≠ .int .pthreadJoin) (uncreated : event.call ≠ .int .pthreadCreate) :
    Settled (trace ++ [event]) :=
  settled.imp (fun untouched => untouched.snoc stays unjoined uncreated) fun joined => joined.append _

theorem Settled.pending (settled : Settled trace) (reaches : reachesJoin event = true)
    (uncreated : event.call ≠ .int .pthreadCreate) : Pending (trace ++ [event]) :=
  settled.imp (fun untouched => untouched.reached reaches uncreated) fun joined => joined.append _

theorem Pending.snoc (pending : Pending trace) (uncreated : event.call ≠ .int .pthreadCreate) :
    Pending (trace ++ [event]) :=
  pending.imp (fun reached => reached.snoc uncreated) fun joined => joined.append _

/-- And that is a join of the handle that has not been set. -/
theorem Pending.joined (pending : Pending trace) (result : Int32) :
    JoinedUnset (trace ++ [⟨.int .pthreadJoin, result⟩]) := by
  rcases pending with reached | joined
  · exact ⟨trace, [], result, rfl, reached⟩
  · exact joined.append _

abbrev StaysSettled {β : Type} (program : Worker β) : Prop := Leads Settled Settled Settled Settled program

theorem check_settled {call : WorkerCall} {verdict : call.Answer → Option WorkerCode}
    (stays : ∀ answer, reachesJoin ⟨call, answer⟩ = false) (unjoined : call ≠ .int .pthreadJoin)
    (uncreated : call ≠ .int .pthreadCreate) : StaysSettled (check call verdict) :=
  leads_check (fun _ answer settled _ => settled.snoc (stays answer) unjoined uncreated)
    fun _ answer _ settled _ => settled.snoc (stays answer) unjoined uncreated

theorem perform_settled {call : WorkerCall} (stays : ∀ answer, reachesJoin ⟨call, answer⟩ = false)
    (unjoined : call ≠ .int .pthreadJoin) (uncreated : call ≠ .int .pthreadCreate) : StaysSettled (perform call) :=
  leads_perform fun _ answer settled => settled.snoc (stays answer) unjoined uncreated

theorem zero_settled {function : IntCall} {returnCode : ReturnCode} (unjoined : function ≠ .pthreadJoin)
    (uncreated : function ≠ .pthreadCreate) : StaysSettled (zero function returnCode) :=
  check_settled (fun _ => rfl) (by simpa using unjoined) (by simpa using uncreated)

theorem success_settled {function : CodeCall} (other : function ≠ .blockchainAddBlock) :
    StaysSettled (success function) := by
  refine check_settled (fun _ => ?_) (by simp) (by simp)
  cases function with
  | blockchainAddBlock => exact absurd rfl other
  | _ => rfl

theorem switchChain_settled : StaysSettled switchChain := by
  have signals : StaysSettled (effect .signalSyncVersionCurrentlyMined) :=
    perform_settled (fun _ => rfl) (by simp) (by simp)
  exact (zero_settled (by simp) (by simp)).bind fun _ => (zero_settled (by simp) (by simp)).bind fun _ =>
    (success_settled (by simp)).bind fun _ => (zero_settled (by simp) (by simp)).bind fun _ =>
      signals.bind fun _ => zero_settled (by simp) (by simp)

theorem prepareBlock_settled : StaysSettled prepareBlock := by
  have verifies : StaysSettled verify := check_settled (fun _ => rfl) (by simp) (by simp)
  exact verifies.bind fun _ => (success_settled (by simp)).bind fun _ => (success_settled (by simp)).bind fun _ =>
    (success_settled (by simp)).bind fun _ => (success_settled (by simp)).bind fun _ =>
      (success_settled (by simp)).bind fun _ => success_settled (by simp)

theorem addBlock_settled (printProgress outfile : Bool) : StaysSettled (addBlock printProgress outfile) := by
  have adds : Leads Settled Pending Settled Settled (success .blockchainAddBlock) := by
    refine leads_check (fun trace (returnCode : ReturnCode) settled judged => ?_)
      fun trace (returnCode : ReturnCode) _ settled judged => ?_
    · have added : returnCode = .success := by simpa using judged
      exact settled.pending (by simp [reachesJoin, added]) (by simp)
    · have failed : returnCode ≠ .success := by
        intro added
        simp [added] at judged
      exact settled.snoc (by simp [reachesJoin, failed]) (by simp) (by simp)
  have joins : Leads Pending Settled Settled Settled
      (do let _ ← int .pthreadJoin; let _ ← int .pthreadCreate : Worker Unit) := by
    have join : Leads Pending JoinedUnset Settled Settled (int .pthreadJoin) :=
      leads_perform fun _ result pending => pending.joined result
    -- the first join has already been wrong, so nothing is asked of the creation
    have create : Leads JoinedUnset Settled Settled Settled (int .pthreadCreate) :=
      leads_perform fun _ _ joined => .inr (joined.append _)
    exact join.bind fun _ => create.bind fun _ => leads_pure ()
  have writes : Leads Pending Settled Settled Settled (do
      if outfile then
        let _ ← code .blockchainWriteToFile
      let _ ← int .pthreadJoin
      let _ ← int .pthreadCreate : Worker Unit) := by
    have write : Leads Pending Pending Settled Settled (code .blockchainWriteToFile) :=
      leads_perform fun _ _ pending => pending.snoc (by simp)
    cases outfile with
    | true => exact write.bind fun _ => joins
    | false => exact joins
  refine adds.bind fun _ => ?_
  have print : Leads Pending Pending Settled Settled (code .blockchainPrint) :=
    leads_perform fun _ _ pending => pending.snoc (by simp)
  cases printProgress with
  | true => exact print.bind fun _ => writes
  | false => exact writes

theorem mineRound_settled (printProgress outfile : Bool) : StaysSettled (mineRound printProgress outfile) := by
  have mines : StaysSettled (do
      prepareBlock
      let returnCode ← code .synchronizedBlockchainMineBlock
      if returnCode ≠ .success then
        mineFailed returnCode
      else
        addBlock printProgress outfile
        return returnCode : Worker ReturnCode) := by
    have mined : StaysSettled (code .synchronizedBlockchainMineBlock) :=
      perform_settled (fun _ => rfl) (by simp) (by simp)
    refine prepareBlock_settled.bind fun _ => mined.bind fun (returnCode : ReturnCode) => ?_
    cases returnCode with
    | success => exact (addBlock_settled printProgress outfile).bind fun _ => leads_pure _
    | _ => exact fun _ settled => settled
  have differs : StaysSettled (test .versionDiffers) := perform_settled (fun _ => rfl) (by simp) (by simp)
  refine differs.bind fun differs => ?_
  cases differs with
  | true => exact switchChain_settled.bind fun _ => mines
  | false => exact mines

/-- The loop is left with a join to come. -/
theorem mineRounds_settled (printProgress outfile : Bool) (rounds : Nat) (returnCode : ReturnCode) :
    Leads Settled Pending Settled Settled (mineRounds printProgress outfile rounds returnCode) := by
  induction rounds generalizing returnCode with
  | zero => exact leads_running fun _ settled => settled
  | succ rounds ih =>
    intro trace settled (stops : Bool)
    cases stops with
    | true => exact settled.pending rfl (by simp)
    | false =>
      -- the loop goes on, and this answer leads to no join
      have further : Settled (trace ++ [⟨.test .shouldStop, false⟩]) := settled.snoc rfl (by simp) (by simp)
      exact (mineRound_settled printProgress outfile).bind ih _ further

theorem mineUntilStopped_settled (argsGiven printProgress outfile : Bool) (rounds : Nat) :
    Leads Settled JoinedUnset Settled Settled (mineUntilStopped argsGiven printProgress outfile rounds) := by
  have locks : StaysSettled (zero (.pthreadMutexLock .sync) .failurePthreadFunction) :=
    zero_settled (by simp) (by simp)
  have unlocks : StaysSettled (zero (.pthreadMutexUnlock .sync) .failurePthreadFunction) :=
    zero_settled (by simp) (by simp)
  have join : Leads Pending JoinedUnset Settled Settled (int .pthreadJoin) :=
    leads_perform fun _ result pending => pending.joined result
  cases argsGiven with
  | true =>
    exact (leads_pure ()).bind fun _ => locks.bind fun _ => unlocks.bind fun _ =>
      (mineRounds_settled printProgress outfile rounds .success).bind fun returnCode => join.bind fun _ =>
        leads_pure returnCode
  | false => exact fun _ settled => settled

theorem returnCodePtr_settled (returnCode : WorkerCode) : StaysSettled (returnCodePtr returnCode) := by
  have granted : StaysSettled (test .malloc) := perform_settled (fun _ => rfl) (by simp) (by simp)
  refine granted.bind fun granted => ?_
  cases granted with
  | true => exact leads_pure returnCode
  | false => exact leads_undefined fun _ settled => settled

theorem mineBlocks_settled (argsGiven printProgress outfile : Bool) (rounds : Nat) :
    StaysSettled (mineBlocks argsGiven printProgress outfile rounds) := by
  have body : StaysSettled (mineBlocksBody argsGiven printProgress outfile rounds) := by
    refine (mineUntilStopped_settled argsGiven printProgress outfile rounds).bind fun returnCode trace joined => ?_
    exact announceExit_ensures.mpr fun lock unlock => .inr (joined.append _)
  exact body.atLabel returnCodePtr_settled returnCodePtr_settled

end Miner

/-- In every run of the miner the joins are of threads it has created, and all of these are joined, if and only if
the run never comes to a join: no block is added and it is not stopped. -/
theorem mine_blocks_joins_created_iff (argsGiven printProgress outfile : Bool) (rounds : Nat)
    {trace : List WorkerEvent} {ending : Ending WorkerCode WorkerCode}
    (runs : Runs (mineBlocks argsGiven printProgress outfile rounds) trace ending) :
    (JoinsCreated trace ∧ ∀ returnCode, ending = .done returnCode → AllJoined trace) ↔
      ∀ event ∈ trace, reachesJoin event = false := by
  have untouched : Untouched ([] : List WorkerEvent) := by simp [Untouched]
  have settled : Settled trace :=
    (mineBlocks_settled argsGiven printProgress outfile rounds).always (.inl untouched) runs
  rcases settled with untouched | ⟨earlier, later, result, rfl, ⟨event, member, reaches⟩, uncreated⟩
  · refine iff_of_true ⟨?_, fun _ _ => ?_⟩ fun event member => (untouched event member).1
    · rintro earlier later result rfl
      exact absurd rfl (untouched _ (List.mem_append_right _ List.mem_cons_self)).2.1
    · rintro earlier later rfl
      exact absurd rfl (untouched _ (List.mem_append_right _ List.mem_cons_self)).2.2
  · refine iff_of_false (fun paired => ?_) fun stays => ?_
    · exact handleAfter_ne_live uncreated (paired.1 earlier later result rfl)
    · rw [stays event (List.mem_append_left _ member)] at reaches
      cases reaches

/-- A chain that is not valid ends the miner before there is anything to join. -/
theorem mine_blocks_joins_created_iff_invalid :
    (JoinsCreated invalidChainRun ∧
        ∀ returnCode, (.done (.code .failureInvalidBlockchain) : Ending WorkerCode WorkerCode) = .done returnCode →
          AllJoined invalidChainRun) ↔
      ∀ event ∈ invalidChainRun, reachesJoin event = false :=
  mine_blocks_joins_created_iff true false false 1 invalidChainRun_runs

/-- A miner that is stopped at once joins a thread that there never was. -/
theorem stopped_miner_joins_unset :
    Runs (mineBlocks true false false 1) stoppedRun (.done (.code .success)) ∧ ¬ JoinsCreated stoppedRun := by
  refine ⟨stoppedRun_runs, fun created => ?_⟩
  have live := created (stoppedRun.take 3) (exitEvents 0 0 ++ [⟨.test .malloc, true⟩]) 0 rfl
  have unset : handleAfter (stoppedRun.take 3) = .unset := rfl
  rw [unset] at live
  cases live

end Worker

end LeoCoin
