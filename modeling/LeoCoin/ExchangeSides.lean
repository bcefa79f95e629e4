import LeoCoin.ConsensusClient
import LeoCoin.ExchangeMemory

/-! # What the two sides leave

A call of either side leaves the published chain, the one that it has replaced, and nothing else where it
succeeds.  `Handover` says what it leaves, and `ComesOut` that the call comes to that and to the result
that it has without memory.
-/

namespace LeoCoin

open Library.Programs Library.Decoding Library.Heap Library.Owning Library.Transition

namespace ChainMemory

open Imperative

/-! ## The decision -/

theorem turns_switches {ours peer : PlacedChain} {ourBlockchain peerBlockchain : Blockchain}
    (holds : ours.Holds ourBlockchain) (peerHolds : peer.Holds peerBlockchain) {incoming : Incoming}
    (there : peer.address = incoming.peerBlockchain) :
    Turns storage (fun rounds => switches ours.address incoming rounds) (ours.pieces + peer.pieces)
      (incoming.isValid && prefersPeer ourBlockchain peerBlockchain) (ours.pieces + peer.pieces) := by
  unfold switches
  rw [← there]
  refine ((turns_blockListLength peerHolds).within ours.pieces (add_comm _ _) (add_comm _ _)).bind ?_
  cases incoming.isValid with
  -- nothing more is read
  | false => exact turns_pure false _
  | true =>
    refine ((turns_blockListLength holds).within peer.pieces rfl rfl).bind ?_
    refine ((turns_placedDifficulty holds).within peer.pieces rfl rfl).bind ?_
    refine ((turns_placedDifficulty peerHolds).within ours.pieces (add_comm _ _) (add_comm _ _)).bind ?_
    exact turns_pure _ _

/-! ## The server's answer -/

section Answer

variable {PKey : Type} {platform : Platform PKey} {environment : Environment}

/-- The return code behind the decision. -/
def replyCode (platform : Platform PKey) (environment : Environment) (header : CommandHeader)
    (blockchain : Blockchain) : Except Failure Unit := do
  let buffer ← serializeInto environment.serializeGrants platform.order blockchain ⟨[], 0, 0⟩
  let _ ← sentSize environment platform.order header buffer.size

theorem LostBuffer.lost {lost : Pieces} (loses : lost = 0 ∨ LostBuffer lost) : Lost 1 0 lost := by
  rcases loses with rfl | ⟨address, size, rfl⟩
  · exact lost_nothing 1 0
  · exact lost_buffer address size

theorem meets_blockchainSerialize {besides : Pieces → Prop} {placed : PlacedChain} {blockchain : Blockchain}
    (grants : Nat → Nat → Bool) (order : ByteOrder) (holds : placed.Holds blockchain) (others : Pieces) :
    Meets storage besides (placed.pieces + others)
      (fun rounds => blockchainSerialize grants order placed.address rounds)
      (.done (serializeInto grants order blockchain ⟨[], 0, 0⟩))
      (fun buffer written now => written.buffer = buffer ∧
        now = objectPiece written.address (.raw buffer.size.toNat) + (placed.pieces + others))
      (fun now => ∃ lost, Lost 1 0 lost ∧ now = lost + (placed.pieces + others)) := by
  refine ((accounts_blockchainSerialize holds).meets.beside others fun _ _ => trivial).weaken ?_ ?_
  · rintro buffer written _ ⟨_, ⟨_, ⟨same, rfl⟩, rfl⟩, rfl⟩
    exact ⟨same, add_assoc _ _ _⟩
  · rintro _ ⟨_, ⟨lost, loses, rfl⟩, rfl⟩
    exact ⟨lost, LostBuffer.lost loses, add_assoc _ _ _⟩

/-- The chain stays, the rest is freed; where the answer fails, what has not been freed is lost. -/
theorem meets_reply {besides : Pieces → Prop} {published : PlacedChain} {blockchain : Blockchain}
    (platform : Platform PKey) (environment : Environment) (holds : published.Holds blockchain) (incoming : Incoming)
    (switched : Bool) (recvBufLen blockchainDataLen : Nat) {leftover : Pieces} (drops : Turns storage
      (fun rounds => destroyUnlessSwitched switched incoming.peerBlockchain rounds) leftover () 0)
    (loses : Lost 0 1 leftover) :
    Meets storage besides
      (published.pieces + (leftover + (objectPiece incoming.blockchainData (.raw blockchainDataLen) +
        objectPiece incoming.recvBuf (.raw recvBufLen))))
      (fun rounds => reply platform environment incoming switched published.address rounds)
      (.done (replyCode platform environment incoming.header blockchain)) (fun _ _ now => now = published.pieces)
      (fun now => ∃ lost, Lost 3 1 lost ∧ now = published.pieces + lost) := by
  generalize held : objectPiece incoming.recvBuf (.raw recvBufLen) = recvBuf
  have recvBufLost : Lost 1 0 recvBuf := held ▸ lost_buffer _ _
  refine Meets.after ((turns_free incoming.blockchainData (.raw blockchainDataLen)).within
    (published.pieces + (leftover + recvBuf)) (by abel) (zero_add _).symm) ?_
  rw [replyCode, ← andThen_done]
  have serializes : Meets storage besides (published.pieces + (leftover + recvBuf)) _ _ _
      (fun now => ∃ lost, Lost 3 1 lost ∧ now = published.pieces + lost) :=
    (meets_blockchainSerialize environment.serializeGrants platform.order holds (leftover + recvBuf)).weaken
      (fun _ _ _ holds => holds) (by
        rintro _ ⟨lost, losesToo, rfl⟩
        exact ⟨lost + (leftover + recvBuf), (losesToo.add (loses.add recvBufLost)).mono (by omega) (by omega),
          by abel⟩)
  refine serializes.bind ?_
  rintro _ written _ - ⟨rfl, rfl⟩
  generalize heldToo : objectPiece written.address (.raw written.buffer.size.toNat) = blockchainData
  have dataLost : Lost 1 0 blockchainData := heldToo ▸ lost_buffer _ _
  -- from here on no chain can be lost
  have destroys : Turns storage
      (fun rounds => destroyUnlessSwitched switched incoming.peerBlockchain rounds)
      (blockchainData + (published.pieces + (leftover + recvBuf))) ()
      (blockchainData + (published.pieces + recvBuf)) :=
    drops.within (blockchainData + (published.pieces + recvBuf)) (by abel) (zero_add _).symm
  refine Meets.after destroys ?_
  rw [← andThen_done]
  have alone : Meets storage (fun _ => True) 0
      (fun _ => sendBlockchain environment platform.order incoming.header written) _ _ _ :=
    meets_sendBlockchain incoming.header written
  have sends : Meets storage besides (0 + (blockchainData + (published.pieces + recvBuf))) _ _ _
      (fun now => ∃ lost, Lost 3 1 lost ∧ now = published.pieces + lost) :=
    (alone.beside _ fun _ _ => trivial).weaken (fun _ _ _ holds => holds) (by
      rintro _ ⟨lost, losesToo, rfl⟩
      exact ⟨lost + (blockchainData + recvBuf), (losesToo.add (dataLost.add recvBufLost)).mono (by omega) (by omega),
        by abel⟩)
  rw [zero_add] at sends
  refine sends.bind ?_
  rintro size sendBuf _ - ⟨_, rfl, rfl⟩
  refine Meets.after ((turns_free written.address (.raw written.buffer.size.toNat)).within
    (objectPiece sendBuf (.raw size) + (published.pieces + recvBuf)) (by rw [heldToo]; abel) (zero_add _).symm) ?_
  refine Meets.after ((turns_free sendBuf (.raw size)).within (published.pieces + recvBuf) rfl (zero_add _).symm) ?_
  have last : Turns storage (fun _ => free incoming.recvBuf) (published.pieces + recvBuf) () published.pieces :=
    (turns_free incoming.recvBuf (.raw recvBufLen)).within published.pieces (by rw [held, add_comm])
      (zero_add _).symm
  refine (last.accounts.mono ?_).meets
  rintro _ _ ⟨rfl, rfl⟩
  exact ⟨(), rfl, rfl⟩

end Answer

/-! ## The two sides -/

/-- What a call leaves: the chain that is published now, the one that was where it has been replaced,
and what is lost, which is nothing where the call succeeds. -/
def Handover (ours : PlacedChain) (sync after : Sync) (returnCode : Except Failure Unit) (exchanged : Exchanged)
    (owned : Pieces) : Prop :=
  exchanged.returnCode = returnCode ∧ ∃ (published : PlacedChain) (replaced lost : Pieces),
    published.address = exchanged.blockchain ∧ published.Holds after.blockchain ∧
      (published = ours ∧ after = sync ∧ replaced = 0 ∨ after.version = sync.version + 1 ∧ replaced = ours.pieces) ∧
      Lost 3 1 lost ∧ (returnCode = .ok () → lost = 0) ∧ owned = published.pieces + (replaced + lost)

/-- The program comes to what the call comes to, with what that leaves. -/
def ComesOut (program : Nat → MemoryProgram Exchanged) (ours : PlacedChain) (sync : Sync) (exchange : Exchange)
    (start : Process) (rest : Pieces) : Prop :=
  match courseOf exchange.outcome with
  | .done returnCode => ∃ exchanged after owned, Yields program start (.ok exchanged) after ∧
      Handover ours sync exchange.sync returnCode exchanged owned ∧ pieces after = owned + rest
  | .running => ComesTo (fun rounds => program rounds start) .running
  | .undefined => ComesTo (fun rounds => program rounds start) .undefined

theorem settle_comesTo (ours : Nat) {program : Nat → MemoryProgram Exchanged} {start : Process}
    {course : Course (Except Failure Exchanged × Process)}
    (comes : ComesTo (fun rounds => program rounds start) course) :
    ComesTo (fun rounds => settle ours (program rounds) start) (course >>= atEnd ours) := by
  obtain ⟨enough, settled⟩ := comes
  exact ⟨enough, fun rounds given => congrArg (· >>= atEnd ours) (settled rounds given)⟩

/-- What a side comes to, from what it comes to before `end:`. -/
theorem comesOut_of_meets {α : Type} {besides : Pieces → Prop} {program : Nat → MemoryProgram Exchanged}
    {expected : Course (Except Failure α)} {left : α → Exchanged → Pieces → Prop} {ours : PlacedChain} {sync : Sync}
    {exchange : Exchange} {start : Process} {rest : Pieces}
    (meets : Meets storage besides (0 + ours.pieces) program expected left
      (fun now => ∃ lost, Lost 3 1 lost ∧ now = lost + ours.pieces))
    (holds : ours.Holds sync.blockchain) (fine : besides rest) (there : pieces start = ours.pieces + rest)
    (returns : ∀ value, expected = .done (.ok value) → ∃ returnCode, courseOf exchange.outcome = .done returnCode ∧
      ∀ exchanged now, left value exchanged now → Handover ours sync exchange.sync returnCode exchanged now)
    (ends : ∀ failure, expected = .done (.error failure) →
      courseOf exchange.outcome = .done (.error failure) ∧ exchange.sync = sync)
    (runs : expected = .running → courseOf exchange.outcome = .running)
    (undefined : expected = .undefined → courseOf exchange.outcome = .undefined) :
    ComesOut (fun rounds => settle ours.address (program rounds)) ours sync exchange start rest := by
  have there : storage.parts start = 0 + ours.pieces + rest := by rw [zero_add]; exact there
  unfold ComesOut
  cases expected with
  | running =>
    rw [runs rfl]
    exact settle_comesTo ours.address (meets start rest fine there)
  | undefined =>
    rw [undefined rfl]
    exact settle_comesTo ours.address (meets start rest fine there)
  | done result =>
    obtain ⟨found, after, owned, yields, met, parts⟩ := meets start rest fine there
    have settles := settle_comesTo ours.address yields
    cases result with
    | ok value =>
      obtain ⟨exchanged, rfl, holds⟩ := met
      obtain ⟨returnCode, same, handover⟩ := returns value rfl
      rw [same]
      exact ⟨exchanged, after, owned, settles, handover exchanged owned holds, parts⟩
    | error failure =>
      obtain ⟨rfl, lost, loses, rfl⟩ := met
      obtain ⟨same, unchanged⟩ := ends failure rfl
      rw [same, unchanged]
      exact ⟨_, after, _, settles,
        ⟨rfl, ours, 0, lost, rfl, holds, .inl ⟨rfl, rfl, rfl⟩, loses, by simp, by abel⟩, parts⟩

/-- A call that reads behind what it has received has no meaning. -/
def unlessBehind (behind : Bool) (exchange : Exchange) : Exchange :=
  if behind then { exchange with outcome := .error .undefined } else exchange

@[simp] theorem unlessBehind_false (exchange : Exchange) : unlessBehind false exchange = exchange := rfl

@[simp] theorem unlessBehind_sync (behind : Bool) (exchange : Exchange) :
    (unlessBehind behind exchange).sync = exchange.sync := by
  cases behind <;> rfl

theorem comesOut_behind {α : Type} {besides : Pieces → Prop} {program : Nat → MemoryProgram Exchanged}
    {left : α → Exchanged → Pieces → Prop} {spilled : Pieces → Prop} {ours : PlacedChain} {start : Process}
    {rest : Pieces} (meets : Meets storage besides (0 + ours.pieces) program .undefined left spilled)
    (fine : besides rest) (there : pieces start = ours.pieces + rest) (sync : Sync) (exchange : Exchange) :
    ComesOut (fun rounds => settle ours.address (program rounds)) ours sync (unlessBehind true exchange) start rest :=
  settle_comesTo ours.address (meets start rest fine (by rw [zero_add]; exact there))

section Sides

variable {PKey : Type} {platform : Platform PKey} {environment : Environment} {stream : Stream} {sync : Sync}
  {ours : PlacedChain}

/-- The answer with its return code. -/
theorem accounts_answered {besides : Pieces → Prop} {published : PlacedChain} {blockchain : Blockchain}
    (platform : Platform PKey) (environment : Environment) (holds : published.Holds blockchain) (incoming : Incoming)
    (switched : Bool) (recvBufLen blockchainDataLen : Nat) {leftover : Pieces} (drops : Turns storage
      (fun rounds => destroyUnlessSwitched switched incoming.peerBlockchain rounds) leftover () 0)
    (loses : Lost 0 1 leftover) :
    Accounts storage besides
      (published.pieces + (leftover + (objectPiece incoming.blockchainData (.raw blockchainDataLen) +
        objectPiece incoming.recvBuf (.raw recvBufLen))))
      (fun rounds => (reply platform environment incoming switched published.address rounds).outcome >>=
        fun returnCode => (pure ⟨returnCode, published.address⟩ : MemoryProgram Exchanged))
      fun result now => ∃ lost,
        result = .ok ⟨replyCode platform environment incoming.header blockchain, published.address⟩ ∧
          Lost 3 1 lost ∧ (replyCode platform environment incoming.header blockchain = .ok () → lost = 0) ∧
          now = published.pieces + lost := by
  have answers : Accounts storage besides _ _ (Expected _ _ _) :=
    meets_reply platform environment holds incoming switched recvBufLen blockchainDataLen drops loses
  generalize replyCode platform environment incoming.header blockchain = returnCode at answers ⊢
  refine answers.outcome.bind ?_ ?_
  · intro ended now ⟨_, same, ends⟩
    cases same
    cases returnCode with
    | ok value =>
      obtain ⟨_, rfl, rfl⟩ := ends
      exact accounts_pure _ ⟨0, rfl, lost_nothing 3 1, fun _ => rfl, (add_zero _).symm⟩
    | error failure =>
      obtain ⟨rfl, lost, loses, rfl⟩ := ends
      exact accounts_pure _ ⟨lost, rfl, loses, by simp, rfl⟩
  · rintro _ _ ⟨_, wrong, -⟩
    cases wrong

/-- The server behind the verdict. -/
theorem accounts_served {besides : Pieces → Prop} (holds : ours.Holds sync.blockchain)
    {received : CommandHeader × Blockchain × Bool} {incoming : Incoming} {owned : Pieces}
    (has : HasReceived received incoming owned) :
    Accounts storage besides (owned + ours.pieces)
      (fun rounds => switches ours.address incoming rounds >>= fun switched =>
        (reply platform environment incoming switched
          (if switched then incoming.peerBlockchain else ours.address) rounds).outcome >>= fun returnCode =>
        pure ⟨returnCode, if switched then incoming.peerBlockchain else ours.address⟩)
      fun result now => ∃ exchanged, result = .ok exchanged ∧
        Handover ours sync (considerPeerBlockchain sync received.2.1 received.2.2)
          (replyCode platform environment received.1
            (considerPeerBlockchain sync received.2.1 received.2.2).blockchain) exchanged now := by
  obtain ⟨header, peerBlockchain, isValid⟩ := received
  obtain ⟨rfl, rfl, _, recvBufLen, blockchainDataLen, ⟨peer, there, peerHolds, rfl⟩, rfl⟩ := has
  generalize held : objectPiece incoming.blockchainData (.raw blockchainDataLen) +
    objectPiece incoming.recvBuf (.raw recvBufLen) = buffers
  have decides : Turns storage (fun rounds => switches ours.address incoming rounds)
      (peer.pieces + buffers + ours.pieces) _ (ours.pieces + peer.pieces + buffers) :=
    (turns_switches holds peerHolds there).within buffers (by abel) rfl
  refine Accounts.after decides ?_
  dsimp only at peerHolds ⊢
  cases decided : incoming.isValid && prefersPeer sync.blockchain peerBlockchain with
  -- the chain that came in is what the answer may lose
  | false =>
    have same : considerPeerBlockchain sync peerBlockchain incoming.isValid = sync := by
      simp [considerPeerBlockchain, decided]
    have drops : Turns storage (fun rounds => destroyUnlessSwitched false incoming.peerBlockchain rounds) peer.pieces ()
        0 := by
      rw [← there]
      exact turns_blockchainDestroy peer
    rw [same, add_assoc, ← held]
    refine (accounts_answered platform environment holds incoming false recvBufLen blockchainDataLen drops
      (lost_chain peerHolds)).mono ?_
    rintro _ _ ⟨lost, rfl, loses, none, rfl⟩
    exact ⟨_, rfl, rfl, ours, 0, lost, rfl, holds, .inl ⟨rfl, rfl, rfl⟩, loses, none, by rw [zero_add]⟩
  -- ours is beside the answer, which is made of the chain that came in
  | true =>
    have switched : considerPeerBlockchain sync peerBlockchain incoming.isValid =
        ⟨peerBlockchain, sync.version + 1⟩ := by
      simp [considerPeerBlockchain, decided]
    have drops : Turns storage (fun rounds => destroyUnlessSwitched true incoming.peerBlockchain rounds) 0 () 0 :=
      turns_pure () 0
    have answered : Accounts storage (fun _ => True) _ _ _ :=
      accounts_answered platform environment peerHolds incoming true recvBufLen blockchainDataLen drops
        (lost_nothing 0 1)
    rw [switched, show ours.pieces + peer.pieces + buffers = peer.pieces + (0 + buffers) + ours.pieces by abel, ← held,
      ← there]
    refine (answered.beside ours.pieces fun _ _ => trivial).mono ?_
    rintro _ _ ⟨_, ⟨lost, rfl, loses, none, rfl⟩, rfl⟩
    exact ⟨_, rfl, rfl, peer, ours.pieces, lost, rfl, peerHolds, .inr ⟨rfl, rfl⟩, loses, none, by abel⟩

/-- The server, up to its decision and behind it. -/
theorem meets_handleOneConsensusRequest (now : Int64) (holds : ours.Holds sync.blockchain) {used : Nat}
    (roomy : Roomy platform .handleOneConsensusRequest environment stream used) :
    Meets storage (fun frame => weight (ours.pieces + frame) ≤ used) (0 + ours.pieces)
      (fun rounds =>
        receiveBlockchain platform .handleOneConsensusRequest environment stream now rounds >>= fun incoming =>
        switches ours.address incoming rounds >>= fun switched =>
        (reply platform environment incoming switched
          (if switched then incoming.peerBlockchain else ours.address) rounds).outcome >>= fun returnCode =>
        pure ⟨returnCode, if switched then incoming.peerBlockchain else ours.address⟩)
      (courseOf (receiveInside platform .handleOneConsensusRequest environment stream))
      (fun received exchanged now =>
        Handover ours sync (considerPeerBlockchain sync received.2.1 received.2.2)
          (replyCode platform environment received.1
            (considerPeerBlockchain sync received.2.1 received.2.2).blockchain) exchanged now)
      (fun now => ∃ lost, Lost 3 1 lost ∧ now = lost + ours.pieces) := by
  have receives : Meets storage (fun frame => weight (ours.pieces + frame) ≤ used) (0 + ours.pieces) _ _ _
      (fun now => ∃ lost, Lost 3 1 lost ∧ now = lost + ours.pieces) :=
    ((meets_receiveBlockchain now roomy).beside ours.pieces fun _ fits => fits).weaken (fun _ _ _ holds => holds)
      fun _ ⟨lost, loses, same⟩ => ⟨lost, loses.mono (by omega) (by omega), same⟩
  rw [← andThen_ok (courseOf _)]
  refine receives.bind ?_
  rintro received incoming _ - ⟨owned, has, rfl⟩
  exact (accounts_served holds has).meets

/-- What the server's call comes to. -/
theorem served_outcome (platform : Platform PKey) (environment : Environment) (sync : Sync) (stream : Stream) :
    (∀ stop, LeoCoin.receiveBlockchain platform .handleOneConsensusRequest environment stream = .error stop →
      (LeoCoin.handleOneConsensusRequest platform environment sync stream).outcome = .error stop ∧
        (LeoCoin.handleOneConsensusRequest platform environment sync stream).sync = sync) ∧
    ∀ received, LeoCoin.receiveBlockchain platform .handleOneConsensusRequest environment stream = .ok received →
      courseOf (LeoCoin.handleOneConsensusRequest platform environment sync stream).outcome =
          .done (replyCode platform environment received.1
            (considerPeerBlockchain sync received.2.1 received.2.2).blockchain) ∧
        (LeoCoin.handleOneConsensusRequest platform environment sync stream).sync =
          considerPeerBlockchain sync received.2.1 received.2.2 := by
  rw [LeoCoin.handleOneConsensusRequest]
  cases LeoCoin.receiveBlockchain platform .handleOneConsensusRequest environment stream with
  | error stop =>
    refine ⟨fun _ same => ?_, fun _ wrong => (by cases wrong)⟩
    cases same
    exact ⟨rfl, rfl⟩
  | ok received =>
    obtain ⟨header, peerBlockchain, isValid⟩ := received
    refine ⟨fun _ wrong => (by cases wrong), fun _ same => ?_⟩
    cases same
    dsimp only
    generalize considerPeerBlockchain sync peerBlockchain isValid = after
    rcases blockchainCommand_outcome environment.serializeGrants platform.order header after.blockchain with
      ⟨code, refused, fails⟩ | ⟨buffer, command, written, filled, rfl, sized⟩
    · rw [replyCode, refused, fails]
      exact ⟨rfl, rfl⟩
    · have replies : replyCode platform environment command.header after.blockchain =
          (sentSize environment platform.order command.header command.blockchainDataLen).map fun _ => () := by
        rw [replyCode, written, sized]
        rfl
      rw [replies, filled]
      rcases sentSize_outcome environment platform.order command with
        ⟨code, fails, sends⟩ | ⟨sendBuf, size, succeeds, sends⟩
      · rw [sends]
        simp only [fails]
        exact ⟨rfl, trivial⟩
      · rw [sends]
        simp only [succeeds, courseOf_sendAll]
        cases environment.breaksAfter <;> exact ⟨rfl, trivial⟩

theorem comesOut_server (now : Int64) (holds : ours.Holds sync.blockchain) {start : Process} {rest : Pieces}
    (there : pieces start = ours.pieces + rest)
    (roomy : Roomy platform .handleOneConsensusRequest environment stream (weight (pieces start))) :
    ComesOut (fun rounds => handleOneConsensusRequest platform environment stream now ours.address rounds) ours sync
      (unlessBehind (receivesBehind platform .handleOneConsensusRequest environment stream)
        (LeoCoin.handleOneConsensusRequest platform environment sync stream)) start rest := by
  have meets := meets_handleOneConsensusRequest now holds roomy
  cases behind : receivesBehind platform .handleOneConsensusRequest environment stream with
  | true =>
    rw [receiveInside_of_behind behind] at meets
    exact comesOut_behind meets (by rw [there]) there _ _
  | false =>
    rw [receiveInside_of_inside behind] at meets
    obtain ⟨stops, returns⟩ := served_outcome platform environment sync stream
    refine comesOut_of_meets meets holds (by rw [there]) there ?_ ?_ ?_ ?_
    · intro received same
      obtain ⟨code, after⟩ := returns received (courseOf_eq_ok.mp same)
      exact ⟨_, code, fun _ _ handover => by rw [unlessBehind_sync, after]; exact handover⟩
    · intro failure same
      obtain ⟨ends, after⟩ := stops _ (courseOf_eq_error.mp same)
      exact ⟨courseOf_eq_error.mpr ends, after⟩
    · exact fun same => courseOf_eq_running.mpr (stops _ (courseOf_eq_running.mp same)).1
    · exact fun same => courseOf_eq_undefined.mpr (stops _ (courseOf_eq_undefined.mp same)).1

theorem chainMessage_length (blockchain : Blockchain) :
    (chainMessage blockchain).length = 24 + (encodeBlockchain blockchain).length := by
  simp [chainMessage, encodeCommandSendBlockchain, chainCommand]
  omega

theorem except_bind_eq_ok {α γ ε : Type} {first : Except ε α} {rest : α → Except ε γ} {value : γ} :
    first >>= rest = .ok value ↔ ∃ found, first = .ok found ∧ rest found = .ok value := by
  cases first <;> simp [Bind.bind, Except.bind]

/-- Where the message is written, it is as long as it says, which is less where the sum has wrapped. -/
theorem framedSize_le {grants : Nat → Nat → Bool} {order : ByteOrder} {header : CommandHeader}
    {blockchainDataLen : UInt64} {size : Nat} (writes : framedSize grants order header blockchainDataLen = .ok size) :
    size ≤ 24 + blockchainDataLen.toNat := by
  have sum : (16 + 8 + blockchainDataLen).toNat = (24 + blockchainDataLen.toNat) % 2 ^ 64 :=
    UInt64.toNat_add 24 blockchainDataLen
  have bound := Nat.mod_le (24 + blockchainDataLen.toNat) (2 ^ 64)
  obtain ⟨-, -, writes⟩ := except_bind_eq_ok.mp writes
  obtain ⟨-, -, writes⟩ := except_bind_eq_ok.mp writes
  obtain ⟨-, -, writes⟩ := except_bind_eq_ok.mp writes
  obtain ⟨-, -, writes⟩ := except_bind_eq_ok.mp writes
  cases writes
  omega

theorem sentSize_le {environment : Environment} {order : ByteOrder} {header : CommandHeader} {blockchain : Blockchain}
    {buffer : SerializationBuffer}
    (written : serializeInto environment.serializeGrants order blockchain ⟨[], 0, 0⟩ = .ok buffer) {size : Nat}
    (sends : sentSize environment order header buffer.size = .ok size) : size ≤ (chainMessage blockchain).length := by
  have serialized : LeoCoin.blockchainSerialize environment.serializeGrants order blockchain =
      .ok (buffer.bytes, buffer.size) := by
    rw [LeoCoin.blockchainSerialize, written]
    rfl
  obtain ⟨-, sized⟩ := Prod.mk.inj (blockchain_serialize_sound serialized)
  have count : buffer.size.toNat = (encodeBlockchain blockchain).length :=
    sized ▸ encodeBlockchain_length_toNat blockchain
  obtain ⟨_, framed, sends⟩ := except_bind_eq_ok.mp sends
  obtain ⟨-, -, sends⟩ := except_bind_eq_ok.mp sends
  cases sends
  rw [chainMessage_length, ← count]
  exact framedSize_le framed

/-- The client behind the verdict. -/
theorem accounts_contacted {besides : Pieces → Prop} (holds : ours.Holds sync.blockchain)
    {received : CommandHeader × Blockchain × Bool} {incoming : Incoming} {owned : Pieces}
    (has : HasReceived received incoming owned) (sendBuf sendBufLen : Nat) :
    Accounts storage besides (owned + (objectPiece sendBuf (.raw sendBufLen) + ours.pieces))
      (fun rounds => switches ours.address incoming rounds >>= fun switched =>
        destroyUnlessSwitched switched incoming.peerBlockchain rounds >>= fun _ =>
        free incoming.blockchainData >>= fun _ => free sendBuf >>= fun _ => free incoming.recvBuf >>= fun _ =>
        pure ⟨.ok (), if switched then incoming.peerBlockchain else ours.address⟩)
      fun result now => ∃ exchanged, result = .ok exchanged ∧
        Handover ours sync (considerPeerBlockchain sync received.2.1 received.2.2) (.ok ()) exchanged now := by
  obtain ⟨header, peerBlockchain, isValid⟩ := received
  obtain ⟨rfl, rfl, _, recvBufLen, blockchainDataLen, ⟨peer, there, peerHolds, rfl⟩, rfl⟩ := has
  generalize held : objectPiece incoming.blockchainData (.raw blockchainDataLen) +
    objectPiece incoming.recvBuf (.raw recvBufLen) + objectPiece sendBuf (.raw sendBufLen) = buffers
  have decides : Turns storage (fun rounds => switches ours.address incoming rounds)
      (peer.pieces + (objectPiece incoming.blockchainData (.raw blockchainDataLen) +
        objectPiece incoming.recvBuf (.raw recvBufLen)) +
          (objectPiece sendBuf (.raw sendBufLen) + ours.pieces)) _ (ours.pieces + peer.pieces + buffers) :=
    (turns_switches holds peerHolds there).within buffers (by rw [← held]; abel) rfl
  refine Accounts.after decides ?_
  dsimp only at peerHolds ⊢
  have frees (kept : Pieces) (exchanged : Exchanged) : Turns storage
      (fun _ => free incoming.blockchainData >>= fun _ => free sendBuf >>= fun _ => free incoming.recvBuf >>= fun _ =>
        (pure exchanged : MemoryProgram Exchanged)) (kept + buffers) exchanged kept := by
    rw [← held]
    refine ((turns_free incoming.blockchainData (.raw blockchainDataLen)).within
      (kept + objectPiece incoming.recvBuf (.raw recvBufLen) + objectPiece sendBuf (.raw sendBufLen)) (by abel)
      (zero_add _).symm).bind ?_
    refine ((turns_free sendBuf (.raw sendBufLen)).within
      (kept + objectPiece incoming.recvBuf (.raw recvBufLen)) (by abel) (zero_add _).symm).bind ?_
    exact ((turns_free incoming.recvBuf (.raw recvBufLen)).within kept (add_comm _ _) (zero_add _).symm).bind
      (turns_pure _ _)
  cases decided : incoming.isValid && prefersPeer sync.blockchain peerBlockchain with
  | false =>
    have same : considerPeerBlockchain sync peerBlockchain incoming.isValid = sync := by
      simp [considerPeerBlockchain, decided]
    have destroys : Turns storage (fun rounds => destroyUnlessSwitched false incoming.peerBlockchain rounds)
        (ours.pieces + peer.pieces + buffers) () (ours.pieces + buffers) := by
      rw [← there]
      exact (turns_blockchainDestroy peer).within (ours.pieces + buffers) (by abel) (zero_add _).symm
    rw [same]
    refine (destroys.bind (frees ours.pieces _)).accounts.mono ?_
    rintro _ _ ⟨rfl, rfl⟩
    exact ⟨_, rfl, rfl, ours, 0, 0, rfl, holds, .inl ⟨rfl, rfl, rfl⟩, lost_nothing 3 1, fun _ => rfl, by simp⟩
  | true =>
    have switched : considerPeerBlockchain sync peerBlockchain incoming.isValid =
        ⟨peerBlockchain, sync.version + 1⟩ := by
      simp [considerPeerBlockchain, decided]
    have destroys : Turns storage (fun rounds => destroyUnlessSwitched true incoming.peerBlockchain rounds)
        (ours.pieces + peer.pieces + buffers) () (ours.pieces + peer.pieces + buffers) := turns_pure () _
    rw [switched]
    refine (destroys.bind (frees (ours.pieces + peer.pieces) _)).accounts.mono ?_
    rintro _ _ ⟨rfl, rfl⟩
    exact ⟨_, rfl, rfl, peer, ours.pieces, 0, there, peerHolds, .inr ⟨rfl, rfl⟩, lost_nothing 3 1, fun _ => rfl,
      by rw [add_zero, add_comm]⟩

/-- What the client has received, or why it has not. -/
def contacted (platform : Platform PKey) (environment : Environment) (sync : Sync)
    (received : Except Stop (CommandHeader × Blockchain × Bool)) :
    Course (Except Failure (CommandHeader × Blockchain × Bool)) :=
  andThen (.done (checked environment.socket .networkFunction)) fun _ =>
  andThen (.done (checked environment.connects .networkFunction)) fun _ =>
  andThen (.done (serializeInto environment.serializeGrants platform.order sync.blockchain ⟨[], 0, 0⟩)) fun buffer =>
  andThen (.done (sentSize environment platform.order (.initial .sendBlockchain) buffer.size)) fun _ =>
  courseOf received

/-- The client, up to its decision and behind it. -/
theorem meets_runConsensusPeerClientOnce (now : Int64) (holds : ours.Holds sync.blockchain) {used : Nat}
    (roomy : Roomy platform .runConsensusPeerClientOnce environment stream used) :
    Meets storage (fun frame => weight (ours.pieces + frame) + (chainMessage sync.blockchain).length ≤ used)
      (0 + ours.pieces)
      (fun rounds =>
        require environment.socket .networkFunction >>= fun _ =>
        require environment.connects .networkFunction >>= fun _ =>
        blockchainSerialize environment.serializeGrants platform.order ours.address rounds >>= fun blockchainData =>
        sendBlockchain environment platform.order (.initial .sendBlockchain) blockchainData >>= fun sendBuf =>
        free blockchainData.address >>= fun _ =>
        receiveBlockchain platform .runConsensusPeerClientOnce environment stream now rounds >>= fun incoming =>
        switches ours.address incoming rounds >>= fun switched =>
        destroyUnlessSwitched switched incoming.peerBlockchain rounds >>= fun _ =>
        free incoming.blockchainData >>= fun _ => free sendBuf >>= fun _ => free incoming.recvBuf >>= fun _ =>
        pure ⟨.ok (), if switched then incoming.peerBlockchain else ours.address⟩)
      (contacted platform environment sync (receiveInside platform .runConsensusPeerClientOnce environment stream))
      (fun received exchanged now =>
        Handover ours sync (considerPeerBlockchain sync received.2.1 received.2.2) (.ok ()) exchanged now)
      (fun now => ∃ lost, Lost 3 1 lost ∧ now = lost + ours.pieces) := by
  rw [zero_add, contacted]
  have untouched : ∃ lost, Lost 3 1 lost ∧ ours.pieces = lost + ours.pieces :=
    ⟨0, lost_nothing 3 1, (zero_add _).symm⟩
  refine (meets_require environment.socket .networkFunction untouched).bind ?_
  rintro _ _ _ - rfl
  refine (meets_require environment.connects .networkFunction untouched).bind ?_
  rintro _ _ _ - rfl
  have serializes : Meets storage
      (fun frame => weight (ours.pieces + frame) + (chainMessage sync.blockchain).length ≤ used) (ours.pieces + 0) _ _ _
      (fun now => ∃ lost, Lost 3 1 lost ∧ now = lost + ours.pieces) :=
    (meets_blockchainSerialize environment.serializeGrants platform.order holds 0).weaken (fun _ _ _ holds => holds) (by
      rintro _ ⟨lost, loses, rfl⟩
      exact ⟨lost, loses.mono (by omega) (by omega), by rw [add_zero]⟩)
  rw [add_zero] at serializes
  refine serializes.bind ?_
  rintro buffer blockchainData _ written ⟨rfl, rfl⟩
  have written : serializeInto environment.serializeGrants platform.order sync.blockchain ⟨[], 0, 0⟩ =
      .ok blockchainData.buffer := by simpa using written
  generalize held : objectPiece blockchainData.address (.raw blockchainData.buffer.size.toNat) = data
  have dataLost : Lost 1 0 data := held ▸ lost_buffer _ _
  have alone : Meets storage (fun _ => True) 0
      (fun _ => sendBlockchain environment platform.order (.initial .sendBlockchain) blockchainData) _ _ _ :=
    meets_sendBlockchain (.initial .sendBlockchain) blockchainData
  have sends : Meets storage
      (fun frame => weight (ours.pieces + frame) + (chainMessage sync.blockchain).length ≤ used)
      (0 + (data + ours.pieces)) _ _ _ (fun now => ∃ lost, Lost 3 1 lost ∧ now = lost + ours.pieces) :=
    (alone.beside (data + ours.pieces) fun _ _ => trivial).weaken (fun _ _ _ holds => holds) (by
      rintro _ ⟨lost, loses, rfl⟩
      exact ⟨lost + data, (loses.add dataLost).mono (by omega) (by omega), by abel⟩)
  rw [zero_add] at sends
  refine sends.bind ?_
  rintro size sendBuf _ sized ⟨_, rfl, rfl⟩
  have small : size ≤ (chainMessage sync.blockchain).length := sentSize_le written (by simpa using sized)
  refine Meets.after ((turns_free blockchainData.address (.raw blockchainData.buffer.size.toNat)).within
    (objectPiece sendBuf (.raw size) + ours.pieces) (by rw [held]; abel) (zero_add _).symm) ?_
  -- what is allocated meanwhile is no more than the message that has been sent
  have fits (frame : Pieces) (light : weight (ours.pieces + frame) + (chainMessage sync.blockchain).length ≤ used) :
      weight (objectPiece sendBuf (.raw size) + ours.pieces + frame) ≤ used := by
    simp only [weight_add, weight_objectPiece, Object.size] at light ⊢
    omega
  have receives : Meets storage
      (fun frame => weight (ours.pieces + frame) + (chainMessage sync.blockchain).length ≤ used)
      (0 + (objectPiece sendBuf (.raw size) + ours.pieces)) _ _ _
      (fun now => ∃ lost, Lost 3 1 lost ∧ now = lost + ours.pieces) :=
    ((meets_receiveBlockchain now roomy).beside (objectPiece sendBuf (.raw size) + ours.pieces) fits).weaken
      (fun _ _ _ holds => holds) (by
        rintro _ ⟨lost, loses, rfl⟩
        exact ⟨lost + objectPiece sendBuf (.raw size),
          (loses.add (lost_buffer sendBuf size)).mono (by omega) (by omega), by abel⟩)
  rw [zero_add] at receives
  rw [← andThen_ok (courseOf _)]
  refine receives.bind ?_
  rintro received incoming _ - ⟨owned, has, rfl⟩
  exact (accounts_contacted holds has sendBuf size).meets

/-- Nothing is received where the request is not sent. -/
theorem contacted_requested (platform : Platform PKey) (environment : Environment) (sync : Sync) :
    ((requestBlockchain platform.order environment sync).1 = .ok () ∧
        ∀ received, contacted platform environment sync received = courseOf received) ∨
      ((requestBlockchain platform.order environment sync).1.isOk = false ∧
        ∀ received other,
          contacted platform environment sync received = contacted platform environment sync other) := by
  simp only [contacted, requestBlockchain]
  cases environment.socket with
  | false => exact .inr ⟨rfl, fun _ _ => rfl⟩
  | true =>
    cases environment.connects with
    | false => exact .inr ⟨rfl, fun _ _ => rfl⟩
    | true =>
      rcases blockchainCommand_outcome environment.serializeGrants platform.order (.initial .sendBlockchain)
        sync.blockchain with ⟨code, refused, fails⟩ | ⟨buffer, command, written, filled, same, sized⟩
      · rw [refused, fails]
        exact .inr ⟨rfl, fun _ _ => rfl⟩
      · rw [written, filled]
        rcases sentSize_outcome environment platform.order command with
          ⟨code, fails, sends⟩ | ⟨sendBuf, size, succeeds, sends⟩
        · rw [same, sized] at sends
          simp only [fails, sends, checked, andThen]
          exact .inr ⟨rfl, fun _ _ => trivial⟩
        · rw [same, sized] at sends
          simp only [succeeds, sends, checked, andThen]
          cases environment.breaksAfter with
          | some sofar => exact .inr ⟨rfl, fun _ _ => rfl⟩
          | none => exact .inl ⟨rfl, fun _ => rfl⟩

/-- What the client's call comes to. -/
theorem contacted_outcome (platform : Platform PKey) (environment : Environment) (sync : Sync) (stream : Stream) :
    courseOf (LeoCoin.runConsensusPeerClientOnce platform environment sync stream).outcome =
        andThen (contacted platform environment sync
          (LeoCoin.receiveBlockchain platform .runConsensusPeerClientOnce environment stream))
          (fun _ => .done (.ok ())) ∧
      (LeoCoin.runConsensusPeerClientOnce platform environment sync stream).sync =
        match contacted platform environment sync
          (LeoCoin.receiveBlockchain platform .runConsensusPeerClientOnce environment stream) with
        | .done (.ok received) => considerPeerBlockchain sync received.2.1 received.2.2
        | _ => sync := by
  rw [contacted, LeoCoin.runConsensusPeerClientOnce]
  cases environment.socket with
  | false => exact ⟨rfl, rfl⟩
  | true =>
    cases environment.connects with
    | false => exact ⟨rfl, rfl⟩
    | true =>
      rcases blockchainCommand_outcome environment.serializeGrants platform.order (.initial .sendBlockchain)
        sync.blockchain with ⟨code, refused, fails⟩ | ⟨buffer, command, written, filled, same, sized⟩
      · rw [refused, fails]
        exact ⟨rfl, rfl⟩
      · rw [written, filled]
        rcases sentSize_outcome environment platform.order command with
          ⟨code, fails, sends⟩ | ⟨sendBuf, size, succeeds, sends⟩
        · rw [same, sized] at sends
          simp [checked, andThen, fails, sends, courseOf]
        · rw [same, sized] at sends
          cases broken : environment.breaksAfter with
          | some sofar => simp [checked, andThen, succeeds, sends, courseOf, sendAll, sent, broken, Except.map]
          | none =>
            simp only [checked, andThen, succeeds, sends, sendAll, sent, broken, Except.map]
            cases LeoCoin.receiveBlockchain platform .runConsensusPeerClientOnce environment stream with
            | error stop => cases stop <;> exact ⟨rfl, rfl⟩
            | ok received => exact ⟨rfl, rfl⟩

/-- The client has sent its request, and reads behind what has come back. -/
def clientBehind (platform : Platform PKey) (environment : Environment) (sync : Sync) (stream : Stream) : Bool :=
  (requestBlockchain platform.order environment sync).1.isOk &&
    receivesBehind platform .runConsensusPeerClientOnce environment stream

theorem contacted_inside (platform : Platform PKey) (environment : Environment) (sync : Sync) (stream : Stream) :
    contacted platform environment sync (receiveInside platform .runConsensusPeerClientOnce environment stream) =
      if clientBehind platform environment sync stream then .undefined
      else contacted platform environment sync
        (LeoCoin.receiveBlockchain platform .runConsensusPeerClientOnce environment stream) := by
  rw [clientBehind]
  rcases contacted_requested platform environment sync with ⟨requested, same⟩ | ⟨failed, same⟩
  · rw [requested, same, same]
    cases behind : receivesBehind platform .runConsensusPeerClientOnce environment stream with
    | true => rw [receiveInside_of_behind behind]; rfl
    | false => rw [receiveInside_of_inside behind]; rfl
  · rw [failed]
    exact same _ _

theorem comesOut_client (now : Int64) (holds : ours.Holds sync.blockchain) {start : Process} {rest : Pieces}
    (there : pieces start = ours.pieces + rest)
    (roomy : Roomy platform .runConsensusPeerClientOnce environment stream
      (weight (pieces start) + (chainMessage sync.blockchain).length)) :
    ComesOut (fun rounds => runConsensusPeerClientOnce platform environment stream now ours.address rounds) ours sync
      (unlessBehind (clientBehind platform environment sync stream)
        (LeoCoin.runConsensusPeerClientOnce platform environment sync stream)) start rest := by
  have meets := meets_runConsensusPeerClientOnce now holds roomy
  rw [contacted_inside] at meets
  cases behind : clientBehind platform environment sync stream with
  | true =>
    rw [behind, if_pos rfl] at meets
    exact comesOut_behind meets (by rw [there]) there _ _
  | false =>
    rw [behind, if_neg Bool.false_ne_true] at meets
    obtain ⟨outcome, after⟩ := contacted_outcome platform environment sync stream
    refine comesOut_of_meets meets holds (by rw [there]) there ?_ ?_ ?_ ?_
    · intro received same
      rw [same] at outcome after
      exact ⟨_, outcome, fun _ _ handover => by rw [unlessBehind_sync, after]; exact handover⟩
    · intro failure same
      rw [same] at outcome after
      exact ⟨outcome, after⟩
    · intro same
      rw [same] at outcome
      exact outcome
    · intro same
      rw [same] at outcome
      exact outcome

theorem Roomy.mono {path : ReceivePath} {used more : Nat} (roomy : Roomy platform path environment stream more)
    (less : used ≤ more) : Roomy platform path environment stream used := by
  intro recvBuf command requests received decoded granted
  have room := roomy recvBuf command requests received decoded granted
  omega

end Sides

end ChainMemory

end LeoCoin
