import LeoCoin.LinkedList
import LeoCoin.PeerDiscovery
import LeoCoin.PeerHeap

/-! # Requests in memory

A request to the bootstrap server with the record it allocates, which becomes the list's
or is freed, and with what is looked up about a peer when `print_progress` is on.  Using
or freeing a record that is not there is undefined, so a server that never comes to it
frees every record at most once.
-/

namespace LeoCoin

open Library.Programs
open Library.Decoding
open Library.Heap
open Library.Transition

/-! ## The handler -/

/-- What a request meets besides: whether there is room for a node beside all that is allocated,
what the calls on the mutex return if they fail, the names, and a clock that is not before its epoch. -/
structure RecordEnvironment extends DiscoveryEnvironment where
  room : Memory PeerInfo → Bool
  lock : Option Int32
  unlock : Option Int32
  added : Lookup
  updated : Lookup
  removed : Nat → Lookup
  bounded : ∀ {memory : Memory PeerInfo} {entries : List (Entry PeerInfo)}, Holds memory entries →
    room memory = true → peersMemory (entries.map Entry.value) + 56 < 2 ^ 64
  registeredPast : 0 ≤ lastConnected.toInt
  answeredPast : 0 ≤ currentTime.toInt

/-- Why a request is left: as `Stop` says, or with what a call on the mutex returned. -/
inductive RecordStop where
  | stop (stop : Stop) : RecordStop
  | mutex (error : Int32) : RecordStop

structure RecordExchange where
  outcome : Except RecordStop Unit
  memory : Memory PeerInfo
  sent : List UInt8

/-- `malloc(sizeof(peer_info_t))`, filled in. -/
def withRecord (memory : Memory PeerInfo) (peerInfo : PeerInfo) : Memory PeerInfo :=
  { memory with data := memory.data.allocate peerInfo }

/-- `free(peer_info)` -/
def freeRecord (record : Nat) (memory : Memory PeerInfo) : Course (Memory PeerInfo) := do
  let data ← .ofOption (memory.data.release record)
  return { memory with data }

/-- From `linked_list_find` to the end of the two branches behind it. -/
def enterRecord (order : ByteOrder) (printProgress : Bool) (environment : RecordEnvironment) (record : Nat)
    (memory : Memory PeerInfo) (rounds : Nat) : Course (Except Failure Unit × Memory PeerInfo) := do
  match ← LinkedList.find (some (comparePeerInfoT order)) record memory rounds with
  | .error code =>
    let memory ← freeRecord record memory
    return (.error code, memory)
  | .ok none =>
    match LinkedList.prepend (environment.node && environment.room memory) record memory with
    | .error code =>
      let memory ← freeRecord record memory
      return (.error code, memory)
    | .ok memory =>
      if environment.added.printed printProgress then
        return (.ok (), memory)
      else
        -- the new node stays in the list
        let memory ← freeRecord record memory
        return (.error .networkFunction, memory)
  | .ok (some foundNode) =>
    -- only the time of the listed peer is written, and its own record stays
    let found ← .ofOption (memory.nodes.object foundNode)
    let foundPeerInfo ← .ofOption (memory.data.object found.data)
    let peerInfo ← .ofOption (memory.data.object record)
    let data ← .ofOption
      (memory.data.write found.data { foundPeerInfo with lastConnected := peerInfo.lastConnected })
    if environment.updated.printed printProgress then
      let memory ← freeRecord record { memory with data }
      return (.ok (), memory)
    else
      let memory ← freeRecord record { memory with data }
      return (.error .networkFunction, memory)

/-- A list that is in memory. -/
def PeerInfoList.ofPeers (peers : List PeerInfo) : Option PeerInfoList :=
  if fits : peersMemory peers < 2 ^ 64 then some ⟨peers, fits⟩ else none

/-- From `peer_info_list_serialize` on. -/
def replyWithPeers (order : ByteOrder) (environment : RecordEnvironment) (memory : Memory PeerInfo)
    (list : PeerInfoList) : RecordExchange :=
  match peerListCommand environment.listGrants order list with
  | .error code => ⟨.error (.stop (.failure code)), memory, []⟩
  | .ok command =>
    match environment.unlock with
    | some error => ⟨.error (.mutex error), memory, []⟩
    | none =>
      match commandSendPeerListSerialize environment.frameGrants order command with
      | .error code => ⟨.error (.stop (.failure code)), memory, []⟩
      | .ok (buffer, _) =>
        let sending := sendAll environment.breaksAfter buffer
        ⟨sending.1.mapError .stop, memory, sending.2⟩

/-- From the second `time(NULL)` on. -/
def answerFromMemory (order : ByteOrder) (keepalive : UInt64) (printProgress : Bool)
    (environment : RecordEnvironment) (memory : Memory PeerInfo) (rounds : Nat) : Course RecordExchange := do
  match ← expirePeers keepalive environment.currentTime
    (fun node => (environment.removed node).printed printProgress) memory rounds with
  | .refused memory => return ⟨.error (.stop (.failure .networkFunction)), memory, []⟩
  | .ended memory =>
    let peers ← LinkedList.readLoop memory rounds memory.head
    let list ← .ofOption (PeerInfoList.ofPeers peers)
    return replyWithPeers order environment memory list

/-- From `linked_list_find` on, with the mutex locked. -/
def serveRecord (order : ByteOrder) (keepalive : UInt64) (printProgress : Bool) (environment : RecordEnvironment)
    (record : Nat) (memory : Memory PeerInfo) (rounds : Nat) : Course RecordExchange := do
  match ← enterRecord order printProgress environment record memory rounds with
  | (.error code, memory) => return ⟨.error (.stop (.failure code)), memory, []⟩
  | (.ok (), memory) => answerFromMemory order keepalive printProgress environment memory rounds

/-- `handle_one_peer_discovery_request` over its list in memory. -/
def handleInMemory (order : ByteOrder) (keepalive : UInt64) (printProgress : Bool)
    (environment : RecordEnvironment) (stream : Stream) (memory : Memory PeerInfo) (rounds : Nat) :
    Course RecordExchange :=
  match registerPeerCommand order environment.toDiscoveryEnvironment stream with
  | .error .undefined => .undefined
  | .error .blocked => .running
  | .error (.failure code) => .done ⟨.error (.stop (.failure code)), memory, []⟩
  | .ok command =>
    if !environment.peerInfo then
      .undefined
    else
      let record := memory.data.fresh
      let memory := withRecord memory ⟨command.listenAddr, environment.lastConnected⟩
      match environment.lock with
      | some error => do
        let memory ← freeRecord record memory
        return ⟨.error (.mutex error), memory, []⟩
      | none => serveRecord order keepalive printProgress environment record memory rounds

/-! ## One request and the list -/

/-- The peer has been given an entry of its own, or its entry has been renewed. -/
inductive Enters (peerInfo : PeerInfo) : List (Entry PeerInfo) → List (Entry PeerInfo) → Prop where
  | added {entries : List (Entry PeerInfo)} (node datum : Nat)
      (new : ∀ other ∈ entries, other.value.listenAddr ≠ peerInfo.listenAddr) :
      Enters peerInfo entries (⟨node, datum, peerInfo⟩ :: entries)
  | renewed {before after : List (Entry PeerInfo)} {found : Entry PeerInfo}
      (same : found.value.listenAddr = peerInfo.listenAddr)
      (others : ∀ earlier ∈ before, earlier.value.listenAddr ≠ peerInfo.listenAddr) :
      Enters peerInfo (before ++ found :: after) (before ++ { found with value := peerInfo } :: after)

/-- The first entry of the list points to a record that was there and is not. -/
def Dangling (memory : Memory PeerInfo) : Prop :=
  ∃ node datum next, memory.head = some node ∧ memory.nodes.object node = some ⟨datum, next⟩ ∧
    memory.data.object datum = none ∧ datum < memory.data.fresh

theorem Dangling.not_holds {memory : Memory PeerInfo} (dangling : Dangling memory) (entries : List (Entry PeerInfo)) :
    ¬ Holds memory entries := by
  obtain ⟨node, datum, next, head, first, gone, -⟩ := dangling
  intro holds
  cases entries with
  | nil => cases head.symm.trans holds.head_eq
  | cons entry rest =>
    have same : node = entry.node := Option.some.inj (head.symm.trans holds.head_eq)
    have there := holds.values entry List.mem_cons_self
    have begins : Holds memory ([] ++ entry :: rest) := holds
    rw [same, begins.node, Option.some.injEq, Node.mk.injEq] at first
    rw [first.1, gone] at there
    cases there

/-- The records of a list are there, their times are past and they are in memory. -/
structure Records (memory : Memory PeerInfo) (entries : List (Entry PeerInfo)) : Prop where
  holds : Holds memory entries
  past : ∀ entry ∈ entries, 0 ≤ entry.value.lastConnected.toInt
  fits : peersMemory (entries.map Entry.value) < 2 ^ 64

theorem records_empty : Records .empty [] := ⟨holds_empty, by simp, peersMemory_nil⟩

section Steps

variable {order : ByteOrder} {printProgress : Bool} {environment : RecordEnvironment} {memory : Memory PeerInfo}
  {entries before after : List (Entry PeerInfo)} {found : Entry PeerInfo} {peerInfo : PeerInfo} {record : Nat}

theorem Enters.past (enters : Enters peerInfo before after) (own : 0 ≤ peerInfo.lastConnected.toInt)
    (past : ∀ entry ∈ before, 0 ≤ entry.value.lastConnected.toInt) :
    ∀ entry ∈ after, 0 ≤ entry.value.lastConnected.toInt := by
  cases enters with
  | added node datum new => exact List.forall_mem_cons.mpr ⟨own, past⟩
  | renewed same others =>
    intro entry member
    rcases List.mem_append.mp member with earlier | later
    · exact past entry (by simp [earlier])
    · rcases List.mem_cons.mp later with rfl | later
      · exact own
      · exact past entry (by simp [later])

/-- Without the memory it is the list that `registerPeer` comes to. -/
theorem Enters.entered (enters : Enters peerInfo before after) :
    Entered peerInfo (before.map Entry.value) (after.map Entry.value) := by
  cases enters with
  | added node datum new => exact .prepended (by simpa using new)
  | renewed same others =>
    rw [List.map_append, List.map_append, List.map_cons, List.map_cons]
    exact .renewed same (by simpa using others)

theorem find_peer (order : ByteOrder) (peerInfo : PeerInfo) (entries : List (Entry PeerInfo)) :
    ((entries.find? fun entry => comparePeerInfoT order peerInfo entry.value = 0) = none ∧
      ∀ other ∈ entries, other.value.listenAddr ≠ peerInfo.listenAddr) ∨
    ∃ before found after, entries = before ++ found :: after ∧ found.value.listenAddr = peerInfo.listenAddr ∧
      (∀ earlier ∈ before, earlier.value.listenAddr ≠ peerInfo.listenAddr) ∧
      (entries.find? fun entry => comparePeerInfoT order peerInfo entry.value = 0) = some found := by
  cases searched : entries.find? fun entry => comparePeerInfoT order peerInfo entry.value = 0 with
  | none =>
    refine .inl ⟨rfl, fun other member same => ?_⟩
    have differs := List.find?_eq_none.mp searched other member
    rw [decide_eq_true_eq, comparePeerInfoT_eq_zero] at differs
    exact differs same.symm
  | some found =>
    obtain ⟨same, before, after, split, others⟩ := List.find?_eq_some_iff_append.mp searched
    rw [decide_eq_true_eq, comparePeerInfoT_eq_zero] at same
    refine .inr ⟨before, found, after, split, same.symm, fun earlier member equal => ?_, rfl⟩
    have differs := others earlier member
    rw [Bool.not_eq_true', decide_eq_false_iff_not, comparePeerInfoT_eq_zero] at differs
    exact differs equal.symm

theorem freeRecord_comesTo (holds : Holds memory entries) (live : memory.data.Live record)
    (own : record ∉ entries.map Entry.datum) :
    ∃ freed, freeRecord record memory = .done freed ∧ Holds freed entries := by
  obtain ⟨data, released, -, others, -, -⟩ := Store.release_of_live live
  refine ⟨{ memory with data }, by simp [freeRecord, released], ?_⟩
  refine holds.frame rfl (fun _ _ => rfl) fun entry member => others entry.datum fun same => own ?_
  exact same ▸ List.mem_map_of_mem member

theorem enterRecord_listed (holds : Holds memory (before ++ found :: after))
    (there : memory.data.object record = some peerInfo)
    (own : record ∉ (before ++ found :: after).map Entry.datum)
    (same : found.value.listenAddr = peerInfo.listenAddr)
    (first : ((before ++ found :: after).find? fun entry => comparePeerInfoT order peerInfo entry.value = 0) =
      some found) :
    ∃ renewed, ComesTo (enterRecord order printProgress environment record memory)
        (.done (if environment.updated.printed printProgress then .ok () else .error .networkFunction, renewed)) ∧
      Holds renewed (before ++ { found with value := peerInfo } :: after) := by
  obtain ⟨data, written, value, others, -, -⟩ := Store.write_of_live ⟨_, holds.datum⟩ peerInfo
  have renews : Holds { memory with data } (before ++ { found with value := peerInfo } :: after) :=
    holds.modify value others
  -- the record of the request is none of the list's, so the write does not touch it
  have different : record ≠ found.datum := fun equal => own (by simp [equal])
  have live : data.Live record := ⟨peerInfo, by rw [others record different, there]⟩
  have apart : record ∉ (before ++ { found with value := peerInfo } :: after).map Entry.datum := by simpa using own
  obtain ⟨freed, frees, kept⟩ := freeRecord_comesTo renews live apart
  refine ⟨freed, .bind (LinkedList.find_comesTo holds there) (.of_eq fun _ => ?_), kept⟩
  have update : (⟨found.value.listenAddr, peerInfo.lastConnected⟩ : PeerInfo) = peerInfo := by rw [same]
  rw [first]
  simp only [Option.map_some, holds.node, holds.datum, there, Course.ofOption_some, Course.done_bind, update,
    written, frees]
  split <;> rfl

section New

variable (holds : Holds memory entries) (there : memory.data.object record = some peerInfo)
  (missing : (entries.find? fun entry => comparePeerInfoT order peerInfo entry.value = 0) = none)

include holds there missing

theorem enterRecord_refused (refused : (environment.node && environment.room memory) = false)
    (own : record ∉ entries.map Entry.datum) :
    ∃ freed, ComesTo (enterRecord order printProgress environment record memory)
        (.done (.error .couldNotMalloc, freed)) ∧ Holds freed entries := by
  obtain ⟨freed, frees, kept⟩ := freeRecord_comesTo holds ⟨_, there⟩ own
  refine ⟨freed, .bind (LinkedList.find_comesTo holds there) (.of_eq fun _ => ?_), kept⟩
  simp [missing, LinkedList.prepend, refused, frees]

theorem enterRecord_added (granted : (environment.node && environment.room memory) = true)
    (named : environment.added.printed printProgress = true) (own : record ∉ entries.map Entry.datum) :
    ∃ added, ComesTo (enterRecord order printProgress environment record memory) (.done (.ok (), added)) ∧
      Holds added (⟨memory.nodes.fresh, record, peerInfo⟩ :: entries) := by
  have pushed := holds.push there fun entry member same => own (same ▸ List.mem_map_of_mem member)
  refine ⟨_, .bind (LinkedList.find_comesTo holds there) (.of_eq fun _ => ?_), pushed⟩
  simp [missing, LinkedList.prepend, granted, named]

theorem enterRecord_unnamed (granted : (environment.node && environment.room memory) = true)
    (unnamed : environment.added.printed printProgress = false) :
    ∃ dangling, ComesTo (enterRecord order printProgress environment record memory)
        (.done (.error .networkFunction, dangling)) ∧ Dangling dangling := by
  have live : memory.data.Live record := ⟨_, there⟩
  obtain ⟨data, released, gone, -, -, fresh⟩ := Store.release_of_live live
  -- the head points to a new node, and that to the record that has been freed
  let dangling : Memory PeerInfo := ⟨some memory.nodes.fresh, memory.nodes.allocate ⟨record, memory.head⟩, data⟩
  refine ⟨dangling, .bind (LinkedList.find_comesTo holds there) (.of_eq fun _ => ?_), memory.nodes.fresh, record,
    memory.head, rfl, Store.allocate_object_fresh _ _, gone, fresh ▸ live.lt_fresh⟩
  simp [missing, LinkedList.prepend, granted, unnamed, freeRecord, released, dangling]

end New

/-- Unless a new peer has no name, the list is the old one or has the peer's entry. -/
theorem enterRecord_comesTo (records : Records memory entries) (there : memory.data.object record = some peerInfo)
    (own : record ∉ entries.map Entry.datum) (past : 0 ≤ peerInfo.lastConnected.toInt)
    (spared : (∃ entry ∈ entries, entry.value.listenAddr = peerInfo.listenAddr) ∨
      (environment.node && environment.room memory) = false ∨ environment.added.printed printProgress = true) :
    ∃ outcome next entered, ComesTo (enterRecord order printProgress environment record memory)
        (.done (outcome, next)) ∧ Records next entered ∧
      (entered = entries ∨ Enters peerInfo entries entered) := by
  obtain ⟨missing, new⟩ | ⟨before, found, after, rfl, same, others, first⟩ := find_peer order peerInfo entries
  · cases granted : environment.node && environment.room memory with
    | false =>
      obtain ⟨freed, comes, kept⟩ := enterRecord_refused records.holds there missing granted own
      exact ⟨_, freed, entries, comes, ⟨kept, records.past, records.fits⟩, .inl rfl⟩
    | true =>
      -- there is room for a node, so only a name is left of what spares it
      have named : environment.added.printed printProgress = true := by
        rcases spared with ⟨entry, member, same⟩ | refused | named
        · exact absurd same (new entry member)
        · rw [granted] at refused
          cases refused
        · exact named
      obtain ⟨added, comes, kept⟩ := enterRecord_added records.holds there missing granted named own
      have enters : Enters peerInfo entries (⟨memory.nodes.fresh, record, peerInfo⟩ :: entries) := .added _ _ new
      have room : environment.room memory = true := by
        rw [Bool.and_eq_true] at granted
        exact granted.2
      refine ⟨_, added, _, comes, ⟨kept, enters.past past records.past, ?_⟩, .inr enters⟩
      rw [List.map_cons, peersMemory_cons]
      exact environment.bounded records.holds room
  · obtain ⟨renewed, comes, kept⟩ := enterRecord_listed records.holds there own same first
    have enters : Enters peerInfo (before ++ found :: after) (before ++ { found with value := peerInfo } :: after) :=
      .renewed same others
    refine ⟨_, renewed, _, comes, ⟨kept, enters.past past records.past, ?_⟩, .inr enters⟩
    exact peersMemory_of_length_le (by simp) records.fits

theorem replyWithPeers_memory (order : ByteOrder) (environment : RecordEnvironment) (memory : Memory PeerInfo)
    (list : PeerInfoList) : (replyWithPeers order environment memory list).memory = memory := by
  rw [replyWithPeers]
  split
  · rfl
  · split
    · rfl
    · split <;> rfl

theorem Records.dated (records : Records memory entries) (environment : RecordEnvironment) {entry : Entry PeerInfo}
    (member : entry ∈ entries) : Dated environment.currentTime entry.value := by
  have past := records.past entry member
  have now := environment.answeredPast
  have soon := environment.currentTime.toInt_lt
  have late := entry.value.lastConnected.toInt_lt
  rw [Dated]
  omega

theorem Records.part {next : Memory PeerInfo} {left : List (Entry PeerInfo)} (records : Records memory entries)
    (holds : Holds next left) (part : left.Sublist entries) : Records next left := by
  refine ⟨holds, fun entry member => records.past entry (part.subset member), ?_⟩
  exact peersMemory_of_length_le (by simpa using part.length_le) records.fits

theorem answerFromMemory_comesTo (order : ByteOrder) (keepalive : UInt64) (printProgress : Bool)
    (environment : RecordEnvironment) (records : Records memory entries) :
    ∃ exchange left, ComesTo (answerFromMemory order keepalive printProgress environment memory) (.done exchange) ∧
      Records exchange.memory left ∧ left.Sublist entries ∧
      (staying keepalive environment.currentTime entries).Sublist left := by
  cases expirePeers_cases keepalive environment.currentTime
    (fun node => (environment.removed node).printed printProgress) records.holds with
  | ended next ends holds =>
    have part : (staying keepalive environment.currentTime entries).Sublist entries := List.filter_sublist
    have left : Records next (staying keepalive environment.currentTime entries) := records.part holds part
    let list : PeerInfoList := ⟨_, left.fits⟩
    have listed : PeerInfoList.ofPeers ((staying keepalive environment.currentTime entries).map Entry.value) =
        some list := dif_pos left.fits
    refine ⟨replyWithPeers order environment next list, _,
      .bind ends (.bind (LinkedList.readLoop_comesTo holds) (.of_eq fun _ => ?_)), ?_, part, List.Sublist.refl _⟩
    · simp [listed]
    · rw [replyWithPeers_memory]
      exact left
  | refused next left refuses holds stays part =>
    exact ⟨_, left, .bind refuses (.of_eq fun _ => rfl), records.part holds part, part, stays⟩
  | undefined breaks entry member undated => exact absurd (records.dated environment member) undated

theorem serveRecord_comesTo (order : ByteOrder) (keepalive : UInt64) (printProgress : Bool)
    (environment : RecordEnvironment) (records : Records memory entries)
    (there : memory.data.object record = some peerInfo) (own : record ∉ entries.map Entry.datum)
    (past : 0 ≤ peerInfo.lastConnected.toInt)
    (spared : (∃ entry ∈ entries, entry.value.listenAddr = peerInfo.listenAddr) ∨
      (environment.node && environment.room memory) = false ∨ environment.added.printed printProgress = true) :
    ∃ exchange left entered,
      ComesTo (serveRecord order keepalive printProgress environment record memory) (.done exchange) ∧
      Records exchange.memory left ∧ (entered = entries ∨ Enters peerInfo entries entered) ∧ left.Sublist entered ∧
      (staying keepalive environment.currentTime entered).Sublist left := by
  obtain ⟨outcome, next, entered, enters, kept, changed⟩ := enterRecord_comesTo records there own past spared
  cases outcome with
  | error code =>
    -- nothing is answered, and no entry is looked at for its age
    exact ⟨_, entered, entered, .bind enters (.of_eq fun _ => rfl), kept, changed, List.Sublist.refl _,
      List.filter_sublist⟩
  | ok done =>
    obtain ⟨exchange, left, answers, remains, part, stays⟩ :=
      answerFromMemory_comesTo order keepalive printProgress environment kept
    exact ⟨exchange, left, entered, .bind enters answers, remains, changed, part, stays⟩

end Steps

/-! ## Requests -/

structure RecordRequest where
  environment : RecordEnvironment
  stream : Stream

/-- The memory when the record of a request is filled in. -/
def RecordRequest.allocated (request : RecordRequest) (memory : Memory PeerInfo) (address : SockaddrIn6) :
    Memory PeerInfo :=
  withRecord memory ⟨address, request.environment.lastConnected⟩

/-- The receive buffer, if there is one, grows for what is announced and the record is granted, and no
name is missing of a peer that has just been put into the list. -/
structure Spared (printProgress : Bool) (memory : Memory PeerInfo) (request : RecordRequest) : Prop where
  grows : request.environment.receive.calloc = true →
    ∀ header, Announces .handleOnePeerDiscoveryRequest request.stream header →
      GrowsBuffer .handleOnePeerDiscoveryRequest request.environment.receive header.commandLen
  granted : ∀ address, Registers request.stream address → request.environment.peerInfo = true
  named : ∀ address, Registers request.stream address →
    request.environment.lock.isSome = true ∨
    (∃ entries, Holds memory entries ∧ ∃ entry ∈ entries, entry.value.listenAddr = address) ∨
    (request.environment.node && request.environment.room (request.allocated memory address)) = false ∨
    request.environment.added.printed printProgress = true

/-- What a request does to the list: nothing; or the peer's entry is renewed or added and some of the
entries that have expired are taken out. -/
def Touches (keepalive : UInt64) (request : RecordRequest) (before after : List (Entry PeerInfo)) : Prop :=
  after = before ∨ ∃ address entered, Registers request.stream address ∧
    (entered = before ∨ Enters ⟨address, request.environment.lastConnected⟩ before entered) ∧
    after.Sublist entered ∧ (staying keepalive request.environment.currentTime entered).Sublist after

section Requests

variable {order : ByteOrder} {keepalive : UInt64} {printProgress : Bool} {memory : Memory PeerInfo}
  {entries : List (Entry PeerInfo)} {request : RecordRequest}

theorem handleInMemory_eq {environment : RecordEnvironment} {stream : Stream} {command : CommandRegisterPeer}
    (keepalive : UInt64) (printProgress : Bool) (memory : Memory PeerInfo)
    (taken : registerPeerCommand order environment.toDiscoveryEnvironment stream = .ok command)
    (granted : environment.peerInfo = true) (locks : environment.lock = none) :
    handleInMemory order keepalive printProgress environment stream memory =
      serveRecord order keepalive printProgress environment memory.data.fresh
        (withRecord memory ⟨command.listenAddr, environment.lastConnected⟩) := by
  funext rounds
  simp only [handleInMemory, taken, granted, locks, Bool.not_true, Bool.false_eq_true, if_false]

theorem withRecord_own (holds : Holds memory entries) : memory.data.fresh ∉ entries.map Entry.datum := by
  intro listed
  obtain ⟨entry, member, same⟩ := List.mem_map.mp listed
  exact holds.datum_ne_fresh member same

theorem Records.withRecord (records : Records memory entries) (peerInfo : PeerInfo) :
    Records (withRecord memory peerInfo) entries :=
  ⟨records.holds.allocate peerInfo, records.past, records.fits⟩

/-- A request that is spared comes to an end, if it is received, and leaves a list of records that are there. -/
theorem handleInMemory_comesTo (order : ByteOrder) (keepalive : UInt64) (records : Records memory entries)
    (spared : Spared printProgress memory request) :
    (registerPeerCommand order request.environment.toDiscoveryEnvironment request.stream = .error .blocked ∧
      ComesTo (handleInMemory order keepalive printProgress request.environment request.stream memory) .running) ∨
    ∃ exchange left, ComesTo (handleInMemory order keepalive printProgress request.environment request.stream memory)
        (.done exchange) ∧
      Records exchange.memory left ∧ Touches keepalive request entries left := by
  cases taken : registerPeerCommand order request.environment.toDiscoveryEnvironment request.stream with
  | error stop =>
    cases stop with
    | failure code =>
      refine .inr ⟨⟨.error (.stop (.failure code)), memory, []⟩, entries, .of_eq fun _ => ?_, records, .inl rfl⟩
      rw [handleInMemory, taken]
    | blocked =>
      refine .inl ⟨rfl, .of_eq fun _ => ?_⟩
      rw [handleInMemory, taken]
    | undefined => exact absurd taken (registerPeerCommand_defined spared.grows)
  | ok command =>
    have registers := registers_of_registerPeerCommand taken
    have granted := spared.granted _ registers
    let peerInfo : PeerInfo := ⟨command.listenAddr, request.environment.lastConnected⟩
    have filled := records.withRecord peerInfo
    have there : (withRecord memory peerInfo).data.object memory.data.fresh = some peerInfo :=
      Store.allocate_object_fresh _ _
    have own := withRecord_own records.holds
    cases locked : request.environment.lock with
    | some error =>
      obtain ⟨freed, frees, kept⟩ := freeRecord_comesTo filled.holds ⟨_, there⟩ own
      refine .inr ⟨⟨.error (.mutex error), freed, []⟩, entries, .of_eq fun _ => ?_,
        ⟨kept, records.past, records.fits⟩, .inl rfl⟩
      simp only [handleInMemory, taken, granted, locked, Bool.not_true, Bool.false_eq_true, if_false]
      rw [frees]
      rfl
    | none =>
      -- the memory holds one list only, so the peer that is listed is listed here
      have named : (∃ entry ∈ entries, entry.value.listenAddr = peerInfo.listenAddr) ∨
          (request.environment.node && request.environment.room (withRecord memory peerInfo)) = false ∨
          request.environment.added.printed printProgress = true := by
        rcases spared.named _ registers with failed | ⟨others, holds, listed⟩ | refused | named
        · rw [locked] at failed
          cases failed
        · rw [holds.unique records.holds] at listed
          exact .inl listed
        · exact .inr (.inl refused)
        · exact .inr (.inr named)
      obtain ⟨exchange, left, entered, comes, remains, changed, part, stays⟩ :=
        serveRecord_comesTo order keepalive printProgress request.environment filled there own
          request.environment.registeredPast named
      rw [handleInMemory_eq keepalive printProgress memory taken granted locked]
      exact .inr ⟨exchange, left, comes, remains, .inr ⟨command.listenAddr, entered, registers, changed, part, stays⟩⟩

end Requests

/-! ## Names that are found -/

/-- Every name that is looked up to be printed is found. -/
structure RecordEnvironment.Named (environment : RecordEnvironment) (printProgress : Bool) : Prop where
  added : environment.added.printed printProgress = true
  updated : environment.updated.printed printProgress = true
  removed : ∀ node, (environment.removed node).printed printProgress = true

section Named

variable {order : ByteOrder} {keepalive : UInt64} {printProgress : Bool} {environment : RecordEnvironment}
  {memory : Memory PeerInfo} {entries : List (Entry PeerInfo)} {peerInfo : PeerInfo} {record : Nat}

/-- Then the peer is entered, or there is no room for it. -/
theorem enterRecord_named (named : environment.Named printProgress) (records : Records memory entries)
    (there : memory.data.object record = some peerInfo) (own : record ∉ entries.map Entry.datum)
    (past : 0 ≤ peerInfo.lastConnected.toInt) :
    (∃ code freed, ComesTo (enterRecord order printProgress environment record memory) (.done (.error code, freed)) ∧
      Records freed entries) ∨
    ∃ next entered, ComesTo (enterRecord order printProgress environment record memory) (.done (.ok (), next)) ∧
      Records next entered ∧ Enters peerInfo entries entered := by
  obtain ⟨missing, new⟩ | ⟨before, found, after, rfl, same, others, first⟩ := find_peer order peerInfo entries
  · cases granted : environment.node && environment.room memory with
    | false =>
      obtain ⟨freed, comes, kept⟩ := enterRecord_refused records.holds there missing granted own
      exact .inl ⟨_, freed, comes, kept, records.past, records.fits⟩
    | true =>
      obtain ⟨added, comes, kept⟩ := enterRecord_added records.holds there missing granted named.added own
      have enters : Enters peerInfo entries (⟨memory.nodes.fresh, record, peerInfo⟩ :: entries) := .added _ _ new
      refine .inr ⟨added, _, comes, ⟨kept, enters.past past records.past, ?_⟩, enters⟩
      rw [List.map_cons, peersMemory_cons]
      exact environment.bounded records.holds (Bool.and_eq_true_iff.mp granted).2
  · obtain ⟨renewed, comes, kept⟩ := enterRecord_listed records.holds there own same first
    rw [if_pos named.updated] at comes
    have enters : Enters peerInfo (before ++ found :: after) (before ++ { found with value := peerInfo } :: after) :=
      .renewed same others
    refine .inr ⟨renewed, _, comes, ⟨kept, enters.past past records.past, ?_⟩, enters⟩
    exact peersMemory_of_length_le (by simp) records.fits

theorem replyWithPeers_sent (order : ByteOrder) (environment : RecordEnvironment) (memory : Memory PeerInfo)
    (list : PeerInfoList) : (replyWithPeers order environment memory list).sent <+: peerListMessage list := by
  rw [replyWithPeers]
  split
  · exact List.nil_prefix
  next command filled =>
    split
    · exact List.nil_prefix
    · split
      · exact List.nil_prefix
      next buffer size framed =>
        rw [← peerListMessage_of_serialize filled framed]
        exact sendAll_prefix environment.breaksAfter buffer

/-- Then the list is left with the entries that have not expired, and what is sent begins its message. -/
theorem answerFromMemory_named (order : ByteOrder) (keepalive : UInt64) (named : environment.Named printProgress)
    (records : Records memory entries) :
    ∃ exchange list, ComesTo (answerFromMemory order keepalive printProgress environment memory) (.done exchange) ∧
      Records exchange.memory (staying keepalive environment.currentTime entries) ∧
      list.peers = (staying keepalive environment.currentTime entries).map Entry.value ∧
      exchange.sent <+: peerListMessage list := by
  cases expirePeers_cases keepalive environment.currentTime
    (fun node => (environment.removed node).printed printProgress) records.holds with
  | ended next ends holds =>
    have left : Records next (staying keepalive environment.currentTime entries) :=
      records.part holds List.filter_sublist
    let list : PeerInfoList := ⟨_, left.fits⟩
    have listed : PeerInfoList.ofPeers ((staying keepalive environment.currentTime entries).map Entry.value) =
        some list := dif_pos left.fits
    refine ⟨replyWithPeers order environment next list, list,
      .bind ends (.bind (LinkedList.readLoop_comesTo holds) (.of_eq fun _ => ?_)), ?_, rfl, replyWithPeers_sent _ _ _ _⟩
    · simp [listed]
    · rwa [replyWithPeers_memory]
  | refused next left refuses holds stays part entry member fails =>
    exact absurd ⟨records.dated environment member, fun _ => named.removed entry.node⟩ fails
  | undefined breaks entry member undated => exact absurd (records.dated environment member) undated

end Named

/-! ## Without its memory

With printing off and a mutex that works, a request does to the list in memory what
`handleOnePeerDiscoveryRequest` does to the list of its values. -/

section Values

variable {order : ByteOrder} {keepalive : UInt64} {environment : RecordEnvironment} {memory : Memory PeerInfo}
  {entries before after : List (Entry PeerInfo)} {found : Entry PeerInfo} {peerInfo : PeerInfo} {node : Bool}

theorem linkedListFind_missing {α : Type} {compareFunction : α → α → Int} {data : α} {list : List α}
    (differs : ∀ other ∈ list, compareFunction data other ≠ 0) : linkedListFind compareFunction data list = none := by
  induction list with
  | nil => rfl
  | cons first rest ih =>
    obtain ⟨other, others⟩ := List.forall_mem_cons.mp differs
    simp [linkedListFind, other, ih others]

theorem linkedListFind_split {α : Type} {compareFunction : α → α → Int} {data found : α} {before after : List α}
    (differs : ∀ earlier ∈ before, compareFunction data earlier ≠ 0) (same : compareFunction data found = 0) :
    linkedListFind compareFunction data (before ++ found :: after) = some before.length := by
  induction before with
  | nil => simp [linkedListFind, same]
  | cons first rest ih =>
    obtain ⟨other, others⟩ := List.forall_mem_cons.mp differs
    simp [linkedListFind, other, ih others]

/-- The node that `linked_list_find` comes to is the one at the position that it has among the values. -/
theorem find_position {compareFunction : PeerInfo → PeerInfo → Int} {record : Nat} (holds : Holds memory entries)
    (there : memory.data.object record = some peerInfo) :
    ComesTo (LinkedList.find (some compareFunction) record memory)
      (.done (.ok ((linkedListFind compareFunction peerInfo (entries.map Entry.value)).bind
        fun position => entries[position]?.map Entry.node))) := by
  have positions : (entries.find? fun entry => compareFunction peerInfo entry.value = 0).map Entry.node =
      (linkedListFind compareFunction peerInfo (entries.map Entry.value)).bind
        fun position => entries[position]?.map Entry.node := by
    clear holds
    induction entries with
    | nil => rfl
    | cons first rest ih =>
      by_cases same : compareFunction peerInfo first.value = 0
      · simp [linkedListFind, same]
      · simpa [linkedListFind, same, Option.bind_map, Function.comp_def] using ih
  rw [← positions]
  exact LinkedList.find_comesTo holds there

theorem registerPeer_listed (order : ByteOrder) (node : Bool) (list : PeerInfoList)
    (listed : list.peers = (before ++ found :: after).map Entry.value)
    (same : found.value.listenAddr = peerInfo.listenAddr)
    (others : ∀ earlier ∈ before, earlier.value.listenAddr ≠ peerInfo.listenAddr) :
    ∃ registered, registerPeer order node list peerInfo = .ok registered ∧
      registered.peers = (before ++ { found with value := peerInfo } :: after).map Entry.value := by
  rw [List.map_append, List.map_cons] at listed
  have position : linkedListFind (comparePeerInfoT order) peerInfo list.peers = some before.length := by
    rw [listed, linkedListFind_split ?_ (comparePeerInfoT_eq_zero.mpr same.symm), List.length_map]
    intro earlier member equal
    obtain ⟨entry, listed, rfl⟩ := List.mem_map.mp member
    exact others entry listed (comparePeerInfoT_eq_zero.mp equal).symm
  refine ⟨list.renew before.length peerInfo.lastConnected, by rw [registerPeer, position], ?_⟩
  show list.peers.modify _ _ = _
  rw [listed, ← List.length_map (f := Entry.value), modify_append_cons, same]
  simp

theorem registerPeer_new (order : ByteOrder) {list : PeerInfoList} (listed : list.peers = entries.map Entry.value)
    (new : ∀ other ∈ entries, other.value.listenAddr ≠ peerInfo.listenAddr) :
    registerPeer order node list peerInfo = if node then list.prepend peerInfo else .error .couldNotMalloc := by
  have missing : linkedListFind (comparePeerInfoT order) peerInfo list.peers = none := by
    refine linkedListFind_missing fun other member equal => ?_
    rw [listed] at member
    obtain ⟨entry, present, rfl⟩ := List.mem_map.mp member
    exact new entry present (comparePeerInfoT_eq_zero.mp equal).symm
  rw [registerPeer, missing]

/-- Entering a record is registering its peer, with the node that there is room for. -/
theorem enterRecord_refines (order : ByteOrder) (environment : RecordEnvironment) {record : Nat}
    (records : Records memory entries)
    (there : memory.data.object record = some peerInfo) (own : record ∉ entries.map Entry.datum)
    (past : 0 ≤ peerInfo.lastConnected.toInt) (list : PeerInfoList) (listed : list.peers = entries.map Entry.value) :
    (∃ code freed, ComesTo (enterRecord order false environment record memory) (.done (.error code, freed)) ∧
      Holds freed entries ∧
      registerPeer order (environment.node && environment.room memory) list peerInfo = .error code) ∨
    ∃ next entered registered, ComesTo (enterRecord order false environment record memory) (.done (.ok (), next)) ∧
      Records next entered ∧ registered.peers = entered.map Entry.value ∧
      registerPeer order (environment.node && environment.room memory) list peerInfo = .ok registered := by
  obtain ⟨missing, new⟩ | ⟨before, found, after, rfl, same, others, first⟩ := find_peer order peerInfo entries
  · rw [registerPeer_new order listed new]
    cases room : environment.node && environment.room memory with
    | false =>
      obtain ⟨freed, comes, kept⟩ := enterRecord_refused records.holds there missing room own
      exact .inl ⟨_, freed, comes, kept, rfl⟩
    | true =>
      have named : environment.added.printed false = true := rfl
      obtain ⟨added, comes, kept⟩ := enterRecord_added records.holds there missing room named own
      have enters : Enters peerInfo entries (⟨memory.nodes.fresh, record, peerInfo⟩ :: entries) := .added _ _ new
      have fits : peersMemory (peerInfo :: entries.map Entry.value) < 2 ^ 64 := by
        rw [peersMemory_cons]
        exact environment.bounded records.holds (Bool.and_eq_true_iff.mp room).2
      have fitsList : peersMemory (peerInfo :: list.peers) < 2 ^ 64 := by rwa [listed]
      have prepended : list.prepend peerInfo = .ok ⟨peerInfo :: list.peers, fitsList⟩ := dif_pos fitsList
      refine .inr ⟨added, _, _, comes, ⟨kept, enters.past past records.past, fits⟩, ?_, prepended⟩
      simp [listed]
  · obtain ⟨renewed, comes, kept⟩ := enterRecord_listed records.holds there own same first
    obtain ⟨registered, registers, listed⟩ :=
      registerPeer_listed order (environment.node && environment.room memory) list listed same others
    have enters : Enters peerInfo (before ++ found :: after) (before ++ { found with value := peerInfo } :: after) :=
      .renewed same others
    have next : Records renewed (before ++ { found with value := peerInfo } :: after) :=
      ⟨kept, enters.past past records.past, peersMemory_of_length_le (by simp) records.fits⟩
    exact .inr ⟨renewed, _, registered, comes, next, listed, registers⟩

/-- What a request has come to in memory is what it comes to over the values. -/
structure Mirrors (exchange : RecordExchange) (left : List (Entry PeerInfo)) (plain : DiscoveryExchange) : Prop where
  holds : Holds exchange.memory left
  list : left.map Entry.value = plain.list.peers
  outcome : exchange.outcome = plain.outcome.mapError .stop
  sent : exchange.sent = plain.sent

theorem answerFromMemory_refines (order : ByteOrder) (keepalive : UInt64) (unlocks : environment.unlock = none)
    (records : Records memory entries) (list : PeerInfoList) (listed : list.peers = entries.map Entry.value)
    (node : Bool) :
    ∃ exchange left, ComesTo (answerFromMemory order keepalive false environment memory) (.done exchange) ∧
      Mirrors exchange left
        (answerWithPeers order keepalive { environment.toDiscoveryEnvironment with node } list) := by
  have dated (entry : Entry PeerInfo) (member : entry ∈ entries) : Dated environment.currentTime entry.value :=
    records.dated environment member
  cases expirePeers_cases keepalive environment.currentTime (fun node => (environment.removed node).printed false)
    records.holds with
  | ended next ends holds =>
    obtain ⟨active, unlinked, kept⟩ := unlinkExpiredPeers_eq (peerExpired keepalive environment.currentTime) list
    have same : (staying keepalive environment.currentTime entries).map Entry.value = active.peers := by
      rw [kept, listed, List.filter_map]
      rfl
    have read : PeerInfoList.ofPeers ((staying keepalive environment.currentTime entries).map Entry.value) =
        some active := by
      rw [same]
      exact dif_pos active.fits
    have defined : ¬ (list.peers.any fun peer => !decide (Dated environment.currentTime peer)) = true := by
      rw [listed]
      simpa using dated
    refine ⟨replyWithPeers order environment next active, staying keepalive environment.currentTime entries,
      .bind ends (.bind (LinkedList.readLoop_comesTo holds) (.of_eq fun _ => by simp [read])), ?_⟩
    simp only [answerWithPeers, if_neg defined, unlinked, replyWithPeers, unlocks]
    cases peerListCommand environment.listGrants order active with
    | error code => exact ⟨holds, same, rfl, rfl⟩
    | ok command =>
      dsimp only
      cases commandSendPeerListSerialize environment.frameGrants order command with
      | error code => exact ⟨holds, same, rfl, rfl⟩
      | ok framed => exact ⟨holds, same, rfl, rfl⟩
  | refused next left refuses holds stays part entry member fails =>
    exact absurd ⟨dated entry member, fun _ => rfl⟩ fails
  | undefined breaks entry member undated => exact absurd (dated entry member) undated

/-- A registration in memory is the one over the values, with the node that there is room for. -/
theorem handleInMemory_refines {command : CommandRegisterPeer} {stream : Stream} (keepalive : UInt64)
    (locks : environment.lock = none) (unlocks : environment.unlock = none) (granted : environment.peerInfo = true)
    (records : Records memory entries)
    (taken : registerPeerCommand order environment.toDiscoveryEnvironment stream = .ok command) :
    ∃ exchange left, ComesTo (handleInMemory order keepalive false environment stream memory) (.done exchange) ∧
      Mirrors exchange left (handleOnePeerDiscoveryRequest order keepalive
        { environment.toDiscoveryEnvironment with
          node := environment.node &&
            environment.room (withRecord memory ⟨command.listenAddr, environment.lastConnected⟩) }
        ⟨entries.map Entry.value, records.fits⟩ stream) := by
  let peerInfo : PeerInfo := ⟨command.listenAddr, environment.lastConnected⟩
  have filled := records.withRecord peerInfo
  have there : (withRecord memory peerInfo).data.object memory.data.fresh = some peerInfo :=
    Store.allocate_object_fresh _ _
  have own := withRecord_own records.holds
  rw [handleInMemory_eq keepalive false memory taken granted locks]
  let plain : DiscoveryEnvironment :=
    { environment.toDiscoveryEnvironment with
      node := environment.node && environment.room (withRecord memory peerInfo) }
  have grantedPlain : plain.peerInfo = true := granted
  have takenPlain : registerPeerCommand order plain stream = .ok command := taken
  show ∃ exchange left, ComesTo _ (.done exchange) ∧ Mirrors exchange left
    (handleOnePeerDiscoveryRequest order keepalive plain ⟨entries.map Entry.value, records.fits⟩ stream)
  obtain ⟨code, freed, comes, kept, refuses⟩ | ⟨next, entered, registered, comes, left, listed, registers⟩ :=
    enterRecord_refines order environment filled there own environment.registeredPast ⟨_, records.fits⟩ rfl
  · rw [handleOnePeerDiscoveryRequest_refused grantedPlain takenPlain refuses]
    exact ⟨_, entries, .bind comes (.of_eq fun _ => rfl), kept, rfl, rfl, rfl⟩
  · obtain ⟨exchange, left, answers, mirrors⟩ :=
      answerFromMemory_refines order keepalive unlocks left registered listed plain.node
    rw [handleOnePeerDiscoveryRequest_entered grantedPlain takenPlain registers]
    exact ⟨exchange, left, .bind comes answers, mirrors⟩

end Values

/-! ## Runs -/

/-- The server between two requests, or after something undefined. -/
inductive PeerServer where
  | serving (memory : Memory PeerInfo) : PeerServer
  | undefined : PeerServer

inductive RecordStep (order : ByteOrder) (keepalive : UInt64) (printProgress : Bool) :
    PeerServer → RecordRequest → PeerServer → Prop where
  | returned {memory : Memory PeerInfo} {request : RecordRequest} {exchange : RecordExchange}
      (returns : ComesTo (handleInMemory order keepalive printProgress request.environment request.stream memory)
        (.done exchange)) :
      RecordStep order keepalive printProgress (.serving memory) request (.serving exchange.memory)
  | undefined {memory : Memory PeerInfo} {request : RecordRequest}
      (breaks : ComesTo (handleInMemory order keepalive printProgress request.environment request.stream memory)
        .undefined) :
      RecordStep order keepalive printProgress (.serving memory) request .undefined

def SparedServer (printProgress : Bool) (server : PeerServer) (request : RecordRequest) : Prop :=
  ∀ memory, server = .serving memory → Spared printProgress memory request

/-- The server is serving a list of records that are there. -/
def Serving (server : PeerServer) : Prop := ∃ memory entries, server = .serving memory ∧ Records memory entries

section Runs

variable {order : ByteOrder} {keepalive : UInt64} {printProgress : Bool} {before after : PeerServer}
  {request : RecordRequest}

theorem RecordStep.serves {memory : Memory PeerInfo} {entries : List (Entry PeerInfo)}
    (taken : RecordStep order keepalive printProgress (.serving memory) request after)
    (records : Records memory entries) (spared : Spared printProgress memory request) :
    ∃ next left, after = .serving next ∧ Records next left ∧ Touches keepalive request entries left := by
  have comes := handleInMemory_comesTo order keepalive records spared
  cases taken with
  | @returned _ _ exchange returns =>
    rcases comes with ⟨-, runs⟩ | ⟨other, left, done, remains, touches⟩
    · cases returns.unique runs
    · obtain rfl := Course.done.inj (returns.unique done)
      exact ⟨exchange.memory, left, rfl, remains, touches⟩
  | undefined breaks =>
    rcases comes with ⟨-, runs⟩ | ⟨other, left, done, -⟩
    · cases breaks.unique runs
    · cases breaks.unique done

theorem serving_of_run {requests : List RecordRequest} {server : PeerServer}
    (run : Run (Guarded (RecordStep order keepalive printProgress) (SparedServer printProgress)) (.serving .empty)
      requests server) : Serving server := by
  refine run.invariant Serving ⟨.empty, [], rfl, records_empty⟩ ?_
  rintro _ request after ⟨memory, entries, rfl, records⟩ ⟨spared, taken⟩
  obtain ⟨next, left, rfl, remains, -⟩ := taken.serves records (spared memory rfl)
  exact ⟨next, left, rfl, remains⟩

end Runs

/-- In every run of spared requests the list leads to records that are there, every record is freed at most once
and no request does more to the list than it should. -/
theorem handle_one_peer_discovery_request_keeps_records (order : ByteOrder) (keepalive : UInt64)
    (printProgress : Bool) {requests : List RecordRequest} {before after : PeerServer} {request : RecordRequest}
    (run : Run (Guarded (RecordStep order keepalive printProgress) (SparedServer printProgress)) (.serving .empty)
      requests before)
    (spared : SparedServer printProgress before request)
    (taken : RecordStep order keepalive printProgress before request after) :
    ∃ memory entries next left, before = .serving memory ∧ Holds memory entries ∧ after = .serving next ∧
      Holds next left ∧ next.data.released.Nodup ∧ (∀ entry ∈ left, entry.datum ∉ next.data.released) ∧
      Touches keepalive request entries left := by
  obtain ⟨memory, entries, rfl, records⟩ := serving_of_run run
  obtain ⟨next, left, rfl, remains, touches⟩ := taken.serves records (spared memory rfl)
  refine ⟨memory, entries, next, left, rfl, records.holds, rfl, remains.holds, next.data.once, fun entry member => ?_,
    touches⟩
  -- what has been released is not there, and the list's records are
  rw [next.data.accounted, remains.holds.values entry member]
  simp

/-! ## A peer without a name -/

section Unnamed

variable {order : ByteOrder} {printProgress : Bool} {environment : RecordEnvironment} {stream : Stream}
  {memory : Memory PeerInfo} {entries : List (Entry PeerInfo)} {command : CommandRegisterPeer}

/-- A new peer that is put into the list and not named leaves its entry dangling. -/
theorem handleInMemory_unnamed (keepalive : UInt64) (printProgress : Bool)
    (taken : registerPeerCommand order environment.toDiscoveryEnvironment stream = .ok command)
    (granted : environment.peerInfo = true) (locks : environment.lock = none) (holds : Holds memory entries)
    (new : ∀ other ∈ entries, other.value.listenAddr ≠ command.listenAddr)
    (room : (environment.node &&
      environment.room (withRecord memory ⟨command.listenAddr, environment.lastConnected⟩)) = true)
    (unnamed : environment.added.printed printProgress = false) :
    ∃ exchange, ComesTo (handleInMemory order keepalive printProgress environment stream memory) (.done exchange) ∧
      Dangling exchange.memory := by
  let peerInfo : PeerInfo := ⟨command.listenAddr, environment.lastConnected⟩
  have there : (withRecord memory peerInfo).data.object memory.data.fresh = some peerInfo :=
    Store.allocate_object_fresh _ _
  have missing : (entries.find? fun entry => comparePeerInfoT order peerInfo entry.value = 0) = none := by
    refine List.find?_eq_none.mpr fun other member equal => new other member ?_
    rw [decide_eq_true_eq, comparePeerInfoT_eq_zero] at equal
    exact equal.symm
  obtain ⟨dangling, comes, dangles⟩ := enterRecord_unnamed (holds.allocate peerInfo) there missing room unnamed
  refine ⟨⟨.error (.stop (.failure .networkFunction)), dangling, []⟩, ?_, dangles⟩
  rw [handleInMemory_eq keepalive printProgress memory taken granted locks]
  exact .bind comes (.of_eq fun _ => rfl)

/-- The next registration is compared with the record that was freed. -/
theorem handleInMemory_dangling (keepalive : UInt64)
    (taken : registerPeerCommand order environment.toDiscoveryEnvironment stream = .ok command)
    (granted : environment.peerInfo = true) (locks : environment.lock = none) (dangling : Dangling memory) :
    ComesTo (handleInMemory order keepalive printProgress environment stream memory) .undefined := by
  obtain ⟨node, datum, next, head, first, gone, earlier⟩ := dangling
  let peerInfo : PeerInfo := ⟨command.listenAddr, environment.lastConnected⟩
  have there : (withRecord memory peerInfo).data.object memory.data.fresh = some peerInfo :=
    Store.allocate_object_fresh _ _
  -- the new record does not come to lie where the old one was
  have still : (withRecord memory peerInfo).data.object datum = none := by
    rw [← gone]
    exact Function.update_of_ne (Nat.ne_of_lt earlier) _ _
  have round (rounds : Nat) : LinkedList.findLoop (comparePeerInfoT order) memory.data.fresh
      (withRecord memory peerInfo) (rounds + 1) (some node) = .undefined := by
    have first : (withRecord memory peerInfo).nodes.object node = some ⟨datum, next⟩ := first
    simp [LinkedList.findLoop, first, there, still]
  have compares : ComesTo (LinkedList.find (some (comparePeerInfoT order)) memory.data.fresh
      (withRecord memory peerInfo)) .undefined := by
    have head : (withRecord memory peerInfo).head = some node := head
    refine .bind_undefined ?_
    rw [head]
    exact .of_succ round (.of_eq fun _ => rfl)
  rw [handleInMemory_eq keepalive printProgress memory taken granted locks]
  exact .bind_undefined (.bind_undefined compares)

end Unnamed

/-- Nothing is refused, but what is said of the names of new peers. -/
def RecordEnvironment.ideal (added : Lookup) : RecordEnvironment where
  toDiscoveryEnvironment := .ideal 100 101
  room memory := memory.head.isNone
  lock := none
  unlock := none
  added := added
  updated := ⟨true, true⟩
  removed _ := ⟨true, true⟩
  bounded {memory entries} holds empty := by
    rw [holds.head_eq] at empty
    cases entries with
    | nil => decide
    | cons entry rest => cases empty
  registeredPast := by decide
  answeredPast := by decide

/-- An address of no family, which has no name. -/
def unnamedAddress : SockaddrIn6 := ⟨0, 44444, 0, .replicate 16 0, 0⟩

def unnamedRequest : RecordRequest := ⟨.ideal ⟨false, false⟩, .chunk (registerMessage unnamedAddress) .closed⟩

def namedRequest : RecordRequest := ⟨.ideal ⟨true, true⟩, .chunk (registerMessage sampleAddress) .closed⟩

theorem ideal_taken (added : Lookup) (address : SockaddrIn6) :
    ∃ command, registerPeerCommand .littleEndian (RecordEnvironment.ideal added).toDiscoveryEnvironment
        (.chunk (registerMessage address) .closed) = .ok command ∧ command.listenAddr = address := by
  have delivered : (Stream.chunk (registerMessage address) .closed).contents = registerMessage address :=
    List.append_nil _
  refine registerPeerCommand_registers .littleEndian rfl (fun header announced => ?_)
    (registers_registerMessage delivered)
  obtain rfl := header_of_registerMessage delivered announced
  exact (growsBuffer_plenty_iff _ _).mpr (by decide)

theorem namedRequest_spared (memory : Memory PeerInfo) : Spared true memory namedRequest := by
  have delivered : namedRequest.stream.contents = registerMessage sampleAddress := List.append_nil _
  refine ⟨fun _ header announced => ?_, fun _ _ => rfl, fun _ _ => .inr (.inr (.inr rfl))⟩
  obtain rfl := header_of_registerMessage delivered announced
  exact (growsBuffer_plenty_iff _ _).mpr (by decide)

theorem namedRequest_step {memory : Memory PeerInfo} {entries : List (Entry PeerInfo)}
    (records : Records memory entries) :
    ∃ next left, RecordStep .littleEndian 60000000 true (.serving memory) namedRequest (.serving next) ∧
      Records next left := by
  obtain ⟨command, taken, -⟩ := ideal_taken ⟨true, true⟩ sampleAddress
  rcases handleInMemory_comesTo .littleEndian 60000000 records (namedRequest_spared memory) with
    ⟨blocked, -⟩ | ⟨exchange, left, returns, remains, -⟩
  · cases taken.symm.trans blocked
  · exact ⟨exchange.memory, left, .returned returns, remains⟩

/-- A peer with a name is put into the empty list, and asks again. -/
theorem handle_one_peer_discovery_request_keeps_records_sample :
    ∃ between after, Run (Guarded (RecordStep .littleEndian 60000000 true) (SparedServer true)) (.serving .empty)
        [namedRequest] between ∧
      RecordStep .littleEndian 60000000 true between namedRequest after ∧
      ∃ memory entries next left, between = .serving memory ∧ Holds memory entries ∧
        after = .serving next ∧ Holds next left ∧ next.data.released.Nodup ∧
        (∀ entry ∈ left, entry.datum ∉ next.data.released) ∧ Touches 60000000 namedRequest entries left := by
  obtain ⟨between, entries, first, records⟩ := namedRequest_step records_empty
  obtain ⟨after, -, second, -⟩ := namedRequest_step records
  have run : Run (Guarded (RecordStep .littleEndian 60000000 true) (SparedServer true)) (.serving .empty)
      [namedRequest] (.serving between) := Run.single ⟨fun memory _ => namedRequest_spared memory, first⟩
  exact ⟨_, _, run, second, handle_one_peer_discovery_request_keeps_records .littleEndian 60000000 true run
    (fun memory _ => namedRequest_spared memory) second⟩

/-- A peer without a name is put into the empty list, its record is freed there, and the next request is compared
with it. -/
theorem unnamed_peer_left_dangling :
    ∃ memory, RecordStep .littleEndian 60000000 true (.serving .empty) unnamedRequest (.serving memory) ∧
      (∀ entries, ¬ Holds memory entries) ∧
      RecordStep .littleEndian 60000000 true (.serving memory) unnamedRequest .undefined := by
  obtain ⟨command, taken, -⟩ := ideal_taken ⟨false, false⟩ unnamedAddress
  obtain ⟨exchange, returns, dangles⟩ := handleInMemory_unnamed 60000000 true taken rfl rfl holds_empty (by simp)
    rfl rfl
  exact ⟨exchange.memory, .returned returns, dangles.not_holds, .undefined
    (handleInMemory_dangling 60000000 taken rfl rfl dangles)⟩

end LeoCoin
