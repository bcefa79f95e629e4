import LeoCoin.Library.Leases
import LeoCoin.PeerClient
import LeoCoin.PeerRecords

/-! # Who is listed

The peer discovery server serves one request after the other, from its clients or from
anybody else, and clients take over the lists that they are sent, as far as these arrive.
Where the names are found that the server prints, its list is a table of leases: an address
is in it exactly when it was registered last no longer ago than the keepalive, as of the
last registration of anybody.  A client has such a list of some time since.

The server has its list in memory, because a name that is missing leaves more behind than a
list of values can say: entries that have expired, or one whose record has been freed.
-/

namespace LeoCoin

open Library.Programs Library.Heap Library.Leases Library.Transition

variable {ι : Type}

/-- A time is longer ago than the keepalive. -/
def Lapsed (keepalive : UInt64) (now time : Int) : Prop := (keepalive.toNat : Int) < (now - time) * 1000000

instance (keepalive : UInt64) : DecidableRel (Lapsed keepalive) := fun _ _ => inferInstanceAs (Decidable (_ < _))

/-- The memory of the server, the lists of its clients, and what the server has sent. -/
structure Directory (ι : Type) where
  server : Memory PeerInfo
  clients : ι → PeerInfoList
  /-- what was sent in answer to each request, oldest first -/
  replies : List (List UInt8)

/-- The list in the memory of the server. -/
def Lists (memory : Memory PeerInfo) (list : PeerInfoList) : Prop :=
  ∃ entries, Records memory entries ∧ entries.map Entry.value = list.peers

inductive DirectoryAction (ι : Type) where
  /-- `requester` is none of the clients where it is `none`, and nobody was registered where `visit` is -/
  | serve (requester : Option ι) (visit : Option (Visit SockaddrIn6 Int)) : DirectoryAction ι
  | discover (id : ι) (reply : Nat) : DirectoryAction ι

section Admitting

variable (order : ByteOrder) (printProgress : Bool) (environment : RecordEnvironment) (memory : Memory PeerInfo)

/-- The request of a peer gets through `linked_list_find` and the two branches behind it. -/
def Enrolled (address : SockaddrIn6) : Prop :=
  environment.lock = none ∧ ∃ next, ComesTo (enterRecord order printProgress environment memory.data.fresh
    (withRecord memory ⟨address, environment.lastConnected⟩)) (.done (.ok (), next))

/-- Whom a request registers, and the two values of the clock. -/
inductive Admits (stream : Stream) : Option (Visit SockaddrIn6 Int) → Prop where
  | peer {command : CommandRegisterPeer}
      (taken : registerPeerCommand order environment.toDiscoveryEnvironment stream = .ok command)
      (enrolled : Enrolled order printProgress environment memory command.listenAddr) :
      Admits stream
        (some ⟨command.listenAddr, environment.lastConnected.toInt, environment.currentTime.toInt⟩)
  | nobody
      (left : ∀ command, registerPeerCommand order environment.toDiscoveryEnvironment stream = .ok command →
        ¬ Enrolled order printProgress environment memory command.listenAddr) :
      Admits stream none

end Admitting

/-- The server once it has handled a request. -/
def Directory.serve (directory : Directory ι) (exchange : RecordExchange) : Directory ι :=
  { directory with server := exchange.memory, replies := directory.replies ++ [exchange.sent] }

section Steps

variable [DecidableEq ι]

/-- A connection may break at any point.  A request that waits for its peer for ever ends the run, as
one does that leaves defined behaviour, and the names that the server looks up to print them are found. -/
inductive DirectoryStep (order : ByteOrder) (keepalive : UInt64) (printProgress : Bool) (addresses : ι → SockaddrIn6) :
    Directory ι → DirectoryAction ι → Directory ι → Prop where
  | serve {directory : Directory ι} (id : ι) {clientOrder : ByteOrder} {client : PeerClientEnvironment}
      {list : PeerInfoList} {reply stream : Stream} {environment : RecordEnvironment} {exchange : RecordExchange}
      {visit : Option (Visit SockaddrIn6 Int)} :
      stream.contents <+: (discoverPeersOnce clientOrder client (addresses id) list reply).sent →
      environment.Named printProgress →
      Admits order printProgress environment directory.server stream visit →
      ComesTo (handleInMemory order keepalive printProgress environment stream directory.server) (.done exchange) →
      DirectoryStep order keepalive printProgress addresses directory (.serve (some id) visit)
        (directory.serve exchange)
  | serveOther {directory : Directory ι} {stream : Stream} {environment : RecordEnvironment}
      {exchange : RecordExchange} {visit : Option (Visit SockaddrIn6 Int)} :
      environment.Named printProgress →
      Admits order printProgress environment directory.server stream visit →
      ComesTo (handleInMemory order keepalive printProgress environment stream directory.server) (.done exchange) →
      DirectoryStep order keepalive printProgress addresses directory (.serve none visit) (directory.serve exchange)
  | discover {directory : Directory ι} {id : ι} {reply : Nat} {sent : List UInt8} {clientOrder : ByteOrder}
      {client : PeerClientEnvironment} {stream : Stream} :
      directory.replies[reply]? = some sent → stream.contents <+: sent →
      DirectoryStep order keepalive printProgress addresses directory (.discover id reply)
        { directory with
          clients := Function.update directory.clients id
            (discoverPeersOnce clientOrder client (addresses id) (directory.clients id) stream).list }

end Steps

/-! ## Requests whose names are found -/

/-- What a request has done to the list: nothing, or its peer is entered or renewed and what has
expired is gone. -/
inductive Attends (keepalive : UInt64) (environment : RecordEnvironment) (stream : Stream)
    (before after : List (Entry PeerInfo)) : Option (Visit SockaddrIn6 Int) → Prop where
  | nobody (same : after = before) : Attends keepalive environment stream before after none
  | peer {address : SockaddrIn6} {entered : List (Entry PeerInfo)} (registers : Registers stream address)
      (enters : Enters ⟨address, environment.lastConnected⟩ before entered)
      (dated : ∀ entry ∈ entered, Dated environment.currentTime entry.value)
      (left : after = staying keepalive environment.currentTime entered) :
      Attends keepalive environment stream before after
        (some ⟨address, environment.lastConnected.toInt, environment.currentTime.toInt⟩)

section Attending

variable {order : ByteOrder} {keepalive : UInt64} {printProgress : Bool} {environment : RecordEnvironment}
  {stream : Stream} {memory : Memory PeerInfo} {entries : List (Entry PeerInfo)} {exchange : RecordExchange}
  {visit : Option (Visit SockaddrIn6 Int)} {command : CommandRegisterPeer}

theorem handleInMemory_unread {stop : Stop}
    (taken : registerPeerCommand order environment.toDiscoveryEnvironment stream = .error stop)
    (returns : ComesTo (handleInMemory order keepalive printProgress environment stream memory) (.done exchange)) :
    exchange.memory = memory ∧ exchange.sent = [] := by
  obtain ⟨enough, settled⟩ := returns
  have last := settled enough (Nat.le_refl enough)
  rw [handleInMemory, taken] at last
  cases stop with
  | failure code =>
    cases last
    exact ⟨rfl, rfl⟩
  | blocked => cases last
  | undefined => cases last

theorem handleInMemory_granted
    (taken : registerPeerCommand order environment.toDiscoveryEnvironment stream = .ok command)
    (returns : ComesTo (handleInMemory order keepalive printProgress environment stream memory) (.done exchange)) :
    environment.peerInfo = true := by
  obtain ⟨enough, settled⟩ := returns
  have last := settled enough (Nat.le_refl enough)
  cases granted : environment.peerInfo with
  | true => rfl
  | false => simp [handleInMemory, taken, granted] at last

/-- A request whose peer is read and not enrolled leaves the list alone. -/
theorem handleInMemory_turned (named : environment.Named printProgress) (records : Records memory entries)
    (taken : registerPeerCommand order environment.toDiscoveryEnvironment stream = .ok command)
    (left : ¬ Enrolled order printProgress environment memory command.listenAddr)
    (returns : ComesTo (handleInMemory order keepalive printProgress environment stream memory) (.done exchange)) :
    Records exchange.memory entries ∧ exchange.sent = [] := by
  let peerInfo : PeerInfo := ⟨command.listenAddr, environment.lastConnected⟩
  have filled := records.withRecord peerInfo
  have there : (withRecord memory peerInfo).data.object memory.data.fresh = some peerInfo :=
    Store.allocate_object_fresh _ _
  have own := withRecord_own records.holds
  have granted := handleInMemory_granted taken returns
  cases locked : environment.lock with
  | some error =>
    obtain ⟨freed, frees, kept⟩ := freeRecord_comesTo filled.holds ⟨_, there⟩ own
    have comes : ComesTo (handleInMemory order keepalive printProgress environment stream memory)
        (.done ⟨.error (.mutex error), freed, []⟩) := .of_eq fun _ => by
      simp only [handleInMemory, taken, granted, locked, Bool.not_true, Bool.false_eq_true, if_false]
      rw [frees]
      rfl
    obtain rfl := Course.done.inj (returns.unique comes)
    exact ⟨⟨kept, records.past, records.fits⟩, rfl⟩
  | none =>
    rcases enterRecord_named named filled there own environment.registeredPast with
      ⟨code, freed, enters, kept⟩ | ⟨next, entered, enters, -⟩
    · rw [handleInMemory_eq keepalive printProgress memory taken granted locked] at returns
      obtain rfl := Course.done.inj (returns.unique (.bind enters (.of_eq fun _ => rfl)))
      exact ⟨kept, rfl⟩
    · exact absurd ⟨locked, next, enters⟩ left

/-- One whose peer is enrolled has its entry and those that have not expired. -/
theorem handleInMemory_enrolled (named : environment.Named printProgress) (records : Records memory entries)
    (taken : registerPeerCommand order environment.toDiscoveryEnvironment stream = .ok command)
    (enrolled : Enrolled order printProgress environment memory command.listenAddr)
    (returns : ComesTo (handleInMemory order keepalive printProgress environment stream memory) (.done exchange)) :
    ∃ entered list, Enters ⟨command.listenAddr, environment.lastConnected⟩ entries entered ∧
      (∀ entry ∈ entered, Dated environment.currentTime entry.value) ∧
      Records exchange.memory (staying keepalive environment.currentTime entered) ∧
      list.peers = (staying keepalive environment.currentTime entered).map Entry.value ∧
      exchange.sent <+: peerListMessage list := by
  let peerInfo : PeerInfo := ⟨command.listenAddr, environment.lastConnected⟩
  have filled := records.withRecord peerInfo
  have there : (withRecord memory peerInfo).data.object memory.data.fresh = some peerInfo :=
    Store.allocate_object_fresh _ _
  have granted := handleInMemory_granted taken returns
  obtain ⟨locks, reached, comes⟩ := enrolled
  rcases enterRecord_named named filled there (withRecord_own records.holds) environment.registeredPast with
    ⟨code, freed, refuses, -⟩ | ⟨next, entered, enrols, kept, enters⟩
  · cases refuses.unique comes
  · obtain ⟨answer, list, answers, left, listed, sent⟩ := answerFromMemory_named order keepalive named kept
    rw [handleInMemory_eq keepalive printProgress memory taken granted locks] at returns
    obtain rfl := Course.done.inj (returns.unique (.bind enrols answers))
    exact ⟨entered, list, enters, fun entry member => kept.dated environment member, left, listed, sent⟩

/-- A request in memory whose names are found attends to one visit or to none, and what it sends begins
the message with its list. -/
theorem Admits.attends (named : environment.Named printProgress) (records : Records memory entries)
    (admits : Admits order printProgress environment memory stream visit)
    (returns : ComesTo (handleInMemory order keepalive printProgress environment stream memory) (.done exchange)) :
    ∃ left list, Records exchange.memory left ∧ Attends keepalive environment stream entries left visit ∧
      left.map Entry.value = list.peers ∧ exchange.sent <+: peerListMessage list := by
  cases admits with
  | peer taken enrolled =>
    obtain ⟨entered, list, enters, dated, left, listed, sent⟩ :=
      handleInMemory_enrolled named records taken enrolled returns
    exact ⟨_, list, left, .peer (registers_of_registerPeerCommand taken) enters dated rfl, listed.symm, sent⟩
  | nobody left =>
    have unsent (sent : exchange.sent = []) : exchange.sent <+: peerListMessage ⟨_, records.fits⟩ :=
      sent ▸ List.nil_prefix
    cases taken : registerPeerCommand order environment.toDiscoveryEnvironment stream with
    | error stop =>
      obtain ⟨same, sent⟩ := handleInMemory_unread taken returns
      exact ⟨entries, ⟨_, records.fits⟩, same ▸ records, .nobody rfl, rfl, unsent sent⟩
    | ok command =>
      obtain ⟨kept, sent⟩ := handleInMemory_turned named records taken (left command taken) returns
      exact ⟨entries, ⟨_, records.fits⟩, kept, .nobody rfl, rfl, unsent sent⟩

end Attending

def DirectoryAction.visit : DirectoryAction ι → Option (Visit SockaddrIn6 Int)
  | .serve _ visit => visit
  | .discover _ _ => none

/-- The registrations of a run. -/
def visits (labels : List (DirectoryAction ι)) : List (Visit SockaddrIn6 Int) :=
  labels.filterMap DirectoryAction.visit

/-! ## The list is a table -/

/-- The list has one entry for each key of the table. -/
structure Tabulates (table : SockaddrIn6 → Option Int) (list : PeerInfoList) : Prop where
  distinct : Distinct list
  listed : ∀ peer, peer ∈ list.peers ↔ table peer.listenAddr = some peer.lastConnected.toInt

section Tables

variable {keepalive : UInt64} {environment : RecordEnvironment} {list answer : PeerInfoList} {stream : Stream}
  {table : SockaddrIn6 → Option Int} {before after : List (Entry PeerInfo)} {visit : Option (Visit SockaddrIn6 Int)}

theorem tabulates_create : Tabulates (fun _ => none) .create where
  distinct := List.nodup_nil
  listed peer := by simp [PeerInfoList.create]

theorem Entered.mem_iff {peerInfo : PeerInfo} {before after : List PeerInfo} (entered : Entered peerInfo before after)
    (distinct : (before.map PeerInfo.listenAddr).Nodup) (peer : PeerInfo) :
    peer ∈ after ↔ peer = peerInfo ∨ peer ∈ before ∧ peer.listenAddr ≠ peerInfo.listenAddr := by
  have once := entered.nodup distinct
  constructor
  · intro member
    by_cases same : peer.listenAddr = peerInfo.listenAddr
    · exact .inl (List.inj_on_of_nodup_map once member entered.mem same)
    · rcases entered.origin member with rfl | earlier
      · exact absurd rfl same
      · exact .inr ⟨earlier, same⟩
  · rintro (rfl | ⟨earlier, different⟩)
    · exact entered.mem
    · exact (entered.keeps earlier).resolve_left different

theorem Entered.updates {peerInfo : PeerInfo} {after : List PeerInfo} (entered : Entered peerInfo list.peers after)
    (tabulates : Tabulates table list) (peer : PeerInfo) :
    peer ∈ after ↔ Function.update table peerInfo.listenAddr (some peerInfo.lastConnected.toInt) peer.listenAddr =
      some peer.lastConnected.toInt := by
  rw [entered.mem_iff tabulates.distinct]
  by_cases same : peer.listenAddr = peerInfo.listenAddr
  · rw [same, Function.update_self, Option.some_inj, Int64.toInt_inj]
    constructor
    · rintro (rfl | ⟨-, different⟩)
      · rfl
      · exact absurd rfl different
    · intro sameTime
      obtain ⟨listenAddr, lastConnected⟩ := peer
      cases same
      cases sameTime
      exact .inl rfl
  · rw [Function.update_of_ne same, ← tabulates.listed]
    have other : peer ≠ peerInfo := fun equal => same (congrArg PeerInfo.listenAddr equal)
    simp [same, other]

/-- A request does to the list what the visit does to its table. -/
theorem Tabulates.attends (precise : KeepaliveExact keepalive) (tabulates : Tabulates table list)
    (attends : Attends keepalive environment stream before after visit) (listed : before.map Entry.value = list.peers)
    (answered : after.map Entry.value = answer.peers) :
    Tabulates (visit.elim table (visited (Lapsed keepalive) table)) answer := by
  cases attends with
  | nobody same =>
    have unchanged : answer.peers = list.peers := by rw [← answered, same, listed]
    refine ⟨?_, fun peer => ?_⟩
    · rw [Distinct, unchanged]
      exact tabulates.distinct
    · rw [unchanged]
      exact tabulates.listed peer
  | @peer address entered registers enters dated left =>
    have updates : Entered ⟨address, environment.lastConnected⟩ list.peers (entered.map Entry.value) :=
      listed ▸ enters.entered
    have kept : answer.peers = (entered.map Entry.value).filter fun peer =>
        !peerExpired keepalive environment.currentTime peer := by
      rw [← answered, left, staying, List.filter_map]
      rfl
    rw [Option.elim_some]
    refine ⟨?_, fun peer => ?_⟩
    · rw [Distinct, kept]
      exact (List.filter_sublist.map _).nodup (updates.nodup tabulates.distinct)
    · have expires (member : peer ∈ entered.map Entry.value) :
          peerExpired keepalive environment.currentTime peer = true ↔
            Lapsed keepalive environment.currentTime.toInt peer.lastConnected.toInt := by
        obtain ⟨entry, there, rfl⟩ := List.mem_map.mp member
        exact peerExpired_iff precise (dated entry there)
      rw [kept, List.mem_filter, updates.updates tabulates, visited, Option.filter_eq_some_iff]
      refine and_congr_right fun updated => ?_
      have member := (updates.updates tabulates peer).mpr updated
      cases expired : peerExpired keepalive environment.currentTime peer with
      | true => simpa using (expires member).mp expired
      | false =>
        have lasts : ¬ Lapsed keepalive environment.currentTime.toInt peer.lastConnected.toInt := fun lapsed => by
          rw [(expires member).mpr lapsed] at expired
          cases expired
        simpa using lasts

end Tables

/-! ## Runs -/

section Runs

variable {order : ByteOrder} {keepalive : UInt64} {printProgress : Bool} {addresses : ι → SockaddrIn6}
  {first before after last : Directory ι} {label : DirectoryAction ι} {labels : List (DirectoryAction ι)}

/-- The list is what these visits come to. -/
def Reflects (keepalive : UInt64) (visits : List (Visit SockaddrIn6 Int)) (list : PeerInfoList) : Prop :=
  Tabulates (tableAfter (Lapsed keepalive) visits) list

theorem visits_snoc (labels : List (DirectoryAction ι)) (label : DirectoryAction ι) :
    visits (labels ++ [label]) = visits labels ++ label.visit.toList := by
  cases visit : label.visit <;> simp [visits, visit]

theorem Reflects.attends {visits : List (Visit SockaddrIn6 Int)} {environment : RecordEnvironment}
    {list answer : PeerInfoList} {stream : Stream} {entries left : List (Entry PeerInfo)}
    {visit : Option (Visit SockaddrIn6 Int)} (precise : KeepaliveExact keepalive)
    (reflects : Reflects keepalive visits list) (attends : Attends keepalive environment stream entries left visit)
    (listed : entries.map Entry.value = list.peers) (answered : left.map Entry.value = answer.peers) :
    Reflects keepalive (visits ++ visit.toList) answer := by
  have served := Tabulates.attends precise reflects attends listed answered
  cases visit with
  | none => simpa [Reflects] using served
  | some registered => simpa [Reflects, tableAfter_snoc] using served

structure Tracked (keepalive : UInt64) (first : Directory ι) (labels : List (DirectoryAction ι))
    (directory : Directory ι) : Prop where
  server : ∃ list, Lists directory.server list ∧ Reflects keepalive (visits labels) list
  replies : ∀ reply ∈ directory.replies, ∃ earlier list, earlier <+: visits labels ∧
    Reflects keepalive earlier list ∧ reply <+: peerListMessage list
  clients : ∀ id, directory.clients id = first.clients id ∨
    ∃ earlier, earlier <+: visits labels ∧ Reflects keepalive earlier (directory.clients id)

theorem Tracked.serve {environment : RecordEnvironment} {stream : Stream} {exchange : RecordExchange}
    {visit : Option (Visit SockaddrIn6 Int)} (precise : KeepaliveExact keepalive)
    (tracked : Tracked keepalive first labels before) (requester : Option ι) (named : environment.Named printProgress)
    (admits : Admits order printProgress environment before.server stream visit)
    (returns : ComesTo (handleInMemory order keepalive printProgress environment stream before.server)
      (.done exchange)) :
    Tracked keepalive first (labels ++ [.serve requester visit]) (before.serve exchange) := by
  obtain ⟨list, ⟨entries, records, listed⟩, reflects⟩ := tracked.server
  obtain ⟨left, answer, remains, attends, answered, sent⟩ := admits.attends named records returns
  have renewed : Reflects keepalive (visits (labels ++ [.serve requester visit])) answer := by
    rw [visits_snoc]
    exact reflects.attends precise attends listed answered
  have grows : visits labels <+: visits (labels ++ [.serve requester visit]) := by
    rw [visits_snoc]
    exact List.prefix_append _ _
  refine ⟨⟨answer, ⟨left, remains, answered⟩, renewed⟩, fun reply member => ?_, fun id => ?_⟩
  · rw [Directory.serve, List.mem_append, List.mem_singleton] at member
    rcases member with earlier | rfl
    · obtain ⟨sofar, list, upTo, listed, sent⟩ := tracked.replies reply earlier
      exact ⟨sofar, list, upTo.trans grows, listed, sent⟩
    · exact ⟨_, answer, List.prefix_refl _, renewed, sent⟩
  · exact (tracked.clients id).imp_right fun ⟨sofar, upTo, listed⟩ => ⟨sofar, upTo.trans grows, listed⟩

theorem discoverPeersOnce_list (order : ByteOrder) (environment : PeerClientEnvironment) (peerAddr : SockaddrIn6)
    (list : PeerInfoList) (stream : Stream) :
    (discoverPeersOnce order environment peerAddr list stream).list = list ∨
      receivePeerList order environment stream =
        .ok (discoverPeersOnce order environment peerAddr list stream).list := by
  rw [discoverPeersOnce]
  split
  · exact .inl rfl
  · split
    · exact .inl rfl
    next taken => exact .inr taken

variable [DecidableEq ι]

theorem DirectoryStep.tracked (precise : KeepaliveExact keepalive) (tracked : Tracked keepalive first labels before)
    (step : DirectoryStep order keepalive printProgress addresses before label after) :
    Tracked keepalive first (labels ++ [label]) after := by
  cases step with
  | serve id delivered named admits returns => exact tracked.serve precise (some id) named admits returns
  | serveOther named admits returns => exact tracked.serve precise none named admits returns
  | @discover id reply sent clientOrder client stream there delivered =>
    have same : visits (labels ++ [.discover id reply]) = visits labels := by simp [visits_snoc, DirectoryAction.visit]
    refine ⟨by rw [same]; exact tracked.server, by rw [same]; exact tracked.replies, fun other => ?_⟩
    rw [same]
    by_cases own : other = id
    · subst own
      simp only [Function.update_self]
      rcases discoverPeersOnce_list clientOrder client (addresses other) (before.clients other) stream with kept | taken
      · rw [kept]
        exact tracked.clients other
      · obtain ⟨sofar, list, upTo, listed, part⟩ := tracked.replies sent (List.mem_of_getElem? there)
        rw [receivePeerList_of_begins (delivered.trans part) taken]
        exact .inr ⟨sofar, upTo, listed⟩
    · simp only [Function.update_of_ne own]
      exact tracked.clients other

/-- The server has registered nobody and answered nobody. -/
structure Unserved (directory : Directory ι) : Prop where
  server : directory.server = .empty
  replies : directory.replies = []

theorem tracked_of_run (precise : KeepaliveExact keepalive) (unserved : Unserved first)
    (run : Run (DirectoryStep order keepalive printProgress addresses) first labels last) :
    Tracked keepalive first labels last := by
  apply run.invariantAlong (Tracked keepalive first)
  · refine ⟨⟨.create, ?_, tabulates_create⟩, fun reply member => ?_, fun id => .inl rfl⟩
    · rw [unserved.server]
      exact ⟨[], records_empty, rfl⟩
    · rw [unserved.replies] at member
      cases member
  · exact fun sofar before label after tracked step => step.tracked precise tracked

end Runs

/-! ## The table is the history -/

/-- Nothing is registered twice, and what is listed was registered last no longer ago than the
keepalive, as of the last visit. -/
structure Current (keepalive : UInt64) (visits : List (Visit SockaddrIn6 Int)) (list : PeerInfoList) : Prop where
  distinct : Distinct list
  listed : ∀ peer, peer ∈ list.peers ↔ ∃ sofar visit, visits = sofar ++ [visit] ∧
    renewal visits peer.listenAddr = some peer.lastConnected.toInt ∧
    ¬ Lapsed keepalive visit.now peer.lastConnected.toInt

/-- The second value of the clock never goes back from one registration to a later one. -/
def Forward (visits : List (Visit SockaddrIn6 Int)) : Prop :=
  visits.Pairwise fun earlier later => earlier.now ≤ later.now

section Histories

variable {keepalive : UInt64}

theorem Lapsed.later {earlier later time : Int} (lapsed : Lapsed keepalive earlier time) (after : earlier ≤ later) :
    Lapsed keepalive later time := by
  rw [Lapsed] at lapsed ⊢
  omega

theorem Reflects.current {visits : List (Visit SockaddrIn6 Int)} {list : PeerInfoList}
    (reflects : Reflects keepalive visits list) (forward : Forward visits) : Current keepalive visits list := by
  refine ⟨reflects.distinct, fun peer => ?_⟩
  rw [reflects.listed]
  cases List.eq_nil_or_concat' visits with
  | inl nobody =>
    subst nobody
    simp [tableAfter]
  | inr visited =>
    obtain ⟨sofar, visit, rfl⟩ := visited
    rw [Forward, List.pairwise_append] at forward
    rw [tableAfter_eq (fun _ _ _ after lapsed => lapsed.later after) sofar visit
      fun other member => forward.2.2 other member visit (by simp), Option.filter_eq_some_iff]
    constructor
    · rintro ⟨renewed, lasts⟩
      exact ⟨sofar, visit, rfl, renewed, by simpa using lasts⟩
    · rintro ⟨_, last, same, renewed, lasts⟩
      obtain ⟨-, last⟩ := List.append_inj' same rfl
      cases last
      exact ⟨renewed, by simpa using lasts⟩

theorem Forward.initial {earlier visits : List (Visit SockaddrIn6 Int)} (forward : Forward visits)
    (begins : earlier <+: visits) : Forward earlier :=
  forward.sublist begins.sublist

end Histories

/-! ## Participants -/

section Participants

variable {order : ByteOrder} {keepalive : UInt64} {printProgress : Bool} {addresses : ι → SockaddrIn6}
  {first last : Directory ι} {labels : List (DirectoryAction ι)}

/-- From the connection of a client nobody but this client is registered. -/
theorem Admits.key {id : ι} {clientOrder : ByteOrder} {client : PeerClientEnvironment} {list : PeerInfoList}
    {reply stream : Stream} {environment : RecordEnvironment} {memory : Memory PeerInfo}
    {visit : Visit SockaddrIn6 Int}
    (delivered : stream.contents <+: (discoverPeersOnce clientOrder client (addresses id) list reply).sent)
    (admits : Admits order printProgress environment memory stream (some visit)) : visit.key = addresses id := by
  have begins := delivered.trans (discover_peers_once_sent clientOrder client (addresses id) list reply).1
  cases admits with
  | peer taken enrolled =>
    have registers := registers_of_registerPeerCommand taken
    exact registers.unique (registers_registerMessage (registers.whole begins))

theorem Reflects.participants {visits : List (Visit SockaddrIn6 Int)} {list : PeerInfoList}
    (reflects : Reflects keepalive visits list) (among : ∀ visit ∈ visits, ∃ id, addresses id = visit.key) :
    ∀ peer ∈ list.peers, ∃ id, addresses id = peer.listenAddr := by
  intro peer member
  obtain ⟨visit, registered, same, -⟩ := mem_of_tableAfter ((reflects.listed peer).mp member)
  exact same ▸ among visit registered

variable [DecidableEq ι]

end Participants

/-! ## What is listed -/

/-- The server lists exactly what was registered last no longer ago than the keepalive. -/
theorem server_lists_renewed [DecidableEq ι] (order : ByteOrder) (keepalive : UInt64) (printProgress : Bool)
    (addresses : ι → SockaddrIn6) (first last : Directory ι) (labels : List (DirectoryAction ι))
    (precise : KeepaliveExact keepalive)
    (unserved : Unserved first) (run : Run (DirectoryStep order keepalive printProgress addresses) first labels last)
    (forward : Forward (visits labels)) :
    ∃ list, Lists last.server list ∧ Current keepalive (visits labels) list := by
  obtain ⟨list, lists, reflects⟩ := (tracked_of_run precise unserved run).server
  exact ⟨list, lists, reflects.current forward⟩

def sampleDirectory : Directory Unit := ⟨.empty, fun _ => .create, []⟩

theorem sampleDirectory_unserved : Unserved sampleDirectory := ⟨rfl, rfl⟩

def sampleVisit : Visit SockaddrIn6 Int := ⟨sampleAddress, 100, 101⟩

theorem namedRequest_named : namedRequest.environment.Named true := ⟨rfl, rfl, fun _ => rfl⟩

theorem sampleDirectory_run :
    ∃ last, Run (DirectoryStep .littleEndian 60000000 true fun _ : Unit => sampleAddress) sampleDirectory
      [.serve (some ()) (some sampleVisit), .discover () 0] last := by
  obtain ⟨command, taken, listens⟩ := ideal_taken ⟨true, true⟩ sampleAddress
  have sent := (discover_peers_once_sent .bigEndian .ideal sampleAddress .create .closed).2.mpr
    PeerClientEnvironment.ideal_receives.sends
  have delivered : namedRequest.stream.contents <+:
      (discoverPeersOnce .bigEndian .ideal sampleAddress .create .closed).sent := by
    rw [sent, namedRequest, Stream.contents, Stream.contents, List.append_nil]
  -- the list is empty, and there is room for a node
  have filled := records_empty.withRecord ⟨command.listenAddr, namedRequest.environment.lastConnected⟩
  have admits : Admits .littleEndian true namedRequest.environment sampleDirectory.server namedRequest.stream
      (some sampleVisit) := by
    have peer : Admits .littleEndian true namedRequest.environment sampleDirectory.server namedRequest.stream
        (some ⟨command.listenAddr, 100, 101⟩) :=
      Admits.peer taken ⟨rfl, (enterRecord_added filled.holds (Store.allocate_object_fresh _ _) rfl rfl
        namedRequest_named.added (withRecord_own holds_empty)).imp fun _ => And.left⟩
    rwa [listens] at peer
  rcases handleInMemory_comesTo .littleEndian 60000000 records_empty (namedRequest_spared .empty) with
    ⟨blocked, -⟩ | ⟨exchange, -, returns, -, -⟩
  · cases taken.symm.trans blocked
  · have served : DirectoryStep .littleEndian 60000000 true (fun _ : Unit => sampleAddress) sampleDirectory
        (.serve (some ()) (some sampleVisit)) (sampleDirectory.serve exchange) :=
      .serve () delivered namedRequest_named admits returns
    have discovered : DirectoryStep .littleEndian 60000000 true (fun _ : Unit => sampleAddress)
        (sampleDirectory.serve exchange) (.discover () 0) _ :=
      @DirectoryStep.discover _ _ _ _ _ _ _ _ _ _ .bigEndian .ideal (.chunk exchange.sent .closed) rfl
        (by rw [Stream.contents, Stream.contents, List.append_nil])
    exact ⟨_, .cons served (.single discovered)⟩

/-- One client has registered. -/
theorem server_lists_renewed_sample :
    ∃ (last : Directory Unit) (list : PeerInfoList), Lists last.server list ∧ Current 60000000 [sampleVisit] list := by
  obtain ⟨last, run⟩ := sampleDirectory_run
  exact ⟨last, server_lists_renewed _ _ _ _ _ _ _ (keepaliveExact_of_lt (by decide)) sampleDirectory_unserved run
    (List.pairwise_singleton _ _)⟩

end LeoCoin
