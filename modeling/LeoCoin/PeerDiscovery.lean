import LeoCoin.Library.Transition
import LeoCoin.PeerExpiry
import LeoCoin.Receive

/-! # The peer discovery server

A request registers one address.  The server looks it up in its list, enters it or renews
the time of its entry, unlinks every entry that has expired and answers with the list that
is left.  The two clock values of a request are what `time(NULL)` returned when the entry
was filled in and when the loop over the list began.
-/

namespace LeoCoin

open Library.Decoding
open Library.Transition

/-! ## Registering -/

theorem peersMemory_modify {peers : List PeerInfo} {index : Nat} {change : PeerInfo → PeerInfo}
    (fits : peersMemory peers < 2 ^ 64) : peersMemory (peers.modify index change) < 2 ^ 64 := by
  rw [peersMemory, List.length_modify]
  exact fits

/-- `found_peer_info->last_connected = peer_info->last_connected` -/
def PeerInfoList.renew (list : PeerInfoList) (index : Nat) (lastConnected : Int64) : PeerInfoList :=
  ⟨list.peers.modify index fun found => { found with lastConnected }, peersMemory_modify list.fits⟩

/-- From `linked_list_find` to the end of the two branches behind it; `node` is whether
`linked_list_prepend` is granted one. -/
def registerPeer (order : ByteOrder) (node : Bool) (list : PeerInfoList) (peerInfo : PeerInfo) :
    Except Failure PeerInfoList :=
  match linkedListFind (comparePeerInfoT order) peerInfo list.peers with
  | none => if node then list.prepend peerInfo else .error .couldNotMalloc
  | some index => .ok (list.renew index peerInfo.lastConnected)

/-! ## The server -/

/-- What one request meets: the allocators in the order they are used, how many bytes of the
reply are sent before an error, and the two values of the clock. -/
structure DiscoveryEnvironment where
  receive : ReceiveMemory
  peerInfo : Bool
  node : Bool
  listGrants : Nat → Nat → Bool
  frameGrants : Nat → Nat → Bool
  breaksAfter : Option Nat
  lastConnected : Int64
  currentTime : Int64

/-- What a request comes to: its return code, the list afterwards, the list as it was when a peer
had been entered or renewed, and the bytes sent. -/
structure DiscoveryExchange where
  outcome : Except Stop Unit
  list : PeerInfoList
  registered : Option PeerInfoList
  sent : List UInt8

/-- From the second `time(NULL)` on.  The difference to the time of an entry is a `time_t`, and
nothing is promised where it overflows. -/
def answerWithPeers (order : ByteOrder) (keepalive : UInt64) (environment : DiscoveryEnvironment)
    (list : PeerInfoList) : DiscoveryExchange :=
  let currentTime := environment.currentTime
  if list.peers.any fun peer => !decide (Dated currentTime peer) then
    ⟨.error .undefined, list, some list, []⟩
  else
    match unlinkExpiredPeers (peerExpired keepalive currentTime) list with
    | none => ⟨.error .blocked, list, some list, []⟩
    | some active =>
      match peerListCommand environment.listGrants order active with
      | .error code => ⟨.error (.failure code), active, some list, []⟩
      | .ok command =>
        match commandSendPeerListSerialize environment.frameGrants order command with
        | .error code => ⟨.error (.failure code), active, some list, []⟩
        | .ok (buffer, _) =>
          let sending := sendAll environment.breaksAfter buffer
          ⟨sending.1, active, some list, sending.2⟩

/-- The buffer with the request, as `command_register_peer_deserialize` reads it. -/
def registerPeerCommand (order : ByteOrder) (environment : DiscoveryEnvironment) (stream : Stream) :
    Except Stop CommandRegisterPeer :=
  match (receiveCommand .handleOnePeerDiscoveryRequest environment.receive order stream).outcome with
  | .error stop => .error stop
  | .ok recvBuf =>
    match decodeBuffer (commandRegisterPeerDeserialize order) (Input.ofBuffer recvBuf (fun _ => 0) grantAll) with
    | .error code => .error (.failure code)
    | .ok command => .ok command

/-- `malloc` for the `peer_info_t` is not checked, and its result is written to. -/
def handleOnePeerDiscoveryRequest (order : ByteOrder) (keepalive : UInt64) (environment : DiscoveryEnvironment)
    (list : PeerInfoList) (stream : Stream) : DiscoveryExchange :=
  match registerPeerCommand order environment stream with
  | .error stop => ⟨.error stop, list, none, []⟩
  | .ok command =>
    if !environment.peerInfo then
      ⟨.error .undefined, list, none, []⟩
    else
      let peerInfo : PeerInfo := ⟨command.listenAddr, environment.lastConnected⟩
      match registerPeer order environment.node list peerInfo with
      | .error code => ⟨.error (.failure code), list, none, []⟩
      | .ok registered => answerWithPeers order keepalive environment registered

/-! ## What registering does -/

theorem linkedListFind_none {α : Type} {compareFunction : α → α → Int} {data : α} {list : List α}
    (missing : linkedListFind compareFunction data list = none) :
    ∀ other ∈ list, compareFunction data other ≠ 0 := by
  induction list with
  | nil => simp
  | cons first rest ih =>
    rw [linkedListFind] at missing
    split at missing
    · cases missing
    next differs => simpa [differs] using ih (Option.map_eq_none_iff.mp missing)

theorem linkedListFind_some {α : Type} {compareFunction : α → α → Int} {data : α} {list : List α} {index : Nat}
    (found : linkedListFind compareFunction data list = some index) :
    ∃ before other after, list = before ++ other :: after ∧ before.length = index ∧
      compareFunction data other = 0 ∧ ∀ earlier ∈ before, compareFunction data earlier ≠ 0 := by
  induction list generalizing index with
  | nil => cases found
  | cons first rest ih =>
    rw [linkedListFind] at found
    split at found
    next same =>
      cases found
      exact ⟨[], first, rest, rfl, rfl, same, by simp⟩
    next differs =>
      obtain ⟨position, later, rfl⟩ := Option.map_eq_some_iff.mp found
      obtain ⟨before, other, after, rfl, rfl, same, others⟩ := ih later
      exact ⟨first :: before, other, after, rfl, rfl, same, List.forall_mem_cons.mpr ⟨differs, others⟩⟩

theorem modify_append_cons {α : Type} (change : α → α) (before after : List α) (found : α) :
    (before ++ found :: after).modify before.length change = before ++ change found :: after := by
  induction before with
  | nil => rfl
  | cons first rest ih => simp [ih]

/-- The list has been given the peer: at its head, or in place of the first entry with its address. -/
inductive Entered (peerInfo : PeerInfo) : List PeerInfo → List PeerInfo → Prop where
  | prepended {peers : List PeerInfo} (new : ∀ other ∈ peers, other.listenAddr ≠ peerInfo.listenAddr) :
      Entered peerInfo peers (peerInfo :: peers)
  | renewed {before after : List PeerInfo} {found : PeerInfo} (same : found.listenAddr = peerInfo.listenAddr)
      (others : ∀ earlier ∈ before, earlier.listenAddr ≠ peerInfo.listenAddr) :
      Entered peerInfo (before ++ found :: after) (before ++ peerInfo :: after)

section Registering

variable {order : ByteOrder} {node : Bool} {list registered : PeerInfoList} {peerInfo : PeerInfo}
  {before after : List PeerInfo}

theorem entered_of_registerPeer (succeeded : registerPeer order node list peerInfo = .ok registered) :
    Entered peerInfo list.peers registered.peers := by
  rw [registerPeer] at succeeded
  split at succeeded
  next missing =>
    have differs := linkedListFind_none missing
    split at succeeded
    · rw [PeerInfoList.prepend] at succeeded
      split at succeeded
      · cases succeeded
        exact .prepended fun other present same => differs other present (comparePeerInfoT_eq_zero.mpr same.symm)
      · cases succeeded
    · cases succeeded
  next index position =>
    obtain ⟨before, found, after, split, rfl, same, differ⟩ := linkedListFind_some position
    have others (earlier : PeerInfo) (member : earlier ∈ before) : earlier.listenAddr ≠ peerInfo.listenAddr :=
      fun same => differ earlier member (comparePeerInfoT_eq_zero.mpr same.symm)
    have same := (comparePeerInfoT_eq_zero.mp same).symm
    cases succeeded
    have changed : (list.renew before.length peerInfo.lastConnected).peers = before ++ peerInfo :: after := by
      show list.peers.modify _ _ = _
      rw [split, modify_append_cons, same]
    rw [changed, split]
    exact .renewed same others

theorem peersMemory_cons (peer : PeerInfo) (peers : List PeerInfo) :
    peersMemory (peer :: peers) = peersMemory peers + 56 := by
  rw [peersMemory, peersMemory, List.length_cons]
  omega

/-- A listed address needs no node, and a new one needs room for it. -/
theorem registerPeer_succeeds_iff (order : ByteOrder) (node : Bool) (list : PeerInfoList) (peerInfo : PeerInfo) :
    (∃ registered, registerPeer order node list peerInfo = .ok registered) ↔
      peerInfo.listenAddr ∈ list.peers.map PeerInfo.listenAddr ∨
        node = true ∧ peersMemory list.peers + 56 < 2 ^ 64 := by
  rw [registerPeer, ← peersMemory_cons peerInfo list.peers]
  split
  next missing =>
    have new : peerInfo.listenAddr ∉ list.peers.map PeerInfo.listenAddr := fun listed => by
      obtain ⟨other, present, same⟩ := List.mem_map.mp listed
      exact linkedListFind_none missing other present (comparePeerInfoT_eq_zero.mpr same.symm)
    rw [or_iff_right new, PeerInfoList.prepend]
    cases node with
    | false => simp
    | true =>
      rw [if_pos rfl]
      by_cases fits : peersMemory (peerInfo :: list.peers) < 2 ^ 64
      · exact iff_of_true ⟨_, dif_pos fits⟩ ⟨rfl, fits⟩
      · rw [dif_neg fits]
        exact iff_of_false (fun succeeded => by cases succeeded.choose_spec) fun room => fits room.2
  next index position =>
    obtain ⟨before, found, after, split, -, same, -⟩ := linkedListFind_some position
    have listed : peerInfo.listenAddr ∈ list.peers.map PeerInfo.listenAddr :=
      List.mem_map.mpr ⟨found, by simp [split], (comparePeerInfoT_eq_zero.mp same).symm⟩
    exact iff_of_true ⟨_, rfl⟩ (.inl listed)

theorem Entered.mem (entered : Entered peerInfo before after) : peerInfo ∈ after := by
  cases entered with
  | prepended new => simp
  | renewed same others => simp

theorem Entered.keeps (entered : Entered peerInfo before after) {peer : PeerInfo} (member : peer ∈ before) :
    peer.listenAddr = peerInfo.listenAddr ∨ peer ∈ after := by
  cases entered with
  | prepended new => exact .inr (List.mem_cons_of_mem _ member)
  | renewed same others =>
    simp only [List.mem_append, List.mem_cons] at member ⊢
    rcases member with earlier | rfl | later
    · exact .inr (.inl earlier)
    · exact .inl same
    · exact .inr (.inr (.inr later))

theorem Entered.origin (entered : Entered peerInfo before after) {peer : PeerInfo} (member : peer ∈ after) :
    peer = peerInfo ∨ peer ∈ before := by
  cases entered with
  | prepended new => exact List.mem_cons.mp member
  | renewed same others =>
    simp only [List.mem_append, List.mem_cons] at member ⊢
    rcases member with earlier | rfl | later
    · exact .inr (.inl earlier)
    · exact .inl rfl
    · exact .inr (.inr (.inr later))

theorem Entered.length_le (entered : Entered peerInfo before after) : after.length ≤ before.length + 1 := by
  cases entered with
  | prepended new => simp
  | renewed same others => simp

theorem Entered.nodup (entered : Entered peerInfo before after)
    (distinct : (before.map PeerInfo.listenAddr).Nodup) : (after.map PeerInfo.listenAddr).Nodup := by
  cases entered with
  | prepended new =>
    have absent : peerInfo.listenAddr ∉ before.map PeerInfo.listenAddr := fun listed => by
      obtain ⟨other, present, same⟩ := List.mem_map.mp listed
      exact new other present same
    exact List.nodup_cons.mpr ⟨absent, distinct⟩
  | renewed same others => simpa [same] using distinct

end Registering

/-! ## Requests -/

/-- Nothing is refused to a request that registers this address: no allocation, no room in the
list, and no difference of two times. -/
structure Serviceable (keepalive : UInt64) (environment : DiscoveryEnvironment) (list : PeerInfoList)
    (address : SockaddrIn6) : Prop where
  calloc : environment.receive.calloc = true
  peerInfo : environment.peerInfo = true
  room : address ∈ list.peers.map PeerInfo.listenAddr ∨
    environment.node = true ∧ peersMemory list.peers + 56 < 2 ^ 64
  lists : ∀ ordinal size, environment.listGrants ordinal size = true
  frames : ∀ ordinal size, environment.frameGrants ordinal size = true
  dated : ∀ peer ∈ list.peers, Dated environment.currentTime peer
  precise : KeepaliveExact keepalive

/-- The clock does not run backwards between the two values, and not on for longer than the
keepalive. -/
structure Clocked (keepalive : UInt64) (environment : DiscoveryEnvironment) : Prop where
  forward : environment.lastConnected.toInt ≤ environment.currentTime.toInt
  soon : (environment.currentTime.toInt - environment.lastConnected.toInt) * 1000000 ≤ keepalive.toNat

section Requests

variable {order : ByteOrder} {keepalive : UInt64} {environment : DiscoveryEnvironment} {list : PeerInfoList}
  {stream : Stream} {address : SockaddrIn6} {peerInfo : PeerInfo}

theorem registerPeerCommand_registers (order : ByteOrder) (granted : environment.receive.calloc = true)
    (grows : ∀ header, Announces .handleOnePeerDiscoveryRequest stream header →
      GrowsBuffer .handleOnePeerDiscoveryRequest environment.receive header.commandLen)
    (registers : Registers stream address) :
    ∃ command, registerPeerCommand order environment stream = .ok command ∧ command.listenAddr = address := by
  obtain ⟨header, payload, message, begins⟩ := registers
  have grows := grows header message.announces
  rw [GrowsBuffer] at grows
  split at grows
  next grown =>
    have received : (receiveCommand .handleOnePeerDiscoveryRequest environment.receive order stream).outcome =
        .ok (encodeCommandHeader header ++ payload) := message.received granted grown grows
    let command : CommandRegisterPeer := ⟨header, address.sin6Family, address.sin6Port, address.sin6Flowinfo,
      address.sin6Addr, address.sin6ScopeId⟩
    have decoded : decodeBuffer (commandRegisterPeerDeserialize order)
        (Input.ofBuffer (encodeCommandHeader header ++ payload) (fun _ => 0) grantAll) = .ok command := by
      have found : encodeCommandHeader header ++ encodeSockaddr address <+: encodeCommandHeader header ++ payload :=
        (List.prefix_append_right_inj _).mpr begins
      have inside := found.length_le
      rw [List.length_append, encodeCommandHeader_length, encodeSockaddr_length] at inside
      exact decodeBuffer_of_begins (commandRegisterPeerDeserialize_reads order) _ (fun _ _ => rfl) inside found
        ⟨message.prefixed, message.command⟩
    rw [registerPeerCommand, received]
    simp only [decoded]
    exact ⟨command, rfl, rfl⟩
  · cases grows

theorem registers_of_registerPeerCommand {command : CommandRegisterPeer}
    (taken : registerPeerCommand order environment stream = .ok command) :
    Registers stream command.listenAddr := by
  rw [registerPeerCommand] at taken
  split at taken
  · cases taken
  next recvBuf received =>
    obtain ⟨header, payload, message, rfl⟩ := message_of_received received
    split at taken
    · cases taken
    next decoded =>
      cases taken
      have checked : (encodeCommandHeader command.header ++ encodeSockaddr command.listenAddr).length ≤ 44 := by simp
      obtain ⟨begins, -⟩ :=
        begins_of_decodeBuffer (commandRegisterPeerDeserialize_reads order) checked decoded
      obtain ⟨rest, split⟩ := begins
      rw [List.append_assoc] at split
      obtain ⟨-, tails⟩ := List.append_inj split (by simp)
      exact ⟨header, payload, message, rest, tails⟩

theorem handle_one_peer_discovery_request_malformed (silent : ∀ address, ¬ Registers stream address) :
    ∃ stop, handleOnePeerDiscoveryRequest order keepalive environment list stream = ⟨.error stop, list, none, []⟩ ∧
      registerPeerCommand order environment stream = .error stop := by
  rw [handleOnePeerDiscoveryRequest]
  cases taken : registerPeerCommand order environment stream with
  | error stop => exact ⟨stop, rfl, rfl⟩
  | ok command => exact absurd (registers_of_registerPeerCommand taken) (silent command.listenAddr)

theorem registerPeerCommand_returns :
    returns (registerPeerCommand order environment stream) =
      returns (receiveCommand .handleOnePeerDiscoveryRequest environment.receive order stream).outcome := by
  rw [registerPeerCommand]
  cases (receiveCommand .handleOnePeerDiscoveryRequest environment.receive order stream).outcome with
  | error stop => cases stop <;> rfl
  | ok recvBuf =>
    dsimp only
    split <;> rfl

theorem registerPeerCommand_defined
    (grows : environment.receive.calloc = true → ∀ header, Announces .handleOnePeerDiscoveryRequest stream header →
      GrowsBuffer .handleOnePeerDiscoveryRequest environment.receive header.commandLen) :
    registerPeerCommand order environment stream ≠ .error .undefined := by
  intro undefined
  rw [registerPeerCommand] at undefined
  split at undefined
  next stop received =>
    cases undefined
    obtain ⟨granted, header, announced, wraps⟩ := receiveCommand_undefined received
    exact wraps (grows granted header announced)
  · split at undefined <;> cases undefined

theorem answerWithPeers_eq (order : ByteOrder)
    (lists : ∀ ordinal size, environment.listGrants ordinal size = true)
    (frames : ∀ ordinal size, environment.frameGrants ordinal size = true) (precise : KeepaliveExact keepalive)
    (dated : ∀ peer ∈ list.peers, Dated environment.currentTime peer) :
    ∃ active, (∀ peer, peer ∈ active.peers ↔ peer ∈ list.peers ∧ ¬ Older keepalive environment.currentTime peer) ∧
      active.peers.Sublist list.peers ∧
      answerWithPeers order keepalive environment list =
        ⟨(sendAll environment.breaksAfter (peerListMessage active)).1, active, some list,
          (sendAll environment.breaksAfter (peerListMessage active)).2⟩ := by
  obtain ⟨active, unlinked, kept⟩ :=
    unlinkExpiredPeers_eq (peerExpired keepalive environment.currentTime) list
  obtain ⟨command, size, filled, framed⟩ := peerListCommand_sends order active lists frames
  have defined : ¬ (list.peers.any fun peer => !decide (Dated environment.currentTime peer)) = true := by
    simpa using dated
  refine ⟨active, fun peer => ?_, kept ▸ List.filter_sublist, ?_⟩
  · rw [kept, List.mem_filter]
    refine and_congr_right fun member => ?_
    rw [← peerExpired_iff precise (dated peer member)]
    simp
  · rw [answerWithPeers, if_neg defined, unlinked]
    simp only [filled, framed]

section Registered

variable {command : CommandRegisterPeer} (granted : environment.peerInfo = true)
  (taken : registerPeerCommand order environment stream = .ok command)

include granted taken

theorem handleOnePeerDiscoveryRequest_entered {registered : PeerInfoList}
    (enters : registerPeer order environment.node list ⟨command.listenAddr, environment.lastConnected⟩ =
      .ok registered) :
    handleOnePeerDiscoveryRequest order keepalive environment list stream =
      answerWithPeers order keepalive environment registered := by
  rw [handleOnePeerDiscoveryRequest, taken]
  simp only [granted, Bool.not_true, Bool.false_eq_true, if_false]
  rw [enters]

theorem handleOnePeerDiscoveryRequest_refused {code : Failure}
    (refuses : registerPeer order environment.node list ⟨command.listenAddr, environment.lastConnected⟩ =
      .error code) :
    handleOnePeerDiscoveryRequest order keepalive environment list stream =
      ⟨.error (.failure code), list, none, []⟩ := by
  rw [handleOnePeerDiscoveryRequest, taken]
  simp only [granted, Bool.not_true, Bool.false_eq_true, if_false]
  rw [refuses]

end Registered

/-- A request that registers an address, and to which nothing is refused, is served. -/
theorem handle_one_peer_discovery_request_served (order : ByteOrder) (clocked : Clocked keepalive environment)
    (grows : ∀ header, Announces .handleOnePeerDiscoveryRequest stream header →
      GrowsBuffer .handleOnePeerDiscoveryRequest environment.receive header.commandLen)
    (registers : Registers stream address) (serviceable : Serviceable keepalive environment list address) :
    ∃ (registered active : PeerInfoList),
      Entered ⟨address, environment.lastConnected⟩ list.peers registered.peers ∧
      (∀ peer, peer ∈ active.peers ↔ peer ∈ registered.peers ∧ ¬ Older keepalive environment.currentTime peer) ∧
      active.peers.Sublist registered.peers ∧
      handleOnePeerDiscoveryRequest order keepalive environment list stream =
        ⟨(sendAll environment.breaksAfter (peerListMessage active)).1, active, some registered,
          (sendAll environment.breaksAfter (peerListMessage active)).2⟩ := by
  obtain ⟨command, taken, rfl⟩ := registerPeerCommand_registers order serviceable.calloc grows registers
  let peerInfo : PeerInfo := ⟨command.listenAddr, environment.lastConnected⟩
  obtain ⟨registered, succeeded⟩ : ∃ registered, registerPeer order environment.node list peerInfo = .ok registered :=
    (registerPeer_succeeds_iff order _ _ _).mpr serviceable.room
  have entered := entered_of_registerPeer succeeded
  -- the new entry is dated because of the two values of the clock
  have dated : ∀ peer ∈ registered.peers, Dated environment.currentTime peer := by
    intro peer member
    rcases entered.origin member with rfl | earlier
    · have forward := clocked.forward
      have soon := clocked.soon
      have bound := keepalive.toNat_lt
      have own : peerInfo.lastConnected = environment.lastConnected := rfl
      rw [Dated, own]
      omega
    · exact serviceable.dated peer earlier
  obtain ⟨active, members, sub, answered⟩ :=
    answerWithPeers_eq order serviceable.lists serviceable.frames serviceable.precise dated
  refine ⟨registered, active, entered, members, sub, ?_⟩
  rw [handleOnePeerDiscoveryRequest_entered serviceable.peerInfo taken succeeded]
  exact answered

end Requests

/-! ## Runs of requests -/

/-- A request as it finds the server: what it meets, and what the connection delivers. -/
structure DiscoveryRequest (keepalive : UInt64) where
  environment : DiscoveryEnvironment
  stream : Stream
  clocked : Clocked keepalive environment

/-- The request is handled; outside defined behaviour the list can be any afterwards.  A request that
waits for its peer for ever leads nowhere: the server has one thread for all of them. -/
inductive DiscoveryStep (order : ByteOrder) (keepalive : UInt64) :
    PeerInfoList → DiscoveryRequest keepalive → PeerInfoList → Prop where
  | handled {list : PeerInfoList} {request : DiscoveryRequest keepalive}
      (returned : returns (handleOnePeerDiscoveryRequest order keepalive request.environment list
        request.stream).outcome = true) :
      DiscoveryStep order keepalive list request
        (handleOnePeerDiscoveryRequest order keepalive request.environment list request.stream).list
  | undefined {list after : PeerInfoList} {request : DiscoveryRequest keepalive}
      (undefined : (handleOnePeerDiscoveryRequest order keepalive request.environment list
        request.stream).outcome = .error .undefined) :
      DiscoveryStep order keepalive list request after

/-- The reply is decoded to the list, on a host of either byte order. -/
def DecodesTo (reply : List UInt8) (list : PeerInfoList) : Prop :=
  ∀ order behind behindList, ∃ command,
    decodeBuffer (commandSendPeerListDeserialize order) (Input.ofBuffer reply behind grantAll) = .ok command ∧
      decodeBuffer (peerInfoListDeserialize order)
        (Input.ofBuffer command.peerListData behindList grantAll) = .ok list

def Distinct (list : PeerInfoList) : Prop := (list.peers.map PeerInfo.listenAddr).Nodup

/-- What a request that registers an address leaves behind and answers. -/
structure Serves (order : ByteOrder) (keepalive : UInt64) (before : PeerInfoList)
    (request : DiscoveryRequest keepalive) (address : SockaddrIn6) (after : PeerInfoList) : Prop where
  registered : ⟨address, request.environment.lastConnected⟩ ∈ after.peers
  fresh : ∀ peer ∈ after.peers, ¬ Older keepalive request.environment.currentTime peer
  kept : ∀ peer ∈ before.peers, ¬ Older keepalive request.environment.currentTime peer →
    peer.listenAddr = address ∨ peer ∈ after.peers
  replied : ∃ reply, DecodesTo reply after ∧
    (handleOnePeerDiscoveryRequest order keepalive request.environment before request.stream).sent =
      (sendAll request.environment.breaksAfter reply).2

/-- What every request keeps: one entry for an address, a served requester, and the list where
there was none. -/
structure Honors (order : ByteOrder) (keepalive : UInt64) (before : PeerInfoList)
    (request : DiscoveryRequest keepalive) (after : PeerInfoList) : Prop where
  distinct : Distinct after
  wellFormed : ∀ address, Registers request.stream address → Serves order keepalive before request address after
  malformed : (∀ address, ¬ Registers request.stream address) → after = before

/-- Unless it has no buffer for the header, the request is not kept from returning: the buffer grows
for what is announced, and the peer does not close the connection inside it.  And nothing is refused
to what is registered. -/
structure Orderly (keepalive : UInt64) (list : PeerInfoList) (request : DiscoveryRequest keepalive) : Prop where
  attends : request.environment.receive.calloc = true →
    ¬ Stalls .handleOnePeerDiscoveryRequest request.environment.receive request.stream
  serviceable : ∀ address, Registers request.stream address →
    Serviceable keepalive request.environment list address

theorem peerListMessage_decodesTo (list : PeerInfoList) : DecodesTo (peerListMessage list) list :=
  fun order behind behindList =>
    peerListMessage_decodes order list behind behindList (fun _ _ => rfl) fun _ _ => rfl

section Runs

variable {order : ByteOrder} {keepalive : UInt64} {before after : PeerInfoList}
  {request : DiscoveryRequest keepalive}

/-- An orderly request that registers an address is served. -/
theorem Orderly.served (order : ByteOrder) (orderly : Orderly keepalive before request) {address : SockaddrIn6}
    (registers : Registers request.stream address) :
    ∃ (registered active : PeerInfoList),
      Entered ⟨address, request.environment.lastConnected⟩ before.peers registered.peers ∧
      (∀ peer, peer ∈ active.peers ↔
        peer ∈ registered.peers ∧ ¬ Older keepalive request.environment.currentTime peer) ∧
      active.peers.Sublist registered.peers ∧
      handleOnePeerDiscoveryRequest order keepalive request.environment before request.stream =
        ⟨(sendAll request.environment.breaksAfter (peerListMessage active)).1, active, some registered,
          (sendAll request.environment.breaksAfter (peerListMessage active)).2⟩ := by
  have serviceable := orderly.serviceable address registers
  exact handle_one_peer_discovery_request_served order request.clocked
    (Stalls.grows (orderly.attends serviceable.calloc)) registers serviceable

theorem Orderly.returns (order : ByteOrder) (orderly : Orderly keepalive before request) :
    returns (handleOnePeerDiscoveryRequest order keepalive request.environment before request.stream).outcome =
      true := by
  by_cases silent : ∀ address, ¬ Registers request.stream address
  · obtain ⟨stop, exchange, taken⟩ : ∃ stop,
        handleOnePeerDiscoveryRequest order keepalive request.environment before request.stream =
          ⟨.error stop, before, none, []⟩ ∧
        registerPeerCommand order request.environment request.stream = .error stop :=
      handle_one_peer_discovery_request_malformed silent
    have comes : LeoCoin.returns (receiveCommand .handleOnePeerDiscoveryRequest request.environment.receive order
        request.stream).outcome = true :=
      receiveCommand_returns orderly.attends
    rw [← registerPeerCommand_returns, taken] at comes
    rw [exchange]
    cases stop <;> exact comes
  · obtain ⟨address, registers⟩ := not_forall_not.mp silent
    obtain ⟨_, active, -, -, -, exchange⟩ := orderly.served order registers
    rw [exchange]
    cases request.environment.breaksAfter <;> rfl

/-- So the server comes to its next request. -/
theorem Orderly.handled (order : ByteOrder) (orderly : Orderly keepalive before request) :
    DiscoveryStep order keepalive before request
      (handleOnePeerDiscoveryRequest order keepalive request.environment before request.stream).list :=
  .handled (orderly.returns order)

theorem DiscoveryStep.list_eq (orderly : Orderly keepalive before request)
    (taken : DiscoveryStep order keepalive before request after) :
    after = (handleOnePeerDiscoveryRequest order keepalive request.environment before request.stream).list := by
  cases taken with
  | handled returned => rfl
  | undefined undefined =>
    have comes := orderly.returns order
    rw [undefined] at comes
    cases comes

/-- What one orderly request keeps of a list without duplicates. -/
theorem DiscoveryStep.honors (orderly : Orderly keepalive before request)
    (taken : DiscoveryStep order keepalive before request after) (distinct : Distinct before) :
    Honors order keepalive before request after := by
  obtain rfl := taken.list_eq orderly
  by_cases silent : ∀ address, ¬ Registers request.stream address
  · obtain ⟨stop, exchange, -⟩ := handle_one_peer_discovery_request_malformed silent
    rw [exchange]
    exact ⟨distinct, fun address registers => absurd registers (silent address), fun _ => rfl⟩
  · refine ⟨?_, fun address registers => ?_, fun malformed => absurd malformed silent⟩
    · obtain ⟨address, registers⟩ := not_forall_not.mp silent
      obtain ⟨registered, active, entered, -, sub, exchange⟩ := orderly.served order registers
      rw [exchange]
      exact (sub.map _).nodup (entered.nodup distinct)
    · obtain ⟨registered, active, entered, members, -, exchange⟩ := orderly.served order registers
      have recent : ¬ Older keepalive request.environment.currentTime
          ⟨address, request.environment.lastConnected⟩ := by
        have soon := request.clocked.soon
        rw [Older]
        dsimp only
        omega
      refine ⟨?_, ?_, ?_, peerListMessage active, ?_, by rw [exchange]⟩
      · rw [exchange]
        exact (members _).mpr ⟨entered.mem, recent⟩
      · rw [exchange]
        exact fun peer member => ((members peer).mp member).2
      · rw [exchange]
        intro peer member young
        exact (entered.keeps member).imp_right fun present => (members peer).mpr ⟨present, young⟩
      · rw [exchange]
        exact peerListMessage_decodesTo active

/-- In a run of orderly requests no address is ever listed twice. -/
theorem distinct_of_run {requests : List (DiscoveryRequest keepalive)} {list : PeerInfoList}
    (run : Run (Guarded (DiscoveryStep order keepalive) (Orderly keepalive)) .create requests list) :
    Distinct list :=
  run.invariant Distinct List.nodup_nil fun _ _ _ distinct taken => (taken.2.honors taken.1 distinct).distinct

end Runs

/-- Every request of a run of orderly ones comes to its end and keeps what it should. -/
theorem discovery_requests_honored (order : ByteOrder) (keepalive : UInt64)
    {requests : List (DiscoveryRequest keepalive)} {before : PeerInfoList} {request : DiscoveryRequest keepalive}
    (run : Run (Guarded (DiscoveryStep order keepalive) (Orderly keepalive)) .create requests before)
    (orderly : Orderly keepalive before request) :
    (∃ after, DiscoveryStep order keepalive before request after) ∧
      ∀ after, DiscoveryStep order keepalive before request after → Honors order keepalive before request after :=
  ⟨⟨_, orderly.handled order⟩, fun _ taken => taken.honors orderly (distinct_of_run run)⟩

/-! ## Two requests of one peer -/

/-- A call that nothing is refused to, at these two values of the clock. -/
def DiscoveryEnvironment.ideal (lastConnected currentTime : Int64) : DiscoveryEnvironment where
  receive := .plenty
  peerInfo := true
  node := true
  listGrants := grantAll
  frameGrants := grantAll
  breaksAfter := none
  lastConnected := lastConnected
  currentTime := currentTime

/-- The loopback address, and port 44444. -/
def sampleAddress : SockaddrIn6 := ⟨10, 44444, 0, #v[0, 0, 0, 0, 0, 0, 0, 0, 0, 0, 0, 0, 0, 0, 0, 1], 0⟩

def sampleRequest : DiscoveryRequest 60000000 where
  environment := .ideal 100 101
  stream := .chunk (registerMessage sampleAddress) .closed
  clocked := ⟨by decide, by decide⟩

theorem sampleRequest_delivers : sampleRequest.stream.contents = registerMessage sampleAddress := List.append_nil _

theorem sampleRequest_orderly {list : PeerInfoList} (few : peersMemory list.peers + 56 < 2 ^ 64)
    (dated : ∀ peer ∈ list.peers, Dated 101 peer) : Orderly 60000000 list sampleRequest := by
  have length : sampleRequest.stream.contents.length = 48 := rfl
  refine ⟨fun _ => ?_, fun address _ => ⟨rfl, rfl, .inr ⟨rfl, few⟩, fun _ _ => rfl, fun _ _ => rfl,
    dated, keepaliveExact_of_lt (by decide)⟩⟩
  rintro (⟨-, short⟩ | ⟨header, announced, wraps⟩ | ⟨header, announced, -, -, short⟩)
  · omega
  · obtain rfl := header_of_registerMessage sampleRequest_delivers announced
    exact wraps ((growsBuffer_plenty_iff _ _).mpr (by decide))
  · obtain rfl := header_of_registerMessage sampleRequest_delivers announced
    have declared : registerHeader.commandLen.toNat = 32 := rfl
    omega

/-- The peer is registered, and asks again. -/
theorem discovery_requests_honored_sample :
    ∃ first second, Run (Guarded (DiscoveryStep .littleEndian 60000000) (Orderly 60000000)) .create
        [sampleRequest] first ∧ Honors .littleEndian 60000000 first sampleRequest second := by
  have orderly : Orderly 60000000 .create sampleRequest :=
    sampleRequest_orderly (by decide) (by simp [PeerInfoList.create])
  have registers := registers_registerMessage sampleRequest_delivers
  obtain ⟨registered, first, entered, -, sub, exchange⟩ := orderly.served .littleEndian registers
  have taken : DiscoveryStep .littleEndian 60000000 .create sampleRequest first := by
    have handled := orderly.handled .littleEndian
    rw [exchange] at handled
    exact handled
  -- the list is the one entry, which is dated
  have only (peer : PeerInfo) (member : peer ∈ first.peers) : peer = ⟨sampleAddress, 100⟩ := by
    rcases entered.origin (sub.subset member) with own | earlier
    · exact own
    · cases earlier
  have few : peersMemory first.peers + 56 < 2 ^ 64 := by
    have length : first.peers.length ≤ 0 + 1 := sub.length_le.trans entered.length_le
    rw [peersMemory]
    omega
  have again : Orderly 60000000 first sampleRequest := sampleRequest_orderly few fun peer member => by
    rw [only peer member]
    decide
  obtain ⟨⟨second, answered⟩, honors⟩ :=
    discovery_requests_honored .littleEndian 60000000 (Run.single ⟨orderly, taken⟩) again
  exact ⟨first, second, Run.single ⟨orderly, taken⟩, honors second answered⟩

/-- The header declares a payload of `2 ^ 64 - 1` bytes. -/
def wrappingRegisterHeader : CommandHeader := { registerHeader with commandLen := 18446744073709551615 }

def wrappingRequest : DiscoveryRequest 60000000 where
  environment := .ideal 100 101
  stream := .chunk (encodeCommandHeader wrappingRegisterHeader) .closed
  clocked := ⟨by decide, by decide⟩

/-- The sum wraps to 15, the payload is received behind the end of the buffer, and the list of a
server that has registered nobody can be any list afterwards. -/
theorem wrapping_request_not_honored :
    ¬ ∀ after, DiscoveryStep .littleEndian 60000000 .create wrappingRequest after →
      Honors .littleEndian 60000000 .create wrappingRequest after := by
  have announced : Announces .handleOnePeerDiscoveryRequest wrappingRequest.stream wrappingRegisterHeader :=
    ⟨rfl, rfl, List.prefix_append _ _⟩
  have wraps : ¬ GrowsBuffer .handleOnePeerDiscoveryRequest .plenty wrappingRegisterHeader.commandLen := by
    rw [growsBuffer_plenty_iff]
    decide
  have overflows : (receiveCommand .handleOnePeerDiscoveryRequest wrappingRequest.environment.receive .littleEndian
      wrappingRequest.stream).outcome = .error .undefined :=
    receiveCommand_overflows .littleEndian rfl announced wraps
  have undefined : (handleOnePeerDiscoveryRequest .littleEndian 60000000 wrappingRequest.environment .create
      wrappingRequest.stream).outcome = .error .undefined := by
    rw [handleOnePeerDiscoveryRequest, registerPeerCommand, overflows]
  -- the sixteen bytes register no address
  have silent (address : SockaddrIn6) : ¬ Registers wrappingRequest.stream address := by
    rintro ⟨header, payload, message, -⟩
    obtain rfl := announced.unique message.announces
    have delivered := message.delivered.length_le
    have sixteen : wrappingRequest.stream.contents.length = 16 := rfl
    have declared : wrappingRegisterHeader.commandLen.toNat = 18446744073709551615 := rfl
    rw [sixteen, List.length_append, message.measured, declared] at delivered
    omega
  let peer : PeerInfo := ⟨sampleAddress, 0⟩
  let other : PeerInfoList := ⟨[peer], by decide⟩
  intro honored
  have same : other = .create := (honored other (.undefined undefined)).malformed silent
  have length : 1 = 0 := congrArg (fun list : PeerInfoList => list.peers.length) same
  cases length

end LeoCoin
