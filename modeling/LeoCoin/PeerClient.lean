import LeoCoin.PeerDiscovery

/-! # The peer discovery client

`discover_peers_once` registers its address with the server and takes over the list that
comes back.  The list it has is replaced when the answer has been deserialized and not
before; a server that closes the connection early keeps the client waiting.
-/

namespace LeoCoin

open Library.Decoding

/-! ## The client -/

/-- What one call meets: whether a socket is opened and connected, how many bytes are sent
before an error, the allocators in the order they are used, and the memory behind the two
buffers that are decoded. -/
structure PeerClientEnvironment where
  socket : Bool
  connects : Bool
  registerGrants : Nat → Nat → Bool
  breaksAfter : Option Nat
  receive : ReceiveMemory
  commandGrants : Nat → Nat → Bool
  listGrants : Nat → Nat → Bool
  behindCommand : Nat → UInt8
  behindList : Nat → UInt8

/-- What a call comes to: its return code, the client's list afterwards and the bytes sent. -/
structure PeerDiscovery where
  outcome : Except Stop Unit
  list : PeerInfoList
  sent : List UInt8

/-- From the socket to `send_all`: how it ends, and what was sent. -/
def sendRegistration (order : ByteOrder) (environment : PeerClientEnvironment) (peerAddr : SockaddrIn6) :
    Except Stop Unit × List UInt8 :=
  if !environment.socket then (.error (.failure .networkFunction), [])
  else if !environment.connects then (.error (.failure .networkFunction), [])
  else
    match commandRegisterPeerSerialize environment.registerGrants order (.ofPeerAddr peerAddr) with
    | .error code => (.error (.failure code), [])
    | .ok (sendBuf, _) => sendAll environment.breaksAfter sendBuf

/-- From the first `recv_all` to the deserialized list. -/
def receivePeerList (order : ByteOrder) (environment : PeerClientEnvironment) (stream : Stream) :
    Except Stop PeerInfoList :=
  match (receiveCommand .discoverPeersOnce environment.receive order stream).outcome with
  | .error stop => .error stop
  | .ok recvBuf =>
    match decodeBuffer (commandSendPeerListDeserialize order)
        (Input.ofBuffer recvBuf environment.behindCommand environment.commandGrants) with
    | .error code => .error (.failure code)
    | .ok command =>
      match decodeBuffer (peerInfoListDeserialize order)
          (Input.ofBuffer command.peerListData environment.behindList environment.listGrants) with
      | .error code => .error (.failure code)
      | .ok newPeerInfoList => .ok newPeerInfoList

def discoverPeersOnce (order : ByteOrder) (environment : PeerClientEnvironment) (peerAddr : SockaddrIn6)
    (list : PeerInfoList) (stream : Stream) : PeerDiscovery :=
  match sendRegistration order environment peerAddr with
  | (.error stop, sent) => ⟨.error stop, list, sent⟩
  | (.ok _, sent) =>
    match receivePeerList order environment stream with
    | .error stop => ⟨.error stop, list, sent⟩
    | .ok newPeerInfoList => ⟨.ok (), newPeerInfoList, sent⟩

/-! ## What is sent -/

/-- The whole registration leaves the client, though the connection may fail behind it. -/
structure Sends (environment : PeerClientEnvironment) : Prop where
  socket : environment.socket = true
  connects : environment.connects = true
  payload : environment.registerGrants 0 32 = true
  header : environment.registerGrants 1 16 = true
  total : environment.registerGrants 2 48 = true
  whole : ∀ count, environment.breaksAfter = some count → 48 ≤ count

/-- The registration leaves the client without an error, and the client goes on to receive. -/
structure Receives (environment : PeerClientEnvironment) : Prop where
  sends : Sends environment
  unbroken : environment.breaksAfter = none

theorem registerMessage_length (address : SockaddrIn6) : (registerMessage address).length = 48 := by
  simp [registerMessage]

theorem command_register_peer_serialize_iff (order : ByteOrder) (peerAddr : SockaddrIn6) (grants : Nat → Nat → Bool) :
    (∃ result, commandRegisterPeerSerialize grants order (.ofPeerAddr peerAddr) = .ok result) ↔
      grants 0 32 = true ∧ grants 1 16 = true ∧ grants 2 48 = true := by
  have sends : ¬ (CommandRegisterPeer.ofPeerAddr peerAddr).header.command ≠ Command.registerPeer.code :=
    not_not_intro rfl
  have written : commandHeaderSerialize order
      { (CommandRegisterPeer.ofPeerAddr peerAddr).header with commandLen := 32 } = .ok _ :=
    command_header_serialize_eq order rfl
  rw [commandRegisterPeerSerialize, if_neg sends, written]
  cases grants 0 32 with
  | false => simp
  | true =>
    cases grants 1 16 with
    | false => simp
    | true =>
      cases grants 2 48 with
      | false => simp [bind, Except.bind]
      | true => simp [bind, Except.bind, pure, Except.pure]

/-- Nothing is refused up to `send_all`. -/
structure Prepares (environment : PeerClientEnvironment) : Prop where
  socket : environment.socket = true
  connects : environment.connects = true
  payload : environment.registerGrants 0 32 = true
  header : environment.registerGrants 1 16 = true
  total : environment.registerGrants 2 48 = true

section Sending

variable {environment : PeerClientEnvironment}

theorem sends_iff :
    Sends environment ↔ Prepares environment ∧ ∀ count, environment.breaksAfter = some count → 48 ≤ count := by
  constructor
  · rintro ⟨socket, connects, payload, header, total, whole⟩
    exact ⟨⟨socket, connects, payload, header, total⟩, whole⟩
  · rintro ⟨⟨socket, connects, payload, header, total⟩, whole⟩
    exact ⟨socket, connects, payload, header, total, whole⟩

theorem sendRegistration_prepared (order : ByteOrder) (peerAddr : SockaddrIn6) (prepares : Prepares environment) :
    sendRegistration order environment peerAddr = sendAll environment.breaksAfter (registerMessage peerAddr) := by
  obtain ⟨⟨sendBuf, size⟩, serialized⟩ :=
    (command_register_peer_serialize_iff order peerAddr environment.registerGrants).mpr
      ⟨prepares.payload, prepares.header, prepares.total⟩
  have prefixed : (CommandRegisterPeer.ofPeerAddr peerAddr).header.Prefixed := rfl
  have message := command_register_peer_serialize_sound prefixed serialized
  rw [CommandRegisterPeer.listenAddr_ofPeerAddr] at message
  rw [sendRegistration, prepares.socket, prepares.connects, serialized, ← message]
  rfl

theorem sendRegistration_unprepared (order : ByteOrder) (peerAddr : SockaddrIn6) (refused : ¬ Prepares environment) :
    ∃ code, sendRegistration order environment peerAddr = (.error (.failure code), []) := by
  rw [sendRegistration]
  split
  · exact ⟨_, rfl⟩
  next socket =>
    split
    · exact ⟨_, rfl⟩
    next connects =>
      split
      next code _ => exact ⟨code, rfl⟩
      next serialized =>
        obtain ⟨payload, header, total⟩ :=
          (command_register_peer_serialize_iff order peerAddr environment.registerGrants).mp ⟨_, serialized⟩
        exact absurd ⟨by simpa using socket, by simpa using connects, payload, header, total⟩ refused

end Sending

/-- A registration is sent, or an error is returned with what had been sent until then. -/
theorem sendRegistration_cases (order : ByteOrder) (environment : PeerClientEnvironment) (peerAddr : SockaddrIn6) :
    (Receives environment ∧ sendRegistration order environment peerAddr = (.ok (), registerMessage peerAddr)) ∨
      ¬ Receives environment ∧ ∃ code sent,
        sendRegistration order environment peerAddr = (.error (.failure code), sent) ∧
          sent <+: registerMessage peerAddr ∧ (sent = registerMessage peerAddr ↔ Sends environment) := by
  by_cases prepares : Prepares environment
  · rw [sendRegistration_prepared order peerAddr prepares]
    cases breaks : environment.breaksAfter with
    | none =>
      have sends : Sends environment := sends_iff.mpr ⟨prepares, by simp [breaks]⟩
      exact .inl ⟨⟨sends, breaks⟩, rfl⟩
    | some count =>
      refine .inr ⟨fun receives => by simp [receives.unbroken] at breaks, _, _, rfl, List.take_prefix _ _, ?_⟩
      rw [List.take_eq_self_iff, registerMessage_length, sends_iff]
      exact ⟨fun enough => ⟨prepares, by simpa [breaks] using enough⟩, fun sends => sends.2 count breaks⟩
  · obtain ⟨code, unsent⟩ := sendRegistration_unprepared order peerAddr prepares
    have quiet : ¬ Sends environment := fun sends => prepares (sends_iff.mp sends).1
    have nonempty : [] ≠ registerMessage peerAddr := fun empty => by
      have length := congrArg List.length empty
      rw [registerMessage_length] at length
      cases length
    exact .inr ⟨fun receives => quiet receives.sends, code, [], unsent, List.nil_prefix, iff_of_false nonempty quiet⟩

/-- Whatever the client is answered, it sends a registration or the beginning of one. -/
theorem discover_peers_once_sent (order : ByteOrder) (environment : PeerClientEnvironment) (peerAddr : SockaddrIn6)
    (list : PeerInfoList) (stream : Stream) :
    let discovery := discoverPeersOnce order environment peerAddr list stream
    discovery.sent <+: registerMessage peerAddr ∧ (discovery.sent = registerMessage peerAddr ↔ Sends environment) := by
  rw [discoverPeersOnce]
  rcases sendRegistration_cases order environment peerAddr with ⟨receives, all⟩ | ⟨-, code, sent, part, begins, whole⟩
  · simp only [all]
    cases receivePeerList order environment stream with
    | error stop => simp [receives.sends]
    | ok newPeerInfoList => simp [receives.sends]
  · simp only [part]
    exact ⟨begins, whole⟩

/-! ## What is received -/

/-- The connection begins with a message that carries this list. -/
def Encodes (stream : Stream) (list : PeerInfoList) : Prop :=
  ∃ header payload len data, Message .discoverPeersOnce stream header payload ∧ Declares payload len data ∧
    encodePeerInfoList list <+: data

/-- The length in an announced header, and the one in front of the serialized list, are below
`2 ^ 63`. -/
structure ShortLengths (stream : Stream) : Prop where
  payload : ∀ header, Announces .discoverPeersOnce stream header → header.commandLen.toNat < 2 ^ 63
  data : ∀ header len, encodeCommandHeader header ++ (splitBytes len).toList <+: stream.contents →
    len.toNat < 2 ^ 63

section Receiving

variable {order : ByteOrder} {environment : PeerClientEnvironment} {peerAddr : SockaddrIn6}
  {list newPeerInfoList : PeerInfoList} {stream : Stream}

theorem Encodes.unique {other : PeerInfoList} (encodes : Encodes stream list) (also : Encodes stream other) :
    list = other := by
  obtain ⟨header, payload, len, data, message, declares, begins⟩ := encodes
  obtain ⟨_, _, _, _, otherMessage, otherDeclares, otherBegins⟩ := also
  obtain ⟨rfl, rfl⟩ := message.unique otherMessage
  obtain ⟨rfl, rfl⟩ := declares.unique otherDeclares
  -- of two lists that begin the same bytes, one begins the other
  cases Nat.le_total (encodePeerInfoList list).length (encodePeerInfoList other).length with
  | inl shorter => exact encodePeerInfoList_prefix_eq (List.prefix_of_prefix_length_le begins otherBegins shorter)
  | inr shorter =>
    exact (encodePeerInfoList_prefix_eq (List.prefix_of_prefix_length_le otherBegins begins shorter)).symm

theorem encodes_of_receivePeerList
    (small : ∀ header payload len, Message .discoverPeersOnce stream header payload →
      (splitBytes len).toList <+: payload → 24 + len.toNat < 2 ^ 64)
    (taken : receivePeerList order environment stream = .ok newPeerInfoList) : Encodes stream newPeerInfoList := by
  rw [receivePeerList] at taken
  split at taken
  · cases taken
  next recvBuf received =>
    obtain ⟨header, payload, message, rfl⟩ := message_of_received received
    split at taken
    · cases taken
    next command decoded =>
      split at taken
      · cases taken
      next deserialized =>
        cases taken
        obtain ⟨len, data, declares⟩ := declares_of_command_send_peer_list message.prefixed message.command
          (fun len begins => small header payload len message begins) decoded
        have fits := small header payload len message ((List.prefix_append _ _).trans declares.begins)
        have contents :=
          contents_of_command_send_peer_list message.prefixed message.command fits declares decoded
        have data_ : command.peerListData = data := (Prod.mk.inj (Prod.mk.inj contents).2).2
        rw [data_] at deserialized
        exact ⟨header, payload, len, data, message, declares,
          begins_of_peer_info_list_deserialize deserialized⟩

theorem ShortLengths.small (short : ShortLengths stream) (header : CommandHeader) (payload : List UInt8) (len : UInt64)
    (message : Message .discoverPeersOnce stream header payload) (begins : (splitBytes len).toList <+: payload) :
    24 + len.toNat < 2 ^ 64 := by
  have bound := short.data header len
    (((List.prefix_append_right_inj (encodeCommandHeader header)).mpr begins).trans message.delivered)
  omega

end Receiving

/-! ## The list is replaced or kept -/

section Replacing

variable {environment : PeerClientEnvironment} {stream : Stream}

theorem discover_peers_once_encoded (order : ByteOrder) (peerAddr : SockaddrIn6) (list : PeerInfoList)
    {newPeerInfoList : PeerInfoList} (receives : Receives environment) (calloc : environment.receive.calloc = true)
    (realloc : ∀ size, environment.receive.realloc size = true)
    (command : ∀ ordinal size, environment.commandGrants ordinal size = true)
    (lists : ∀ ordinal size, environment.listGrants ordinal size = true) (short : ShortLengths stream)
    (encodes : Encodes stream newPeerInfoList) :
    discoverPeersOnce order environment peerAddr list stream = ⟨.ok (), newPeerInfoList, registerMessage peerAddr⟩ := by
  obtain ⟨header, payload, len, data, message, declares, begins⟩ := encodes
  have bound := short.payload header message.announces
  have received : (receiveCommand .discoverPeersOnce environment.receive order stream).outcome =
      .ok (encodeCommandHeader header ++ payload) := message.received calloc (realloc _) (by omega)
  have fits := short.small header payload len message ((List.prefix_append _ _).trans declares.begins)
  obtain ⟨sendPeerList, decoded, contents⟩ : ∃ sendPeerList, decodeBuffer (commandSendPeerListDeserialize order)
      (Input.ofBuffer (encodeCommandHeader header ++ payload) environment.behindCommand environment.commandGrants) =
        .ok sendPeerList ∧ sendPeerList.contents = (header, len, data) :=
    command_send_peer_list_declares order message.prefixed message.command fits declares command
  have data_ : sendPeerList.peerListData = data := (Prod.mk.inj (Prod.mk.inj contents).2).2
  have deserialized : decodeBuffer (peerInfoListDeserialize order)
      (Input.ofBuffer sendPeerList.peerListData environment.behindList environment.listGrants) =
      .ok newPeerInfoList := data_ ▸ peer_info_list_deserialize_eq order environment.behindList lists begins
  rcases sendRegistration_cases order environment peerAddr with ⟨-, all⟩ | ⟨fails, -⟩
  · rw [discoverPeersOnce, all, receivePeerList, received]
    simp only [decoded, deserialized]
  · exact absurd receives fails

end Replacing

/-! ## The server's side of an exchange -/

/-- The server takes in a registration: nothing is refused up to the entry in the list, and the
times of the entries can be compared. -/
structure Accepts (environment : DiscoveryEnvironment) (list : PeerInfoList) (peerAddr : SockaddrIn6) : Prop where
  calloc : environment.receive.calloc = true
  realloc : environment.receive.realloc 48 = true
  peerInfo : environment.peerInfo = true
  room : peerAddr ∈ list.peers.map PeerInfo.listenAddr ∨
    environment.node = true ∧ peersMemory list.peers + 56 < 2 ^ 64
  dated : ∀ peer ∈ PeerInfo.mk peerAddr environment.lastConnected ::
    list.peers.eraseP fun other => other.listenAddr = peerAddr, Dated environment.currentTime peer

section Server

variable {order : ByteOrder} {keepalive : UInt64} {environment : DiscoveryEnvironment} {list : PeerInfoList}
  {stream : Stream} {peerAddr : SockaddrIn6}

/-- A request that begins a registration and registers anybody is the whole of it. -/
theorem Registers.whole {address : SockaddrIn6} (registers : Registers stream address)
    (begins : stream.contents <+: registerMessage peerAddr) : stream.contents = registerMessage peerAddr := by
  obtain ⟨header, payload, message, -⟩ := registers
  obtain ⟨rest, split⟩ := message.delivered.trans begins
  rw [registerMessage, List.append_assoc] at split
  obtain ⟨sameHeader, -⟩ := List.append_inj split (by simp)
  obtain rfl := encodeCommandHeader_injective sameHeader
  have length := message.delivered.length_le
  have measured : payload.length = 32 := message.measured
  rw [List.length_append, encodeCommandHeader_length, measured] at length
  exact begins.eq_of_length_le (by rw [registerMessage_length]; exact length)

end Server

/-! ## Exchanges -/

theorem payload_of_begins {stream : Stream} {list : PeerInfoList} {header : CommandHeader} {payload : List UInt8}
    (begins : stream.contents <+: peerListMessage list)
    (message : Message .discoverPeersOnce stream header payload) :
    payload = (splitBytes (UInt64.ofNat (encodePeerInfoList list).length)).toList ++ encodePeerInfoList list := by
  obtain ⟨rest, split⟩ := message.delivered.trans begins
  rw [peerListMessage, framedMessage, List.append_assoc] at split
  obtain ⟨sameHeader, tails⟩ := List.append_inj split (by simp)
  obtain rfl := encodeCommandHeader_injective sameHeader
  -- the header declares the whole payload
  have declared : (framedHeader .sendPeerList (UInt64.ofNat (encodePeerInfoList list).length)).commandLen.toNat =
      8 + (encodePeerInfoList list).length := by
    have small := peerListMessage_small list
    rw [framedHeader, UInt64.toNat_add, encodePeerInfoList_length_toNat]
    rw [encodePeerInfoList_length_toNat] at small
    exact Nat.mod_eq_of_lt (by show 8 + _ < _; omega)
  have whole : payload <+:
      (splitBytes (UInt64.ofNat (encodePeerInfoList list).length)).toList ++ encodePeerInfoList list := ⟨rest, tails⟩
  refine whole.eq_of_length ?_
  rw [message.measured, declared, List.length_append, Vector.length_toList]

/-- A client that is sent no more than the message with a list takes over that list, or none. -/
theorem receivePeerList_of_begins {order : ByteOrder} {environment : PeerClientEnvironment} {stream : Stream}
    {list newPeerInfoList : PeerInfoList} (begins : stream.contents <+: peerListMessage list)
    (taken : receivePeerList order environment stream = .ok newPeerInfoList) : newPeerInfoList = list := by
  have small (header : CommandHeader) (payload : List UInt8) (len : UInt64)
      (message : Message .discoverPeersOnce stream header payload) (starts : (splitBytes len).toList <+: payload) :
      24 + len.toNat < 2 ^ 64 := by
    obtain ⟨rest, split⟩ := starts
    rw [payload_of_begins begins message] at split
    obtain ⟨same, -⟩ := List.append_inj split (by simp)
    obtain rfl := splitBytes_injective (Vector.toList_inj.mp same)
    exact peerListMessage_small list
  have encodes := encodes_of_receivePeerList small taken
  -- the message that was received carries the server's list
  have carries : Encodes stream list := by
    obtain ⟨header, payload, _, _, message, -⟩ := encodes
    rw [payload_of_begins begins message] at message
    exact ⟨header, _, _, _, message, declares_peerList list, List.prefix_refl _⟩
  exact encodes.unique carries

section Exchanges

variable {clientOrder serverOrder : ByteOrder} {environment : PeerClientEnvironment}
  {serverEnvironment : DiscoveryEnvironment} {keepalive : UInt64} {peerAddr : SockaddrIn6}
  {list serverList : PeerInfoList} {request reply : Stream}

end Exchanges

/-- A call that nothing goes wrong in. -/
def PeerClientEnvironment.ideal : PeerClientEnvironment where
  socket := true
  connects := true
  registerGrants := grantAll
  breaksAfter := none
  receive := .plenty
  commandGrants := grantAll
  listGrants := grantAll
  behindCommand := fun _ => 0
  behindList := fun _ => 0

theorem PeerClientEnvironment.ideal_receives : Receives .ideal :=
  ⟨⟨rfl, rfl, rfl, rfl, rfl, fun _ breaks => by cases breaks⟩, rfl⟩

end LeoCoin
