import LeoCoin.Declared
import LeoCoin.Hashing
import LeoCoin.Receive

/-! # Peers

The list of peers as server and client keep it, and the two messages that carry peers: a
client registers one address with `COMMAND_REGISTER_PEER` and is sent the whole list with
`COMMAND_SEND_PEER_LIST`.  Addresses and ports are numbers in a `struct sockaddr_in6` here;
they are converted on the way out and back on the way in, once each.
-/

namespace LeoCoin

open Library.Decoding

/-! ## The list -/

/-- The memory of a list of peers: its struct, and a node and a struct for each entry. -/
def peersMemory (peers : List PeerInfo) : Nat := 24 + (16 + 40) * peers.length

/-- A list of peers is in memory, so its length and the size of its serialization are exact
in a `uint64_t`. -/
structure PeerInfoList where
  peers : List PeerInfo
  fits : peersMemory peers < 2 ^ 64
deriving DecidableEq

theorem peersMemory_nil : peersMemory [] < 2 ^ 64 := by decide

/-- `linked_list_create` for peers. -/
def PeerInfoList.create : PeerInfoList := ⟨[], peersMemory_nil⟩

/-- `linked_list_prepend` for peers, its node granted. -/
def PeerInfoList.prepend (list : PeerInfoList) (peer : PeerInfo) : Except Failure PeerInfoList :=
  if fits : peersMemory (peer :: list.peers) < 2 ^ 64 then .ok ⟨peer :: list.peers, fits⟩
  else .error .couldNotMalloc

/-- `linked_list_append` for peers, its node granted. -/
def PeerInfoList.append (list : PeerInfoList) (peer : PeerInfo) : Except Failure PeerInfoList :=
  if fits : peersMemory (list.peers ++ [peer]) < 2 ^ 64 then .ok ⟨list.peers ++ [peer], fits⟩
  else .error .couldNotMalloc

theorem PeerInfoList.ext {left right : PeerInfoList} (same : left.peers = right.peers) : left = right := by
  cases left
  cases right
  simp_all

theorem PeerInfoList.length_toNat (list : PeerInfoList) :
    (linkedListLength list.peers).toNat = list.peers.length := by
  have fits := list.fits
  rw [peersMemory] at fits
  exact linkedListLength_toNat (by omega)

theorem PeerInfoList.append_ok {list longer : PeerInfoList} {peer : PeerInfo}
    (appended : list.append peer = .ok longer) : longer.peers = list.peers ++ [peer] := by
  rw [append] at appended
  split at appended
  · cases appended
    rfl
  · cases appended

/-! ## Comparing -/

/-- The `struct sockaddr_in6` in memory; it has no padding. -/
def sockaddrBytes (order : ByteOrder) (address : SockaddrIn6) : Vector UInt8 28 :=
  storeUInt16 order address.sin6Family ++ storeUInt16 order address.sin6Port ++
    storeUInt32 order address.sin6Flowinfo ++ address.sin6Addr ++ storeUInt32 order address.sin6ScopeId

/-- `compare_peer_info_t`, on peers that are there. -/
def comparePeerInfoT (order : ByteOrder) (peer1 peer2 : PeerInfo) : Int :=
  memcmp (memoryOf (sockaddrBytes order peer1.listenAddr) fun _ => 0)
    (memoryOf (sockaddrBytes order peer2.listenAddr) fun _ => 0) 28

/-- `linked_list_find`: the position of the node. -/
def linkedListFind {α : Type} (compareFunction : α → α → Int) (data : α) : List α → Option Nat
  | [] => none
  | first :: rest =>
    if compareFunction data first = 0 then some 0
    else (linkedListFind compareFunction data rest).map (· + 1)

theorem storeUInt16_injective (order : ByteOrder) : Function.Injective (storeUInt16 order) := by
  intro left right same
  cases order with
  | bigEndian => exact splitBytes16_injective same
  | littleEndian => exact splitBytes16_injective (Vector.reverse_inj.mp same)

theorem storeUInt32_injective (order : ByteOrder) : Function.Injective (storeUInt32 order) := by
  intro left right same
  cases order with
  | bigEndian => exact splitBytes32_injective same
  | littleEndian => exact splitBytes32_injective (Vector.reverse_inj.mp same)

theorem sockaddrBytes_injective (order : ByteOrder) : Function.Injective (sockaddrBytes order) := by
  intro left right same
  rw [sockaddrBytes, sockaddrBytes] at same
  obtain ⟨same, scope⟩ := Vector.append_inj same
  obtain ⟨same, octets⟩ := Vector.append_inj same
  obtain ⟨same, flowinfo⟩ := Vector.append_inj same
  obtain ⟨family, port⟩ := Vector.append_inj same
  cases left
  cases right
  obtain rfl := storeUInt16_injective order family
  obtain rfl := storeUInt16_injective order port
  obtain rfl := storeUInt32_injective order flowinfo
  obtain rfl := octets
  obtain rfl := storeUInt32_injective order scope
  rfl

theorem comparePeerInfoT_eq_zero {order : ByteOrder} {peer1 peer2 : PeerInfo} :
    comparePeerInfoT order peer1 peer2 = 0 ↔ peer1.listenAddr = peer2.listenAddr := by
  rw [comparePeerInfoT, memcmp_memoryOf, (sockaddrBytes_injective order).eq_iff]

/-! ## Their formats -/

/-- The five fields of an address, as both messages carry them. -/
def encodeSockaddr (address : SockaddrIn6) : List UInt8 :=
  (splitBytes16 address.sin6Family).toList ++ ((splitBytes16 address.sin6Port).toList ++
    ((splitBytes32 address.sin6Flowinfo).toList ++ (address.sin6Addr.toList ++
      (splitBytes32 address.sin6ScopeId).toList)))

def encodePeerInfo (peer : PeerInfo) : List UInt8 :=
  encodeSockaddr peer.listenAddr ++ (splitBytes peer.lastConnected.toUInt64).toList

/-- The serialization of a list of peers. -/
def encodePeerInfoList (list : PeerInfoList) : List UInt8 :=
  (splitBytes (linkedListLength list.peers)).toList ++ list.peers.flatMap encodePeerInfo

@[simp] theorem encodeSockaddr_length (address : SockaddrIn6) : (encodeSockaddr address).length = 28 := by
  simp [encodeSockaddr]

@[simp] theorem encodePeerInfo_length (peer : PeerInfo) : (encodePeerInfo peer).length = 36 := by
  simp [encodePeerInfo]

theorem encodePeerInfoList_length (list : PeerInfoList) :
    (encodePeerInfoList list).length = 8 + 36 * list.peers.length := by
  have constant (peers : List PeerInfo) : (peers.flatMap encodePeerInfo).length = 36 * peers.length := by
    induction peers with
    | nil => rfl
    | cons peer rest ih =>
      simp only [List.flatMap_cons, List.length_append, encodePeerInfo_length, ih, List.length_cons]
      omega
  simp [encodePeerInfoList, constant]

theorem encodePeerInfoList_fits (list : PeerInfoList) : 24 + (encodePeerInfoList list).length < 2 ^ 64 := by
  have fits := list.fits
  rw [peersMemory] at fits
  rw [encodePeerInfoList_length]
  omega

theorem encodePeerInfoList_length_toNat (list : PeerInfoList) :
    (UInt64.ofNat (encodePeerInfoList list).length).toNat = (encodePeerInfoList list).length := by
  have fits := encodePeerInfoList_fits list
  rw [UInt64.toNat_ofNat', Nat.mod_eq_of_lt (by omega)]

/-! ## Writing them -/

/-- `*(uint16_t *)next_spot_in_buffer = htons(data)` -/
def writeUInt16 (order : ByteOrder) (data : UInt16) : List UInt8 :=
  (storeUInt16 order (htons order data)).toList

/-- `*(uint32_t *)next_spot_in_buffer = htonl(data)` -/
def writeUInt32 (order : ByteOrder) (data : UInt32) : List UInt8 :=
  (storeUInt32 order (htonl order data)).toList

/-- The five fields of an address, one after the other. -/
def writeSockaddr (order : ByteOrder) (address : SockaddrIn6) : List UInt8 :=
  writeUInt16 order address.sin6Family ++
  writeUInt16 order address.sin6Port ++
  writeUInt32 order address.sin6Flowinfo ++
  address.sin6Addr.toList ++
  writeUInt32 order address.sin6ScopeId

def writePeerInfo (order : ByteOrder) (peer : PeerInfo) : List UInt8 :=
  writeSockaddr order peer.listenAddr ++
  writeUInt64 order peer.lastConnected.toUInt64

/-- The number of peers, then the loop. -/
def serializePeersInto (grants : Nat → Nat → Bool) (order : ByteOrder) (list : PeerInfoList)
    (buffer : SerializationBuffer) : Except Failure SerializationBuffer := do
  let buffer ← buffer.extend grants (writeUInt64 order (linkedListLength list.peers))
  list.peers.foldlM (fun buffer peer => buffer.extend grants (writePeerInfo order peer)) buffer

/-- `peer_info_list_serialize`: the buffer and `*buffer_size`. -/
def peerInfoListSerialize (grants : Nat → Nat → Bool) (order : ByteOrder) (list : PeerInfoList) :
    Except Failure (List UInt8 × UInt64) := do
  let buffer ← serializePeersInto grants order list ⟨[], 0, 0⟩
  return (buffer.bytes, buffer.size)

theorem writeSockaddr_eq (order : ByteOrder) (address : SockaddrIn6) :
    writeSockaddr order address = encodeSockaddr address := by
  simp [writeSockaddr, encodeSockaddr, writeUInt16, writeUInt32, List.append_assoc]

theorem writePeerInfo_eq (order : ByteOrder) (peer : PeerInfo) : writePeerInfo order peer = encodePeerInfo peer := by
  simp [writePeerInfo, encodePeerInfo, writeSockaddr_eq]

section Writes

variable {grants : Nat → Nat → Bool} {order : ByteOrder} {list : PeerInfoList}

theorem writes_peers (order : ByteOrder) (list : PeerInfoList) :
    Writes grants (serializePeersInto grants order list) (encodePeerInfoList list) := by
  have records (peer : PeerInfo) : Writes grants
      (SerializationBuffer.extend grants (writePeerInfo order peer) ·) (encodePeerInfo peer) := by
    rw [writePeerInfo_eq]
    exact writes_extend _
  rw [encodePeerInfoList, ← writeUInt64_eq order]
  exact (writes_extend _).bind (Writes.foldlM records list.peers)

/-- A serialization that succeeds is the format, with its length. -/
theorem peer_info_list_serialize_sound {result : List UInt8 × UInt64}
    (serialized : peerInfoListSerialize grants order list = .ok result) :
    result = (encodePeerInfoList list, UInt64.ofNat (encodePeerInfoList list).length) := by
  rw [peerInfoListSerialize] at serialized
  cases written : serializePeersInto grants order list ⟨[], 0, 0⟩ with
  | error code =>
    rw [written] at serialized
    cases serialized
  | ok after =>
    rw [written] at serialized
    cases serialized
    exact (writes_peers order list).fromEmpty written

theorem peer_info_list_serialize_eq (generous : ∀ ordinal size, grants ordinal size = true) (order : ByteOrder)
    (list : PeerInfoList) :
    peerInfoListSerialize grants order list =
      .ok (encodePeerInfoList list, UInt64.ofNat (encodePeerInfoList list).length) := by
  obtain ⟨after, written⟩ := (writes_peers order list).complete generous ⟨[], 0, 0⟩
  have serialized : peerInfoListSerialize grants order list = .ok (after.bytes, after.size) := by
    rw [peerInfoListSerialize, written]
    rfl
  rw [serialized, peer_info_list_serialize_sound serialized]

end Writes

/-! ## Reading them -/

/-- `ntohs(*(uint16_t *)next_spot_in_buffer)` after its bounds check. -/
def readUInt16 (order : ByteOrder) : Decoder Failure UInt16 := do
  let p ← Decoder.checkedTake 2
  return ntohs order (loadUInt16 order p)

/-- The five fields of an address, each after its bounds check. -/
def readSockaddr (order : ByteOrder) : Decoder Failure SockaddrIn6 := do
  let sin6Family ← readUInt16 order
  let sin6Port ← readUInt16 order
  let sin6Flowinfo ← readUInt32 order
  let sin6Addr ← Decoder.checkedTake 16
  let sin6ScopeId ← readUInt32 order
  return ⟨sin6Family, sin6Port, sin6Flowinfo, sin6Addr, sin6ScopeId⟩

def readPeerInfo (order : ByteOrder) : Decoder Failure PeerInfo := do
  let listenAddr ← readSockaddr order
  let lastConnected ← readUInt64 order
  return ⟨listenAddr, lastConnected.toInt64⟩

/-- `linked_list_append`, which allocates a node. -/
def storePeerInfo (list : PeerInfoList) (peer : PeerInfo) : Decoder Failure PeerInfoList := do
  Decoder.allocate 16
  match list.append peer with
  | .error code => .reject code
  | .ok longer => .done longer

/-- One round of the loop. -/
def appendPeerInfo (order : ByteOrder) (list : PeerInfoList) : Decoder Failure PeerInfoList := do
  let peer ← readPeerInfo order
  Decoder.allocate 40
  storePeerInfo list peer

/-- `peer_info_list_deserialize` -/
def peerInfoListDeserialize (order : ByteOrder) : Decoder Failure PeerInfoList := do
  let numPeers ← readUInt64 order
  Decoder.allocate 24
  Decoder.repeatTimes numPeers.toNat (appendPeerInfo order) .create

theorem readUInt16_reads (order : ByteOrder) :
    Reads (readUInt16 order) (fun data => (splitBytes16 data).toList) (fun _ => 2) fun _ => True := by
  have bytes : Reads (Decoder.checkedTake 2 : Decoder Failure _) _ _ _ := reads_checkedTake 2
  have half := bytes.lastField splitBytes16 (fun p => ntohs order (loadUInt16 order p)) fun p => by simp
  exact half.congr (fun _ => rfl) (fun _ => rfl) fun data => by simp

theorem readSockaddr_reads (order : ByteOrder) :
    Reads (readSockaddr order) encodeSockaddr (fun _ => 28) fun _ => True := by
  have half := readUInt16_reads order
  have word := readUInt32_reads order
  have octets : Reads (Decoder.checkedTake 16 : Decoder Failure _) _ _ _ := reads_checkedTake 16
  have scope (family port : UInt16) (flowinfo : UInt32) (addr : Vector UInt8 16) :=
    word.lastField SockaddrIn6.sin6ScopeId (SockaddrIn6.mk family port flowinfo addr) fun _ => rfl
  have addr (family port : UInt16) (flowinfo : UInt32) :=
    octets.firstField SockaddrIn6.sin6Addr (scope family port flowinfo) fun _ _ built => by rw [← built.2]
  have flowinfo (family port : UInt16) :=
    word.firstField SockaddrIn6.sin6Flowinfo (addr family port) fun _ _ built => by rw [← built.2.2]
  have port (family : UInt16) :=
    half.firstField SockaddrIn6.sin6Port (flowinfo family) fun _ _ built => by rw [← built.2.2.2]
  have whole := half.firstField SockaddrIn6.sin6Family port fun _ _ built => by rw [← built.2.2.2.2]
  exact whole.congr (fun _ => rfl) (fun _ => by simp) fun _ => by simp

theorem readPeerInfo_reads (order : ByteOrder) :
    Reads (readPeerInfo order) encodePeerInfo (fun _ => 36) fun _ => True := by
  have time (listenAddr : SockaddrIn6) := (readUInt64_reads order).lastField
    (fun peer : PeerInfo => peer.lastConnected.toUInt64) (fun lastConnected => ⟨listenAddr, lastConnected.toInt64⟩)
    fun _ => by simp
  have whole := (readSockaddr_reads order).firstField PeerInfo.listenAddr time
    fun _ _ built => by rw [← built.2]
  exact whole.congr (fun _ => rfl) (fun _ => by simp) fun _ => by simp

/-- A round of the loop reads one peer, if the list still fits in memory. -/
theorem appendPeerInfo_appends (order : ByteOrder) :
    Appends (appendPeerInfo order) PeerInfoList.peers (fun peers => peersMemory peers < 2 ^ 64)
      encodePeerInfo (fun _ => 36) fun _ => True := by
  have reads := readPeerInfo_reads order
  constructor
  · intro input cursor reached before after succeeded
    obtain ⟨peer, middle, held, moved, inside, accepted, rest⟩ := reads.sound_bind succeeded
    have afterNode := allocate_bind_sound (allocate_bind_sound rest)
    cases appended : before.append peer with
    | error code => simp [appended] at afterNode
    | ok longer =>
      simp only [appended, Decoder.run_done, Prod.mk.injEq, Except.ok.injEq] at afterNode
      obtain ⟨rfl, rfl⟩ := afterNode
      exact ⟨peer, PeerInfoList.append_ok appended, held, moved, inside, accepted⟩
  · intro input cursor before peer generous held inside accepted fits
    obtain ⟨middle, -, first⟩ := reads.complete_bind generous held inside accepted
    have appended : before.append peer = .ok ⟨before.peers ++ [peer], fits⟩ := dif_pos fits
    refine ⟨⟨before.peers ++ [peer], fits⟩, (middle.record 40).record 16, ?_, rfl⟩
    rw [appendPeerInfo, first, run_allocate_bind generous, storePeerInfo, run_allocate_bind generous, appended]
    rfl

theorem peerInfoListDeserialize_reads (order : ByteOrder) :
    Reads (peerInfoListDeserialize order) encodePeerInfoList (fun list => (encodePeerInfoList list).length)
      fun _ => True := by
  have word := readUInt64_reads order
  have loop := appendPeerInfo_appends order
  -- every peer needs its own 36 bytes, and so does the list
  have own (peers : List PeerInfo) :
      demand encodePeerInfo (fun _ => 36) peers = (peers.flatMap encodePeerInfo).length :=
    demand_eq fun peer _ => (encodePeerInfo_length peer).symm
  constructor
  · intro input cursor reached value succeeded
    obtain ⟨numPeers, middle, heldCount, moved, inside, -, rest⟩ := word.sound_bind succeeded
    obtain ⟨peers, collected, counted, held, movedLoop, reaches, -⟩ :=
      loop.repeatTimes_sound (allocate_bind_sound rest)
    simp only [PeerInfoList.create, List.nil_append] at collected
    subst collected
    have declared : linkedListLength value.peers = numPeers := by
      rw [linkedListLength, counted, UInt64.ofNat_toNat]
    simp only [Cursor.record_position, Vector.length_toList] at moved held movedLoop reaches
    rw [moved] at held movedLoop reaches
    simp only [encodePeerInfoList, declared, Input.holds_append, List.length_append, Vector.length_toList]
    have room := demand_reaches inside reaches
    rw [own] at room
    exact ⟨⟨heldCount, held⟩, by omega, by omega, trivial⟩
  · intro input cursor value generous held inside _
    simp only [encodePeerInfoList, Input.holds_append, List.length_append, Vector.length_toList] at held inside
    obtain ⟨middle, moved, first⟩ := word.complete_bind generous held.1 (by omega) trivial
    rw [Vector.length_toList] at moved
    have heldLoop : input.Holds (middle.record 24).position (value.peers.flatMap encodePeerInfo) := by
      rw [Cursor.record_position, moved]
      exact held.2
    have reaches : value.peers = [] ∨
        (middle.record 24).position + demand encodePeerInfo (fun _ => 36) value.peers ≤ input.size := by
      rw [own, Cursor.record_position]
      exact .inr (by omega)
    -- every part of a list that is in memory is in memory
    have room (before after : List PeerInfo) (split : value.peers = before ++ after) :
        peersMemory (PeerInfoList.create.peers ++ before) < 2 ^ 64 := by
      have fits := value.fits
      rw [split, peersMemory, List.length_append] at fits
      rw [PeerInfoList.create, List.nil_append, peersMemory]
      omega
    obtain ⟨result, final, ran, collected⟩ := loop.repeatTimes_complete PeerInfoList.create generous heldLoop
      reaches (fun _ _ => trivial) room
    have same : result = value := PeerInfoList.ext collected
    exact ⟨final, by rw [peerInfoListDeserialize, first, run_allocate_bind generous, value.length_toNat, ran, same]⟩

theorem begins_of_peer_info_list_deserialize {order : ByteOrder} {data : List UInt8} {behind : Nat → UInt8}
    {grants : Nat → Nat → Bool} {list : PeerInfoList}
    (decoded : decodeBuffer (peerInfoListDeserialize order) (Input.ofBuffer data behind grants) = .ok list) :
    encodePeerInfoList list <+: data :=
  (begins_of_decodeBuffer (peerInfoListDeserialize_reads order) (Nat.le_refl _) decoded).1

theorem peer_info_list_deserialize_eq {data : List UInt8} {grants : Nat → Nat → Bool} {list : PeerInfoList}
    (order : ByteOrder) (behind : Nat → UInt8) (generous : ∀ ordinal size, grants ordinal size = true)
    (begins : encodePeerInfoList list <+: data) :
    decodeBuffer (peerInfoListDeserialize order) (Input.ofBuffer data behind grants) = .ok list :=
  decodeBuffer_of_begins (peerInfoListDeserialize_reads order) behind generous begins.length_le begins trivial

theorem encodePeerInfoList_prefix_eq {left right : PeerInfoList}
    (begins : encodePeerInfoList left <+: encodePeerInfoList right) : left = right :=
  (peerInfoListDeserialize_reads .bigEndian).prefix_unique trivial trivial begins

/-! ## `COMMAND_REGISTER_PEER` -/

/-- `command_register_peer_t` -/
structure CommandRegisterPeer where
  header : CommandHeader
  sin6Family : UInt16
  sin6Port : UInt16
  sin6Flowinfo : UInt32
  addr : Vector UInt8 16
  sin6ScopeId : UInt32

/-- The address in a command, as the server fills it into a `peer_info_t`. -/
def CommandRegisterPeer.listenAddr (command : CommandRegisterPeer) : SockaddrIn6 :=
  ⟨command.sin6Family, command.sin6Port, command.sin6Flowinfo, command.addr, command.sin6ScopeId⟩

/-- The command as the client fills it from its `peer_addr`. -/
def CommandRegisterPeer.ofPeerAddr (peerAddr : SockaddrIn6) : CommandRegisterPeer where
  header := .initial .registerPeer
  sin6Family := peerAddr.sin6Family
  sin6Port := peerAddr.sin6Port
  sin6Flowinfo := peerAddr.sin6Flowinfo
  addr := peerAddr.sin6Addr
  sin6ScopeId := peerAddr.sin6ScopeId

theorem CommandRegisterPeer.listenAddr_ofPeerAddr (peerAddr : SockaddrIn6) :
    (CommandRegisterPeer.ofPeerAddr peerAddr).listenAddr = peerAddr := rfl

/-- `command_register_peer_serialize`: the buffer and `*buffer_size`.  The struct ends with
four bytes of padding, which are counted and sent as zeros. -/
def commandRegisterPeerSerialize (grants : Nat → Nat → Bool) (order : ByteOrder) (command : CommandRegisterPeer) :
    Except Failure (List UInt8 × UInt64) :=
  if command.header.command ≠ Command.registerPeer.code then
    .error .invalidCommand
  else if !grants 0 32 then
    .error .couldNotMalloc
  else if !grants 1 16 then
    .error .couldNotMalloc
  else do
    let headerBuffer ← commandHeaderSerialize order { command.header with commandLen := 32 }
    if grants 2 48 then
      return (headerBuffer ++ (writeSockaddr order command.listenAddr ++ List.replicate 4 0), 48)
    else
      .error .couldNotMalloc

/-- `command_register_peer_deserialize` -/
def commandRegisterPeerDeserialize (order : ByteOrder) : Decoder Failure CommandRegisterPeer := do
  let header ← commandHeaderDeserialize order
  if header.command ≠ Command.registerPeer.code then
    .reject .invalidCommand
  else do
    let address ← readSockaddr order
    return ⟨header, address.sin6Family, address.sin6Port, address.sin6Flowinfo, address.sin6Addr, address.sin6ScopeId⟩

def registerHeader : CommandHeader := ⟨commandPrefix, Command.registerPeer.code, 32⟩

/-- The message that registers an address. -/
def registerMessage (address : SockaddrIn6) : List UInt8 :=
  encodeCommandHeader registerHeader ++ (encodeSockaddr address ++ List.replicate 4 0)

/-- A command of the protocol that is sent is sent as the message with its address. -/
theorem command_register_peer_serialize_sound {grants : Nat → Nat → Bool} {order : ByteOrder}
    {command : CommandRegisterPeer} {sendBuf : List UInt8} {size : UInt64} (prefixed : command.header.Prefixed)
    (serialized : commandRegisterPeerSerialize grants order command = .ok (sendBuf, size)) :
    sendBuf = registerMessage command.listenAddr := by
  have written : commandHeaderSerialize order { command.header with commandLen := 32 } = .ok _ :=
    command_header_serialize_eq order prefixed
  rw [commandRegisterPeerSerialize] at serialized
  split at serialized
  · cases serialized
  next sends =>
    have header : (⟨command.header.commandPrefix, command.header.command, 32⟩ : CommandHeader) =
        registerHeader := by
      rw [show command.header.commandPrefix = commandPrefix from prefixed, not_not.mp sends, registerHeader]
    split at serialized
    · cases serialized
    · split at serialized
      · cases serialized
      · rw [written] at serialized
        dsimp only [bind, Except.bind, pure, Except.pure] at serialized
        rw [header] at serialized
        split at serialized
        · cases serialized
          rw [writeSockaddr_eq, registerMessage]
        · cases serialized

theorem commandRegisterPeerDeserialize_reads (order : ByteOrder) :
    Reads (commandRegisterPeerDeserialize order)
      (fun command => encodeCommandHeader command.header ++ encodeSockaddr command.listenAddr) (fun _ => 44)
      fun command => command.header.Prefixed ∧ command.header.command = Command.registerPeer.code := by
  have address (header : CommandHeader) := (readSockaddr_reads order).lastField CommandRegisterPeer.listenAddr
    (fun address => ⟨header, address.sin6Family, address.sin6Port, address.sin6Flowinfo, address.sin6Addr,
      address.sin6ScopeId⟩) fun _ => rfl
  have wanted (header : CommandHeader) :=
    (address header).checked (header.command ≠ Command.registerPeer.code) .invalidCommand
  have whole := (commandHeaderDeserialize_reads order).firstField CommandRegisterPeer.header wanted
    fun _ _ built => by rw [← built.2.2]
  exact whole.congr (fun _ => rfl) (fun _ => by simp) fun _ => by simp [CommandRegisterPeer.listenAddr]

/-- A message that registers this address: it is the first thing in the payload, and what
follows it is not looked at. -/
def Registers (stream : Stream) (address : SockaddrIn6) : Prop :=
  ∃ header payload, Message .handleOnePeerDiscoveryRequest stream header payload ∧
    encodeSockaddr address <+: payload

section Registers

variable {stream : Stream} {address other : SockaddrIn6}

theorem encodeSockaddr_prefix_eq {payload : List UInt8} (begins : encodeSockaddr address <+: payload)
    (otherBegins : encodeSockaddr other <+: payload) : address = other := by
  have same : encodeSockaddr address <+: encodeSockaddr other :=
    List.prefix_of_prefix_length_le begins otherBegins (by simp)
  exact (readSockaddr_reads .bigEndian).prefix_unique trivial trivial same

theorem Registers.unique (registers : Registers stream address) (also : Registers stream other) :
    address = other := by
  obtain ⟨header, payload, message, begins⟩ := registers
  obtain ⟨otherHeader, otherPayload, otherMessage, otherBegins⟩ := also
  obtain ⟨-, rfl⟩ := message.unique otherMessage
  exact encodeSockaddr_prefix_eq begins otherBegins

theorem registers_registerMessage (delivered : stream.contents = registerMessage address) :
    Registers stream address := by
  have message : Message .handleOnePeerDiscoveryRequest stream registerHeader
      (encodeSockaddr address ++ List.replicate 4 0) := by
    refine ⟨rfl, rfl, by simp [registerHeader], ?_⟩
    rw [delivered]
    exact List.prefix_refl _
  exact ⟨registerHeader, _, message, List.prefix_append _ _⟩

theorem header_of_registerMessage (delivered : stream.contents = registerMessage address) {header : CommandHeader}
    (announced : Announces .handleOnePeerDiscoveryRequest stream header) : header = registerHeader := by
  obtain ⟨rest, split⟩ := announced.delivered
  rw [delivered, registerMessage] at split
  exact encodeCommandHeader_injective (List.append_inj split (by simp)).1

end Registers

/-! ## `COMMAND_SEND_PEER_LIST` -/

/-- The message with a list of peers. -/
def peerListMessage (list : PeerInfoList) : List UInt8 :=
  framedMessage .sendPeerList (UInt64.ofNat (encodePeerInfoList list).length) (encodePeerInfoList list)

/-- `peer_info_list_serialize` into a command. -/
def peerListCommand (grants : Nat → Nat → Bool) (order : ByteOrder) (list : PeerInfoList) :
    Except Failure CommandSendPeerList :=
  match serialized : peerInfoListSerialize grants order list with
  | .error code => .error code
  | .ok (peerListData, peerListDataLen) =>
    .ok
      { header := .initial .sendPeerList, peerListDataLen, peerListData
        measured := by
          obtain ⟨rfl, rfl⟩ := Prod.mk.inj (peer_info_list_serialize_sound serialized)
          exact (encodePeerInfoList_length_toNat list).symm }

section Messages

variable {grants frameGrants : Nat → Nat → Bool} {order : ByteOrder} {list : PeerInfoList}

theorem peerListMessage_of_serialize {command : CommandSendPeerList} {buffer : List UInt8} {size : UInt64}
    (filled : peerListCommand grants order list = .ok command)
    (framed : commandSendPeerListSerialize frameGrants order command = .ok (buffer, size)) :
    buffer = peerListMessage list := by
  rw [peerListCommand] at filled
  split at filled
  · cases filled
  next peerListData peerListDataLen serialized =>
    cases filled
    obtain ⟨rfl, rfl⟩ := Prod.mk.inj (peer_info_list_serialize_sound serialized)
    exact writeDeclared_sound framed

theorem peerListCommand_sends (order : ByteOrder) (list : PeerInfoList)
    (generous : ∀ ordinal size, grants ordinal size = true)
    (frames : ∀ ordinal size, frameGrants ordinal size = true) :
    ∃ command size, peerListCommand grants order list = .ok command ∧
      commandSendPeerListSerialize frameGrants order command = .ok (peerListMessage list, size) := by
  have serialized := peer_info_list_serialize_eq generous order list
  rw [peerListCommand]
  split
  next code refused =>
    rw [serialized] at refused
    cases refused
  next peerListData peerListDataLen written =>
    rw [serialized] at written
    cases written
    exact ⟨_, _, rfl, writeDeclared_complete frames rfl rfl⟩

theorem declares_peerList (list : PeerInfoList) :
    Declares ((splitBytes (UInt64.ofNat (encodePeerInfoList list).length)).toList ++ encodePeerInfoList list)
      (UInt64.ofNat (encodePeerInfoList list).length) (encodePeerInfoList list) :=
  ⟨(encodePeerInfoList_length_toNat list).symm, List.prefix_refl _⟩

theorem peerListMessage_small (list : PeerInfoList) :
    24 + (UInt64.ofNat (encodePeerInfoList list).length).toNat < 2 ^ 64 := by
  rw [encodePeerInfoList_length_toNat]
  exact encodePeerInfoList_fits list

theorem peerListMessage_decodes (order : ByteOrder) (list : PeerInfoList) (behind behindList : Nat → UInt8)
    (generous : ∀ ordinal size, grants ordinal size = true)
    (listGenerous : ∀ ordinal size, frameGrants ordinal size = true) :
    ∃ command, decodeBuffer (commandSendPeerListDeserialize order)
        (Input.ofBuffer (peerListMessage list) behind grants) = .ok command ∧
      decodeBuffer (peerInfoListDeserialize order)
        (Input.ofBuffer command.peerListData behindList frameGrants) = .ok list := by
  let header := framedHeader .sendPeerList (UInt64.ofNat (encodePeerInfoList list).length)
  have prefixed : header.Prefixed := rfl
  obtain ⟨command, decoded, contents⟩ := command_send_peer_list_declares order prefixed rfl
    (peerListMessage_small list) (declares_peerList list) generous
  have data : command.peerListData = encodePeerInfoList list := (Prod.mk.inj (Prod.mk.inj contents).2).2
  exact ⟨command, decoded, data ▸ peer_info_list_deserialize_eq order behindList listGenerous (List.prefix_refl _)⟩

end Messages

end LeoCoin
