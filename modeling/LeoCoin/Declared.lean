import LeoCoin.Networking

/-! # Declared lengths

`command_send_peer_list_deserialize` and `command_send_blockchain_deserialize` are one
text but for the names: a header, a length, and as many bytes as the length declares.
The length is added to `total_read_size` before the sum is compared with the size of
the buffer, and the sum is a 64-bit one.  For the 24 largest lengths it wraps and the
comparison lets them pass.
-/

namespace LeoCoin

open Library.Decoding

/-- `command_send_peer_list_t` -/
structure CommandSendPeerList where
  header : CommandHeader
  peerListDataLen : UInt64
  peerListData : List UInt8
  measured : peerListData.length = peerListDataLen.toNat

/-- The common text of the two deserializers. -/
def readDeclared {α : Type} (order : ByteOrder) (command : Command)
    (build : CommandHeader → (len : UInt64) → Vector UInt8 len.toNat → α) : Decoder Failure α := do
  let header ← commandHeaderDeserialize order
  if header.command ≠ command.code then
    .reject .invalidCommand
  else do
    let len ← readUInt64 order
    requireWrappedSpace len
    Decoder.allocate len.toNat
    let data ← Decoder.takeBytes len.toNat
    return build header len data

theorem declared_measured (len : UInt64) (data : Vector UInt8 len.toNat) : data.toList.length = len.toNat :=
  Vector.length_toList

/-- `command_send_peer_list_deserialize` -/
def commandSendPeerListDeserialize (order : ByteOrder) : Decoder Failure CommandSendPeerList :=
  readDeclared order .sendPeerList fun header len data => ⟨header, len, data.toList, declared_measured len data⟩

theorem command_send_blockchain_deserialize_eq (order : ByteOrder) :
    commandSendBlockchainDeserialize order =
      readDeclared order .sendBlockchain fun header len data =>
        ⟨header, len, data.toList, declared_measured len data⟩ := rfl

/-! ## Their serializers -/

/-- The common text of `command_send_peer_list_serialize` and `command_send_blockchain_serialize`:
the buffer and `*buffer_size`. -/
def writeDeclared (grants : Nat → Nat → Bool) (order : ByteOrder) (command : Command) (header : CommandHeader)
    (len : UInt64) (data : List UInt8) : Except Failure (List UInt8 × UInt64) :=
  if header.command ≠ command.code then
    .error .invalidCommand
  else if !grants 0 8 then
    .error .couldNotMalloc
  else if !grants 1 16 then
    .error .couldNotMalloc
  else do
    let headerBuffer ← commandHeaderSerialize order { header with commandLen := 8 + len }
    let totalSize := 16 + 8 + len
    if grants 2 totalSize.toNat then
      return (headerBuffer ++ writeUInt64 order len ++ data, totalSize)
    else
      .error .couldNotMalloc

/-- `command_send_peer_list_serialize` -/
def commandSendPeerListSerialize (grants : Nat → Nat → Bool) (order : ByteOrder) (command : CommandSendPeerList) :
    Except Failure (List UInt8 × UInt64) :=
  writeDeclared grants order .sendPeerList command.header command.peerListDataLen command.peerListData

theorem command_send_blockchain_serialize_eq_writeDeclared (grants : Nat → Nat → Bool) (order : ByteOrder)
    (command : CommandSendBlockchain) :
    commandSendBlockchainSerialize grants order command = writeDeclared grants order .sendBlockchain
      command.header command.blockchainDataLen command.blockchainData := rfl

/-- The header of a command with a payload declares the length field and the data. -/
def framedHeader (command : Command) (len : UInt64) : CommandHeader := ⟨commandPrefix, command.code, 8 + len⟩

def framedMessage (command : Command) (len : UInt64) (data : List UInt8) : List UInt8 :=
  encodeCommandHeader (framedHeader command len) ++ ((splitBytes len).toList ++ data)

section Serializers

variable {grants : Nat → Nat → Bool} {order : ByteOrder} {command : Command} {header : CommandHeader}
  {len : UInt64} {data : List UInt8}

theorem encodeCommandHeader_framed (prefixed : header.Prefixed) (sends : header.command = command.code) :
    encodeCommandHeader { header with commandLen := 8 + len } ++ writeUInt64 order len ++ data =
      framedMessage command len data := by
  rw [writeUInt64_eq, List.append_assoc, framedMessage, framedHeader,
    show header.commandPrefix = commandPrefix from prefixed, sends]

/-- Whatever header a message was filled into, one that is sent is the same. -/
theorem writeDeclared_sound {sendBuf : List UInt8} {size : UInt64}
    (serialized : writeDeclared grants order command header len data = .ok (sendBuf, size)) :
    sendBuf = framedMessage command len data := by
  rw [writeDeclared] at serialized
  split at serialized
  · cases serialized
  next sends =>
    split at serialized
    · cases serialized
    · split at serialized
      · cases serialized
      · by_cases prefixed : header.Prefixed
        · have written : commandHeaderSerialize order { header with commandLen := 8 + len } = .ok _ :=
            command_header_serialize_eq order prefixed
          rw [written] at serialized
          dsimp only [bind, Except.bind, pure, Except.pure] at serialized
          split at serialized
          · cases serialized
            exact encodeCommandHeader_framed prefixed (not_not.mp sends)
          · cases serialized
        · have refused : commandHeaderSerialize order { header with commandLen := 8 + len } =
              .error .invalidCommandPrefix := if_pos prefixed
          rw [refused] at serialized
          cases serialized

theorem writeDeclared_complete (generous : ∀ ordinal size, grants ordinal size = true) (prefixed : header.Prefixed)
    (sends : header.command = command.code) :
    writeDeclared grants order command header len data = .ok (framedMessage command len data, 16 + 8 + len) := by
  have written : commandHeaderSerialize order { header with commandLen := 8 + len } = .ok _ :=
    command_header_serialize_eq order prefixed
  have right : ¬ header.command ≠ command.code := not_not_intro sends
  rw [writeDeclared, if_neg right, generous, generous, written, ← encodeCommandHeader_framed prefixed sends]
  simp only [Bool.not_true, Bool.false_eq_true, if_false, bind, Except.bind, generous, if_true]
  rfl

theorem command_send_blockchain_serialize_eq (order : ByteOrder) {command : CommandSendBlockchain}
    (generous : ∀ ordinal size, grants ordinal size = true)
    (sends : command.header.command = Command.sendBlockchain.code) (prefixed : command.header.Prefixed) :
    commandSendBlockchainSerialize grants order command =
      .ok (encodeCommandSendBlockchain command.framed, 16 + 8 + command.blockchainDataLen) := by
  have message : encodeCommandSendBlockchain command.framed =
      framedMessage .sendBlockchain command.blockchainDataLen command.blockchainData := by
    have framed : _ ++ writeUInt64 order command.blockchainDataLen ++ command.blockchainData =
        framedMessage .sendBlockchain _ _ := encodeCommandHeader_framed prefixed sends
    rw [writeUInt64_eq, List.append_assoc] at framed
    exact framed
  rw [command_send_blockchain_serialize_eq_writeDeclared, writeDeclared_complete generous prefixed sends, message]

end Serializers

/-! ## What the common text does -/

theorem comparePrefix_frugal (expected : List UInt8) : (comparePrefix expected).Frugal := by
  induction expected with
  | nil => exact Decoder.frugal_pure ()
  | cons first rest ih =>
    refine (Decoder.frugal_takeBytes 1).bind fun byte => ?_
    split
    · exact Decoder.frugal_reject _
    · exact ih

theorem commandHeaderDeserialize_frugal (order : ByteOrder) : (commandHeaderDeserialize order).Frugal := by
  have word := readUInt64_frugal order
  have half : (readUInt32 order).Frugal :=
    (Decoder.frugal_checkedTake 4).bind fun _ => Decoder.frugal_pure _
  exact (Decoder.frugal_requireSpace 4).bind fun _ => (comparePrefix_frugal _).bind fun _ =>
    half.bind fun _ => word.bind fun _ => Decoder.frugal_pure _

theorem run_requireWrappedSpace (count : UInt64) (input : Input) (cursor : Cursor) :
    (requireWrappedSpace count).run input cursor =
      (if (cursor.position + count.toNat) % 2 ^ 64 > input.size then .error .truncated else .ok (), cursor) := by
  rw [requireWrappedSpace, Decoder.run, Decoder.run]
  split <;> rfl

/-- The first 24 bytes of a message with a payload. -/
def declaredPart (header : CommandHeader) (len : UInt64) : List UInt8 :=
  encodeCommandHeader header ++ (splitBytes len).toList

theorem declaredPart_length (header : CommandHeader) (len : UInt64) : (declaredPart header len).length = 24 := by
  simp [declaredPart]

theorem readDeclared_run {α : Type} (order : ByteOrder) {command : Command}
    {build : CommandHeader → (len : UInt64) → Vector UInt8 len.toNat → α} {input : Input}
    {header : CommandHeader} {len : UInt64} (held : input.Holds 0 (declaredPart header len))
    (inside : 24 ≤ input.size) (prefixed : header.Prefixed) (sends : header.command = command.code) :
    (readDeclared order command build).run input ⟨0, []⟩ =
      if (24 + len.toNat) % 2 ^ 64 > input.size then (.error .truncated, ⟨24, []⟩)
      else if input.grants 0 len.toNat then
        (.ok (build header len (input.window 24 len.toNat)), ⟨24 + len.toNat, [len.toNat]⟩)
      else (.error .refused, ⟨24, [len.toNat]⟩) := by
  rw [declaredPart, Input.holds_append, encodeCommandHeader_length, Nat.zero_add] at held
  have start : (⟨0, []⟩ : Cursor).position + 16 ≤ input.size := by
    simp only
    omega
  have first := (commandHeaderDeserialize_reads order).complete_frugal (commandHeaderDeserialize_frugal order)
    held.1 start prefixed
  rw [encodeCommandHeader_length] at first
  have next : (Cursor.advance ⟨0, []⟩ 16).position + 8 ≤ input.size := by
    simp only [Cursor.advance_position]
    omega
  have second := (readUInt64_reads order).complete_frugal (readUInt64_frugal order)
    (show input.Holds (Cursor.advance ⟨0, []⟩ 16).position (splitBytes len).toList from held.2) next trivial
  rw [Vector.length_toList] at second
  have right : ¬ header.command ≠ command.code := not_not_intro sends
  rw [readDeclared, Decoder.run_bind_ok first, if_neg right, Decoder.run_bind_ok second]
  have arrived : Cursor.advance (Cursor.advance ⟨0, []⟩ 16) 8 = ⟨24, []⟩ := rfl
  rw [arrived, Decoder.run_bind, run_requireWrappedSpace]
  by_cases short : (24 + len.toNat) % 2 ^ 64 > input.size
  · rw [if_pos short, if_pos short]
  · rw [if_neg short, if_neg short]
    simp only [Decoder.run_bind, Decoder.run_allocate, List.length_nil]
    cases input.grants 0 len.toNat <;> rfl

/-- A message that is there whole is decoded within its buffer. -/
theorem readDeclared_inside {α : Type} (order : ByteOrder) {command : Command}
    {build : CommandHeader → (len : UInt64) → Vector UInt8 len.toNat → α} {input : Input} {header : CommandHeader}
    {len : UInt64} (held : input.Holds 0 (declaredPart header len)) (room : 24 + len.toNat ≤ input.size)
    (prefixed : header.Prefixed) (sends : header.command = command.code) :
    ¬ (readDeclared order command build).Overruns input ⟨0, []⟩ := by
  have inside : 24 ≤ input.size := (Nat.le_add_right _ _).trans room
  have ran : (readDeclared order command build).run _ _ = _ := readDeclared_run order held inside prefixed sends
  rintro ⟨-, leaves⟩
  rw [ran] at leaves
  (repeat' split at leaves) <;> exact absurd leaves (Nat.not_lt.mpr (by assumption))

/-! ## When the declared length is respected -/

/-- A message from a header, a declared length and whatever follows them. -/
def declaredMessage (header : CommandHeader) (len : UInt64) (payload : List UInt8) : List UInt8 :=
  declaredPart header len ++ payload

/-- A declared length beyond the buffer is refused with `FAILURE_BUFFER_TOO_SMALL`, with
nothing requested and nothing read behind the length; any other one gives exactly the bytes
it declares, memory granted. -/
def RespectsLength {α : Type} (decoder : Decoder Failure α) (contents : α → CommandHeader × UInt64 × List UInt8)
    (header : CommandHeader) (len : UInt64) (payload : List UInt8) : Prop :=
  ∀ behind grants, let input := Input.ofBuffer (declaredMessage header len payload) behind grants
    (24 + len.toNat > input.size →
      decodeBuffer decoder input = .error .bufferTooSmall ∧ (decoder.run input ⟨0, []⟩).2 = ⟨24, []⟩) ∧
    (24 + len.toNat ≤ input.size → grants 0 len.toNat = true →
      ∃ value, decodeBuffer decoder input = .ok value ∧
        contents value = (header, len, ((declaredMessage header len payload).drop 24).take len.toNat))

section Respects

variable {α : Type} {order : ByteOrder} {command : Command}
  {build : CommandHeader → (len : UInt64) → Vector UInt8 len.toNat → α}
  {contents : α → CommandHeader × UInt64 × List UInt8} {header : CommandHeader} {len : UInt64}
  {payload : List UInt8}

theorem declaredMessage_begins (header : CommandHeader) (len : UInt64) (payload : List UInt8)
    (behind : Nat → UInt8) (grants : Nat → Nat → Bool) :
    (Input.ofBuffer (declaredMessage header len payload) behind grants).Holds 0 (declaredPart header len) :=
  (Input.holds_append.mp (Input.ofBuffer_holds _ _ _)).1

theorem declaredMessage_long (header : CommandHeader) (len : UInt64) (payload : List UInt8) :
    24 ≤ (declaredMessage header len payload).length := by
  rw [declaredMessage, List.length_append, declaredPart_length]
  omega

/-- A length whose sum with the 24 bytes before it does not wrap is respected. -/
theorem readDeclared_respectsLength
    (filled : ∀ header len data, contents (build header len data) = (header, len, data.toList))
    (prefixed : header.Prefixed) (sends : header.command = command.code) (small : 24 + len.toNat < 2 ^ 64) :
    RespectsLength (readDeclared order command build) contents header len payload := by
  intro behind grants
  have unwrapped : (24 + len.toNat) % 2 ^ 64 = 24 + len.toNat := Nat.mod_eq_of_lt small
  have ran : (readDeclared order command build).run _ _ = _ :=
    readDeclared_run order (declaredMessage_begins header len payload behind grants)
      (declaredMessage_long header len payload) prefixed sends
  rw [unwrapped] at ran
  refine ⟨fun short => ?_, fun room granted => ?_⟩
  · rw [decodeBuffer, ran, if_pos short]
    exact ⟨rfl, rfl⟩
  · have granted : (Input.ofBuffer (declaredMessage header len payload) behind grants).grants 0 len.toNat =
        true := granted
    rw [decodeBuffer, ran, if_neg (Nat.not_lt.mpr room), if_pos granted]
    refine ⟨_, rfl, ?_⟩
    rw [filled, Input.ofBuffer_window room]

/-- Over a buffer of a size that a `uint64_t` holds, the length is respected exactly when it
does not wrap. -/
theorem readDeclared_respectsLength_iff
    (filled : ∀ header len data, contents (build header len data) = (header, len, data.toList))
    (prefixed : header.Prefixed) (sends : header.command = command.code)
    (sized : (declaredMessage header len payload).length < 2 ^ 64) :
    RespectsLength (readDeclared order command build) contents header len payload ↔ 24 + len.toNat < 2 ^ 64 := by
  have few := len.toNat_lt
  have long := declaredMessage_long header len payload
  constructor
  · intro respects
    by_contra wraps
    -- the wrapped sum is below 24, so the check lets the length pass
    have passes : ¬ (24 + len.toNat) % 2 ^ 64 >
        (Input.ofBuffer (declaredMessage header len payload) (fun _ => 0) grantAll).size := by
      rw [Input.ofBuffer_size]
      omega
    have refused := ((respects (fun _ => 0) grantAll).1 (by rw [Input.ofBuffer_size]; omega)).2
    rw [readDeclared_run order (declaredMessage_begins _ _ _ _ _) long prefixed sends, if_neg passes] at refused
    have requested := congrArg Cursor.requests refused
    split at requested <;> cases requested
  · exact readDeclared_respectsLength filled prefixed sends

/-! ## Payloads -/

/-- The payload declares these bytes and has them; more may follow. -/
structure Declares (payload : List UInt8) (len : UInt64) (data : List UInt8) : Prop where
  measured : data.length = len.toNat
  begins : (splitBytes len).toList ++ data <+: payload

theorem Declares.message {data : List UInt8} (declares : Declares payload len data) (header : CommandHeader) :
    ∃ rest, encodeCommandHeader header ++ payload = declaredMessage header len (data ++ rest) := by
  obtain ⟨rest, split⟩ := declares.begins
  exact ⟨rest, by rw [← split, declaredMessage, declaredPart]; simp⟩

theorem Declares.unique {otherLen : UInt64} {data otherData : List UInt8} (declares : Declares payload len data)
    (other : Declares payload otherLen otherData) : len = otherLen ∧ data = otherData := by
  obtain ⟨rest, split⟩ := declares.begins
  obtain ⟨otherRest, otherSplit⟩ := other.begins
  rw [← otherSplit, List.append_assoc, List.append_assoc] at split
  obtain ⟨sameLen, tails⟩ := List.append_inj split (by simp)
  obtain rfl := splitBytes_injective (Vector.toList_inj.mp sameLen)
  exact ⟨rfl, (List.append_inj tails (by rw [declares.measured, other.measured])).1⟩

theorem readDeclared_of_declares (order : ByteOrder)
    (filled : ∀ header len data, contents (build header len data) = (header, len, data.toList))
    (prefixed : header.Prefixed) (sends : header.command = command.code) (small : 24 + len.toNat < 2 ^ 64)
    {data : List UInt8} (declares : Declares payload len data) (behind : Nat → UInt8) (grants : Nat → Nat → Bool) :
    ∃ value, contents value = (header, len, data) ∧
      decodeBuffer (readDeclared order command build)
          (Input.ofBuffer (encodeCommandHeader header ++ payload) behind grants) =
        if grants 0 len.toNat then .ok value else .error .couldNotMalloc := by
  obtain ⟨rest, split⟩ := declares.message header
  rw [split]
  have ran : (readDeclared order command build).run _ _ = _ :=
    readDeclared_run order (declaredMessage_begins header len (data ++ rest) behind grants)
      (declaredMessage_long header len (data ++ rest)) prefixed sends
  have unwrapped : (24 + len.toNat) % 2 ^ 64 = 24 + len.toNat := Nat.mod_eq_of_lt small
  have room : 24 + len.toNat ≤ (Input.ofBuffer (declaredMessage header len (data ++ rest)) behind grants).size := by
    rw [Input.ofBuffer_size, declaredMessage, List.length_append, declaredPart_length, List.length_append,
      declares.measured]
    omega
  rw [unwrapped, if_neg (Nat.not_lt.mpr room)] at ran
  refine ⟨build header len
    ((Input.ofBuffer (declaredMessage header len (data ++ rest)) behind grants).window 24 len.toNat), ?_, ?_⟩
  · rw [filled, Input.ofBuffer_window room, declaredMessage, ← declaredPart_length header len, List.drop_left,
      ← declares.measured, List.take_left]
  · rw [decodeBuffer, ran]
    have asked : (Input.ofBuffer (declaredMessage header len (data ++ rest)) behind grants).grants 0 len.toNat =
        grants 0 len.toNat := rfl
    rw [asked]
    cases grants 0 len.toNat <;> rfl

theorem readDeclared_declares
    (filled : ∀ header len data, contents (build header len data) = (header, len, data.toList))
    (prefixed : header.Prefixed) (sends : header.command = command.code) (small : 24 + len.toNat < 2 ^ 64)
    {data : List UInt8} (declares : Declares payload len data) (behind : Nat → UInt8)
    {grants : Nat → Nat → Bool} (generous : ∀ ordinal size, grants ordinal size = true) :
    ∃ value, decodeBuffer (readDeclared order command build)
        (Input.ofBuffer (encodeCommandHeader header ++ payload) behind grants) = .ok value ∧
      contents value = (header, len, data) := by
  obtain ⟨value, holds, decoded⟩ :=
    readDeclared_of_declares order filled prefixed sends small declares behind grants
  rw [if_pos (generous _ _)] at decoded
  exact ⟨value, decoded, holds⟩

/-- What is decoded from a received command that declares these bytes is these bytes. -/
theorem contents_of_readDeclared
    (filled : ∀ header len data, contents (build header len data) = (header, len, data.toList))
    (prefixed : header.Prefixed) (sends : header.command = command.code) (small : 24 + len.toNat < 2 ^ 64)
    {data : List UInt8} (declares : Declares payload len data) {behind : Nat → UInt8}
    {grants : Nat → Nat → Bool} {value : α}
    (decoded : decodeBuffer (readDeclared order command build)
      (Input.ofBuffer (encodeCommandHeader header ++ payload) behind grants) = .ok value) :
    contents value = (header, len, data) := by
  obtain ⟨other, holds, ran⟩ :=
    readDeclared_of_declares order filled prefixed sends small declares behind grants
  rw [decoded] at ran
  split at ran
  · cases ran
    exact holds
  · cases ran

theorem readDeclared_long {input : Input} {value : α}
    (decoded : decodeBuffer (readDeclared order command build) input = .ok value) : 24 ≤ input.size := by
  rw [decodeBuffer] at decoded
  cases ran : (readDeclared order command build).run input ⟨0, []⟩ with
  | mk outcome reached =>
    cases outcome with
    | error fault =>
      rw [ran] at decoded
      cases decoded
    | ok value =>
      obtain ⟨header, c1, -, moved1, -, -, rest⟩ := (commandHeaderDeserialize_reads order).sound_bind ran
      rw [encodeCommandHeader_length] at moved1
      split at rest
      · cases rest
      · obtain ⟨len, c2, -, -, inside, -, -⟩ := (readUInt64_reads order).sound_bind rest
        omega

/-- A received command that is decoded declares bytes that it has. -/
theorem declares_of_readDeclared (prefixed : header.Prefixed) (sends : header.command = command.code)
    (filled : ∀ header len data, contents (build header len data) = (header, len, data.toList))
    (small : ∀ len, (splitBytes len).toList <+: payload → 24 + len.toNat < 2 ^ 64) {behind : Nat → UInt8}
    {grants : Nat → Nat → Bool} {value : α}
    (decoded : decodeBuffer (readDeclared order command build)
      (Input.ofBuffer (encodeCommandHeader header ++ payload) behind grants) = .ok value) :
    ∃ len data, Declares payload len data := by
  have long := readDeclared_long decoded
  rw [Input.ofBuffer_size, List.length_append, encodeCommandHeader_length] at long
  -- the first eight bytes of the payload are a length
  let bytes : Vector UInt8 8 := ⟨(payload.take 8).toArray, by simp; omega⟩
  have split : payload = (splitBytes (joinBytes bytes)).toList ++ payload.drop 8 := by
    rw [splitBytes_joinBytes]
    exact (List.take_append_drop 8 payload).symm
  generalize joinBytes bytes = len at split
  have fits := small len ⟨_, split.symm⟩
  have message : encodeCommandHeader header ++ payload = declaredMessage header len (payload.drop 8) := by
    rw [declaredMessage, declaredPart, List.append_assoc, ← split]
  rw [message] at decoded
  have respects : RespectsLength (readDeclared order command build) contents header len (payload.drop 8) :=
    readDeclared_respectsLength filled prefixed sends fits
  by_cases short : 24 + len.toNat >
      (Input.ofBuffer (declaredMessage header len (payload.drop 8)) behind grants).size
  · rw [((respects behind grants).1 short).1] at decoded
    cases decoded
  · rw [Input.ofBuffer_size, declaredMessage, List.length_append, declaredPart_length, List.length_drop] at short
    refine ⟨len, (payload.drop 8).take len.toNat, by simp; omega, (payload.drop 8).drop len.toNat, ?_⟩
    rw [List.append_assoc, List.take_append_drop, ← split]

end Respects

/-- What `command_send_peer_list_deserialize` fills in. -/
def CommandSendPeerList.contents (command : CommandSendPeerList) : CommandHeader × UInt64 × List UInt8 :=
  (command.header, command.peerListDataLen, command.peerListData)

/-- What `command_send_blockchain_deserialize` fills in. -/
def CommandSendBlockchain.contents (command : CommandSendBlockchain) : CommandHeader × UInt64 × List UInt8 :=
  (command.header, command.blockchainDataLen, command.blockchainData)

theorem CommandSendBlockchain.contents_injective {left right : CommandSendBlockchain}
    (same : left.contents = right.contents) : left = right := by
  cases left
  cases right
  simp only [contents, Prod.mk.injEq] at same
  obtain ⟨rfl, rfl, rfl⟩ := same
  rfl

section Payload

variable {header : CommandHeader} {payload data : List UInt8} {len : UInt64} {behind : Nat → UInt8}
  {grants : Nat → Nat → Bool}

theorem command_send_blockchain_declares (order : ByteOrder) (prefixed : header.Prefixed)
    (sends : header.command = Command.sendBlockchain.code) (small : 24 + len.toNat < 2 ^ 64)
    (declares : Declares payload len data) (generous : ∀ ordinal size, grants ordinal size = true) :
    ∃ command, decodeBuffer (commandSendBlockchainDeserialize order)
        (Input.ofBuffer (encodeCommandHeader header ++ payload) behind grants) = .ok command ∧
      command.contents = (header, len, data) := by
  rw [command_send_blockchain_deserialize_eq]
  exact readDeclared_declares (fun _ _ _ => rfl) prefixed sends small declares behind generous

theorem decode_command_send_blockchain {order : ByteOrder} {command : CommandSendBlockchain}
    (generous : ∀ ordinal size, grants ordinal size = true)
    (sends : command.header.command = Command.sendBlockchain.code) (prefixed : command.header.Prefixed)
    (fits : 24 + command.blockchainDataLen.toNat < 2 ^ 64) :
    decodeBuffer (commandSendBlockchainDeserialize order)
        (Input.ofBuffer (encodeCommandSendBlockchain command) behind grants) = .ok command := by
  have declares : Declares ((splitBytes command.blockchainDataLen).toList ++ command.blockchainData)
      command.blockchainDataLen command.blockchainData := ⟨command.measured, List.prefix_refl _⟩
  obtain ⟨received, decoded, contents⟩ : ∃ received, decodeBuffer (commandSendBlockchainDeserialize order)
      (Input.ofBuffer (encodeCommandSendBlockchain command) behind grants) = .ok received ∧
        received.contents = command.contents :=
    command_send_blockchain_declares order prefixed sends fits declares generous
  rw [decoded, CommandSendBlockchain.contents_injective contents]

theorem command_send_blockchain_inside {order : ByteOrder} {command : CommandSendBlockchain}
    (sends : command.header.command = Command.sendBlockchain.code) (prefixed : command.header.Prefixed) :
    ¬ (commandSendBlockchainDeserialize order).Overruns
      (Input.ofBuffer (encodeCommandSendBlockchain command) behind grants) ⟨0, []⟩ := by
  rw [command_send_blockchain_deserialize_eq]
  have whole : encodeCommandSendBlockchain command =
      declaredMessage command.header command.blockchainDataLen command.blockchainData := by
    simp [encodeCommandSendBlockchain, declaredMessage, declaredPart]
  rw [whole]
  refine readDeclared_inside order (declaredMessage_begins _ _ _ _ _) ?_ prefixed sends
  rw [Input.ofBuffer_size, declaredMessage, List.length_append, declaredPart_length, command.measured]

theorem command_send_peer_list_declares (order : ByteOrder) (prefixed : header.Prefixed)
    (sends : header.command = Command.sendPeerList.code) (small : 24 + len.toNat < 2 ^ 64)
    (declares : Declares payload len data) (generous : ∀ ordinal size, grants ordinal size = true) :
    ∃ command, decodeBuffer (commandSendPeerListDeserialize order)
        (Input.ofBuffer (encodeCommandHeader header ++ payload) behind grants) = .ok command ∧
      command.contents = (header, len, data) :=
  readDeclared_declares (fun _ _ _ => rfl) prefixed sends small declares behind generous

theorem contents_of_command_send_blockchain {order : ByteOrder} (prefixed : header.Prefixed)
    (sends : header.command = Command.sendBlockchain.code) (small : 24 + len.toNat < 2 ^ 64)
    (declares : Declares payload len data) {command : CommandSendBlockchain}
    (decoded : decodeBuffer (commandSendBlockchainDeserialize order)
      (Input.ofBuffer (encodeCommandHeader header ++ payload) behind grants) = .ok command) :
    command.contents = (header, len, data) := by
  rw [command_send_blockchain_deserialize_eq] at decoded
  exact contents_of_readDeclared (fun _ _ _ => rfl) prefixed sends small declares decoded

theorem contents_of_command_send_peer_list {order : ByteOrder} (prefixed : header.Prefixed)
    (sends : header.command = Command.sendPeerList.code) (small : 24 + len.toNat < 2 ^ 64)
    (declares : Declares payload len data) {command : CommandSendPeerList}
    (decoded : decodeBuffer (commandSendPeerListDeserialize order)
      (Input.ofBuffer (encodeCommandHeader header ++ payload) behind grants) = .ok command) :
    command.contents = (header, len, data) :=
  contents_of_readDeclared (fun _ _ _ => rfl) prefixed sends small declares decoded

theorem declares_of_command_send_blockchain {order : ByteOrder} (prefixed : header.Prefixed)
    (sends : header.command = Command.sendBlockchain.code)
    (small : ∀ len, (splitBytes len).toList <+: payload → 24 + len.toNat < 2 ^ 64) {command : CommandSendBlockchain}
    (decoded : decodeBuffer (commandSendBlockchainDeserialize order)
      (Input.ofBuffer (encodeCommandHeader header ++ payload) behind grants) = .ok command) :
    ∃ len data, Declares payload len data := by
  rw [command_send_blockchain_deserialize_eq] at decoded
  have filled : ∀ header len (data : Vector UInt8 len.toNat), CommandSendBlockchain.contents
      ⟨header, len, data.toList, declared_measured len data⟩ = (header, len, data.toList) := fun _ _ _ => rfl
  exact declares_of_readDeclared prefixed sends filled small decoded

theorem declares_of_command_send_peer_list {order : ByteOrder} (prefixed : header.Prefixed)
    (sends : header.command = Command.sendPeerList.code)
    (small : ∀ len, (splitBytes len).toList <+: payload → 24 + len.toNat < 2 ^ 64) {command : CommandSendPeerList}
    (decoded : decodeBuffer (commandSendPeerListDeserialize order)
      (Input.ofBuffer (encodeCommandHeader header ++ payload) behind grants) = .ok command) :
    ∃ len data, Declares payload len data := by
  have filled : ∀ header len (data : Vector UInt8 len.toNat), CommandSendPeerList.contents
      ⟨header, len, data.toList, declared_measured len data⟩ = (header, len, data.toList) := fun _ _ _ => rfl
  exact declares_of_readDeclared prefixed sends filled small decoded

end Payload

/-- Both deserializers respect the declared length exactly when 24 more bytes than it
declares can be counted in 64 bits. -/
theorem declared_length_respected_iff (order : ByteOrder) (commandLen len : UInt64) (payload : List UInt8)
    (sized : 24 + payload.length < 2 ^ 64) :
    (RespectsLength (commandSendPeerListDeserialize order) CommandSendPeerList.contents
        ⟨commandPrefix, Command.sendPeerList.code, commandLen⟩ len payload ↔ 24 + len.toNat < 2 ^ 64) ∧
      (RespectsLength (commandSendBlockchainDeserialize order) CommandSendBlockchain.contents
        ⟨commandPrefix, Command.sendBlockchain.code, commandLen⟩ len payload ↔ 24 + len.toNat < 2 ^ 64) := by
  have sized (header : CommandHeader) : (declaredMessage header len payload).length < 2 ^ 64 := by
    rw [declaredMessage, List.length_append, declaredPart_length]
    exact sized
  constructor
  · exact readDeclared_respectsLength_iff (fun _ _ _ => rfl) rfl rfl (sized _)
  · rw [command_send_blockchain_deserialize_eq]
    exact readDeclared_respectsLength_iff (fun _ _ _ => rfl) rfl rfl (sized _)

/-- Three bytes are declared, and five follow. -/
theorem declared_length_respected_iff_sample :
    24 + [1, 2, 3, 4, 5].length < 2 ^ 64 ∧
      RespectsLength (commandSendPeerListDeserialize .littleEndian) CommandSendPeerList.contents
        ⟨commandPrefix, Command.sendPeerList.code, 13⟩ 3 [1, 2, 3, 4, 5] ∧
      RespectsLength (commandSendBlockchainDeserialize .littleEndian) CommandSendBlockchain.contents
        ⟨commandPrefix, Command.sendBlockchain.code, 13⟩ 3 [1, 2, 3, 4, 5] := by
  obtain ⟨peers, chain⟩ := declared_length_respected_iff .littleEndian 13 3 [1, 2, 3, 4, 5] (by decide)
  exact ⟨by decide, peers.mpr (by decide), chain.mpr (by decide)⟩

/-- The largest length wraps to a sum of 23: it passes the check of a 24 byte message, and
all of it is requested. -/
theorem wrapping_length_requested :
    ¬ RespectsLength (commandSendPeerListDeserialize .littleEndian) CommandSendPeerList.contents
        ⟨commandPrefix, Command.sendPeerList.code, 8⟩ 18446744073709551615 [] ∧
      ¬ RespectsLength (commandSendBlockchainDeserialize .littleEndian) CommandSendBlockchain.contents
        ⟨commandPrefix, Command.sendBlockchain.code, 8⟩ 18446744073709551615 [] := by
  have wraps : ¬ 24 + (18446744073709551615 : UInt64).toNat < 2 ^ 64 := by decide
  have sized (header : CommandHeader) : (declaredMessage header 18446744073709551615 []).length < 2 ^ 64 := by
    rw [declaredMessage, List.append_nil, declaredPart_length]
    decide
  have prefixed (command : Command) : (⟨commandPrefix, command.code, 8⟩ : CommandHeader).Prefixed := rfl
  constructor
  · intro respects
    exact wraps ((readDeclared_respectsLength_iff (fun _ _ _ => rfl) (prefixed _) rfl
      (sized _)).mp respects)
  · rw [command_send_blockchain_deserialize_eq]
    intro respects
    exact wraps ((readDeclared_respectsLength_iff (fun _ _ _ => rfl) (prefixed _) rfl
      (sized _)).mp respects)

end LeoCoin
