import LeoCoin.Overread
import LeoCoin.Peers

/-! # Serializers next to their deserializers

A receiver reads a message in two parts, the header and then `command_len` bytes, so the
length field, the inner length and the layout have to agree for every payload and at
every place where a message can be cut.  The two commands with a payload do.  The third,
`command_register_peer_t`, is sized by `sizeof` on one side and field by field on the
other, and the struct ends with four bytes of padding.
-/

namespace LeoCoin

open Library.Decoding

/-! ## Filling in a struct -/

/-- What a deserializer leaves behind: its return code, what its output argument points to, and
the offset up to which it examined the buffer. -/
structure Filled (σ : Type) where
  returnCode : ReturnCode
  target : σ
  examined : Nat

/-- A deserializer writes through its output argument when it succeeds, and only then. -/
def fillIn {α σ : Type} (decoder : Decoder Failure α) (store : α → σ) (input : Input) (prior : σ) : Filled σ :=
  match decoder.run input ⟨0, []⟩ with
  | (.ok value, final) => ⟨.success, store value, final.position⟩
  | (.error fault, final) => ⟨(Failure.ofFault fault).val, prior, final.position⟩

section FillIn

variable {α σ : Type} {decoder : Decoder Failure α} {store : α → σ} {input : Input} {prior : σ}

theorem fillIn_ok {value : α} (decoded : decodeBuffer decoder input = .ok value) :
    (fillIn decoder store input prior).returnCode = .success ∧
      (fillIn decoder store input prior).target = store value := by
  rw [decodeBuffer] at decoded
  rw [fillIn]
  cases ran : decoder.run input ⟨0, []⟩ with
  | mk outcome final =>
    rw [ran] at decoded
    cases outcome with
    | ok value =>
      cases decoded
      exact ⟨rfl, rfl⟩
    | error fault => cases decoded

theorem fillIn_error {code : Failure} (decoded : decodeBuffer decoder input = .error code) :
    (fillIn decoder store input prior).returnCode = code.val ∧ (fillIn decoder store input prior).target = prior := by
  rw [decodeBuffer] at decoded
  rw [fillIn]
  cases ran : decoder.run input ⟨0, []⟩ with
  | mk outcome final =>
    rw [ran] at decoded
    cases outcome with
    | ok value => cases decoded
    | error fault =>
      cases decoded
      exact ⟨rfl, rfl⟩

theorem fillIn_untouched (failed : (fillIn decoder store input prior).returnCode ≠ .success) :
    (fillIn decoder store input prior).target = prior := by
  rw [fillIn] at failed ⊢
  cases ran : decoder.run input ⟨0, []⟩ with
  | mk outcome final =>
    rw [ran] at failed
    cases outcome with
    | ok value => exact absurd rfl failed
    | error fault => rfl

theorem decodeBuffer_fault {fault : Fault Failure} (failed : (decoder.run input ⟨0, []⟩).1 = .error fault) :
    decodeBuffer decoder input = .error (Failure.ofFault fault) := by
  rw [decodeBuffer, failed]

theorem decodeBuffer_truncated (truncated : (decoder.run input ⟨0, []⟩).1 = .error .truncated) :
    decodeBuffer decoder input = .error .bufferTooSmall := decodeBuffer_fault truncated

end FillIn

/-! ## Messages that are cut -/

/-- The prefix is compared inside the four bytes that were checked for. -/
theorem comparePrefix_course {expected : List UInt8} {left right : Input} (agree : Decoder.Agree left right)
    {cursor : Cursor} (inside : cursor.position + expected.length ≤ left.size) :
    Decoder.SameCourse Eq ((comparePrefix expected).run left cursor) ((comparePrefix expected).run right cursor) := by
  induction expected generalizing cursor with
  | nil => exact ⟨rfl, rfl⟩
  | cons first rest ih =>
    rw [List.length_cons] at inside
    -- a byte inside what both sizes cover is the same in both
    have same : left.window cursor.position 1 = right.window cursor.position 1 := by
      apply Vector.ext
      intro index bound
      simp only [Input.window, Vector.getElem_ofFn]
      exact agree.bytes _ (by omega)
    have step (input : Input) : (comparePrefix (first :: rest)).run input cursor =
        (if (input.window cursor.position 1)[0] ≠ first then .reject .invalidCommandPrefix
          else comparePrefix rest : Decoder Failure Unit).run input (cursor.advance 1) := by
      rw [comparePrefix, Decoder.run_bind_ok (Decoder.run_takeBytes 1 input cursor)]
    rw [step, step, same]
    split
    · exact ⟨rfl, rfl⟩
    · have room : (cursor.advance 1).position + rest.length ≤ left.size := by
        rw [Cursor.advance_position]
        omega
      exact ih room

theorem readUInt16_blind (order : ByteOrder) : Decoder.Blind Eq (readUInt16 order) (readUInt16 order) := by
  apply (Decoder.blind_checkedTake 2).bind
  rintro p _ rfl
  exact Decoder.blind_pure rfl

theorem readUInt32_blind (order : ByteOrder) : Decoder.Blind Eq (readUInt32 order) (readUInt32 order) := by
  apply (Decoder.blind_checkedTake 4).bind
  rintro p _ rfl
  exact Decoder.blind_pure rfl

theorem commandHeaderDeserialize_blind (order : ByteOrder) :
    Decoder.Blind Eq (commandHeaderDeserialize order) (commandHeaderDeserialize order) := by
  have fields (prefixed : Unit) : Decoder.Blind Eq
      (readUInt32 order >>= fun command => readUInt64 order >>= fun commandLen =>
        (pure ⟨commandPrefix, command, commandLen⟩ : Decoder Failure CommandHeader))
      (readUInt32 order >>= fun command => readUInt64 order >>= fun commandLen =>
        pure ⟨commandPrefix, command, commandLen⟩) := by
    apply (readUInt32_blind order).bind
    rintro command _ rfl
    apply (readUInt64_blind order).bind
    rintro commandLen _ rfl
    exact Decoder.blind_pure rfl
  -- the four bytes are compared unchecked, so blindness rests on the check before them
  intro left right agree cursor
  rw [commandHeaderDeserialize]
  by_cases short : cursor.position + 4 > left.size
  · have stops (input : Input) (same : input.size = left.size) {β : Type} (rest : Unit → Decoder Failure β) :
        (Decoder.requireSpace 4 >>= rest).run input cursor = (.error .truncated, cursor) := by
      rw [Decoder.run_bind, Decoder.run_requireSpace, same, if_pos short]
    rw [stops left rfl, stops right agree.size.symm]
    exact ⟨rfl, rfl⟩
  · have passes (input : Input) (same : input.size = left.size) :
        (Decoder.requireSpace 4 : Decoder Failure Unit).run input cursor = (.ok (), cursor) := by
      rw [Decoder.run_requireSpace, same, if_neg short]
    rw [Decoder.run_bind_ok (passes left rfl), Decoder.run_bind_ok (passes right agree.size.symm)]
    have inside : cursor.position + commandPrefix.toList.length ≤ left.size := by simpa using short
    exact (comparePrefix_course agree inside).bind agree fun _ _ _ => fields ()

theorem readSockaddr_blind (order : ByteOrder) : Decoder.Blind Eq (readSockaddr order) (readSockaddr order) := by
  apply (readUInt16_blind order).bind
  rintro family _ rfl
  apply (readUInt16_blind order).bind
  rintro port _ rfl
  apply (readUInt32_blind order).bind
  rintro flowinfo _ rfl
  apply (Decoder.blind_checkedTake 16).bind
  rintro addr _ rfl
  apply (readUInt32_blind order).bind
  rintro scopeId _ rfl
  exact Decoder.blind_pure rfl

theorem commandRegisterPeerDeserialize_blind (order : ByteOrder) :
    Decoder.Blind Eq (commandRegisterPeerDeserialize order) (commandRegisterPeerDeserialize order) := by
  apply (commandHeaderDeserialize_blind order).bind
  rintro header _ rfl
  split
  · exact Decoder.blind_reject _
  · apply (readSockaddr_blind order).bind
    rintro address _ rfl
    exact Decoder.blind_pure rfl

theorem commandHeaderDeserialize_truncated (order : ByteOrder) {header : CommandHeader} (prefixed : header.Prefixed)
    {short : List UInt8} (begins : short <+: encodeCommandHeader header) (lacks : short.length < 16)
    (behind : Nat → UInt8) {grants : Nat → Nat → Bool} (generous : ∀ ordinal size, grants ordinal size = true) :
    ((commandHeaderDeserialize order).run (Input.ofBuffer short behind grants) ⟨0, []⟩).1 = .error .truncated :=
  (commandHeaderDeserialize_reads order).truncated (commandHeaderDeserialize_blind order) prefixed begins lacks
    behind generous

theorem framedHeader_prefixed (kind : Command) (len : UInt64) : (framedHeader kind len).Prefixed := rfl

section Declared

variable {α : Type} {order : ByteOrder} {kind : Command}
  {build : CommandHeader → (len : UInt64) → Vector UInt8 len.toNat → α} {len : UInt64} {data : List UInt8}

/-- The first part of a message that stops inside its first 24 bytes. -/
theorem readDeclared_truncated_early {header : CommandHeader} (prefixed : header.Prefixed)
    (sends : header.command = kind.code) {short : List UInt8} (begins : short <+: declaredPart header len)
    (lacks : short.length < 24) (behind : Nat → UInt8) {grants : Nat → Nat → Bool}
    (generous : ∀ ordinal size, grants ordinal size = true) :
    ((readDeclared order kind build).run (Input.ofBuffer short behind grants) ⟨0, []⟩).1 = .error .truncated := by
  by_cases inHeader : short.length < 16
  · -- the header itself is cut
    have headerBegins : short <+: encodeCommandHeader header :=
      List.prefix_of_prefix_length_le begins (List.prefix_append _ _)
        (by rw [encodeCommandHeader_length]; omega)
    have truncated := commandHeaderDeserialize_truncated order prefixed headerBegins inHeader behind generous
    exact Decoder.run_bind_error truncated
  · -- the header is there, and the length behind it is cut
    have headerBegins : encodeCommandHeader header <+: short :=
      List.prefix_of_prefix_length_le (List.prefix_append _ _) begins
        (by rw [encodeCommandHeader_length]; omega)
    have held : (Input.ofBuffer short behind grants).Holds (⟨0, []⟩ : Cursor).position
        (encodeCommandHeader header) := by
      obtain ⟨rest, rfl⟩ := headerBegins
      exact (Input.holds_append.mp (Input.ofBuffer_holds _ _ _)).1
    have room : (⟨0, []⟩ : Cursor).position + 16 ≤ (Input.ofBuffer short behind grants).size := by
      rw [Input.ofBuffer_size]
      simp only
      omega
    have first := (commandHeaderDeserialize_reads order).complete_frugal (commandHeaderDeserialize_frugal order)
      held room prefixed
    have right : ¬ header.command ≠ kind.code := not_not_intro sends
    have cut : (⟨0, []⟩ : Cursor).position + 16 + 8 > short.length := by
      simp only
      omega
    rw [readDeclared, Decoder.run_bind_ok first, if_neg right, readUInt64, Decoder.checkedTake, Decoder.run_bind,
      Decoder.run_bind, Decoder.run_bind, Decoder.run_requireSpace, Cursor.advance_position,
      encodeCommandHeader_length, Input.ofBuffer_size, if_pos cut]

/-- Every part of a message that is not the whole of it is refused as too small. -/
theorem readDeclared_cut (measured : data.length = len.toNat) (small : data.length < 2 ^ 63) {short : List UInt8}
    (begins : short <+: framedMessage kind len data) (strict : short ≠ framedMessage kind len data)
    (behind : Nat → UInt8) {grants : Nat → Nat → Bool} (generous : ∀ ordinal size, grants ordinal size = true) :
    decodeBuffer (readDeclared order kind build) (Input.ofBuffer short behind grants) = .error .bufferTooSmall := by
  apply decodeBuffer_truncated
  have shorter : short.length < (framedMessage kind len data).length := by
    have le := begins.length_le
    have differs : short.length ≠ (framedMessage kind len data).length := fun same => strict (begins.eq_of_length same)
    omega
  -- 24 bytes are read one by one, all others by the declared length
  have split : framedMessage kind len data = declaredPart (framedHeader kind len) len ++ data := by
    rw [framedMessage, declaredPart, List.append_assoc]
  rw [split] at begins shorter
  rw [List.length_append, declaredPart_length] at shorter
  by_cases early : short.length < 24
  · have partly : short <+: declaredPart (framedHeader kind len) len :=
      List.prefix_of_prefix_length_le begins (List.prefix_append _ _) (by rw [declaredPart_length]; omega)
    exact readDeclared_truncated_early (framedHeader_prefixed kind len) rfl partly early behind generous
  · -- the declared length is read, and it asks for more than there is
    have whole : declaredPart (framedHeader kind len) len <+: short :=
      List.prefix_of_prefix_length_le (List.prefix_append _ _) begins (by rw [declaredPart_length]; omega)
    have held : (Input.ofBuffer short behind grants).Holds 0 (declaredPart (framedHeader kind len) len) := by
      obtain ⟨rest, rfl⟩ := whole
      exact (Input.holds_append.mp (Input.ofBuffer_holds _ _ _)).1
    have long : 24 ≤ (Input.ofBuffer short behind grants).size := by
      rw [Input.ofBuffer_size]
      omega
    -- the sum does not wrap for lengths below 2^63
    have missing : (24 + len.toNat) % 2 ^ 64 > (Input.ofBuffer short behind grants).size := by
      rw [Input.ofBuffer_size, Nat.mod_eq_of_lt (by omega)]
      omega
    rw [readDeclared_run order held long (framedHeader_prefixed kind len) rfl, if_pos missing]

theorem readDeclared_whole (order : ByteOrder) {contents : α → CommandHeader × UInt64 × List UInt8}
    (filled : ∀ header len data, contents (build header len data) = (header, len, data.toList))
    (measured : data.length = len.toNat) (small : data.length < 2 ^ 63) (trailing : List UInt8)
    (behind : Nat → UInt8) {grants : Nat → Nat → Bool} (generous : ∀ ordinal size, grants ordinal size = true) :
    ∃ value, decodeBuffer (readDeclared order kind build)
        (Input.ofBuffer (framedMessage kind len data ++ trailing) behind grants) = .ok value ∧
      contents value = (framedHeader kind len, len, data) := by
  have declares : Declares ((splitBytes len).toList ++ data ++ trailing) len data :=
    ⟨measured, List.prefix_append _ _⟩
  have message : framedMessage kind len data ++ trailing =
      encodeCommandHeader (framedHeader kind len) ++ ((splitBytes len).toList ++ data ++ trailing) := by
    rw [framedMessage, List.append_assoc, List.append_assoc]
  rw [message]
  exact readDeclared_declares filled (framedHeader_prefixed kind len) rfl (by omega) declares behind generous

end Declared

/-! ## The commands with a payload -/

/-- A serializer and a deserializer that agree on every byte of their messages, for every payload, every
initial `command_len` and every place where a message is cut. -/
def FramesExactly {α : Type} (serialize : (Nat → Nat → Bool) → α → Except Failure (List UInt8 × UInt64))
    (decoder : Decoder Failure α) (contents : α → CommandHeader × UInt64 × List UInt8) (kind : Command) : Prop :=
  ∀ (command : α) (header : CommandHeader) (len : UInt64) (data : List UInt8) (grants granted : Nat → Nat → Bool),
    contents command = (header, len, data) → header.Prefixed → header.command = kind.code → data.length < 2 ^ 63 →
    (∀ ordinal size, grants ordinal size = true) → (∀ ordinal size, granted ordinal size = true) →
    ∃ message size, serialize grants command = .ok (message, size) ∧ size.toNat = message.length ∧
      (∀ trailing behind prior,
        (fillIn decoder id (Input.ofBuffer (message ++ trailing) behind granted) prior).returnCode = .success ∧
        contents (fillIn decoder id (Input.ofBuffer (message ++ trailing) behind granted) prior).target =
          (framedHeader kind len, len, data)) ∧
      (framedHeader kind len).commandLen.toNat = 8 + data.length ∧
      (framedHeader kind len).commandLen.toNat = (message.drop 16).length ∧
      ∀ short behind prior, short <+: message → short ≠ message →
        (fillIn decoder id (Input.ofBuffer short behind granted) prior).returnCode = .failureBufferTooSmall ∧
        (fillIn decoder id (Input.ofBuffer short behind granted) prior).target = prior

theorem framesExactly_declared {α : Type} (order : ByteOrder) (kind : Command)
    {contents : α → CommandHeader × UInt64 × List UInt8}
    {build : CommandHeader → (len : UInt64) → Vector UInt8 len.toNat → α}
    (filled : ∀ header len data, contents (build header len data) = (header, len, data.toList))
    (measured : ∀ command, (contents command).2.2.length = (contents command).2.1.toNat) :
    FramesExactly
      (fun grants command => writeDeclared grants order kind (contents command).1 (contents command).2.1
        (contents command).2.2)
      (readDeclared order kind build) contents kind := by
  intro command header len data grants granted holds prefixed sends small generous generousRead
  have sized : data.length = len.toNat := by
    have sized := measured command
    rwa [holds] at sized
  have length : (framedMessage kind len data).length = 24 + data.length := by
    simp [framedMessage]
    omega
  -- the two sums in the header do not wrap
  have wide := len.toNat_lt
  have commandLen : (framedHeader kind len).commandLen.toNat = 8 + data.length := by
    rw [framedHeader, UInt64.toNat_add, Nat.mod_eq_of_lt]
    · simp [sized]
    · simp
      omega
  refine ⟨framedMessage kind len data, 16 + 8 + len, ?_, ?_, fun trailing behind prior => ?_, commandLen, ?_,
    fun short behind prior begins strict => ?_⟩
  · simp only [holds]
    exact writeDeclared_complete generous prefixed sends
  · rw [length, sized, UInt64.toNat_add, Nat.mod_eq_of_lt]
    · rfl
    · simp
      omega
  · obtain ⟨value, decoded, read⟩ :=
      readDeclared_whole order filled sized small trailing behind generousRead
    obtain ⟨succeeds, target⟩ : (fillIn (readDeclared order kind build) id
        (Input.ofBuffer (framedMessage kind len data ++ trailing) behind granted) prior).returnCode = .success ∧
        (fillIn (readDeclared order kind build) id
          (Input.ofBuffer (framedMessage kind len data ++ trailing) behind granted) prior).target = id value :=
      fillIn_ok decoded
    exact ⟨succeeds, by rw [target]; exact read⟩
  · rw [commandLen, List.length_drop, length]
    omega
  · exact fillIn_error (readDeclared_cut sized small begins strict behind generousRead)

/-- The two commands with a payload frame their messages exactly. -/
theorem command_send_frames_exactly (order : ByteOrder) :
    FramesExactly (fun grants command => commandSendBlockchainSerialize grants order command)
      (commandSendBlockchainDeserialize order) CommandSendBlockchain.contents .sendBlockchain ∧
    FramesExactly (fun grants command => commandSendPeerListSerialize grants order command)
      (commandSendPeerListDeserialize order) CommandSendPeerList.contents .sendPeerList :=
  ⟨framesExactly_declared order .sendBlockchain (fun _ _ _ => rfl) fun command => command.measured,
    framesExactly_declared order .sendPeerList (fun _ _ _ => rfl) fun command => command.measured⟩

/-! ## `COMMAND_REGISTER_PEER` -/

/-- The command as it is sent: the serializer writes `sizeof` of the payload into the header. -/
def CommandRegisterPeer.framed (command : CommandRegisterPeer) : CommandRegisterPeer :=
  { command with header := { command.header with commandLen := 32 } }

/-- The deserializer needs exactly the bytes that the serializer emits. -/
def NeedsExactly (order : ByteOrder) (command : CommandRegisterPeer) : Prop :=
  ∃ message size, commandRegisterPeerSerialize grantAll order command = .ok (message, size) ∧
    ∀ behind prior,
      (fillIn (commandRegisterPeerDeserialize order) id (Input.ofBuffer message behind grantAll) prior).returnCode =
        .success ∧
      (fillIn (commandRegisterPeerDeserialize order) id (Input.ofBuffer message behind grantAll) prior).target =
        command.framed ∧
      (fillIn (commandRegisterPeerDeserialize order) id (Input.ofBuffer message behind grantAll) prior).examined =
        16 + command.framed.header.commandLen.toNat ∧
      ∀ short, short <+: message → short ≠ message →
        (fillIn (commandRegisterPeerDeserialize order) id (Input.ofBuffer short behind grantAll) prior).returnCode =
          .failureBufferTooSmall

section Register

variable {order : ByteOrder} {command : CommandRegisterPeer}

theorem command_register_peer_serialize_eq (order : ByteOrder) (prefixed : command.header.Prefixed)
    (sends : command.header.command = Command.registerPeer.code) :
    commandRegisterPeerSerialize grantAll order command = .ok (registerMessage command.listenAddr, 48) := by
  have written : commandHeaderSerialize order { command.header with commandLen := 32 } = .ok _ :=
    command_header_serialize_eq order prefixed
  have right : ¬ command.header.command ≠ Command.registerPeer.code := not_not_intro sends
  have header : (⟨command.header.commandPrefix, command.header.command, 32⟩ : CommandHeader) = registerHeader := by
    rw [show command.header.commandPrefix = commandPrefix from prefixed, sends, registerHeader]
  rw [commandRegisterPeerSerialize, if_neg right, written, header, writeSockaddr_eq]
  rfl

theorem registerMessage_split (prefixed : command.header.Prefixed)
    (sends : command.header.command = Command.registerPeer.code) :
    registerMessage command.listenAddr =
      (encodeCommandHeader command.framed.header ++ encodeSockaddr command.framed.listenAddr) ++
        List.replicate 4 0 := by
  have header : command.framed.header = registerHeader := by
    rw [CommandRegisterPeer.framed, registerHeader, ← sends, ← show command.header.commandPrefix = commandPrefix from
      prefixed]
  have address : command.framed.listenAddr = command.listenAddr := rfl
  rw [registerMessage, header, address, List.append_assoc]

/-- A message is read as far as the last field, and a part of it that reaches there is as good. -/
theorem command_register_peer_reads_part (prefixed : command.header.Prefixed)
    (sends : command.header.command = Command.registerPeer.code) {short : List UInt8}
    (begins : short <+: registerMessage command.listenAddr) (reaches : 44 ≤ short.length) (behind : Nat → UInt8)
    (prior : CommandRegisterPeer) :
    fillIn (commandRegisterPeerDeserialize order) id (Input.ofBuffer short behind grantAll) prior =
      ⟨.success, command.framed, 44⟩ := by
  rw [registerMessage_split prefixed sends] at begins
  have length :
      (encodeCommandHeader command.framed.header ++ encodeSockaddr command.framed.listenAddr).length = 44 := by
    simp
  have whole : encodeCommandHeader command.framed.header ++ encodeSockaddr command.framed.listenAddr <+: short :=
    List.prefix_of_prefix_length_le (List.prefix_append _ _) begins (by rw [length]; exact reaches)
  have reads := commandRegisterPeerDeserialize_reads order
  have held : (Input.ofBuffer short behind grantAll).Holds (⟨0, []⟩ : Cursor).position
      (encodeCommandHeader command.framed.header ++ encodeSockaddr command.framed.listenAddr) := by
    obtain ⟨rest, rfl⟩ := whole
    exact (Input.holds_append.mp (Input.ofBuffer_holds _ _ _)).1
  have room : (⟨0, []⟩ : Cursor).position + 44 ≤ (Input.ofBuffer short behind grantAll).size := by
    rw [Input.ofBuffer_size]
    simpa using reaches
  obtain ⟨reached, ran⟩ := reads.complete (generous_ofBuffer _ _) held room ⟨prefixed, sends⟩
  obtain ⟨-, moved, -, -⟩ := reads.sound ran
  rw [length, Nat.zero_add] at moved
  rw [fillIn, ran, ← moved]
  rfl

theorem command_register_peer_refuses_part (prefixed : command.header.Prefixed)
    (sends : command.header.command = Command.registerPeer.code) {short : List UInt8}
    (begins : short <+: registerMessage command.listenAddr) (lacks : short.length < 44) (behind : Nat → UInt8)
    (prior : CommandRegisterPeer) :
    (fillIn (commandRegisterPeerDeserialize order) id (Input.ofBuffer short behind grantAll) prior).returnCode =
      .failureBufferTooSmall := by
  rw [registerMessage_split prefixed sends] at begins
  have partly : short <+: encodeCommandHeader command.framed.header ++ encodeSockaddr command.framed.listenAddr :=
    List.prefix_of_prefix_length_le begins (List.prefix_append _ _) (by simp; omega)
  have accepted : command.framed.header.Prefixed ∧ command.framed.header.command = Command.registerPeer.code :=
    ⟨prefixed, sends⟩
  exact (fillIn_error (decodeBuffer_truncated ((commandRegisterPeerDeserialize_reads order).truncated
    (commandRegisterPeerDeserialize_blind order) accepted partly lacks behind fun _ _ => rfl))).1

/-- The padding is sent and counted, and a message without its last byte is accepted. -/
theorem not_needsExactly (prefixed : command.header.Prefixed)
    (sends : command.header.command = Command.registerPeer.code) : ¬ NeedsExactly order command := by
  rintro ⟨message, size, serialized, exact_⟩
  rw [command_register_peer_serialize_eq order prefixed sends] at serialized
  cases serialized
  have length : (registerMessage command.listenAddr).length = 48 := by simp [registerMessage]
  -- one byte of the padding is missing
  have begins : (registerMessage command.listenAddr).take 47 <+: registerMessage command.listenAddr :=
    List.take_prefix _ _
  have shorter : (registerMessage command.listenAddr).take 47 ≠ registerMessage command.listenAddr := by
    intro same
    have lengths := congrArg List.length same
    rw [List.length_take, length] at lengths
    omega
  have refused := (exact_ (fun _ => 0) command).2.2.2 _ begins shorter
  rw [command_register_peer_reads_part prefixed sends begins (by rw [List.length_take, length]; omega)
    (fun _ => 0) command] at refused
  cases refused

/-- No command is framed exactly: of the 48 bytes that are sent 44 are needed, 28 of the 32 that the
header announces. -/
theorem command_register_peer_never_exact (order : ByteOrder) (command : CommandRegisterPeer)
    (prefixed : command.header.Prefixed) (sends : command.header.command = Command.registerPeer.code) :
    ¬ NeedsExactly order command ∧
      commandRegisterPeerSerialize grantAll order command = .ok (registerMessage command.listenAddr, 48) ∧
      (registerMessage command.listenAddr).length = 48 ∧ command.framed.header.commandLen = 32 ∧
      ∀ short behind prior, short <+: registerMessage command.listenAddr →
        (44 ≤ short.length → fillIn (commandRegisterPeerDeserialize order) id
          (Input.ofBuffer short behind grantAll) prior = ⟨.success, command.framed, 44⟩) ∧
        (short.length < 44 → (fillIn (commandRegisterPeerDeserialize order) id
          (Input.ofBuffer short behind grantAll) prior).returnCode = .failureBufferTooSmall) :=
  ⟨not_needsExactly prefixed sends, command_register_peer_serialize_eq order prefixed sends,
    by simp [registerMessage], rfl, fun _ behind prior begins =>
    ⟨fun reaches => command_register_peer_reads_part prefixed sends begins reaches behind prior,
      fun lacks => command_register_peer_refuses_part prefixed sends begins lacks behind prior⟩⟩

end Register

/-- The command that the tests register. -/
def loopbackCommand : CommandRegisterPeer where
  header := .initial .registerPeer
  sin6Family := 10
  sin6Port := 12345
  sin6Flowinfo := 0
  addr := (Vector.replicate 15 0).push 1
  sin6ScopeId := 0

theorem command_register_peer_never_exact_loopback :
    ¬ NeedsExactly .littleEndian loopbackCommand ∧
      commandRegisterPeerSerialize grantAll .littleEndian loopbackCommand =
        .ok (registerMessage loopbackCommand.listenAddr, 48) :=
  have never := command_register_peer_never_exact .littleEndian loopbackCommand rfl rfl
  ⟨never.1, never.2.1⟩

/-- Its message is accepted without its last byte. -/
theorem loopback_registration_cut_accepted :
    ¬ NeedsExactly .littleEndian loopbackCommand ∧
      (fillIn (commandRegisterPeerDeserialize .littleEndian) id
        (Input.ofBuffer ((registerMessage loopbackCommand.listenAddr).take 47) (fun _ => 0) grantAll)
        loopbackCommand).returnCode = .success := by
  have prefixed : loopbackCommand.header.Prefixed := rfl
  refine ⟨not_needsExactly prefixed rfl, ?_⟩
  have begins : (registerMessage loopbackCommand.listenAddr).take 47 <+: registerMessage loopbackCommand.listenAddr :=
    List.take_prefix _ _
  have reaches : 44 ≤ ((registerMessage loopbackCommand.listenAddr).take 47).length := by
    simp [registerMessage]
  rw [command_register_peer_reads_part prefixed rfl begins reaches]

end LeoCoin
