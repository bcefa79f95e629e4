import LeoCoin.Framing

/-! # The format of a peer list

`peer_info_list_deserialize` accepts a buffer by its length alone: eight bytes that
declare a count, and 36 bytes for each peer declared.  Any 36 bytes are a peer, so a
buffer that is long enough is a list, and it is the serialization of that list.
-/

namespace LeoCoin

open Library.Decoding

/-! ## One peer -/

theorem fixed_readUInt16 (order : ByteOrder) : (readUInt16 order).Fixed 2 :=
  (Decoder.fixed_checkedTake 2).bind fun _ => Decoder.fixed_pure _

theorem fixed_readUInt32 (order : ByteOrder) : (readUInt32 order).Fixed 4 :=
  (Decoder.fixed_checkedTake 4).bind fun _ => Decoder.fixed_pure _

theorem fixed_readUInt64 (order : ByteOrder) : (readUInt64 order).Fixed 8 :=
  (Decoder.fixed_checkedTake 8).bind fun _ => Decoder.fixed_pure _

theorem fixed_readSockaddr (order : ByteOrder) : (readSockaddr order).Fixed 28 :=
  (fixed_readUInt16 order).bind fun _ => (fixed_readUInt16 order).bind fun _ =>
    (fixed_readUInt32 order).bind fun _ => (Decoder.fixed_checkedTake 16).bind fun _ =>
      (fixed_readUInt32 order).bind fun _ => Decoder.fixed_pure _

theorem fixed_readPeerInfo (order : ByteOrder) : (readPeerInfo order).Fixed 36 :=
  (fixed_readSockaddr order).bind fun _ => (fixed_readUInt64 order).bind fun _ => Decoder.fixed_pure _

/-! ## The loop -/

/-- The allocator refuses nothing, and the list with so many peers more is a list in memory. -/
def HasRoom (input : Input) (list : PeerInfoList) (count : Nat) : Prop :=
  input.Generous ∧ 24 + 56 * (list.peers.length + count) < 2 ^ 64

section Rounds

variable {input : Input} {list : PeerInfoList} {peer : PeerInfo}

theorem store_run (cursor : Cursor) :
    (∃ longer reached, (Decoder.allocate 40 >>= fun _ => storePeerInfo list peer).run input cursor =
        (.ok longer, reached) ∧ reached.position = cursor.position ∧
        longer.peers.length = list.peers.length + 1) ∨
    (∃ fault, ((Decoder.allocate 40 >>= fun _ => storePeerInfo list peer).run input cursor).1 = .error fault ∧
      Failure.ofFault fault = .couldNotMalloc ∧ ¬ HasRoom input list 1) := by
  rw [Decoder.run_bind, Decoder.run_allocate]
  cases first : input.grants cursor.requests.length 40 with
  | false => exact .inr ⟨.refused, by simp, rfl, fun room => by simp [room.1 _ _] at first⟩
  | true =>
    simp only [if_true]
    rw [storePeerInfo, Decoder.run_bind, Decoder.run_allocate]
    cases second : input.grants (cursor.record 40).requests.length 16 with
    | false => exact .inr ⟨.refused, by simp, rfl, fun room => by simp [room.1 _ _] at second⟩
    | true =>
      simp only [if_true]
      cases appended : list.append peer with
      | ok longer =>
        have grown := PeerInfoList.append_ok appended
        exact .inl ⟨longer, _, rfl, rfl, by simp [grown]⟩
      | error code =>
        rw [PeerInfoList.append] at appended
        split at appended
        · cases appended
        next full =>
          cases appended
          refine .inr ⟨.rejected .couldNotMalloc, rfl, rfl, fun room => full ?_⟩
          have fits := room.2
          rw [peersMemory, List.length_append, List.length_singleton]
          omega

theorem appendPeerInfo_run (order : ByteOrder) (list : PeerInfoList) {cursor : Cursor}
    (inside : cursor.position ≤ input.size) :
    (input.size < cursor.position + 36 ∧ ((appendPeerInfo order list).run input cursor).1 = .error .truncated) ∨
    (cursor.position + 36 ≤ input.size ∧
      ((∃ longer reached, (appendPeerInfo order list).run input cursor = (.ok longer, reached) ∧
          reached.position = cursor.position + 36 ∧ longer.peers.length = list.peers.length + 1) ∨
        ∃ fault, ((appendPeerInfo order list).run input cursor).1 = .error fault ∧
          Failure.ofFault fault = .couldNotMalloc ∧ ¬ HasRoom input list 1)) := by
  rcases fixed_readPeerInfo order input cursor inside with ⟨room, peer, ran⟩ | ⟨short, truncated⟩
  · right
    rw [appendPeerInfo, Decoder.run_bind_ok ran]
    exact ⟨room, store_run _⟩
  · left
    exact ⟨short, Decoder.run_bind_error truncated⟩

/-- The loop takes 36 bytes for every peer, or finds that they are not there, or gets no memory.
Induction on the peers that are left. -/
theorem appendPeers_run (order : ByteOrder) (input : Input) (count : Nat) (list : PeerInfoList) {cursor : Cursor}
    (inside : cursor.position ≤ input.size) :
    (cursor.position + 36 * count ≤ input.size ∧
      ∃ longer, ((Decoder.repeatTimes count (appendPeerInfo order) list).run input cursor).1 = .ok longer) ∨
    (input.size < cursor.position + 36 * count ∧
      ((Decoder.repeatTimes count (appendPeerInfo order) list).run input cursor).1 = .error .truncated) ∨
    ∃ fault, ((Decoder.repeatTimes count (appendPeerInfo order) list).run input cursor).1 = .error fault ∧
      Failure.ofFault fault = .couldNotMalloc ∧ ¬ HasRoom input list count := by
  induction count generalizing list cursor with
  | zero => exact .inl ⟨inside, list, rfl⟩
  | succ count ih =>
    rw [Decoder.repeatTimes]
    rcases appendPeerInfo_run order list inside with
      ⟨short, truncated⟩ | ⟨room, ⟨longer, reached, ran, moved, grown⟩ | ⟨fault, failed, code, refused⟩⟩
    · exact .inr (.inl ⟨by omega, Decoder.run_bind_error truncated⟩)
    · rw [Decoder.run_bind_ok ran]
      have further : reached.position ≤ input.size := by omega
      rcases ih longer further with ⟨fits, done⟩ | ⟨short, truncated⟩ | ⟨fault, failed, code, refused⟩
      · exact .inl ⟨by omega, done⟩
      · exact .inr (.inl ⟨by omega, truncated⟩)
      · refine .inr (.inr ⟨fault, failed, code, fun room => refused ⟨room.1, ?_⟩⟩)
        have fits := room.2
        omega
    · refine .inr (.inr ⟨fault, Decoder.run_bind_error failed, code, fun room => refused ⟨room.1, ?_⟩⟩)
      have fits := room.2
      omega

end Rounds

/-! ## The whole buffer -/

/-- The buffer begins with a count in eight bytes, and is long enough for 36 bytes a peer. -/
def HoldsPeers (buffer : List UInt8) : Prop :=
  ∃ numPeers : UInt64, (splitBytes numPeers).toList <+: buffer ∧ 8 + 36 * numPeers.toNat ≤ buffer.length

/-- What the buffer declares can be a list in memory. -/
def DeclaresInMemory (buffer : List UInt8) : Prop :=
  ∀ numPeers : UInt64, (splitBytes numPeers).toList <+: buffer → 24 + 56 * numPeers.toNat < 2 ^ 64

section Buffer

variable {order : ByteOrder} {buffer : List UInt8} {behind : Nat → UInt8} {grants : Nat → Nat → Bool}

theorem readUInt64_begins {numPeers : UInt64} {reached : Cursor}
    (ran : (readUInt64 order).run (Input.ofBuffer buffer behind grants) ⟨0, []⟩ = (.ok numPeers, reached)) :
    (splitBytes numPeers).toList <+: buffer ∧
      ∀ other : UInt64, (splitBytes other).toList <+: buffer → other = numPeers := by
  obtain ⟨held, -, inside, -⟩ := (readUInt64_reads order).sound ran
  rw [Nat.zero_add, Input.ofBuffer_size] at inside
  have begins : (splitBytes numPeers).toList <+: buffer :=
    Input.ofBuffer_holds_begins held (by simpa using inside)
  refine ⟨begins, fun other otherBegins => ?_⟩
  have same := (List.prefix_of_prefix_length_le otherBegins begins (by simp)).eq_of_length (by simp)
  exact splitBytes_injective (Vector.toList_inj.mp same)

/-- Enough bytes for the peers declared are a list, memory granted; and a list is read from enough bytes. -/
theorem peerInfoListDeserialize_outcome (order : ByteOrder) (buffer : List UInt8) (behind : Nat → UInt8)
    (grants : Nat → Nat → Bool) :
    (HoldsPeers buffer ∧
      ∃ list, decodeBuffer (peerInfoListDeserialize order) (Input.ofBuffer buffer behind grants) = .ok list) ∨
    (¬ HoldsPeers buffer ∧
      decodeBuffer (peerInfoListDeserialize order) (Input.ofBuffer buffer behind grants) = .error .bufferTooSmall) ∨
    (decodeBuffer (peerInfoListDeserialize order) (Input.ofBuffer buffer behind grants) = .error .couldNotMalloc ∧
      ¬ ((∀ ordinal size, grants ordinal size = true) ∧ DeclaresInMemory buffer)) := by
  let input := Input.ofBuffer buffer behind grants
  rcases fixed_readUInt64 order input ⟨0, []⟩ (Nat.zero_le _) with ⟨room, numPeers, ran⟩ | ⟨short, truncated⟩
  · obtain ⟨begins, only⟩ := readUInt64_begins ran
    have eight : 8 ≤ input.size := by simpa using room
    have rest : (peerInfoListDeserialize order).run input ⟨0, []⟩ = _ := Decoder.run_bind_ok ran
    rw [Decoder.run_bind, Decoder.run_allocate] at rest
    -- the count is there; the list is allocated before the peers are looked at
    cases granted : input.grants (Cursor.advance ⟨0, []⟩ 8).requests.length 24 with
    | false =>
      refine .inr (.inr ⟨?_, fun generous => ?_⟩)
      · rw [decodeBuffer, rest, granted]
        rfl
      · rw [show input.grants _ 24 = true from generous.1 _ _] at granted
        cases granted
    | true =>
      simp only [granted, if_true] at rest
      have start : ((Cursor.advance ⟨0, []⟩ 8).record 24).position ≤ input.size := eight
      rcases appendPeers_run order input numPeers.toNat .create start with
        ⟨fits, list, done⟩ | ⟨lacks, truncated⟩ | ⟨fault, failed, code, refused⟩
      · rw [← rest] at done
        exact .inl ⟨⟨numPeers, begins, fits⟩, list, by rw [decodeBuffer, done]⟩
      · rw [← rest] at truncated
        refine .inr (.inl ⟨?_, decodeBuffer_truncated truncated⟩)
        rintro ⟨other, otherBegins, enough⟩
        rw [only other otherBegins] at enough
        exact absurd lacks (Nat.not_lt.mpr enough)
      · rw [← rest] at failed
        refine .inr (.inr ⟨by rw [decodeBuffer_fault failed, code], fun generous => refused ⟨generous.1, ?_⟩⟩)
        have fits := generous.2 numPeers begins
        simpa [PeerInfoList.create] using fits
  · refine .inr (.inl ⟨?_, decodeBuffer_truncated (Decoder.run_bind_error truncated)⟩)
    rintro ⟨numPeers, begins, -⟩
    have eight := begins.length_le
    simp only [Vector.length_toList, input, Input.ofBuffer_size] at eight short
    omega

end Buffer

/-! ## Staying inside -/

theorem guarded_readUInt16 (order : ByteOrder) : (readUInt16 order).Guarded :=
  (Decoder.guarded_checkedTake 2).bind fun _ => Decoder.guarded_done _

theorem guarded_readUInt32 (order : ByteOrder) : (readUInt32 order).Guarded :=
  (Decoder.guarded_checkedTake 4).bind fun _ => Decoder.guarded_done _

theorem guarded_readSockaddr (order : ByteOrder) : (readSockaddr order).Guarded :=
  (guarded_readUInt16 order).bind fun _ => (guarded_readUInt16 order).bind fun _ =>
    (guarded_readUInt32 order).bind fun _ => (Decoder.guarded_checkedTake 16).bind fun _ =>
      (guarded_readUInt32 order).bind fun _ => Decoder.guarded_done _

theorem guarded_appendPeerInfo (order : ByteOrder) (list : PeerInfoList) : (appendPeerInfo order list).Guarded := by
  have peer : (readPeerInfo order).Guarded :=
    (guarded_readSockaddr order).bind fun _ => (guarded_readUInt64 order).bind fun _ => Decoder.guarded_done _
  refine peer.bind fun peer => (Decoder.guarded_allocate 40).bind fun _ =>
    (Decoder.guarded_allocate 16).bind fun _ => ?_
  split
  · exact Decoder.guarded_reject _
  · exact Decoder.guarded_done _

theorem guarded_peerInfoListDeserialize (order : ByteOrder) : (peerInfoListDeserialize order).Guarded := by
  refine (guarded_readUInt64 order).bind fun numPeers => (Decoder.guarded_allocate 24).bind fun _ => ?_
  intro input cursor leaves
  -- a loop that leaves the buffer does so in one of its rounds
  obtain ⟨rounds, -, list, reached, -, inBody⟩ := Decoder.overruns_repeatTimes leaves
  exact guarded_appendPeerInfo order list input reached inBody

/-! ## The format -/

/-- `peer_info_list_deserialize`; `prior` is `*peer_info_list` before the call. -/
def peerInfoListFillIn (order : ByteOrder) (buffer : List UInt8) (behind : Nat → UInt8) (grants : Nat → Nat → Bool)
    (prior : Option PeerInfoList) : Filled (Option PeerInfoList) :=
  fillIn (peerInfoListDeserialize order) some (Input.ofBuffer buffer behind grants) prior

section Format

variable {order : ByteOrder} {buffer : List UInt8} {behind : Nat → UInt8} {grants : Nat → Nat → Bool}
  {prior : Option PeerInfoList}

theorem peerInfoListFillIn_success_iff
    (allocated : (peerInfoListFillIn order buffer behind grants prior).returnCode ≠ .failureCouldNotMalloc) :
    (peerInfoListFillIn order buffer behind grants prior).returnCode = .success ↔ HoldsPeers buffer := by
  rcases peerInfoListDeserialize_outcome order buffer behind grants with
    ⟨holds, list, decoded⟩ | ⟨lacks, refused⟩ | ⟨failed, -⟩
  · rw [peerInfoListFillIn, (fillIn_ok decoded).1]
    exact ⟨fun _ => holds, fun _ => rfl⟩
  · rw [peerInfoListFillIn, (fillIn_error refused).1]
    exact ⟨fun success => (by cases success), fun holds => absurd holds lacks⟩
  · exact absurd (fillIn_error failed).1 allocated

theorem peerInfoListFillIn_allocated (generous : ∀ ordinal size, grants ordinal size = true)
    (fits : DeclaresInMemory buffer) :
    (peerInfoListFillIn order buffer behind grants prior).returnCode ≠ .failureCouldNotMalloc := by
  rcases peerInfoListDeserialize_outcome order buffer behind grants with
    ⟨-, list, decoded⟩ | ⟨-, refused⟩ | ⟨-, some⟩
  · rw [peerInfoListFillIn, (fillIn_ok decoded).1]
    decide
  · rw [peerInfoListFillIn, (fillIn_error refused).1]
    decide
  · exact absurd ⟨generous, fits⟩ some

theorem peerInfoListFillIn_inside :
    (peerInfoListFillIn order buffer behind grants prior).examined ≤ buffer.length := by
  have inside := guarded_peerInfoListDeserialize order (Input.ofBuffer buffer behind grants) ⟨0, []⟩
  have examined : (peerInfoListFillIn order buffer behind grants prior).examined =
      ((peerInfoListDeserialize order).run (Input.ofBuffer buffer behind grants) ⟨0, []⟩).2.position := by
    rw [peerInfoListFillIn, fillIn]
    split
    next ran => rw [ran]
    next ran => rw [ran]
  rw [examined]
  by_contra outside
  exact inside ⟨Nat.zero_le _, Nat.lt_of_not_le outside⟩

/-- A list that was read is the serialization of the bytes that were consumed for it. -/
theorem peerInfoListFillIn_reencodes {list : PeerInfoList}
    (succeeded : (peerInfoListFillIn order buffer behind grants prior).returnCode = .success)
    (read : (peerInfoListFillIn order buffer behind grants prior).target = some list) :
    encodePeerInfoList list = buffer.take (peerInfoListFillIn order buffer behind grants prior).examined := by
  rw [peerInfoListFillIn, fillIn] at succeeded read ⊢
  cases ran : (peerInfoListDeserialize order).run (Input.ofBuffer buffer behind grants) ⟨0, []⟩ with
  | mk outcome final =>
    rw [ran] at succeeded read
    cases outcome with
    | error fault => exact absurd succeeded (Failure.ofFault fault).2
    | ok value =>
      cases read
      obtain ⟨held, moved, inside, -⟩ := (peerInfoListDeserialize_reads order).sound ran
      rw [Nat.zero_add] at moved inside
      simp only
      rw [moved, Input.ofBuffer_holds_take held inside]

theorem peerInfoListFillIn_serialized {list : PeerInfoList} (trailing : List UInt8)
    (generous : ∀ ordinal size, grants ordinal size = true) :
    peerInfoListFillIn order (encodePeerInfoList list ++ trailing) behind grants prior =
      ⟨.success, some list, (encodePeerInfoList list).length⟩ := by
  have decoded := peer_info_list_deserialize_eq order behind generous
    (List.prefix_append (encodePeerInfoList list) trailing)
  have filled : (peerInfoListFillIn order (encodePeerInfoList list ++ trailing) behind grants prior).returnCode =
      .success ∧ (peerInfoListFillIn order (encodePeerInfoList list ++ trailing) behind grants prior).target =
        some list := fillIn_ok decoded
  have inside : (peerInfoListFillIn order (encodePeerInfoList list ++ trailing) behind grants prior).examined ≤
      (encodePeerInfoList list ++ trailing).length := peerInfoListFillIn_inside
  have examined := congrArg List.length (peerInfoListFillIn_reencodes filled.1 filled.2)
  rw [List.length_take, Nat.min_eq_left inside] at examined
  rw [examined, ← filled.1, ← filled.2]

end Format

/-- `peer_info_list_deserialize` accepts the buffers that are long enough for what they declare, and is
the inverse of `peer_info_list_serialize` on them. -/
theorem peer_info_list_format (order : ByteOrder) :
    (∀ buffer behind grants prior,
      ((peerInfoListFillIn order buffer behind grants prior).returnCode ≠ .failureCouldNotMalloc →
        ((peerInfoListFillIn order buffer behind grants prior).returnCode = .success ↔
          ∃ numPeers : UInt64, (splitBytes numPeers).toList <+: buffer ∧
            8 + 36 * numPeers.toNat ≤ buffer.length)) ∧
      ((∀ ordinal size, grants ordinal size = true) → DeclaresInMemory buffer →
        (peerInfoListFillIn order buffer behind grants prior).returnCode ≠ .failureCouldNotMalloc) ∧
      (peerInfoListFillIn order buffer behind grants prior).examined ≤ buffer.length ∧
      ((peerInfoListFillIn order buffer behind grants prior).returnCode ≠ .success →
        (peerInfoListFillIn order buffer behind grants prior).target = prior)) ∧
    (∀ list trailing behind grants granted prior, (∀ ordinal size, grants ordinal size = true) →
      (∀ ordinal size, granted ordinal size = true) →
      ∃ message size, peerInfoListSerialize granted order list = .ok (message, size) ∧ size.toNat = message.length ∧
        peerInfoListFillIn order (message ++ trailing) behind grants prior = ⟨.success, some list, message.length⟩) ∧
    ∀ buffer behind grants granted prior list, (∀ ordinal size, granted ordinal size = true) →
      (peerInfoListFillIn order buffer behind grants prior).returnCode = .success →
      (peerInfoListFillIn order buffer behind grants prior).target = some list →
      ∃ size, peerInfoListSerialize granted order list =
        .ok (buffer.take (peerInfoListFillIn order buffer behind grants prior).examined, size) := by
  refine ⟨fun buffer behind grants prior => ⟨peerInfoListFillIn_success_iff, peerInfoListFillIn_allocated,
    peerInfoListFillIn_inside, fillIn_untouched⟩,
    fun list trailing behind grants granted prior generous generousWrite =>
    ⟨_, _, peer_info_list_serialize_eq generousWrite order list, encodePeerInfoList_length_toNat list,
      peerInfoListFillIn_serialized trailing generous⟩,
    fun buffer behind grants granted prior list generousWrite succeeded read =>
    ⟨UInt64.ofNat (encodePeerInfoList list).length, ?_⟩⟩
  rw [peer_info_list_serialize_eq generousWrite order list, peerInfoListFillIn_reencodes succeeded read]

end LeoCoin
