import IocpChat.Proofs.Packets
import IocpChat.Spec.Codecs

/-! The packet classes as codecs: what a constructor builds comes back from its bytes, and
what a class accepts is written as it was read. -/

namespace IocpChat

open LittleEndian

theorem PacketHeader.toBytes_ofBytes {bs : List UInt8} (h : kHeaderSize ≤ bs.length) :
    (PacketHeader.ofBytes bs).toBytes = bs.take kHeaderSize := by
  have hback (cs : List UInt8) (hlen : cs.length = 2) :
      leBytes 2 (UInt16.ofNat (leNat cs)).toNat = cs := by
    have hlt := leNat_lt cs
    have hbytes := leBytes_leNat cs
    rw [hlen] at hlt hbytes
    rw [UInt16.toNat_ofNat_of_lt' (by omega), hbytes]
  simp only [kHeaderSize] at h
  rw [PacketHeader.ofBytes, PacketHeader.toBytes, hback _ (by simp; omega), hback _ (by simp; omega),
    ← List.take_add]
  rfl

/-- The check every `IsValid` makes. -/
theorem announces_iff {buffer : List UInt8} {t : PacketType} {size : ℕ} :
    (if buffer.length < size then false
      else (PacketHeader.ofBytes buffer).id == t.toId &&
        (PacketHeader.ofBytes buffer).size.toNat == size) = true ↔
      size ≤ buffer.length ∧ (PacketHeader.ofBytes buffer).id = t.toId ∧
        (PacketHeader.ofBytes buffer).size.toNat = size := by
  split_ifs with hlen
  · simp
    omega
  · simp [Nat.not_lt.mp hlen]

/-! ### Classes with a header and a body -/

section Packet

variable {β : Type} {t : PacketType} {fmt : Packed β}

theorem Packet.isValid_iff {buffer : List UInt8} :
    Packet.isValid t fmt buffer = true ↔ kHeaderSize + fmt.size ≤ buffer.length ∧
      (PacketHeader.ofBytes buffer).id = t.toId ∧
      (PacketHeader.ofBytes buffer).size.toNat = kHeaderSize + fmt.size :=
  announces_iff

/-- Encoding writes back what was decoded. -/
theorem Packet.serialize_deserialize {buffer : List UInt8} (h : Packet.isValid t fmt buffer = true)
    (q : Packet β) : Packet.serialize fmt (Packet.deserialize t fmt q buffer) =
      buffer.take (PacketHeader.ofBytes buffer).size.toNat := by
  obtain ⟨hlen, hid, hsize⟩ := Packet.isValid_iff.mp h
  have hbody : fmt.size ≤ (buffer.drop kHeaderSize).length := by
    rw [List.length_drop]
    omega
  have hown : (⟨PacketHeader.ofBytes buffer, fmt.ofBytes (buffer.drop kHeaderSize)⟩ :
      Packet β).OwnHeader t fmt := ⟨hid, hsize⟩
  rw [Packet.deserialize, if_pos h, Packet.serialize_eq hown, hsize, List.take_add,
    PacketHeader.toBytes_ofBytes (by omega), fmt.toBytes_ofBytes _ hbody]

theorem Packet.codec {built : Packet β → Prop} (hbuilt : ∀ p, built p → p.OwnHeader t fmt) :
    Codec Packet.header (Packet.serialize fmt) (Packet.isValid t fmt) (Packet.deserialize t fmt)
      built id id where
  length p hp := (Packet.length_serialize (hbuilt p hp)).trans (hbuilt p hp).2.symm
  accepts p hp := Packet.isValid_serialize_append (hbuilt p hp)
  decodes p hp := Packet.deserialize_serialize_append (hbuilt p hp)
  encodes _ h := Packet.serialize_deserialize h
  rejects buffer h q := by rw [Packet.deserialize, if_neg (Bool.eq_false_iff.mp h)]

end Packet

theorem PKLoginReq.ownHeader_ofName (name : List UInt8) :
    (PKLoginReq.ofName name).OwnHeader .loginReq PKLoginReqBody.layout := ⟨rfl, rfl⟩

theorem PKExit.ownHeader_ofNick (nick : List UInt8) :
    (PKExit.ofNick nick).OwnHeader .exit PKExitBody.layout := ⟨rfl, rfl⟩

/-! ### Chat messages -/

@[simp] theorem ChatMessagePacket.length_toBytes (p : ChatMessagePacket) :
    p.toBytes.length = ChatMessagePacket.size := by
  rw [toBytes, List.length_append, PacketHeader.length_toBytes, PKChatBroadcastBody.layout.length_toBytes]
  rfl

theorem ChatMessagePacket.ofBytes_append (p : ChatMessagePacket) (rest : List UInt8) :
    ofBytes (p.toBytes ++ rest) = p := by
  rw [ofBytes, toBytes, List.append_assoc, PacketHeader.ofBytes_append,
    List.drop_left' p.header.length_toBytes, PKChatBroadcastBody.layout.ofBytes_append]

theorem ChatMessagePacket.toBytes_ofBytes {bs : List UInt8} (h : size ≤ bs.length) :
    (ofBytes bs).toBytes = bs.take size := by
  have hbody : PKChatBroadcastBody.layout.size ≤ (bs.drop kHeaderSize).length := by
    rw [List.length_drop]
    exact Nat.le_sub_of_add_le h
  have hsize : size = kHeaderSize + PKChatBroadcastBody.layout.size := rfl
  rw [hsize, List.take_add, ← PKChatBroadcastBody.layout.toBytes_ofBytes _ hbody,
    ← PacketHeader.toBytes_ofBytes (by rw [hsize] at h; omega)]
  rfl

theorem ChatMessagePacket.drop_toBytes (pkt : ChatMessagePacket) :
    pkt.toBytes.drop 4 =
      pkt.sender.toList ++ (pkt.message.toList ++ uint64Layout.toBytes pkt.timestamp) :=
  List.drop_left' pkt.header.length_toBytes

theorem ChatMessagePacket.drop_toBytes_message (pkt : ChatMessagePacket) :
    pkt.toBytes.drop 36 = pkt.message.toList ++ uint64Layout.toBytes pkt.timestamp := by
  rw [← List.drop_drop (i := 32) (j := 4), drop_toBytes, List.drop_left' (List.Vector.toList_length _)]

theorem PKChatMessage.serialize_eq (p : PKChatMessage) : p.serialize = p.pkt.toBytes :=
  memcpyAt_zeros p.pkt.length_toBytes

theorem PKChatMessage.ofBytes_serialize (p : PKChatMessage) :
    ChatMessagePacket.ofBytes p.serialize = p.pkt := by
  have hback := ChatMessagePacket.ofBytes_append p.pkt []
  rwa [List.append_nil, ← serialize_eq] at hback

theorem PKChatMessage.length_serialize (p : PKChatMessage) :
    p.serialize.length = ChatMessagePacket.size := by
  rw [serialize_eq, ChatMessagePacket.length_toBytes]

theorem PKChatMessage.isValid_iff {buffer : List UInt8} :
    isValid buffer = true ↔ ChatMessagePacket.size ≤ buffer.length ∧
      (PacketHeader.ofBytes buffer).id = PacketType.chatMessage.toId ∧
      (PacketHeader.ofBytes buffer).size.toNat = ChatMessagePacket.size :=
  announces_iff

/-- The bytes of a packet whose texts were terminated: the last byte of each is 0. -/
theorem ChatMessagePacket.toBytes_terminate (p : ChatMessagePacket) :
    { p with sender := terminate p.sender, message := terminate p.message : ChatMessagePacket }.toBytes =
      (p.toBytes.set 35 0).set 291 0 := by
  have hhead : p.header.toBytes.length = 4 := p.header.length_toBytes
  have hsender : p.sender.toList.length = 32 := p.sender.toList_length
  have hmessage : p.message.toList.length = 256 := p.message.toList_length
  set h := p.header.toBytes
  set s := p.sender.toList
  set m := p.message.toList
  set t := uint64Layout.toBytes p.timestamp
  have hlast : (h ++ (s ++ (m ++ t))).set 35 0 = h ++ (s.set 31 0 ++ (m ++ t)) := by
    rw [List.set_append_right _ _ (by omega), hhead, List.set_append_left _ _ (by omega)]
  have hlast' : (h ++ (s.set 31 0 ++ (m ++ t))).set 291 0 =
      h ++ (s.set 31 0 ++ (m.set 255 0 ++ t)) := by
    rw [List.set_append_right _ _ (by omega), hhead, List.set_append_right _ _ (by simp [hsender]),
      List.length_set, hsender, List.set_append_left _ _ (by omega)]
  exact ((congrArg (List.set · 291 0) hlast).trans hlast').symm

/-- Terminating an array that ends with 0 changes nothing. -/
theorem terminate_of_last {n : ℕ} {v : Chars n} {front : List UInt8} (h : v.toList = front ++ [0]) :
    terminate v = v := by
  apply Subtype.ext
  change v.toList.set (n - 1) 0 = v.toList
  have hn : front.length + 1 = n := by rw [← v.toList_length, h, List.length_append]; rfl
  rw [h, List.set_append_right _ _ (by omega)]
  simp [← hn]

/-- The release library leaves zeros behind the text it copies into a zeroed array. -/
theorem toList_release {n count : ℕ} (src : List UInt8) (h : count < n) :
    (StrncpyS.release.copy (.zero n) src count).toList =
      (cstr src).take count ++ List.replicate (n - 1 - ((cstr src).take count).length) 0 ++ [0] := by
  set text := (cstr src).take count with htext
  have hlen : text.length ≤ count := List.length_take_le _ _
  have hzeros : 0 :: List.replicate (n - (text.length + 1)) (0 : UInt8) =
      List.replicate (n - 1 - text.length) 0 ++ [0] := by
    rw [← List.replicate_succ, ← List.replicate_succ']
    congr 1
    omega
  change (text ++ [0] ++ (List.replicate n 0).drop (text.length + 1)).take n = _
  rw [List.drop_replicate, List.append_assoc, List.append_assoc, List.singleton_append, hzeros,
    List.take_of_length_le]
  simp only [List.length_append, List.length_replicate, List.length_singleton]
  omega

theorem terminate_release {n count : ℕ} (src : List UInt8) (h : count < n) :
    terminate (StrncpyS.release.copy (.zero n) src count) = StrncpyS.release.copy (.zero n) src count :=
  terminate_of_last (toList_release src h)

theorem PKChatMessage.isValid_append {p : PKChatMessage} (hp : p.pkt.header = ownHeader)
    (rest : List UInt8) : isValid (p.serialize ++ rest) = true := by
  have hhead : PacketHeader.ofBytes (p.pkt.toBytes ++ rest) = ownHeader := by
    rw [ChatMessagePacket.toBytes, List.append_assoc, PacketHeader.ofBytes_append, hp]
  rw [serialize_eq]
  apply isValid_iff.mpr
  rw [hhead, List.length_append, ChatMessagePacket.length_toBytes]
  exact ⟨Nat.le_add_right _ _, rfl, rfl⟩

theorem PKChatMessage.deserialize_serialize_append {p : PKChatMessage} (hp : p.pkt.header = ownHeader)
    (q : PKChatMessage) (rest : List UInt8) : deserialize q (p.serialize ++ rest) = p.terminated := by
  rw [deserialize, if_pos (isValid_append hp rest), serialize_eq, ChatMessagePacket.ofBytes_append]
  rfl

/-- A text of `ToPacket` begins its array, whatever the library leaves behind it. -/
theorem cstr_copy_append (crt : StrncpyS) {n count : ℕ} (dst : Chars n) (src rest : List UInt8)
    (h : count < n) : cstr ((crt.copy dst src count).toList ++ rest) = (cstr src).take count :=
  cstr_of_prefix (fun b hb => cstr_ne_zero src b (List.mem_of_mem_take hb))
    ((crt.copies dst src count h).trans (List.prefix_append _ _))

theorem cstr_copy (crt : StrncpyS) {n count : ℕ} (dst : Chars n) (src : List UInt8) (h : count < n) :
    cstr (crt.copy dst src count).toList = (cstr src).take count := by
  have hcopy := cstr_copy_append crt dst src [] h
  rwa [List.append_nil] at hcopy

theorem PKChatMessage.getData_ofData (crt : StrncpyS) (data : ChatMessageData) :
    (ofData crt data).getData =
      ⟨(cstr data.sender).take 31, (cstr data.message).take 255, data.timestamp⟩ := by
  have hsender (rest : List UInt8) :
      cstr ((ofData crt data).pkt.sender.toList ++ rest) = (cstr data.sender).take 31 :=
    cstr_copy_append crt (.zero 32) data.sender rest (by decide)
  have hmessage (rest : List UInt8) :
      cstr ((ofData crt data).pkt.message.toList ++ rest) = (cstr data.message).take 255 :=
    cstr_copy_append crt (.zero 256) data.message rest (by decide)
  rw [getData, toData, ChatMessagePacket.drop_toBytes, ChatMessagePacket.drop_toBytes_message,
    hsender, hmessage]
  rfl

/-- Terminating the arrays changes no text. -/
theorem PKChatMessage.getData_terminated (crt : StrncpyS) (data : ChatMessageData) :
    (ofData crt data).terminated.getData = (ofData crt data).getData := by
  have hsender : cstr (ofData crt data).pkt.sender.toList = (cstr data.sender).take 31 :=
    cstr_copy crt (.zero 32) data.sender (by decide)
  have hmessage : cstr (ofData crt data).pkt.message.toList = (cstr data.message).take 255 :=
    cstr_copy crt (.zero 256) data.message (by decide)
  rw [getData_ofData, getData, toData, ChatMessagePacket.drop_toBytes,
    ChatMessagePacket.drop_toBytes_message, terminated, cstr_terminate (by decide),
    cstr_terminate (by decide), hsender, hmessage, List.take_take, List.take_take]
  rfl

theorem PKChatMessage.terminated_release (data : ChatMessageData) :
    (ofData .release data).terminated = ofData .release data := by
  have hsender : terminate (ofData .release data).pkt.sender = (ofData .release data).pkt.sender :=
    terminate_release data.sender (by decide)
  have hmessage : terminate (ofData .release data).pkt.message = (ofData .release data).pkt.message :=
    terminate_release data.message (by decide)
  rw [terminated, hsender, hmessage]

theorem PKChatMessage.serialize_deserialize {buffer : List UInt8} (h : isValid buffer = true)
    (q : PKChatMessage) : (deserialize q buffer).serialize =
      ((buffer.take (PacketHeader.ofBytes buffer).size.toNat).set 35 0).set 291 0 := by
  obtain ⟨hlen, hid, hsize⟩ := isValid_iff.mp h
  rw [deserialize, if_pos h, serialize_eq, ChatMessagePacket.toBytes_terminate,
    ChatMessagePacket.toBytes_ofBytes hlen, hsize]

theorem PKChatMessage.codec (crt : StrncpyS) :
    Codec (fun p => p.pkt.header) serialize isValid deserialize (fun p => ∃ data, p = ofData crt data)
      terminated (fun bytes => (bytes.set 35 0).set 291 0) where
  length p hp := by
    obtain ⟨data, rfl⟩ := hp
    rw [length_serialize]
    rfl
  accepts p hp := by
    obtain ⟨data, rfl⟩ := hp
    exact isValid_append rfl
  decodes p hp := by
    obtain ⟨data, rfl⟩ := hp
    exact deserialize_serialize_append rfl
  encodes _ h := serialize_deserialize h
  rejects buffer h q := by rw [deserialize, if_neg (Bool.eq_false_iff.mp h)]

/-! ### All of them -/

/-- What a constructor builds from its fields comes back from its bytes, and what a class
accepts is written as it was read. A chat message is terminated on the way: its header, its
timestamp and its texts come back with every run-time library, its arrays as they were with
the release library. -/
theorem codecs_inverse :
    (∀ crt, Codec (fun p => p.pkt.header) PKChatMessage.serialize PKChatMessage.isValid
      PKChatMessage.deserialize (fun p => ∃ data, p = PKChatMessage.ofData crt data)
      PKChatMessage.terminated (fun bytes => (bytes.set 35 0).set 291 0)) ∧
    (∀ crt data, (PKChatMessage.ofData crt data).terminated.getData =
      (PKChatMessage.ofData crt data).getData) ∧
    (∀ data, (PKChatMessage.ofData .release data).terminated = PKChatMessage.ofData .release data) ∧
    Codec Packet.header PKChatBroadcast.serialize PKChatBroadcast.isValid
      PKChatBroadcast.deserialize
      (fun p => ∃ nick msg ts, p = PKChatBroadcast.ofFields nick msg ts) id id ∧
    Codec Packet.header PKLoginReq.serialize PKLoginReq.isValid PKLoginReq.deserialize
      (fun p => ∃ name, p = PKLoginReq.ofName name) id id ∧
    Codec Packet.header PKLoginAck.serialize PKLoginAck.isValid PKLoginAck.deserialize
      (fun p => ∃ sid ok why curUsers, p = PKLoginAck.ofFields sid ok why curUsers) id id ∧
    Codec Packet.header PKExit.serialize PKExit.isValid PKExit.deserialize
      (fun p => ∃ nick, p = PKExit.ofNick nick) id id ∧
    Codec Packet.header PKUserCountAck.serialize PKUserCountAck.isValid PKUserCountAck.deserialize
      (fun p => ∃ c, p = PKUserCountAck.ofCount c) id id := by
  refine ⟨PKChatMessage.codec, PKChatMessage.getData_terminated, PKChatMessage.terminated_release,
    Packet.codec ?_, Packet.codec ?_, Packet.codec ?_, Packet.codec ?_, Packet.codec ?_⟩
  · rintro _ ⟨nick, msg, ts, rfl⟩
    exact PKChatBroadcast.ownHeader_ofFields nick msg ts
  · rintro _ ⟨name, rfl⟩
    exact PKLoginReq.ownHeader_ofName name
  · rintro _ ⟨sid, ok, why, curUsers, rfl⟩
    exact PKLoginAck.ownHeader_ofFields sid ok why curUsers
  · rintro _ ⟨nick, rfl⟩
    exact PKExit.ownHeader_ofNick nick
  · rintro _ ⟨c, rfl⟩
    exact PKUserCountAck.ownHeader_ofCount c

/-- With the debug library the last cells of both arrays come back as 0 instead of 0xFE. -/
theorem codecs_fill : ¬ Codec (fun p => p.pkt.header) PKChatMessage.serialize PKChatMessage.isValid
    PKChatMessage.deserialize (fun p => ∃ data, p = PKChatMessage.ofData .debug data) id
    (fun bytes => (bytes.set 35 0).set 291 0) := by
  intro hcodec
  have hback := hcodec.decodes _ ⟨⟨[104], [105], 0⟩, rfl⟩ (.ofData .release ⟨[], [], 0⟩) []
  revert hback
  decide +kernel

end IocpChat
