import IocpChat.Proofs.Codecs
import IocpChat.Spec.IPacket

/-! Which packets a class recognises: those of the type and the size it looks for, which
are its own except in `PKUserCountReq`. -/

namespace IocpChat

/-- The bytes of a whole packet whose header says so. -/
def Announces (t : PacketType) (size : ℕ) (bytes : List UInt8) : Prop :=
  bytes.length = size ∧ (PacketHeader.ofBytes bytes).id = t.toId ∧
    (PacketHeader.ofBytes bytes).size.toNat = size

theorem Packet.announces {β : Type} {t : PacketType} {fmt : Packed β} {p : Packet β}
    (hp : p.OwnHeader t fmt) : Announces t (kHeaderSize + fmt.size) (Packet.serialize fmt p) := by
  rw [Announces, Packet.header_serialize hp]
  exact ⟨Packet.length_serialize hp, hp.1, hp.2⟩

theorem PKLoginReq.ownHeader_new : new.OwnHeader .loginReq PKLoginReqBody.layout := ⟨rfl, rfl⟩

theorem PKLoginAck.ownHeader_new : new.OwnHeader .loginAck PKLoginAckBody.layout := ⟨rfl, rfl⟩

theorem PKExit.ownHeader_new : new.OwnHeader .exit PKExitBody.layout := ⟨rfl, rfl⟩

theorem PKUserCountAck.ownHeader_new : new.OwnHeader .userCountAck PKUserCountAckBody.layout :=
  ⟨rfl, rfl⟩

theorem PKChatBroadcast.ownHeader_new : new.OwnHeader .chatBroadcast PKChatBroadcastBody.layout :=
  ⟨rfl, rfl⟩

theorem PKChatMessage.announces {p : PKChatMessage} (hp : p.pkt.header = ownHeader) :
    Announces .chatMessage ChatMessagePacket.size p.serialize := by
  have hhead : PacketHeader.ofBytes p.serialize = ownHeader := by
    rw [serialize_eq, ChatMessagePacket.toBytes, PacketHeader.ofBytes_append, hp]
  rw [Announces, hhead]
  exact ⟨length_serialize p, rfl, rfl⟩

theorem PKChatMessage.deserialize_serialize {p : PKChatMessage} (h : isValid p.serialize = true)
    (q : PKChatMessage) : deserialize q p.serialize =
      ⟨{ p.pkt with sender := terminate p.pkt.sender, message := terminate p.pkt.message }⟩ := by
  rw [deserialize, if_pos h, ofBytes_serialize]

/-! ### Classes without a body -/

section HeaderPacket

variable {t : PacketType}

theorem HeaderPacket.serialize_eq (p : HeaderPacket) : p.serialize = p.header.toBytes :=
  memcpyAt_zeros p.header.length_toBytes

theorem HeaderPacket.isValid_iff {buffer : List UInt8} :
    HeaderPacket.isValid t buffer = true ↔ kHeaderSize ≤ buffer.length ∧
      (PacketHeader.ofBytes buffer).id = t.toId ∧
      (PacketHeader.ofBytes buffer).size.toNat = kHeaderSize :=
  announces_iff

theorem HeaderPacket.announces {p : HeaderPacket} (hid : p.header.id = t.toId)
    (hsize : p.header.size.toNat = kHeaderSize) : Announces t kHeaderSize p.serialize := by
  have hhead : PacketHeader.ofBytes p.serialize = p.header := by
    rw [serialize_eq, ← List.append_nil p.header.toBytes, PacketHeader.ofBytes_append]
  rw [Announces, hhead, serialize_eq, PacketHeader.length_toBytes]
  exact ⟨rfl, hid, hsize⟩

/-- What is read back is the object itself. -/
theorem HeaderPacket.deserialize_serialize {p : HeaderPacket} (hid : p.header.id = t.toId)
    (hsize : p.header.size.toNat = kHeaderSize) (q : HeaderPacket) :
    HeaderPacket.deserialize t q p.serialize = p := by
  obtain ⟨hlen, hid', hsize'⟩ := HeaderPacket.announces hid hsize
  have hvalid : HeaderPacket.isValid t p.serialize = true :=
    HeaderPacket.isValid_iff.mpr ⟨hlen.ge, hid', hsize'⟩
  rw [deserialize, if_pos hvalid, serialize_eq, ← List.append_nil p.header.toBytes,
    PacketHeader.ofBytes_append]

end HeaderPacket

theorem PacketType.toId_injective {t u : PacketType} (h : t.toId = u.toId) : t = u := by
  cases t <;> cases u <;> first | rfl | exact absurd h (by decide)

namespace PacketClass

/-- The type `IsValid` looks for. -/
def checked : PacketClass → PacketType
  | userCountReq => .userCount
  | c => c.type

variable {c : PacketClass} {buffer : List UInt8}

theorem isValid_iff : c.isValid buffer = true ↔ c.length ≤ buffer.length ∧
    (PacketHeader.ofBytes buffer).id = c.checked.toId ∧
    (PacketHeader.ofBytes buffer).size.toNat = c.length := by
  cases c with
  | chatMessage => exact PKChatMessage.isValid_iff
  | chatBroadcast => exact Packet.isValid_iff
  | loginReq => exact Packet.isValid_iff
  | loginAck => exact Packet.isValid_iff
  | exit => exact Packet.isValid_iff
  | userCount => exact HeaderPacket.isValid_iff
  | userCountReq => exact HeaderPacket.isValid_iff
  | userCountAck => exact Packet.isValid_iff

theorem checked_eq_type : c.checked = c.type ↔ c ≠ userCountReq := by
  cases c <;> decide

theorem type_injective {c d : PacketClass} (h : c.type = d.type) : c = d := by
  cases c <;> cases d <;> first | rfl | exact absurd h (by decide)

/-- What a constructor builds announces the type and the size of its class. -/
theorem Built.announces {p : c.Object} (h : c.Built p) :
    Announces c.type c.length (c.serialize p) := by
  cases h with
  | newChatMessage memory => exact PKChatMessage.announces rfl
  | ofData crt data => exact PKChatMessage.announces rfl
  | newChatBroadcast => exact Packet.announces ⟨rfl, rfl⟩
  | chatBroadcastOfFields nick msg ts => exact Packet.announces ⟨rfl, rfl⟩
  | newLoginReq => exact Packet.announces ⟨rfl, rfl⟩
  | ofName name => exact Packet.announces ⟨rfl, rfl⟩
  | newLoginAck => exact Packet.announces ⟨rfl, rfl⟩
  | loginAckOfFields sid ok why curUsers => exact Packet.announces ⟨rfl, rfl⟩
  | newExit => exact Packet.announces ⟨rfl, rfl⟩
  | ofNick nick => exact Packet.announces ⟨rfl, rfl⟩
  | newUserCount => exact HeaderPacket.announces rfl rfl
  | newUserCountReq => exact HeaderPacket.announces rfl rfl
  | newUserCountAck => exact Packet.announces ⟨rfl, rfl⟩
  | ofCount n => exact Packet.announces ⟨rfl, rfl⟩

theorem isValid_serialize {p : c.Object} (h : c.Built p) :
    c.isValid (c.serialize p) = true ↔ c ≠ userCountReq := by
  obtain ⟨hlen, hid, hsize⟩ := h.announces
  rw [isValid_iff, ← checked_eq_type, hid]
  constructor
  · rintro ⟨-, heq, -⟩
    exact (PacketType.toId_injective heq).symm
  · intro heq
    exact ⟨hlen.ge, by rw [heq], hsize⟩

/-! ### What is read back -/

theorem Built.reads_back {p : c.Object} (h : c.Built p) (hc : c ≠ userCountReq) (q : c.Object) :
    c.deserialize q (c.serialize p) = c.settled p := by
  have hvalid := (isValid_serialize h).mpr hc
  cases h with
  | newChatMessage memory => exact PKChatMessage.deserialize_serialize hvalid q
  | ofData crt data => exact PKChatMessage.deserialize_serialize hvalid q
  | newChatBroadcast => exact Packet.deserialize_serialize PKChatBroadcast.ownHeader_new q
  | chatBroadcastOfFields nick msg ts =>
    exact Packet.deserialize_serialize (PKChatBroadcast.ownHeader_ofFields nick msg ts) q
  | newLoginReq => exact Packet.deserialize_serialize PKLoginReq.ownHeader_new q
  | ofName name => exact Packet.deserialize_serialize (PKLoginReq.ownHeader_ofName name) q
  | newLoginAck => exact Packet.deserialize_serialize PKLoginAck.ownHeader_new q
  | loginAckOfFields sid ok why curUsers =>
    exact Packet.deserialize_serialize (PKLoginAck.ownHeader_ofFields sid ok why curUsers) q
  | newExit => exact Packet.deserialize_serialize PKExit.ownHeader_new q
  | ofNick nick => exact Packet.deserialize_serialize (PKExit.ownHeader_ofNick nick) q
  | newUserCount =>
    exact HeaderPacket.deserialize_serialize (t := .userCount) (p := PKUserCount.new) rfl rfl q
  | newUserCountReq => exact absurd rfl hc
  | newUserCountAck => exact Packet.deserialize_serialize PKUserCountAck.ownHeader_new q
  | ofCount n => exact Packet.deserialize_serialize (PKUserCountAck.ownHeader_ofCount n) q

/-! ### Who accepts a buffer -/

theorem userCount_isValid : userCount.isValid buffer = true ↔
    PKUserCount.serialize .new <+: buffer := by
  have hbytes : PKUserCount.serialize .new = PKUserCount.new.header.toBytes := HeaderPacket.serialize_eq _
  rw [isValid_iff, hbytes]
  constructor
  · rintro ⟨hlen, hid, hsize⟩
    have hhead : PacketHeader.ofBytes buffer = PKUserCount.new.header := by
      generalize PacketHeader.ofBytes buffer = h at hid hsize
      obtain ⟨size, id⟩ := h
      have hsize : size = UInt16.ofNat kHeaderSize := UInt16.toNat_inj.mp hsize
      rw [hsize, show id = _ from hid]
      rfl
    rw [← hhead, PacketHeader.toBytes_ofBytes hlen]
    exact List.take_prefix _ _
  · rintro ⟨rest, rfl⟩
    rw [PacketHeader.ofBytes_append, List.length_append, PacketHeader.length_toBytes]
    exact ⟨Nat.le_add_right _ _, rfl, rfl⟩

theorem unmistakable_iff : Unmistakable buffer ↔ ¬ PKUserCount.serialize .new <+: buffer := by
  rw [← userCount_isValid]
  constructor
  · intro h hcount
    have hreq : userCountReq.isValid buffer = true := hcount
    exact absurd ((h _ hcount).2 _ hreq) (by decide)
  · intro hcount c hc
    have hne {d : PacketClass} (hd : d.isValid buffer = true) : d.checked = d.type := by
      apply checked_eq_type.mpr
      rintro rfl
      exact hcount hd
    have hid {d : PacketClass} (hd : d.isValid buffer = true) :
        d.type.toId = (PacketHeader.ofBytes buffer).id := by
      rw [(isValid_iff.mp hd).2.1, hne hd]
    exact ⟨hid hc, fun d hd => type_injective (PacketType.toId_injective ((hid hd).trans (hid hc).symm))⟩

end PacketClass

/-- `PKUserCountReq` alone does not recognise its packets, and the packets of `PKUserCount`
are the buffers that it takes for its own. -/
theorem classes_iff (c : PacketClass) (p : c.Object) (hp : c.Built p) (buffer : List UInt8) :
    (c.Recognises p ↔ c ≠ .userCountReq) ∧
      (PacketClass.Unmistakable buffer ↔ ¬ PKUserCount.serialize .new <+: buffer) := by
  refine ⟨⟨?_, ?_⟩, PacketClass.unmistakable_iff⟩
  · intro h
    exact (PacketClass.isValid_serialize hp).mp h.1
  · intro hc
    exact ⟨(PacketClass.isValid_serialize hp).mpr hc, hp.reads_back hc⟩

theorem classes_iff_exit : PacketClass.Recognises .exit (PKExit.ofNick [97]) ∧
    PacketClass.Unmistakable [4, 0, 13, 0] := by
  obtain ⟨hexit, hbuffer⟩ := classes_iff .exit (PKExit.ofNick [97]) (.ofNick [97]) [4, 0, 13, 0]
  exact ⟨hexit.mpr (by decide), hbuffer.mpr (by decide)⟩

/-- A `PKUserCountReq` is rejected by its own class, and a `PKUserCount` accepted by both. -/
theorem classes_confused :
    ¬ ((∀ (c : PacketClass) (p : c.Object), c.Built p → c.Recognises p) ∧
      ∀ buffer, PacketClass.Unmistakable buffer) ∧
    ¬ PacketClass.Recognises .userCountReq PKUserCountReq.new ∧
    ¬ PacketClass.Unmistakable [4, 0, 3, 0] := by
  have hreq : ¬ PacketClass.Recognises .userCountReq PKUserCountReq.new :=
    fun h => absurd h.1 (by decide)
  have hcount : ¬ PacketClass.Unmistakable [4, 0, 3, 0] := by
    intro h
    have hsame := (h .userCount (by decide)).2 .userCountReq (by decide)
    exact absurd hsame (by decide)
  exact ⟨fun h => hcount (h.2 _), hreq, hcount⟩

end IocpChat
