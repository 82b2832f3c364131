import IocpChat.Proofs.Announce
import IocpChat.Proofs.Classes
import IocpChat.Proofs.Client
import IocpChat.Spec.Typed

/-! The texts in packets: whether what was received ends inside its array, and what is left
of a chat message on its way through the server to the other clients. -/

namespace IocpChat

/-! ### Where a received text ends -/

theorem Packed.toList_array {n : ℕ} {bs : List UInt8} (h : n ≤ bs.length) :
    ((Packed.array n).ofBytes bs).toList = bs.take n :=
  (Packed.array n).toBytes_ofBytes bs h

theorem uint8_ofBytes {bs : List UInt8} {k : ℕ} (h : k < bs.length) :
    uint8Layout.ofBytes (bs.drop k) = bs.getD k 0 := by
  rw [List.drop_eq_getElem_cons h, List.getD_eq_getElem?_getD, List.getElem?_eq_getElem h,
    Option.getD_some]
  change UInt8.ofNat (bs[k].toNat + 256 * 0) = bs[k]
  rw [Nat.mul_zero, Nat.add_zero, UInt8.ofNat_toNat]

theorem Packet.body_deserialize {β : Type} {t : PacketType} {fmt : Packed β} {buffer : List UInt8}
    (h : Packet.isValid t fmt buffer = true) (q : Packet β) :
    (Packet.deserialize t fmt q buffer).body = fmt.ofBytes (buffer.drop kHeaderSize) := by
  rw [Packet.deserialize, if_pos h]

theorem PKLoginReq.nickname_deserialize {buffer : List UInt8} (h : isValid buffer = true)
    (q : PKLoginReq) : (deserialize q buffer).body.nickname.toList = (buffer.drop 4).take 32 := by
  have hlen : 4 + 32 ≤ buffer.length := (Packet.isValid_iff.mp h).1
  have hbody : (deserialize q buffer).body = PKLoginReqBody.layout.ofBytes (buffer.drop 4) :=
    Packet.body_deserialize h q
  rw [hbody]
  exact Packed.toList_array (by rw [List.length_drop]; omega)

theorem zero_mem_terminate {n : ℕ} (hn : 0 < n) (v : Chars n) : 0 ∈ (terminate v).toList :=
  List.mem_set (by rw [v.toList_length]; omega) 0

namespace PacketClass

variable {buffer : List UInt8}

theorem readsInside_chatMessage (h : PKChatMessage.isValid buffer = true) (q : PKChatMessage) :
    chatMessage.ReadsInside (PKChatMessage.deserialize q buffer) := by
  intro text htext
  rw [PKChatMessage.deserialize, if_pos h] at htext
  simp only [unbounded, List.mem_cons, List.not_mem_nil, or_false] at htext
  rcases htext with rfl | rfl
  · exact zero_mem_terminate (by decide) _
  · exact zero_mem_terminate (by decide) _

theorem readsInside_chatBroadcast (h : PKChatBroadcast.isValid buffer = true) (q : PKChatBroadcast) :
    chatBroadcast.ReadsInside (PKChatBroadcast.deserialize q buffer) ↔
      chatBroadcast.Terminated buffer := by
  have hlen : 4 + 296 ≤ buffer.length := (Packet.isValid_iff.mp h).1
  have hbody : (PKChatBroadcast.deserialize q buffer).body =
      PKChatBroadcastBody.layout.ofBytes (buffer.drop 4) := Packet.body_deserialize h q
  have hsender : (PKChatBroadcast.deserialize q buffer).body.sender.toList =
      (buffer.drop 4).take 32 := by
    rw [hbody]
    exact Packed.toList_array (by rw [List.length_drop]; omega)
  have hmessage : (PKChatBroadcast.deserialize q buffer).body.message.toList =
      (buffer.drop 36).take 256 := by
    rw [hbody, ← Packed.toList_array (n := 256) (by rw [List.length_drop]; omega),
      ← List.drop_drop (i := 32) (j := 4)]
    rfl
  simp only [ReadsInside, unbounded, Terminated, hsender, hmessage, List.forall_mem_cons,
    List.not_mem_nil, false_implies, implies_true, and_true]

theorem readsInside_loginReq (h : PKLoginReq.isValid buffer = true) (q : PKLoginReq) :
    loginReq.ReadsInside (PKLoginReq.deserialize q buffer) ↔ loginReq.Terminated buffer := by
  simp only [ReadsInside, unbounded, Terminated, PKLoginReq.nickname_deserialize h q,
    List.forall_mem_cons, List.not_mem_nil, false_implies, implies_true, and_true]

theorem readsInside_loginAck (h : PKLoginAck.isValid buffer = true) (q : PKLoginAck) :
    loginAck.ReadsInside (PKLoginAck.deserialize q buffer) ↔ loginAck.Terminated buffer := by
  have hlen : 4 + 77 ≤ buffer.length := (Packet.isValid_iff.mp h).1
  have hbody : (PKLoginAck.deserialize q buffer).body =
      PKLoginAckBody.layout.ofBytes (buffer.drop 4) := Packet.body_deserialize h q
  have haccepted : (PKLoginAck.deserialize q buffer).body.accepted = buffer.getD 12 0 := by
    rw [hbody, ← uint8_ofBytes (by omega), ← List.drop_drop (i := 8) (j := 4)]
    rfl
  have hreason : (PKLoginAck.deserialize q buffer).body.reason.toList =
      (buffer.drop 13).take 64 := by
    rw [hbody, ← Packed.toList_array (n := 64) (by rw [List.length_drop]; omega),
      ← List.drop_drop (i := 9) (j := 4), ← List.drop_drop (i := 1) (j := 8)]
    rfl
  simp only [ReadsInside, unbounded, Terminated, haccepted, hreason]
  by_cases hzero : buffer.getD 12 0 = 0
  · rw [if_neg (not_not.mpr hzero)]
    simp only [List.forall_mem_cons, List.not_mem_nil, false_implies, implies_true, and_true, hzero,
      true_implies]
  · rw [if_pos hzero]
    simp only [List.not_mem_nil, false_implies, implies_true, hzero]

/-- The texts that are read end inside their arrays exactly when the packet came with a
terminator in each; only a chat message is terminated by the class itself. -/
theorem readsInside_iff (c : PacketClass) (h : c.isValid buffer = true) (q : c.Object) :
    c.ReadsInside (c.deserialize q buffer) ↔ c.Terminated buffer := by
  cases c with
  | chatMessage => exact iff_of_true (readsInside_chatMessage h q) trivial
  | chatBroadcast => exact readsInside_chatBroadcast h q
  | loginReq => exact readsInside_loginReq h q
  | loginAck => exact readsInside_loginAck h q
  | exit => exact iff_of_true (fun _ h => absurd h List.not_mem_nil) trivial
  | userCount => exact iff_of_true (fun _ h => absurd h List.not_mem_nil) trivial
  | userCountReq => exact iff_of_true (fun _ h => absurd h List.not_mem_nil) trivial
  | userCountAck => exact iff_of_true (fun _ h => absurd h List.not_mem_nil) trivial

end PacketClass

/-- A nickname of 32 letters: `HandleLogin` reads past the end of the array. -/
theorem loginReq_reads_past :
    ∃ buffer, PacketClass.loginReq.isValid buffer = true ∧
      ¬ PacketClass.loginReq.ReadsInside (PKLoginReq.deserialize .new buffer) :=
  ⟨[36, 0, 11, 0] ++ List.replicate 32 65, by decide +kernel, fun h => by
    exact absurd (h _ (List.mem_singleton_self _)) (by decide +kernel)⟩

theorem readsInside_nickname :
    PacketClass.loginReq.ReadsInside
      (PKLoginReq.deserialize .new ([36, 0, 11, 0, 65] ++ List.replicate 31 0)) :=
  (PacketClass.readsInside_iff .loginReq (by decide +kernel) PKLoginReq.new).mpr
    (by change 0 ∈ _; decide +kernel)

/-! ### The way of a chat message -/

/-- A terminated copy of a text that fits is that text, padded. -/
theorem toList_terminate_strncpy {n : ℕ} (hn : 0 < n) {src : List UInt8} {text : List UInt8}
    (hsrc : cstr src = text) (hlen : text.length ≤ n - 1) (dst : Chars n) :
    (terminate (strncpy dst src (n - 1))).toList = padded n text := by
  have hpadded : padded n text = (text ++ List.replicate (n - 1 - text.length) 0) ++ [0] := by
    rw [padded, List.append_assoc, ← List.replicate_succ']
    congr 2
    omega
  rw [toList_terminate hn, hpadded, take_strncpy le_rfl, hsrc, List.take_append,
    List.take_of_length_le hlen, List.take_replicate, min_eq_left (Nat.sub_le _ _)]

/-! ### Relaying -/

theorem ChatMessagePacket.cstr_sender (pkt : ChatMessagePacket) :
    cstr (pkt.safe.toBytes.drop 4) = (cstr pkt.sender.toList).take 31 := by
  rw [drop_toBytes]
  exact cstr_terminate (by decide) pkt.sender _

theorem ChatMessagePacket.cstr_message (pkt : ChatMessagePacket) :
    cstr (pkt.safe.toBytes.drop 36) = (cstr pkt.message.toList).take 255 := by
  rw [drop_toBytes_message]
  exact cstr_terminate (by decide) pkt.message _

theorem relayed_chatRelay (pkt : ChatMessagePacket) : Relayed pkt (chatRelay pkt.safe) := by
  have hown := PKChatBroadcast.ownHeader_ofFields (pkt.safe.toBytes.drop 4) (pkt.safe.toBytes.drop 36) 0
  obtain ⟨-, -, -, hback⟩ := Packet.announced_serialize hown
  refine ⟨Packet.isValid_serialize hown, ?_⟩
  intro q
  rw [chatRelay, PKChatBroadcast.deserialize, PKChatBroadcast.serialize, hback]
  constructor
  · exact toList_terminate_strncpy (by decide) pkt.cstr_sender (List.length_take_le _ _) (.zero 32)
  · exact toList_terminate_strncpy (by decide) pkt.cstr_message (List.length_take_le _ _) (.zero 256)

theorem onReceived_chatRelay (crt : StrncpyS) (data : ChatMessageData) (nickname : List UInt8) :
    onReceived nickname
        (chatRelay (ChatMessagePacket.ofBytes (PKChatMessage.ofData crt data).serialize).safe) =
      .chat ((cstr data.sender).take 31) ((cstr data.message).take 255) := by
  set pkt := ChatMessagePacket.ofBytes (PKChatMessage.ofData crt data).serialize with hpkt
  have hsent : pkt = (PKChatMessage.ofData crt data).pkt := PKChatMessage.ofBytes_serialize _
  have hsender : cstr pkt.sender.toList = (cstr data.sender).take 31 := by
    rw [hsent]
    exact cstr_copy crt (.zero 32) data.sender (by decide)
  have hmessage : cstr pkt.message.toList = (cstr data.message).take 255 := by
    rw [hsent]
    exact cstr_copy crt (.zero 256) data.message (by decide)
  have hshown := onReceived_serialize nickname
    (.chatBroadcast (pkt.safe.toBytes.drop 4) (pkt.safe.toBytes.drop 36) 0)
  refine hshown.trans ?_
  rw [ServerMessage.display, pkt.cstr_sender, pkt.cstr_message, hsender, hmessage]
  simp only [List.take_take, min_self]

/-- A chat message is relayed with its texts, and a client that receives the relay shows
what the sending client was given, up to the length of the fields. -/
theorem chat_preserved :
    (∀ env s pkt σ, ∃ text bytes, Relayed pkt bytes ∧ handleChatMessage env s pkt σ =
      broadcast env bytes (some s) (σ.announcing s text (some bytes))) ∧
    ∀ crt data nickname, onReceived nickname
        (chatRelay (ChatMessagePacket.ofBytes (PKChatMessage.ofData crt data).serialize).safe) =
      .chat ((cstr data.sender).take 31) ((cstr data.message).take 255) :=
  ⟨fun _ _ pkt _ => ⟨_, chatRelay pkt.safe, relayed_chatRelay pkt, rfl⟩, onReceived_chatRelay⟩

end IocpChat
