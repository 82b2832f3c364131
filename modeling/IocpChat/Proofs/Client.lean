import IocpChat.Proofs.Packets
import IocpChat.Spec.Client

/-! The client shows the messages of the server exactly when every `recv`
happens to return one whole message: a result that is shown as a message is at
least as long as that message, and the lengths add up. -/

namespace IocpChat

/-- Pieces that are each at least as long as their counterpart, with the same
concatenation, are the counterparts. -/
theorem eq_of_flatten_eq {α : Type*} {cuts msgs : List (List α)}
    (hlen : List.Forall₂ (fun c m => m.length ≤ c.length) cuts msgs)
    (hflat : cuts.flatten = msgs.flatten) : cuts = msgs := by
  induction hlen with
  | nil => rfl
  | @cons c m cs ms hle htail ih =>
    have hrest : ms.flatten.length ≤ cs.flatten.length := by
      clear ih hflat
      induction htail with
      | nil => exact le_rfl
      | cons h _ ih => simp only [List.flatten_cons, List.length_append]; omega
    simp only [List.flatten_cons] at hflat
    have htotal := congrArg List.length hflat
    simp only [List.length_append] at htotal
    obtain ⟨hhead, htails⟩ := List.append_inj hflat (by omega)
    rw [hhead, ih htails]

/-- The announced size of a message's packet. -/
def ServerMessage.size : ServerMessage → ℕ
  | .loginAck .. => kHeaderSize + PKLoginAckBody.layout.size
  | .chatBroadcast .. => kHeaderSize + PKChatBroadcastBody.layout.size
  | .userCountAck .. => kHeaderSize + PKUserCountAckBody.layout.size

theorem ServerMessage.length_serialize (m : ServerMessage) : m.serialize.length = m.size := by
  cases m with
  | loginAck sid ok why curUsers =>
    exact Packet.length_serialize (PKLoginAck.ownHeader_ofFields sid ok why curUsers)
  | chatBroadcast nick msg ts =>
    exact Packet.length_serialize (PKChatBroadcast.ownHeader_ofFields nick msg ts)
  | userCountAck count => exact Packet.length_serialize (PKUserCountAck.ownHeader_ofCount count)

/-- What is shown for a receive has at least the bytes of the shown message. -/
theorem length_le_of_display {nickname rxBuf : List UInt8} {m : ServerMessage}
    (h : onReceived nickname rxBuf = m.display nickname) :
    m.serialize.length ≤ rxBuf.length := by
  rw [m.length_serialize]
  simp only [onReceived] at h
  cases m with
  | loginAck sid ok why curUsers =>
    simp only [ServerMessage.display, ServerMessage.size] at h ⊢
    cases ok <;> split_ifs at h with h1 h2 h3 <;> simp_all <;> omega
  | chatBroadcast nick msg ts =>
    simp only [ServerMessage.display, ServerMessage.size] at h ⊢
    split_ifs at h with h1 h2 h3
    simp_all
    omega
  | userCountAck count =>
    simp only [ServerMessage.display, ServerMessage.size] at h ⊢
    split_ifs at h with h1 h2 h3
    simp_all
    omega

theorem Packet.announced_serialize {β : Type} {t : PacketType} {fmt : Packed β} {p : Packet β}
    (hp : p.OwnHeader t fmt) :
    (PacketHeader.ofBytes (Packet.serialize fmt p)).id = t.toId ∧
      (PacketHeader.ofBytes (Packet.serialize fmt p)).size.toNat = kHeaderSize + fmt.size ∧
      (Packet.serialize fmt p).length = kHeaderSize + fmt.size ∧
      ∀ q, Packet.deserialize t fmt q (Packet.serialize fmt p) = p := by
  rw [Packet.header_serialize hp]
  exact ⟨hp.1, hp.2, Packet.length_serialize hp, Packet.deserialize_serialize hp⟩

/-- A receive of exactly one message shows that message. -/
theorem onReceived_serialize (nickname : List UInt8) (m : ServerMessage) :
    onReceived nickname m.serialize = m.display nickname := by
  cases m with
  | loginAck sid ok why curUsers =>
    obtain ⟨hid, hsize, hlen, hback⟩ :=
      Packet.announced_serialize (PKLoginAck.ownHeader_ofFields sid ok why curUsers)
    -- the reason lies behind the session id and the flag
    have hfront : (uint64Layout.toBytes sid ++
        uint8Layout.toBytes (if ok then 1 else 0)).length = 9 := by
      rw [List.length_append, uint64Layout.length_toBytes, uint8Layout.length_toBytes]
      rfl
    have hreason : cstr ((PKLoginAckBody.layout.toBytes
        (PKLoginAck.ofFields sid ok why curUsers).body).drop 9) = (cstr why).take 63 := by
      change cstr (List.drop 9 (uint64Layout.toBytes sid ++ (uint8Layout.toBytes
        (if ok then 1 else 0) ++ ((terminate (strncpy (Chars.zero 64) why 64)).toList ++
          int32Layout.toBytes curUsers)))) = _
      rw [← List.append_assoc, List.drop_left' hfront,
        cstr_terminate_strncpy _ _ _ (by decide) (by decide)]
    simp only [onReceived, ServerMessage.serialize, PKLoginAck.serialize, hid, hsize, hlen,
      PKLoginAck.deserialize, hback, hreason, ServerMessage.display]
    cases ok <;> rfl
  | chatBroadcast nick msg ts =>
    obtain ⟨hid, hsize, hlen, hback⟩ :=
      Packet.announced_serialize (PKChatBroadcast.ownHeader_ofFields nick msg ts)
    have hbytes : PKChatBroadcastBody.layout.toBytes (PKChatBroadcast.ofFields nick msg ts).body =
        (terminate (strncpy (Chars.zero 32) nick 31)).toList ++
          ((terminate (strncpy (Chars.zero 256) msg 255)).toList ++ uint64Layout.toBytes ts) := rfl
    have hsender : cstr (PKChatBroadcastBody.layout.toBytes
        (PKChatBroadcast.ofFields nick msg ts).body) = (cstr nick).take 31 := by
      rw [hbytes, cstr_terminate_strncpy _ _ _ (by decide) (by decide)]
    have hmessage : cstr ((PKChatBroadcastBody.layout.toBytes
        (PKChatBroadcast.ofFields nick msg ts).body).drop 32) = (cstr msg).take 255 := by
      rw [hbytes, List.drop_left' (List.Vector.toList_length _),
        cstr_terminate_strncpy _ _ _ (by decide) (by decide)]
    simp only [onReceived, ServerMessage.serialize, PKChatBroadcast.serialize, hid, hsize, hlen,
      PKChatBroadcast.deserialize, hback, hsender, hmessage, ServerMessage.display]
    rfl
  | userCountAck count =>
    obtain ⟨hid, hsize, hlen, hback⟩ :=
      Packet.announced_serialize (PKUserCountAck.ownHeader_ofCount count)
    simp only [onReceived, ServerMessage.serialize, PKUserCountAck.serialize, hid, hsize, hlen,
      PKUserCountAck.deserialize, hback, ServerMessage.display]
    rfl

theorem receiveLoop_eq_map (nickname : List UInt8) {cuts : List (List UInt8)}
    (hcuts : ∀ c ∈ cuts, 1 ≤ c.length) :
    receiveLoop nickname cuts = cuts.map (onReceived nickname) := by
  induction cuts with
  | nil => rfl
  | cons c cs ih =>
    have hc : c.length ≠ 0 := by have := hcuts c (by simp); omega
    rw [receiveLoop, if_neg hc, ih fun d hd => hcuts d (by simp [hd]), List.map_cons]

/-- The client displays exactly the messages of the stream, each once and in
order, if and only if every `recv` returned exactly one message. -/
theorem receiveLoop_displays_iff (nickname : List UInt8) (msgs : List ServerMessage)
    (cuts : List (List UInt8)) (hcuts : ∀ c ∈ cuts, 1 ≤ c.length ∧ c.length ≤ recvLimit)
    (hstream : cuts.flatten = (msgs.map ServerMessage.serialize).flatten) :
    receiveLoop nickname cuts = msgs.map (ServerMessage.display nickname) ↔
      cuts = msgs.map ServerMessage.serialize := by
  rw [receiveLoop_eq_map nickname fun c hc => (hcuts c hc).1]
  constructor
  · intro h
    have hshown : List.Forall₂ (fun c m => onReceived nickname c = m.display nickname) cuts msgs := by
      rw [← List.forall₂_eq_eq_eq, List.forall₂_map_left_iff, List.forall₂_map_right_iff] at h
      exact h
    apply eq_of_flatten_eq _ hstream
    rw [List.forall₂_map_right_iff]
    exact hshown.imp fun c m hcm => length_le_of_display hcm
  · rintro rfl
    rw [List.map_map]
    exact List.map_congr_left fun m _ => onReceived_serialize nickname m

/-- Two counts in one `recv`: only the first is shown. -/
theorem receiveLoop_loses_coalesced :
    ∃ (nickname : List UInt8) (msgs : List ServerMessage) (cuts : List (List UInt8)),
      (∀ c ∈ cuts, 1 ≤ c.length ∧ c.length ≤ recvLimit) ∧
      cuts.flatten = (msgs.map ServerMessage.serialize).flatten ∧
      receiveLoop nickname cuts ≠ msgs.map (ServerMessage.display nickname) :=
  ⟨[], [.userCountAck 1, .userCountAck 2], [[8, 0, 14, 0, 1, 0, 0, 0, 8, 0, 14, 0, 2, 0, 0, 0]],
    by decide, by decide, by decide⟩

theorem receiveLoop_displays_one_per_recv :
    receiveLoop [] [[8, 0, 14, 0, 1, 0, 0, 0], [8, 0, 14, 0, 2, 0, 0, 0]] =
      [.userCount 1, .userCount 2] :=
  (receiveLoop_displays_iff [] [.userCountAck 1, .userCountAck 2]
    [[8, 0, 14, 0, 1, 0, 0, 0], [8, 0, 14, 0, 2, 0, 0, 0]] (by decide) (by decide)).mpr (by decide)

end IocpChat
