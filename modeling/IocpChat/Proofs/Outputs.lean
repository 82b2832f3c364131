import IocpChat.Proofs.Classes

/-! Where `Serialize` writes. It copies a header and a body into a vector that, in the classes
with a body, is as long as the header says; and the header is the one a constructor was given,
until a buffer is accepted. -/

namespace IocpChat

/-- A header and a body are copied, so there must be room for both. -/
theorem Packet.writes_inside {β : Type} {fmt : Packed β} {p : Packet β} {n : ℕ} :
    (∀ w ∈ Packet.writes fmt p, w.Inside n) ↔ kHeaderSize + fmt.size ≤ n := by
  unfold Packet.writes Write.Inside
  simp only [List.forall_mem_cons, List.not_mem_nil, false_implies, implies_true, and_true,
    PacketHeader.length_toBytes, fmt.length_toBytes]
  omega

theorem HeaderPacket.writes_inside {p : HeaderPacket} {n : ℕ} :
    (∀ w ∈ p.writes, w.Inside n) ↔ kHeaderSize ≤ n := by
  unfold HeaderPacket.writes Write.Inside
  simp only [List.forall_mem_cons, List.not_mem_nil, false_implies, implies_true, and_true,
    PacketHeader.length_toBytes, Nat.zero_add]

theorem PKChatMessage.writes_inside {p : PKChatMessage} {n : ℕ} :
    (∀ w ∈ p.writes, w.Inside n) ↔ ChatMessagePacket.size ≤ n := by
  unfold PKChatMessage.writes Write.Inside
  simp only [List.forall_mem_cons, List.not_mem_nil, false_implies, implies_true, and_true,
    ChatMessagePacket.length_toBytes, Nat.zero_add]

theorem Packet.size_deserialize {β : Type} {t : PacketType} {fmt : Packed β} (p : Packet β)
    (buffer : List UInt8) : (Packet.deserialize t fmt p buffer).header.size.toNat =
      if Packet.isValid t fmt buffer then kHeaderSize + fmt.size else p.header.size.toNat := by
  unfold Packet.deserialize
  split_ifs with h
  · exact (Packet.isValid_iff.mp h).2.2
  · rfl

namespace PacketClass

variable {c : PacketClass}

theorem writesInside_iff {p : c.Object} : c.WritesInside p ↔ c.length ≤ c.allocated p := by
  unfold WritesInside
  cases c with
  | chatMessage => exact PKChatMessage.writes_inside
  | chatBroadcast => exact Packet.writes_inside
  | loginReq => exact Packet.writes_inside
  | loginAck => exact Packet.writes_inside
  | exit => exact Packet.writes_inside
  | userCount => exact HeaderPacket.writes_inside
  | userCountReq => exact HeaderPacket.writes_inside
  | userCountAck => exact Packet.writes_inside

/-! ### What `Deserialize` makes of the vector -/

/-- Behind a buffer that is accepted the vector has the size of the class. -/
theorem allocated_deserialize (p : c.Object) (buffer : List UInt8) :
    c.allocated (c.deserialize p buffer) =
      if c.isValid buffer then c.length else c.allocated p := by
  cases c with
  | chatMessage => exact (ite_self _).symm
  | chatBroadcast => exact Packet.size_deserialize p buffer
  | loginReq => exact Packet.size_deserialize p buffer
  | loginAck => exact Packet.size_deserialize p buffer
  | exit => exact Packet.size_deserialize p buffer
  | userCount => exact (ite_self _).symm
  | userCountReq => exact (ite_self _).symm
  | userCountAck => exact Packet.size_deserialize p buffer

theorem fits_deserializeAll (p : c.Object) (buffers : List (List UInt8)) :
    c.length ≤ c.allocated (c.deserializeAll p buffers) ↔
      c.length ≤ c.allocated p ∨ ∃ buffer ∈ buffers, c.isValid buffer = true := by
  unfold deserializeAll
  induction buffers generalizing p with
  | nil => simp
  | cons buffer buffers ih =>
    rw [List.foldl_cons, ih, allocated_deserialize]
    by_cases hvalid : c.isValid buffer = true
    · rw [if_pos hvalid]
      exact iff_of_true (.inl le_rfl) (.inr ⟨buffer, List.mem_cons_self .., hvalid⟩)
    · rw [if_neg hvalid]
      simp only [List.mem_cons, exists_eq_or_imp, hvalid, Bool.false_eq_true, false_or]

/-! ### What the constructors make of it -/

theorem Built.allocated {p : c.Object} (h : c.Built p) : c.allocated p = c.length := by
  cases h <;> rfl

theorem allocated_ofHeader {h : PacketHeader} {p : c.Object} (hp : c.ofHeader h = some p) :
    c.allocated p = if c.sizedByHeader then h.size.toNat else c.length := by
  cases c with
  | chatMessage => cases hp
  | chatBroadcast => cases hp
  | loginReq => cases hp; rfl
  | loginAck => cases hp; rfl
  | exit => cases hp; rfl
  | userCount => cases hp; rfl
  | userCountReq => cases hp; rfl
  | userCountAck => cases hp; rfl

theorem fits_construction (k : c.Construction) : c.length ≤ c.allocated k.object ↔
    ∀ h, k.given = some h → c.sizedByHeader = true → c.length ≤ h.size.toNat := by
  cases k with
  | own p built => exact iff_of_true built.allocated.ge nofun
  | header h p built =>
    change c.length ≤ c.allocated p ↔ ∀ h', some h = some h' → _
    rw [allocated_ofHeader built]
    split_ifs with hsized
    · simp [hsized]
    · exact iff_of_true le_rfl fun _ _ hs => absurd hs hsized

/-- `Serialize` stays inside its vector, unless a constructor was given a header that announces
less than the class copies and no buffer was accepted since. -/
theorem serialize_inside_iff (c : PacketClass) (k : c.Construction) (buffers : List (List UInt8)) :
    c.WritesInside (c.deserializeAll k.object buffers) ↔
      (∀ h, k.given = some h → c.sizedByHeader = true → c.length ≤ h.size.toNat) ∨
        ∃ buffer ∈ buffers, c.isValid buffer = true := by
  rw [writesInside_iff, fits_deserializeAll, fits_construction]

/-- `PKExit(PacketHeader())` copies 36 bytes into an empty vector. -/
theorem serialize_past_empty :
    ¬ (∀ (c : PacketClass) (k : c.Construction) (buffers : List (List UInt8)),
      c.WritesInside (c.deserializeAll k.object buffers)) ∧
    exit.allocated (PKExit.ofHeader ⟨0, 0⟩) = 0 ∧
    exit.writes (PKExit.ofHeader ⟨0, 0⟩) = [⟨0, 4⟩, ⟨4, 32⟩] := by
  refine ⟨?_, rfl, rfl⟩
  intro hall
  have hinside := hall exit (.header ⟨0, 0⟩ (PKExit.ofHeader ⟨0, 0⟩) rfl) []
  exact absurd (hinside ⟨0, 4⟩ (List.mem_cons_self ..)) (by decide)

end PacketClass

end IocpChat
