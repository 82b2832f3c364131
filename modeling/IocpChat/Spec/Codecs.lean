import IocpChat.Spec.Requests

/-! What the packet classes are for: an object is written to bytes and read back from them. -/

namespace IocpChat

/-- A packet class, by the functions of `IPacket` and the header its objects carry. The
objects that are `built` come back from their bytes, whatever follows these, up to what
`back` changes in them; a buffer that is accepted comes back too, up to what `keep` changes
in it; one that is rejected changes no object. -/
structure Codec {α : Type} (header : α → PacketHeader) (serialize : α → List UInt8)
    (isValid : List UInt8 → Bool) (deserialize : α → List UInt8 → α) (built : α → Prop)
    (back : α → α) (keep : List UInt8 → List UInt8) : Prop where
  length : ∀ p, built p → (serialize p).length = (header p).size.toNat
  accepts : ∀ p, built p → ∀ rest, isValid (serialize p ++ rest) = true
  decodes : ∀ p, built p → ∀ q rest, deserialize q (serialize p ++ rest) = back p
  encodes : ∀ buffer, isValid buffer = true → ∀ q,
    serialize (deserialize q buffer) = keep (buffer.take (PacketHeader.ofBytes buffer).size.toNat)
  rejects : ∀ buffer, isValid buffer = false → ∀ q, deserialize q buffer = q

/-- The last cells of the texts are 0, everything else is as it was. -/
def PKChatMessage.terminated (p : PKChatMessage) : PKChatMessage where
  pkt :=
    { p.pkt with
      sender := terminate p.pkt.sender
      message := terminate p.pkt.message }

end IocpChat
