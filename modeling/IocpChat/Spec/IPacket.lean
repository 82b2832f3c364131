import IocpChat.Spec.Requests

/-! The classes behind the interface `IPacket`. -/

namespace IocpChat

inductive PacketClass
  | chatMessage
  | chatBroadcast
  | loginReq
  | loginAck
  | exit
  | userCount
  | userCountReq
  | userCountAck
  deriving DecidableEq

namespace PacketClass

abbrev Object : PacketClass → Type
  | chatMessage => PKChatMessage
  | chatBroadcast => PKChatBroadcast
  | loginReq => PKLoginReq
  | loginAck => PKLoginAck
  | exit => PKExit
  | userCount => PKUserCount
  | userCountReq => PKUserCountReq
  | userCountAck => PKUserCountAck

/-- The `PacketType` a class is named after; its constructors write it to the header. -/
def type : PacketClass → PacketType
  | chatMessage => .chatMessage
  | chatBroadcast => .chatBroadcast
  | loginReq => .loginReq
  | loginAck => .loginAck
  | exit => .exit
  | userCount => .userCount
  | userCountReq => .userCountReq
  | userCountAck => .userCountAck

def serialize : (c : PacketClass) → c.Object → List UInt8
  | chatMessage => PKChatMessage.serialize
  | chatBroadcast => PKChatBroadcast.serialize
  | loginReq => PKLoginReq.serialize
  | loginAck => PKLoginAck.serialize
  | exit => PKExit.serialize
  | userCount => PKUserCount.serialize
  | userCountReq => PKUserCountReq.serialize
  | userCountAck => PKUserCountAck.serialize

def isValid : PacketClass → List UInt8 → Bool
  | chatMessage => PKChatMessage.isValid
  | chatBroadcast => PKChatBroadcast.isValid
  | loginReq => PKLoginReq.isValid
  | loginAck => PKLoginAck.isValid
  | exit => PKExit.isValid
  | userCount => PKUserCount.isValid
  | userCountReq => PKUserCountReq.isValid
  | userCountAck => PKUserCountAck.isValid

def deserialize : (c : PacketClass) → c.Object → List UInt8 → c.Object
  | chatMessage => PKChatMessage.deserialize
  | chatBroadcast => PKChatBroadcast.deserialize
  | loginReq => PKLoginReq.deserialize
  | loginAck => PKLoginAck.deserialize
  | exit => PKExit.deserialize
  | userCount => PKUserCount.deserialize
  | userCountReq => PKUserCountReq.deserialize
  | userCountAck => PKUserCountAck.deserialize

/-- What the default constructor of a class builds, and its constructor from fields. -/
inductive Built : (c : PacketClass) → c.Object → Prop
  | newChatMessage (memory : ChatMessagePacket) : Built chatMessage (PKChatMessage.new memory)
  | ofData (crt : StrncpyS) (data : ChatMessageData) :
      Built chatMessage (PKChatMessage.ofData crt data)
  | newChatBroadcast : Built chatBroadcast PKChatBroadcast.new
  | chatBroadcastOfFields (nick msg : List UInt8) (ts : UInt64) :
      Built chatBroadcast (PKChatBroadcast.ofFields nick msg ts)
  | newLoginReq : Built loginReq PKLoginReq.new
  | ofName (name : List UInt8) : Built loginReq (PKLoginReq.ofName name)
  | newLoginAck : Built loginAck PKLoginAck.new
  | loginAckOfFields (sid : UInt64) (ok : Bool) (why : List UInt8) (curUsers : Int32) :
      Built loginAck (PKLoginAck.ofFields sid ok why curUsers)
  | newExit : Built exit PKExit.new
  | ofNick (nick : List UInt8) : Built exit (PKExit.ofNick nick)
  | newUserCount : Built userCount PKUserCount.new
  | newUserCountReq : Built userCountReq PKUserCountReq.new
  | newUserCountAck : Built userCountAck PKUserCountAck.new
  | ofCount (c : Int32) : Built userCountAck (PKUserCountAck.ofCount c)

/-- The constructor that takes a header, in the classes that have one. -/
def ofHeader : (c : PacketClass) → PacketHeader → Option c.Object
  | chatMessage => fun _ => none
  | chatBroadcast => fun _ => none
  | loginReq => fun h => some (PKLoginReq.ofHeader h)
  | loginAck => fun h => some (PKLoginAck.ofHeader h)
  | exit => fun h => some (PKExit.ofHeader h)
  | userCount => fun h => some (PKUserCount.ofHeader h)
  | userCountReq => fun h => some (PKUserCountReq.ofHeader h)
  | userCountAck => fun h => some (PKUserCountAck.ofHeader h)

/-- A call of a public constructor. -/
inductive Construction (c : PacketClass) : Type
  | own (p : c.Object) (built : c.Built p)
  | header (h : PacketHeader) (p : c.Object) (built : c.ofHeader h = some p)

namespace Construction

def object {c : PacketClass} : Construction c → c.Object
  | own p _ => p
  | header _ p _ => p

/-- The header that the constructor is given. -/
def given {c : PacketClass} : Construction c → Option PacketHeader
  | own _ _ => none
  | header h _ _ => some h

end Construction

/-- The bytes of the vector that `Serialize` allocates. -/
def allocated : (c : PacketClass) → c.Object → ℕ
  | chatMessage => fun _ => ChatMessagePacket.size
  | chatBroadcast => fun p => p.header.size.toNat
  | loginReq => fun p => p.header.size.toNat
  | loginAck => fun p => p.header.size.toNat
  | exit => fun p => p.header.size.toNat
  | userCount => fun _ => kHeaderSize
  | userCountReq => fun _ => kHeaderSize
  | userCountAck => fun p => p.header.size.toNat

/-- What `Serialize` writes to it. -/
def writes : (c : PacketClass) → c.Object → List Write
  | chatMessage => PKChatMessage.writes
  | chatBroadcast => Packet.writes PKChatBroadcastBody.layout
  | loginReq => Packet.writes PKLoginReqBody.layout
  | loginAck => Packet.writes PKLoginAckBody.layout
  | exit => Packet.writes PKExitBody.layout
  | userCount => HeaderPacket.writes
  | userCountReq => HeaderPacket.writes
  | userCountAck => Packet.writes PKUserCountAckBody.layout

/-- The bytes of a packet of the class. -/
def length : PacketClass → ℕ
  | chatMessage => ChatMessagePacket.size
  | chatBroadcast => kHeaderSize + PKChatBroadcastBody.layout.size
  | loginReq => kHeaderSize + PKLoginReqBody.layout.size
  | loginAck => kHeaderSize + PKLoginAckBody.layout.size
  | exit => kHeaderSize + PKExitBody.layout.size
  | userCount => kHeaderSize
  | userCountReq => kHeaderSize
  | userCountAck => kHeaderSize + PKUserCountAckBody.layout.size

/-- What reading a packet back makes of the object: a chat message is terminated. -/
def settled : (c : PacketClass) → c.Object → c.Object
  | chatMessage => fun p =>
    ⟨{ p.pkt with sender := terminate p.pkt.sender, message := terminate p.pkt.message }⟩
  | chatBroadcast => id
  | loginReq => id
  | loginAck => id
  | exit => id
  | userCount => id
  | userCountReq => id
  | userCountAck => id

/-- The class accepts the bytes of its object and reads it back from them. -/
def Recognises (c : PacketClass) (p : c.Object) : Prop :=
  c.isValid (c.serialize p) = true ∧ ∀ q, c.deserialize q (c.serialize p) = c.settled p

/-- A class that accepts the buffer is the only one, and the one the header names. -/
def Unmistakable (buffer : List UInt8) : Prop :=
  ∀ c : PacketClass, c.isValid buffer = true →
    c.type.toId = (PacketHeader.ofBytes buffer).id ∧ ∀ d : PacketClass, d.isValid buffer = true → d = c

/-- `Serialize` writes only inside the vector it allocates. -/
def WritesInside (c : PacketClass) (p : c.Object) : Prop :=
  ∀ w ∈ c.writes p, w.Inside (c.allocated p)

/-- The object after calls of `Deserialize`. -/
def deserializeAll (c : PacketClass) (p : c.Object) (buffers : List (List UInt8)) : c.Object :=
  buffers.foldl c.deserialize p

/-- A class whose vector is as long as the header says. -/
def sizedByHeader : PacketClass → Bool
  | chatMessage | userCount | userCountReq => false
  | chatBroadcast | loginReq | loginAck | exit | userCountAck => true

/-- The arrays of an object that are read as C strings without a bound: by `ToData`, by
`receiveLoop` (the reason only of a refusal) and by `HandleLogin`. `HandleExit` copies at
most 31 characters. -/
def unbounded : (c : PacketClass) → c.Object → List (List UInt8)
  | chatMessage => fun p => [p.pkt.sender.toList, p.pkt.message.toList]
  | chatBroadcast => fun p => [p.body.sender.toList, p.body.message.toList]
  | loginReq => fun p => [p.body.nickname.toList]
  | loginAck => fun p => if p.body.accepted ≠ 0 then [] else [p.body.reason.toList]
  | exit => fun _ => []
  | userCount => fun _ => []
  | userCountReq => fun _ => []
  | userCountAck => fun _ => []

/-- No read of a text leaves its array. -/
def ReadsInside (c : PacketClass) (p : c.Object) : Prop := ∀ text ∈ c.unbounded p, 0 ∈ text

/-- The sender of the packet terminated the texts that are read. -/
def Terminated : PacketClass → List UInt8 → Prop
  | chatBroadcast => fun buffer =>
    0 ∈ (buffer.drop 4).take 32 ∧ 0 ∈ (buffer.drop 36).take 256
  | loginReq => fun buffer => 0 ∈ (buffer.drop 4).take 32
  | loginAck => fun buffer => buffer.getD 12 0 = 0 → 0 ∈ (buffer.drop 13).take 64
  | _ => fun _ => True

end PacketClass

end IocpChat
