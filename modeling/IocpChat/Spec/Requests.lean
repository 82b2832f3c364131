import IocpChat.Spec.Packets

/-! The packets a client builds: the constructors of its requests, the classes whose
packets are a header only, and `PKChatMessage` with its conversion from a message. A
null text counts as the empty one. -/

namespace IocpChat

/-- `PKLoginReq(name)`: here `strncpy` may fill the array, the terminator is written
afterwards. -/
def PKLoginReq.ofName (name : List UInt8) : PKLoginReq :=
  let p := PKLoginReq.new
  { p with body := { nickname := terminate (strncpy p.body.nickname name 32) } }

/-- `PKExit(nick)` -/
def PKExit.ofNick (nick : List UInt8) : PKExit :=
  let p := PKExit.new
  { p with body := { nickname := terminate (strncpy p.body.nickname nick 31) } }

/-! ### Packets without a body -/

structure HeaderPacket where
  header : PacketHeader
  deriving DecidableEq

section HeaderPacket

variable (t : PacketType)

def HeaderPacket.serialize (p : HeaderPacket) : List UInt8 :=
  memcpyAt (List.replicate kHeaderSize 0) 0 p.header.toBytes

def HeaderPacket.writes (p : HeaderPacket) : List Write := [⟨0, p.header.toBytes.length⟩]

def HeaderPacket.isValid (buffer : List UInt8) : Bool :=
  if buffer.length < kHeaderSize then false
  else
    let h := PacketHeader.ofBytes buffer
    h.id == t.toId && h.size.toNat == kHeaderSize

def HeaderPacket.deserialize (p : HeaderPacket) (buffer : List UInt8) : HeaderPacket :=
  if HeaderPacket.isValid t buffer then ⟨PacketHeader.ofBytes buffer⟩ else p

end HeaderPacket

abbrev PKUserCount := HeaderPacket
abbrev PKUserCountReq := HeaderPacket

namespace PKUserCount

def new : PKUserCount := ⟨⟨UInt16.ofNat kHeaderSize, PacketType.userCount.toId⟩⟩

/-- `PKUserCount(h)` -/
def ofHeader (h : PacketHeader) : PKUserCount := ⟨h⟩

def serialize (p : PKUserCount) : List UInt8 := HeaderPacket.serialize p

def isValid (buffer : List UInt8) : Bool := HeaderPacket.isValid .userCount buffer

def deserialize (p : PKUserCount) (buffer : List UInt8) : PKUserCount :=
  HeaderPacket.deserialize .userCount p buffer

end PKUserCount

namespace PKUserCountReq

def new : PKUserCountReq := ⟨⟨UInt16.ofNat kHeaderSize, PacketType.userCountReq.toId⟩⟩

/-- `PKUserCountReq(h)` -/
def ofHeader (h : PacketHeader) : PKUserCountReq := ⟨h⟩

def serialize (p : PKUserCountReq) : List UInt8 := HeaderPacket.serialize p

/-- The id it compares with is that of a `UserCount`. -/
def isValid (buffer : List UInt8) : Bool := HeaderPacket.isValid .userCount buffer

def deserialize (p : PKUserCountReq) (buffer : List UInt8) : PKUserCountReq :=
  HeaderPacket.deserialize .userCount p buffer

end PKUserCountReq

/-! ### Chat messages -/

/-- `strncpy_s(dst, src, count)` of a run-time library: at most `count` characters and a
terminator. What is behind the terminator is up to the library. -/
structure StrncpyS where
  copy : ∀ {n : ℕ}, Chars n → List UInt8 → ℕ → Chars n
  copies : ∀ {n : ℕ} (dst : Chars n) (src : List UInt8) (count : ℕ), count < n →
    (cstr src).take count ++ [0] <+: (copy dst src count).toList

/-- The release library leaves what is behind the terminator as it was. -/
def StrncpyS.release : StrncpyS where
  copy {n} dst src count :=
    let text := (cstr src).take count
    ⟨(text ++ [0] ++ dst.toList.drop (text.length + 1)).take n, by
      simp only [List.length_take, List.length_append, List.length_singleton, List.length_drop,
        List.Vector.toList_length]
      omega⟩
  copies {n} dst src count h :=
    List.prefix_take_iff.mpr ⟨List.prefix_append _ _, by
      simp only [List.length_append, List.length_take, List.length_singleton]
      omega⟩

/-- The debug library fills the array behind the terminator. -/
def StrncpyS.debug : StrncpyS where
  copy {n} _ src count :=
    let text := (cstr src).take count
    ⟨(text ++ [0] ++ List.replicate (n - (text.length + 1)) 0xFE).take n, by
      simp only [List.length_take, List.length_append, List.length_singleton, List.length_replicate]
      omega⟩
  copies {n} dst src count h :=
    List.prefix_take_iff.mpr ⟨List.prefix_append _ _, by
      simp only [List.length_append, List.length_take, List.length_singleton]
      omega⟩

variable (crt : StrncpyS)

/-- `ToPacket`, into a zeroed packet. -/
def toPacket (data : ChatMessageData) : ChatMessagePacket where
  header := ⟨UInt16.ofNat ChatMessagePacket.size, PacketType.chatMessage.toId⟩
  sender := crt.copy (.zero 32) data.sender 31
  message := crt.copy (.zero 256) data.message 255
  timestamp := data.timestamp

structure PKChatMessage where
  pkt : ChatMessagePacket
  deriving DecidableEq

namespace PKChatMessage

/-- The header every constructor and `SetData` give the packet. -/
def ownHeader : PacketHeader := ⟨UInt16.ofNat ChatMessagePacket.size, PacketType.chatMessage.toId⟩

/-- `PKChatMessage()`: of the arrays only the first bytes are written, the others keep what
the memory held. -/
def new (memory : ChatMessagePacket) : PKChatMessage where
  pkt :=
    { header := ownHeader
      sender := ⟨memory.sender.toList.set 0 0, by simp⟩
      message := ⟨memory.message.toList.set 0 0, by simp⟩
      timestamp := 0 }

/-- `PKChatMessage(data)`, also `SetData(data)`. -/
def ofData (data : ChatMessageData) : PKChatMessage := ⟨{ toPacket crt data with header := ownHeader }⟩

def getData (p : PKChatMessage) : ChatMessageData := toData p.pkt

def serialize (p : PKChatMessage) : List UInt8 :=
  memcpyAt (List.replicate ChatMessagePacket.size 0) 0 p.pkt.toBytes

def writes (p : PKChatMessage) : List Write := [⟨0, p.pkt.toBytes.length⟩]

def isValid (buffer : List UInt8) : Bool :=
  if buffer.length < ChatMessagePacket.size then false
  else
    let h := PacketHeader.ofBytes buffer
    h.id == PacketType.chatMessage.toId && h.size.toNat == ChatMessagePacket.size

def deserialize (p : PKChatMessage) (buffer : List UInt8) : PKChatMessage :=
  if isValid buffer then
    let pkt := ChatMessagePacket.ofBytes buffer
    ⟨{ pkt with sender := terminate pkt.sender, message := terminate pkt.message }⟩
  else p

end PKChatMessage

end IocpChat
