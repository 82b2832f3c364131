import IocpChat.Lib.Packed
import IocpChat.Spec.Framer

/-! The packet classes of `Common/`. A body is a packed struct; what a class
does with it is the same for all the classes whose packets are a header and a
body, so it is written once for a layout and named per class below. -/

namespace IocpChat

open LittleEndian

inductive PacketType
  | none
  | chatMessage
  | exit
  | userCount
  | chatBroadcast
  | loginReq
  | loginAck
  | userCountReq
  | userCountAck
  deriving DecidableEq

def PacketType.toId : PacketType → UInt16
  | .none => 0
  | .chatMessage => 1
  | .exit => 2
  | .userCount => 3
  | .chatBroadcast => 10
  | .loginReq => 11
  | .loginAck => 12
  | .userCountReq => 13
  | .userCountAck => 14

/-! ### Character arrays and C strings -/

/-- `char[n]` -/
abbrev Chars (n : ℕ) := List.Vector UInt8 n

/-- A zeroed array. -/
def Chars.zero (n : ℕ) : Chars n := List.Vector.replicate n 0

/-- The C string that starts at the first of these bytes. -/
def cstr (mem : List UInt8) : List UInt8 := mem.takeWhile (· ≠ 0)

/-- `strncpy(dst, src, count)`: at most `count` characters, padded with zeros. -/
def strncpy {n : ℕ} (dst : Chars n) (src : List UInt8) (count : ℕ) : Chars n :=
  ⟨((cstr src ++ List.replicate count 0).take count ++ dst.toList.drop count).take n, by
    simp only [List.length_take, List.length_append, List.length_replicate, List.length_drop,
      List.Vector.toList_length]
    omega⟩

/-- `dst[sizeof(dst) - 1] = '\0'` -/
def terminate {n : ℕ} (dst : Chars n) : Chars n :=
  ⟨dst.toList.set (n - 1) 0, by simp⟩

/-- `memcpy(out.data() + off, src, n)` into a vector; bytes that would land
behind its end are not part of it. -/
def memcpyAt (out : List UInt8) (off : ℕ) (src : List UInt8) : List UInt8 :=
  (out.take off ++ src ++ out.drop (off + src.length)).take out.length

/-- A `memcpy` to `out.data() + offset`. -/
structure Write where
  offset : ℕ
  length : ℕ
  deriving DecidableEq

/-- The bytes written lie in a vector of `n` bytes. -/
def Write.Inside (w : Write) (n : ℕ) : Prop := w.offset + w.length ≤ n

instance (w : Write) (n : ℕ) : Decidable (w.Inside n) := inferInstanceAs (Decidable (_ ≤ _))

/-! ### Packets with a header and a body -/

structure Packet (β : Type) where
  header : PacketHeader
  body : β

section Packet

variable {β : Type} (t : PacketType) (fmt : Packed β)

/-- A class's own header over a body. -/
def Packet.new (body : β) : Packet β :=
  ⟨⟨UInt16.ofNat (kHeaderSize + fmt.size), t.toId⟩, body⟩

def Packet.serialize (p : Packet β) : List UInt8 :=
  memcpyAt (memcpyAt (List.replicate p.header.size.toNat 0) 0 p.header.toBytes) kHeaderSize
    (fmt.toBytes p.body)

/-- What `Serialize` writes to its vector of `header.size` bytes. -/
def Packet.writes (p : Packet β) : List Write :=
  [⟨0, p.header.toBytes.length⟩, ⟨kHeaderSize, (fmt.toBytes p.body).length⟩]

def Packet.isValid (buffer : List UInt8) : Bool :=
  if buffer.length < kHeaderSize + fmt.size then false
  else
    let h := PacketHeader.ofBytes buffer
    h.id == t.toId && h.size.toNat == kHeaderSize + fmt.size

def Packet.deserialize (p : Packet β) (buffer : List UInt8) : Packet β :=
  if Packet.isValid t fmt buffer then
    ⟨PacketHeader.ofBytes buffer, fmt.ofBytes (buffer.drop kHeaderSize)⟩
  else p

/-- A packet that announces its class and its full size. -/
def Packet.OwnHeader (p : Packet β) : Prop :=
  p.header.id = t.toId ∧ p.header.size.toNat = kHeaderSize + fmt.size

end Packet

/-! ### The bodies -/

structure PKLoginReqBody where
  nickname : Chars 32
  deriving DecidableEq

structure PKExitBody where
  nickname : Chars 32
  deriving DecidableEq

structure PKUserCountAckBody where
  count : Int32
  deriving DecidableEq

structure PKLoginAckBody where
  sessionId : UInt64
  accepted : UInt8
  reason : Chars 64
  currentUsers : Int32
  deriving DecidableEq

structure PKChatBroadcastBody where
  sender : Chars 32
  message : Chars 256
  timestampMs : UInt64
  deriving DecidableEq

def uint8Layout : Packed UInt8 :=
  .number 1 UInt8.toNat UInt8.ofNat (fun b => b.toNat_lt) (fun _ => UInt8.ofNat_toNat)
    fun _ h => UInt8.toNat_ofNat_of_lt' h

def uint64Layout : Packed UInt64 :=
  .number 8 UInt64.toNat UInt64.ofNat (fun b => b.toNat_lt) (fun _ => UInt64.ofNat_toNat)
    fun _ h => UInt64.toNat_ofNat_of_lt' h

def int32Layout : Packed Int32 :=
  .number 4 (fun x => x.toBitVec.toNat) (fun n => .ofBitVec (.ofNat 32 n))
    (fun x => x.toBitVec.isLt)
    (fun x => by rw [BitVec.ofNat_toNat, BitVec.setWidth_eq]; rfl)
    fun n h => by rw [Int32.toBitVec_ofBitVec, BitVec.toNat_ofNat, Nat.mod_eq_of_lt (h.trans_eq (by norm_num))]

def PKLoginReqBody.layout : Packed PKLoginReqBody :=
  (Packed.array 32).iso (·.nickname) (⟨·⟩) (fun _ => rfl) fun _ => rfl

def PKExitBody.layout : Packed PKExitBody :=
  (Packed.array 32).iso (·.nickname) (⟨·⟩) (fun _ => rfl) fun _ => rfl

def PKUserCountAckBody.layout : Packed PKUserCountAckBody :=
  int32Layout.iso (·.count) (⟨·⟩) (fun _ => rfl) fun _ => rfl

def PKLoginAckBody.layout : Packed PKLoginAckBody :=
  (uint64Layout.pair (uint8Layout.pair ((Packed.array 64).pair int32Layout))).iso
    (fun b => (b.sessionId, b.accepted, b.reason, b.currentUsers))
    (fun t => ⟨t.1, t.2.1, t.2.2.1, t.2.2.2⟩) (fun _ => rfl) fun _ => rfl

def PKChatBroadcastBody.layout : Packed PKChatBroadcastBody :=
  ((Packed.array 32).pair ((Packed.array 256).pair uint64Layout)).iso
    (fun b => (b.sender, b.message, b.timestampMs))
    (fun t => ⟨t.1, t.2.1, t.2.2⟩) (fun _ => rfl) fun _ => rfl

/-! ### The classes -/

abbrev PKLoginReq := Packet PKLoginReqBody
abbrev PKExit := Packet PKExitBody
abbrev PKUserCountAck := Packet PKUserCountAckBody
abbrev PKLoginAck := Packet PKLoginAckBody
abbrev PKChatBroadcast := Packet PKChatBroadcastBody

namespace PKLoginReq

def new : PKLoginReq := Packet.new .loginReq PKLoginReqBody.layout ⟨.zero 32⟩

/-- `PKLoginReq(h)`: the header as it is given, over a zeroed body. -/
def ofHeader (h : PacketHeader) : PKLoginReq := ⟨h, ⟨.zero 32⟩⟩

def serialize (p : PKLoginReq) : List UInt8 := Packet.serialize PKLoginReqBody.layout p

def isValid (buffer : List UInt8) : Bool := Packet.isValid .loginReq PKLoginReqBody.layout buffer

def deserialize (p : PKLoginReq) (buffer : List UInt8) : PKLoginReq :=
  Packet.deserialize .loginReq PKLoginReqBody.layout p buffer

end PKLoginReq

namespace PKExit

def new : PKExit := Packet.new .exit PKExitBody.layout ⟨.zero 32⟩

/-- `PKExit(h)` -/
def ofHeader (h : PacketHeader) : PKExit := ⟨h, ⟨.zero 32⟩⟩

def serialize (p : PKExit) : List UInt8 := Packet.serialize PKExitBody.layout p

def isValid (buffer : List UInt8) : Bool := Packet.isValid .exit PKExitBody.layout buffer

def deserialize (p : PKExit) (buffer : List UInt8) : PKExit :=
  Packet.deserialize .exit PKExitBody.layout p buffer

end PKExit

namespace PKUserCountAck

def new : PKUserCountAck := Packet.new .userCountAck PKUserCountAckBody.layout ⟨0⟩

/-- `PKUserCountAck(h)` -/
def ofHeader (h : PacketHeader) : PKUserCountAck := ⟨h, ⟨0⟩⟩

def ofCount (c : Int32) : PKUserCountAck := Packet.new .userCountAck PKUserCountAckBody.layout ⟨c⟩

def serialize (p : PKUserCountAck) : List UInt8 := Packet.serialize PKUserCountAckBody.layout p

def isValid (buffer : List UInt8) : Bool :=
  Packet.isValid .userCountAck PKUserCountAckBody.layout buffer

def deserialize (p : PKUserCountAck) (buffer : List UInt8) : PKUserCountAck :=
  Packet.deserialize .userCountAck PKUserCountAckBody.layout p buffer

end PKUserCountAck

namespace PKLoginAck

def new : PKLoginAck := Packet.new .loginAck PKLoginAckBody.layout ⟨0, 0, .zero 64, 0⟩

/-- `PKLoginAck(h)` -/
def ofHeader (h : PacketHeader) : PKLoginAck := ⟨h, ⟨0, 0, .zero 64, 0⟩⟩

/-- `PKLoginAck(sid, ok, why, curUsers)`: here `strncpy` may fill the array, the
terminator is written afterwards. -/
def ofFields (sid : UInt64) (ok : Bool) (why : List UInt8) (curUsers : Int32) : PKLoginAck :=
  let p := new
  { p with
    body := { sessionId := sid
              accepted := if ok then 1 else 0
              reason := terminate (strncpy p.body.reason why 64)
              currentUsers := curUsers } }

def serialize (p : PKLoginAck) : List UInt8 := Packet.serialize PKLoginAckBody.layout p

def isValid (buffer : List UInt8) : Bool := Packet.isValid .loginAck PKLoginAckBody.layout buffer

def deserialize (p : PKLoginAck) (buffer : List UInt8) : PKLoginAck :=
  Packet.deserialize .loginAck PKLoginAckBody.layout p buffer

end PKLoginAck

namespace PKChatBroadcast

def new : PKChatBroadcast :=
  Packet.new .chatBroadcast PKChatBroadcastBody.layout ⟨.zero 32, .zero 256, 0⟩

/-- `PKChatBroadcast(nick, msg, ts)` -/
def ofFields (nick msg : List UInt8) (ts : UInt64) : PKChatBroadcast :=
  let p := new
  { p with
    body := { sender := terminate (strncpy p.body.sender nick 31)
              message := terminate (strncpy p.body.message msg 255)
              timestampMs := ts } }

def serialize (p : PKChatBroadcast) : List UInt8 := Packet.serialize PKChatBroadcastBody.layout p

def isValid (buffer : List UInt8) : Bool :=
  Packet.isValid .chatBroadcast PKChatBroadcastBody.layout buffer

def deserialize (p : PKChatBroadcast) (buffer : List UInt8) : PKChatBroadcast :=
  Packet.deserialize .chatBroadcast PKChatBroadcastBody.layout p buffer

end PKChatBroadcast

/-! ### The chat message on the wire -/

/-- `ChatMessagePacket`: its fields lie behind the header as a broadcast's do. -/
structure ChatMessagePacket where
  header : PacketHeader
  sender : Chars 32
  message : Chars 256
  timestamp : UInt64
  deriving DecidableEq

/-- `sizeof(ChatMessagePacket)` -/
def ChatMessagePacket.size : ℕ := 300

/-- The struct a `memcpy` of its size gives. -/
def ChatMessagePacket.ofBytes (bs : List UInt8) : ChatMessagePacket :=
  let body := PKChatBroadcastBody.layout.ofBytes (bs.drop kHeaderSize)
  ⟨PacketHeader.ofBytes bs, body.sender, body.message, body.timestampMs⟩

def ChatMessagePacket.toBytes (p : ChatMessagePacket) : List UInt8 :=
  p.header.toBytes ++ PKChatBroadcastBody.layout.toBytes ⟨p.sender, p.message, p.timestamp⟩

structure ChatMessageData where
  sender : List UInt8
  message : List UInt8
  timestamp : UInt64
  deriving DecidableEq

/-- `ToData`: the fields as C strings, each read from where its array starts. -/
def toData (pkt : ChatMessagePacket) : ChatMessageData where
  sender := cstr (pkt.toBytes.drop 4)
  message := cstr (pkt.toBytes.drop 36)
  timestamp := pkt.timestamp

end IocpChat
