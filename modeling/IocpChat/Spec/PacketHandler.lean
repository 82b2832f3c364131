import IocpChat.Spec.Packets
import IocpChat.Spec.SendClose

/-! `PacketHandler.cpp`. Texts that are not ASCII are in code page 949, as the
bytes of the source file. -/

namespace IocpChat

/-- The characters of an ASCII literal. -/
def ascii (s : String) : List UInt8 := s.toList.map fun c => UInt8.ofNat c.toNat

/-- `std::to_string` of an unsigned number. -/
def decimal (n : ℕ) : List UInt8 := ascii (toString n)

/-- "[서버] 아이디를 입력하세요. 첫 번째 메시지가 아이디로 등록됩니다.\n" -/
def kAskId : List UInt8 :=
  [91, 188, 173, 185, 246, 93, 32, 190, 198, 192, 204, 181, 240, 184, 166, 32, 192, 212, 183, 194,
    199, 207, 188, 188, 191, 228, 46, 32, 195, 185, 32, 185, 248, 194, 176, 32, 184, 222, 189, 195,
    193, 246, 176, 161, 32, 190, 198, 192, 204, 181, 240, 183, 206, 32, 181, 238, 183, 207, 181,
    203, 180, 207, 180, 217, 46, 10]

/-- "서버" -/
def serverName : List UInt8 := [188, 173, 185, 246]

/-- "알수없음" -/
def unknownName : List UInt8 := [190, 203, 188, 246, 190, 248, 192, 189]

/-- " 님이 퇴장했습니다." -/
def exitSuffix : List UInt8 :=
  [32, 180, 212, 192, 204, 32, 197, 240, 192, 229, 199, 223, 189, 192, 180, 207, 180, 217, 46]

variable (env : Env)

def onClientConnected (s : ℕ) (σ : Server) : Server :=
  let σ := σ.emit (.log .info (ascii "New connection: session=" ++ decimal (σ.sessions s).id))
  enqueueSend env s kAskId σ

/-- The packet a `ChatMessage` is relayed as. -/
def chatRelay (safe : ChatMessagePacket) : List UInt8 :=
  PKChatBroadcast.serialize (.ofFields (safe.toBytes.drop 4) (safe.toBytes.drop 36) 0)

/-- `safe` in `HandleChatMessage` -/
def ChatMessagePacket.safe (pkt : ChatMessagePacket) : ChatMessagePacket :=
  { pkt with sender := terminate pkt.sender, message := terminate pkt.message }

def handleChatMessage (sender : ℕ) (pkt : ChatMessagePacket) (σ : Server) : Server :=
  let safe := pkt.safe
  let d := toData safe
  let id := (σ.sessions sender).id
  let σ := σ.emit (.log .info (ascii "Chat [session " ++ decimal id ++ ascii "] [" ++ d.sender ++
    ascii "] " ++ d.message))
  let bytes := chatRelay safe
  broadcast env bytes (some sender) (σ.emit (.broadcast sender id bytes))

/-- `name` in `HandleExit`: the nickname, or a text for an empty one. -/
def exitName (req : PKExit) : List UInt8 :=
  let name := terminate (strncpy (Chars.zero 32) req.body.nickname.toList 31)
  if name.toList.headD 0 = 0 then cstr (terminate (strncpy name unknownName 31)).toList
  else cstr name.toList

/-- The packet an exit is announced with. -/
def exitNotice (req : PKExit) : List UInt8 :=
  PKChatBroadcast.serialize (.ofFields serverName (exitName req ++ exitSuffix) 0)

def handleExit (s : ℕ) (buf : List UInt8) (σ : Server) : Server :=
  let id := (σ.sessions s).id
  let σ := σ.emit (.log .info (ascii "Exit packet: session=" ++ decimal id))
  if buf.length < kHeaderSize + PKExitBody.layout.size then
    closeSession s (σ.emit (.log .warn (ascii "Exit packet too short (session=" ++ decimal id ++
      ascii ")")))
  else
    let bytes := exitNotice (PKExit.new.deserialize buf)
    closeSession s (broadcast env bytes (some s) (σ.emit (.broadcast s id bytes)))

def handleUserCount (s : ℕ) (σ : Server) : Server :=
  let σ := σ.emit (.log .info (ascii "UserCount request from session=" ++
    decimal (σ.sessions s).id))
  enqueueSend env s (PKUserCountAck.serialize (.ofCount (getCurrentConnectionCount σ))) σ

def handleLogin (s : ℕ) (buf : List UInt8) (σ : Server) : Server :=
  let id := (σ.sessions s).id
  let name := (PKLoginReq.new.deserialize buf).body.nickname.toList
  let accepted : Bool := name.headD 0 ≠ 0
  let ack := PKLoginAck.ofFields (UInt64.ofNat id) accepted
    (if accepted then [] else ascii "invalid nickname") (getCurrentConnectionCount σ)
  (enqueueSend env s (PKLoginAck.serialize ack) σ).emit (.log .info (ascii "LoginReq from session=" ++
    decimal id ++ ascii " nick='" ++ cstr name ++ ascii "' accepted=" ++
    ascii (if accepted then "1" else "0")))

/-- `IsHeaderValid` -/
def isHeaderValid (h : PacketHeader) : Bool := kHeaderSize ≤ h.size.toNat

/-- The `else` branch of each case of the dispatcher. -/
def sizeMismatch (what : String) (expected : ℕ) (s : ℕ) (h : PacketHeader) (σ : Server) : Server :=
  σ.emit (.log .error (ascii ("Size mismatch for " ++ what ++ " expected=") ++ decimal expected ++
    ascii " got=" ++ decimal h.size.toNat ++ ascii " (session=" ++ decimal (σ.sessions s).id ++
    ascii ")"))

def processOnePacket (s : ℕ) (buf : List UInt8) (σ : Server) : Server :=
  if buf.length < kHeaderSize then
    σ.emit (.log .error (ascii "Invalid packet: too short (len=" ++ decimal buf.length ++
      ascii ")"))
  else
    let h := PacketHeader.ofBytes buf
    let session := decimal (σ.sessions s).id
    if !isHeaderValid h || buf.length < h.size.toNat then
      σ.emit (.log .error (ascii "Invalid header or size mismatch (session=" ++ session ++ ascii ")"))
    else if h.id = PacketType.loginReq.toId then
      if h.size.toNat = kHeaderSize + PKLoginReqBody.layout.size then handleLogin env s buf σ
      else sizeMismatch "LoginReq." (kHeaderSize + PKLoginReqBody.layout.size) s h σ
    else if h.id = PacketType.chatMessage.toId then
      if h.size.toNat = ChatMessagePacket.size then
        handleChatMessage env s (.ofBytes buf) σ
      else sizeMismatch "ChatMessage packet." ChatMessagePacket.size s h σ
    else if h.id = PacketType.exit.toId then
      if h.size.toNat = kHeaderSize + PKExitBody.layout.size then handleExit env s buf σ
      else sizeMismatch "Exit packet." (kHeaderSize + PKExitBody.layout.size) s h σ
    else if h.id = PacketType.userCountReq.toId then
      if h.size.toNat = kHeaderSize then handleUserCount env s σ
      else sizeMismatch "UserCount packet." kHeaderSize s h σ
    else
      σ.emit (.log .error (ascii "Unknown packet id=" ++ decimal h.id.toNat ++ ascii " size=" ++
        decimal h.size.toNat ++ ascii " (session=" ++ session ++ ascii ")"))

def onPacket (s : ℕ) (packet : List UInt8) (σ : Server) : Server :=
  if packet.length < kHeaderSize then
    σ.emit (.log .error (ascii "OnPacket: too short (session=" ++ decimal (σ.sessions s).id ++
      ascii ")"))
  else processOnePacket env s packet σ

end IocpChat
