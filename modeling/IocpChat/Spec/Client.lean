import IocpChat.Spec.Packets

/-! The receiving side of `EchoClient.cpp`: what the client prints for each
result of `recv`. A `Display` is one statement to the console, with the fields
it inserts into its text. -/

namespace IocpChat

inductive Display
  | loginOk (sessionId : UInt64) (currentUsers : Int32) (nickname : List UInt8)
  | loginFailed (reason : List UInt8)
  | chat (sender message : List UInt8)
  | userCount (count : Int32)
  | badLoginAck (size : UInt16)
  | badChatBroadcast (size : UInt16)
  | badUserCountAck (size : UInt16)
  | text (bytes : List UInt8)
  | disconnected
  deriving DecidableEq

/-- `sizeof(rxBuf_) - 1` -/
def recvLimit : ℕ := 4095

/-- One iteration of `EchoClient::receiveLoop`, for the bytes `recv` returned. -/
def onReceived (nickname rxBuf : List UInt8) : Display :=
  if kHeaderSize ≤ rxBuf.length then
    let header := PacketHeader.ofBytes rxBuf
    let whole (bodySize : ℕ) : Bool :=
      header.size.toNat ≤ rxBuf.length && header.size.toNat == kHeaderSize + bodySize
    if header.id = PacketType.loginAck.toId then
      if whole PKLoginAckBody.layout.size then
        let ack := PKLoginAck.deserialize PKLoginAck.new rxBuf
        if ack.body.accepted ≠ 0 then .loginOk ack.body.sessionId ack.body.currentUsers nickname
        else .loginFailed (cstr ((PKLoginAckBody.layout.toBytes ack.body).drop 9))
      else .badLoginAck header.size
    else if header.id = PacketType.chatBroadcast.toId then
      if whole PKChatBroadcastBody.layout.size then
        let b := PKChatBroadcast.deserialize PKChatBroadcast.new rxBuf
        .chat (cstr (PKChatBroadcastBody.layout.toBytes b.body))
          (cstr ((PKChatBroadcastBody.layout.toBytes b.body).drop 32))
      else .badChatBroadcast header.size
    else if header.id = PacketType.userCountAck.toId then
      if whole PKUserCountAckBody.layout.size then
        let ack := PKUserCountAck.deserialize PKUserCountAck.new rxBuf
        .userCount ack.body.count
      else .badUserCountAck header.size
    else .text (cstr rxBuf)
  else .text (cstr rxBuf)

/-- `EchoClient::receiveLoop` over the results of `recv`; an empty one ends it. -/
def receiveLoop (nickname : List UInt8) : List (List UInt8) → List Display
  | [] => []
  | rxBuf :: rest =>
    if rxBuf.length = 0 then [.disconnected]
    else onReceived nickname rxBuf :: receiveLoop nickname rest

/-- A message the server enqueues to a client behind the greeting, by the
arguments of the packet's constructor. -/
inductive ServerMessage
  | loginAck (sid : UInt64) (ok : Bool) (why : List UInt8) (curUsers : Int32)
  | chatBroadcast (nick msg : List UInt8) (ts : UInt64)
  | userCountAck (count : Int32)

def ServerMessage.serialize : ServerMessage → List UInt8
  | .loginAck sid ok why curUsers => PKLoginAck.serialize (.ofFields sid ok why curUsers)
  | .chatBroadcast nick msg ts => PKChatBroadcast.serialize (.ofFields nick msg ts)
  | .userCountAck count => PKUserCountAck.serialize (.ofCount count)

/-- What a client should print for a message: its fields, with texts cut to what
fits in front of the terminator. -/
def ServerMessage.display (nickname : List UInt8) : ServerMessage → Display
  | .loginAck sid ok why curUsers =>
    if ok then .loginOk sid curUsers nickname else .loginFailed ((cstr why).take 63)
  | .chatBroadcast nick msg _ => .chat ((cstr nick).take 31) ((cstr msg).take 255)
  | .userCountAck count => .userCount count

end IocpChat
