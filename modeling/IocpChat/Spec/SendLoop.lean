import IocpChat.Spec.Requests

/-! The sending side of `EchoClient.cpp`: what `sendLoop` sends for each typed line, and
how much of it `sendBytesAll` gets out. Texts that are not ASCII are in code page 949, as
the bytes of the source file. -/

namespace IocpChat

/-- "/나가기" -/
def exitCommand : List UInt8 := [47, 179, 170, 176, 161, 177, 226]

/-- "/접속자수" -/
def userCountCommand : List UInt8 := [47, 193, 162, 188, 211, 192, 218, 188, 246]

/-- "/에러로그" -/
def errorLogCommand : List UInt8 := [47, 191, 161, 183, 175, 183, 206, 177, 215]

/-- "Unknown" -/
def unknownSender : List UInt8 := [85, 110, 107, 110, 111, 119, 110]

/-- The `FakePacket` of the error-log command. -/
def fakePacket : List UInt8 :=
  (⟨9999, PacketType.chatMessage.toId⟩ : PacketHeader).toBytes ++ List.replicate 4 0

/-- `sendBytesAll`, for what the calls of `::send` return: whether all was sent, and the
bytes that were. A call takes at most the bytes it is given, and behind the last one
every call fails. -/
def sendBytesAll : List ℤ → List UInt8 → Bool × List UInt8
  | _, [] => (true, [])
  | [], _ :: _ => (false, [])
  | s :: results, b :: data =>
    if s ≤ 0 then (false, [])
    else
      let (ok, sent) := sendBytesAll results ((b :: data).drop s.toNat)
      (ok, (b :: data).take s.toNat ++ sent)

/-- What `sendLoop` passes to `sendPacket`, or to `sendBytesAll` for the error log. -/
inductive Request
  | login (name : List UInt8)
  | chatMessage (data : ChatMessageData)
  | userCount
  | exit (nick : List UInt8)
  | errorLog
  deriving DecidableEq

/-- A call of `sendBytesAll`, with what it returned and the bytes it got out. -/
structure Transmission where
  request : Request
  ok : Bool
  sent : List UInt8
  deriving DecidableEq

structure EchoClient where
  nickname : List UInt8
  running : Bool
  /-- History: the calls of `sendBytesAll`. -/
  sent : List Transmission
  deriving DecidableEq

inductive Input
  /-- A line, read when the clock shows `now`; `results` are those of `::send`. -/
  | line (text : List UInt8) (now : UInt64) (results : List ℤ)
  /-- The input ends, or the receiving thread calls `stop`. -/
  | stop
  deriving DecidableEq

variable (crt : StrncpyS)

def Request.bytes : Request → List UInt8
  | login name => PKLoginReq.serialize (.ofName name)
  | chatMessage data => PKChatMessage.serialize (.ofData crt data)
  | userCount => PKUserCountReq.serialize .new
  | exit nick => PKExit.serialize (.ofNick nick)
  | errorLog => fakePacket

namespace EchoClient

/-- A client before `run`. -/
def new (nickname : List UInt8) : EchoClient := ⟨nickname, true, []⟩

/-- All bytes sent so far. -/
def wire (c : EchoClient) : List UInt8 := c.sent.flatMap (·.sent)

/-- `sendPacket`, also the direct call of `sendBytesAll`. -/
def sendPacket (c : EchoClient) (r : Request) (results : List ℤ) : Bool × EchoClient :=
  let (ok, bytes) := sendBytesAll results (r.bytes crt)
  (ok, { c with sent := c.sent ++ [⟨r, ok, bytes⟩] })

/-- One iteration of `sendLoop`. -/
def sendLine (c : EchoClient) (line : List UInt8) (now : UInt64) (results : List ℤ) : EchoClient :=
  if c.nickname.isEmpty ∧ line ≠ exitCommand ∧ line ≠ userCountCommand ∧ line ≠ errorLogCommand then
    (sendPacket crt { c with nickname := line } (.login line) results).2
  else if line = exitCommand then
    { (sendPacket crt c (.exit c.nickname) results).2 with running := false }
  else if line = userCountCommand then (sendPacket crt c .userCount results).2
  else if line = errorLogCommand then (sendPacket crt c .errorLog results).2
  else
    let sender := if c.nickname.isEmpty then unknownSender else c.nickname
    let (ok, c) := sendPacket crt c (.chatMessage ⟨sender, line, now⟩) results
    { c with running := ok }

/-- `sendLoop` goes on while the client runs. -/
def step (c : EchoClient) : Input → Option EchoClient
  | .line text now results => if c.running then some (sendLine crt c text now results) else none
  | .stop => some { c with running := false }

end EchoClient

end IocpChat
