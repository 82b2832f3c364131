import IocpChat.Spec.PacketHandler
import IocpChat.Spec.Requests

/-! The handlers that `ProcessOnePacket` chooses from, the packets each is for, and what is
promised of each. -/

namespace IocpChat

inductive Handler
  | login
  | chatMessage
  | exit
  | userCount
  deriving DecidableEq

namespace Handler

/-- The type of the packets a handler is for; `length` is their size in bytes. -/
def type : Handler → PacketType
  | login => .loginReq
  | chatMessage => .chatMessage
  | exit => .exit
  | userCount => .userCountReq

def length : Handler → ℕ
  | login => kHeaderSize + PKLoginReqBody.layout.size
  | chatMessage => ChatMessagePacket.size
  | exit => kHeaderSize + PKExitBody.layout.size
  | userCount => kHeaderSize

def run (env : Env) (s : ℕ) (buf : List UInt8) (σ : Server) : Handler → Server
  | login => handleLogin env s buf σ
  | chatMessage => handleChatMessage env s (.ofBytes buf) σ
  | exit => handleExit env s buf σ
  | userCount => handleUserCount env s σ

/-- The grammar of the dispatcher. -/
def Takes (h : Handler) (buf : List UInt8) : Prop :=
  kHeaderSize ≤ buf.length ∧ (PacketHeader.ofBytes buf).size.toNat ≤ buf.length ∧
    (PacketHeader.ofBytes buf).id = h.type.toId ∧
    (PacketHeader.ofBytes buf).size.toNat = h.length

instance (h : Handler) (buf : List UInt8) : Decidable (h.Takes buf) :=
  inferInstanceAs (Decidable (_ ∧ _))

end Handler

/-- The handler that `ProcessOnePacket` calls. -/
def dispatch (buf : List UInt8) : Option Handler :=
  [.login, .chatMessage, .exit, .userCount].find? fun h : Handler => h.Takes buf

/-- The server goes on to do what `es` says. -/
def Server.record (σ : Server) (es : List Effect) : Server := { σ with trace := σ.trace ++ es }

def Effect.isLog : Effect → Bool
  | .log .. => true
  | _ => false

/-- The messages handed to `WSASend`. -/
def Effect.batch : Effect → List Msg
  | .wsaSend _ _ _ batch _ => batch
  | _ => []

/-- Besides what is logged, the buffer is answered with one packet: behind what was queued
for the open Session of its sender stands the packet, of which a prefix may have been
handed to `WSASend` already. A closed Session and all others stay as they were. -/
structure Answers (s : ℕ) (packet : List UInt8) (σ σ' : Server) : Prop where
  others : ∀ t, t ≠ s → σ'.sessions t = σ.sessions t
  closed : (σ.sessions s).closing = true →
    ∃ es, (∀ e ∈ es, e.isLog = true) ∧ σ' = σ.record es
  opened : (σ.sessions s).closing = false →
    ∃ es, σ'.trace = σ.trace ++ es ∧ es.flatMap Effect.batch ++ (σ'.sessions s).sendQueue =
      (σ.sessions s).sendQueue ++ [⟨(σ.sessions s).id, packet⟩]

/-- What is promised of a handler that was called for a buffer. -/
def Handler.Serves (s : ℕ) (buf : List UInt8) (σ σ' : Server) : Handler → Prop
  | login => PKLoginReq.isValid buf = true ∧
    (PKLoginReq.new.deserialize buf).body = PKLoginReqBody.layout.ofBytes (buf.drop kHeaderSize) ∧
    ∃ ack : PKLoginAck, ack.OwnHeader .loginAck PKLoginAckBody.layout ∧
      ack.body.sessionId = UInt64.ofNat (σ.sessions s).id ∧
      ack.body.accepted = (if buf.getD 4 0 ≠ 0 then 1 else 0) ∧
      ack.body.currentUsers = getCurrentConnectionCount σ ∧
      Answers s (PKLoginAck.serialize ack) σ σ'
  | chatMessage => (ChatMessagePacket.ofBytes buf).toBytes = buf.take ChatMessagePacket.size
  | exit => PKExit.isValid buf = true ∧
    (PKExit.new.deserialize buf).body = PKExitBody.layout.ofBytes (buf.drop kHeaderSize)
  | userCount =>
    ∃ ack : PKUserCountAck, ack.OwnHeader .userCountAck PKUserCountAckBody.layout ∧
      ack.body.count = getCurrentConnectionCount σ ∧
      Answers s (PKUserCountAck.serialize ack) σ σ'

end IocpChat
