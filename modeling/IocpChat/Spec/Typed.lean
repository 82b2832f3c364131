import IocpChat.Spec.Client
import IocpChat.Spec.Dispatch
import IocpChat.Spec.SendLoop
import IocpChat.Spec.Stream

/-! What becomes of a line that is typed: its request, the handler that is called for it, and the
texts that the other clients show. -/

namespace IocpChat

/-- The handler that is called for what the framer delivers, with its buffer. -/
def Delivery.invocation : Delivery → Option (Handler × List UInt8)
  | .packet bytes => (dispatch bytes).map (·, bytes)
  | .malformed => none

/-- The handlers called so far for connection `k` of Session `s`. -/
def Server.invoked (σ : Server) (s k : ℕ) : List (Handler × List UInt8) :=
  (σ.deliveries s k).filterMap Delivery.invocation

def Request.handler : Request → Option Handler
  | login _ => some .login
  | chatMessage _ => some .chatMessage
  | userCount => some .userCount
  | exit _ => some .exit
  | errorLog => none

/-- What the request of a transmission asks for, if `sendPacket` returned true for it. -/
def Transmission.invocation (t : Transmission) : Option (Handler × List UInt8) :=
  if t.ok then t.request.handler.map (·, t.sent) else none

/-- The requests among the first `n` bytes of some transmissions. -/
def requestsIn : ℕ → List Transmission → List (Handler × List UInt8)
  | _, [] => []
  | n, t :: ts =>
    if t.sent.length ≤ n then t.invocation.toList ++ requestsIn (n - t.sent.length) ts else []

/-- Nothing of a transmission is missing that the server waits for: it got nothing out, or
a whole packet that is as long as it announces. -/
def Transmission.Whole (t : Transmission) : Prop :=
  t.sent = [] ∨ t.ok = true ∧ t.request ≠ .errorLog

instance (t : Transmission) : Decidable t.Whole := inferInstanceAs (Decidable (_ ∨ _))

/-- The line gets nothing out: its first `::send` fails. -/
def Input.Silent : Input → Prop
  | .line _ _ results => ∀ r ∈ results.head?, r ≤ 0
  | .stop => True

instance : ∀ e : Input, Decidable e.Silent
  | .line _ _ results => inferInstanceAs (Decidable (∀ r ∈ results.head?, r ≤ 0))
  | .stop => isTrue trivial

/-- Nothing is sent behind a packet that is not whole. -/
def EchoClient.Keeps (c : EchoClient) (e : Input) : Prop :=
  (∀ t ∈ c.sent, t.Whole) ∨ e.Silent

instance (c : EchoClient) (e : Input) : Decidable (c.Keeps e) :=
  inferInstanceAs (Decidable (_ ∨ _))

/-! ### Names and texts -/

/-- A text in a zeroed array of `n` bytes. -/
def padded (n : ℕ) (text : List UInt8) : List UInt8 := text ++ List.replicate (n - text.length) 0

/-- The bytes are a broadcast of the packet's texts, cut, terminated and padded. -/
def Relayed (pkt : ChatMessagePacket) (bytes : List UInt8) : Prop :=
  PKChatBroadcast.isValid bytes = true ∧ ∀ q,
    (PKChatBroadcast.deserialize q bytes).body.sender.toList =
      padded 32 ((cstr pkt.sender.toList).take 31) ∧
    (PKChatBroadcast.deserialize q bytes).body.message.toList =
      padded 256 ((cstr pkt.message.toList).take 255)

/-- What is left of a nickname in an array of 32 bytes. -/
def shortName (nick : List UInt8) : List UInt8 := (cstr nick).take 31

/-- The request is built from this nickname. -/
def Request.Carries (nick : List UInt8) : Request → Prop
  | login name => name = nick
  | chatMessage data => data.sender = nick
  | exit name => name = nick
  | userCount | errorLog => False

/-- The name that the handler of the request works with. -/
def Request.nameAtServer (crt : StrncpyS) (r : Request) : Option (List UInt8) :=
  match r with
  | login _ => some (cstr (PKLoginReq.new.deserialize (r.bytes crt)).body.nickname.toList)
  | chatMessage _ => some (toData (ChatMessagePacket.ofBytes (r.bytes crt)).safe).sender
  | exit _ => some (exitName (PKExit.new.deserialize (r.bytes crt)))
  | userCount | errorLog => none

end IocpChat
